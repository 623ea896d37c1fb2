import NexusFlow.Foundation.Ingest

/-!
# What a change does to a scan

`View` reads the tables by key; the reads that scan a table also see the order its rows were inserted
in. A change leaves the scans of the other tables (`scan_applySqlite`), and the row it overwrites
keeps its place (`map_scan_put`).
-/

namespace NexusFlow.Foundation

namespace Db

/-- A row of one table is no row of another. -/
theorem scan_put_of_ne {db : Db} {t u : String} (h : u ≠ t) (k : Cells) (row : Row) :
    (db.put t k row).scan u = db.scan u := by
  unfold put scan
  split_ifs with hmem
  · rw [List.filter_map, List.map_map]
    have hp : ((fun e : Entry => decide (e.table = u)) ∘
        fun e => if e.table = t ∧ e.key = k then { e with row := row } else e) =
        fun e => decide (e.table = u) := by
      funext e
      simp only [Function.comp_apply]
      split_ifs <;> rfl
    rw [hp]
    refine List.map_congr_left fun e he => ?_
    have hne : ¬ (e.table = t ∧ e.key = k) := by
      rintro ⟨rfl, _⟩
      exact h (of_decide_eq_true (List.mem_filter.mp he).2).symm
    simp [hne]
  · rw [List.filter_append, List.filter_cons_of_neg (by simpa using h.symm)]
    simp

/-- **An overwritten row keeps its place**: the scan is the same in all the new row agrees on. -/
theorem map_scan_put {β : Type*} {db : Db} {t : String} {k : Cells} {old row : Row}
    (h : db.get t k = some old) (f : Row → β) (hf : f row = f old) :
    ((db.put t k row).scan t).map f = (db.scan t).map f := by
  have hmem : (t, k) ∈ db.rows.map fun e => (e.table, e.key) := by
    by_contra hnot
    rw [get_eq_none_iff.mpr hnot] at h
    cases h
  unfold put scan
  rw [dif_pos hmem, List.filter_map, List.map_map, List.map_map, List.map_map]
  have hp : ((fun e : Entry => decide (e.table = t)) ∘
      fun e => if e.table = t ∧ e.key = k then { e with row := row } else e) =
      fun e => decide (e.table = t) := by
    funext e
    simp only [Function.comp_apply]
    split_ifs <;> rfl
  rw [hp]
  refine List.map_congr_left fun e he => ?_
  simp only [Function.comp_apply]
  split_ifs with hk
  · -- the entry of the key is the old row
    have hrow := get_of_mem (List.mem_of_mem_filter he)
    rw [hk.1, hk.2, h, Option.some.injEq] at hrow
    rw [← hrow]
    exact hf
  · rfl

end Db

/-- Changes to other tables leave a scan. -/
theorem scan_applySqlite {ddl : Ddl} {changes : List Change} {t : String}
    (h : ∀ c ∈ changes, c.table ≠ t) (db : Db) : (applySqlite ddl db changes).scan t = db.scan t := by
  unfold applySqlite
  induction changes generalizing db with
  | nil => rfl
  | cons c changes ih =>
    rw [List.foldl_cons, ih fun d hd => h d (List.mem_cons_of_mem c hd)]
    exact Db.scan_put_of_ne (h c List.mem_cons_self).symm _ _

namespace Handle

variable {h : Handle} {f : File}

/-- Taking an op in applies its changes. -/
theorem views_takeIn {r : Reducer} (hr : h.reducers = [r]) (op : Op) :
    (h.takeIn f op).2.views = applySqlite r.ddl f.views (r.changesOf op) := by
  unfold takeIn Reducer.changesOf
  rw [hr, Reducer.folderFor_singleton]
  cases r.folds op with
  | true =>
    obtain ⟨w, hw⟩ := h.advanceWatermarkAfter_eq (f.fold r op) f.maxOpRowid
    simp only [if_true, hw]
    rfl
  | false =>
    obtain ⟨w, hw⟩ := h.advanceWatermarkAfter_eq f f.maxOpRowid
    simp only [Bool.false_eq_true, if_false, hw]
    rfl

/-- An op that joins the log is applied. -/
theorem views_ingestInTxn {r : Reducer} (hr : h.reducers = [r]) {op : Op} {p : Provenance}
    (hgrow : (h.ingestInTxn f op p).2.ops ≠ f.ops) :
    (h.ingestInTxn f op p).2.views = applySqlite r.ddl f.views (r.changesOf op) := by
  rcases h.ingestInTxn_cases f op p with ⟨he, _⟩ | ⟨he, _⟩ | ⟨u, he, _⟩
  · exact absurd (by rw [he]) hgrow
  · exact absurd (by rw [he]) hgrow
  · rw [he, views_takeIn hr]
    rfl

end Handle

end NexusFlow.Foundation
