import NexusFlow.Foundation.View

/-!
# Renaming cells under a fold

A `CellMap` rewrites the text cells of rows, table by table and column by column, keys included. A
fold commutes with it: folding the renamed changes gives the renamed rows (`renamed_foldl`), as long
as the map keeps the keys it meets apart. Versions are integers and stay as they are, so every
register keeps its winner.
-/

namespace NexusFlow.Foundation

/-- What becomes of the text in a column of the row `key` of `table`. -/
abbrev CellMap := String → Cells → String → String → String

/-- A cell, renamed: only text changes. -/
def Cell.rename (g : String → String) : Cell → Cell
  | .text s => .text (g s)
  | c => c

namespace CellMap

variable (g : CellMap) (table : String) (k : Cells)

/-- Cells written into the row `key`, renamed. -/
def cells (l : Cells) : Cells := l.map fun p => (p.1, p.2.rename (g table k p.1))

/-- The row's key, renamed. -/
def key : Cells := g.cells table k k

/-- The row, renamed. -/
def row (r : Row) : Row := fun c => (r c).rename (g table k c)

/-- An effect on the row `key`, renamed. -/
def effect : Effect → Effect
  | .ensure l => .ensure (g.cells table k l)
  | .put l => .put (g.cells table k l)
  | .register l version wins => .register (g.cells table k l) version wins

/-- A change, renamed. -/
def change (c : Change) : Change := ⟨c.table, g.key c.table c.key, g.effect c.table c.key c.effect⟩

/-! ## One row -/

theorem lookup_cells (l : Cells) (col : String) :
    (g.cells table k l).lookup col =
      (l.lookup col).map (Cell.rename (g table k col)) := by
  unfold cells
  induction l with
  | nil => rfl
  | cons p l ih =>
    obtain ⟨d, v⟩ := p
    rw [List.map_cons, List.lookup_cons, List.lookup_cons]
    by_cases h : col = d
    · simp [h]
    · simp [beq_eq_false_iff_ne.mpr h, ih]

theorem row_assign (r : Row) (l : Cells) :
    g.row table k (assign r l) = assign (g.row table k r) (g.cells table k l) := by
  funext col
  simp only [row, assign, lookup_cells]
  cases l.lookup col <;> rfl

theorem cells_append (l m : Cells) :
    g.cells table k (l ++ m) = g.cells table k l ++ g.cells table k m := List.map_append

theorem cells_versionCells (version : List (String × Int)) :
    g.cells table k (versionCells version) = versionCells version := by
  simp [cells, versionCells, Cell.rename, Function.comp_def]

theorem int?_rename (f : String → String) (c : Cell) : (c.rename f).int? = c.int? := by
  cases c <;> rfl

/-- A register's `WHERE` reads integers only. -/
theorem writes_row {r : Row} {version : List (String × Int)} {w : Wins} :
    Writes (g.row table k r) version w ↔ Writes r version w := by
  unfold Writes storedVersion row
  simp only [int?_rename]

theorem effect_cells (e : Effect) : (g.effect table k e).cells = g.cells table k e.cells := by
  cases e <;> rfl

theorem effect_version (e : Effect) : (g.effect table k e).version = e.version := by
  cases e <;> rfl

/-- **The renamed change leaves the renamed row.** -/
theorem rowAfter_change {ddl : Ddl} (hddl : ∀ t c, ∀ s, ddl t c ≠ .text s) (c : Change)
    (o : Option Row) :
    rowAfter ddl (g.change c) (o.map (g.row c.table c.key)) =
      g.row c.table c.key (rowAfter ddl c o) := by
  cases o with
  | none =>
    have hrow : g.row c.table c.key (ddl c.table) = ddl c.table := by
      funext col
      unfold row
      cases h : ddl c.table col with
      | text s => exact absurd h (hddl _ _ s)
      | _ => rfl
    change insertedRow ddl (g.change c) = g.row c.table c.key (insertedRow ddl c)
    unfold insertedRow
    rw [row_assign, hrow, cells_append, cells_append, cells_versionCells]
    simp only [change, effect_cells, effect_version, key]
  | some r =>
    rw [Option.map_some]
    cases he : c.effect with
    | ensure l => simp only [rowAfter, change, effect, he]
    | put l => simp only [rowAfter, change, effect, he, row_assign]
    | register l version w =>
      simp only [rowAfter, change, effect, he]
      by_cases hw : Writes r version w
      · rw [if_pos hw, if_pos ((g.writes_row c.table c.key).mpr hw), row_assign, cells_append,
          cells_versionCells]
      · rw [if_neg hw, if_neg (mt (g.writes_row c.table c.key).mp hw)]

end CellMap

/-! ## A whole fold -/

/-- `w` holds the rows of `v`, renamed, one for one. -/
structure Renamed (g : CellMap) (v w : View) : Prop where
  row : ∀ t k r, v t k = some r → w t (g.key t k) = some (g.row t k r)
  source : ∀ t k r, w t k = some r → ∃ k₀ r₀, v t k₀ = some r₀ ∧ k = g.key t k₀ ∧ r = g.row t k₀ r₀
  apart : ∀ t k k', (v t k).isSome = true → (v t k').isSome = true → g.key t k = g.key t k' → k = k'

/-- A renaming that moves no text leaves the rows as they are. -/
theorem renamed_refl {g : CellMap} (hg : ∀ t k c s, g t k c s = s) (v : View) : Renamed g v v := by
  have hcell (t : String) (k : Cells) (c : String) (x : Cell) : x.rename (g t k c) = x := by
    cases x with
    | text s => exact congrArg Cell.text (hg t k c s)
    | _ => rfl
  have hkey (t : String) (k : Cells) : g.key t k = k := by
    simp [CellMap.key, CellMap.cells, hcell]
  have hrow (t : String) (k : Cells) (r : Row) : g.row t k r = r := funext fun c => hcell t k c _
  refine ⟨fun t k r h => ?_, fun t k r h => ⟨k, r, h, (hkey t k).symm, (hrow t k r).symm⟩,
    fun t k k' _ _ h => ?_⟩
  · rw [hkey, hrow]
    exact h
  · rwa [hkey, hkey] at h

/-- The map keeps the keys of the changes apart. -/
def CellMap.KeepsApart (g : CellMap) (cs : List Change) : Prop :=
  ∀ c ∈ cs, ∀ d ∈ cs, c.table = d.table → g.key c.table c.key = g.key d.table d.key →
    c.key = d.key

section Fold

variable {g : CellMap} {ddl : Ddl} {cs : List Change}

/-- A row that was written was written by a change. -/
theorem exists_change_of_row {t : String} {k : Cells} {r : Row}
    (h : cs.foldl (View.step ddl) (fun _ _ => none) t k = some r) :
    ∃ c ∈ cs, c.table = t ∧ c.key = k := by
  rw [View.foldl_step_row] at h
  cases hf : cs.filter fun c => c.table = t ∧ c.key = k with
  | nil =>
    rw [hf] at h
    cases h
  | cons c l =>
    have hc : c ∈ cs.filter fun c => c.table = t ∧ c.key = k := by
      rw [hf]
      exact List.mem_cons_self
    simp only [List.mem_filter, decide_eq_true_eq] at hc
    exact ⟨c, hc.1, hc.2⟩

/-- The renamed changes of one row. -/
theorem filter_change (hkeep : g.KeepsApart cs) {c : Change} (hc : c ∈ cs) :
    (cs.map g.change).filter (fun d => d.table = c.table ∧ d.key = g.key c.table c.key) =
      (cs.filter fun d => d.table = c.table ∧ d.key = c.key).map g.change := by
  rw [List.filter_map]
  congr 1
  refine List.filter_congr fun d hd => ?_
  refine decide_eq_decide.mpr ?_
  simp only [CellMap.change]
  constructor
  · rintro ⟨ht, hk⟩
    exact ⟨ht, hkeep d hd c hc ht hk⟩
  · rintro ⟨ht, hk⟩
    exact ⟨ht, by rw [ht, hk]⟩

/-- The fold of one row, renamed. -/
theorem foldl_rows_change (hddl : ∀ t c, ∀ s, ddl t c ≠ .text s) {t : String} {k : Cells}
    {l : List Change} (hl : ∀ c ∈ l, c.table = t ∧ c.key = k) (o : Option Row) :
    (l.map g.change).foldl (fun o c => some (rowAfter ddl c o)) (o.map (g.row t k)) =
      (l.foldl (fun o c => some (rowAfter ddl c o)) o).map (g.row t k) := by
  induction l generalizing o with
  | nil => rfl
  | cons c l ih =>
    obtain ⟨rfl, rfl⟩ := hl c List.mem_cons_self
    rw [List.map_cons, List.foldl_cons, List.foldl_cons, g.rowAfter_change hddl,
      ← ih fun d hd => hl d (List.mem_cons_of_mem c hd)]
    rfl

/-- The row of a renamed key. -/
theorem foldl_step_change (hddl : ∀ t c, ∀ s, ddl t c ≠ .text s) (hkeep : g.KeepsApart cs)
    {c : Change} (hc : c ∈ cs) :
    (cs.map g.change).foldl (View.step ddl) (fun _ _ => none) c.table (g.key c.table c.key) =
      (cs.foldl (View.step ddl) (fun _ _ => none) c.table c.key).map (g.row c.table c.key) := by
  rw [View.foldl_step_row, View.foldl_step_row, filter_change hkeep hc,
    ← foldl_rows_change hddl (l := cs.filter fun d => d.table = c.table ∧ d.key = c.key)]
  · rfl
  · intro d hd
    simpa using (List.mem_filter.mp hd).2

/-- **A fold commutes with a renaming** that keeps its keys apart. -/
theorem renamed_foldl (hddl : ∀ t c, ∀ s, ddl t c ≠ .text s) (hkeep : g.KeepsApart cs) :
    Renamed g (cs.foldl (View.step ddl) fun _ _ => none)
      ((cs.map g.change).foldl (View.step ddl) fun _ _ => none) where
  row t k r h := by
    obtain ⟨c, hc, rfl, rfl⟩ := exists_change_of_row h
    rw [foldl_step_change hddl hkeep hc, h]
    rfl
  source t k r h := by
    obtain ⟨d, hd, rfl, rfl⟩ := exists_change_of_row h
    obtain ⟨c, hc, rfl⟩ := List.mem_map.mp hd
    change (cs.map g.change).foldl (View.step ddl) (fun _ _ => none) c.table
      (g.key c.table c.key) = some r at h
    rw [foldl_step_change hddl hkeep hc, Option.map_eq_some_iff] at h
    obtain ⟨r₀, hr₀, rfl⟩ := h
    exact ⟨c.key, r₀, hr₀, rfl, rfl⟩
  apart t k k' hk hk' h := by
    obtain ⟨r, hr⟩ := Option.isSome_iff_exists.mp hk
    obtain ⟨r', hr'⟩ := Option.isSome_iff_exists.mp hk'
    obtain ⟨c, hc, rfl, rfl⟩ := exists_change_of_row hr
    obtain ⟨d, hd, ht, rfl⟩ := exists_change_of_row hr'
    refine hkeep c hc d hd ht.symm ?_
    rw [ht]
    exact h

end Fold

end NexusFlow.Foundation
