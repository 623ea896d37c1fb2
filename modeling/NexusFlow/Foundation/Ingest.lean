import NexusFlow.Foundation.Store

/-!
# What an ingest does

The specification of the substrate's writes, for a handle with one registered reducer: everything
`ingest_in_txn` can do (`ingestInTxn_cases`), what it does to the log and to the views
(`takeIn_ops`, `get_takeIn`), and the fold of a log as a function of the list of ops
(`Reducer.foldView`).

* `foldView_sorted`: folding a log in export order is folding it in the order it holds, when ops
  that the sort moves past each other commute.
* `foldView_again`: folding ops again that were folded changes nothing.
-/

namespace NexusFlow.Foundation

open NexusFlow.Lib

/-! ## Folding a log -/

/-- Folding one op into the rows: nothing when the reducer does not fold it. -/
def Reducer.foldView (r : Reducer) (v : View) (op : Op) : View :=
  (r.changesOf op).foldl (View.step r.ddl) v

namespace Reducer

variable {r : Reducer}

theorem foldl_foldView_eq (ops : List Op) (v : View) :
    ops.foldl r.foldView v = (ops.flatMap r.changesOf).foldl (View.step r.ddl) v := by
  rw [List.foldl_flatMap]
  rfl

/-- Ops whose changes commute fold in either order. -/
theorem foldView_commute {a b : Op}
    (h : ∀ c ∈ r.changesOf a, ∀ d ∈ r.changesOf b, Commute (View.step r.ddl) c d) :
    Commute r.foldView a b :=
  fun v => foldl_foldl_comm v h

/-- **Export order and log order fold to the same rows.** Ops on one coordinate need not commute:
the sort keeps them in the order the log holds them. -/
theorem foldView_sorted (ops : List Op) (v : View)
    (h : ops.Pairwise fun a b => a.coordinate ≠ b.coordinate → Commute r.foldView a b) :
    (ops.insertionSort File.ExportLe).foldl r.foldView v = ops.foldl r.foldView v := by
  refine foldl_insertionSort ops v (h.imp fun {a b} hab hle => hab fun hc => hle ?_)
  obtain ⟨hl, hs⟩ := Prod.mk.inj hc
  exact .inr ⟨hl, hs.le⟩

/-- **Folding ops again that were folded changes nothing.** -/
theorem foldView_again {ops again : List Op} (v : View) (hsub : ∀ op ∈ again, op ∈ ops)
    (h : ∀ a ∈ ops, ∀ b ∈ ops, ∀ c ∈ r.changesOf a, ∀ d ∈ r.changesOf b,
      Replays (View.step r.ddl) c d) :
    again.foldl r.foldView (ops.foldl r.foldView v) = ops.foldl r.foldView v := by
  rw [foldl_foldView_eq, foldl_foldView_eq]
  refine foldl_replay v (fun c hc => ?_) fun c hc d hd => ?_
  · obtain ⟨op, hop, hc⟩ := List.mem_flatMap.mp hc
    exact List.mem_flatMap.mpr ⟨op, hsub op hop, hc⟩
  · obtain ⟨a, ha, hca⟩ := List.mem_flatMap.mp hc
    obtain ⟨b, hb, hdb⟩ := List.mem_flatMap.mp hd
    exact h a ha b hb c hca d hdb

/-- An op the reducer does not fold leaves the rows as they are. -/
theorem foldView_of_not_folds {op : Op} (h : r.folds op = false) (v : View) :
    r.foldView v op = v := by
  simp [foldView, changesOf, h]

/-- A folded op leaves every row it writes to. -/
theorem isSome_foldl_foldView {ops : List Op} {op : Op} {c : Change} (hop : op ∈ ops)
    (hc : c ∈ r.changesOf op) (v : View) :
    (ops.foldl r.foldView v c.table c.key).isSome = true := by
  rw [foldl_foldView_eq, View.foldl_step_row]
  have hmem : c ∈ (ops.flatMap r.changesOf).filter fun d => d.table = c.table ∧ d.key = c.key := by
    rw [List.mem_filter]
    exact ⟨List.mem_flatMap.mpr ⟨op, hop, hc⟩, by simp⟩
  rcases List.eq_nil_or_concat ((ops.flatMap r.changesOf).filter
    fun d => d.table = c.table ∧ d.key = c.key) with h | ⟨l, d, h⟩
  · rw [h] at hmem
    cases hmem
  · rw [h, List.concat_eq_append, List.foldl_append]
    rfl

end Reducer

/-! ## The reducer contract -/

/-- What `reducer.rs` asks of a reducer's changes: an op folded stays folded whatever follows, and
ops of different ids and coordinates fold in either order, where they fold at Lamport numbers from 1
on. -/
structure Reducer.Lawful (r : Reducer) : Prop where
  replays : ∀ a b : Op, (a.opId = b.opId → a = b) → ∀ c ∈ r.changesOf a, ∀ d ∈ r.changesOf b,
    Replays (View.step r.ddl) c d
  commute : ∀ a b : Op, a.opId ≠ b.opId → a.coordinate ≠ b.coordinate →
    (r.folds a = true → 1 ≤ a.lamport) → (r.folds b = true → 1 ≤ b.lamport) →
    Commute r.foldView a b

namespace Reducer.Lawful

variable {r : Reducer} {ops : List Op}

/-- **The log's order and the export's fold to the same rows**, from any rows: the ops carry
different ids, and Lamport numbers from 1 on where they fold. -/
theorem sorted (hr : r.Lawful) (hnd : (ops.map Op.opId).Nodup)
    (hl : ∀ op ∈ ops, r.folds op = true → 1 ≤ op.lamport) (v : View) :
    (ops.insertionSort File.ExportLe).foldl r.foldView v = ops.foldl r.foldView v := by
  refine foldView_sorted ops v ?_
  rw [List.Nodup, List.pairwise_map] at hnd
  refine hnd.imp_of_mem fun {a b} ha hb hab hcoord => ?_
  exact hr.commute a b hab hcoord (hl a ha) (hl b hb)

/-- **Folding ops of the log once more changes nothing.** -/
theorem again (hr : r.Lawful) {again : List Op} (hsub : ∀ op ∈ again, op ∈ ops)
    (hid : ∀ a ∈ ops, ∀ b ∈ ops, a.opId = b.opId → a = b) (v : View) :
    again.foldl r.foldView (ops.foldl r.foldView v) = ops.foldl r.foldView v :=
  foldView_again v hsub fun a ha b hb => hr.replays a b (hid a ha b hb)

/-- Folding the whole log over the fold of its first part completes it. -/
theorem resume (hr : r.Lawful) (hnd : (ops.map Op.opId).Nodup)
    (hl : ∀ op ∈ ops, r.folds op = true → 1 ≤ op.lamport) (n : Nat) (v : View) :
    (ops.insertionSort File.ExportLe).foldl r.foldView ((ops.take n).foldl r.foldView v) =
      ops.foldl r.foldView v := by
  have hsplit (w : View) : ops.foldl r.foldView w =
      (ops.drop n).foldl r.foldView ((ops.take n).foldl r.foldView w) := by
    rw [← List.foldl_append, List.take_append_drop]
  rw [hr.sorted hnd hl, hsplit, hsplit v, hr.again fun _ h => h]
  intro a ha b hb
  exact List.inj_on_of_nodup_map hnd (List.mem_of_mem_take ha) (List.mem_of_mem_take hb)

end Reducer.Lawful

/-! ## The log of a file -/

/-- The ops of the log, in `rowid` order. -/
def File.log (f : File) : List Op := f.ops.map LogRow.op

/-- The views are the fold of the log, op by op. -/
def File.Folded (f : File) (r : Reducer) : Prop :=
  f.views.get = f.log.foldl r.foldView fun _ _ => none

theorem File.holdsOp_iff {f : File} {opId : String} :
    f.holdsOp opId = true ↔ opId ∈ f.log.map Op.opId := by
  simp [File.holdsOp, File.log]

theorem File.highWaterMark_nonneg {f : File} (hb : f.logBase = none) : 0 ≤ f.highWaterMark := by
  have h : f.baseMark = 0 := by
    unfold File.baseMark
    rw [hb]
  rw [← h]
  exact le_max_right _ _

/-! ## The parts of a file -/

namespace Handle

variable {h : Handle} {f : File}

/-- Advancing a watermark touches the watermarks only. -/
theorem advanceWatermarkAfter_eq (h : Handle) (f : File) (n : Nat) :
    ∃ w, h.advanceWatermarkAfter f n = { f with watermarks := w } := by
  unfold advanceWatermarkAfter
  split
  · exact ⟨f.watermarks, rfl⟩
  · exact ⟨_, rfl⟩

/-- Advancing a watermark touches the watermarks only. -/
theorem advanceWatermark_eq (h : Handle) (f : File) (n : Nat) :
    ∃ w, h.advanceWatermark f n = { f with watermarks := w } := by
  unfold advanceWatermark
  split
  · exact ⟨f.watermarks, rfl⟩
  · exact ⟨_, rfl⟩

/-- Taking an op in changes the views and the watermarks only. -/
theorem takeIn_eq (h : Handle) (f : File) (op : Op) :
    ∃ v w, (h.takeIn f op).2 = { f with views := v, watermarks := w } := by
  unfold takeIn
  split
  · next r _ =>
    obtain ⟨w, hw⟩ := h.advanceWatermarkAfter_eq (f.fold r op) f.maxOpRowid
    exact ⟨_, w, hw⟩
  · obtain ⟨w, hw⟩ := h.advanceWatermarkAfter_eq f f.maxOpRowid
    exact ⟨f.views, w, hw⟩

@[simp] theorem takeIn_ops (h : Handle) (f : File) (op : Op) : (h.takeIn f op).2.ops = f.ops := by
  obtain ⟨v, w, e⟩ := h.takeIn_eq f op
  rw [e]

/-- Taking an op in folds it. -/
theorem get_takeIn {r : Reducer} (hr : h.reducers = [r]) (op : Op) :
    (h.takeIn f op).2.views.get = r.foldView f.views.get op := by
  unfold takeIn Reducer.foldView Reducer.changesOf
  rw [hr, Reducer.folderFor_singleton]
  cases r.folds op with
  | true =>
    obtain ⟨w, hw⟩ := h.advanceWatermarkAfter_eq (f.fold r op) f.maxOpRowid
    simp only [if_true, hw]
    exact get_applySqlite r.ddl f.views (r.changes op)
  | false =>
    obtain ⟨w, hw⟩ := h.advanceWatermarkAfter_eq f f.maxOpRowid
    simp [hw]

theorem takeIn_fst (h : Handle) (f : File) (op : Op) :
    (h.takeIn f op).1 = if (folderFor h.reducers op).isSome then .folded else .deferred := by
  unfold takeIn
  split <;> simp [*]

/-- **Everything an ingest can do**: the op is known; its coordinate is refused; or its row joins
the log, under an index that stays as it is or loses its uniqueness, and the op is taken in. -/
theorem ingestInTxn_cases (h : Handle) (f : File) (op : Op) (p : Provenance) :
    (h.ingestInTxn f op p = (.alreadySeen, f) ∧ f.holdsOp op.opId = true) ∨
    (h.ingestInTxn f op p = (.collided, f) ∧ f.coordinateRefused op (decide (p = .own)) = true) ∨
    ∃ u, h.ingestInTxn f op p = h.takeIn ({ f with coordinateIndexUnique := u }.append op p) op ∧
      f.holdsOp op.opId = false ∧ f.coordinateRefused op (decide (p = .own)) = false ∧
      (u = true → f.coordinateIndexUnique = true ∧
        ∀ r ∈ f.ops, r.op.coordinate ≠ op.coordinate) := by
  unfold ingestInTxn File.insertOp
  cases href : f.coordinateRefused op (decide (p = .own)) <;> cases hk : f.holdsOp op.opId <;>
    cases hu : f.coordinateIndexUnique
  case true.true.true | true.true.false | true.false.false | false.true.true | false.true.false =>
    simp [href]
  case false.false.false =>
    refine .inr (.inr ⟨f.coordinateIndexUnique, ?_, rfl, rfl, by simp [hu]⟩)
    simp [href]
  case true.false.true =>
    -- the coordinate that refuses the op also made the unique index skip it
    have hc : (f.ops.any fun r => r.op.lamport == op.lamport && r.op.site == op.site) = true := by
      obtain ⟨r, hr, h'⟩ := List.any_eq_true.mp href
      simp only [Bool.and_eq_true] at h'
      exact List.any_eq_true.mpr ⟨r, hr, by simp [h'.1.1]⟩
    simp [hc, href]
  case false.false.true =>
    cases hc : f.ops.any fun r => r.op.lamport == op.lamport && r.op.site == op.site with
    | true =>
      refine .inr (.inr ⟨false, ?_, rfl, rfl, by simp⟩)
      simp [href]
    | false =>
      refine .inr (.inr ⟨f.coordinateIndexUnique, ?_, rfl, rfl, fun _ => ⟨rfl, ?_⟩⟩)
      · simp
      · intro r hr hcoord
        obtain ⟨hl, hs⟩ := Prod.mk.inj hcoord
        rw [List.any_eq_false] at hc
        exact hc r hr (by simp [hl, hs])

/-- Folding the whole log touches the views only. -/
theorem foldWholeLog_eq (h : Handle) (f : File) :
    ∃ v, h.foldWholeLog f = { f with views := v } := by
  unfold foldWholeLog
  refine List.foldlRecOn (motive := fun g => ∃ v, g = { f with views := v }) _ _ ⟨f.views, rfl⟩ ?_
  rintro _ ⟨v, rfl⟩ op _
  split
  · exact ⟨_, rfl⟩
  · exact ⟨v, rfl⟩

/-- Folding the whole log folds the export. -/
theorem get_foldWholeLog {r : Reducer} (hr : h.reducers = [r]) :
    (h.foldWholeLog f).views.get = f.exportOps.foldl r.foldView f.views.get := by
  unfold foldWholeLog
  generalize f.exportOps = ops
  induction ops generalizing f with
  | nil => rfl
  | cons op ops ih =>
    rw [List.foldl_cons, List.foldl_cons, ih, hr, Reducer.folderFor_singleton]
    congr 1
    unfold Reducer.foldView Reducer.changesOf
    cases r.folds op with
    | true => exact get_applySqlite r.ddl f.views (r.changes op)
    | false => rfl

/-- **What an ingest does to the log and the views**: nothing, or the op joins the log and is
folded. -/
theorem ingestInTxn_log (h : Handle) (f : File) (op : Op) (p : Provenance) :
    (h.ingestInTxn f op p).2 = f ∨
    (op.opId ∉ f.log.map Op.opId ∧ (h.ingestInTxn f op p).2.ops = f.ops ++ [⟨op, p⟩] ∧
      (h.ingestInTxn f op p).2.logBase = f.logBase ∧
      ∀ r, h.reducers = [r] →
        (h.ingestInTxn f op p).2.views.get = r.foldView f.views.get op) := by
  rcases h.ingestInTxn_cases f op p with ⟨he, _⟩ | ⟨he, _⟩ | ⟨u, he, hk, _⟩
  · exact .inl (by rw [he])
  · exact .inl (by rw [he])
  · refine .inr ⟨?_, ?_, ?_, fun r hr => ?_⟩
    · rw [← File.holdsOp_iff, hk]
      exact Bool.false_ne_true
    · rw [he, takeIn_ops]
      rfl
    · obtain ⟨v, w, e⟩ := h.takeIn_eq ({ f with coordinateIndexUnique := u }.append op p) op
      rw [he, e]
      rfl
    · rw [he, get_takeIn hr]
      rfl

/-- An ingest keeps the views the fold of the log. -/
theorem ingestInTxn_folded {r : Reducer} (hr : h.reducers = [r]) (hf : f.Folded r) (op : Op)
    (p : Provenance) : (h.ingestInTxn f op p).2.Folded r := by
  rcases h.ingestInTxn_log f op p with he | ⟨_, hops, _, hviews⟩
  · rw [he]
    exact hf
  · unfold File.Folded File.log at hf ⊢
    rw [hviews r hr, hops, List.map_append, List.foldl_append, hf]
    rfl

/-- An ingest keeps the op ids distinct. -/
theorem ingestInTxn_nodup (hf : (f.log.map Op.opId).Nodup) (op : Op) (p : Provenance) :
    ((h.ingestInTxn f op p).2.log.map Op.opId).Nodup := by
  rcases h.ingestInTxn_log f op p with he | ⟨hnew, hops, _, _⟩
  · rw [he]
    exact hf
  · unfold File.log at hf hnew ⊢
    rw [hops, List.map_append, List.map_append]
    exact List.nodup_append.mpr ⟨hf, List.nodup_singleton _, fun a ha b hb hab => by
      rw [List.map_singleton, List.map_singleton, List.mem_singleton] at hb
      exact hnew (hb ▸ hab ▸ ha)⟩

/-- What holds of the op ingested and of every op of the log holds of every op of the log after. -/
theorem ingestInTxn_forall {P : Op → Prop} (hf : ∀ o ∈ f.log, P o) {op : Op} (hop : P op)
    (p : Provenance) : ∀ o ∈ (h.ingestInTxn f op p).2.log, P o := by
  rcases h.ingestInTxn_log f op p with he | ⟨_, hops, _, _⟩
  · rw [he]
    exact hf
  · unfold File.log at hf ⊢
    rw [hops, List.map_append]
    intro o ho
    rcases List.mem_append.mp ho with ho | ho
    · exact hf o ho
    · rw [List.map_singleton, List.mem_singleton] at ho
      exact ho ▸ hop

/-- What an ingest does depends on the reducers and on the product bound, not on the clock. -/
theorem ingestInTxn_congr {h k : Handle} (hr : h.reducers = k.reducers)
    (hv : h.viewsKey = k.viewsKey) : h.ingestInTxn = k.ingestInTxn := by
  have hw : h.advanceWatermarkAfter = k.advanceWatermarkAfter := by
    unfold advanceWatermarkAfter foldRevision
    rw [hr, hv]
  have ht : h.takeIn = k.takeIn := by
    unfold takeIn
    rw [hr, hw]
  unfold ingestInTxn
  rw [ht]

/-- The clock half of `apply` moves the clock only. -/
theorem observe_eq (h : Handle) (op : Op) : ∃ c, h.clock ≤ c ∧ h.observe op = { h with clock := c } := by
  unfold observe
  split_ifs with hlt
  · simp only [Bool.and_eq_true, decide_eq_true_eq] at hlt
    exact ⟨_, hlt.2.le, rfl⟩
  · exact ⟨h.clock, le_rfl, rfl⟩

theorem refreshClock_eq (h : Handle) (f : File) :
    h.refreshClock f = { h with clock := max h.clock f.highWaterMark } := by
  unfold refreshClock
  split_ifs with hlt
  · rw [max_eq_right hlt.le]
  · rw [max_eq_left (not_lt.mp hlt)]

end Handle

/-! ## Local writes and deliveries -/

namespace Store

theorem applyOp_file (s : Store) (op : Op) :
    (s.applyOp op).2.file =
      (s.handle.ingestInTxn s.file op (.ofReceived s.handle.key op)).2 := by
  obtain ⟨c, _, hc⟩ := s.handle.observe_eq op
  unfold applyOp
  simp only [hc]
  rw [Handle.ingestInTxn_congr (h := { s.handle with clock := c }) (k := s.handle) rfl rfl]

/-- Receiving an op moves the clock, and ingests it. -/
theorem applyOp_eq (s : Store) (op : Op) : ∃ c, (s.applyOp op).2 =
    ⟨{ s.handle with clock := c },
      (s.handle.ingestInTxn s.file op (.ofReceived s.handle.key op)).2⟩ := by
  obtain ⟨c, _, hc⟩ := s.handle.observe_eq op
  refine ⟨c, ?_⟩
  rw [← hc, ← applyOp_file]
  rfl

/-- Ops with new, distinct ids that a store without ops of its own receives are all taken in, in
order. -/
theorem apply_fresh {r : Reducer} {ops : List Op} {s : Store} (hr : s.handle.reducers = [r])
    (hown : ∀ row ∈ s.file.ops, row.provenance ≠ .own) (hnd : (ops.map Op.opId).Nodup)
    (hnew : ∀ op ∈ ops, op.opId ∉ s.file.log.map Op.opId) :
    (s.apply ops).2.file.views.get = ops.foldl r.foldView s.file.views.get := by
  induction ops generalizing s with
  | nil => rfl
  | cons op ops ih =>
    obtain ⟨hop, hnd⟩ := List.nodup_cons.mp hnd
    obtain ⟨c, _, hc⟩ := s.handle.observe_eq op
    have hh : (s.applyOp op).2.handle = { s.handle with clock := c } := hc
    let p := Provenance.ofReceived s.handle.key op
    have hp : p ≠ .own := Provenance.ofReceived_ne_own _ op
    have htaken : (s.applyOp op).2.file.ops = s.file.ops ++ [⟨op, p⟩] ∧
        (s.applyOp op).2.file.views.get = r.foldView s.file.views.get op := by
      rw [applyOp_file]
      rcases s.handle.ingestInTxn_cases s.file op p with ⟨_, hk⟩ | ⟨_, href⟩ | ⟨u, he, _⟩
      · exact absurd (File.holdsOp_iff.mp hk) (hnew op List.mem_cons_self)
      · obtain ⟨row, hrow, h'⟩ := List.any_eq_true.mp href
        simp only [hp, decide_false, Bool.false_or, Bool.and_eq_true, decide_eq_true_eq] at h'
        exact absurd h'.2 (hown row hrow)
      · rw [he, Handle.takeIn_ops, Handle.get_takeIn hr]
        exact ⟨rfl, rfl⟩
    have hrest := ih (s := (s.applyOp op).2) (by rw [hh]; exact hr) (fun row hrow => ?_) hnd
      fun o ho => ?_
    · change ((s.applyOp op).2.apply ops).2.file.views.get = _
      rw [hrest, htaken.2]
      rfl
    · rw [htaken.1] at hrow
      rcases List.mem_append.mp hrow with hrow | hrow
      · exact hown row hrow
      · rw [List.mem_singleton.mp hrow]
        exact hp
    · unfold File.log
      rw [htaken.1, List.map_append, List.map_append, List.mem_append, not_or]
      refine ⟨hnew o (List.mem_cons_of_mem op ho), ?_⟩
      rw [List.map_singleton, List.map_singleton, List.mem_singleton]
      exact fun h => hop (h ▸ List.mem_map_of_mem ho)

/-- **Everything an open through `refold_if_behind` can do**: rebuild the views, refold them and
advance the watermark to the log's end, or leave the file as it is. -/
theorem refoldIfBehind_cases {s t : Store} {storeId : String}
    (h : s.refoldIfBehind storeId = .ok t) :
    let h' : Handle := { s.handle with viewsKey := some storeId }
    t.handle = h' ∧ (t.file = h'.rebuild s.file storeId ∨
      t.file = h'.advanceWatermark (h'.foldWholeLog s.file) s.file.maxOpRowid ∨
      (t.file = s.file ∧ s.file.maxOpRowid ≤ s.file.foldedThrough storeId)) := by
  intro h'
  unfold refoldIfBehind bindViews at h
  by_cases hn : h'.needsRebuild s.file storeId = true
  · rw [if_pos hn] at h
    cases hb : s.file.logBase with
    | some base =>
      rw [hb] at h
      cases h
    | none =>
      rw [hb] at h
      cases h
      exact ⟨rfl, .inl rfl⟩
  · rw [if_neg hn] at h
    change (if s.file.foldedThrough storeId < s.file.maxOpRowid then _ else _) = _ at h
    split_ifs at h with hlt
    · cases h
      exact ⟨rfl, .inr (.inl rfl)⟩
    · cases h
      exact ⟨rfl, .inr (.inr ⟨rfl, not_lt.mp hlt⟩)⟩

theorem attempt_eq_some {s s' : Store} {op o : Op} {ing : Ingest}
    (h : s.attempt op = some (o, ing, s')) :
    o = s.handle.key.seal { op with lamport := s.handle.clock + 1 } ∧
      s'.handle = { s.handle with clock := s.handle.clock + 1 } ∧
      s.handle.ingestInTxn s.file o .own = (ing, s'.file) := by
  unfold attempt Handle.tick at h
  split_ifs at h with hc
  · simp only [Option.bind_eq_bind, Option.bind_some, Option.pure_def, Option.some.injEq,
      Prod.mk.injEq] at h
    obtain ⟨rfl, rfl, rfl⟩ := h
    refine ⟨rfl, rfl, ?_⟩
    rw [Handle.ingestInTxn_congr (h := s.handle)
      (k := { s.handle with clock := s.handle.clock + 1 }) rfl rfl]
  · cases h

theorem lt_firstFreeCoordinate {f : File} {site taken free : Int}
    (h : f.firstFreeCoordinate site taken = some free) : taken < free := by
  unfold File.firstFreeCoordinate at h
  dsimp only at h
  split at h
  · next m hm =>
    split_ifs at h
    · cases h
      obtain ⟨r, hr, rfl⟩ := List.mem_map.mp (List.min?_mem hm)
      simp only [List.mem_filter, Bool.and_eq_true, decide_eq_true_eq] at hr
      omega
  · cases h

/-- What a local write does: it mints one op, above its clock and the log's high-water mark, and
ingests it as its own. -/
structure Emitted (s : Store) (d : Draft) (o : Op) (ing : Ingest) (s' : Store) : Prop where
  author : isAttributable d.author = true
  clock : s.handle.clock < o.lamport
  mark : s.file.highWaterMark < o.lamport
  op : o = s.handle.key.seal { draftOp s.handle d with lamport := o.lamport }
  handle : s'.handle = { s.handle with clock := o.lamport, minted := s.handle.minted + 1 }
  ingest : s.handle.ingestInTxn s.file o .own = (ing, s'.file)
  taken : ing ≠ .collided

/-- **A local write that does not panic** is `Emitted`. -/
theorem buildAndIngest_eq_some {s s' : Store} {d : Draft} {o : Op} {ing : Ingest}
    (h : s.buildAndIngest d = some (o, ing, s')) : Emitted s d o ing s' := by
  unfold buildAndIngest at h
  split_ifs at h with hauthor
  rw [s.handle.refreshClock_eq] at h
  simp only [Option.bind_eq_bind, Option.bind_eq_some_iff, Prod.exists] at h
  obtain ⟨o₁, ing₁, s₁, h₁, h⟩ := h
  obtain ⟨ho₁, hh₁, hi₁⟩ := attempt_eq_some h₁
  have hcongr : ∀ c m, ({ s.handle with clock := c, minted := m } : Handle).ingestInTxn =
      s.handle.ingestInTxn := fun c m => Handle.ingestInTxn_congr rfl rfl
  rw [hcongr] at hi₁
  have hclock : s.handle.clock ≤ max s.handle.clock s.file.highWaterMark := le_max_left _ _
  have hmark : s.file.highWaterMark ≤ max s.handle.clock s.file.highWaterMark := le_max_right _ _
  split_ifs at h with hcol
  · -- the first coordinate was refused, so the file is as it was; the second attempt starts past it
    rw [Option.bind_eq_some_iff] at h
    obtain ⟨free, hfree, h⟩ := h
    have hlt := lt_firstFreeCoordinate hfree
    obtain ⟨⟨o₂, ing₂, s₂⟩, h₂, h⟩ := Option.bind_eq_some_iff.mp h
    obtain ⟨ho₂, hh₂, hi₂⟩ := attempt_eq_some h₂
    have hfile : s₁.file = s.file := by
      rcases s.handle.ingestInTxn_cases s.file o₁ .own with ⟨he, _⟩ | ⟨he, _⟩ | ⟨u, he, _⟩
      · exact (Prod.mk.inj (he ▸ hi₁)).2.symm
      · exact (Prod.mk.inj (he ▸ hi₁)).2.symm
      · have h1 := congrArg Prod.fst (he ▸ hi₁)
        rw [Handle.takeIn_fst, hcol] at h1
        split_ifs at h1
    simp only at h
    split_ifs at h with hcol₂
    cases h
    have hl₁ : o₁.lamport = max s.handle.clock s.file.highWaterMark + 1 := by rw [ho₁]; rfl
    have hl₂ : o.lamport = free := by
      rw [ho₂]
      exact Int.sub_add_cancel free 1
    refine ⟨hauthor, by omega, by omega, ?_, ?_, ?_, hcol₂⟩
    · rw [hl₂, ho₂, hh₁]
      simp
    · rw [hl₂, hh₂, hh₁]
      simp
    · have hr : s.handle.reducers = s₁.handle.reducers := by rw [hh₁]
      have hv : s.handle.viewsKey = s₁.handle.viewsKey := by rw [hh₁]
      rw [← hi₂, ← hfile, Handle.ingestInTxn_congr hr hv]
      exact congrFun (congrFun (congrFun (Handle.ingestInTxn_congr rfl rfl) _) _) _
  · cases h
    have hl₁ : o.lamport = max s.handle.clock s.file.highWaterMark + 1 := by rw [ho₁]; rfl
    refine ⟨hauthor, by omega, by omega, ?_, ?_, hi₁, hcol⟩
    · rw [hl₁]
      exact ho₁
    · rw [hl₁]
      exact hh₁

theorem emit_eq_some {s s' : Store} {d : Draft} {opId : String}
    (h : s.emit d = some (opId, s')) : ∃ o ing, o.opId = opId ∧ Emitted s d o ing s' := by
  obtain ⟨⟨o, ing, t⟩, hb, he⟩ := Option.map_eq_some_iff.mp h
  cases he
  exact ⟨o, ing, rfl, buildAndIngest_eq_some hb⟩

theorem Emitted.file {s s' : Store} {d : Draft} {o : Op} {ing : Ingest}
    (h : Emitted s d o ing s') : s'.file = (s.handle.ingestInTxn s.file o .own).2 := by
  rw [h.ingest]

theorem Emitted.store {s s' : Store} {d : Draft} {o : Op} {ing : Ingest}
    (h : Emitted s d o ing s') :
    s' = ⟨{ s.handle with clock := o.lamport, minted := s.handle.minted + 1 },
      (s.handle.ingestInTxn s.file o .own).2⟩ := by
  rw [← h.handle, ← h.file]

theorem Emitted.opId {s s' : Store} {d : Draft} {o : Op} {ing : Ingest}
    (h : Emitted s d o ing s') : o.opId = s.handle.ulids s.handle.minted := by
  rw [h.op]
  rfl

theorem Emitted.site {s s' : Store} {d : Draft} {o : Op} {ing : Ingest}
    (h : Emitted s d o ing s') : o.site = s.handle.site := by
  rw [h.op]
  rfl

end Store

end NexusFlow.Foundation
