import NexusFlow.Core.Store

/-!
# Incremental folding equals rebuilding

A flow store folds each op as it takes it in. `bind_views` and `refold` fold the whole log again, in
`export`'s order. Over every run of local writes and received ops whose Lamport numbers are at least
1, the two agree (`views_eq_rebuilt`): ops of different coordinates commute, ops that share one are
folded in the order the log holds them both ways, and an op folded once stays absorbed.

Every run keeps `LogInv`: the log's op ids are distinct, and the views are the fold of the log in the
order it was taken in. `FoldInv` adds that its Lamport numbers are at least 1.
-/

namespace NexusFlow.Core

open NexusFlow.Foundation Relation

/-- What every ingest maintains. -/
structure LogInv (s : Store) : Prop where
  reducers : s.handle.reducers = [taskReducer]
  noBase : s.file.logBase = none
  nodup : (s.file.log.map Op.opId).Nodup
  folded : s.file.Folded taskReducer

/-- What the incremental fold maintains, as long as Lamport numbers start at 1. -/
structure FoldInv (s : Store) : Prop extends LogInv s where
  lamport : ∀ op ∈ s.file.log, 1 ≤ op.lamport

/-- One ingest or batch of ingests: a local op, or received ops. -/
inductive TaskStep : Store → Store → Prop
  | local {s s' : Store} (h : LocalStep s s') : TaskStep s s'
  | received {s : Store} (ops : List Op) : TaskStep s (s.apply ops).2

/-- One ingest or batch of ingests: a local op, or received ops with Lamport numbers from 1 on. -/
inductive IngestStep : Store → Store → Prop
  | local {s s' : Store} (h : LocalStep s s') : IngestStep s s'
  | received {s : Store} (ops : List Op) (hl : ∀ op ∈ ops, 1 ≤ op.lamport) :
    IngestStep s (s.apply ops).2

/-- Ingesting an op keeps the invariant. -/
theorem LogInv.ingest {s : Store} (hs : LogInv s) (op : Op) (p : Provenance) {h : Handle}
    (hh : h.reducers = [taskReducer]) : LogInv ⟨h, (s.handle.ingestInTxn s.file op p).2⟩ where
  reducers := hh
  noBase := by
    rcases s.handle.ingestInTxn_log s.file op p with he | ⟨_, _, hb, _⟩
    · rw [he]
      exact hs.noBase
    · exact hb.trans hs.noBase
  nodup := Handle.ingestInTxn_nodup hs.nodup op p
  folded := Handle.ingestInTxn_folded hs.reducers hs.folded op p

/-- Ingesting an op with a Lamport number from 1 on keeps the invariant. -/
theorem FoldInv.ingest {s : Store} (hs : FoldInv s) {op : Op} (hl : 1 ≤ op.lamport)
    (p : Provenance) {h : Handle} (hh : h.reducers = [taskReducer]) :
    FoldInv ⟨h, (s.handle.ingestInTxn s.file op p).2⟩ where
  toLogInv := hs.toLogInv.ingest op p hh
  lamport := Handle.ingestInTxn_forall hs.lamport hl p

theorem LogInv.applyOp {s : Store} (hs : LogInv s) (op : Op) : LogInv (s.applyOp op).2 := by
  obtain ⟨c, hc⟩ := s.applyOp_eq op
  rw [hc]
  exact hs.ingest op _ hs.reducers

theorem FoldInv.applyOp {s : Store} (hs : FoldInv s) {op : Op} (hl : 1 ≤ op.lamport) :
    FoldInv (s.applyOp op).2 := by
  obtain ⟨c, hc⟩ := s.applyOp_eq op
  rw [hc]
  exact hs.ingest hl _ hs.reducers

theorem LogInv.apply {s : Store} (hs : LogInv s) (ops : List Op) : LogInv (s.apply ops).2 := by
  induction ops generalizing s with
  | nil => exact hs
  | cons op ops ih => exact ih (hs.applyOp op)

theorem FoldInv.apply {s : Store} (hs : FoldInv s) {ops : List Op}
    (hl : ∀ op ∈ ops, 1 ≤ op.lamport) : FoldInv (s.apply ops).2 := by
  induction ops generalizing s with
  | nil => exact hs
  | cons op ops ih =>
    exact ih (hs.applyOp (hl op List.mem_cons_self)) fun o ho => hl o (List.mem_cons_of_mem op ho)

theorem LogInv.localStep {s s' : Store} (hs : LogInv s) (h : LocalStep s s') : LogInv s' := by
  cases h with
  | emit h =>
    obtain ⟨o, ing, _, he⟩ := Store.emit_eq_some h
    rw [he.store]
    exact hs.ingest o .own hs.reducers
  | wallClock now => exact ⟨hs.reducers, hs.noBase, hs.nodup, hs.folded⟩

theorem FoldInv.localStep {s s' : Store} (hs : FoldInv s) (h : LocalStep s s') : FoldInv s' := by
  refine ⟨hs.toLogInv.localStep h, ?_⟩
  cases h with
  | emit h =>
    obtain ⟨o, ing, _, he⟩ := Store.emit_eq_some h
    have h0 := File.highWaterMark_nonneg hs.noBase
    have hmark := he.mark
    rw [he.file]
    exact Handle.ingestInTxn_forall hs.lamport (show 1 ≤ o.lamport by omega) .own
  | wallClock now => exact hs.lamport

theorem LogInv.step {s s' : Store} (hs : LogInv s) (h : TaskStep s s') : LogInv s' := by
  cases h with
  | «local» h => exact hs.localStep h
  | received ops => exact hs.apply ops

theorem FoldInv.step {s s' : Store} (hs : FoldInv s) (h : IngestStep s s') : FoldInv s' := by
  cases h with
  | «local» h => exact hs.localStep h
  | received ops hl => exact hs.apply hl

theorem foldInv_freshStore (site : Int) (key : ReplicaKey) (ulids : Nat → String) :
    FoldInv (freshStore site key ulids) where
  reducers := rfl
  noBase := rfl
  nodup := List.nodup_nil
  lamport := by simp [freshStore, File.fresh, File.log]
  folded := rfl

/-- The invariant holds along every run. -/
theorem LogInv.run {s s' : Store} (hs : LogInv s) (h : ReflTransGen TaskStep s s') : LogInv s' := by
  induction h with
  | refl => exact hs
  | tail _ hstep ih => exact ih.step hstep

theorem FoldInv.run {s s' : Store} (hs : FoldInv s) (h : ReflTransGen IngestStep s s') :
    FoldInv s' := by
  induction h with
  | refl => exact hs
  | tail _ hstep ih => exact ih.step hstep

/-- Clearing flow's views leaves no row, where flow's fold made them. -/
theorem get_clear_folded {f : File} (hf : f.Folded taskReducer) :
    (f.views.clear TaskReducer.viewTables).get = fun _ _ => none := by
  funext t k
  rw [Db.get_clear]
  split_ifs with ht
  · rfl
  · rw [hf, taskFold_table ht]

/-- Folding the whole log over the views it folded to changes no row. -/
theorem FoldInv.get_refold {s : Store} (hs : FoldInv s) :
    s.refold.file.views.get = s.file.views.get := by
  have hid : ∀ a ∈ s.file.log, ∀ b ∈ s.file.log, a.opId = b.opId → a = b :=
    fun a ha b hb h => List.inj_on_of_nodup_map hs.nodup ha hb h
  change (s.handle.foldWholeLog s.file).views.get = _
  rw [Handle.get_foldWholeLog hs.reducers, hs.folded]
  refine taskReducer_lawful.again (fun op hop => ?_) hid _
  exact (List.mem_insertionSort _).mp hop

theorem FoldInv.refold {s : Store} (hs : FoldInv s) : FoldInv s.refold := by
  obtain ⟨v, hv⟩ := s.handle.foldWholeLog_eq s.file
  have hfile : s.refold.file = { s.file with views := v } := hv
  refine ⟨⟨hs.reducers, ?_, ?_, ?_⟩, by rw [hfile]; exact hs.lamport⟩
  · rw [hfile]; exact hs.noBase
  · rw [hfile]; exact hs.nodup
  · have hlog : s.refold.file.log = s.file.log := by rw [hfile]; rfl
    unfold File.Folded
    rw [hs.get_refold, hlog]
    exact hs.folded

/-- **Incremental folding equals rebuilding.** In every state a run of ingests reaches, the views
hold the rows that clearing them and folding the export gives; folding the log again, and once
more, changes none. -/
theorem views_eq_rebuilt {site : Int} {key : ReplicaKey} {ulids : Nat → String} {s₀ s : Store}
    (h₀ : openInMemory site key ulids = some s₀) (h : ReflTransGen IngestStep s₀ s) :
    s.file.views.get = (s.handle.foldWholeLog (s.file.clearViews s.handle.reducers)).views.get ∧
      s.refold.file.views.get = s.file.views.get ∧
      s.refold.refold.file.views.get = s.refold.file.views.get := by
  rw [openInMemory_eq] at h₀
  cases h₀
  have hs := (foldInv_freshStore site key ulids).run h
  refine ⟨?_, hs.get_refold, hs.refold.get_refold⟩
  rw [Handle.get_foldWholeLog hs.reducers, hs.folded]
  have hclear : (s.file.clearViews s.handle.reducers).views.get = fun _ _ => none := by
    rw [hs.reducers]
    exact get_clear_folded hs.folded
  rw [hclear]
  exact (taskReducer_lawful.sorted hs.nodup (fun op hop _ => hs.lamport op hop) _).symm

/-- A received op that sets an item's title at coordinate `(5, 7)`. -/
def titleAtFive (opId title : String) : Op :=
  ⟨opId, 5, 7, domainTask, "item", "aaaa.1", "title", "set", some title, "alice", "", none, none⟩

/-- Two ops of one foreign site on one coordinate: the one held first keeps the title, op by op and
rebuilt. -/
theorem views_eq_rebuilt_shared_coordinate :
    let s := ((freshStore 1 silentKey toString).apply
      [titleAtFive "01A" "first", titleAtFive "01B" "second"]).2
    s.file.views.get = (s.handle.foldWholeLog (s.file.clearViews s.handle.reducers)).views.get ∧
      (s.file.views.get "items" [("id", .text "aaaa.1")]).map (· "title") =
        some (.text "first") := by
  refine ⟨(views_eq_rebuilt (openInMemory_eq 1 silentKey toString) ?_).1, by decide⟩
  exact .single (.received _ (by decide))

end NexusFlow.Core
