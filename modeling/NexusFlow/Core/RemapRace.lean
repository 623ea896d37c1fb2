import NexusFlow.Core.RemapFold

/-!
# A remap and a sibling that writes

`remap_prefix` reads its export before its transaction begins (`crates/core/src/store.rs:751-799`).
Another process on the same file may commit in between: its op is in the log, it advanced the
watermark, and the transaction clears the views it was folded into and folds the export without it.

`Race` is one file with the remapping process and a flow process that writes to it, stepping in any
order. `AllFolded` is what the remap is to leave: the views are the fold of every op of the log.
`all_folded_of_quiet` has it in every state after the commit of every run in which nothing flow folds
is written in that window, and in which the export holds no op of another domain in a task's shape
(the remap's own fold does not ask the domain). `remap_loses_window_write` is the run that loses a
write.
-/

namespace NexusFlow.Core

open NexusFlow.Lib NexusFlow.Foundation TaskReducer Relation

/-! ## The two processes -/

/-- Where the remapping process stands. -/
inductive RemapPc
  | idle
  /-- The export is read, the transaction has not begun. -/
  | exported (ops : List Op)
  /-- The transaction has committed. -/
  | committed
  /-- There was nothing to remap, or the store is based. -/
  | returned

/-- One file, a process that remaps it and a sibling that writes to it. -/
structure Race where
  file : File
  remapper : Handle
  sibling : Handle
  pc : RemapPc

/-- One atomic step of either process. -/
inductive RaceStep (pOld pNew : String) : Race → Race → Prop
  /-- A local write of the sibling: each emit is one transaction. -/
  | sibling {S : Race} {s' : Store} (h : LocalStep ⟨S.sibling, S.file⟩ s') :
    RaceStep pOld pNew S { S with file := s'.file, sibling := s'.handle }
  /-- `self.export()`. -/
  | export {S : Race} (hpc : S.pc = .idle) :
    RaceStep pOld pNew S { S with pc := .exported S.file.exportOps }
  /-- The map is empty. -/
  | nothing {S : Race} {ops : List Op} (hpc : S.pc = .exported ops)
      (hm : (IdMap.ofOps pOld pNew ops).isEmpty = true) :
    RaceStep pOld pNew S { S with pc := .returned }
  /-- The store is based. -/
  | refused {S : Race} {ops : List Op} (hpc : S.pc = .exported ops)
      (hb : S.file.logBase ≠ none) : RaceStep pOld pNew S { S with pc := .returned }
  /-- The transaction, from `BEGIN` to `COMMIT`. -/
  | commit {S : Race} {ops : List Op} (hpc : S.pc = .exported ops)
      (hm : (IdMap.ofOps pOld pNew ops).isEmpty = false) (hb : S.file.logBase = none) :
    RaceStep pOld pNew S
      ⟨remapTxn S.remapper.key (IdMap.ofOps pOld pNew ops) ops S.file, S.remapper, S.sibling,
        .committed⟩

/-- `remapPrefix` is the remapper's steps with nobody in between. -/
theorem race_remapPrefix {S : Race} {pOld pNew : String} {s' : Store} (hpc : S.pc = .idle)
    (h : remapPrefix ⟨S.remapper, S.file⟩ pOld pNew = .ok s') :
    ∃ S', ReflTransGen (RaceStep pOld pNew) S S' ∧ S'.file = s'.file := by
  have hexport : ReflTransGen (RaceStep pOld pNew) S
      { S with pc := .exported S.file.exportOps } := .single (.export hpc)
  unfold remapPrefix at h
  dsimp only at h
  split_ifs at h with hm
  · cases h
    exact ⟨_, hexport.tail (.nothing rfl hm), rfl⟩
  · cases hb : S.file.logBase with
    | some base =>
      rw [hb] at h
      cases h
    | none =>
      rw [hb] at h
      cases h
      exact ⟨_, hexport.tail (.commit rfl (Bool.not_eq_true _ ▸ hm) hb), rfl⟩

/-- Two flow processes on one file, the remapper about to start. -/
structure RaceInit (S : Race) : Prop where
  idle : S.pc = .idle
  sibling : S.sibling.reducers = [taskReducer]
  reached : ∃ site key ulids s₀, openInMemory site key ulids = some s₀ ∧
    ReflTransGen TaskStep s₀ ⟨S.remapper, S.file⟩

/-- flow's views are the fold of every op of the log, in the order a rebuild folds them. -/
def AllFolded (f : File) : Prop :=
  f.views.get = f.exportOps.foldl taskReducer.foldView fun _ _ => none

/-- The rewritten ops flow's shapes would take are flow's. -/
def OwnShapes (pOld pNew : String) (ops : List Op) : Prop :=
  ∀ op ∈ ops, op.lamportInBound = true →
    isFoldable (remapOp (IdMap.ofOps pOld pNew ops) op) = true → op.domain = domainTask

instance (pOld pNew : String) (ops : List Op) : Decidable (OwnShapes pOld pNew ops) :=
  inferInstanceAs (Decidable (∀ op ∈ ops, _))

/-- The condition on a step: between the export and the transaction the sibling writes nothing flow
folds, and every op exported in a task's shape is flow's. -/
structure Quiet (pOld pNew : String) (S S' : Race) : Prop where
  window : ∀ ops, S.pc = .exported ops → S'.pc = .exported ops →
    ∀ op ∈ S'.file.log, op ∉ S.file.log → taskReducer.folds op = false
  shapes : ∀ ops, S'.pc = .exported ops → OwnShapes pOld pNew ops

/-- A step that meets the condition. -/
def QuietStep (pOld pNew : String) (S S' : Race) : Prop :=
  RaceStep pOld pNew S S' ∧ Quiet pOld pNew S S'

/-! ## Sorting -/

instance : Std.Total File.ExportLe where
  total a b := by
    unfold File.ExportLe
    omega

instance : IsTrans Op File.ExportLe where
  trans a b c := by
    unfold File.ExportLe
    omega

/-- An op above all the ones it does not commute with joins a log that is all folded. -/
theorem allFolded_append {f f' : File} (hf : AllFolded f) {o : Op} (hl : 1 ≤ o.lamport)
    (hnew : o.opId ∉ f.log.map Op.opId) (hlog : f'.log = f.log ++ [o])
    (hviews : f'.views.get = taskReducer.foldView f.views.get o) : AllFolded f' := by
  have hexport : f'.exportOps = (f.log ++ [o]).insertionSort File.ExportLe :=
    congrArg (List.insertionSort File.ExportLe) hlog
  unfold AllFolded
  rw [hviews, hexport, foldl_insertionSort_append _ (List.pairwise_singleton _ o), hf]
  · rfl
  · intro a ha b hb hnot
    rw [List.mem_singleton] at hb
    subst hb
    -- the sort moves it down only past ops with higher Lamport numbers
    have hla : 1 ≤ a.lamport := by
      unfold File.ExportLe at hnot
      omega
    refine taskReducer_lawful.commute a b ?_ ?_ (fun _ => hla) fun _ => hl
    · intro h
      exact hnew (h ▸ List.mem_map_of_mem ha)
    · intro h
      obtain ⟨h1, h2⟩ := Prod.mk.inj h
      exact hnot (.inr ⟨h1, h2.le⟩)

/-! ## The transaction -/

section Commit

variable {key : ReplicaKey} {m : IdMap}

/-- A rewritten op folds as it would under any signature. -/
theorem RewrittenAs.foldView {a b : Op} (h : RewrittenAs m a b) (v : View) :
    taskReducer.foldView v b = taskReducer.foldView v (remapOp m a) := by
  unfold RewrittenAs at h
  rw [h]
  rfl

theorem RewrittenAs.exportLe {a b a' b' : Op} (h : RewrittenAs m a b) (h' : RewrittenAs m a' b') :
    File.ExportLe b b' ↔ File.ExportLe a a' := by
  unfold RewrittenAs at h h'
  rw [h, h']
  rfl

/-- Rows, in the order an export puts their ops. -/
def sortRows (rows : List LogRow) : List LogRow :=
  rows.insertionSort fun a b => File.ExportLe a.op b.op

theorem map_sortRows {rows : List LogRow} {f : LogRow → Op}
    (hf : ∀ a ∈ rows, ∀ b ∈ rows, File.ExportLe (f a) (f b) ↔ File.ExportLe a.op b.op) :
    (rows.map f).insertionSort File.ExportLe = (sortRows rows).map f :=
  (List.map_insertionSort _ _ f rows fun a ha b hb => (hf a ha b hb).symm).symm

/-- Rows whose ops were not exported stay as they are. -/
theorem remapRow_of_notMem {exported : List Op} {row : LogRow}
    (h : row.op.opId ∉ exported.map Op.opId) : remapRow key m exported row = row := by
  have hfind : exported.find? (fun o => o.opId == row.op.opId) = none := by
    rw [List.find?_eq_none]
    intro o ho hid
    rw [beq_iff_eq] at hid
    exact h (hid ▸ List.mem_map_of_mem ho)
  unfold remapRow
  rw [hfind]

theorem remapRow_opId (exported : List Op) (row : LogRow) :
    (remapRow key m exported row).op.opId = row.op.opId := by
  unfold remapRow
  split
  · rfl
  · dsimp only
    split_ifs
    · rfl
    · split <;> rfl

theorem map_opId_remapTxn (exported : List Op) (f : File) :
    (remapTxn key m exported f).log.map Op.opId = f.log.map Op.opId := by
  change (((f.ops.map (remapRow key m exported)).map LogRow.op).map Op.opId) =
    (f.ops.map LogRow.op).map Op.opId
  simp only [List.map_map]
  exact List.map_congr_left fun row _ => remapRow_opId exported row

/-- **What the transaction leaves folded**: the log is an exported part and ops flow does not fold. -/
theorem allFolded_remapTxn {f : File} (hf : f.Folded taskReducer)
    (hnd : (f.log.map Op.opId).Nodup) {n : Nat}
    (hrest : ∀ op ∈ f.log.drop n, taskReducer.folds op = false)
    (hshapes : ∀ op ∈ f.log.take n, op.lamportInBound = true → isFoldable (remapOp m op) = true →
      op.domain = domainTask) :
    AllFolded (remapTxn key m ((f.log.take n).insertionSort File.ExportLe) f) := by
  set exported := (f.log.take n).insertionSort File.ExportLe with hexported
  have hmem {op : Op} : op ∈ exported ↔ op ∈ f.log.take n := List.mem_insertionSort _
  have htake : f.log.take n = (f.ops.take n).map LogRow.op := by
    rw [File.log, List.map_take]
  have hdrop : f.log.drop n = (f.ops.drop n).map LogRow.op := by
    rw [File.log, List.map_drop]
  have hsplit : f.log.take n ++ f.log.drop n = f.log := List.take_append_drop n f.log
  rw [← hsplit, List.map_append, List.nodup_append] at hnd
  obtain ⟨hndTake, _, hdisj⟩ := hnd
  have hndExp : (exported.map Op.opId).Nodup :=
    (((List.perm_insertionSort _ _).map Op.opId).nodup_iff).mpr hndTake
  have hrew : ∀ row ∈ f.ops.take n, RewrittenAs m row.op (remapRow key m exported row).op := by
    intro row hrow
    refine rewrittenAs_remapRow hndExp (hmem.mpr ?_)
    rw [htake]
    exact List.mem_map_of_mem hrow
  have hstay : (f.ops.drop n).map (remapRow key m exported) = f.ops.drop n := by
    conv_rhs => rw [← List.map_id (f.ops.drop n)]
    refine List.map_congr_left fun row hrow => remapRow_of_notMem fun hin => ?_
    obtain ⟨o, ho, hid⟩ := List.mem_map.mp hin
    have hrow' : row.op.opId ∈ (f.log.drop n).map Op.opId := by
      rw [hdrop]
      exact List.mem_map_of_mem (List.mem_map_of_mem hrow)
    exact hdisj _ (List.mem_map_of_mem (hmem.mp ho)) _ hrow' hid
  have hlog : (remapTxn key m exported f).log =
      (f.ops.take n).map (fun r => (remapRow key m exported r).op) ++ f.log.drop n := by
    change ((f.ops.map (remapRow key m exported)).map LogRow.op) = _
    conv_lhs => rw [← List.take_append_drop n f.ops]
    rw [List.map_append, hstay, List.map_append, List.map_map, hdrop]
    rfl
  have hviews : (remapTxn key m exported f).views.get =
      (exported.map (remapOp m)).foldl taskReducer.foldView fun _ _ => none := by
    change (List.foldl remapFold _ _).get = _
    rw [get_foldl_remapFold, get_clear_folded hf]
    intro op hop hb hfold
    obtain ⟨o, ho, rfl⟩ := List.mem_map.mp hop
    exact hshapes o (hmem.mp ho) hb hfold
  -- both sides fold the exported rows in export order, one rewritten, one rewritten and signed
  have hsorted : ((f.ops.take n).map fun r => (remapRow key m exported r).op).insertionSort
      File.ExportLe = (sortRows (f.ops.take n)).map fun r => (remapRow key m exported r).op :=
    map_sortRows fun a ha b hb => (hrew a ha).exportLe (hrew b hb)
  have hexp : exported = (sortRows (f.ops.take n)).map LogRow.op := by
    rw [hexported, htake]
    exact map_sortRows fun _ _ _ _ => Iff.rfl
  have hskip : ∀ op ∈ f.log.drop n, ∀ v, taskReducer.foldView v op = v :=
    fun op hop v => Reducer.foldView_of_not_folds (hrest op hop) v
  have hback (v : View) : (f.log.drop n).foldl taskReducer.foldView v = v :=
    foldl_of_absorbed fun op hop => hskip op hop v
  unfold AllFolded
  have hexport : (remapTxn key m exported f).exportOps =
      ((f.ops.take n).map (fun r => (remapRow key m exported r).op) ++
        f.log.drop n).insertionSort File.ExportLe :=
    congrArg (List.insertionSort File.ExportLe) hlog
  rw [hviews, hexport, foldl_insertionSort_append, hback, hsorted]
  · conv_lhs => rw [hexp]
    rw [List.foldl_map, List.foldl_map, List.foldl_map]
    refine List.foldl_ext _ _ _ fun v row hrow => ?_
    exact ((hrew row ((List.mem_insertionSort _).mp hrow)).foldView v).symm
  · intro a _ b hb _ v
    rw [hskip b hb, hskip b hb]
  · refine List.Pairwise.imp_of_mem (R := fun _ _ => True) (fun {a b} ha hb _ _ v => ?_)
      (List.pairwise_of_forall fun _ _ => trivial)
    rw [hskip a ha, hskip b hb, hskip a ha]

end Commit

/-! ## Every run -/

/-- What every quiet run maintains. -/
structure RaceInv (pOld pNew : String) (S : Race) : Prop where
  sibling : S.sibling.reducers = [taskReducer]
  noBase : S.file.logBase = none
  nodup : (S.file.log.map Op.opId).Nodup
  /-- Until the commit, the views fold the log in the order it came in. -/
  folded : S.pc ≠ .committed → S.file.Folded taskReducer
  /-- The export is a front part of the log, and flow folds nothing behind it. -/
  exported : ∀ ops, S.pc = .exported ops → OwnShapes pOld pNew ops ∧
    ∃ n ≤ S.file.log.length, ops = (S.file.log.take n).insertionSort File.ExportLe ∧
      ∀ op ∈ S.file.log.drop n, taskReducer.folds op = false
  committed : S.pc = .committed → AllFolded S.file

section Runs

variable {pOld pNew : String} {S S' : Race}

theorem raceInv_of_init (h : RaceInit S) : RaceInv pOld pNew S := by
  obtain ⟨site, key, ulids, s₀, h₀, hrun⟩ := h.reached
  rw [openInMemory_eq] at h₀
  cases h₀
  have hs := (foldInv_freshStore site key ulids).toLogInv.run hrun
  refine ⟨h.sibling, hs.noBase, hs.nodup, fun _ => hs.folded, fun ops hpc => ?_, fun hpc => ?_⟩
  · rw [h.idle] at hpc
    cases hpc
  · rw [h.idle] at hpc
    cases hpc

/-- A sibling's write keeps the invariant. -/
theorem RaceInv.sibling_step (hS : RaceInv pOld pNew S) {s' : Store}
    (h : LocalStep ⟨S.sibling, S.file⟩ s')
    (hq : Quiet pOld pNew S { S with file := s'.file, sibling := s'.handle }) :
    RaceInv pOld pNew { S with file := s'.file, sibling := s'.handle } := by
  cases h with
  | wallClock now => exact ⟨hS.sibling, hS.noBase, hS.nodup, hS.folded, hS.exported, hS.committed⟩
  | emit h =>
    obtain ⟨o, ing, _, he⟩ := Store.emit_eq_some h
    have hl : 1 ≤ o.lamport := by
      have h0 := File.highWaterMark_nonneg hS.noBase
      have hmark := he.mark
      dsimp only at hmark
      omega
    have hfile := he.file
    dsimp only at hfile
    have hsib : s'.handle.reducers = [taskReducer] := by
      rw [he.handle]
      exact hS.sibling
    rcases S.sibling.ingestInTxn_log S.file o .own with hsame | ⟨hnew, hops, hbase, hviews⟩
    · rw [hsame] at hfile
      rw [hfile]
      exact ⟨hsib, hS.noBase, hS.nodup, hS.folded, hS.exported, hS.committed⟩
    · rw [← hfile] at hops hbase hviews
      have hlog : s'.file.log = S.file.log ++ [o] := by
        rw [File.log, hops, List.map_append]
        rfl
      refine ⟨hsib, hbase.trans hS.noBase, ?_, fun hpc => ?_, fun ops hpc => ?_, fun hpc => ?_⟩
      · rw [hfile]
        exact Handle.ingestInTxn_nodup hS.nodup o .own
      · rw [hfile]
        exact Handle.ingestInTxn_folded hS.sibling (hS.folded hpc) o .own
      · obtain ⟨hshapes, n, hn, hexp, hrest⟩ := hS.exported ops hpc
        dsimp only
        rw [hlog]
        refine ⟨hshapes, n, by simp; omega, ?_, fun op hop => ?_⟩
        · rw [List.take_append_of_le_length hn]
          exact hexp
        · rw [List.drop_append_of_le_length hn] at hop
          rcases List.mem_append.mp hop with hop | hop
          · exact hrest op hop
          · rw [List.mem_singleton] at hop
            subst hop
            refine hq.window ops hpc hpc op ?_ fun hin => hnew (List.mem_map_of_mem hin)
            dsimp only
            rw [hlog]
            exact List.mem_append_right _ List.mem_cons_self
      · exact allFolded_append (hS.committed hpc) hl hnew hlog (hviews taskReducer hS.sibling)

/-- One step keeps the invariant. -/
theorem RaceInv.step (hS : RaceInv pOld pNew S) (h : QuietStep pOld pNew S S') :
    RaceInv pOld pNew S' := by
  obtain ⟨hstep, hq⟩ := h
  cases hstep with
  | sibling h => exact hS.sibling_step h hq
  | «export» hpc =>
    refine ⟨hS.sibling, hS.noBase, hS.nodup, fun _ => hS.folded (by rw [hpc]; simp),
      fun ops hops => ?_, fun hcom => by cases hcom⟩
    refine ⟨hq.shapes ops hops, S.file.log.length, le_rfl, ?_, ?_⟩
    · cases hops
      rw [List.take_length]
      rfl
    · rw [List.drop_length]
      intro op hop
      cases hop
  | nothing hpc _ | refused hpc _ =>
    exact ⟨hS.sibling, hS.noBase, hS.nodup, fun _ => hS.folded (by rw [hpc]; simp),
      (fun ops hops => by cases hops), fun hcom => by cases hcom⟩
  | commit hpc _ hb =>
    obtain ⟨hshapes, n, _, hexp, hrest⟩ := hS.exported _ hpc
    have hfolded := hS.folded (by rw [hpc]; simp)
    refine ⟨hS.sibling, hb, ?_, fun hcom => absurd rfl hcom, (fun ops hops => by cases hops),
      fun _ => ?_⟩
    · rw [map_opId_remapTxn]
      exact hS.nodup
    · subst hexp
      refine allFolded_remapTxn hfolded hS.nodup hrest fun op hop => ?_
      exact hshapes op ((List.mem_insertionSort _).mpr hop)

theorem RaceInv.run (hS : RaceInv pOld pNew S) (h : ReflTransGen (QuietStep pOld pNew) S S') :
    RaceInv pOld pNew S' := by
  induction h with
  | refl => exact hS
  | tail _ hstep ih => exact ih.step hstep

/-- **A remap loses no write in a quiet run.** -/
theorem all_folded_of_quiet (h₀ : RaceInit S) (h : ReflTransGen (QuietStep pOld pNew) S S')
    (hpc : S'.pc = .committed) : AllFolded S'.file :=
  ((raceInv_of_init h₀).run h).committed hpc

end Runs

/-! ## Two runs -/

/-- The sibling's handle: site 2, bound to flow's views. -/
def siblingHandle : Handle :=
  ⟨2, 0, "", [taskReducer], some flowViews, silentKey, fun n => "02" ++ toString n, 0⟩

/-- A store with one item, about to be remapped. -/
def raceStart : Race :=
  let s := ((freshStore 1 silentKey toString).apply [setAt "01A" "title" "wash up" 5]).2
  ⟨s.file, s.handle, siblingHandle, .idle⟩

/-- The sibling writes the title of another item. -/
def siblingWrites (S : Race) : Race :=
  match (⟨S.sibling, S.file⟩ : Store).emit
    ⟨domainTask, "item", .given "bbbb.1", "title", "set", some "dry up", "bob"⟩ with
  | some (_, s') => { S with file := s'.file, sibling := s'.handle }
  | none => S

/-- The remapper exports. -/
def exports (S : Race) : Race := { S with pc := .exported S.file.exportOps }

/-- The remapper commits what it exported as `ops`. -/
def commits (ops : List Op) (S : Race) : Race :=
  ⟨remapTxn S.remapper.key (IdMap.ofOps "aaaa" "kp3z" ops) ops S.file, S.remapper, S.sibling,
    .committed⟩

theorem raceInit_raceStart : RaceInit raceStart :=
  ⟨rfl, rfl, 1, silentKey, toString, _, openInMemory_eq 1 silentKey toString,
    .single (.received [setAt "01A" "title" "wash up" 5])⟩

theorem pc_siblingWrites (S : Race) : (siblingWrites S).pc = S.pc := by
  unfold siblingWrites
  split <;> rfl

theorem race_siblingWrites (S : Race) :
    ReflTransGen (RaceStep "aaaa" "kp3z") S (siblingWrites S) := by
  unfold siblingWrites
  split
  · next h => exact .single (.sibling (.emit h))
  · exact .refl

/-- Outside the window every step is quiet. -/
theorem quiet_of_pc {pOld pNew : String} {S S' : Race} (h : ∀ ops, S'.pc ≠ .exported ops) :
    Quiet pOld pNew S S' :=
  ⟨fun ops _ hpc => absurd hpc (h ops), fun ops hpc => absurd hpc (h ops)⟩

theorem quiet_siblingWrites {S : Race} (h : ∀ ops, S.pc ≠ .exported ops) :
    ReflTransGen (QuietStep "aaaa" "kp3z") S (siblingWrites S) := by
  have hq : Quiet "aaaa" "kp3z" S (siblingWrites S) := quiet_of_pc (by rwa [pc_siblingWrites])
  unfold siblingWrites at hq ⊢
  split at hq
  · next h => exact .single ⟨.sibling (.emit h), hq⟩
  · exact .refl

/-- The write the sibling commits before the export, and the one after the remap, are both
folded. -/
theorem all_folded_around_window :
    let S := siblingWrites (commits (siblingWrites raceStart).file.exportOps
      (exports (siblingWrites raceStart)))
    AllFolded S.file ∧ S.file.log.map Op.targetId = ["kp3z.1", "bbbb.1", "bbbb.1"] := by
  have hpc : (siblingWrites raceStart).pc = .idle := pc_siblingWrites raceStart
  have hbefore := quiet_siblingWrites (S := raceStart) (by simp [raceStart])
  have hexport : QuietStep "aaaa" "kp3z" (siblingWrites raceStart)
      (exports (siblingWrites raceStart)) := by
    refine ⟨.export hpc, fun ops hops => ?_, fun ops hops => ?_⟩
    · rw [hpc] at hops
      cases hops
    · cases hops
      decide
  have hcommit : QuietStep "aaaa" "kp3z" (exports (siblingWrites raceStart))
      (commits (siblingWrites raceStart).file.exportOps (exports (siblingWrites raceStart))) :=
    ⟨.commit rfl (by decide) (by decide), quiet_of_pc (by simp [commits])⟩
  have hrun := ((hbefore.tail hexport).tail hcommit).trans
    (quiet_siblingWrites (by simp [commits]))
  exact ⟨all_folded_of_quiet raceInit_raceStart hrun rfl, by decide⟩

/-- A run that loses a write: what the sibling commits between the export and the transaction is in
the log and in no view, and opening the store again finds nothing to do. -/
theorem remap_loses_window_write :
    let S := commits raceStart.file.exportOps (siblingWrites (exports raceStart))
    RaceInit raceStart ∧ ReflTransGen (RaceStep "aaaa" "kp3z") raceStart S ∧ S.pc = .committed ∧
      S.file.log.map Op.targetId = ["kp3z.1", "bbbb.1"] ∧
      S.file.views.get "items" [("id", .text "bbbb.1")] = none ∧
      S.sibling.needsRebuild S.file flowViews = false ∧
      S.file.foldedThrough flowViews = S.file.maxOpRowid ∧ ¬ AllFolded S.file := by
  have hrun : ReflTransGen (RaceStep "aaaa" "kp3z") raceStart
      (commits raceStart.file.exportOps (siblingWrites (exports raceStart))) := by
    have hexport : RaceStep "aaaa" "kp3z" raceStart (exports raceStart) := .export rfl
    exact ((ReflTransGen.single hexport).trans (race_siblingWrites _)).tail
      (.commit (pc_siblingWrites _) (by decide) (by decide))
  have hnone : (commits raceStart.file.exportOps (siblingWrites (exports raceStart))).file.views.get
      "items" [("id", .text "bbbb.1")] = none :=
    Option.isNone_iff_eq_none.mp (by decide)
  refine ⟨raceInit_raceStart, hrun, rfl, by decide, hnone, by decide,
    by decide, fun h => ?_⟩
  have hrow := congrFun (congrFun h "items") [("id", .text "bbbb.1")]
  rw [hnone] at hrow
  have hsome : ((commits raceStart.file.exportOps
      (siblingWrites (exports raceStart))).file.exportOps.foldl taskReducer.foldView
        (fun _ _ => none) "items" [("id", .text "bbbb.1")]).isSome = true := by decide
  rw [← hrow] at hsome
  cases hsome

end NexusFlow.Core
