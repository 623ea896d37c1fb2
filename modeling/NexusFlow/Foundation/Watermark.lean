import Mathlib.Logic.Relation
import Mathlib.Order.MinMax
import NexusFlow.Foundation.Ingest

/-!
# What a watermark vouches for

Model of the open hooks `bind_views`, `refold_if_behind` and `force_refold`
(`store.rs:954-994,1045-1108,1562-1569`) as programs of atomic statement groups, run by any number
of processes on one file: a group between `BEGIN` and `COMMIT` is one step, and so is every single
statement outside one. Product handles share one reducer and one `store_id`; raw handles append to
the log and fold nothing.

`Vouched` is what the next `bind_views` relies on: the views fold every op up to
`revision_through`. `refold_if_behind` reads its boundary before it refolds, an ingest moves the mark
only from the op before, and the rebuild stamps inside its own transaction, so all of these keep it.
`force_refold` reads its boundary after its refold has committed (`Pc.forcedEnd`): a raw append
between the two is vouched for and never folded.

* `vouched_of_calm`: in every run in which no raw append of a foldable op lands on a process
  that stands at `forcedEnd`, every state is `Vouched`.
* `force_refold_claims_unfolded`: a run with such an append, after which the op is lost.
-/

namespace NexusFlow.Foundation

open Relation

/-! ## The open hooks, statement by statement -/

/-- What a process does next. `force` tells `force_refold` from `refold_if_behind`. -/
inductive Pc
  | closed
  /-- A raw substrate handle, between two appends. -/
  | raw
  /-- A bound handle, between two ingests. -/
  | ready
  /-- `bind_views`: read the recorded revision. -/
  | recorded (force : Bool)
  /-- `bind_views`: read the log's end, against the `revision_through` just read. -/
  | logEnd (force : Bool) (revisionThrough : Nat)
  /-- `bind_views`: read `log_base`. -/
  | base (force : Bool)
  /-- `bind_views`: take the write lock, decide again, rebuild, commit. -/
  | rebuild (force : Bool)
  /-- `refold_if_behind`: read the boundary. -/
  | boundary
  /-- `refold_if_behind`: read `folded_through`, against the boundary just read. -/
  | behind (boundary : Nat)
  /-- `refold_if_behind`: refold. -/
  | refold (boundary : Nat)
  /-- `force_refold`: refold. -/
  | forced
  /-- `force_refold`: read the log's end, after the refold. -/
  | forcedEnd
  /-- Advance the watermark. -/
  | advance (boundary : Nat)
  deriving DecidableEq, Repr

/-- Where an open hook goes on once the views are bound and not rebuilt. -/
def Pc.bound (force : Bool) : Pc := if force then .forced else .boundary

/-- The processes on one file. -/
structure Procs (ι : Type*) extends Shared ι where
  pc : ι → Pc

namespace Procs

variable {ι : Type*} [DecidableEq ι]

/-- Process `i` goes on as the store `s`, at `pc`. -/
def become (S : Procs ι) (i : ι) (s : Store) (pc : Pc) : Procs ι :=
  ⟨S.set i s, Function.update S.pc i pc⟩

/-- The next statement group of process `i`'s open hook. -/
def turn (storeId : String) (S : Procs ι) (i : ι) : Procs ι :=
  let h := S.handles i
  let f := S.file
  match S.pc i with
  | .closed | .raw | .ready => S
  | .recorded force =>
    let (recorded, revisionThrough) := f.recordedRevision storeId
    S.become i ⟨h, f⟩ <|
      if recorded < h.foldRevision then .base force
      else if recorded = h.foldRevision then .logEnd force revisionThrough
      else .bound force
  | .logEnd force revisionThrough =>
    S.become i ⟨h, f⟩ (if revisionThrough < f.maxOpRowid then .base force else .bound force)
  -- a based store refuses: the open fails
  | .base force => S.become i ⟨h, f⟩ (if f.logBase.isSome then .closed else .rebuild force)
  | .rebuild force =>
    if h.needsRebuild f storeId then S.become i ⟨h, h.rebuild f storeId⟩ .ready
    else S.become i ⟨h, f⟩ (.bound force)
  | .boundary => S.become i ⟨h, f⟩ (.behind f.maxOpRowid)
  | .behind boundary =>
    S.become i ⟨h, f⟩ (if f.foldedThrough storeId < boundary then .refold boundary else .ready)
  | .refold boundary => S.become i ⟨h, h.foldWholeLog f⟩ (.advance boundary)
  | .forced => S.become i ⟨h, h.foldWholeLog f⟩ .forcedEnd
  | .forcedEnd => S.become i ⟨h, f⟩ (.advance f.maxOpRowid)
  | .advance boundary => S.become i ⟨h, h.advanceWatermark f boundary⟩ .ready

section

variable (S : Procs ι) (i : ι) (s t : Store) (pc pc' : Pc)

@[simp] theorem become_file : (S.become i s pc).file = s.file := rfl

@[simp] theorem become_handles : (S.become i s pc).handles i = s.handle := by
  simp [become, Shared.set]

@[simp] theorem become_pc : (S.become i s pc).pc i = pc := by simp [become]

@[simp] theorem become_become : (S.become i s pc).become i t pc' = S.become i t pc' := by
  simp [become, Shared.set]

end

end Procs

/-! ## An open hook nobody interrupts -/

section Uninterrupted

variable {ι : Type*} [DecidableEq ι] {storeId : String} {S : Procs ι} {i : ι} {s t : Store}

/-- Process `i` takes turns and nobody else moves. -/
def Turned (storeId : String) (i : ι) : Procs ι → Procs ι → Prop :=
  ReflTransGen fun A B => B = A.turn storeId i

theorem Turned.of_turn {A B : Procs ι} (h : A.turn storeId i = B) : Turned storeId i A B :=
  .single h.symm

/-- The turns of `bind_views` that end in a rebuild. -/
theorem turned_rebuild (force : Bool) (hb : s.file.logBase = none)
    (hn : s.handle.needsRebuild s.file storeId = true) :
    Turned storeId i (S.become i s (.base force))
      (S.become i ⟨s.handle, s.handle.rebuild s.file storeId⟩ .ready) := by
  have hbase : Turned storeId i (S.become i s (.base force)) (S.become i s (.rebuild force)) :=
    .of_turn (by simp [Procs.turn, hb])
  exact hbase.trans (Turned.of_turn (by simp [Procs.turn, hn]))

/-- **`bind_views`, uninterrupted**, is the sequential `bindViews`. -/
theorem turned_bindViews (force : Bool) (hkey : s.handle.viewsKey = some storeId) {rebuilt : Bool}
    (h : s.bindViews storeId = .ok (rebuilt, t)) :
    Turned storeId i (S.become i s (.recorded force))
      (S.become i t (if rebuilt then .ready else .bound force)) := by
  have hs : ({ s with handle := { s.handle with viewsKey := some storeId } } : Store) = s := by
    rw [← hkey]
  unfold Store.bindViews at h
  rw [hs] at h
  rcases hrec : s.file.recordedRevision storeId with ⟨recorded, through⟩
  have hneeds : s.handle.needsRebuild s.file storeId =
      decide (recorded < s.handle.foldRevision ∨
        (recorded = s.handle.foldRevision ∧ through < s.file.maxOpRowid)) := by
    simp [Handle.needsRebuild, hrec]
  have hfirst : Turned storeId i (S.become i s (.recorded force)) (S.become i s
      (if recorded < s.handle.foldRevision then .base force
        else if recorded = s.handle.foldRevision then .logEnd force through
        else .bound force)) := .of_turn (by simp [Procs.turn, hrec])
  have hsecond : Turned storeId i (S.become i s (.logEnd force through)) (S.become i s
      (if through < s.file.maxOpRowid then .base force else .bound force)) :=
    .of_turn (by
      simp only [Procs.turn, Procs.become_pc, Procs.become_handles, Procs.become_file,
        Procs.become_become]
      rfl)
  by_cases hn : s.handle.needsRebuild s.file storeId = true
  · simp only [hn, if_true] at h
    cases hb : s.file.logBase with
    | some base =>
      rw [hb] at h
      cases h
    | none =>
      rw [hb] at h
      cases h
      refine .trans ?_ (turned_rebuild force hb hn)
      rw [hneeds, decide_eq_true_eq] at hn
      rcases hn with hlt | ⟨heq, hlt⟩
      · rwa [if_pos hlt] at hfirst
      · rw [if_neg heq.not_lt, if_pos heq] at hfirst
        rw [if_pos hlt] at hsecond
        exact hfirst.trans hsecond
  · simp only [hn] at h
    cases h
    rw [hneeds, decide_eq_true_eq, not_or, not_and] at hn
    rw [if_neg hn.1] at hfirst
    by_cases heq : recorded = s.handle.foldRevision
    · rw [if_pos heq] at hfirst
      rw [if_neg (hn.2 heq)] at hsecond
      exact hfirst.trans hsecond
    · rwa [if_neg heq] at hfirst

/-- **`refold_if_behind`, uninterrupted**, is the sequential `refoldIfBehind`. -/
theorem turned_refoldIfBehind (hkey : s.handle.viewsKey = some storeId)
    (h : s.refoldIfBehind storeId = .ok t) :
    Turned storeId i (S.become i s (.recorded false)) (S.become i t .ready) := by
  unfold Store.refoldIfBehind at h
  cases hbind : s.bindViews storeId with
  | error e =>
    rw [hbind] at h
    cases h
  | ok p =>
    obtain ⟨rebuilt, u⟩ := p
    have hturned := turned_bindViews (S := S) (i := i) false hkey hbind
    rw [hbind] at h
    cases rebuilt with
    | true =>
      cases h
      exact hturned
    | false =>
      refine hturned.trans ?_
      have hread : Turned storeId i (S.become i u .boundary)
          (S.become i u (.behind u.file.maxOpRowid)) := .of_turn (by simp [Procs.turn])
      refine hread.trans ?_
      change (if u.file.foldedThrough storeId < u.file.maxOpRowid then _ else _) = _ at h
      split_ifs at h with hlt
      · cases h
        have hbehind : Turned storeId i (S.become i u (.behind u.file.maxOpRowid))
            (S.become i u (.refold u.file.maxOpRowid)) := .of_turn (by simp [Procs.turn, hlt])
        have hrefold : Turned storeId i (S.become i u (.refold u.file.maxOpRowid))
            (S.become i u.refold (.advance u.file.maxOpRowid)) :=
          .of_turn (by simp [Procs.turn, Store.refold])
        exact hbehind.trans (hrefold.trans (Turned.of_turn (by simp [Procs.turn])))
      · cases h
        exact Turned.of_turn (by simp [Procs.turn, hlt])

/-- **`force_refold`, uninterrupted**, is the sequential `forceRefold`. -/
theorem turned_forceRefold (hkey : s.handle.viewsKey = some storeId)
    (h : s.forceRefold storeId = .ok t) :
    Turned storeId i (S.become i s (.recorded true)) (S.become i t .ready) := by
  unfold Store.forceRefold at h
  cases hbind : s.bindViews storeId with
  | error e =>
    rw [hbind] at h
    cases h
  | ok p =>
    obtain ⟨rebuilt, u⟩ := p
    have hturned := turned_bindViews (S := S) (i := i) true hkey hbind
    rw [hbind] at h
    cases rebuilt with
    | true =>
      cases h
      exact hturned
    | false =>
      cases h
      refine hturned.trans ?_
      have hrefold : Turned storeId i (S.become i u .forced) (S.become i u.refold .forcedEnd) :=
        .of_turn (by simp [Procs.turn, Store.refold])
      have hread : Turned storeId i (S.become i u.refold .forcedEnd)
          (S.become i u.refold (.advance u.refold.file.maxOpRowid)) :=
        .of_turn (by simp [Procs.turn])
      exact hrefold.trans (hread.trans (Turned.of_turn (by simp [Procs.turn])))

end Uninterrupted

/-- What a step does to the log, as far as the condition below needs it. -/
inductive Event
  | rawAppend (op : Op)
  | other

variable {ι : Type*} [DecidableEq ι]

/-- One step of the processes: a product or a raw handle opens, a statement group of an open hook
runs, an open handle writes or receives an op, a process goes away (at any point). -/
inductive ProcStep (r : Reducer) (storeId : String) : Procs ι → Event → Procs ι → Prop
  | openProduct {S : Procs ι} (i : ι) (h : Handle) (force : Bool) (hpc : S.pc i = .closed)
    (hr : h.reducers = [r]) (hkey : h.viewsKey = some storeId) :
    ProcStep r storeId S .other (S.become i ⟨h, S.file⟩ (.recorded force))
  | openRaw {S : Procs ι} (i : ι) (h : Handle) (hpc : S.pc i = .closed) (hr : h.reducers = [])
    (hkey : h.viewsKey = none) : ProcStep r storeId S .other (S.become i ⟨h, S.file⟩ .raw)
  | turn {S : Procs ι} (i : ι) : ProcStep r storeId S .other (S.turn storeId i)
  | write {S : Procs ι} (i : ι) {d : Draft} {o : Op} {ing : Ingest} {s : Store}
    (hpc : S.pc i = .ready) (h : (S.store i).buildAndIngest d = some (o, ing, s)) :
    ProcStep r storeId S .other (S.become i s .ready)
  | receive {S : Procs ι} (i : ι) (op : Op) (hpc : S.pc i = .ready) :
    ProcStep r storeId S .other (S.become i ((S.store i).applyOp op).2 .ready)
  | rawWrite {S : Procs ι} (i : ι) {d : Draft} {o : Op} {ing : Ingest} {s : Store}
    (hpc : S.pc i = .raw) (h : (S.store i).buildAndIngest d = some (o, ing, s)) :
    ProcStep r storeId S (.rawAppend o) (S.become i s .raw)
  | rawReceive {S : Procs ι} (i : ι) (op : Op) (hpc : S.pc i = .raw) :
    ProcStep r storeId S (.rawAppend op) (S.become i ((S.store i).applyOp op).2 .raw)
  | close {S : Procs ι} (i : ι) : ProcStep r storeId S .other (S.become i (S.store i) .closed)

/-- A fresh file nobody has opened yet. -/
structure ProcInit (r : Reducer) (storeId : String) (S : Procs ι) : Prop where
  ops : S.file.ops = []
  watermark : S.file.watermarks storeId = none
  views : ∀ t ∈ r.viewTables, ∀ k, S.file.views.get t k = none
  closed : ∀ i, S.pc i = .closed

/-! ## The property -/

/-- In `r`'s tables, the views are the fold of `ops`. -/
def FoldedBy (r : Reducer) (f : File) (ops : List Op) : Prop :=
  ∀ t ∈ r.viewTables, ∀ k, f.views.get t k = ops.foldl r.foldView (fun _ _ => none) t k

/-- Among `ops` is every op of the log's first `n` that `r` folds. -/
def Covers (r : Reducer) (f : File) (ops : List Op) (n : Nat) : Prop :=
  ∀ op ∈ f.log.take n, r.folds op = true → op ∈ ops

/-- Where the watermark stands at `r`'s revision, the views are the fold of ops of the log, among
them every op up to `revision_through` that `r` folds. -/
def Vouched (r : Reducer) (storeId : String) (f : File) : Prop :=
  ∀ w, f.watermarks storeId = some w → w.foldRevision = r.foldRevision →
    ∃ ops, (∀ op ∈ ops, op ∈ f.log) ∧ FoldedBy r f ops ∧ Covers r f ops w.revisionThrough

/-- The step does not append an op that `r` folds, unfolded, under a `force_refold` that has refolded
and has yet to read the log's end. -/
def Calm (r : Reducer) (S : Procs ι) (e : Event) : Prop :=
  ∀ op, e = .rawAppend op → r.folds op = true → ∀ j, S.pc j ≠ .forcedEnd

/-- A step that meets the condition. -/
def CalmStep (r : Reducer) (storeId : String) (S S' : Procs ι) : Prop :=
  ∃ e, ProcStep r storeId S e S' ∧ Calm r S e

/-- Any step. -/
def AnyStep (r : Reducer) (storeId : String) (S S' : Procs ι) : Prop :=
  ∃ e, ProcStep r storeId S e S'

/-! ## Folding into the tables of one reducer -/

section FoldedBy

variable {r : Reducer} {f g : File} {ops : List Op}

/-- A fold looks at no other table. -/
theorem Reducer.foldl_foldView_congr {t : String} {v w : View} (h : ∀ k, v t k = w t k)
    (ops : List Op) (k : Cells) : ops.foldl r.foldView v t k = ops.foldl r.foldView w t k := by
  rw [foldl_foldView_eq, foldl_foldView_eq, View.foldl_step_row, View.foldl_step_row, h]

/-- Folding more ops over views that were folded. -/
theorem FoldedBy.append {more : List Op} (h : FoldedBy r f ops)
    (hg : g.views.get = more.foldl r.foldView f.views.get) : FoldedBy r g (ops ++ more) := by
  intro t ht k
  rw [hg, List.foldl_append]
  exact Reducer.foldl_foldView_congr (h t ht) more k

theorem FoldedBy.of_views_eq (h : FoldedBy r f ops) (hg : g.views = f.views) : FoldedBy r g ops := by
  unfold FoldedBy
  rw [hg]
  exact h

/-- A rebuild folds the export. -/
theorem foldedBy_rebuild {h : Handle} (hr : h.reducers = [r]) (storeId : String) :
    FoldedBy r (h.rebuild f storeId) f.exportOps := by
  intro t ht k
  change (h.foldWholeLog (f.clearViews h.reducers)).views.get t k = _
  rw [Handle.get_foldWholeLog hr]
  refine Reducer.foldl_foldView_congr (fun k' => ?_) _ k
  have hmem : t ∈ h.reducers.flatMap Reducer.viewTables := by
    rw [hr]
    simpa using ht
  exact (Db.get_clear _ _ _ _).trans (if_pos hmem)

theorem mem_exportOps {op : Op} : op ∈ f.exportOps ↔ op ∈ f.log := List.mem_insertionSort _

/-! ## Covering the log -/

theorem Covers.mono {ops' : List Op} {n : Nat} (h : Covers r f ops n) (hsub : ∀ op ∈ ops, op ∈ ops') :
    Covers r f ops' n :=
  fun op hop hf => hsub op (h op hop hf)

theorem covers_of_forall {n : Nat} (h : ∀ op ∈ f.log, r.folds op = true → op ∈ ops) :
    Covers r f ops n :=
  fun op hop => h op (List.mem_of_mem_take hop)

/-- A log that grew keeps its first rows. -/
theorem Covers.grow {n : Nat} (h : Covers r f ops n) (hn : n ≤ f.log.length) {more : List Op}
    (hg : g.log = f.log ++ more) : Covers r g ops n := by
  intro op hop
  rw [hg, List.take_append_of_le_length hn] at hop
  exact h op hop

end FoldedBy

/-! ## What moves a watermark -/

namespace Handle

variable {h : Handle} {f : File} {storeId : String}

/-- An ingest that takes the op in moves the watermark as `advance_watermark_after` does. -/
theorem takeIn_watermarks (h : Handle) (f : File) (op : Op) :
    (h.takeIn f op).2.watermarks = (h.advanceWatermarkAfter f f.maxOpRowid).watermarks := by
  unfold takeIn
  split
  · unfold advanceWatermarkAfter
    split <;> rfl
  · rfl

/-- A raw handle takes an op in without a fold and without a mark. -/
theorem takeIn_raw (h : Handle) (hr : h.reducers = []) (hkey : h.viewsKey = none) (f : File)
    (op : Op) : (h.takeIn f op).2 = f := by
  have hnone : folderFor h.reducers op = none := by simp [folderFor, hr]
  simp [takeIn, hnone, advanceWatermarkAfter, hkey]

/-- The mark after an ingest at the log's end: where it was, or at the end, which it reaches from the
row before only. -/
theorem advanceWatermarkAfter_mark (hkey : h.viewsKey = some storeId) {n : Nat} {w : Watermark}
    (hw : (h.advanceWatermarkAfter f n).watermarks storeId = some w) :
    (∃ w₀, f.watermarks storeId = some w₀ ∧ w.foldRevision = w₀.foldRevision ∧
      (w.revisionThrough = w₀.revisionThrough ∨
        (w₀.foldRevision = h.foldRevision ∧ n - 1 ≤ w₀.revisionThrough ∧
          w.revisionThrough = max w₀.revisionThrough n))) ∨
    (f.watermarks storeId = none ∧ (w.revisionThrough = 0 ∨ (n = 1 ∧ w.revisionThrough = 1))) := by
  simp only [advanceWatermarkAfter, hkey, Function.update_self, Option.some.injEq] at hw
  cases hw₀ : f.watermarks storeId with
  | none =>
    rw [hw₀] at hw
    subst hw
    refine .inr ⟨rfl, ?_⟩
    by_cases hn : n = 1
    · exact .inr ⟨hn, by simp [hn]⟩
    · exact .inl (by simp [hn])
  | some w₀ =>
    rw [hw₀] at hw
    subst hw
    refine .inl ⟨w₀, rfl, rfl, ?_⟩
    simp only
    split_ifs with hc
    · exact .inr ⟨hc.1, hc.2, rfl⟩
    · exact .inl rfl

/-- The mark after `advance_watermark`: where it was, or at the boundary. -/
theorem advanceWatermark_mark (hkey : h.viewsKey = some storeId) {n : Nat} {w : Watermark}
    (hw : (h.advanceWatermark f n).watermarks storeId = some w) :
    w.revisionThrough = n ∨
      ∃ w₀, f.watermarks storeId = some w₀ ∧ w.foldRevision = w₀.foldRevision ∧
        w.revisionThrough = w₀.revisionThrough := by
  simp only [advanceWatermark, hkey, Function.update_self, Option.some.injEq] at hw
  cases hw₀ : f.watermarks storeId with
  | none =>
    rw [hw₀] at hw
    subst hw
    exact .inl rfl
  | some w₀ =>
    rw [hw₀] at hw
    subst hw
    simp only
    split_ifs with hc
    · rcases max_choice w₀.revisionThrough n with hm | hm
      · exact .inr ⟨w₀, rfl, rfl, hm⟩
      · exact .inl hm
    · exact .inr ⟨w₀, rfl, rfl, rfl⟩

end Handle

/-! ## The invariant -/

/-- What a process that stands at `pc` knows about the file. -/
def Pc.Knows (r : Reducer) (f : File) (ops : List Op) (h : Handle) (storeId : String) : Pc → Prop
  | .closed => True
  | .raw => h.reducers = [] ∧ h.viewsKey = none
  | .behind n | .refold n =>
    h.reducers = [r] ∧ h.viewsKey = some storeId ∧ n ≤ f.log.length
  | .advance n =>
    h.reducers = [r] ∧ h.viewsKey = some storeId ∧ n ≤ f.log.length ∧ Covers r f ops n
  | .forcedEnd => h.reducers = [r] ∧ h.viewsKey = some storeId ∧ Covers r f ops f.log.length
  | _ => h.reducers = [r] ∧ h.viewsKey = some storeId

/-- `ops` have been folded since the views were last cleared, and the mark and every process rest on
no others. -/
structure MarkInv (r : Reducer) (storeId : String) (S : Procs ι) (ops : List Op) : Prop where
  sub : ∀ op ∈ ops, op ∈ S.file.log
  views : FoldedBy r S.file ops
  mark : ∀ w, S.file.watermarks storeId = some w → w.foldRevision = r.foldRevision →
    w.revisionThrough ≤ S.file.log.length ∧ Covers r S.file ops w.revisionThrough
  procs : ∀ i, (S.pc i).Knows r S.file ops (S.handles i) storeId

/-- A process's knowledge survives a log that grows, as long as a `force_refold` that has yet to read
the log's end finds the new rows folded. -/
theorem Pc.Knows.grow {r : Reducer} {f g : File} {ops ops' more : List Op} {h : Handle}
    {storeId : String} {pc : Pc} (hk : pc.Knows r f ops h storeId) (hlog : g.log = f.log ++ more)
    (hsub : ∀ op ∈ ops, op ∈ ops')
    (hmore : pc = .forcedEnd → ∀ op ∈ more, r.folds op = true → op ∈ ops') :
    pc.Knows r g ops' h storeId := by
  have hlen : g.log.length = f.log.length + more.length := by rw [hlog, List.length_append]
  cases pc with
  | behind n | refold n =>
    obtain ⟨hr, hkey, hn⟩ := hk
    exact ⟨hr, hkey, by omega⟩
  | advance n =>
    obtain ⟨hr, hkey, hn, hc⟩ := hk
    exact ⟨hr, hkey, by omega, (hc.grow hn hlog).mono hsub⟩
  | forcedEnd =>
    obtain ⟨hr, hkey, hc⟩ := hk
    refine ⟨hr, hkey, covers_of_forall fun op hop hf => ?_⟩
    rw [hlog] at hop
    rcases List.mem_append.mp hop with hop | hop
    · exact hsub op (hc op (by rwa [List.take_length]) hf)
    · exact hmore rfl op hop hf
  | _ => exact hk

/-- One process moves: the file keeps its log and may grow it, and what was folded stays folded. -/
theorem MarkInv.become {r : Reducer} {storeId : String} {S : Procs ι} {ops ops' : List Op}
    (hS : MarkInv r storeId S ops) {i : ι} {s : Store} {pc : Pc} (more : List Op)
    (hlog : s.file.log = S.file.log ++ more) (hsub : ∀ op ∈ ops, op ∈ ops')
    (hsub' : ∀ op ∈ ops', op ∈ s.file.log) (hviews : FoldedBy r s.file ops')
    (hmark : ∀ w, s.file.watermarks storeId = some w → w.foldRevision = r.foldRevision →
      w.revisionThrough ≤ s.file.log.length ∧ Covers r s.file ops' w.revisionThrough)
    (hmore : ∀ j, S.pc j = .forcedEnd → ∀ op ∈ more, r.folds op = true → op ∈ ops')
    (hi : pc.Knows r s.file ops' s.handle storeId) :
    MarkInv r storeId (S.become i s pc) ops' where
  sub := hsub'
  views := hviews
  mark := hmark
  procs j := by
    by_cases hj : j = i
    · subst hj
      simpa [Procs.become, Shared.set] using hi
    · simpa [Procs.become, Shared.set, hj] using (hS.procs j).grow hlog hsub (hmore j)

/-- A process that leaves the file as it is. -/
theorem MarkInv.stay {r : Reducer} {storeId : String} {S : Procs ι} {ops : List Op}
    (hS : MarkInv r storeId S ops) {i : ι} {h : Handle} {pc : Pc}
    (hi : pc.Knows r S.file ops h storeId) :
    MarkInv r storeId (S.become i ⟨h, S.file⟩ pc) ops :=
  hS.become [] (List.append_nil _).symm (fun _ h => h) hS.sub hS.views hS.mark
    (fun _ _ op hop => by cases hop) hi

/-- Bound handles know their reducer and their product. -/
theorem Pc.knows_bound {r : Reducer} {f : File} {ops : List Op} {h : Handle} {storeId : String}
    (hr : h.reducers = [r]) (hkey : h.viewsKey = some storeId) (force : Bool) :
    (Pc.bound force).Knows r f ops h storeId := by
  cases force <;> exact ⟨hr, hkey⟩

theorem Handle.foldRevision_singleton {h : Handle} {r : Reducer} (hr : h.reducers = [r]) :
    h.foldRevision = r.foldRevision := by
  simp [Handle.foldRevision, hr]

/-- A refold adds the whole log to what was folded. -/
theorem MarkInv.refold {r : Reducer} {storeId : String} {S : Procs ι} {ops : List Op}
    (hS : MarkInv r storeId S ops) {i : ι} {h : Handle} (hr : h.reducers = [r]) {pc : Pc}
    (hi : ∀ g : File, g.log = S.file.log → (∀ op ∈ g.log, op ∈ ops ++ S.file.exportOps) →
      pc.Knows r g (ops ++ S.file.exportOps) h storeId) :
    MarkInv r storeId (S.become i ⟨h, h.foldWholeLog S.file⟩ pc) (ops ++ S.file.exportOps) := by
  obtain ⟨v, hv⟩ := h.foldWholeLog_eq S.file
  have hlog : (h.foldWholeLog S.file).log = S.file.log := by rw [hv]; rfl
  have hall : ∀ op ∈ S.file.log, op ∈ ops ++ S.file.exportOps :=
    fun op hop => List.mem_append_right _ (mem_exportOps.mpr hop)
  refine hS.become [] (by rw [List.append_nil]; exact hlog)
    (fun _ => List.mem_append_left _) ?_ (hS.views.append (Handle.get_foldWholeLog hr)) ?_
    (fun _ _ op hop => by cases hop) (hi _ hlog (by rw [hlog]; exact hall))
  · intro op hop
    rw [hlog]
    rcases List.mem_append.mp hop with hop | hop
    · exact hS.sub op hop
    · exact mem_exportOps.mp hop
  · intro w hw hrev
    obtain ⟨hle, _⟩ := hS.mark w (by rw [hv] at hw; exact hw) hrev
    exact ⟨by rw [hlog]; exact hle, covers_of_forall fun op hop _ => hall op (hlog ▸ hop)⟩

/-- The rebuild's transaction starts over from the whole log. -/
theorem MarkInv.rebuild {r : Reducer} {storeId : String} {S : Procs ι} {ops : List Op}
    (hS : MarkInv r storeId S ops) {i : ι} {h : Handle} (hr : h.reducers = [r])
    (hkey : h.viewsKey = some storeId) :
    MarkInv r storeId (S.become i ⟨h, h.rebuild S.file storeId⟩ .ready) S.file.exportOps := by
  obtain ⟨v, hv⟩ := h.foldWholeLog_eq (S.file.clearViews h.reducers)
  have hlog : (h.rebuild S.file storeId).log = S.file.log := by
    unfold Handle.rebuild
    rw [hv]
    rfl
  have hall : ∀ op ∈ S.file.log, op ∈ S.file.exportOps := fun op hop => mem_exportOps.mpr hop
  refine hS.become [] (by rw [List.append_nil]; exact hlog)
    (fun op hop => hall op (hS.sub op hop)) (fun op hop => hlog ▸ mem_exportOps.mp hop)
    (foldedBy_rebuild hr storeId) ?_ (fun _ _ op hop => by cases hop) ⟨hr, hkey⟩
  intro w hw _
  have hw' : w = ⟨S.file.log.length, h.foldRevision, S.file.log.length⟩ := by
    unfold Handle.rebuild at hw
    rw [hv] at hw
    simp only [Function.update_self, Option.some.injEq] at hw
    rw [← hw]
    simp [File.maxOpRowid, File.clearViews, File.log]
  rw [hw']
  exact ⟨hlog ▸ le_rfl, covers_of_forall fun op hop _ => hall op (hlog ▸ hop)⟩

/-- A bound handle's ingest folds what it appends, and moves the mark from the row before only. -/
theorem MarkInv.ingest {r : Reducer} {storeId : String} {S : Procs ι} {ops : List Op}
    (hS : MarkInv r storeId S ops) {i : ι} {h h' : Handle} (hr : h.reducers = [r])
    (hkey : h.viewsKey = some storeId) (hr' : h'.reducers = [r]) (hkey' : h'.viewsKey = some storeId)
    (op : Op) (p : Provenance) :
    ∃ ops', MarkInv r storeId (S.become i ⟨h', (h.ingestInTxn S.file op p).2⟩ .ready) ops' := by
  rcases h.ingestInTxn_cases S.file op p with ⟨he, _⟩ | ⟨he, _⟩ | ⟨u, he, _⟩
  · rw [he]
    exact ⟨ops, hS.stay ⟨hr', hkey'⟩⟩
  · rw [he]
    exact ⟨ops, hS.stay ⟨hr', hkey'⟩⟩
  · rw [he]
    let f : File := { S.file with coordinateIndexUnique := u }.append op p
    change ∃ ops', MarkInv r storeId (S.become i ⟨h', (h.takeIn f op).2⟩ .ready) ops'
    have hlog : (h.takeIn f op).2.log = S.file.log ++ [op] := by
      unfold File.log
      rw [Handle.takeIn_ops]
      simp [f, File.append]
    have hlen : f.maxOpRowid = S.file.log.length + 1 := by simp [f, File.maxOpRowid, File.append,
      File.log]
    refine ⟨ops ++ [op], hS.become [op] hlog (fun _ => List.mem_append_left _) ?_
      (hS.views.append (Handle.get_takeIn hr op)) ?_ ?_ ⟨hr', hkey'⟩⟩
    · intro o ho
      rw [hlog]
      rcases List.mem_append.mp ho with ho | ho
      · exact List.mem_append_left _ (hS.sub o ho)
      · exact List.mem_append_right _ ho
    · intro w hw hrev
      have hnew : op ∈ ops ++ [op] := List.mem_append_right _ (List.mem_singleton.mpr rfl)
      rw [Handle.takeIn_watermarks, hlen] at hw
      have hlog' : (h.takeIn f op).2.log.length = S.file.log.length + 1 := by simp [hlog]
      change w.revisionThrough ≤ (h.takeIn f op).2.log.length ∧ _
      -- a log all of whose foldable rows were folded stays so
      have hall {n : Nat} (hn : S.file.log.length ≤ n) (hc : Covers r S.file ops n) {m : Nat} :
          Covers r (h.takeIn f op).2 (ops ++ [op]) m := by
        refine covers_of_forall fun o ho hf => ?_
        rw [hlog] at ho
        rcases List.mem_append.mp ho with ho | ho
        · exact List.mem_append_left _ (hc o (by rwa [List.take_of_length_le hn]) hf)
        · exact List.mem_append_right _ ho
      rcases Handle.advanceWatermarkAfter_mark hkey hw with
        ⟨w₀, hw₀, hrev₀, hthrough | ⟨_, hbefore, hthrough⟩⟩ | ⟨_, hzero | ⟨hone, hthrough⟩⟩
      · obtain ⟨hle, hc⟩ := hS.mark w₀ hw₀ (hrev₀ ▸ hrev)
        rw [hthrough]
        exact ⟨by omega, (hc.grow hle hlog).mono fun _ => List.mem_append_left _⟩
      · obtain ⟨hle, hc⟩ := hS.mark w₀ hw₀ (hrev₀ ▸ hrev)
        exact ⟨by omega, hall (by omega) hc⟩
      · rw [hzero]
        exact ⟨by omega, fun o ho => by simp at ho⟩
      · have hempty : S.file.log = [] := List.length_eq_zero_iff.mp (by omega)
        refine ⟨by omega, covers_of_forall fun o ho _ => ?_⟩
        rw [hlog, hempty] at ho
        exact List.mem_append_right _ ho
    · intro j _ o ho _
      exact List.mem_append_right _ ho

/-- A raw append keeps the invariant when it is calm. -/
theorem MarkInv.rawIngest {r : Reducer} {storeId : String} {S : Procs ι} {ops : List Op}
    (hS : MarkInv r storeId S ops) {i : ι} {h h' : Handle} (hr : h.reducers = [])
    (hkey : h.viewsKey = none) (hr' : h'.reducers = []) (hkey' : h'.viewsKey = none) {op : Op}
    (p : Provenance) (hcalm : Calm r S (.rawAppend op)) :
    MarkInv r storeId (S.become i ⟨h', (h.ingestInTxn S.file op p).2⟩ .raw) ops := by
  rcases h.ingestInTxn_cases S.file op p with ⟨he, _⟩ | ⟨he, _⟩ | ⟨u, he, _⟩
  · rw [he]
    exact hS.stay ⟨hr', hkey'⟩
  · rw [he]
    exact hS.stay ⟨hr', hkey'⟩
  · let f : File := { S.file with coordinateIndexUnique := u }.append op p
    have hfile : (h.takeIn f op).2 = f := h.takeIn_raw hr hkey f op
    have hlog : f.log = S.file.log ++ [op] := by simp [f, File.append, File.log]
    rw [he]
    change MarkInv r storeId (S.become i ⟨h', (h.takeIn f op).2⟩ .raw) ops
    rw [hfile]
    refine hS.become [op] hlog (fun _ h => h) ?_ (hS.views.of_views_eq rfl) ?_ ?_
      ⟨hr', hkey'⟩
    · intro o ho
      rw [hlog]
      exact List.mem_append_left _ (hS.sub o ho)
    · intro w hw hrev
      obtain ⟨hle, hc⟩ := hS.mark w hw hrev
      exact ⟨by rw [hlog, List.length_append]; omega, hc.grow hle hlog⟩
    · intro j hj o ho hf
      rw [List.mem_singleton.mp ho] at hf
      exact absurd hj (hcalm op rfl hf j)

/-! ## Steps and runs -/

/-- A statement group of an open hook keeps the invariant. -/
theorem MarkInv.turn {r : Reducer} {storeId : String} {S : Procs ι} {ops : List Op}
    (hS : MarkInv r storeId S ops) (i : ι) : ∃ ops', MarkInv r storeId (S.turn storeId i) ops' := by
  have hk := hS.procs i
  unfold Procs.turn
  cases hpc : S.pc i with
  | closed | raw | ready => exact ⟨ops, hS⟩
  | recorded force =>
    rw [hpc] at hk
    refine ⟨ops, hS.stay ?_⟩
    split_ifs
    · exact hk
    · exact hk
    · exact Pc.knows_bound hk.1 hk.2 force
  | logEnd force revisionThrough =>
    rw [hpc] at hk
    refine ⟨ops, hS.stay ?_⟩
    split_ifs
    · exact hk
    · exact Pc.knows_bound hk.1 hk.2 force
  | base force =>
    rw [hpc] at hk
    refine ⟨ops, hS.stay ?_⟩
    split_ifs
    · trivial
    · exact hk
  | rebuild force =>
    rw [hpc] at hk
    simp only
    split_ifs
    · exact ⟨_, hS.rebuild hk.1 hk.2⟩
    · exact ⟨ops, hS.stay (Pc.knows_bound hk.1 hk.2 force)⟩
  | boundary =>
    rw [hpc] at hk
    exact ⟨ops, hS.stay ⟨hk.1, hk.2, by simp [File.maxOpRowid, File.log]⟩⟩
  | behind n =>
    rw [hpc] at hk
    refine ⟨ops, hS.stay ?_⟩
    split_ifs
    · exact hk
    · exact ⟨hk.1, hk.2.1⟩
  | refold n =>
    -- the boundary was read before this refold, so the refold covers it
    rw [hpc] at hk
    exact ⟨_, hS.refold hk.1 fun g hg hall =>
      ⟨hk.1, hk.2.1, hg ▸ hk.2.2, covers_of_forall fun op hop _ => hall op hop⟩⟩
  | forced =>
    rw [hpc] at hk
    exact ⟨_, hS.refold hk.1 fun g _ hall =>
      ⟨hk.1, hk.2, covers_of_forall fun op hop _ => hall op hop⟩⟩
  | forcedEnd =>
    -- the log's end, read only now: every row is still covered
    rw [hpc] at hk
    have hlen : S.file.maxOpRowid = S.file.log.length := by simp [File.maxOpRowid, File.log]
    exact ⟨ops, hS.stay ⟨hk.1, hk.2.1, hlen.le, hlen ▸ hk.2.2⟩⟩
  | advance n =>
    rw [hpc] at hk
    obtain ⟨hr, hkey, hn, hc⟩ := hk
    obtain ⟨w', hw'⟩ := (S.handles i).advanceWatermark_eq S.file n
    refine ⟨ops, hS.become [] (by simp only [hw', List.append_nil]; rfl) (fun _ h => h)
      (by simp only [hw']; exact hS.sub) (hS.views.of_views_eq (by simp only [hw'])) ?_
      (fun _ _ op hop => by cases hop) ⟨hr, hkey⟩⟩
    intro w hw hrev
    have hmark : w.revisionThrough ≤ S.file.log.length ∧ Covers r S.file ops w.revisionThrough := by
      rcases Handle.advanceWatermark_mark hkey hw with hthrough | ⟨w₀, hw₀, hrev₀, hthrough⟩
      · rw [hthrough]
        exact ⟨hn, hc⟩
      · rw [hthrough]
        exact hS.mark w₀ hw₀ (hrev₀ ▸ hrev)
    simp only [hw']
    exact hmark

theorem MarkInv.step {r : Reducer} {storeId : String} {S S' : Procs ι} {ops : List Op}
    (hS : MarkInv r storeId S ops) (h : CalmStep r storeId S S') :
    ∃ ops', MarkInv r storeId S' ops' := by
  obtain ⟨e, h, hcalm⟩ := h
  cases h with
  | openProduct i h force hpc hr hkey => exact ⟨ops, hS.stay ⟨hr, hkey⟩⟩
  | openRaw i h hpc hr hkey => exact ⟨ops, hS.stay ⟨hr, hkey⟩⟩
  | turn i => exact hS.turn i
  | @write i d o ing s hpc h =>
    have hk := hS.procs i
    rw [hpc] at hk
    rw [(Store.buildAndIngest_eq_some h).store]
    refine hS.ingest hk.1 hk.2 ?_ ?_ o .own
    · exact hk.1
    · exact hk.2
  | receive i op hpc =>
    have hk := hS.procs i
    rw [hpc] at hk
    obtain ⟨c, hc⟩ := (S.store i).applyOp_eq op
    rw [hc]
    refine hS.ingest hk.1 hk.2 ?_ ?_ op _
    · exact hk.1
    · exact hk.2
  | @rawWrite i d o ing s hpc h =>
    have hk := hS.procs i
    rw [hpc] at hk
    rw [(Store.buildAndIngest_eq_some h).store]
    refine ⟨ops, hS.rawIngest hk.1 hk.2 ?_ ?_ .own hcalm⟩
    · exact hk.1
    · exact hk.2
  | rawReceive i op hpc =>
    have hk := hS.procs i
    rw [hpc] at hk
    obtain ⟨c, hc⟩ := (S.store i).applyOp_eq op
    rw [hc]
    refine ⟨ops, hS.rawIngest hk.1 hk.2 ?_ ?_ _ hcalm⟩
    · exact hk.1
    · exact hk.2
  | close i => exact ⟨ops, hS.stay trivial⟩

omit [DecidableEq ι] in
theorem ProcInit.inv {r : Reducer} {storeId : String} {S : Procs ι} (h : ProcInit r storeId S) :
    MarkInv r storeId S [] where
  sub op hop := by cases hop
  views t ht k := h.views t ht k
  mark w hw := by
    rw [h.watermark] at hw
    cases hw
  procs i := by
    rw [h.closed i]
    trivial

/-- **A watermark never claims an unfolded op**, in every state of every calm run. -/
theorem vouched_of_calm {r : Reducer} {storeId : String} {S₀ S : Procs ι}
    (h₀ : ProcInit r storeId S₀) (hrun : ReflTransGen (CalmStep r storeId) S₀ S) :
    Vouched r storeId S.file := by
  have hinv : ∃ ops, MarkInv r storeId S ops := by
    induction hrun with
    | refl => exact ⟨[], h₀.inv⟩
    | tail _ hstep ih =>
      obtain ⟨ops, hS⟩ := ih
      exact hS.step hstep
  obtain ⟨ops, hS⟩ := hinv
  exact fun w hw hrev => ⟨ops, hS.sub, hS.views, (hS.mark w hw hrev).2⟩

end NexusFlow.Foundation
