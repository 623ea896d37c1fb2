import NexusFlow.Core.Store
import NexusFlow.Foundation.Image

/-!
# flow on a shared file

What `Watermark.lean` and `Image.lean` say about any product, at flow's reducer: runs that keep the
watermark and the image true, and the two runs that do not.

* `force_refold_claims_unfolded`: `force_refold` (`store.rs:1562-1569`) reads the log's end after its
  refold committed. An op appended in between is below `revision_through` and in no view.
* `image_loses_gap`: a handle ingests behind a row a sibling appended, `folded_through` jumps that
  row, and a store that loads the image never folds it.
-/

namespace NexusFlow.Core

open NexusFlow.Foundation Relation

/-- A received op that sets an item's title. -/
def titleOp (opId id title : String) (lamport : Int) : Op :=
  ⟨opId, lamport, 7, domainTask, "item", id, "title", "set", some title, "alice", "", none, none⟩

/-! ## The watermark -/

/-- A flow handle, bound. -/
def flowHandle : Handle := ⟨1, 0, "", [taskReducer], some flowViews, silentKey, toString, 0⟩

/-- A raw handle on the same file. -/
def rawHandle : Handle := ⟨2, 0, "", [], none, silentKey, toString, 0⟩

/-- A fresh file and two processes, `true` for flow and `false` for the raw one. -/
def twoProcs : Procs Bool where
  file := File.fresh
  handles := fun _ => rawHandle
  pc := fun _ => .closed

/-- flow's process takes `n` turns of its open hook. -/
def flowTurns (n : Nat) (S : Procs Bool) : Procs Bool :=
  n.repeat (fun S => S.turn flowViews true) S

/-- flow opens the fresh file and goes away, and opens it again through `force_refold`. -/
def reopenedByForce : Procs Bool :=
  let S := flowTurns 3 (twoProcs.become true ⟨flowHandle, twoProcs.file⟩ (.recorded false))
  let S := S.become true (S.store true) .closed
  S.become true ⟨flowHandle, S.file⟩ (.recorded true)

/-- The raw process opens and receives an op. -/
def rawReceives (op : Op) (S : Procs Bool) : Procs Bool :=
  let S := S.become false ⟨rawHandle, S.file⟩ .raw
  S.become false ((S.store false).applyOp op).2 .raw

/-- The append comes after `force_refold` bound the views and before it refolds. -/
def appendedBeforeRefold : Procs Bool :=
  flowTurns 3 (rawReceives (titleOp "01A" "aaaa.1" "wash up" 1) (flowTurns 2 reopenedByForce))

/-- The append comes after the refold's `COMMIT` and before the boundary is read. -/
def appendedBeforeBoundary : Procs Bool :=
  flowTurns 2 (rawReceives (titleOp "01A" "aaaa.1" "wash up" 1) (flowTurns 3 reopenedByForce))

theorem procInit_twoProcs : ProcInit taskReducer flowViews twoProcs :=
  ⟨rfl, rfl, fun _ _ _ => rfl, fun _ => rfl⟩

theorem calmStep_other {S S' : Procs Bool} (h : ProcStep taskReducer flowViews S .other S') :
    CalmStep taskReducer flowViews S S' :=
  ⟨.other, h, fun _ he => by cases he⟩

theorem calm_flowTurns (n : Nat) (S : Procs Bool) :
    ReflTransGen (CalmStep taskReducer flowViews) S (flowTurns n S) := by
  induction n with
  | zero => exact .refl
  | succ n ih => exact ih.tail (calmStep_other (.turn true))

theorem calm_reopenedByForce :
    ReflTransGen (CalmStep taskReducer flowViews) twoProcs reopenedByForce := by
  have hopen := calmStep_other
    (.openProduct true flowHandle false (rfl : twoProcs.pc true = .closed) rfl rfl)
  have hready := (ReflTransGen.single hopen).trans (calm_flowTurns 3 _)
  have hclosed := hready.tail (calmStep_other (.close true))
  exact hclosed.tail (calmStep_other
    (.openProduct true flowHandle true (by decide) rfl rfl))

theorem rawReceives_event (op : Op) {S : Procs Bool} (hpc : S.pc false = .closed) :
    ∃ S', CalmStep taskReducer flowViews S S' ∧ S'.pc true = S.pc true ∧
      S'.pc false = .raw ∧
      ProcStep taskReducer flowViews S' (.rawAppend op) (rawReceives op S) :=
  ⟨S.become false ⟨rawHandle, S.file⟩ .raw,
    calmStep_other (.openRaw false rawHandle hpc rfl rfl), rfl, rfl, .rawReceive false op rfl⟩

/-- An append before the refold is folded with the rest, and the mark that covers it is true. -/
theorem vouched_appendedBeforeRefold :
    Vouched taskReducer flowViews appendedBeforeRefold.file ∧
      appendedBeforeRefold.file.watermarks flowViews = some ⟨1, 3, 1⟩ := by
  refine ⟨vouched_of_calm procInit_twoProcs ?_, by decide⟩
  refine .trans (calm_reopenedByForce.trans (calm_flowTurns 2 _)) ?_
  obtain ⟨S', hopen, htrue, hfalse, hraw⟩ := rawReceives_event
    (titleOp "01A" "aaaa.1" "wash up" 1) (S := flowTurns 2 reopenedByForce) (by decide)
  refine .trans (.tail (.single hopen) ⟨_, hraw, fun _ _ _ j => ?_⟩) (calm_flowTurns 3 _)
  cases j with
  | false => rw [hfalse]; decide
  | true => rw [htrue]; decide

/-- **The boundary read after the refold's `COMMIT`** vouches for an op nobody folded: the run ends
with `revision_through = 1`, the op at row 1 foldable, its item in no view, and no rebuild due. -/
theorem force_refold_claims_unfolded :
    ReflTransGen (AnyStep taskReducer flowViews) twoProcs appendedBeforeBoundary ∧
      appendedBeforeBoundary.file.watermarks flowViews = some ⟨1, 3, 1⟩ ∧
      appendedBeforeBoundary.file.log = [titleOp "01A" "aaaa.1" "wash up" 1] ∧
      taskReducer.folds (titleOp "01A" "aaaa.1" "wash up" 1) = true ∧
      (appendedBeforeBoundary.file.views.get "items" (itemKey "aaaa.1")).isNone = true ∧
      flowHandle.needsRebuild appendedBeforeBoundary.file flowViews = false ∧
      ¬ Vouched taskReducer flowViews appendedBeforeBoundary.file := by
  have hmark : appendedBeforeBoundary.file.watermarks flowViews = some ⟨1, 3, 1⟩ := by
    decide
  have hlog : appendedBeforeBoundary.file.log = [titleOp "01A" "aaaa.1" "wash up" 1] := by
    decide
  have hnone : (appendedBeforeBoundary.file.views.get "items" (itemKey "aaaa.1")).isNone = true := by
    decide
  refine ⟨?_, hmark, hlog, by decide, hnone, by decide, fun h => ?_⟩
  · have hany {S S' : Procs Bool} (h : ReflTransGen (CalmStep taskReducer flowViews) S S') :
        ReflTransGen (AnyStep taskReducer flowViews) S S' :=
      h.lift id fun _ _ ⟨e, he, _⟩ => ⟨e, he⟩
    obtain ⟨S', hopen, _, _, hraw⟩ := rawReceives_event
      (titleOp "01A" "aaaa.1" "wash up" 1) (S := flowTurns 3 reopenedByForce) (by decide)
    refine .trans (hany (calm_reopenedByForce.trans (calm_flowTurns 3 _))) ?_
    exact .trans (.tail (hany (.single hopen)) ⟨_, hraw⟩) (hany (calm_flowTurns 2 _))
  · obtain ⟨ops, _, hfold, hcovers⟩ := h _ hmark rfl
    have hop : titleOp "01A" "aaaa.1" "wash up" 1 ∈ ops := by
      refine hcovers _ ?_ (by decide)
      rw [hlog]
      exact List.mem_singleton.mpr rfl
    have hchange : TaskReducer.itemLww (titleOp "01A" "aaaa.1" "wash up" 1) ∈
        taskReducer.changesOf (titleOp "01A" "aaaa.1" "wash up" 1) := by
      simp only [Reducer.changesOf, show taskReducer.folds (titleOp "01A" "aaaa.1" "wash up" 1) = true
        by decide, if_true]
      exact List.mem_cons_self
    have hsome : (ops.foldl taskReducer.foldView (fun _ _ => none) "items"
        (itemKey "aaaa.1")).isSome = true :=
      Reducer.isSome_foldl_foldView hop hchange fun _ _ => none
    rw [hfold "items" (by decide) (itemKey "aaaa.1")] at hnone
    rw [Option.isNone_iff_eq_none] at hnone
    rw [hnone] at hsome
    cases hsome

/-! ## The image -/

/-- A store that ingested one op while a sibling appended nothing foldable behind it. -/
def ingestedOne : Store :=
  ((freshStore 1 silentKey toString).applyOp (titleOp "01A" "aaaa.1" "wash up" 1)).2

/-- A sibling's raw append after it. -/
def appendedTwo : Store :=
  ⟨ingestedOne.handle,
    (Store.applyOp ⟨rawHandle, ingestedOne.file⟩ (titleOp "01B" "aaaa.2" "dry up" 2)).2.file⟩

/-- The handle ingests once more, behind the sibling's row. -/
def ingestedThree : Store := (appendedTwo.applyOp (titleOp "01C" "aaaa.3" "tidy up" 3)).2

theorem openFresh_flow (site : Int) (key : ReplicaKey) (ulids : Nat → String) :
    openFresh taskReducer flowViews site key ulids = .ok (freshStore site key ulids) := rfl

theorem rawHandle_raw : rawHandle.Raw := ⟨rfl, rfl⟩

/-- A row appended after the last ingest is folded by the load. -/
theorem load_image_folds_appended :
    ∃ l t, (freshStore 9 silentKey toString).loadImage "0.5.0" true
        (appendedTwo.image "0.5.0" 9 4) = .ok (l, t) ∧ t.file.log = appendedTwo.file.log ∧
      ∀ u, Reopened taskReducer flowViews t u →
        SameViews taskReducer u.file (refolded taskReducer u.handle u.file) := by
  refine load_image_folds taskReducer_lawful (openFresh_flow 1 silentKey toString) ?_
    (openFresh_flow 9 silentKey toString) "0.5.0" true 9 (by decide)
  refine .tail (.single ⟨_, .receive (titleOp "01A" "aaaa.1" "wash up" 1), by decide, ?_⟩)
    ⟨_, .rawReceive rawHandle_raw (titleOp "01B" "aaaa.2" "dry up" 2), fun _ => by decide⟩
  intro o ho
  cases ho

/-- Whether item `aaaa.2` has a row: in the file, and where its log is folded again. -/
def gapRows (t : Store) : Bool × Bool :=
  ((t.file.views.get "items" (itemKey "aaaa.2")).isSome,
    ((refolded taskReducer t.handle t.file).views.get "items" (itemKey "aaaa.2")).isSome)

/-- The same, right after the load and after one reopen. -/
def loadedGapRows : Option ((Bool × Bool) × (Bool × Bool)) :=
  match (freshStore 9 silentKey toString).loadImage "0.5.0" true
      (ingestedThree.image "0.5.0" 9 4) with
  | .error _ => none
  | .ok (_, t) =>
    match Store.refoldIfBehind ⟨flowHandle, t.file⟩ flowViews with
    | .error _ => none
    | .ok u => some (gapRows t, gapRows u)

theorem not_sameViews_of_gapRows {t : Store} (h : gapRows t = (false, true)) :
    ¬ SameViews taskReducer t.file (refolded taskReducer t.handle t.file) := by
  intro hsame
  obtain ⟨hrow, hfold⟩ := Prod.mk.inj h
  rw [hsame "items" (by decide), hfold] at hrow
  cases hrow

/-- **An ingest behind a sibling's append hides it from the image**: the loaded store and every
reopen lack an item the carried log holds. -/
theorem image_loses_gap :
    ReflTransGen (fun s s' => ∃ e, ImageStep taskReducer flowViews s e s')
        (freshStore 1 silentKey toString) ingestedThree ∧
      ∃ l t u, (freshStore 9 silentKey toString).loadImage "0.5.0" true
          (ingestedThree.image "0.5.0" 9 4) = .ok (l, t) ∧
        Reopened taskReducer flowViews t u ∧
        ¬ SameViews taskReducer t.file (refolded taskReducer t.handle t.file) ∧
        ¬ SameViews taskReducer u.file (refolded taskReducer u.handle u.file) := by
  refine ⟨.tail (.tail (.single ⟨_, .receive (titleOp "01A" "aaaa.1" "wash up" 1)⟩)
    ⟨_, .rawReceive rawHandle_raw (titleOp "01B" "aaaa.2" "dry up" 2)⟩)
    ⟨_, .receive (titleOp "01C" "aaaa.3" "tidy up" 3)⟩, ?_⟩
  have hrows : loadedGapRows = some ((false, true), (false, true)) := by decide
  unfold loadedGapRows at hrows
  split at hrows
  · cases hrows
  · next l t hload =>
    split at hrows
    · cases hrows
    · next u hopen =>
      obtain ⟨ht, hu⟩ := Prod.mk.inj (Option.some.inj hrows)
      exact ⟨l, t, u, hload, .tail (.refl t) rfl hopen, not_sameViews_of_gapRows ht,
        not_sameViews_of_gapRows hu⟩

end NexusFlow.Core
