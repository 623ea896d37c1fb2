import NexusFlow.Run.Decide

/-!
# Who ends a run

`finished` is the answer of `decide` to `claim_released` and to nothing else: no other input, in no
state, is answered with it (`finished_of_decide`). Each function of `decide` in turn writes no
`finished` (`Emit.Open`).
-/

namespace NexusFlow.Run

open NexusFlow.Lib

/-- The decision that ends a run. -/
def Decision.isFinished : Decision → Bool
  | .finished _ _ => true
  | _ => false

namespace Emit

variable {before start : RunState} {now : Timestamp} {e e' e'' : Emit before start now}

/-! ## Lists that grow without an end -/

/-- `e'` has written no `finished` since `e`. -/
def Open (e e' : Emit before start now) : Prop :=
  ∃ ds, e'.out = e.out ++ ds ∧ ∀ d ∈ ds, d.isFinished = false

theorem Open.refl (e : Emit before start now) : Open e e :=
  ⟨[], (List.append_nil _).symm, fun _ hd => (List.not_mem_nil hd).elim⟩

theorem Open.trans (h : Open e e') (h' : Open e' e'') : Open e e'' := by
  obtain ⟨ds, heq, hds⟩ := h
  obtain ⟨ds', heq', hds'⟩ := h'
  refine ⟨ds ++ ds', ?_, fun d hd => ?_⟩
  · rw [heq', heq, List.append_assoc]
  · exact (List.mem_append.mp hd).elim (hds d) (hds' d)

theorem Open.push (h : Open e e') {d : Decision} (hd : d.isFinished = false) :
    Open e (e'.push d) := by
  refine h.trans ⟨[d], rfl, fun d' hd' => ?_⟩
  rw [List.mem_singleton.mp hd']
  exact hd

theorem Open.foldl {α : Type} {f : Emit before start now → α → Emit before start now}
    (hf : ∀ e x, Open e (f e x)) (xs : List α) :
    ∀ {e' : Emit before start now}, Open e e' → Open e (xs.foldl f e') := by
  induction xs with
  | nil => exact id
  | cons x xs ih => exact fun h => ih (h.trans (hf _ x))

/-! ## Timers -/

theorem Open.setTimerAt (h : Open e e') (timer : Text) (fireAt : Timestamp)
    (purpose : TimerPurpose) : Open e (e'.setTimerAt timer fireAt purpose) := h.push rfl

theorem Open.setTimer (h : Open e e') (timer : Text) (span : Secs) (purpose : TimerPurpose) :
    Open e (e'.setTimer timer span purpose) := h.push rfl

theorem Open.setSlotTimer (h : Open e e') (slot : Slot) (span : Secs) (purpose : TimerPurpose) :
    Open e (e'.setSlotTimer slot span purpose) := h.push rfl

theorem Open.clearTimer (h : Open e e') (timer : Text) : Open e (e'.clearTimer timer) := by
  unfold Emit.clearTimer
  split_ifs
  · exact h.push rfl
  · exact h

theorem Open.clearSlotTimer (h : Open e e') (slot : Slot) (purpose : TimerPurpose) :
    Open e (e'.clearSlotTimer slot purpose) := h.clearTimer _

theorem Open.clearTimers (h : Open e e') (timers : List Text) :
    Open e (timers.foldl Emit.clearTimer e') :=
  Open.foldl (fun e timer => (Open.refl e).clearTimer timer) timers h

theorem Open.clearSlotTimers (h : Open e e') (slot : Slot) : Open e (e'.clearSlotTimers slot) :=
  h.clearTimers _

/-! ## Routes -/

theorem Open.armSlot (h : Open e e') (slot : Slot) : Open e (e'.armSlot slot) := by
  unfold Emit.armSlot
  split_ifs
  · exact h
  · exact h.setSlotTimer _ _ _

theorem Open.armReady (h : Open e e') : Open e e'.armReady := by
  unfold Emit.armReady
  split_ifs
  · exact Open.foldl (fun e slot => (Open.refl e).armSlot slot) _ h
  · exact h

theorem Open.startStep (h : Open e e') (step : Text) : Open e (e'.startStep step) := by
  unfold Emit.startStep
  split
  · exact h
  · exact (h.push rfl).armReady

theorem Open.restart (h : Open e e') (slot : Slot) : Open e (e'.restart slot) :=
  (h.push rfl).armReady

theorem Open.finishRun (h : Open e e') (outcome : Outcome) (reason : ReasonCode) :
    Open e (e'.finishRun outcome reason) :=
  (h.push rfl).clearTimers _

theorem Open.rework (h : Open e e') («from» : StepId) («to» : Text) (pass : Nat) :
    Open e (e'.rework «from» «to» pass) := (h.push rfl).startStep _

theorem Open.oneMorePass (h : Open e e') (step : StepId) (pass : Nat) :
    Open e (e'.oneMorePass step pass) := by
  unfold Emit.oneMorePass
  split
  · exact h
  · exact h.rework _ _ _

theorem Open.accept (h : Open e e') (step : StepId) : Open e (e'.accept step) := by
  unfold Emit.accept
  split
  · exact h.startStep _
  · exact h.finishRun _ _

/-! ## Sessions -/

theorem Open.nudged (h : Open e e') (key : SessionKey) : Open e (e'.nudged key) := by
  unfold Emit.nudged
  split
  · exact h
  · exact h.setSlotTimer _ _ _

theorem Open.stopSignalled (h : Open e e') (key : SessionKey) : Open e (e'.stopSignalled key) := by
  unfold Emit.stopSignalled
  split
  · exact h
  · simp only
    split_ifs
    · exact h.setTimer _ _ _
    · exact h

theorem Open.groupLingering (h : Open e e') (slot : Slot) (was : SlotState) :
    Open e (e'.groupLingering slot was) := by
  unfold Emit.groupLingering
  split
  · exact h
  · exact h.clearSlotTimer _ _
  · exact (h.clearSlotTimers _).push rfl

theorem Open.rearmClosed (h : Open e e') (slot : Slot) (wasQuiet : Bool)
    (beat : Option HeartbeatKind) : Open e (e'.rearmClosed slot wasQuiet beat) := by
  have hclear := (h.clearSlotTimer slot .subprocessIdle).clearSlotTimer slot .callBound
  unfold Emit.rearmClosed
  split_ifs
  · exact hclear.setSlotTimer _ _ _
  · exact hclear

/-- A step that is taken or not. -/
theorem Open.ite (h : Open e e') (c : Bool) {f : Emit before start now → Emit before start now}
    (hf : ∀ e, Open e (f e)) : Open e (if c then f e' else e') := by
  split_ifs
  · exact h.trans (hf e')
  · exact h

theorem Open.rearmOpen (h : Open e e') (slot : Slot) (blind sampling wasQuiet : Bool)
    (beat : Option HeartbeatKind) : Open e (e'.rearmOpen slot blind sampling wasQuiet beat) := by
  unfold Emit.rearmOpen
  have hclear : ∀ purpose, ∀ e : Emit before start now, Open e (e.clearSlotTimer slot purpose) :=
    fun purpose e => (Open.refl e).clearSlotTimer slot purpose
  have hset : ∀ purpose (span : LivenessPolicy → Secs), ∀ e : Emit before start now,
      Open e (e.setSlotTimer slot (span e.state.policy) purpose) :=
    fun purpose span e => (Open.refl e).setSlotTimer slot _ purpose
  exact ((((h.clearSlotTimer slot .quiet).ite blind (hclear .subprocessIdle)).ite sampling
    (hclear .callBound)).ite _ (hset .subprocessIdle LivenessPolicy.subprocessIdle)).ite _
    (hset .callBound LivenessPolicy.callBound)

theorem Open.rearm (h : Open e e') (r : SlotRecord) (wasQuiet : Bool)
    (beat : Option HeartbeatKind) : Open e (e'.rearm r wasQuiet beat) := by
  have hclear := h.ite wasQuiet fun e => (Open.refl e).clearSlotTimer r.slot .confirm
  simp only [Emit.rearm]
  split
  · exact hclear.rearmOpen _ _ _ _ _
  · exact hclear.rearmClosed _ _ _

theorem Open.restartOrPark (h : Open e e') (r : SlotRecord) (exhausted : ReasonCode) :
    Open e (e'.restartOrPark r exhausted) := by
  unfold Emit.restartOrPark
  split_ifs
  · exact h.restart _
  · exact h.push rfl

theorem Open.hold (h : Open e e') (r : SlotRecord) (reason : ReasonCode)
    (resetsAt : Option Timestamp) : Open e (e'.hold r reason resetsAt) := by
  unfold Emit.hold
  split_ifs
  · exact h.push rfl
  · exact (h.push rfl).setTimerAt _ _ _

theorem Open.endedUnordered (h : Open e e') (r : SlotRecord) (cause : EndCause) :
    Open e (e'.endedUnordered r cause) := by
  cases cause with
  | usageLimit resetsAt => exact h.hold _ _ _
  | providerUnavailable => exact h.hold _ _ _
  | permissionRefused _ _ => exact h.push rfl
  | _ => exact h.restartOrPark _ _

theorem Open.ended (h : Open e e') (r : SlotRecord) (was : SlotState) (cause : EndCause) :
    Open e (e'.ended r was cause) := by
  have hclear := h.clearSlotTimers r.slot
  simp only [Emit.ended]
  split_ifs
  · exact hclear
  · split
    · exact hclear.armReady
    · exact hclear.armReady
    · exact hclear.restartOrPark _ _
    · exact hclear.endedUnordered _ _

theorem Open.factOn (h : Open e e') (was : SlotState) (r : SlotRecord) (fact : SessionFact) :
    Open e (e'.factOn was r fact) := by
  unfold Emit.factOn
  split
  · split
    · exact (h.clearSlotTimer _ _).setSlotTimer _ _ _
    · exact h
  · split_ifs
    · exact h.rearm _ _ _
    · exact h
  · split_ifs
    · exact h.rearm _ _ _
    · exact h
  · split_ifs
    · exact h.rearm _ _ _
    · exact h
  · exact h.rearm _ _ _
  · exact h.groupLingering _ _
  · exact h.ended _ _ _
  · exact h

theorem Open.fact (h : Open e e') (key : SessionKey) (f : SessionFact) :
    Open e (e'.fact key f) := by
  unfold Emit.fact
  split
  · exact h.factOn _ _ _
  · exact h

/-! ## Timers that fire -/

theorem Open.quiet (h : Open e e') (slot : Slot) : Open e (e'.quiet slot) :=
  Open.setSlotTimer (h.push rfl) _ _ _

theorem Open.callBound (h : Open e e') (slot : Slot) : Open e (e'.callBound slot) := by
  unfold Emit.callBound
  split_ifs
  · exact (h.clearSlotTimer _ _).quiet _
  · exact h

theorem Open.graceOver (h : Open e e') (timer : Text) (slot : Slot) :
    Open e (e'.graceOver timer slot) := by
  simp only [Emit.graceOver]
  split_ifs
  · exact h
  · exact h
  · exact h.push rfl

theorem Open.rootPeriod (h : Open e e') : Open e e'.rootPeriod := by
  unfold Emit.rootPeriod
  split_ifs
  · exact h.push rfl
  · exact h.setTimer _ _ _

theorem Open.fire (h : Open e e') (timer : Text) (purpose : TimerPurpose) (slot : Option Slot) :
    Open e (e'.fire timer purpose slot) := by
  unfold Emit.fire
  split
  · exact h.rootPeriod
  · exact h.push rfl
  · exact h.push rfl
  · exact h.quiet _
  · exact (h.clearSlotTimer _ _).quiet _
  · exact h.callBound _
  · exact Open.push (h.clearSlotTimers _) rfl
  · exact h.graceOver _ _
  · exact h.restart _
  · exact h
  · exact h

theorem Open.timerFired (h : Open e e') (timer : Text) (fireAt : Timestamp) :
    Open e (e'.timerFired timer fireAt) := by
  unfold Emit.timerFired
  split
  · exact h
  · split_ifs
    · exact h.setTimer _ _ _
    · exact h.fire _ _ _

/-! ## Replies -/

theorem Open.ceiling (h : Open e e') (step : StepId) (visit pass : Nat) :
    Open e (e'.ceiling step visit pass) := by
  unfold Emit.ceiling
  split
  · exact h
  · exact h.push rfl

theorem Open.finishStep (h : Open e e') (step : StepId) (visit : Nat) (needsRework : Bool) :
    Open e (e'.finishStep step visit needsRework) := by
  have hpush : Open e (e'.push (.stepFinished step visit
      (if needsRework then .needsRework else .pass))) := h.push rfl
  simp only [Emit.finishStep]
  generalize e'.push (.stepFinished step visit
    (if needsRework then .needsRework else .pass)) = pushed at hpush ⊢
  split
  · exact hpush
  · split
    · split_ifs
      · exact hpush.rework _ _ _
      · exact hpush.ceiling _ _ _
    · split
      · exact hpush.startStep _
      · exact hpush.finishRun _ _

theorem Open.afterReply (h : Open e e') (slot : Slot) : Open e (e'.afterReply slot) := by
  unfold Emit.afterReply
  split_ifs
  · exact h
  · split
    · exact h
    · split
      · exact h
      · split_ifs
        · split
          · exact (h.push rfl).armReady
          · split_ifs
            · exact h.finishStep _ _ _
            · exact h
        · exact h.finishStep _ _ _

theorem Open.escalate (h : Open e e') (key : SessionKey) (r : SlotRecord) :
    Open e (e'.escalate key r) := by
  unfold Emit.escalate
  split
  · exact h.push rfl
  · exact h

theorem Open.reply (h : Open e e') (key : SessionKey) : Open e (e'.reply key) := by
  unfold Emit.reply
  split
  · exact h
  · exact ((Open.setSlotTimer (h.clearSlotTimers _) _ _ _).escalate _ _).afterReply _

/-! ## Inputs -/

theorem Open.answer (h : Open e e') (question : Key) (disposition : Disposition) :
    Open e (e'.answer question disposition) := by
  unfold Emit.answer
  split
  · exact h
  · exact h.restart _
  · split
    · exact h.oneMorePass _ _
    · exact h.accept _
    · exact h

theorem Open.resume (h : Open e e') (slot : Option Slot) : Open e (e'.resume slot) := by
  unfold Emit.resume
  split
  · exact h
  · split
    · exact (h.clearSlotTimer _ _).restart _
    · split_ifs
      · exact h
      · exact h.restart _
    · exact h

theorem Open.resumeRun (h : Open e e') : Open e e'.resumeRun := by
  unfold Emit.resumeRun
  split
  · exact h.setTimer _ _ _
  · exact h.setTimer _ _ _
  · exact h

theorem Open.withdrawn (h : Open e e') («by» : WithdrawnBy) : Open e (e'.withdrawn «by») := by
  unfold Emit.withdrawn
  split_ifs
  · exact h.push rfl
  · exact h.finishRun _ _

theorem Open.claimTaken (h : Open e e') : Open e e'.claimTaken := by
  unfold Emit.claimTaken
  refine Open.setTimer ?_ _ _ _
  split
  · exact h
  · exact h.startStep _

theorem Open.treeRefused (h : Open e e') (reason : TreeRefusal) :
    Open e (e'.treeRefused reason) := by
  unfold Emit.treeRefused
  split_ifs
  · exact (h.clearTimer _).push rfl
  · exact h

theorem Open.input (h : Open e e') {body : EventBody} (hbody : body ≠ .claimReleased) : Open e (e'.input body) := by
  cases body with
  | commissioned _ _ _ _ _ => exact (h.push rfl).setTimer _ _ _
  | rootOpened _ _ =>
    simp only [Emit.input]
    split_ifs
    · exact (h.clearTimer _).push rfl
    · exact h
  | claimTaken => exact h.claimTaken
  | claimBusy _ => exact h.push rfl
  | claimReleased => exact absurd rfl hbody
  | treePrepared _ _ => exact (h.clearTimer _).armReady
  | treeRefused _ => exact h.treeRefused _
  | treeParked _ => exact h
  | delivered _ => exact h
  | nudged _ => exact h.nudged _
  | stopSignalled _ _ _ => exact h.stopSignalled _
  | sessionFact _ _ => exact h.fact _ _
  | reply _ _ _ _ => exact h.reply _
  | answer _ _ _ => exact h.answer _ _
  | resume _ => exact h.resume _
  | resumeRun => exact h.resumeRun
  | withdrawn _ _ => exact h.withdrawn _
  | timerFired _ _ => exact h.timerFired _ _
  | decision _ => exact h
  | unknown => exact h

end Emit

/-- **Who ends a run.** -/
theorem finished_of_decide {st : RunState} {input : Event} {o : Outcome} {reason : Option ReasonCode}
    (h : .finished o reason ∈ decide st input) : input.body = .claimReleased := by
  by_contra hbody
  unfold decide at h
  split at h
  · cases List.mem_singleton.mp h
  · obtain ⟨ds, hout, hds⟩ := (Emit.Open.refl (Emit.start st input)).input hbody
    rw [show (emitted st input).out = _ from hout] at h
    cases hds _ h

end NexusFlow.Run
