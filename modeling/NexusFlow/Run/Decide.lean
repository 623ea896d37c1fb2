import NexusFlow.Run.Evolve

/-!
# `decide`

Model of `crates/run-engine/src/decide.rs` and its `route.rs`, `session.rs` and `timers.rs`: the
only place a transition is chosen. `Emit` is the list being written and the state it has reached.
Its parameters are what the source's fields `before` and `at` hold and the state with the input
folded in, and it carries the proof that its state is the fold of its list, so the decisions
`decide` returns and the state a replay reaches cannot disagree (`step_eq_state`).

`decide` takes the definition as an argument in the source, "the definition `state` was pinned
to"; the host passes `state.def`, and so does this model.
-/

namespace NexusFlow.Run

open NexusFlow.Lib

/-- A fold of decisions that all carry one instant. -/
def foldDecisions (st : RunState) (now : Timestamp) (ds : List Decision) : RunState :=
  ds.foldl (fun st d => applyDecision st d now) st

theorem foldDecisions_append (st : RunState) (now : Timestamp) (ds es : List Decision) :
    foldDecisions st now (ds ++ es) = foldDecisions (foldDecisions st now ds) now es :=
  List.foldl_append

/-- `struct Emit`: the list being written, and the state it has reached. -/
structure Emit (before start : RunState) (now : Timestamp) where
  state : RunState
  out : List Decision
  folded : foldDecisions start now out = state

namespace Emit

variable {before start : RunState} {now : Timestamp}

/-- `Emit::push`: the decision is folded as it is emitted. -/
def push (e : Emit before start now) (d : Decision) : Emit before start now where
  state := applyDecision e.state d now
  out := e.out ++ [d]
  folded := by rw [foldDecisions_append, e.folded]; rfl

/-! ## Timers -/

/-- `Emit::set_timer_at`. -/
def setTimerAt (e : Emit before start now) (timer : Text) (fireAt : Timestamp)
    (purpose : TimerPurpose) : Emit before start now :=
  e.push (.timerSet timer fireAt purpose)

/-- `Emit::set_timer`. -/
def setTimer (e : Emit before start now) (timer : Text) (span : Secs) (purpose : TimerPurpose) :
    Emit before start now :=
  e.setTimerAt timer (now.plus span) purpose

/-- `Emit::set_slot_timer`. -/
def setSlotTimer (e : Emit before start now) (slot : Slot) (span : Secs)
    (purpose : TimerPurpose) : Emit before start now :=
  e.setTimer (slotTimer purpose slot) span purpose

/-- `Emit::clear_timer`: cancels a timer if it is armed. -/
def clearTimer (e : Emit before start now) (timer : Text) : Emit before start now :=
  if e.state.timers.contains timer then e.push (.timerCleared timer) else e

/-- `Emit::clear_slot_timer`. -/
def clearSlotTimer (e : Emit before start now) (slot : Slot) (purpose : TimerPurpose) :
    Emit before start now :=
  e.clearTimer (slotTimer purpose slot)

/-- `Emit::clear_slot_timers`: cancels every timer of this slot. -/
def clearSlotTimers (e : Emit before start now) (slot : Slot) : Emit before start now :=
  (e.state.timers.keys.filter fun timer => ('/' :: slotSuffix slot).isSuffixOf timer).foldl
    clearTimer e

/-- `Emit::set_tree_window`. -/
def setTreeWindow (e : Emit before start now) : Emit before start now :=
  e.setTimer treeWindowTimer e.state.policy.treeWindow .treeWindow

/-- The arming of `root_deadline`, at the commission, after a period and on a resume. -/
def setRootDeadline (e : Emit before start now) : Emit before start now :=
  e.setTimer rootDeadlineTimer e.state.policy.rootDeadline .rootDeadline

/-! ## Routes (`route.rs`) -/

/-- The turn of one waiting slot in `arm_ready`. -/
def armSlot (e : Emit before start now) (slot : Slot) : Emit before start now :=
  if e.state.personaIsLive slot.member then e
  else e.setSlotTimer slot e.state.policy.startDeadline .startDeadline

/-- `Emit::arm_ready`: starts every waiting slot that may start. -/
def armReady (e : Emit before start now) : Emit before start now :=
  if e.state.treePrepared then
    ((e.state.slots.filter fun r => r.state = .pending).map SlotRecord.slot).foldl armSlot e
  else e

/-- `Emit::start_step`: the next visit of a step. -/
def startStep (e : Emit before start now) (step : Text) : Emit before start now :=
  match e.state.flow.step step with
  | none => e
  | some d =>
    let visit := (e.state.visits.get step).getD 0 + 1
    (e.push (.stepStarted d.id visit 1 d.members)).armReady

/-- `Emit::restart`: the next attempt of a seat. -/
def restart (e : Emit before start now) (slot : Slot) : Emit before start now :=
  (e.push (.stepStarted slot.step slot.visit (slot.attempt + 1) [slot.member])).armReady

/-- `Emit::finish_run`: what keeps running is what stops a session; every other timer is over. -/
def finishRun (e : Emit before start now) (outcome : Outcome) (reason : ReasonCode) :
    Emit before start now :=
  let e := e.push (.finishing outcome (some reason))
  ((e.state.timers.entries.filter fun entry =>
    entry.2.purpose ≠ .stopGrace ∧ entry.2.purpose ≠ .windDown).map Prod.fst).foldl clearTimer e

/-- `Emit::rework`. -/
def rework (e : Emit before start now) («from» : StepId) («to» : Text) (pass : Nat) :
    Emit before start now :=
  (e.push (.rework «from» «to» «from» pass)).startStep «to»

/-- `ceiling_key`: the id of a ceiling's question. -/
def ceilingKey (run : RunId) (step : StepId) (visit pass : Nat) : Key :=
  joinSlash ["ceiling".toList, run, step.text, 'v' :: decimal visit, 'p' :: decimal pass]

/-- `Emit::ceiling`: the pass a rework would start is over the ceiling: the run asks. -/
def ceiling (e : Emit before start now) (step : StepId) (visit pass : Nat) :
    Emit before start now :=
  match e.state.verdictOf step.text with
  | none => e
  | some verdict =>
    e.push (.ceiling (ceilingKey e.state.run step visit pass) step pass verdict.message)

/-- `Emit::one_more_pass`: `continue` at the ceiling. -/
def oneMorePass (e : Emit before start now) (step : StepId) (pass : Nat) :
    Emit before start now :=
  match (e.state.flow.step step.text).bind StepDef.onNeedsRework with
  | none => e
  | some target => e.rework step target pass

/-- `Emit::accept` at the ceiling. -/
def accept (e : Emit before start now) (step : StepId) : Emit before start now :=
  match (e.state.flow.step step.text).bind StepDef.next with
  | some next => e.startStep next
  | none => e.finishRun .accepted .acceptedByRequester

/-- `Emit::finish_step`. -/
def finishStep (e : Emit before start now) (step : StepId) (visit : Nat) (needsRework : Bool) :
    Emit before start now :=
  let e := e.push (.stepFinished step visit (if needsRework then .needsRework else .pass))
  match e.state.flow.step step.text with
  | none => e
  | some d =>
    match needsRework, d.onNeedsRework with
    | true, some target =>
      let pass := e.state.passOf step.text + 1
      if pass ≤ d.maxPasses then e.rework step target pass else e.ceiling step visit pass
    | _, _ =>
      match d.next with
      | some next => e.startStep next
      | none => e.finishRun .delivered .delivered

/-- `member_verdict`: a latest attempt counts when it replied without `escalate`. -/
def memberVerdict (r : SlotRecord) : Option Bool :=
  match r.state with
  | .replied _ false needsRework _ _ _ => some needsRework
  | _ => none

/-- The counted replies of a step's members, all of them or none. -/
def memberVerdicts (st : RunState) (d : StepDef) (step : StepId) (visit : Nat) :
    Option (List Bool) :=
  d.members.mapM fun member => (st.latest step visit member).bind memberVerdict

/-- `Emit::after_reply`: is the step of this reply done? -/
def afterReply (e : Emit before start now) (slot : Slot) : Emit before start now :=
  if e.state.currentStep ≠ some slot.step ∨
      e.state.visits.get slot.step.text ≠ some slot.visit then e
  else
    match e.state.flow.step slot.step.text with
    | none => e
    | some d =>
      match memberVerdicts e.state d slot.step slot.visit with
      | none => e
      | some replies =>
        if d.hasSynthesis then
          match e.state.latest slot.step slot.visit SYNTH with
          | none => (e.push (.stepStarted slot.step slot.visit 1 [SYNTH])).armReady
          | some r =>
            if r.state.isReplied then e.finishStep slot.step slot.visit (replies.any id) else e
        else e.finishStep slot.step slot.visit (replies.any id)

/-! ## Sessions (`session.rs`) -/

/-- `Emit::nudged`. -/
def nudged (e : Emit before start now) (key : SessionKey) : Emit before start now :=
  match e.state.recordAt (e.state.find key) with
  | none => e
  | some r => e.setSlotTimer r.slot e.state.policy.confirmWithin .confirm

/-- `Emit::stop_signalled`: a signal was sent, so its grace starts. -/
def stopSignalled (e : Emit before start now) (key : SessionKey) : Emit before start now :=
  match e.state.recordAt (e.state.find key) with
  | none => e
  | some r =>
    let sent := (r.state.ladder.map Ladder.signalsSent).getD 0
    if sent = 1 ∨ sent = 2 then
      e.setTimer (graceTimer sent r.slot) e.state.policy.stopGrace .stopGrace
    else e

/-- `Emit::group_lingering`. -/
def groupLingering (e : Emit before start now) (slot : Slot) (was : SlotState) :
    Emit before start now :=
  match was with
  | .stopping _ _ => e
  | .replied .. => e.clearSlotTimer slot .windDown
  | _ => (e.clearSlotTimers slot).push (.liveness slot .lost now)

/-- The kinds of heartbeat `rearm` arms `quiet` again for, with no call open. -/
def HeartbeatKind.rearmsQuiet : HeartbeatKind → Bool
  | .modelOutput | .callsClosed | .subprocessMoved => true
  | _ => false

/-- `rearm` with no call open. -/
def rearmClosed (e : Emit before start now) (slot : Slot) (wasQuiet : Bool)
    (beat : Option HeartbeatKind) : Emit before start now :=
  let e := (e.clearSlotTimer slot .subprocessIdle).clearSlotTimer slot .callBound
  if wasQuiet || beat.any HeartbeatKind.rearmsQuiet then
    e.setSlotTimer slot e.state.policy.quietAfter .quiet
  else e

/-- `rearm` with a call open. -/
def rearmOpen (e : Emit before start now) (slot : Slot) (blind sampling wasQuiet : Bool)
    (beat : Option HeartbeatKind) : Emit before start now :=
  let e := e.clearSlotTimer slot .quiet
  let e := if blind then e.clearSlotTimer slot .subprocessIdle else e
  let e := if sampling then e.clearSlotTimer slot .callBound else e
  let openedOrBack := wasQuiet || beat == some .callsOpen
  let e := if !blind && (openedOrBack || beat == some .subprocessMoved) then
      e.setSlotTimer slot e.state.policy.subprocessIdle .subprocessIdle
    else e
  if !sampling && (openedOrBack || beat == some .blind) then
    e.setSlotTimer slot e.state.policy.callBound .callBound
  else e

/-- Whether a call of the slot is open. -/
def callOpen : SlotState → Bool
  | .running _ (some _) => true
  | _ => false

/-- `Emit::rearm`: the signs of life for what is now true of the slot. -/
def rearm (e : Emit before start now) (r : SlotRecord) (wasQuiet : Bool)
    (beat : Option HeartbeatKind) : Emit before start now :=
  let e := if wasQuiet then e.clearSlotTimer r.slot .confirm else e
  if callOpen r.state then e.rearmOpen r.slot r.blind r.sampling wasQuiet beat
  else e.rearmClosed r.slot wasQuiet beat

/-- `Emit::restart_or_park`: the next attempt while the budget lasts; after it the slot parks. -/
def restartOrPark (e : Emit before start now) (r : SlotRecord) (exhausted : ReasonCode) :
    Emit before start now :=
  if r.restarts + 1 < e.state.policy.maxAttempts then e.restart r.slot
  else
    let inFanOut := r.slot.member ≠ SYNTH ∧
      (e.state.flow.step r.slot.step.text).any StepDef.isFanOut = true
    e.push (.parked (some r.slot) (if inFanOut then .fanOutIncomplete else exhausted))

/-- `hold_until`: `resets_at` clamped to the policy's window, or the policy's own retry. -/
def holdUntil (policy : LivenessPolicy) (now : Timestamp) : Option Timestamp → Timestamp
  | none => now.plus policy.holdRetry
  | some resetsAt =>
    min (max resetsAt (now.plus policy.holdRetryMin)) (now.plus policy.holdRetryMax)

/-- `Emit::hold`: on hold, not failed; only a hold with no named reset counts. -/
def hold (e : Emit before start now) (r : SlotRecord) (reason : ReasonCode)
    (resetsAt : Option Timestamp) : Emit before start now :=
  if resetsAt.isNone ∧ e.state.policy.maxHolds ≤ r.holds then
    e.push (.parked (some r.slot) .holdLimit)
  else
    let «until» := holdUntil e.state.policy now resetsAt
    (e.push (.held r.slot reason «until» resetsAt)).setTimerAt (slotTimer .holdRetry r.slot)
      «until» .holdRetry

/-- What an end out of the blue leads to. -/
def endedUnordered (e : Emit before start now) (r : SlotRecord) : EndCause → Emit before start now
  | .turnComplete => e.restartOrPark r .endedWithoutReply
  | .exit _ | .unknown => e.restartOrPark r .startFailed
  | .lost => e.restartOrPark r .lost
  | .usageLimit resetsAt => e.hold r .usageLimit resetsAt
  | .providerUnavailable => e.hold r .providerUnavailable none
  | .permissionRefused _ _ => e.push (.parked (some r.slot) .permissionRefused)
  | .stoppedByHost => e.restartOrPark r .lost

/-- `Emit::ended`: what a confirmed end leads to is the state it ended in. -/
def ended (e : Emit before start now) (r : SlotRecord) (was : SlotState) (cause : EndCause) :
    Emit before start now :=
  let e := e.clearSlotTimers r.slot
  if e.state.isFinishing then e
  else
    match was with
    | .replied .. | .stopping _ .nothing => e.armReady
    | .stopping _ (.restart exhausted) => e.restartOrPark r exhausted
    | _ => e.endedUnordered r cause

/-- Whether the state is `Quiet` or `Nudged`. -/
def wasQuiet : SlotState → Bool
  | .quiet _ _ | .nudged _ _ => true
  | _ => false

/-- What a fact leads to: `was` is the slot's state before it, `r` its record now. -/
def factOn (e : Emit before start now) (was : SlotState) (r : SlotRecord) :
    SessionFact → Emit before start now
  | .started _ =>
    match was with
    | .starting _ =>
      let e := e.clearSlotTimer r.slot .startDeadline
      e.setSlotTimer r.slot e.state.policy.quietAfter .quiet
    | _ => e
  | .heartbeat (.unknown _) | .usage | .permissionRefused _ _ =>
    if wasQuiet was then e.rearm r true none else e
  | .heartbeat beat => e.rearm r (wasQuiet was) (some beat)
  | .groupLingering _ => e.groupLingering r.slot was
  | .ended cause => e.ended r was cause
  | .unknown => e

/-- `Emit::fact`. -/
def fact (e : Emit before start now) (key : SessionKey) (f : SessionFact) :
    Emit before start now :=
  match before.recordAt (e.state.find key), e.state.recordAt (e.state.find key) with
  | some was, some r => e.factOn was.state r f
  | _, _ => e

/-- The escalation a reply asks with, if it does. -/
def escalate (e : Emit before start now) (key : SessionKey) (r : SlotRecord) :
    Emit before start now :=
  match r.state with
  | .replied message true _ _ _ _ =>
    e.push (.escalated ("escalated/".toList ++ key) r.slot message)
  | _ => e

/-- `Emit::reply`. -/
def reply (e : Emit before start now) (key : SessionKey) : Emit before start now :=
  match e.state.recordAt (e.state.find key) with
  | none => e
  | some r =>
    let e := e.clearSlotTimers r.slot
    let e := e.setSlotTimer r.slot e.state.policy.stopGrace .windDown
    (e.escalate key r).afterReply r.slot

/-! ## Timers that fire (`timers.rs`) -/

/-- `Emit::root_period`. -/
def rootPeriod (e : Emit before start now) : Emit before start now :=
  if e.state.policy.maxAttempts ≤ e.state.rootPeriods then
    e.push (.parked none .rootFailed)
  else e.setRootDeadline

/-- `Emit::conclude`. -/
def conclude (e : Emit before start now) (slot : Slot) (reason : ReasonCode) :
    Emit before start now :=
  e.push (.liveness slot reason now)

/-- `Emit::quiet`. -/
def quiet (e : Emit before start now) (slot : Slot) : Emit before start now :=
  let e := e.conclude slot .quiet
  e.setSlotTimer slot e.state.policy.confirmWithin .confirm

/-- `Emit::call_bound`: it binds a blind host only. -/
def callBound (e : Emit before start now) (slot : Slot) : Emit before start now :=
  if (e.state.recordAt (e.state.findSlot slot)).any SlotRecord.blind then
    (e.clearSlotTimer slot .subprocessIdle).quiet slot
  else e

/-- `Emit::grace_over`: unforced, the second grace is the last rung. -/
def graceOver (e : Emit before start now) (timer : Text) (slot : Slot) : Emit before start now :=
  if graceNth timer ≠ some 2 then e
  else
    let forced := ((e.state.recordAt (e.state.findSlot slot)).bind fun r => r.state.ladder).any
      Ladder.forced
    if forced then e else e.push (.parked (some slot) .wouldNotStop)

/-- What an armed timer that fired on time leads to. -/
def fire (e : Emit before start now) (timer : Text) : TimerPurpose → Option Slot →
    Emit before start now
  | .rootDeadline, _ => e.rootPeriod
  | .treeWindow, _ => e.push (.parked none .treeRefused)
  | .startDeadline, some slot => e.conclude slot .startFailed
  | .quiet, some slot => e.quiet slot
  | .subprocessIdle, some slot => (e.clearSlotTimer slot .callBound).quiet slot
  | .callBound, some slot => e.callBound slot
  | .confirm, some slot => (e.clearSlotTimers slot).conclude slot .hung
  | .stopGrace, some slot => e.graceOver timer slot
  | .holdRetry, some slot => e.restart slot
  | .windDown, _ | _, none => e

/-- `Emit::timer_fired`. -/
def timerFired (e : Emit before start now) (timer : Text) (fireAt : Timestamp) :
    Emit before start now :=
  match before.timers.get timer with
  | none => e
  | some armed =>
    if isDeferred before timer fireAt now then
      e.setTimer timer e.state.policy.wakeJump armed.purpose
    else e.fire timer armed.purpose (timerSlot timer)

/-! ## Inputs (`decide.rs`) -/

/-- `Emit::finished`. -/
def finished (e : Emit before start now) : Emit before start now :=
  match e.state.phase with
  | .finishing outcome reason _ => e.push (.finished outcome reason)
  | _ => e

/-- `Emit::answer`. -/
def answer (e : Emit before start now) (question : Key) (disposition : Disposition) :
    Emit before start now :=
  match (before.questions.find? fun q => q.id == question).map Question.asked with
  | none => e
  | some (.escalation slot _) => e.restart slot
  | some (.ceiling step pass _) =>
    match disposition with
    | .continue => e.oneMorePass step pass
    | .accept => e.accept step
    | .unknown _ => e

/-- `Emit::resume`. -/
def resume (e : Emit before start now) (slot : Option Slot) : Emit before start now :=
  match before.recordAt (resumeTarget before slot) with
  | none => e
  | some r =>
    match r.condition with
    | some (.held _ _ _) => (e.clearSlotTimer r.slot .holdRetry).restart r.slot
    | some (.parked reason _ _) => if reason = .wouldNotStop then e else e.restart r.slot
    | none => e

/-- `Emit::resume_run`. -/
def resumeRun (e : Emit before start now) : Emit before start now :=
  match before.condition.map RunCondition.reason with
  | some .rootFailed => e.setRootDeadline
  | some .treeRefused => e.setTreeWindow
  | _ => e

/-- The reason a withdrawal records. -/
def withdrawnReason : WithdrawnBy → ReasonCode
  | .requester => .withdrawnByRequester
  | .owner => .withdrawnByOwner
  | .unknown raw => .unknown raw

/-- `Emit::withdrawn`. -/
def withdrawn (e : Emit before start now) («by» : WithdrawnBy) : Emit before start now :=
  if before.isFinishing then e.push .withdrawForced
  else e.finishRun .withdrawn (withdrawnReason «by»)

/-- The claim was taken: the first step starts, and the tree's window opens. -/
def claimTaken (e : Emit before start now) : Emit before start now :=
  let e := match e.state.flow.steps.head? with
    | none => e
    | some first => e.startStep first.id.text
  e.setTreeWindow

/-- A refused tree: one no retry can clear parks the run. -/
def treeRefused (e : Emit before start now) (reason : TreeRefusal) : Emit before start now :=
  if isPermanent reason && before.condition.isNone then
    (e.clearTimer treeWindowTimer).push (.parked none .treeRefused)
  else e

/-- `Emit::input`. -/
def input (e : Emit before start now) : EventBody → Emit before start now
  | .commissioned .. => (e.push .rootRequested).setRootDeadline
  | .rootOpened _ _ =>
    if e.state.phase = .created then (e.clearTimer rootDeadlineTimer).push .claimRequested else e
  | .claimTaken => e.claimTaken
  | .claimBusy holder => e.push (.runQueued (some holder))
  | .claimReleased => e.finished
  | .treePrepared _ _ => (e.clearTimer treeWindowTimer).armReady
  | .treeRefused reason => e.treeRefused reason
  | .treeParked _ | .delivered _ => e
  | .nudged key => e.nudged key
  | .stopSignalled key _ _ => e.stopSignalled key
  | .sessionFact key f => e.fact key f
  | .reply key _ _ _ => e.reply key
  | .answer question disposition _ => e.answer question disposition
  | .resume slot => e.resume slot
  | .resumeRun => e.resumeRun
  | .withdrawn _ «by» => e.withdrawn «by»
  | .timerFired timer fireAt => e.timerFired timer fireAt
  | .decision _ | .unknown => e

end Emit

/-- The `Emit` an input starts with. -/
def Emit.start (st : RunState) (input : Event) : Emit st (applyInput st input) input.now :=
  ⟨applyInput st input, [], rfl⟩

/-- The `Emit` an acted-on input ends with. -/
def emitted (st : RunState) (input : Event) : Emit st (applyInput st input) input.now :=
  (Emit.start st input).input input.body

/-- `decide`: the next decisions of a run for one input. -/
def decide (st : RunState) (input : Event) : List Decision :=
  match ignoredReason st input with
  | some reason => [.ignored input.seq reason]
  | none => (emitted st input).out

/-! ## Runs -/

/-- One input folded with exactly the decisions `decide` returns for it. -/
def step (st : RunState) (input : Event) : RunState :=
  foldDecisions (applyInput st input) input.now (decide st input)

/-- An ignored input changes nothing. -/
theorem step_of_ignored {st : RunState} {input : Event} (h : (ignoredReason st input).isSome) :
    step st input = st := by
  obtain ⟨reason, hr⟩ := Option.isSome_iff_exists.mp h
  have hd : decide st input = [.ignored input.seq reason] := by
    unfold decide
    rw [hr]
  have ha : applyInput st input = st := by
    unfold applyInput
    rw [if_pos h]
  unfold step
  rw [hd, ha]
  rfl

/-- **The decisions and their replay agree**: folding what `decide` returns reaches the state
`decide` had reached when it returned. -/
theorem step_eq_state {st : RunState} {input : Event} (h : ignoredReason st input = none) :
    step st input = (emitted st input).state := by
  unfold step decide
  rw [h]
  exact (emitted st input).folded

/-- What the host folds into a run: an input, or its own `parked { poison_input }` for an inbox row
that would not fold. -/
inductive Item
  | input (event : Event)
  | poison (now : Timestamp)
deriving DecidableEq

/-- The decisions an item is folded with. -/
def Item.decisions (st : RunState) : Item → List Decision
  | .input event => decide st event
  | .poison _ => [.parked none .poisonInput]

/-- The state after an item. -/
def Item.apply (st : RunState) : Item → RunState
  | .input event => step st event
  | .poison now => applyDecision st (.parked none .poisonInput) now

/-- One entry of a run's history: the state an item met. -/
structure Entry where
  before : RunState
  item : Item

/-- **A run of the engine**: any sequence of items from the initial state, each folded with exactly
the decisions it leads to. `log` is the history, oldest first. -/
inductive Reaches (run : RunId) (flow : FlowDef) : List Entry → RunState → Prop
  | initial : Reaches run flow [] (.initial run flow)
  | step {log : List Entry} {st : RunState} (h : Reaches run flow log st) (item : Item) :
      Reaches run flow (log ++ [⟨st, item⟩]) (item.apply st)

end NexusFlow.Run
