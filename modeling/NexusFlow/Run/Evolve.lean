import NexusFlow.Run.Input

/-!
# What a decision does to state

Model of `crates/run-engine/src/evolve.rs`: `apply_decision` and, for the records a `step_started`
opens, the turn each is handed and what an attempt after the first carries over and spends.
-/

namespace NexusFlow.Run

/-! ## Turns -/

/-- `part`. -/
def part (kind : TurnKind) (message : Option MessageId := none) : TurnPart := ⟨kind, message⟩

/-- `reply_part`. -/
def replyPart (verdict : VerdictRef) : TurnPart :=
  part (.reply verdict.step verdict.member) (some verdict.message)

/-- `declared_inputs`: `input`, or the preceding step where none is declared. -/
def declaredInputs (st : RunState) (step : StepId) : List Text :=
  match (st.flow.step step.text).bind StepDef.input with
  | some declared => declared
  | none =>
    match st.flow.steps.findIdx? fun d => d.id == step with
    | some (position + 1) => (st.flow.steps[position]?.map fun d => d.id.text).toList
    | _ => []

/-- The part of a consolidator's turn that names a member's reply. -/
def memberReply (st : RunState) (step : StepId) (visit : Nat) (member : Handle) :
    Option TurnPart :=
  (st.latest step visit member).bind fun r =>
    match r.state with
    | .replied message _ _ _ _ _ => some (part (.reply step.text r.slot.member) (some message))
    | _ => none

/-- `synthesis_turn`: the members' replies of this visit, the prompt, the obligation. -/
def synthesisTurn (st : RunState) (step : StepId) (visit : Nat) : List TurnPart :=
  let members := ((st.flow.step step.text).map StepDef.members).getD []
  members.filterMap (memberReply st step visit) ++ [part .task, part .obligation]

/-- `first_turn`: the root, what `input` names, the task, the obligation; a back edge carries the
verdict that sent the work back instead of what `input` declares. -/
def firstTurn (st : RunState) (step : StepId) (member : Handle) (visit : Nat)
    (cause : Option StartCause) : List TurnPart :=
  if member = SYNTH then synthesisTurn st step visit
  else
    let handed := match cause with
      | some (.rework verdict) => [replyPart verdict]
      | some (.accept answer verdict) => [part .answer (some answer), replyPart verdict]
      | some (.answer _) | none =>
        ((declaredInputs st step).filterMap st.verdictOf).map replyPart
    let task := if (st.flow.step step.text).any fun d => d.task.isSome then [part .task] else []
    part .root st.rootMessage :: handed ++ task ++ [part .obligation]

/-! ## Records -/

/-- The record `new_record` starts from. -/
def freshRecord (slot : Slot) (resume : Bool) (now : Timestamp) : SlotRecord where
  slot
  state := .pending
  createdAt := now
  resume
  turn := []
  baseTurn := []
  restarts := 0
  holds := 0
  reminded := false
  condition := none
  fresh := false
  blind := false
  sampling := false
  backendSession := none
  lastFact := none
  pids := []
  refused := none

/-- The attempt after `prior` before a person's resume starts the budgets over. -/
def spendAttempt (r prior : SlotRecord) (cause : Option StartCause) (declaredResume : Bool) :
    SlotRecord :=
  let carried : SlotRecord :=
    { r with
      baseTurn := prior.baseTurn
      restarts := prior.restarts
      holds := prior.holds
      reminded := prior.reminded }
  let plainRestart : SlotRecord :=
    { carried with
      turn := prior.baseTurn
      resume := declaredResume
      restarts := prior.restarts + 1 }
  match cause, prior.state with
  | some (.answer message), _ =>
    { carried with turn := [part .answer (some message), part .obligation], resume := true }
  | _, .ended cause =>
    if isHold cause then { carried with turn := prior.turn, resume := true }
    else if cause = .turnComplete ∧ prior.reminded = false then
      { carried with
        turn := [part .reminder, part .obligation]
        resume := true
        reminded := true
        restarts := prior.restarts + 1 }
    else plainRestart
  | _, _ => plainRestart

/-- `next_attempt`: what an attempt after the first carries over and what it spends. -/
def nextAttempt (r prior : SlotRecord) (cause : Option StartCause) (declaredResume : Bool) :
    SlotRecord :=
  let spent := spendAttempt r prior cause declaredResume
  if prior.fresh then { spent with restarts := 0, holds := 0, reminded := false } else spent

/-- `new_record`. -/
def newRecord (st : RunState) (step : StepId) (visit attempt : Nat) (member : Handle)
    (cause : Option StartCause) (now : Timestamp) : SlotRecord :=
  let declaredResume := member != SYNTH && (st.flow.step step.text).any StepDef.resume
  let r := freshRecord ⟨step, visit, member, attempt⟩ declaredResume now
  match st.latest step visit member with
  | none =>
    let turn := firstTurn st step member visit cause
    { r with baseTurn := turn, turn }
  | some prior => nextAttempt r prior cause declaredResume

/-- One member's record, pushed. -/
def startMember (step : StepId) (visit attempt : Nat) (cause : Option StartCause)
    (now : Timestamp) (st : RunState) (member : Handle) : RunState :=
  { st with slots := st.slots ++ [newRecord st step visit attempt member cause now] }

/-- `apply_step_started`. -/
def applyStepStarted (st : RunState) (step : StepId) (visit attempt : Nat) (members : List Handle)
    (now : Timestamp) : RunState :=
  let cause := st.pendingStart
  let opened : RunState :=
    { st with
      phase := match st.phase with
        | .queued _ | .created => .running .unprepared
        | p => p
      visits := st.visits.insert step.text visit
      currentStep := some step
      pendingStart := none }
  members.foldl (startMember step visit attempt cause now) opened

/-! ## Slots -/

/-- What arming the start deadline does to the record it names. -/
def SlotRecord.armStart (r : SlotRecord) (deadline : Timestamp) : SlotRecord :=
  match r.state with
  | .pending | .starting _ => { r with state := .starting deadline }
  | _ => r

/-- `arm_start`: arming the start deadline takes a waiting slot to `Starting`. -/
def armStart (st : RunState) (timer : Text) (deadline : Timestamp) : RunState :=
  match timerSlot timer with
  | none => st
  | some slot => st.modifyRecord slot fun r => r.armStart deadline

/-- The open call `apply_liveness` keeps. -/
def SlotState.openCall : SlotState → Option Timestamp
  | .running _ openCall | .nudged _ openCall => openCall
  | _ => none

/-- `apply_liveness`. -/
def applyLiveness (st : RunState) (slot : Slot) (reason : ReasonCode) (since : Timestamp) :
    RunState :=
  st.modifyRecord slot fun r =>
    { r with state :=
        if reason = .quiet then .quiet since r.state.openCall
        else .stopping (.new since st.withdrawn) (.restart reason) }

/-- What `apply_finishing` does to one record. -/
def SlotRecord.finish (r : SlotRecord) (forced : Bool) (now : Timestamp) : SlotRecord :=
  { r with
    condition := none
    state := match r.state with
      | .pending => .ended .stoppedByHost
      | .starting _ | .running _ _ | .quiet _ _ | .nudged _ _ =>
        .stopping (.new now forced) .nothing
      | .stopping ladder _ => .stopping ladder .nothing
      | s => s }

/-- `apply_finishing`. -/
def applyFinishing (st : RunState) (outcome : Outcome) (reason : Option ReasonCode)
    (now : Timestamp) : RunState :=
  { st with
    phase := .finishing outcome reason .unparked
    condition := none
    treeCancelOwed := false
    slots := st.slots.map fun r => r.finish st.withdrawn now }

/-- `next_order`. -/
def takeOrder (st : RunState) : RunState := { st with nextOrder := st.nextOrder + 1 }

/-! ## `apply_decision` -/

/-- `apply_decision`: what a decision does to state, at the instant of the input that caused it. -/
def applyDecision (st : RunState) (decision : Decision) (now : Timestamp) : RunState :=
  match decision with
  | .rootRequested | .withdrawForced | .ignored _ _ => st
  | .claimRequested => { st with phase := .queued none }
  | .runQueued behind =>
    { st with phase := .queued behind, claimChanges := st.claimChanges + 1 }
  | .stepStarted step visit attempt members =>
    applyStepStarted st step visit attempt members now
  | .stepFinished step visit outcome =>
    { st with finishedSteps := st.finishedSteps ++ [⟨step, visit, outcome, now⟩] }
  | .rework «from» _ declaring pass =>
    let st : RunState := { st with passes := st.passes.insert declaring.text pass }
    { st with pendingStart := (st.verdictOf from.text).map StartCause.rework }
  | .escalated question slot message =>
    { st with questions := st.questions ++ [⟨question, .escalation slot message, now, false⟩] }
  | .ceiling question step pass lastVerdict =>
    { st with
      questions := st.questions ++ [⟨question, .ceiling step pass lastVerdict, now, false⟩] }
  | .timerSet timer fireAt purpose =>
    let st : RunState := { st with timers := st.timers.insert timer ⟨fireAt, purpose⟩ }
    if purpose = .startDeadline then armStart st timer fireAt else st
  | .timerCleared timer => { st with timers := st.timers.erase timer }
  | .liveness slot reason since => applyLiveness st slot reason since
  | .held slot reason «until» resetsAt =>
    let st := takeOrder st
    st.modifyRecord slot fun r =>
      { r with
        holds := if resetsAt.isNone then r.holds + 1 else r.holds
        condition := some (.held reason «until» st.nextOrder) }
  | .parked (some slot) reason =>
    let st := takeOrder st
    st.modifyRecord slot fun r =>
      { r with condition := some (.parked reason st.nextOrder now) }
  | .parked none reason =>
    let st := takeOrder st
    { st with condition := some ⟨reason, st.nextOrder, now⟩ }
  | .finishing outcome reason => applyFinishing st outcome reason now
  | .finished outcome reason =>
    { st with phase := .finished outcome reason, timers := .empty }

end NexusFlow.Run
