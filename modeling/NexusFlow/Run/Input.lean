import NexusFlow.Run.Guard

/-!
# What an input does to state

Model of `crates/run-engine/src/input.rs`. An input records a fact and moves the slot it names;
what follows from it is `decide`'s.
-/

namespace NexusFlow.Run

namespace SlotRecord

/-- `revive`: any fact of the session returns a quiet or nudged slot to `Running`. -/
def revive (r : SlotRecord) : SlotRecord :=
  match r.state with
  | .quiet _ openCall | .nudged _ openCall =>
    { r with state := .running (r.backendSession.getD "") openCall }
  | _ => r

/-- `set_open_call`: a repeat keeps the first instant of a busy period. -/
def setOpenCall (r : SlotRecord) (value : Option Timestamp) : SlotRecord :=
  match r.state with
  | .running session openCall =>
    { r with state := .running session (if value.isSome then openCall.or value else none) }
  | _ => r

/-- What a heartbeat of this kind sets, after the slot is revived. -/
def beat (r : SlotRecord) (now : Timestamp) : HeartbeatKind → SlotRecord
  | .callsOpen => r.setOpenCall (some now)
  | .callsClosed => r.setOpenCall none
  | .subprocessMoved => { r with sampling := true }
  | .blind => { r with blind := true }
  | .modelOutput | .unknown _ => r

/-- `start_reply_stop`: a replied slot that is overdue, or whose group lingers, owes the ladder. -/
def startReplyStop (r : SlotRecord) (now : Timestamp) (forced : Bool) : SlotRecord :=
  match r.state with
  | .replied message escalate needsRework process _ ladder =>
    let ladder := ladder.getD (.new now forced)
    { r with state := .replied message escalate needsRework process true (some ladder) }
  | _ => r

/-- The text of a refusal: `<rule>: <program>`. -/
def refusal (rule program : String) : Option String := some (rule ++ ": " ++ program)

/-- `apply_ended`. -/
def end' (r : SlotRecord) (cause : EndCause) : SlotRecord :=
  { r with
    refused := match cause with
      | .permissionRefused rule program => refusal rule program
      | _ => r.refused
    condition := none
    state := match r.state with
      | .replied message escalate needsRework _ overdue _ =>
        .replied message escalate needsRework .ended overdue none
      | _ => .ended cause }

/-- `apply_fact` on the record it names. -/
def applyFact (r : SlotRecord) (superseded forced : Bool) (now : Timestamp) :
    SessionFact → SlotRecord
  | .started backendSessionId =>
    { r with
      lastFact := some now
      backendSession := some backendSessionId
      state := match r.state with
        | .starting _ => .running backendSessionId none
        | .ended cause => if superseded then .stopping (.new now forced) .nothing else .ended cause
        | s => s }
  | .heartbeat kind => ({ r with lastFact := some now } : SlotRecord).revive.beat now kind
  | .usage => ({ r with lastFact := some now } : SlotRecord).revive
  | .permissionRefused rule program =>
    ({ r with lastFact := some now, refused := refusal rule program } : SlotRecord).revive
  | .groupLingering pids =>
    ({ r with lastFact := some now, pids } : SlotRecord).startReplyStop now forced
  | .ended cause => ({ r with lastFact := some now } : SlotRecord).end' cause
  | .unknown => { r with lastFact := some now }

/-- What a `resume` does to the record whose condition it acts on. -/
def applyResume (r : SlotRecord) : SlotRecord :=
  if r.condition.any SlotCondition.isWouldNotStop then
    -- It signals again and never restarts: a new round of the ladder, unforced.
    { r with
      condition := none
      state := r.state.mapLadder fun l => { l with signalsSent := 0, fired := .none } }
  else { r with condition := none, fresh := true }

/-- What a withdrawal does to every record. -/
def applyWithdrawn (r : SlotRecord) : SlotRecord :=
  { r with
    state := r.state.mapLadder fun l => { l with forced := true }
    condition := if r.condition.any SlotCondition.isWouldNotStop then none else r.condition }

/-- One signal sent: `signals_sent` is a `u8` and saturates. -/
def applySignal (r : SlotRecord) : SlotRecord :=
  { r with state := r.state.mapLadder fun l =>
      { l with signalsSent := min (l.signalsSent + 1) 255, total := l.total + 1 } }

/-- `apply_reply` on the record it names: the synthesis reply carries no routing bit, and a step
with no back edge has nothing the bit could pull. -/
def applyReply (r : SlotRecord) (hasEdge : Bool) (message : MessageId)
    (escalate needsRework : Bool) : SlotRecord :=
  let isSynth := r.slot.member == SYNTH
  let escalate := escalate && !isSynth
  let needsRework := needsRework && !isSynth && hasEdge
  { r with state := .replied message escalate needsRework .live false none }

end SlotRecord

/-- `apply_answer`. -/
def applyAnswer (st : RunState) (question : Key) (disposition : Disposition)
    (message : MessageId) : RunState :=
  match st.questions.findIdx? fun q => q.id == question with
  | none => st
  | some i =>
    let asked := st.questions[i]?.map Question.asked
    let st : RunState :=
      { st with questions := st.questions.modify i fun q => { q with answered := true } }
    { st with
      pendingStart := match asked, disposition with
        | some (.escalation _ _), _ => some (.answer message)
        | some (.ceiling step _ _), .accept =>
          (st.verdictOf step.text).map fun verdict => .accept message verdict
        | _, _ => none }

/-- `apply_firing`. -/
def applyFiring (st : RunState) (timer : Text) (purpose : TimerPurpose) (now : Timestamp) :
    RunState :=
  match purpose with
  | .rootDeadline => { st with rootPeriods := st.rootPeriods + 1 }
  | .treeWindow => { st with treeCancelOwed := true }
  | .stopGrace =>
    let fired : GraceFired := if graceNth timer = some 2 then .second else .first
    match timerSlot timer with
    | none => st
    | some slot => st.modifyRecord slot fun r =>
        { r with state := r.state.mapLadder fun l => { l with fired := l.fired.max fired } }
  | .windDown =>
    match timerSlot timer with
    | none => st
    | some slot => st.modifyRecord slot fun r => r.startReplyStop now st.withdrawn
  | _ => st

/-- The step's back edge, which `apply_reply` reads. -/
def hasEdge (st : RunState) (step : StepId) : Bool :=
  (st.flow.step step.text).any fun d => d.onNeedsRework.isSome

/-- What the input's body does, once the guard let it pass. -/
def applyBody (st : RunState) (input : Event) : RunState :=
  match input.body with
  | .commissioned workspaceId flow policy rootThread requester =>
    { st with
      commissioned := true
      workspace := workspaceId
      flowHash := flow
      policy
      rootThread := some rootThread
      requester }
  | .rootOpened thread message =>
    { st with rootThread := some thread, rootMessage := some message, condition := none }
  | .claimTaken => { st with claimSince := some input.now }
  | .treePrepared base found =>
    { st with
      phase := .running .prepared
      base := some base
      found
      condition := none
      treeCancelOwed := false }
  | .treeRefused _ =>
    { st with treeRefusals := st.treeRefusals + 1, treeCancelOwed := false }
  | .treeParked outcome =>
    { st with
      parked := some outcome
      phase := match st.phase with
        | .finishing o reason _ => .finishing o reason (.parked outcome)
        | p => p }
  | .delivered _ =>
    match deliveryKey input with
    | none => st
    | some key => { st with delivered := if key ∈ st.delivered then st.delivered
                                         else key :: st.delivered }
  | .nudged key =>
    match st.find key with
    | none => st
    | some i => st.modifySlot i fun r =>
        match r.state with
        | .quiet _ openCall => { r with state := .nudged input.now openCall }
        | _ => r
  | .stopSignalled key _ _ =>
    match st.find key with
    | none => st
    | some i => st.modifySlot i SlotRecord.applySignal
  | .sessionFact key fact =>
    match st.find key with
    | none => st
    | some i => st.modifySlot i fun r =>
        r.applyFact (st.isSuperseded r) st.withdrawn input.now fact
  | .reply key message escalate needsRework =>
    match st.find key with
    | none => st
    | some i => st.modifySlot i fun r =>
        r.applyReply (hasEdge st r.slot.step) message escalate needsRework
  | .answer question disposition message => applyAnswer st question disposition message
  | .resume slot =>
    match resumeTarget st slot with
    | none => st
    | some i => st.modifySlot i SlotRecord.applyResume
  | .resumeRun => { st with condition := none, rootPeriods := 0 }
  | .withdrawn _ _ =>
    { st with withdrawn := true, slots := st.slots.map SlotRecord.applyWithdrawn }
  | .timerFired timer fireAt =>
    let deferred := isDeferred st timer fireAt input.now
    let armed := st.timers.get timer
    let st : RunState := { st with timers := st.timers.erase timer }
    match armed with
    | none => st
    | some armed => if deferred then st else applyFiring st timer armed.purpose input.now
  | .claimBusy _ | .claimReleased | .decision _ | .unknown => st

/-- `apply_input`: an input `decide` ignored folds to nothing. -/
def applyInput (st : RunState) (input : Event) : RunState :=
  if (ignoredReason st input).isSome then st else applyBody st input

end NexusFlow.Run
