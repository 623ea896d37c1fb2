import NexusFlow.Run.State

/-!
# `pending_effects`

Model of `crates/run-engine/src/effects.rs`: what the run owes the outside world, derived from its
state alone, and the stop table.
-/

namespace NexusFlow.Run

/-- `enum DeliverBody`. -/
inductive DeliverBody
  | message (message : MessageId)
  | discharge (step : Option StepId) (pass : Nat) (verdict : Option MessageId)
      (parked : Option ParkOutcome)
  | parkNotice (branch commit : String)
  | question (key : Key)
deriving DecidableEq

/-- `enum Effect`. -/
inductive Effect
  | openRoot (run : RunId)
  | takeClaim (workspace : String)
  | prepareTree (workspace : String)
  | cancelTree (workspace : String)
  | parkTree (workspace : String) (occasion : Outcome)
  | releaseClaim (workspace : String)
  | startSession (sessionKey : SessionKey) (turn : List TurnPart) (resume : Bool)
  | nudgeSession (sessionKey : SessionKey) (text : String)
  | stopSession (sessionKey : SessionKey) (kind : StopKind) (nth : Nat)
  | deliver (thread : MessageId) (body : DeliverBody) (key : Key)
deriving DecidableEq

/-- `NUDGE_TEXT`. -/
def nudgeText : String := "You have gone quiet. Say what you are doing, or reply on your thread."

/-- `stop_signal`: the signal owed for (`forced`, `signals_sent`, the grace firings folded). -/
def stopSignal : Bool → Nat → GraceFired → Option StopKind
  | _, 0, _ => some .term
  | false, 1, .first | false, 1, .second => some .term
  | true, 1, .first | true, 1, .second => some .kill
  | true, 2, .second => some .kill
  | _, _, _ => none

/-- The signal a ladder owes. -/
def Ladder.owed (l : Ladder) : Option StopKind := stopSignal l.forced l.signalsSent l.fired

/-- `stop_effect`. -/
def stopEffect (r : SlotRecord) (sessionKey : SessionKey) : Option Effect :=
  r.state.ladder.bind fun ladder =>
    ladder.owed.map fun kind => .stopSession sessionKey kind (ladder.total + 1)

/-- `last_verdict`: the newest verdict of any step. -/
def lastVerdict (st : RunState) : Option MessageId :=
  (st.finishedSteps.reverse.findSome? fun finished => st.verdictOf finished.step.text).map
    VerdictRef.message

/-- `result_deliveries`. -/
def resultDeliveries (st : RunState) (outcome : Outcome) (parked : ParkOutcome) :
    List (Key × DeliverBody) :=
  let step := st.currentStep
  let verdict := step.bind fun step => st.verdictOf step.text
  let discharge : DeliverBody :=
    .discharge step ((step.map fun step => st.passOf step.text).getD 0) (lastVerdict st)
      (some parked)
  let body : DeliverBody :=
    match outcome, verdict with
    | .withdrawn, _ | .failed, _ | _, none => discharge
    | _, some verdict => .message verdict.message
  let notice : List (Key × DeliverBody) :=
    match outcome, parked with
    | .withdrawn, _ => []
    | _, .committed branch commit | _, .onOwnBranch branch commit =>
      [("park/".toList ++ st.run, .parkNotice branch commit)]
    | _, _ => []
  ("result/".toList ++ st.run, body) :: notice

/-- `owed_deliveries`: the deliveries `delivered` has not recorded. -/
def owedDeliveries (st : RunState) : List (Key × DeliverBody) :=
  if st.rootMessage.isNone then []
  else
    let owed : List (Key × DeliverBody) := match st.phase with
      | .finishing outcome _ (.parked parked) => resultDeliveries st outcome parked
      | .running _ =>
        st.openQuestions.map fun q => ("question/".toList ++ q.id, .question q.id)
      | _ => []
    owed.filter fun d => !st.delivered.contains d.1

/-- `deliver_effects`. -/
def deliverEffects (st : RunState) : List Effect :=
  (owedDeliveries st).map fun d => .deliver (st.rootThread.getD "") d.2 d.1

/-- `slot_effect`. -/
def slotEffect (st : RunState) (r : SlotRecord) : Option Effect :=
  match r.state with
  | .starting _ => some (.startSession (st.sessionKey r.slot) r.turn r.resume)
  | .quiet _ _ => some (.nudgeSession (st.sessionKey r.slot) nudgeText)
  | _ => stopEffect r (st.sessionKey r.slot)

/-- `running_effects`. -/
def runningEffects (st : RunState) (tree : TreePhase) : List Effect :=
  if st.treeCancelOwed then [.cancelTree st.workspace]
  else if tree = .unprepared then
    if st.condition.isSome then [] else [.prepareTree st.workspace]
  else st.slots.filterMap (slotEffect st) ++ deliverEffects st

/-- `finishing_effects`: the stops; once none is live, the park; the deliveries; the release. -/
def finishingEffects (st : RunState) (tree : ParkPhase) (occasion : Outcome) : List Effect :=
  if st.anyLive then st.slots.filterMap fun r => stopEffect r (st.sessionKey r.slot)
  else if tree = .unparked then [.parkTree st.workspace occasion]
  else if deliverEffects st ≠ [] then deliverEffects st
  else [.releaseClaim st.workspace]

/-- `pending_effects`: what the run owes the outside world now. -/
def pendingEffects (st : RunState) : List Effect :=
  match st.phase with
  | .finished _ _ => []
  | .created =>
    if st.commissioned && st.rootMessage.isNone && st.condition.isNone then [.openRoot st.run]
    else []
  | .queued _ => [.takeClaim st.workspace]
  | .running tree => runningEffects st tree
  | .finishing outcome _ tree => finishingEffects st tree outcome

/-- `ready_to_release`: every stop confirmed, the park recorded, every delivery done. -/
def readyToRelease (st : RunState) : Bool :=
  match st.phase with
  | .finishing _ _ (.parked _) => !st.anyLive && (owedDeliveries st).isEmpty
  | _ => false

end NexusFlow.Run
