import NexusFlow.Lib.KeyMap
import NexusFlow.Run.Flow

/-!
# Run state and member slot state

Model of `crates/run-engine/src/state.rs`: `RunState`, its slots and their states, the lookups by
slot and by session key, the projection `view`, and the ids of timers with the two functions that
read them back (`timer_slot`, `grace_nth`).

`RunState::seq`, the position of the last folded event, is left out: no function of the engine
reads it. A `BTreeMap` is a `KeyMap`, a `BTreeSet` a list read by membership only.
-/

namespace NexusFlow.Run

open NexusFlow.Lib

/-! ## The parts of a state -/

/-- `enum TreePhase`. -/
inductive TreePhase
  | unprepared
  | prepared
deriving DecidableEq

/-- `enum ParkPhase`. -/
inductive ParkPhase
  | unparked
  | parked (outcome : ParkOutcome)
deriving DecidableEq

/-- `enum Phase`. -/
inductive Phase
  | created
  | queued (behind : Option RunId)
  | running (tree : TreePhase)
  | finishing (outcome : Outcome) (reason : Option ReasonCode) (tree : ParkPhase)
  | finished (outcome : Outcome) (reason : Option ReasonCode)
deriving DecidableEq

/-- `struct RunCondition`: a park no slot holds. -/
structure RunCondition where
  reason : ReasonCode
  order : Nat
  since : Timestamp
deriving DecidableEq

/-- `struct FinishedStep`. -/
structure FinishedStep where
  step : StepId
  visit : Nat
  outcome : StepOutcome
  now : Timestamp
deriving DecidableEq

/-- `struct ArmedTimer`. -/
structure ArmedTimer where
  fireAt : Timestamp
  purpose : TimerPurpose
deriving DecidableEq

/-- `enum Asked`. -/
inductive Asked
  | escalation (slot : Slot) (message : MessageId)
  | ceiling (step : StepId) (pass : Nat) (lastVerdict : MessageId)
deriving DecidableEq

/-- `struct Question`: its id is the key of the event that asked. -/
structure Question where
  id : Key
  asked : Asked
  since : Timestamp
  answered : Bool
deriving DecidableEq

/-- `struct VerdictRef`: a reply that stands as a step's verdict. -/
structure VerdictRef where
  step : Text
  member : Handle
  message : MessageId
deriving DecidableEq

/-- `enum StartCause`. -/
inductive StartCause
  | rework (verdict : VerdictRef)
  | answer (message : MessageId)
  | accept (answer : MessageId) (verdict : VerdictRef)
deriving DecidableEq

/-- `enum TurnKind`. -/
inductive TurnKind
  | root
  | reply (step : Text) (member : Handle)
  | task
  | obligation
  | answer
  | reminder
deriving DecidableEq

/-- `struct TurnPart`. -/
structure TurnPart where
  kind : TurnKind
  message : Option MessageId
deriving DecidableEq

/-- `enum GraceFired`: how many of `stop_grace/1` and `/2` have fired, folded. -/
inductive GraceFired
  | none
  | first
  | second
deriving DecidableEq

/-- The derived `Ord` of `GraceFired`. -/
def GraceFired.max : GraceFired → GraceFired → GraceFired
  | .second, _ => .second
  | _, .second => .second
  | .first, _ => .first
  | _, .first => .first
  | .none, .none => .none

/-- `struct Ladder`: the stop of one session. -/
structure Ladder where
  since : Timestamp
  forced : Bool
  signalsSent : Nat
  total : Nat
  fired : GraceFired
deriving DecidableEq

/-- `Ladder::new`. -/
def Ladder.new (since : Timestamp) (forced : Bool) : Ladder := ⟨since, forced, 0, 0, .none⟩

/-- `enum AfterStop`: what a confirmed end of a stop leads to. -/
inductive AfterStop
  | nothing
  | restart (exhausted : ReasonCode)
deriving DecidableEq

/-- `enum Process`. -/
inductive Process
  | live
  | ended
deriving DecidableEq

/-- `enum SlotState`. -/
inductive SlotState
  | pending
  | starting (deadline : Timestamp)
  | running (session : String) (openCall : Option Timestamp)
  | quiet (since : Timestamp) (openCall : Option Timestamp)
  | nudged (now : Timestamp) (openCall : Option Timestamp)
  | stopping (ladder : Ladder) (after : AfterStop)
  | replied (message : MessageId) (escalate needsRework : Bool) (process : Process)
      (overdue : Bool) (ladder : Option Ladder)
  | ended (cause : EndCause)
deriving DecidableEq

namespace SlotState

/-- `SlotState::is_live`: whether a process of this attempt may exist. -/
def isLive : SlotState → Bool
  | .pending | .ended _ => false
  | .replied _ _ _ process _ _ => process = .live
  | .starting _ | .running _ _ | .quiet _ _ | .nudged _ _ | .stopping _ _ => true

/-- `SlotState::ladder`: the ladder of a stop under way, on either state that can carry one. -/
def ladder : SlotState → Option Ladder
  | .stopping ladder _ => some ladder
  | .replied _ _ _ _ _ ladder => ladder
  | _ => none

/-- `SlotState::ladder_mut`, as the state with its ladder changed by `f`. -/
def mapLadder (f : Ladder → Ladder) : SlotState → SlotState
  | .stopping ladder after => .stopping (f ladder) after
  | .replied message escalate needsRework process overdue ladder =>
    .replied message escalate needsRework process overdue (ladder.map f)
  | s => s

/-- Whether the attempt has replied. -/
def isReplied : SlotState → Bool
  | .replied .. => true
  | _ => false

end SlotState

/-- `enum SlotCondition`: a hold or a park on a slot. -/
inductive SlotCondition
  | held (reason : ReasonCode) («until» : Timestamp) (order : Nat)
  | parked (reason : ReasonCode) (order : Nat) (since : Timestamp)
deriving DecidableEq

/-- `SlotCondition::order`. -/
def SlotCondition.order : SlotCondition → Nat
  | .held _ _ order => order
  | .parked _ order _ => order

/-- Whether the condition is a park `would_not_stop`. -/
def SlotCondition.isWouldNotStop : SlotCondition → Bool
  | .parked .wouldNotStop _ _ => true
  | _ => false

/-- `struct SlotRecord`: one attempt of one seat. -/
structure SlotRecord where
  slot : Slot
  state : SlotState
  createdAt : Timestamp
  resume : Bool
  turn : List TurnPart
  baseTurn : List TurnPart
  restarts : Nat
  holds : Nat
  reminded : Bool
  condition : Option SlotCondition
  fresh : Bool
  blind : Bool
  sampling : Bool
  backendSession : Option String
  lastFact : Option Timestamp
  pids : List Nat
  refused : Option String
deriving DecidableEq

/-- `struct RunState`: everything a fold of the log knows about a run. -/
structure RunState where
  run : RunId
  flow : FlowDef
  commissioned : Bool
  workspace : String
  flowHash : String
  requester : String
  policy : LivenessPolicy
  rootThread : Option MessageId
  rootMessage : Option MessageId
  phase : Phase
  condition : Option RunCondition
  slots : List SlotRecord
  visits : KeyMap Text Nat
  passes : KeyMap Text Nat
  currentStep : Option StepId
  finishedSteps : List FinishedStep
  questions : List Question
  timers : KeyMap Text ArmedTimer
  pendingStart : Option StartCause
  claimSince : Option Timestamp
  claimChanges : Nat
  treeRefusals : Nat
  rootPeriods : Nat
  treeCancelOwed : Bool
  base : Option Base
  found : Option ParkOutcome
  parked : Option ParkOutcome
  delivered : List Key
  withdrawn : Bool
  nextOrder : Nat
deriving DecidableEq

/-- `enum RunView`: the run as a person reads it. -/
inductive RunView
  | created
  | queued (behind : Option RunId)
  | running (tree : TreePhase)
  | needsDecision (questions : List Key)
  | held (reason : ReasonCode) («until» : Timestamp)
  | parked (reason : ReasonCode)
  | finishing (outcome : Outcome)
  | finished (outcome : Outcome)
deriving DecidableEq

/-! ## Keys and timer ids -/

/-- `slot_suffix`: the session key's tail, which every slot timer's id ends in. -/
def slotSuffix (s : Slot) : Text := joinSlash s.pieces

/-- `slot_timer`: the id of a slot's timer. -/
def slotTimer (purpose : TimerPurpose) (s : Slot) : Text := purpose.asStr ++ '/' :: slotSuffix s

/-- `grace_timer`: the id of the `nth` grace of a stop. -/
def graceTimer (nth : Nat) (s : Slot) : Text :=
  TimerPurpose.stopGrace.asStr ++ '/' :: (decimal nth ++ '/' :: slotSuffix s)

/-- `ROOT_DEADLINE_TIMER`. -/
def rootDeadlineTimer : Text := "root_deadline".toList

/-- `TREE_WINDOW_TIMER`. -/
def treeWindowTimer : Text := "tree_window".toList

/-- The plus sign `parse` takes before the digits. -/
def dropPlus : Text → Text
  | '+' :: rest => rest
  | text => text

/-- `text.parse::<u32>().ok()`: decimal digits, at least one, with an optional plus sign. -/
def parseNat (text : Text) : Option Nat :=
  if dropPlus text ≠ [] ∧ (dropPlus text).all Char.isDigit then
    some (Nat.ofDigitChars 10 (dropPlus text) 0)
  else none

/-- `text.strip_prefix(c)` of one character, then `parse`. -/
def parseAfter (c : Char) : Text → Option Nat
  | [] => none
  | d :: rest => if d = c then parseNat rest else none

/-- A segment of a split id: it holds no `/`. -/
def segment (text : Text) : Option Name := if h : '/' ∈ text then none else some ⟨text, h⟩

/-- `timer_slot`: the slot a timer id names, by its last four segments. -/
def timerSlot (timer : Text) : Option Slot :=
  match (timer.splitOn '/').reverse with
  | attempt :: member :: visit :: step :: _ :: _ => do
    let attempt ← parseAfter 'a' attempt
    let member ← segment member
    let visit ← parseAfter 'v' visit
    let step ← segment step
    return ⟨step, visit, member, attempt⟩
  | _ => none

/-- `grace_nth`: which grace of a stop a timer id names. -/
def graceNth (timer : Text) : Option Nat :=
  let stopGrace := TimerPurpose.stopGrace.asStr ++ ['/']
  if stopGrace <+: timer then
    match (timer.drop stopGrace.length).splitOn '/' with
    | [] => none
    | nth :: _ => parseNat nth
  else none

/-! ## Lookups and projections -/

/-- `iter.min_by_key(key)`: the first of the least. -/
def minByKey {α β : Type} [LT β] [DecidableLT β] (key : α → β) : List α → Option α
  | [] => none
  | a :: l =>
    match minByKey key l with
    | none => some a
    | some b => if key b < key a then some b else some a

namespace RunState

/-- `RunState::initial`. -/
def initial (run : RunId) (flow : FlowDef) : RunState where
  run
  flow
  commissioned := false
  workspace := ""
  flowHash := ""
  requester := ""
  policy := .default
  rootThread := none
  rootMessage := none
  phase := .created
  condition := none
  slots := []
  visits := .empty
  passes := .empty
  currentStep := none
  finishedSteps := []
  questions := []
  timers := .empty
  pendingStart := none
  claimSince := none
  claimChanges := 0
  treeRefusals := 0
  rootPeriods := 0
  treeCancelOwed := false
  base := none
  found := none
  parked := none
  delivered := []
  withdrawn := false
  nextOrder := 0

variable (st : RunState)

/-- `RunState::open_questions`. -/
def openQuestions : List Question := st.questions.filter fun q => !q.answered

/-- `RunState::outcome`. -/
def outcome : Option Outcome :=
  match st.phase with
  | .finishing outcome _ _ | .finished outcome _ => some outcome
  | _ => none

/-- `RunState::is_finished`. -/
def isFinished : Bool :=
  match st.phase with
  | .finished _ _ => true
  | _ => false

/-- `RunState::is_finishing`. -/
def isFinishing : Bool :=
  match st.phase with
  | .finishing _ _ _ => true
  | _ => false

/-- `RunState::tree_prepared`. -/
def treePrepared : Bool := st.phase = .running .prepared

/-- `RunState::session_key`. -/
def sessionKey (s : Slot) : SessionKey := s.sessionKey st.run

/-- `RunState::find`: the record of the attempt with this session key. -/
def find (key : SessionKey) : Option Nat :=
  st.slots.findIdx? fun r => st.sessionKey r.slot == key

/-- `RunState::find_slot`: the record of exactly this slot. -/
def findSlot (s : Slot) : Option Nat := st.slots.findIdx? fun r => r.slot == s

/-- The record at an index, for the lookups above. -/
def recordAt (i : Option Nat) : Option SlotRecord := i.bind fun i => st.slots[i]?

/-- `RunState::latest`: the latest attempt of a seat. -/
def latest (step : StepId) (visit : Nat) (member : Handle) : Option SlotRecord :=
  st.slots.reverse.find? fun r =>
    r.slot.step == step && r.slot.visit == visit && r.slot.member == member

/-- `RunState::is_superseded`: whether a later attempt of this seat exists. -/
def isSuperseded (r : SlotRecord) : Bool :=
  (st.latest r.slot.step r.slot.visit r.slot.member).any fun l => l.slot.attempt != r.slot.attempt

/-- `RunState::persona_is_live`: whether a process of this persona may be alive in this run. -/
def personaIsLive (member : Handle) : Bool :=
  st.slots.any fun r => r.slot.member == member && r.state.isLive

/-- `RunState::any_live`. -/
def anyLive : Bool := st.slots.any fun r => r.state.isLive

/-- `RunState::current_conditions`: the conditions on seats' latest attempts. -/
def currentConditions : List SlotCondition :=
  (st.slots.filter fun r => !st.isSuperseded r).filterMap fun r => r.condition

/-- `RunState::earliest_hold`. -/
def earliestHold : Option (ReasonCode × Timestamp) :=
  minByKey Prod.snd (st.currentConditions.filterMap fun
    | .held reason «until» _ => some (reason, «until»)
    | .parked _ _ _ => none)

/-- `RunState::oldest_park`: the reason of the oldest park, a slot's or the run's. -/
def oldestPark : Option ReasonCode :=
  let slots := st.currentConditions.filterMap fun
    | .parked reason order _ => some (order, reason)
    | .held _ _ _ => none
  let run := st.condition.toList.map fun c => (c.order, c.reason)
  (minByKey Prod.fst (slots ++ run)).map Prod.snd

/-- `RunState::view`: the projection of the slots' conditions onto the run. -/
def view : RunView :=
  match st.phase with
  | .finished outcome _ => .finished outcome
  | .finishing outcome _ _ => .finishing outcome
  | .queued behind => .queued behind
  | .created | .running _ =>
    if st.openQuestions ≠ [] then .needsDecision (st.openQuestions.map Question.id)
    else
      match st.earliestHold with
      | some (reason, «until») => .held reason «until»
      | none =>
        match st.oldestPark with
        | some reason => .parked reason
        | none =>
          match st.phase with
          | .running tree => .running tree
          | _ => .created

/-- `RunState::verdict_of`: the reply that stands as this step's verdict, on its latest visit. -/
def verdictOf (step : Text) : Option VerdictRef :=
  (st.visits.get step).bind fun visit =>
    let fanOut := (st.flow.step step).any StepDef.isFanOut
    (st.slots.reverse.filter fun r => r.slot.step.text == step && r.slot.visit == visit &&
      (!fanOut || r.slot.member == SYNTH)).findSome? fun r =>
        match r.state with
        | .replied message _ _ _ _ _ => some ⟨step, r.slot.member, message⟩
        | _ => none

/-- `RunState::pass_of`. -/
def passOf (step : Text) : Nat := (st.passes.get step).getD 0

/-- `state.slots[index]` changed by `f`. -/
def modifySlot (i : Nat) (f : SlotRecord → SlotRecord) : RunState :=
  { st with slots := st.slots.modify i f }

/-- `record_of`, with the record changed by `f`: nothing happens where the slot has no record. -/
def modifyRecord (s : Slot) (f : SlotRecord → SlotRecord) : RunState :=
  match st.findSlot s with
  | some i => st.modifySlot i f
  | none => st

end RunState

/-- `RunState::millis`: a span read as milliseconds, up to `i64::MAX`. -/
def millis (span : Secs) : Int := min (span * 1000 : Int) (2 ^ 63 - 1)

end NexusFlow.Run
