import Mathlib.Algebra.Order.Ring.Int
import Mathlib.Data.List.Basic

/-!
# The run contracts: ids, time, policy, events

Model of `crates/run-contracts` (`ids.rs`, `policy.rs`, `codes.rs`, `session.rs`, `events.rs`): the
values the run engine reads and writes.

A string the engine takes apart or puts together (an id, a key, a timer) is its list of characters,
`Text`; a string it only compares or passes on (a message id, a branch) is a `String`. A step id or
a handle of a compiled flow holds no `/` ("Ids hold no other `/`, by the compiler's rule"), which
is a field of `Name`, so that no slot, session key or timer id can be built from another.

`u32` and `u64` counters are `Nat`. The enums only a *decision* carries (`TimerPurpose`,
`StepOutcome`, `Outcome`) have no `Unknown` here: `evolve` refuses a decision that holds one
(`Event::is_unknown_decision`), and `decide` writes none.
-/

namespace NexusFlow.Run

/-! ## Ids and time (`ids.rs`) -/

/-- A string the engine formats or reads: its characters. -/
abbrev Text := List Char

instance : LawfulBEq Text := inferInstance

/-- A step id or a handle of a compiled flow: no `/` in it. -/
structure Name where
  text : Text
  noSlash : '/' ∉ text
deriving DecidableEq

theorem Name.ext' {a b : Name} (h : a.text = b.text) : a = b := by
  cases a
  cases b
  simpa using h

abbrev MessageId := String
abbrev Handle := Name
abbrev StepId := Name
abbrev SessionKey := Text
abbrev Key := Text

/-- `struct RunId`, as its text. -/
abbrev RunId := Text

/-- `format!("{n}")` of an unsigned integer. -/
def decimal (n : Nat) : Text := Nat.toDigits 10 n

/-- `format!("{a}/{b}/…")`. -/
def joinSlash (pieces : List Text) : Text := ['/'].intercalate pieces

/-- One member slot of one step visit (`struct Slot`). -/
structure Slot where
  step : StepId
  visit : Nat
  member : Handle
  attempt : Nat
deriving DecidableEq

/-- The last four segments of every key and timer of a slot. -/
def Slot.pieces (s : Slot) : List Text :=
  [s.step.text, 'v' :: decimal s.visit, s.member.text, 'a' :: decimal s.attempt]

/-- `Slot::session_key`: `<run>/<step>/v<visit>/<member>/a<attempt>`. -/
def Slot.sessionKey (s : Slot) (run : RunId) : SessionKey := joinSlash (run :: s.pieces)

/-- `struct Timestamp(i64)`, in unix milliseconds. -/
abbrev Timestamp := Int

def firstWritableMillis : Int := -62167219200000
def lastWritableMillis : Int := 253402300799999

/-- `Timestamp::from_unix_millis`: a value outside the writable years stops at their end. -/
def Timestamp.fromUnixMillis (millis : Int) : Timestamp :=
  if millis < firstWritableMillis then firstWritableMillis
  else if millis > lastWritableMillis then lastWritableMillis
  else millis

/-- `struct Secs(u64)`. -/
abbrev Secs := Nat

/-- `Timestamp::plus`: moved forward by `span`, stopping at the last writable instant. -/
def Timestamp.plus (t : Timestamp) (span : Secs) : Timestamp :=
  Timestamp.fromUnixMillis (t + min (span * 1000 : Int) lastWritableMillis)

/-! ## The policy (`policy.rs`) -/

/-- `struct LivenessPolicy`: the durations and budgets pinned on a run. -/
structure LivenessPolicy where
  rootDeadline : Secs
  startDeadline : Secs
  quietAfter : Secs
  confirmWithin : Secs
  callBound : Secs
  subprocessIdle : Secs
  stopGrace : Secs
  treeWindow : Secs
  wakeJump : Secs
  holdRetry : Secs
  holdRetryMin : Secs
  holdRetryMax : Secs
  maxAttempts : Nat
  maxHolds : Nat
deriving DecidableEq

/-- `LivenessPolicy::default`. -/
def LivenessPolicy.default : LivenessPolicy where
  rootDeadline := 60
  startDeadline := 3 * 60
  quietAfter := 10 * 60
  confirmWithin := 5 * 60
  callBound := 3 * 3600
  subprocessIdle := 30 * 60
  stopGrace := 5 * 60
  treeWindow := 10 * 60
  wakeJump := 2 * 60
  holdRetry := 30 * 60
  holdRetryMin := 60
  holdRetryMax := 24 * 3600
  maxAttempts := 3
  maxHolds := 5

/-! ## The closed lists (`codes.rs`, `events.rs`, `session.rs`) -/

/-- `enum ReasonCode`. -/
inductive ReasonCode
  | staleTimer
  | duplicateReply
  | lateReplyAfterSkip
  | unknownSession
  | finalState
  | alreadyFinishing
  | outOfState
  | quiet
  | hung
  | startFailed
  | lost
  | exit
  | turnComplete
  | stoppedByHost
  | wouldNotStop
  | rootFailed
  | treeRefused
  | poisonInput
  | permissionRefused
  | endedWithoutReply
  | fanOutIncomplete
  | usageLimit
  | providerUnavailable
  | holdLimit
  | ceiling
  | acceptedByRequester
  | withdrawnByRequester
  | withdrawnByOwner
  | delivered
  | unknown (raw : String)
deriving DecidableEq

/-- `enum Disposition` of an answer. -/
inductive Disposition
  | «continue»
  | accept
  | unknown (raw : String)
deriving DecidableEq

/-- `enum WithdrawnBy`. -/
inductive WithdrawnBy
  | requester
  | owner
  | unknown (raw : String)
deriving DecidableEq

/-- `enum StopKind`: SIGTERM or SIGKILL. -/
inductive StopKind
  | term
  | kill
  | unknown (raw : String)
deriving DecidableEq

/-- `enum StepOutcome`, of a decision. -/
inductive StepOutcome
  | pass
  | needsRework
  | escalated
deriving DecidableEq

/-- `enum Outcome`, of a decision. -/
inductive Outcome
  | delivered
  | withdrawn
  | accepted
  | failed
deriving DecidableEq

/-- `enum TimerPurpose`, of a decision. -/
inductive TimerPurpose
  | rootDeadline
  | startDeadline
  | quiet
  | confirm
  | callBound
  | subprocessIdle
  | stopGrace
  | windDown
  | holdRetry
  | treeWindow
deriving DecidableEq

/-- `TimerPurpose::as_str`. -/
def TimerPurpose.asStr : TimerPurpose → Text
  | .rootDeadline => "root_deadline".toList
  | .startDeadline => "start_deadline".toList
  | .quiet => "quiet".toList
  | .confirm => "confirm".toList
  | .callBound => "call_bound".toList
  | .subprocessIdle => "subprocess_idle".toList
  | .stopGrace => "stop_grace".toList
  | .windDown => "wind_down".toList
  | .holdRetry => "hold_retry".toList
  | .treeWindow => "tree_window".toList

/-- `enum TreeRefusal`. The detail of `mid_sequence` and `git` is not read by the engine. -/
inductive TreeRefusal
  | notARepository
  | foreignDirectory
  | midSequence
  | git
  | unknown
deriving DecidableEq

/-- `struct Base`: the branch and the commit a tree was prepared from. -/
structure Base where
  branch : String
  commit : String
deriving DecidableEq

/-- `enum ParkOutcome`: what a park of the tree left behind. -/
inductive ParkOutcome
  | committed (branch commit : String)
  | onOwnBranch (branch commit : String)
  | clean (branch : Option String)
  | missing
  | notHeld
  | unknown
deriving DecidableEq

/-- `enum HeartbeatKind`. -/
inductive HeartbeatKind
  | modelOutput
  | callsOpen
  | callsClosed
  | subprocessMoved
  | blind
  | unknown (raw : String)
deriving DecidableEq

/-- `enum EndCause`: why a session ended. -/
inductive EndCause
  | turnComplete
  | exit (status : Option Int)
  | usageLimit (resetsAt : Option Timestamp)
  | providerUnavailable
  | permissionRefused (rule program : String)
  | stoppedByHost
  | lost
  | unknown
deriving DecidableEq

/-- `enum SessionFact`: what a session reported. The token counts of `usage` and the `pid` of
`started` are not read by the engine. -/
inductive SessionFact
  | started (backendSessionId : String)
  | heartbeat (beat : HeartbeatKind)
  | usage
  | permissionRefused (rule program : String)
  | groupLingering (pids : List Nat)
  | ended (cause : EndCause)
  | unknown
deriving DecidableEq

/-! ## Events (`events.rs`) -/

/-- `enum Decision`: the reducer's conclusions. -/
inductive Decision
  | rootRequested
  | claimRequested
  | runQueued (behind : Option RunId)
  | stepStarted (step : StepId) (visit attempt : Nat) (members : List Handle)
  | stepFinished (step : StepId) (visit : Nat) (outcome : StepOutcome)
  | rework («from» : StepId) («to» : Text) (declaring : StepId) (pass : Nat)
  | escalated (question : Key) (slot : Slot) (message : MessageId)
  | ceiling (question : Key) (step : StepId) (pass : Nat) (lastVerdict : MessageId)
  | timerSet (timer : Text) (fireAt : Timestamp) (purpose : TimerPurpose)
  | timerCleared (timer : Text)
  | liveness (slot : Slot) (reason : ReasonCode) (since : Timestamp)
  | held (slot : Slot) (reason : ReasonCode) («until» : Timestamp) (resetsAt : Option Timestamp)
  | parked (slot : Option Slot) (reason : ReasonCode)
  | finishing (outcome : Outcome) (reason : Option ReasonCode)
  | withdrawForced
  | finished (outcome : Outcome) (reason : Option ReasonCode)
  | ignored (inputSeq : Nat) (reason : ReasonCode)
deriving DecidableEq

/-- `enum EventBody`: the inputs, with the two bodies an inbox may hold that are none. -/
inductive EventBody
  | commissioned (workspaceId : String) (flow : String) (policy : LivenessPolicy)
      (rootThread : MessageId) (requester : String)
  | rootOpened (thread message : MessageId)
  | claimTaken
  | claimBusy (holder : RunId)
  | claimReleased
  | treePrepared (base : Base) (found : Option ParkOutcome)
  | treeRefused (reason : TreeRefusal)
  | treeParked (outcome : ParkOutcome)
  | delivered (message : MessageId)
  | nudged (sessionKey : SessionKey)
  | stopSignalled (sessionKey : SessionKey) (nth : Nat) (signal : StopKind)
  | sessionFact (sessionKey : SessionKey) (fact : SessionFact)
  | reply (sessionKey : SessionKey) (message : MessageId) (escalate needsRework : Bool)
  | answer (question : Key) (disposition : Disposition) (message : MessageId)
  | resume (slot : Option Slot)
  | resumeRun
  | withdrawn (message : Option MessageId) («by» : WithdrawnBy)
  | timerFired (timer : Text) (fireAt : Timestamp)
  | decision (d : Decision)
  | unknown
deriving DecidableEq

/-- `struct Event`: the envelope fields the engine reads. `now` is the source's `at`. -/
structure Event where
  seq : Nat
  now : Timestamp
  key : Key
  body : EventBody
deriving DecidableEq

end NexusFlow.Run
