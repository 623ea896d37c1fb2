import NexusFlow.Lib.KeyMap
import NexusFlow.Host.Log

/-!
# The run store

Model of `crates/run-store-sqlite` (`append.rs`, `lease.rs`, `timers.rs`): the named values with
their compare-and-set, the inbox of a run, its log, its row and its timer index, and the two write
paths `enqueue` and `append`. Each function is one transaction: it returns the store it leaves and
the answer. An error leaves the store as it was, a `DuplicateKey` of `append` excepted, which commits
the deletion of the consumed rows.

A named value is what its bytes decode as: the encodings are canonical, so two values are the same
bytes exactly when they are equal. Left out: `tenant`, `origin` and what a newer version put on an
event, which no modelled function reads, and the checks of `commissioned` on the form of its ids
(`check_event`), which refuse a call before the store is read.
-/

namespace NexusFlow.Host

open NexusFlow.Run
open NexusFlow.Lib

/-! ## Values -/

/-- `type Epoch`. -/
abbrev Epoch := Nat

/-- `struct Lease`: the value of `owner/<run>`. -/
structure Lease where
  ownerId : String
  epoch : Epoch
  expiresAt : Timestamp
deriving DecidableEq

/-- `struct EffectEntry`: the value of `effect/<run>/<key>`. -/
structure EffectEntry where
  state : String
  epoch : Epoch
deriving DecidableEq

/-- A named value, by what its bytes decode as. -/
inductive Value
  | lease (lease : Lease)
  | entry (entry : EffectEntry)
  | count (n : Nat)
  | text (text : Text)
deriving DecidableEq

/-- `struct Event` as the store keeps it: the event and the version that wrote it. -/
structure Envelope extends Event where
  v : Nat
deriving DecidableEq

/-- `struct RunRowState`. -/
structure RunRow where
  workspaceId : String
  finished : Bool
  lastSeq : Nat
  maxV : Nat
  commissionedAt : Timestamp
deriving DecidableEq

/-- The state of a row of the timer index: `ARMED`, `CLEARED`, `FIRED`. -/
inductive TimerState
  | armed
  | cleared
  | fired
deriving DecidableEq

/-- A row of the timer index. -/
structure TimerRow where
  fireAt : Timestamp
  purpose : Text
  state : TimerState
deriving DecidableEq

/-- `struct Cas`: one compare-and-set of a list. -/
structure Cas where
  key : Key
  «from» : Option Value
  «to» : Option Value
deriving DecidableEq

/-- `enum StoreError`: why a call was refused. -/
inductive StoreError
  | fenced
  | seqMismatch
  | duplicateKey (seq : Nat)
  | casFailed (key : Key)
  | versionTooOld (maxV : Nat)
  | «protected» (key : Key)
  | unknownRun
  | invalidEvent
  | damagedRow (key : Key)
deriving DecidableEq

/-- `enum Enqueued`. -/
inductive Enqueued
  | accepted
  | duplicate
deriving DecidableEq

/-- The tables of a store. The rows of `events` are in the order of their `seq`, those of `inbox` in
the order they came. -/
structure Store where
  kv : KeyMap Key Value
  rows : RunId → Option RunRow
  events : RunId → List Envelope
  inbox : RunId → List Envelope
  timers : RunId → KeyMap Text TimerRow

/-- A new file. -/
def Store.empty : Store := ⟨.empty, fun _ => none, fun _ => [], fun _ => [], fun _ => .empty⟩

/-- Goes on where the condition holds, and returns the error where it does not. -/
def require (p : Prop) [Decidable p] (error : StoreError) : Except StoreError Unit :=
  if p then .ok () else .error error

/-! ## Named values (`lease.rs`, `append.rs`) -/

/-- `owner_key`. -/
def ownerKey (run : RunId) : Key := "owner/".toList ++ run

/-- `is_owner_key`. -/
def isOwnerKey (key : Key) : Bool := "owner/".toList.isPrefixOf key

/-- `EFFECT_PREFIX`. -/
def effectPrefix : Text := "effect/".toList

/-- `Host::effect_key`. -/
def effectKey (run : RunId) (key : Key) : Key := effectPrefix ++ run ++ '/' :: key

/-- The run an effect key names: `effect/<run>/<key>`, split at the first `/` after the first piece. -/
def effectRun (key : Key) : Option RunId :=
  let rest := key.drop effectPrefix.length
  if '/' ∈ rest then some (rest.takeWhile (· ≠ '/')) else none

/-- A value read as a lease. -/
def decodeLease (key : Key) : Value → Except StoreError Lease
  | .lease lease => .ok lease
  | _ => .error (.damagedRow key)

/-- `current_epoch`: the epoch of a run's lease, `none` while nobody ever held it. -/
def currentEpoch (kv : KeyMap Key Value) (run : RunId) : Except StoreError (Option Epoch) :=
  match kv.get (ownerKey run) with
  | none => .ok none
  | some value => (decodeLease (ownerKey run) value).map fun lease => some lease.epoch

/-- `check_owner_value`: an owner key is never deleted, and only ever holds a lease. -/
def checkOwnerValue (key : Key) : Option Value → Except StoreError Unit
  | none => .error (.protected key)
  | some (.lease _) => .ok ()
  | some _ => .error .invalidEvent

/-- `check_epoch_keeps_rising`. -/
def checkEpochKeepsRising (key : Key) (current new : Option Value) : Except StoreError Unit :=
  match current, new with
  | some current, some new => do
    let new ← decodeLease key new
    let current ← decodeLease key current
    require (current.epoch ≤ new.epoch) (.protected key)
  | _, _ => .ok ()

/-- `check_effect_write`: an entry says which epoch wrote it, and that has to be the run's current
one. -/
def checkEffectWrite (kv : KeyMap Key Value) (key : Key) (value : Value) : Except StoreError Unit :=
  match effectRun key, value with
  | some run, .entry entry => do
    let epoch ← currentEpoch kv run
    require (epoch = some entry.epoch) .fenced
  | _, _ => .error .invalidEvent

/-- The check of an effect's entry, for the keys that have one. -/
def checkEffect (kv : KeyMap Key Value) (item : Cas) : Except StoreError Unit :=
  if effectPrefix.isPrefixOf item.key then
    match item.to with
    | some value => checkEffectWrite kv item.key value
    | none => .ok ()
  else .ok ()

/-- The checks of a new owner value, for the keys that are one. -/
def checkOwner (item : Cas) : Except StoreError Unit :=
  if isOwnerKey item.key then checkOwnerValue item.key item.to else .ok ()

/-- The check of a lease's epoch against the one it replaces, for the keys that hold one. -/
def checkRising (kv : KeyMap Key Value) (item : Cas) : Except StoreError Unit :=
  if isOwnerKey item.key then checkEpochKeepsRising item.key (kv.get item.key) item.to else .ok ()

/-- `INSERT … ON CONFLICT DO UPDATE`, or `DELETE` for no value. -/
def writeValue (kv : KeyMap Key Value) (key : Key) : Option Value → KeyMap Key Value
  | some value => kv.insert key value
  | none => kv.erase key

/-- `apply_cas`: one compare-and-set. -/
def applyCas (kv : KeyMap Key Value) (item : Cas) : Except StoreError (KeyMap Key Value) := do
  checkOwner item
  checkEffect kv item
  require (kv.get item.key = item.from) (.casFailed item.key)
  checkRising kv item
  .ok (writeValue kv item.key item.to)

/-- The list of an `append` or `enqueue`, in order. -/
def applyCasList (kv : KeyMap Key Value) : List Cas → Except StoreError (KeyMap Key Value)
  | [] => .ok kv
  | item :: items => do
    let kv ← applyCas kv item
    applyCasList kv items

/-- `RunStore::compare_and_set`. -/
def Store.compareAndSet (s : Store) (key : Key) («from» «to» : Option Value) :
    Store × Except StoreError Unit :=
  match applyCas s.kv ⟨key, «from», «to»⟩ with
  | .ok kv => ({ s with kv }, .ok ())
  | .error error => (s, .error error)

/-- `RunStore::get`. -/
def Store.get (s : Store) (key : Key) : Option Value := s.kv.get key

/-! ## The timer index (`timers.rs`) -/

/-- `TimerPurpose::parse`, of the purposes this version writes. -/
def parsePurpose (text : Text) : Option TimerPurpose :=
  [TimerPurpose.rootDeadline, .startDeadline, .quiet, .confirm, .callBound, .subprocessIdle,
    .stopGrace, .windDown, .holdRetry, .treeWindow].find? fun p => p.asStr == text

namespace Timers

/-- `arm`: one row for each id, whatever re-arms it. -/
def arm (rows : KeyMap Text TimerRow) (timer : Text) (fireAt : Timestamp) (purpose : TimerPurpose) :
    KeyMap Text TimerRow :=
  rows.insert timer ⟨fireAt, purpose.asStr, .armed⟩

/-- `clear`: what is armed is cleared. -/
def clear (rows : KeyMap Text TimerRow) (timer : Text) : KeyMap Text TimerRow :=
  match rows.get timer with
  | some row => if row.state = .armed then rows.insert timer { row with state := .cleared } else rows
  | none => rows

/-- `fire`: what is armed for this instant has fired. -/
def fire (rows : KeyMap Text TimerRow) (timer : Text) (fireAt : Timestamp) :
    KeyMap Text TimerRow :=
  match rows.get timer with
  | some row =>
    if row.state = .armed ∧ row.fireAt = fireAt then rows.insert timer { row with state := .fired }
    else rows
  | none => rows

/-- `clear_all`: `finished` leaves no timer armed. -/
def clearAll (rows : KeyMap Text TimerRow) : KeyMap Text TimerRow :=
  ((rows.entries.filter fun entry => entry.2.state = .armed).map Prod.fst).foldl clear rows

/-- What one event implies for the index. -/
def applyEvent (rows : KeyMap Text TimerRow) (event : Event) : KeyMap Text TimerRow :=
  match event.body with
  | .decision (.timerSet timer fireAt purpose) => arm rows timer fireAt purpose
  | .decision (.timerCleared timer) => clear rows timer
  | .timerFired timer fireAt => fire rows timer fireAt
  | .decision (.finished _ _) => clearAll rows
  | _ => rows

/-- `apply`: what `events` imply, in order. -/
def apply (rows : KeyMap Text TimerRow) (events : List Envelope) : KeyMap Text TimerRow :=
  events.foldl (fun rows event => applyEvent rows event.toEvent) rows

/-- The order of `due`: the older instant first, then the id. -/
def before (a b : Text × ArmedTimer) : Bool :=
  a.2.fireAt < b.2.fireAt || (a.2.fireAt == b.2.fireAt && !(b.1 < a.1 : Bool))

/-- `due`, of one run: the rows armed for an instant that has come, and whose purpose reads. -/
def due (rows : KeyMap Text TimerRow) (now : Timestamp) : List (Text × ArmedTimer) :=
  (rows.entries.filterMap fun entry =>
    if entry.2.state = .armed ∧ entry.2.fireAt ≤ now then
      (parsePurpose entry.2.purpose).map fun purpose => (entry.1, ⟨entry.2.fireAt, purpose⟩)
    else none).mergeSort before

end Timers

/-! ## `enqueue` and `append` (`append.rs`) -/

/-- `check_call`: a call is refused for a key twice, and for an owner key in its list. -/
def checkCall (events : List Envelope) (cas : List Cas) : Except StoreError Unit :=
  if ¬ (events.map fun e => e.key).Nodup then .error .invalidEvent
  else
    match cas.find? fun item => isOwnerKey item.key with
    | some item => .error (.protected item.key)
    | none => if ¬ (cas.map Cas.key).Nodup then .error .invalidEvent else .ok ()

/-- Whether the event opens a log. -/
def commissionedWorkspace : EventBody → Option String
  | .commissioned workspaceId _ _ _ _ => some workspaceId
  | _ => none

/-- `logged_seq`. -/
def loggedSeq (log : List Envelope) (key : Key) : Option Nat :=
  (log.find? fun e => e.key == key).map fun e => e.seq

/-- The row `commissioned` creates. -/
def createRun (event : Envelope) : Except StoreError RunRow :=
  match commissionedWorkspace event.body with
  | some workspaceId => .ok ⟨workspaceId, false, 0, 0, event.now⟩
  | none => .error .unknownRun

/-- `check_commissioned_position`: `commissioned` is the first event of its log, and the workspace
of a run never changes. -/
def checkCommissionedPosition (events : List Envelope) (lastSeq : Nat) (row : Option RunRow) :
    Except StoreError Unit :=
  let bad := events.zipIdx.any fun e =>
    match commissionedWorkspace e.1.body with
    | none => false
    | some workspaceId => lastSeq ≠ 0 || e.2 ≠ 0 || row.any fun row => row.workspaceId != workspaceId
  if bad then .error .invalidEvent else .ok ()

/-- `insert_event`: the store owns the position. -/
def positioned (lastSeq : Nat) (events : List Envelope) : List Envelope :=
  events.zipIdx.map fun e => { e.1 with seq := lastSeq + 1 + e.2 }

/-- `delete_inbox_rows`. -/
def deleteRows (inbox : List Envelope) (consume : List Key) : List Envelope :=
  inbox.filter fun e => e.key ∉ consume

/-- `is_finished`. -/
def isFinishedBody : EventBody → Bool
  | .decision (.finished _ _) => true
  | _ => false

/-- The first of these keys that is in the log already. -/
def duplicateOf (log events : List Envelope) : Option Nat :=
  events.findSome? fun e => loggedSeq log e.key

/-- A table with the rows of one run replaced. -/
def setRun {α : Type} (table : RunId → α) (run : RunId) (rows : α) : RunId → α :=
  fun r => if r = run then rows else table r

/-- What `append` checks before it reads the keys: the fence, the run, the position, the version. -/
def appendGuard (s : Store) (run : RunId) (expectedSeq : Nat) (fence : Epoch)
    (events : List Envelope) (cas : List Cas) : Except StoreError Unit := do
  checkCall events cas
  let epoch ← currentEpoch s.kv run
  require (epoch = some fence) .fenced
  let opens := (events.head?.bind fun e => commissionedWorkspace e.body).isSome
  require ((s.rows run).isSome ∨ opens) .unknownRun
  require (((s.rows run).map RunRow.lastSeq).getD 0 = expectedSeq) .seqMismatch
  let maxV := ((s.rows run).map RunRow.maxV).getD 0
  require (∀ e ∈ events, maxV ≤ e.v) (.versionTooOld maxV)

/-- The row of the run, or the one `commissioned` creates. -/
def openRow (s : Store) (run : RunId) (events : List Envelope) : Except StoreError RunRow :=
  match s.rows run, events with
  | some row, _ => .ok row
  | none, first :: _ => createRun first
  | none, [] => .error .unknownRun

/-- What `append` writes once the keys are new. -/
def appendWrite (s : Store) (run : RunId) (events : List Envelope) (consume : List Key)
    (cas : List Cas) : Except StoreError Store := do
  let row ← openRow s run events
  checkCommissionedPosition events row.lastSeq (s.rows run)
  let kv ← applyCasList s.kv cas
  let rows := positioned row.lastSeq events
  .ok {
    kv
    rows := setRun s.rows run (some { row with
      lastSeq := row.lastSeq + events.length
      maxV := (events.map Envelope.v).foldl max row.maxV
      finished := row.finished || events.any fun e => isFinishedBody e.body })
    events := setRun s.events run (s.events run ++ rows)
    inbox := setRun s.inbox run (deleteRows (s.inbox run) consume)
    timers := setRun s.timers run (Timers.apply (s.timers run) events) }

/-- `append`: the owner's write path. -/
def Store.append (s : Store) (run : RunId) (expectedSeq : Nat) (fence : Epoch)
    (events : List Envelope) (consume : List Key) (cas : List Cas) :
    Store × Except StoreError Unit :=
  match appendGuard s run expectedSeq fence events cas with
  | .error error => (s, .error error)
  | .ok () =>
    match duplicateOf (s.events run) events with
    | some seq =>
      -- Already in the log: the rows go with this error.
      ({ s with inbox := setRun s.inbox run (deleteRows (s.inbox run) consume) },
        .error (.duplicateKey seq))
    | none =>
      match appendWrite s run events consume cas with
      | .ok s' => (s', .ok ())
      | .error error => (s, .error error)

/-- The row an input is written beside: `commissioned` creates it, everything else needs it. -/
def enqueueRow (s : Store) (run : RunId) (event : Envelope) : Except StoreError RunRow :=
  match s.rows run, commissionedWorkspace event.body with
  | none, some workspaceId => .ok ⟨workspaceId, false, 0, 0, event.now⟩
  | none, none => .error .unknownRun
  | some _, some _ => .error .invalidEvent
  | some row, none => .ok row

/-- What `enqueue` writes for a new key. -/
def enqueueWrite (s : Store) (run : RunId) (event : Envelope) (cas : List Cas) :
    Except StoreError Store := do
  let row ← enqueueRow s run event
  let kv ← applyCasList s.kv cas
  .ok { s with
    kv
    rows := setRun s.rows run (some row)
    inbox := setRun s.inbox run (s.inbox run ++ [{ event with seq := 0 }]) }

/-- `enqueue`: anyone's write path. -/
def Store.enqueue (s : Store) (run : RunId) (event : Envelope) (cas : List Cas) :
    Store × Except StoreError Enqueued :=
  match checkCall [event] cas with
  | .error error => (s, .error error)
  | .ok () =>
    if (s.inbox run).any (fun e => e.key == event.key) ∨ (loggedSeq (s.events run) event.key).isSome
    then (s, .ok .duplicate)
    else
      match enqueueWrite s run event cas with
      | .ok s' => (s', .ok .accepted)
      | .error error => (s, .error error)

/-- `next_input`: the oldest row of the inbox. -/
def Store.nextInput (s : Store) (run : RunId) : Option Envelope := (s.inbox run).head?

/-- `load(run, 0)`. -/
def Store.load (s : Store) (run : RunId) : List Event := (s.events run).map Envelope.toEvent

end NexusFlow.Host
