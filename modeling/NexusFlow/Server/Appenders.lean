import Mathlib.Logic.Relation
import NexusFlow.Server.Rounds

/-!
# Many appenders and readers on one DynamoDB stream

Model of `crates/server/src/store_ddb.rs` with any number of callers at once, on the items of one
stream. What AWS documents is the whole of what is assumed of the table:

* Transactions run one at a time (`StreamTable.commit`), and one that names an item another is still
  writing does not go through.
* The items of a committed transaction become visible to a `Query` one by one, in any order
  (`StreamTable.reveal`). Reads see what is visible.
* A cancelled transaction reports a code for each item. The codes are arbitrary here, but for one
  thing: the op's condition is reported failed only when its number was occupied.
* A request that was sent may take effect at any later time, more than once if its conditions allow
  it, whatever its sender was told or did in the meantime.

An append runs the loop of `append_with_retry`, a read the loop of `read_since`, each `Query` at an
instant of its own.
-/

namespace NexusFlow.Server.Appenders

open NexusFlow.Lib

variable {V : Type}

/-! ## The table -/

/-- The items of a stream: as the transactions left them, as a `Query` sees them, and the keys whose
last write is not visible yet. -/
structure StreamTable where
  now : Partition
  shown : Partition
  writing : List Int

/-- A table nobody is writing to. -/
def StreamTable.still (p : Partition) : StreamTable := ⟨p, p, []⟩

/-- The keys a transaction writes. -/
def writtenKeys (tx : List TxItem) : List Int :=
  (tx.filter fun item => item.write.isSome).map TxItem.key

/-- A transaction that goes through: every condition holds, and nobody is writing an item of it. -/
def StreamTable.Admits (t : StreamTable) (tx : List TxItem) : Prop :=
  conditionsHold t.now tx = true ∧ ∀ item ∈ tx, item.key ∉ t.writing

/-- A transaction goes through. Its items are not visible yet. -/
def StreamTable.commit (t : StreamTable) (tx : List TxItem) : StreamTable :=
  { t with now := Server.commit t.now tx, writing := t.writing ++ writtenKeys tx }

/-- The last write of a key becomes visible. -/
def StreamTable.reveal (t : StreamTable) (k : Int) : StreamTable where
  now := t.now
  shown :=
    match t.now.get k with
    | some item => t.shown.insert k item
    | none => t.shown
  writing := t.writing.filter (· ≠ k)

/-! ## The callers -/

/-- A transaction of an append. -/
structure Sent (V : Type) where
  slot : Slot
  check : Predecessor
  op : WireOp V
  claimed : Bool

/-- Where an append stands. -/
inductive Phase
  | round
  | awaiting (slot : Slot) (check : Predecessor)
  | readClaim
  | findTop (slot : Slot)
  | settled (settled : Settled)
  | failed
deriving DecidableEq

/-- An append. -/
structure Appender (V : Type) where
  op : WireOp V
  loop : Loop
  phase : Phase

/-- A read: its cursor, its page, its loop, and what its queries have given it so far. -/
structure Reader (V : Type) where
  cursor : Int
  page : Nat
  reading : Reading V
  seen : List (Int × Item)

/-- A read that has returned. -/
structure ReadDone (V : Type) where
  cursor : Int
  ops : List (WireOp V)
  next : Int
  seen : List (Int × Item)

/-- The stream, the requests that were sent, the transactions that went through, in order, and the
callers. -/
structure World (V : Type) where
  table : StreamTable
  sent : List (Sent V)
  committed : List (Sent V)
  appenders : List (Appender V)
  readers : List (Reader V)
  reads : List (ReadDone V)

/-- Nobody has called yet. -/
def World.start (p : Partition) : World V := ⟨.still p, [], [], [], [], []⟩

section Steps

variable (json : ExtraJson V) (sha256 : String → Vector UInt8 32) (stream : StreamId)

/-- The items of a transaction that was sent. -/
def Sent.tx (t : Sent V) : List TxItem := appendTx json sha256 stream t.slot t.check t.op t.claimed

/-- An append after the outcome of a round. -/
def Appender.after (a : Appender V) (outcome : PutOutcome) : Appender V :=
  match a.loop.afterRound stream outcome with
  | .error _ => { a with phase := .failed }
  | .ok (.inl settled) => { a with phase := .settled settled }
  | .ok (.inr next) => ⟨a.op, next, .round⟩

/-- An append after the reasons of a cancelled transaction. -/
def Appender.afterReasons (a : Appender V) (slot : Slot) (check : Predecessor)
    (codes : List (Option String)) (counterItem : Option Item) (detail : String) : Appender V :=
  match settleReasons stream slot check a.loop.next.claimed codes counterItem detail with
  | .error _ => { a with phase := .failed }
  | .ok (.outcome outcome) => a.after stream outcome
  | .ok .readClaim => { a with phase := .readClaim }
  | .ok .findTop => { a with phase := .findTop slot }

/-- An append in the world. -/
def World.setAppender (w : World V) (i : Nat) (a : Appender V) : World V :=
  { w with appenders := w.appenders.set i a }

/-- One turn of a read: the reader goes on, has its answer, or fails. -/
def Reader.turn (r : Reader V) (response : Response) : Option (Reader V ⊕ ReadDone V) :=
  match r.reading.turn json response with
  | .error _ => none
  | .ok reading =>
    let seen := r.seen ++ response.items
    if reading.startKey.isSome ∧ reading.ops.length < r.page then
      some (.inl ⟨r.cursor, r.page, reading, seen⟩)
    else some (.inr ⟨r.cursor, reading.ops, reading.next, seen⟩)

/-- **One step of the world.** -/
inductive Step : World V → World V → Prop
  /-- A push begins, knowing nothing of the counter or carrying a number. -/
  | push (w : World V) (op : WireOp V) (start : Counter) :
    Step w { w with appenders := w.appenders ++ [⟨op, .start start, .round⟩] }
  /-- A round decides its slot and sends its transaction. -/
  | send (w : World V) (i : Nat) (a : Appender V) (slot : Slot) :
    w.appenders[i]? = some a → a.phase = .round →
    nextSlot w.table.shown a.loop.next = .ok slot →
    Step w { w.setAppender i
          { a with phase := .awaiting slot (a.loop.next.predecessorCheck slot) } with
        sent := w.sent ++
          [⟨slot, a.loop.next.predecessorCheck slot, a.op, a.loop.next.claimed⟩] }
  /-- A transaction that was sent goes through. -/
  | commit (w : World V) (t : Sent V) :
    t ∈ w.sent → w.table.Admits (t.tx json sha256 stream) →
    Step w { w with
        table := w.table.commit (t.tx json sha256 stream), committed := w.committed ++ [t] }
  /-- A write becomes visible. -/
  | reveal (w : World V) (k : Int) : k ∈ w.table.writing →
    Step w { w with table := w.table.reveal k }
  /-- The answer of a transaction that went through arrives. -/
  | answered (w : World V) (i : Nat) (a : Appender V) (slot : Slot) (check : Predecessor) :
    w.appenders[i]? = some a → a.phase = .awaiting slot check →
    ⟨slot, check, a.op, a.loop.next.claimed⟩ ∈ w.committed →
    Step w (w.setAppender i (a.after stream (.written slot.seq)))
  /-- A cancellation arrives, with any codes. -/
  | cancelled (w : World V) (i : Nat) (a : Appender V) (slot : Slot) (check : Predecessor)
      (codes : List (Option String)) (counterItem : Option Item) (detail : String) :
    w.appenders[i]? = some a → a.phase = .awaiting slot check →
    (codeAt codes (some (TxLayout.op ⟨a.loop.next.claimed, check ≠ .none⟩)) =
      some conditionalCheckFailed → (w.table.now.get slot.seq).isSome) →
    Step w (w.setAppender i (a.afterReasons stream slot check codes counterItem detail))
  /-- A taken claim is read. -/
  | claim (w : World V) (i : Nat) (a : Appender V) (found : Option (String × Int)) :
    w.appenders[i]? = some a → a.phase = .readClaim →
    readClaim w.table.shown (claimSeq sha256 a.op.opId) = .ok found →
    Step w (w.setAppender i (a.after stream (settleClaim found a.op.opId)))
  /-- The top above the counter is read. -/
  | top (w : World V) (i : Nat) (a : Appender V) (slot : Slot) :
    w.appenders[i]? = some a → a.phase = .findTop slot →
    Step w (w.setAppender i
      (a.after stream (seqTakenAt slot (readTopSeq w.table.shown slot.expected))))
  /-- An append is given up: a failed read, a time-out, the deadline. -/
  | giveUp (w : World V) (i : Nat) (a : Appender V) :
    w.appenders[i]? = some a → Step w (w.setAppender i { a with phase := .failed })
  /-- A read begins. -/
  | read (w : World V) (cursor : Int) (limit : Nat) :
    Step w { w with readers := w.readers ++ [⟨cursor, pageLimit limit, ⟨[], cursor, none⟩, []⟩] }
  /-- A read asks for more, the `Query` cut anywhere, and goes on. -/
  | query (w : World V) (i : Nat) (r next : Reader V) (cut : List (Int × Item) → Nat) :
    w.readers[i]? = some r → r.reading.ops.length < r.page →
    r.turn json (Server.query cut w.table.shown (max r.cursor 0) r.reading.startKey
      (r.page - r.reading.ops.length)) = some (.inl next) →
    Step w { w with readers := w.readers.set i next }
  /-- A read asks for more and returns. -/
  | finish (w : World V) (i : Nat) (r : Reader V) (done : ReadDone V)
      (cut : List (Int × Item) → Nat) :
    w.readers[i]? = some r → r.reading.ops.length < r.page →
    r.turn json (Server.query cut w.table.shown (max r.cursor 0) r.reading.startKey
      (r.page - r.reading.ops.length)) = some (.inr done) →
    Step w { w with reads := w.reads ++ [done] }
  /-- A read of no op returns. -/
  | full (w : World V) (i : Nat) (r : Reader V) :
    w.readers[i]? = some r → r.page ≤ r.reading.ops.length →
    Step w { w with reads := w.reads ++ [⟨r.cursor, r.reading.ops, r.reading.next, r.seen⟩] }

/-- A run of the world. -/
abbrev Runs : World V → World V → Prop := Relation.ReflTransGen (Step json sha256 stream)

end Steps

end NexusFlow.Server.Appenders
