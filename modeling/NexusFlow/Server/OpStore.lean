import Mathlib.Data.List.Induction
import Mathlib.Data.List.Sort
import NexusFlow.Lib.NumberedLog

/-!
# The relay's op store, and its two SQL backends

Model of `crates/server/src/store.rs` (`SqliteOpStore`) and `crates/server/src/store_pg.rs`
(`PostgresOpStore`), one call after another: the mutex and the advisory lock make a call one step.

* A table is the list of its rows. `INSERT OR IGNORE` looks at the two uniqueness constraints,
  `(stream_id, seq)` and `(stream_id, op_id)`; `ORDER BY seq LIMIT n` is a sort and a `take`.
* `extra`, the fields of an envelope this build does not know, is stored as one JSON text. The JSON
  library is a parameter, `encode` and `decode`.
* `RelayLog` is the log a store stands for: each stream a list of ops, each op under the next number
  from 1 (`Lib.appendOnce`).

Results: `sqlite_follows` and `postgres_follows`, each backend follows the log call by call, and so
(`Follows.answersAsLog`) answers every sequence of calls as the log does.
-/

namespace NexusFlow.Server

open NexusFlow.Lib

/-! ## The contract -/

/-- `struct WireOp`: an op as it travels. A JSON value is a `V`; a map of them is its entries. -/
structure WireOp (V : Type) where
  envelopeVersion : UInt16
  opId : String
  lamport : Int64
  site : Int64
  domain : String
  targetKind : String
  targetId : String
  field : String
  opType : String
  value : Option String
  author : String
  wallClock : String
  extra : List (String × V)
deriving DecidableEq

/-- `struct StreamId`, as its text. -/
abbrev StreamId := String

/-- `struct StoreError`, as its text. -/
abbrev StoreError := String

/-- `i64::MAX`. -/
def i64Max : Int := 2 ^ 63 - 1

/-- `MAX_PAGE`. -/
def maxPage : Nat := 10000

/-- `page_limit`. -/
def pageLimit (limit : Nat) : Nat := min limit maxPage

/-- `serde_json` on the map of an envelope's other fields. -/
structure ExtraJson (V : Type) where
  encode : List (String × V) → String
  decode : String → Except StoreError (List (String × V))

/-- A map is read back as it was written. -/
def ExtraJson.Inverse {V : Type} (json : ExtraJson V) : Prop :=
  ∀ extra, json.decode (json.encode extra) = .ok extra

/-- No envelope field this build does not know. -/
def noExtra : ExtraJson Empty where
  encode _ := "\x7b\x7d"
  decode _ := .ok []

theorem noExtra_inverse : noExtra.Inverse := by
  intro extra
  cases extra with
  | nil => rfl
  | cons e _ => exact e.2.elim

/-- An op of a task, its value the empty text. -/
def sampleOp (opId : String) : WireOp Empty where
  envelopeVersion := 1
  opId := opId
  lamport := 3
  site := 7
  domain := "task"
  targetKind := "node"
  targetId := "ab.1"
  field := "body"
  opType := "set"
  value := some ""
  author := "ada"
  wallClock := "2026-07-01T00:00:00Z"
  extra := []

/-- A call of the `OpStore` trait. -/
inductive Request (V : Type)
  | append (stream : StreamId) (op : WireOp V)
  | appendBatch (stream : StreamId) (ops : List (WireOp V))
  | readSince (stream : StreamId) (cursor : Int) (limit : Nat)

/-- What a call answers. -/
inductive Answer (V : Type)
  | cursor (seq : Int)
  | stored
  | page (ops : List (WireOp V)) (next : Int)
  | refused (error : StoreError)
deriving DecidableEq

/-- The answer of an `append`. -/
def Answer.ofSeq {V : Type} : Except StoreError Int → Answer V
  | .ok seq => .cursor seq
  | .error e => .refused e

/-- The answer of an `append_batch`. -/
def Answer.ofBatch {V : Type} : Except StoreError Unit → Answer V
  | .ok () => .stored
  | .error e => .refused e

/-- The answer of a `read_since`. -/
def Answer.ofPage {V : Type} : Except StoreError (List (WireOp V) × Int) → Answer V
  | .ok (ops, next) => .page ops next
  | .error e => .refused e

/-- The answers of a store to calls one after another. -/
def answers {V σ : Type} (call : σ → Request V → σ × Answer V) : σ → List (Request V) → List (Answer V)
  | _, [] => []
  | s, r :: rs => (call s r).2 :: answers call (call s r).1 rs

/-- The state of a store after calls one after another. -/
def stateAfter {V σ : Type} (call : σ → Request V → σ × Answer V) (s : σ) (rs : List (Request V)) :
    σ :=
  rs.foldl (fun s r => (call s r).1) s

/-- The pages of a reader that starts at 0 and follows the cursors it is given. -/
def followCursors {V σ : Type} (call : σ → Request V → σ × Answer V) (stream : StreamId) :
    σ → Int → List Nat → Option (List (WireOp V))
  | _, _, [] => some []
  | s, cursor, limit :: limits =>
    match call s (.readSince stream cursor limit) with
    | (s, .page ops next) => (followCursors call stream s next limits).map (ops ++ ·)
    | _ => none

/-- `append_batch` as the trait has it, the deadline not passing: stop at the first failure. -/
def appendEach {V σ : Type} (append : σ → WireOp V → σ × Except StoreError Int) :
    σ → List (WireOp V) → σ × Except StoreError Unit
  | s, [] => (s, .ok ())
  | s, op :: ops =>
    match append s op with
    | (s, .ok _) => appendEach append s ops
    | (s, .error e) => (s, .error e)

/-! ## The log -/

section Log

variable {V : Type}

/-- The log of each stream. -/
abbrev RelayLog (V : Type) := StreamId → List (WireOp V)

/-- A map with one value replaced. -/
def setStream {β : Type} (m : StreamId → β) (stream : StreamId) (b : β) : StreamId → β :=
  Function.update m stream b

/-- A new op gets the next number, a known one keeps the number and the content it has. -/
def RelayLog.append (log : RelayLog V) (stream : StreamId) (op : WireOp V) : RelayLog V × Int :=
  (setStream log stream (appendOnce WireOp.opId (log stream) op).1,
    (appendOnce WireOp.opId (log stream) op).2)

/-- The ops above the cursor, in order, and the number of the last one. -/
def RelayLog.readSince (log : RelayLog V) (stream : StreamId) (cursor : Int) (limit : Nat) :
    List (WireOp V) × Int :=
  let since := (max cursor 0).toNat
  let ops := page (log stream) since (pageLimit limit)
  (ops, if ops = [] then cursor else since + ops.length)

/-- One call on the log. -/
def RelayLog.call (log : RelayLog V) : Request V → RelayLog V × Answer V
  | .append stream op => ((log.append stream op).1, .cursor (log.append stream op).2)
  | .appendBatch stream ops =>
    (ops.foldl (fun log op => (log.append stream op).1) log, .stored)
  | .readSince stream cursor limit =>
    (log, .page (log.readSince stream cursor limit).1 (log.readSince stream cursor limit).2)

/-- The ops a call appends. -/
def Request.count : Request V → Nat
  | .append _ _ => 1
  | .appendBatch _ ops => ops.length
  | .readSince _ _ _ => 0

/-- There is a number for `n` more ops in every stream. -/
def RelayLog.Room (log : RelayLog V) (n : Nat) : Prop := ∀ stream, (log stream).length + n < 2 ^ 63

/-- The log with no op in any stream. -/
def RelayLog.empty : RelayLog V := fun _ => []

variable {log : RelayLog V}

theorem RelayLog.append_of_known {stream : StreamId} {op : WireOp V} {n : Nat}
    (h : position WireOp.opId (log stream) op.opId = some n) : log.append stream op = (log, (n : Int)) := by
  unfold RelayLog.append setStream
  rw [appendOnce_of_mem h, Function.update_eq_self]

theorem RelayLog.append_of_new {stream : StreamId} {op : WireOp V}
    (h : op.opId ∉ (log stream).map WireOp.opId) :
    log.append stream op =
      (setStream log stream (log stream ++ [op]), ((log stream).length : Int) + 1) := by
  unfold RelayLog.append
  rw [appendOnce_of_notMem h, Nat.cast_succ]

theorem RelayLog.exists_position {stream : StreamId} {op : WireOp V}
    (h : op.opId ∈ (log stream).map WireOp.opId) :
    ∃ n, position WireOp.opId (log stream) op.opId = some n :=
  Option.ne_none_iff_exists'.mp (position_eq_none.not.mpr (not_not.mpr h))

theorem RelayLog.append_length_le (stream : StreamId) (op : WireOp V) (other : StreamId) :
    ((log.append stream op).1 other).length ≤ (log other).length + 1 := by
  simp only [RelayLog.append, setStream]
  by_cases hother : other = stream
  · subst hother
    rw [Function.update_self]
    unfold appendOnce
    split
    · exact Nat.le_succ _
    · rw [List.length_append, List.length_singleton]
  · rw [Function.update_of_ne hother]
    exact Nat.le_succ _

theorem RelayLog.Room.length_le {n : Nat} (h : log.Room n) (stream : StreamId) :
    ((log stream).length : Int) + n ≤ i64Max := by
  have := h stream
  unfold i64Max
  omega

/-- The bound of the numbers is not reached. -/
theorem RelayLog.Room.seq_le (h : log.Room 1) (stream : StreamId) :
    ¬ i64Max < ((log stream).length : Int) + 1 :=
  not_lt.mpr (h.length_le stream)

theorem RelayLog.room_empty {n : Nat} (h : n < 2 ^ 63) : (RelayLog.empty : RelayLog V).Room n := by
  intro stream
  rw [show (RelayLog.empty : RelayLog V) stream = [] from rfl, List.length_nil, Nat.zero_add]
  exact h

theorem RelayLog.Room.append {n : Nat} (h : log.Room (n + 1)) (stream : StreamId) (op : WireOp V) :
    (log.append stream op).1.Room n := by
  intro other
  have hle := log.append_length_le stream op other
  have := h other
  omega

theorem RelayLog.Room.mono {n m : Nat} (h : log.Room n) (hm : m ≤ n) : log.Room m :=
  fun stream => by
    have := h stream
    omega

theorem RelayLog.Room.call {n : Nat} : ∀ {r : Request V}, log.Room (r.count + n) →
    (log.call r).1.Room n
  | .append stream op, h => RelayLog.Room.append (Nat.add_comm 1 n ▸ h) stream op
  | .appendBatch stream ops, h => by
    simp only [Request.count] at h
    simp only [RelayLog.call]
    induction ops generalizing log with
    | nil => exact h.mono (Nat.le_add_left _ _)
    | cons op ops ih =>
      refine ih (RelayLog.Room.append (h.mono ?_) stream op)
      simp only [List.length_cons]
      omega
  | .readSince _ _ _, h => h.mono (Nat.le_add_left _ _)

/-- **A store whose every call follows the log**, for the calls that are allowed. -/
structure Follows {σ : Type} (call : σ → Request V → σ × Answer V) (Held : σ → RelayLog V → Prop)
    (Allowed : Request V → Prop) : Prop where
  step : ∀ s log r, Allowed r → Held s log → log.Room r.count →
    (call s r).2 = (log.call r).2 ∧ Held (call s r).1 (log.call r).1
  reads : ∀ stream cursor limit, Allowed (.readSince stream cursor limit)

section

variable {σ : Type} {call : σ → Request V → σ × Answer V} {Held : σ → RelayLog V → Prop}
  {Allowed : Request V → Prop} (h : Follows call Held Allowed)
include h

/-- It answers every sequence of calls as the log, and holds the log after them. -/
theorem Follows.run (rs : List (Request V)) : (∀ r ∈ rs, Allowed r) → ∀ {s : σ} {log : RelayLog V},
    Held s log → log.Room (rs.map Request.count).sum →
    answers call s rs = answers RelayLog.call log rs ∧
      Held (stateAfter call s rs) (stateAfter RelayLog.call log rs) := by
  induction rs with
  | nil => exact fun _ _ _ hs _ => ⟨rfl, hs⟩
  | cons r rs ih =>
    intro hallowed s log hs hroom
    rw [List.map_cons, List.sum_cons] at hroom
    obtain ⟨hanswer, hnext⟩ := h.step s log r (hallowed r List.mem_cons_self) hs
      (hroom.mono (Nat.le_add_right _ _))
    obtain ⟨hrest, hheld⟩ :=
      ih (fun r hr => hallowed r (List.mem_cons_of_mem _ hr)) hnext hroom.call
    refine ⟨?_, hheld⟩
    rw [answers, answers, hanswer, hrest]

/-- A reader of it is given what a reader of the log is given. -/
theorem Follows.followCursors_eq (stream : StreamId) (limits : List Nat) : ∀ {s : σ}
    {log : RelayLog V} (cursor : Int), Held s log → log.Room 0 →
    followCursors call stream s cursor limits = followCursors RelayLog.call stream log cursor limits := by
  induction limits with
  | nil => exact fun _ _ _ => rfl
  | cons limit limits ih =>
    intro s log cursor hs hroom
    obtain ⟨hanswer, hnext⟩ := h.step s log _ (h.reads stream cursor limit) hs hroom
    unfold followCursors
    rw [show call s (.readSince stream cursor limit) = ((call s (.readSince stream cursor limit)).1,
      (RelayLog.call log (.readSince stream cursor limit)).2) from Prod.ext rfl hanswer]
    simp only [RelayLog.call] at hnext ⊢
    rw [ih _ hnext hroom]

end

/-- Following the cursors of the log reads on in order. -/
theorem followCursors_log (stream : StreamId) (limits : List Nat) : ∀ (since : Nat) (cursor : Int),
    (max cursor 0).toNat = since → followCursors RelayLog.call stream log cursor limits
      = some (follow (log stream) since (limits.map pageLimit)) := by
  induction limits with
  | nil => exact fun _ _ _ => rfl
  | cons limit limits ih =>
    rintro since cursor rfl
    unfold followCursors
    simp only [RelayLog.call, RelayLog.readSince, List.map_cons, follow]
    by_cases hnil : page (log stream) (max cursor 0).toNat (pageLimit limit) = []
    · rw [if_pos hnil, ih _ cursor rfl, hnil]
      rfl
    · rw [if_neg hnil, ih ((max cursor 0).toNat +
        (page (log stream) (max cursor 0).toNat (pageLimit limit)).length) _ (by omega)]
      rfl

/-- What a store says of a sequence of calls: its answers are the log's, and a reader that follows
the cursors from 0, any positive limits given, reads the log of a stream to its end. -/
def AnswersAsLog {σ : Type} (call : σ → Request V → σ × Answer V) (s : σ)
    (rs : List (Request V)) : Prop :=
  answers call s rs = answers RelayLog.call RelayLog.empty rs ∧
  ∀ stream limits, (∀ limit ∈ limits, 0 < limit) →
    (stateAfter RelayLog.call RelayLog.empty rs stream).length ≤ limits.length →
    followCursors call stream (stateAfter call s rs) 0 limits
      = some (stateAfter RelayLog.call RelayLog.empty rs stream)

/-- Positive limits leave no item out, once there are as many as items. -/
theorem length_le_sum_pageLimit {limits : List Nat} (h : ∀ limit ∈ limits, 0 < limit) :
    limits.length ≤ (limits.map pageLimit).sum := by
  induction limits with
  | nil => exact le_refl _
  | cons limit limits ih =>
    have hrest := ih fun l hl => h l (List.mem_cons_of_mem _ hl)
    have hpos : 1 ≤ pageLimit limit := le_min (h limit List.mem_cons_self) (by decide)
    rw [List.map_cons, List.sum_cons, List.length_cons]
    omega

theorem RelayLog.Room.stateAfter (rs : List (Request V)) : ∀ {log : RelayLog V},
    log.Room (rs.map Request.count).sum → (Server.stateAfter RelayLog.call log rs).Room 0 := by
  induction rs with
  | nil => exact fun h => h
  | cons r rs ih =>
    intro log h
    rw [List.map_cons, List.sum_cons] at h
    exact ih h.call

/-- **A store that follows the log says what the log says.** -/
theorem Follows.answersAsLog {σ : Type} {call : σ → Request V → σ × Answer V}
    {Held : σ → RelayLog V → Prop} {Allowed : Request V → Prop} (h : Follows call Held Allowed)
    {s : σ} (hs : Held s RelayLog.empty) {rs : List (Request V)} (hallowed : ∀ r ∈ rs, Allowed r)
    (hroom : (rs.map Request.count).sum < 2 ^ 63) : AnswersAsLog call s rs := by
  have hroom' := RelayLog.room_empty (V := V) hroom
  obtain ⟨hanswers, hheld⟩ := h.run rs hallowed hs hroom'
  refine ⟨hanswers, fun stream limits hpos hlen => ?_⟩
  rw [h.followCursors_eq stream limits 0 hheld (RelayLog.Room.stateAfter rs hroom'),
    followCursors_log stream limits 0 0 rfl, follow_eq, List.drop_zero,
    List.take_of_length_le (hlen.trans (length_le_sum_pageLimit hpos))]

/-- A batch of appends that follow the log follows it. -/
theorem appendEach_follows {σ : Type} {stream : StreamId}
    {append : σ → WireOp V → σ × Except StoreError Int} (Held : σ → RelayLog V → Prop)
    (happend : ∀ s log op, Held s log → log.Room 1 →
      (append s op).2 = .ok (log.append stream op).2 ∧
        Held (append s op).1 (log.append stream op).1)
    (ops : List (WireOp V)) : ∀ {s : σ} {log : RelayLog V}, Held s log → log.Room ops.length →
      (appendEach append s ops).2 = .ok () ∧
        Held (appendEach append s ops).1 (ops.foldl (fun log op => (log.append stream op).1) log) := by
  induction ops with
  | nil => exact fun hs _ => ⟨rfl, hs⟩
  | cons op ops ih =>
    intro s log hs hroom
    obtain ⟨hseq, hnext⟩ := happend s log op hs (hroom.mono (by simp))
    have heach : appendEach append s (op :: ops) = appendEach append (append s op).1 ops := by
      rw [appendEach]
      split
      · rename_i heq
        rw [heq]
      · rename_i heq
        rw [heq] at hseq
        cases hseq
    rw [heach, List.foldl_cons]
    exact ih hnext (RelayLog.Room.append hroom stream op)

end Log

/-! ## The table -/

/-- One row of `stream_ops`. -/
structure Row where
  streamId : StreamId
  seq : Int
  envelopeVersion : Int
  opId : String
  lamport : Int64
  site : Int64
  domain : String
  targetKind : String
  targetId : String
  field : String
  opType : String
  value : Option String
  author : String
  wallClock : String
  extra : String
deriving DecidableEq

/-- The rows of `stream_ops`. -/
abbrev Table := List Row

section Sql

variable {V : Type} (json : ExtraJson V)

/-- The row an op is stored as. The version is a `u16` on the wire and an `INTEGER` in the table. -/
def Row.ofOp (stream : StreamId) (seq : Int) (op : WireOp V) : Row where
  streamId := stream
  seq := seq
  envelopeVersion := op.envelopeVersion.toNat
  opId := op.opId
  lamport := op.lamport
  site := op.site
  domain := op.domain
  targetKind := op.targetKind
  targetId := op.targetId
  field := op.field
  opType := op.opType
  value := op.value
  author := op.author
  wallClock := op.wallClock
  extra := json.encode op.extra

/-- The op of a row, its version and its other fields read back. -/
def Row.toOp (row : Row) (version : UInt16) (extra : List (String × V)) : WireOp V where
  envelopeVersion := version
  opId := row.opId
  lamport := row.lamport
  site := row.site
  domain := row.domain
  targetKind := row.targetKind
  targetId := row.targetId
  field := row.field
  opType := row.opType
  value := row.value
  author := row.author
  wallClock := row.wallClock
  extra := extra

/-- `SELECT COALESCE(MAX(seq), 0) + 1 FROM stream_ops WHERE stream_id = ?1`. -/
def Table.nextSeq (t : Table) (stream : StreamId) : Int :=
  ((t.filter fun r => r.streamId = stream).map Row.seq).max?.getD 0 + 1

/-- `SELECT seq FROM stream_ops WHERE stream_id = ?1 AND op_id = ?2`. -/
def Table.seqOf (t : Table) (stream : StreamId) (opId : String) : Option Int :=
  ((t.filter fun r => r.streamId = stream).find? fun r => r.opId = opId).map Row.seq

/-- `WHERE stream_id = ?1 AND seq > ?2 ORDER BY seq LIMIT ?3`. -/
def Table.select (t : Table) (stream : StreamId) (since : Int) (limit : Nat) : List Row :=
  (((t.filter fun r => r.streamId = stream).filter fun r => since < r.seq).insertionSort
    fun a b => a.seq ≤ b.seq).take limit

/-- The cursor after some rows: the last one's number, or the cursor unchanged. -/
def nextCursor (cursor : Int) (rows : List Row) : Int := (rows.getLast?.map Row.seq).getD cursor

/-! ### SQLite -/

/-- `SqliteOpStore::append`. -/
def SqliteOpStore.append (t : Table) (stream : StreamId) (op : WireOp V) :
    Table × Except StoreError Int :=
  let seq := t.nextSeq stream
  if i64Max < seq then
    (t, .error "Invalid column type Real at index: 0, name: COALESCE(MAX(seq), 0) + 1")
  else if (t.filter fun r => r.streamId = stream).any
      (fun r => r.seq = seq || r.opId = op.opId) then
    -- Ignored by a constraint: the op's existing cursor.
    match t.seqOf stream op.opId with
    | some existing => (t, .ok existing)
    | none => (t, .error "Query returned no rows")
  else (t ++ [Row.ofOp json stream seq op], .ok seq)

/-- A row as `SqliteOpStore::read_since` reads it back: the version has to fit a `u16`. -/
def SqliteOpStore.readRow (row : Row) : Except StoreError (WireOp V) :=
  if 0 ≤ row.envelopeVersion ∧ row.envelopeVersion < 65536 then
    match json.decode row.extra with
    | .ok extra => .ok (row.toOp (.ofNat row.envelopeVersion.toNat) extra)
    | .error e => .error e
  else .error s!"Integer {row.envelopeVersion} out of range at index 1"

/-- `SqliteOpStore::read_since`. -/
def SqliteOpStore.readSince (t : Table) (stream : StreamId) (cursor : Int) (limit : Nat) :
    Except StoreError (List (WireOp V) × Int) :=
  let rows := t.select stream (max cursor 0) (pageLimit limit)
  (rows.mapM (SqliteOpStore.readRow json)).map fun ops => (ops, nextCursor cursor rows)

/-- One call on SQLite. -/
def SqliteOpStore.call (t : Table) : Request V → Table × Answer V
  | .append stream op =>
    let (t, answer) := SqliteOpStore.append json t stream op
    (t, .ofSeq answer)
  | .appendBatch stream ops =>
    let (t, answer) := appendEach (fun t op => SqliteOpStore.append json t stream op) t ops
    (t, .ofBatch answer)
  | .readSince stream cursor limit =>
    (t, .ofPage (SqliteOpStore.readSince json t stream cursor limit))

/-! ### Postgres -/

/-- `PostgresOpStore::append_blocking`: the known op is looked up first, under the lock. -/
def PostgresOpStore.append (t : Table) (stream : StreamId) (op : WireOp V) :
    Table × Except StoreError Int :=
  match t.seqOf stream op.opId with
  | some existing => (t, .ok existing)
  | none =>
    let seq := t.nextSeq stream
    if i64Max < seq then (t, .error "db error: ERROR: bigint out of range")
    else if (t.filter fun r => r.streamId = stream).any
        (fun r => r.seq = seq || r.opId = op.opId) then
      (t, .error "db error: ERROR: duplicate key value violates unique constraint")
    else (t ++ [Row.ofOp json stream seq op], .ok seq)

/-- A row as `read_since_blocking` reads it back: the version is cut to a `u16`. -/
def PostgresOpStore.readRow (row : Row) : Except StoreError (WireOp V) :=
  match json.decode row.extra with
  | .ok extra => .ok (row.toOp (.ofNat (row.envelopeVersion % 65536).toNat) extra)
  | .error e => .error e

/-- `PostgresOpStore::read_since_blocking`. -/
def PostgresOpStore.readSince (t : Table) (stream : StreamId) (cursor : Int) (limit : Nat) :
    Except StoreError (List (WireOp V) × Int) :=
  let rows := t.select stream (max cursor 0) (pageLimit limit)
  (rows.mapM (PostgresOpStore.readRow json)).map fun ops => (ops, nextCursor cursor rows)

/-- One call on Postgres. -/
def PostgresOpStore.call (t : Table) : Request V → Table × Answer V
  | .append stream op =>
    let (t, answer) := PostgresOpStore.append json t stream op
    (t, .ofSeq answer)
  | .appendBatch stream ops =>
    let (t, answer) := appendEach (fun t op => PostgresOpStore.append json t stream op) t ops
    (t, .ofBatch answer)
  | .readSince stream cursor limit =>
    (t, .ofPage (PostgresOpStore.readSince json t stream cursor limit))

end Sql

/-! ## What a table holds -/

section Holds

variable {V : Type} {json : ExtraJson V}

/-- **A table stands for a log**: the rows of a stream are its ops, numbered from 1. -/
def Table.Holds (json : ExtraJson V) (t : Table) (log : RelayLog V) : Prop :=
  ∀ stream, t.filter (fun r => r.streamId = stream) = numbered (Row.ofOp json stream) (log stream)

theorem seq_le_of_mem_rows {stream : StreamId} {ops : List (WireOp V)} {row : Row}
    (h : row ∈ numbered (Row.ofOp json stream) ops) : row.seq ≤ ops.length := by
  obtain ⟨i, op, hop, rfl⟩ := mem_numbered.mp h
  have hlt : i < ops.length := (List.getElem?_eq_some_iff.mp hop).1
  simp only [Row.ofOp]
  omega

/-- The numbers of a stream rise. -/
theorem rows_sorted (stream : StreamId) (ops : List (WireOp V)) :
    (numbered (Row.ofOp json stream) ops).Pairwise fun a b => a.seq < b.seq :=
  pairwise_numbered (fun _ _ _ _ hlt => by simpa only [Row.ofOp] using hlt) ops

theorem max_rows (stream : StreamId) (ops : List (WireOp V)) :
    ((numbered (Row.ofOp json stream) ops).map Row.seq).max?.getD 0 = ops.length := by
  cases ops using List.reverseRecOn with
  | nil => rfl
  | append_singleton ops op =>
    have hmax : ((numbered (Row.ofOp json stream) (ops ++ [op])).map Row.seq).max? = some ((ops.length : Int) + 1) := by
      rw [List.max?_eq_some_iff]
      constructor
      · rw [numbered_snoc, List.map_append]
        exact List.mem_append_right _ (List.mem_singleton_self _)
      · intro seq hseq
        obtain ⟨row, hrow, rfl⟩ := List.mem_map.mp hseq
        have := seq_le_of_mem_rows hrow
        simpa using this
    rw [hmax]
    simp

/-- The rows above a number are those after that many. -/
theorem filter_rows (stream : StreamId) (ops : List (WireOp V)) (since : Int)
    (hsince : 0 ≤ since) :
    (numbered (Row.ofOp json stream) ops).filter (fun r => since < r.seq)
      = (numbered (Row.ofOp json stream) ops).drop since.toNat := by
  induction ops using List.reverseRecOn with
  | nil => simp [numbered]
  | append_singleton ops op ih =>
    rw [numbered_snoc, List.filter_append, ih, List.drop_append, length_numbered]
    congr 1
    by_cases hlt : since < (ops.length : Int) + 1
    · have hzero : since.toNat - ops.length = 0 := by omega
      simp [Row.ofOp, hlt, hzero]
    · have hone : since.toNat - ops.length = (since.toNat - ops.length - 1) + 1 := by omega
      rw [hone]
      simp [Row.ofOp, hlt]

theorem mapM_rows {readRow : Row → Except StoreError (WireOp V)} {stream : StreamId}
    (hread : ∀ stream seq op, readRow (Row.ofOp json stream seq op) = .ok op)
    (ops : List (WireOp V)) (n k : Nat) :
    (((numbered (Row.ofOp json stream) ops).drop n).take k).mapM readRow = .ok (page ops n k) := by
  have hall : ∀ es : List (WireOp V × Nat),
      (es.map fun e => Row.ofOp json stream (e.2 + 1) e.1).mapM readRow = .ok (es.map Prod.fst) := by
    intro es
    induction es with
    | nil => rfl
    | cons e es ih =>
      rw [List.map_cons, List.mapM_cons, hread, ih]
      rfl
  unfold numbered page
  rw [← List.map_drop, ← List.map_take, hall, List.map_take, List.map_drop, List.zipIdx_map_fst]

theorem nextCursor_rows (stream : StreamId) (ops : List (WireOp V)) (cursor : Int) (n k : Nat) :
    nextCursor cursor (((numbered (Row.ofOp json stream) ops).drop n).take k)
      = if page ops n k = [] then cursor else (n : Int) + (page ops n k).length := by
  have hlen : (((numbered (Row.ofOp json stream) ops).drop n).take k).length = (page ops n k).length := by
    rw [page, List.length_take, List.length_take, List.length_drop, List.length_drop, length_numbered]
  unfold nextCursor
  split_ifs with hnil
  · rw [hnil, List.length_nil, List.length_eq_zero_iff] at hlen
    rw [hlen]
    rfl
  · have hpos : 0 < (page ops n k).length := List.length_pos_of_ne_nil hnil
    have hbound := page_length ops n k
    rw [List.getLast?_eq_getElem?, hlen, List.getElem?_take_of_lt (by omega), List.getElem?_drop,
      getElem?_numbered, List.getElem?_eq_getElem (by omega), Option.map_some, Option.map_some,
      Option.getD_some]
    simp only [Row.ofOp]
    omega

section

variable {t : Table} {log : RelayLog V} (h : t.Holds json log)
include h

theorem Table.Holds.nextSeq (stream : StreamId) :
    t.nextSeq stream = (log stream).length + 1 := by
  unfold Table.nextSeq
  rw [h stream, max_rows]

theorem Table.Holds.seqOf (stream : StreamId) (opId : String) :
    t.seqOf stream opId = (position WireOp.opId (log stream) opId).map Nat.cast := by
  unfold Table.seqOf position
  rw [h stream]
  unfold numbered
  rw [List.find?_map, Option.map_map, List.findIdx?_eq_fst_find?_zipIdx, Option.map_map,
    Option.map_map]
  rfl

/-- A new number is free, so a constraint refuses a known op id only. -/
theorem Table.Holds.refuses (stream : StreamId) (opId : String) :
    ((t.filter fun r => r.streamId = stream).any
      fun r => decide (r.seq = (log stream).length + 1) || decide (r.opId = opId))
      = decide (opId ∈ (log stream).map WireOp.opId) := by
  rw [h stream, Bool.eq_iff_iff, List.any_eq_true, decide_eq_true_iff, List.mem_map]
  constructor
  · rintro ⟨row, hrow, hor⟩
    have hle := seq_le_of_mem_rows hrow
    obtain ⟨i, op, hop, rfl⟩ := mem_numbered.mp hrow
    rw [Bool.or_eq_true, decide_eq_true_iff, decide_eq_true_iff] at hor
    rcases hor with hseq | hid
    · omega
    · exact ⟨op, List.mem_of_getElem? hop, hid⟩
  · rintro ⟨op, hop, rfl⟩
    obtain ⟨i, hi⟩ := List.mem_iff_getElem?.mp hop
    refine ⟨Row.ofOp json stream (i + 1) op, List.mem_of_getElem? (i := i) ?_, ?_⟩
    · rw [getElem?_numbered, hi]
      rfl
    · simp [Row.ofOp]

theorem Table.Holds.snoc (stream : StreamId) (op : WireOp V) :
    Table.Holds json (t ++ [Row.ofOp json stream ((log stream).length + 1) op])
      (setStream log stream (log stream ++ [op])) := by
  intro other
  unfold setStream
  rw [List.filter_append, h other]
  by_cases hother : other = stream
  · subst hother
    rw [Function.update_self, numbered_snoc]
    simp [Row.ofOp]
  · rw [Function.update_of_ne hother]
    simp [Row.ofOp, Ne.symm hother]

theorem Table.Holds.select (stream : StreamId) (since : Int) (hsince : 0 ≤ since) (limit : Nat) :
    t.select stream since limit =
      ((numbered (Row.ofOp json stream) (log stream)).drop since.toNat).take limit := by
  have hfilter : (numbered (Row.ofOp json stream) (log stream)).filter (fun r => since < r.seq)
      = (numbered (Row.ofOp json stream) (log stream)).drop since.toNat :=
    filter_rows stream (log stream) since hsince
  have hsorted : ((numbered (Row.ofOp json stream) (log stream)).drop since.toNat).Pairwise
      fun a b => a.seq ≤ b.seq :=
    ((rows_sorted stream (log stream)).imp fun hlt => le_of_lt hlt).drop
  unfold Table.select
  rw [h stream, hfilter, hsorted.insertionSort_eq]

/-- What a backend reads of a page, when it reads each row back as the op that was stored. -/
theorem Table.Holds.readSince {readRow : Row → Except StoreError (WireOp V)}
    (hread : ∀ stream seq op, readRow (Row.ofOp json stream seq op) = .ok op)
    (stream : StreamId) (cursor : Int) (limit : Nat) :
    ((t.select stream (max cursor 0) (pageLimit limit)).mapM readRow).map
        (fun ops => (ops, nextCursor cursor (t.select stream (max cursor 0) (pageLimit limit))))
      = .ok (log.readSince stream cursor limit) := by
  rw [h.select stream _ (le_max_right _ _), mapM_rows hread, nextCursor_rows]
  rfl

theorem SqliteOpStore.append_follows (hroom : log.Room 1) (stream : StreamId) (op : WireOp V) :
    (SqliteOpStore.append json t stream op).2 = .ok (log.append stream op).2 ∧
      (SqliteOpStore.append json t stream op).1.Holds json (log.append stream op).1 := by
  unfold SqliteOpStore.append
  rw [h.nextSeq, if_neg (hroom.seq_le stream), h.refuses]
  by_cases hknown : op.opId ∈ (log stream).map WireOp.opId
  · obtain ⟨n, hn⟩ := RelayLog.exists_position hknown
    rw [RelayLog.append_of_known hn, if_pos (decide_eq_true hknown), h.seqOf, hn]
    exact ⟨rfl, h⟩
  · rw [RelayLog.append_of_new hknown, if_neg (by simpa using hknown)]
    exact ⟨rfl, h.snoc stream op⟩

theorem PostgresOpStore.append_follows (hroom : log.Room 1) (stream : StreamId) (op : WireOp V) :
    (PostgresOpStore.append json t stream op).2 = .ok (log.append stream op).2 ∧
      (PostgresOpStore.append json t stream op).1.Holds json (log.append stream op).1 := by
  unfold PostgresOpStore.append
  rw [h.seqOf]
  by_cases hknown : op.opId ∈ (log stream).map WireOp.opId
  · obtain ⟨n, hn⟩ := RelayLog.exists_position hknown
    rw [RelayLog.append_of_known hn, hn]
    exact ⟨rfl, h⟩
  · rw [RelayLog.append_of_new hknown, position_eq_none.mpr hknown, Option.map_none, h.nextSeq,
      if_neg (hroom.seq_le stream), h.refuses, if_neg (by simpa using hknown)]
    exact ⟨rfl, h.snoc stream op⟩

end

theorem SqliteOpStore.readRow_ofOp (hjson : json.Inverse) (stream : StreamId) (seq : Int)
    (op : WireOp V) : SqliteOpStore.readRow json (Row.ofOp json stream seq op) = .ok op := by
  have hlt : (op.envelopeVersion.toNat : Int) < 65536 := by
    exact_mod_cast op.envelopeVersion.toNat_lt
  unfold SqliteOpStore.readRow
  rw [if_pos ⟨Int.natCast_nonneg _, hlt⟩]
  simp only [Row.ofOp, hjson op.extra]
  simp [Row.toOp]

theorem PostgresOpStore.readRow_ofOp (hjson : json.Inverse) (stream : StreamId) (seq : Int)
    (op : WireOp V) : PostgresOpStore.readRow json (Row.ofOp json stream seq op) = .ok op := by
  have hlt : (op.envelopeVersion.toNat : Int) < 65536 := by
    exact_mod_cast op.envelopeVersion.toNat_lt
  unfold PostgresOpStore.readRow
  simp only [Row.ofOp, hjson op.extra]
  rw [Int.emod_eq_of_lt (Int.natCast_nonneg _) hlt]
  simp [Row.toOp]

theorem Table.holds_nil : Table.Holds json [] RelayLog.empty := fun _ => rfl

/-- **SQLite follows the log.** -/
theorem sqlite_follows (hjson : json.Inverse) :
    Follows (SqliteOpStore.call json) (Table.Holds json) fun _ => True where
  reads _ _ _ := trivial
  step t log r _ h hroom := by
    cases r with
    | append stream op =>
      obtain ⟨hseq, hnext⟩ := SqliteOpStore.append_follows h hroom stream op
      exact ⟨congrArg Answer.ofSeq hseq, hnext⟩
    | appendBatch stream ops =>
      obtain ⟨hok, hnext⟩ := appendEach_follows (Table.Holds json)
        (fun _ _ op hs hroom => SqliteOpStore.append_follows hs hroom stream op) ops h hroom
      exact ⟨congrArg Answer.ofBatch hok, hnext⟩
    | readSince stream cursor limit =>
      have hpage := h.readSince (SqliteOpStore.readRow_ofOp hjson) stream cursor limit
      exact ⟨congrArg Answer.ofPage hpage, h⟩

/-- **Postgres follows the log.** -/
theorem postgres_follows (hjson : json.Inverse) :
    Follows (PostgresOpStore.call json) (Table.Holds json) fun _ => True where
  reads _ _ _ := trivial
  step t log r _ h hroom := by
    cases r with
    | append stream op =>
      obtain ⟨hseq, hnext⟩ := PostgresOpStore.append_follows h hroom stream op
      exact ⟨congrArg Answer.ofSeq hseq, hnext⟩
    | appendBatch stream ops =>
      obtain ⟨hok, hnext⟩ := appendEach_follows (Table.Holds json)
        (fun _ _ op hs hroom => PostgresOpStore.append_follows hs hroom stream op) ops h hroom
      exact ⟨congrArg Answer.ofBatch hok, hnext⟩
    | readSince stream cursor limit =>
      have hpage := h.readSince (PostgresOpStore.readRow_ofOp hjson) stream cursor limit
      exact ⟨congrArg Answer.ofPage hpage, h⟩

end Holds

end NexusFlow.Server
