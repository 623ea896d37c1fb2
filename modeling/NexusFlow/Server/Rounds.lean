import Mathlib.Data.List.Induction
import NexusFlow.Lib.KeyMap
import NexusFlow.Server.OpStore

/-!
# The rounds of a DynamoDB append

Model of `crates/server/src/store_ddb.rs`, the part that one append and one read are made of: the
items of the op table, the transaction of a round, what a cancelled one means, the turn of the retry
loop, and the turn of the paging loop. How the rounds of one or of many callers follow each other is
left to the modules above.

* The items of one stream are a map by `seq`: the counter at 0, the ops above, the claims below.
* A transaction is its list of items, each with its condition and what it writes. It commits when
  every condition holds (`transact`).
* SHA-256 is a parameter: the digest of an op id's bytes, 32 bytes.
* A `Query` reads in key order and stops at its limit or after 1 MB; how many items 1 MB holds is a
  parameter `cut` (one item always fits).

Results: an op is read back from its item as it was written (`itemToWire_opItem`), a claim key is
negative (`claimSeq_neg`), and every turn of the retry loop that goes on has used up some of its
budget (`afterRound_lt`).
-/

namespace NexusFlow.Server

open NexusFlow.Lib

/-! ## Items -/

/-- `AttributeValue`: a text, or a number (the whole number its digits stand for). -/
inductive AttributeValue
  | s (text : String)
  | n (number : Int)
deriving DecidableEq

/-- The attributes of an item. -/
abbrev Item := List (String × AttributeValue)

/-- `item.get(key)`. -/
def Item.get (item : Item) (key : String) : Option AttributeValue := item.lookup key

/-- `SET key = value`. -/
def Item.set (item : Item) (key : String) (value : AttributeValue) : Item :=
  if (item.get key).isSome then item.map fun e => if e.1 = key then (key, value) else e
  else item ++ [(key, value)]

theorem Item.get_set (item : Item) (key : String) (value : AttributeValue) :
    (item.set key value).get key = some value := by
  unfold Item.set Item.get
  split_ifs with h
  · induction item with
    | nil => cases h
    | cons e item ih =>
      rw [List.map_cons]
      by_cases he : e.1 = key
      · rw [if_pos he, List.lookup_cons_self]
      · rw [if_neg he, List.lookup_cons, beq_eq_false_iff_ne.mpr (Ne.symm he)]
        rw [List.lookup_cons, beq_eq_false_iff_ne.mpr (Ne.symm he)] at h
        exact ih h
  · rw [Option.not_isSome_iff_eq_none] at h
    rw [List.lookup_append, h]
    simp

/-- An integer type a number is parsed into, and what its parser says of a number below it. -/
structure IntType where
  min : Int
  max : Int
  tooSmall : String

/-- `u16`: a sign is no digit. -/
def u16 : IntType := ⟨0, 65535, "invalid digit found in string"⟩

/-- `i64`. -/
def i64 : IntType := ⟨-2 ^ 63, i64Max, "number too small to fit in target type"⟩

/-- `parse_n`. -/
def parseN (type : IntType) (item : Item) (key : String) : Except StoreError Int :=
  match item.get key with
  | none => .error s!"item missing required attribute \"{key}\""
  | some (.s _) => .error s!"attribute \"{key}\" is not a DynamoDB number"
  | some (.n number) =>
    if number < type.min then
      .error s!"attribute \"{key}\" is not a valid number: {type.tooSmall}"
    else if type.max < number then
      .error s!"attribute \"{key}\" is not a valid number: number too large to fit in target type"
    else .ok number

/-- `parse_s`. -/
def parseS (item : Item) (key : String) : Except StoreError String :=
  match item.get key with
  | none => .error s!"item missing required attribute \"{key}\""
  | some (.n _) => .error s!"attribute \"{key}\" is not a DynamoDB string"
  | some (.s text) => .ok text

/-- `COUNTER_SEQ`. -/
def counterSeq : Int := 0

section

variable {V : Type} (json : ExtraJson V) (sha256 : String → Vector UInt8 32)

/-- `u64::from_be_bytes`. -/
def fromBeBytes (head : List UInt8) : Nat := head.foldl (fun n byte => n * 256 + byte.toNat) 0

/-- `claim_seq`: the first 63 bits of the digest, negated and moved down by one. -/
def claimSeq (opId : String) : Int :=
  -((fromBeBytes ((sha256 opId).toList.take 8) >>> 1 : Nat) : Int) - 1

/-- `op_item`: `value` and `extra` are left out when there is nothing in them. -/
def opItem (stream : StreamId) (seq : Int) (op : WireOp V) : Item :=
  [("stream_id", .s stream), ("seq", .n seq), ("envelope_version", .n op.envelopeVersion.toNat),
    ("op_id", .s op.opId), ("lamport", .n op.lamport.toInt), ("site", .n op.site.toInt),
    ("domain", .s op.domain), ("target_kind", .s op.targetKind), ("target_id", .s op.targetId),
    ("field", .s op.field), ("op_type", .s op.opType)]
    ++ (op.value.map fun v => ("value", AttributeValue.s v)).toList
    ++ [("author", .s op.author), ("wall_clock", .s op.wallClock)]
    ++ if op.extra.isEmpty then [] else [("extra", .s (json.encode op.extra))]

/-- The claim of an op: for whom, and where that op is. -/
def claimItem (stream : StreamId) (claim : Int) (opId : String) (seq : Int) : Item :=
  [("stream_id", .s stream), ("seq", .n claim), ("op_id", .s opId), ("op_seq", .n seq)]

/-- `item_to_wire`. -/
def itemToWire (item : Item) : Except StoreError (WireOp V) := do
  let version ← parseN u16 item "envelope_version"
  let opId ← parseS item "op_id"
  let lamport ← parseN i64 item "lamport"
  let site ← parseN i64 item "site"
  let domain ← parseS item "domain"
  let targetKind ← parseS item "target_kind"
  let targetId ← parseS item "target_id"
  let field ← parseS item "field"
  let opType ← parseS item "op_type"
  -- Presence, not emptiness, decides: `Some("")` is a value.
  let value ← match item.get "value" with
    | some (.s v) => pure (some v)
    | some (.n _) => throw "attribute \"value\" is not a DynamoDB string"
    | none => pure none
  let author ← parseS item "author"
  let wallClock ← parseS item "wall_clock"
  let extra ← match item.get "extra" with
    | some (.s text) => json.decode text
    | some (.n _) => throw "attribute \"extra\" is not a DynamoDB string"
    | none => pure []
  return { envelopeVersion := .ofNat version.toNat, opId, lamport := .ofInt lamport
           site := .ofInt site, domain, targetKind, targetId, field, opType, value, author
           wallClock, extra }

end

/-- `counter_value`: 0 when the item or the attribute is absent. -/
def counterValue : Option Item → Except StoreError Int
  | some item => if (item.get "next_seq").isSome then parseN i64 item "next_seq" else .ok 0
  | none => .ok 0

/-- `counter_hint`. -/
def counterHint : Option Item → Except StoreError (Option Int)
  | some item => (counterValue (some item)).map some
  | none => .ok none

/-- The SHA-256 digests of two op ids. -/
def sampleDigest (opId : String) : Vector UInt8 32 :=
  if opId = "01A" then #v[248, 254, 199, 165, 102, 70, 224, 144, 4, 110, 161, 181, 139, 209, 142,
    223, 237, 7, 78, 192, 23, 9, 84, 82, 216, 207, 239, 243, 180, 113, 64, 232]
  else if opId = "01B" then #v[61, 251, 209, 228, 10, 80, 51, 237, 109, 189, 119, 147, 156, 109, 196,
    160, 98, 152, 130, 223, 182, 181, 60, 43, 145, 126, 68, 59, 6, 120, 86, 173]
  else Vector.replicate 32 0

section Items

variable {V : Type} {json : ExtraJson V} {sha256 : String → Vector UInt8 32}

theorem parseN_eq {type : IntType} {item : Item} {key : String} {number : Int}
    (h : item.get key = some (.n number)) (hmin : type.min ≤ number) (hmax : number ≤ type.max) :
    parseN type item key = .ok number := by
  unfold parseN
  rw [h]
  simp only
  rw [if_neg (not_lt.mpr hmin), if_neg (not_lt.mpr hmax)]

theorem parseN_i64 {item : Item} {key : String} {number : Int64}
    (h : item.get key = some (.n number.toInt)) : parseN i64 item key = .ok number.toInt := by
  refine parseN_eq h number.le_toInt ?_
  have := number.toInt_lt
  simp only [i64, i64Max]
  omega

theorem parseN_u16 {item : Item} {key : String} {number : UInt16}
    (h : item.get key = some (.n number.toNat)) : parseN u16 item key = .ok (number.toNat : Int) := by
  refine parseN_eq h (Int.natCast_nonneg _) ?_
  have := number.toNat_lt
  simp only [u16]
  omega

/-- **An op is read back from its item as it was written**, `None` and `Some("")` apart. -/
theorem itemToWire_opItem (hjson : json.Inverse) (stream : StreamId) (seq : Int) (op : WireOp V) :
    itemToWire json (opItem json stream seq op) = .ok op := by
  obtain ⟨version, opId, lamport, site, domain, targetKind, targetId, field, opType, value, author,
    wallClock, extra⟩ := op
  unfold itemToWire
  -- The four shapes of an item: with and without `value`, with and without `extra`.
  cases value <;> cases extra <;>
    rw [parseN_u16 rfl, parseN_i64 rfl, parseN_i64 rfl] <;>
    simp [parseS, opItem, Item.get, List.lookup_cons, hjson _, bind, Except.bind, pure, Except.pure]

/-- An item says which op it is of. -/
theorem opId_of_opItem_eq {stream : StreamId} {seq seq' : Int} {op op' : WireOp V}
    (h : opItem json stream seq op = opItem json stream seq' op') : op.opId = op'.opId := by
  have hget := congrArg (Item.get · "op_id") h
  simpa [opItem, Item.get, List.lookup_cons] using hget

theorem parseN_opItem {stream : StreamId} {seq : Int} {op : WireOp V} (hmin : 0 ≤ seq)
    (hmax : seq ≤ i64Max) : parseN i64 (opItem json stream seq op) "seq" = .ok seq :=
  parseN_eq rfl (by simp only [i64]; omega) hmax

variable (sha256) in
theorem claimSeq_neg (opId : String) : claimSeq sha256 opId < 0 := by
  unfold claimSeq
  omega

theorem fromBeBytes_lt (head : List UInt8) : fromBeBytes head < 256 ^ head.length := by
  unfold fromBeBytes
  induction head using List.reverseRecOn with
  | nil => exact Nat.one_pos
  | append_singleton head byte ih =>
    have := byte.toNat_lt
    rw [List.foldl_append, List.length_append, List.length_singleton, pow_succ]
    simp only [List.foldl_cons, List.foldl_nil]
    omega

variable (sha256) in
theorem le_claimSeq (opId : String) : -2 ^ 63 ≤ claimSeq sha256 opId := by
  have hlt := fromBeBytes_lt ((sha256 opId).toList.take 8)
  rw [List.length_take, Vector.length_toList, show min 8 32 = 8 from rfl] at hlt
  unfold claimSeq
  rw [Nat.shiftRight_eq_div_pow]
  omega

end Items

/-! ## A round -/

/-- `struct Slot`: the counter a round expects and the number it takes. -/
structure Slot where
  expected : Int
  seq : Int
deriving DecidableEq

/-- `Slot::after`. -/
def Slot.after (counter floor : Int) : Except StoreError Slot :=
  if i64Max ≤ max counter floor then
    .error (s!"append: the next seq would pass i64::MAX (counter {counter}, highest occupied seq "
      ++ s!"{floor})")
  else .ok ⟨counter, max counter floor + 1⟩

/-- `Slot::predecessor`. -/
def Slot.predecessor (slot : Slot) : Option Int :=
  if 1 < slot.seq then some (slot.seq - 1) else none

/-- `enum Counter`: where a round's counter value comes from. -/
inductive Counter
  | unknown
  | hint (c : Int)
  | known (c : Int)
  | carried (c : Int)
deriving DecidableEq

/-- `enum Predecessor`: how a round checks the op below its number. -/
inductive Predecessor
  | none
  | present
  | absent
deriving DecidableEq

/-- `struct Round`: what a round starts from. -/
structure Round where
  counter : Counter
  floor : Int
  claimed : Bool
  gap : Option Int
deriving DecidableEq

/-- `Round::first`. -/
def Round.first (counter : Counter) : Round := ⟨counter, 0, true, none⟩

/-- `Round::predecessor_check`. -/
def Round.predecessorCheck (round : Round) (slot : Slot) : Predecessor :=
  match slot.predecessor with
  | Option.none => .none
  | some _ => if round.gap = some slot.seq then .absent else .present

/-- `enum PutOutcome`: how a round ended. -/
inductive PutOutcome
  | written (seq : Int)
  | existing (seq : Int)
  | lost (seen : Option Int)
  | seqTaken (counter top : Int)
  | predecessor (counter seq : Int) (absent : Bool)
  | throttled
  | claimForeign
  | claimVanished
deriving DecidableEq

/-- `enum Settled`: how an append settled. -/
inductive Settled
  | written (seq : Int)
  | existing (seq : Int)
deriving DecidableEq

/-- `Settled::seq`. -/
def Settled.seq : Settled → Int
  | .written seq => seq
  | .existing seq => seq

/-- The `Debug` of a stalled outcome. -/
def PutOutcome.debug : PutOutcome → String
  | .written seq => s!"Written({seq})"
  | .existing seq => s!"Existing({seq})"
  | .lost none => "Lost(None)"
  | .lost (some c) => s!"Lost(Some({c}))"
  | .seqTaken counter top => s!"SeqTaken \x7b counter: {counter}, top: {top} \x7d"
  | .predecessor counter seq absent =>
    s!"Predecessor \x7b counter: {counter}, seq: {seq}, absent: {absent} \x7d"
  | .throttled => "Throttled"
  | .claimForeign => "ClaimForeign"
  | .claimVanished => "ClaimVanished"

/-! ## The retry loop -/

/-- `APPEND_ATTEMPTS`. -/
def appendAttempts : Nat := 32

/-- `CONTENTION_ROUNDS`. -/
def contentionRounds : Nat := 256

/-- The variables of the loop of `append_with_retry`. -/
structure Loop where
  next : Round
  stalls : Nat
  lost : Nat
deriving DecidableEq

/-- The loop before its first round. -/
def Loop.start (counter : Counter) : Loop := ⟨.first counter, 0, 0⟩

/-- What the next round starts from after a stalled one. -/
def Round.stalled (round : Round) : PutOutcome → Round
  | .seqTaken counter top =>
    { round with counter := .known counter, floor := max round.floor top, gap := none }
  | .predecessor counter seq absent =>
    { round with counter := .known counter, gap := if absent then some seq else none }
  | .claimForeign => { round with counter := .unknown, claimed := false, gap := none }
  | _ => { round with counter := .unknown, gap := none }

/-- The loop after a stalled round. -/
def Loop.afterStall (stream : StreamId) (loop : Loop) (stalled : PutOutcome) :
    Except StoreError (Settled ⊕ Loop) :=
  if appendAttempts ≤ loop.stalls + 1 then
    .error (s!"append: exhausted {appendAttempts} attempts writing an op to stream \"{stream}\" "
      ++ s!"without a successful conditional write (last: {stalled.debug})")
  else .ok (.inr ⟨loop.next.stalled stalled, loop.stalls + 1, 0⟩)

/-- One turn of the loop of `append_with_retry`, its round done and its deadline not passed. -/
def Loop.afterRound (stream : StreamId) (loop : Loop) :
    PutOutcome → Except StoreError (Settled ⊕ Loop)
  | .written seq => .ok (.inl (.written seq))
  | .existing seq => .ok (.inl (.existing seq))
  | .lost seen =>
    if contentionRounds ≤ loop.lost + 1 then
      .error (s!"append: lost {contentionRounds} rounds in a row to concurrent appends of stream "
        ++ s!"\"{stream}\"; the stream is under more write contention than one append waits out, "
        ++ "retry the push")
    else
      .ok (.inr { loop with
        next := { loop.next with counter := seen.elim .unknown .hint, gap := none }
        lost := loop.lost + 1 })
  | stalled => loop.afterStall stream stalled

/-- **Every turn that goes on has used up budget**: one more stall, or one more loss in a row. -/
theorem Loop.afterRound_lt {stream : StreamId} {loop next : Loop} {outcome : PutOutcome}
    (h : loop.afterRound stream outcome = .ok (.inr next)) :
    (next.stalls = loop.stalls ∧ next.lost = loop.lost + 1 ∧ next.lost < contentionRounds) ∨
      (next.stalls = loop.stalls + 1 ∧ next.stalls < appendAttempts) := by
  have hstall : ∀ stalled, loop.afterStall stream stalled = .ok (.inr next) →
      next.stalls = loop.stalls + 1 ∧ next.stalls < appendAttempts := by
    intro stalled h
    unfold Loop.afterStall at h
    split_ifs at h with hle
    cases h
    exact ⟨rfl, Nat.lt_of_not_le hle⟩
  cases outcome with
  | written seq => cases h
  | existing seq => cases h
  | lost seen =>
    simp only [Loop.afterRound] at h
    split_ifs at h with hle
    cases h
    exact .inl ⟨rfl, rfl, Nat.lt_of_not_le hle⟩
  | seqTaken counter top => exact .inr (hstall _ h)
  | predecessor counter seq absent => exact .inr (hstall _ h)
  | throttled => exact .inr (hstall _ h)
  | claimForeign => exact .inr (hstall _ h)
  | claimVanished => exact .inr (hstall _ h)

/-! ## The transaction -/

/-- The items of one stream, by `seq`. -/
abbrev Partition := KeyMap Int Item

/-- One item of a `TransactWriteItems`: its key, its condition on the item there, and what it writes
over it (nothing for a `ConditionCheck`). -/
structure TxItem where
  key : Int
  condition : Option Item → Bool
  write : Option (Option Item → Item)

/-- `attribute_not_exists(stream_id)`: no item at this key. -/
def attributeNotExists (old : Option Item) : Bool := old.isNone

/-- `attribute_exists(stream_id)`. -/
def attributeExists (old : Option Item) : Bool := old.isSome

/-- The condition of `counter_update`. -/
def counterStandsAt (expected : Int) (old : Option Item) : Bool :=
  (expected = 0 && (old.bind (Item.get · "next_seq")).isNone)
    || old.bind (Item.get · "next_seq") = some (.n expected)

/-- `counter_update`: move `next_seq` to the slot's number. -/
def counterUpdate (stream : StreamId) (slot : Slot) : TxItem where
  key := counterSeq
  condition := counterStandsAt slot.expected
  write := some fun old =>
    (old.getD [("stream_id", .s stream), ("seq", .n counterSeq)]).set "next_seq" (.n slot.seq)

/-- A `Put` on a free key. -/
def putNew (key : Int) (item : Item) : TxItem where
  key := key
  condition := attributeNotExists
  write := some fun _ => item

/-- `predecessor_check`. -/
def predecessorCheck (below : Int) (check : Predecessor) : TxItem where
  key := below
  condition := if check = .absent then attributeNotExists else attributeExists
  write := none

/-- The predecessor check of a slot, when it has one. -/
def checkItems (slot : Slot) (check : Predecessor) : List TxItem :=
  if check = .none then []
  else (slot.predecessor.map fun below => predecessorCheck below check).toList

/-- The transaction of `try_append_op`, laid out as `TxLayout` says. -/
def appendTx {V : Type} (json : ExtraJson V) (sha256 : String → Vector UInt8 32)
    (stream : StreamId) (slot : Slot) (check : Predecessor) (op : WireOp V) (claimed : Bool) :
    List TxItem :=
  [counterUpdate stream slot]
    ++ (if claimed then
        [putNew (claimSeq sha256 op.opId)
          (claimItem stream (claimSeq sha256 op.opId) op.opId slot.seq)] else [])
    ++ checkItems slot check
    ++ [putNew slot.seq (opItem json stream slot.seq op)]

/-- The condition of every item holds. -/
def conditionsHold (p : Partition) (tx : List TxItem) : Bool :=
  tx.all fun item => item.condition (p.get item.key)

/-- What an item writes. -/
def TxItem.apply (p : Partition) (item : TxItem) : Partition :=
  match item.write with
  | some write => p.insert item.key (write (p.get item.key))
  | none => p

/-- Every item of a transaction written. -/
def commit (p : Partition) (tx : List TxItem) : Partition := tx.foldl TxItem.apply p

/-- A check writes nothing. -/
theorem commit_checkItems (p : Partition) (slot : Slot) (check : Predecessor) :
    commit p (checkItems slot check) = p := by
  unfold commit checkItems
  split_ifs
  · rfl
  · cases slot.predecessor <;> rfl

/-- What stands where once an append has committed. -/
theorem get_commit_appendTx {V : Type} {json : ExtraJson V} {sha256 : String → Vector UInt8 32}
    (p : Partition) (stream : StreamId) (slot : Slot) (check : Predecessor) (op : WireOp V)
    (claimed : Bool) (k : Int) :
    (commit p (appendTx json sha256 stream slot check op claimed)).get k =
      if k = slot.seq then some (opItem json stream slot.seq op)
      else if k = claimSeq sha256 op.opId ∧ claimed = true then
        some (claimItem stream (claimSeq sha256 op.opId) op.opId slot.seq)
      else if k = counterSeq then some (((p.get counterSeq).getD
        [("stream_id", .s stream), ("seq", .n counterSeq)]).set "next_seq" (.n slot.seq))
      else p.get k := by
  have hcheck := fun p => commit_checkItems p slot check
  unfold commit at hcheck ⊢
  unfold appendTx
  rw [List.foldl_append, List.foldl_append, List.foldl_append, hcheck]
  cases claimed <;> simp [TxItem.apply, counterUpdate, putNew, KeyMap.get_insert]

/-- What an append that goes through has found. -/
theorem conditionsHold_appendTx {V : Type} {json : ExtraJson V}
    {sha256 : String → Vector UInt8 32} {p : Partition} {stream : StreamId} {slot : Slot}
    {check : Predecessor} {op : WireOp V} {claimed : Bool}
    (h : conditionsHold p (appendTx json sha256 stream slot check op claimed) = true) :
    counterStandsAt slot.expected (p.get counterSeq) = true ∧
      (claimed = true → p.get (claimSeq sha256 op.opId) = none) ∧ p.get slot.seq = none := by
  unfold conditionsHold appendTx at h
  rw [List.all_append, List.all_append, List.all_append, Bool.and_eq_true, Bool.and_eq_true,
    Bool.and_eq_true] at h
  obtain ⟨⟨⟨hcounter, hclaim⟩, -⟩, hop⟩ := h
  refine ⟨by simpa [counterUpdate] using hcounter, fun hc => ?_, ?_⟩
  · simpa [hc, putNew, attributeNotExists] using hclaim
  · simpa [putNew, attributeNotExists] using hop

/-- The code of a failed condition. -/
def conditionalCheckFailed : String := "ConditionalCheckFailed"

/-- `struct TxLayout`. -/
structure TxLayout where
  claimed : Bool
  checked : Bool

/-- `TxLayout::claim`. -/
def TxLayout.claim (layout : TxLayout) : Option Nat := if layout.claimed then some 1 else none

/-- `TxLayout::predecessor`. -/
def TxLayout.predecessor (layout : TxLayout) : Option Nat :=
  if layout.checked then some (1 + layout.claimed.toNat) else none

/-- `TxLayout::op`. -/
def TxLayout.op (layout : TxLayout) : Nat := 1 + layout.claimed.toNat + layout.checked.toNat

/-! ## A cancelled transaction -/

/-- `enum AppendCancellation`. -/
inductive AppendCancellation
  | claimed
  | counterMoved
  | seqTaken
  | predecessorFailed
  | conflict
  | throttled
deriving DecidableEq

/-- `is_retryable_code`. -/
def isRetryableCode (code : Option String) : Bool :=
  code ∈ [some "TransactionConflict", some "ThrottlingError", some "ProvisionedThroughputExceeded"]

/-- The code at an index of a layout. -/
def codeAt (codes : List (Option String)) (index : Option Nat) : Option String :=
  index.bind fun i => codes[i]?.join

/-- The `Debug` of a code. -/
def debugCode : Option String → String
  | some code => s!"Some(\"{code}\")"
  | none => "None"

/-- `classify_append_cancellation`. -/
def classifyAppendCancellation (layout : TxLayout) (codes : List (Option String)) :
    Except String AppendCancellation :=
  let counter := codeAt codes (some 0)
  let claim := codeAt codes layout.claim
  let predecessor := codeAt codes layout.predecessor
  let op := codeAt codes (some layout.op)
  if claim = some conditionalCheckFailed then .ok .claimed
  else if counter = some conditionalCheckFailed then .ok .counterMoved
  else if op = some conditionalCheckFailed then .ok .seqTaken
  else if predecessor = some conditionalCheckFailed then .ok .predecessorFailed
  else if some "TransactionConflict" ∈ [counter, claim, predecessor, op] then .ok .conflict
  else if [counter, claim, predecessor, op].any isRetryableCode then .ok .throttled
  else .error ("append transaction cancelled for a reason other than a moved counter, a taken "
    ++ s!"claim or seq, or a predecessor check (counter item code: {debugCode counter}, claim item "
    ++ s!"code: {debugCode claim}, predecessor check code: {debugCode predecessor}, op item code: "
    ++ s!"{debugCode op})")

/-- `enum Settle`: an outcome, or one more read first. -/
inductive Settle
  | outcome (outcome : PutOutcome)
  | readClaim
  | findTop
deriving DecidableEq

/-- `settle_cancellation`. -/
def settleCancellation (cancellation : AppendCancellation) (slot : Slot) (check : Predecessor)
    (hint : Option Int) : Settle :=
  match cancellation with
  | .claimed => .readClaim
  | .seqTaken => .findTop
  | .counterMoved => .outcome (.lost hint)
  | .predecessorFailed => .outcome (.predecessor slot.expected slot.seq (check = .present))
  | .conflict => .outcome (.lost none)
  | .throttled => .outcome .throttled

/-- `settle_claim`. -/
def settleClaim (found : Option (String × Int)) (opId : String) : PutOutcome :=
  match found with
  | some (claimedFor, stored) => if claimedFor = opId then .existing stored else .claimForeign
  | none => .claimVanished

/-- What a cancelled transaction asks for, its reasons given. `detail` is the service's own
sentences. -/
def settleReasons (stream : StreamId) (slot : Slot) (check : Predecessor) (claimed : Bool)
    (codes : List (Option String)) (counterItem : Option Item) (detail : String) :
    Except StoreError Settle :=
  match classifyAppendCancellation ⟨claimed, check ≠ .none⟩ codes with
  | .error msg => .error s!"append: {msg}: {detail} (stream \"{stream}\")"
  | .ok cancellation =>
    (counterHint counterItem).map (settleCancellation cancellation slot check)

/-! ## The reads -/

/-- `read_counter`. -/
def readCounter (p : Partition) : Except StoreError Int := counterValue (p.get counterSeq)

/-- `read_claim`. -/
def readClaim (p : Partition) (claim : Int) : Except StoreError (Option (String × Int)) :=
  match p.get claim with
  | some item => do
    let opId ← parseS item "op_id"
    let seq ← parseN i64 item "op_seq"
    return some (opId, seq)
  | none => .ok none

/-- The counter value a round starts from, the counter item read where it is not known. -/
def expectedCounter (p : Partition) : Counter → Except StoreError Int
  | .unknown => readCounter p
  | .hint c => .ok c
  | .known c => .ok c
  | .carried c => .ok c

/-- The slot of a round of `append_one`. -/
def nextSlot (p : Partition) (round : Round) : Except StoreError Slot :=
  match expectedCounter p round.counter with
  | .error e => .error e
  | .ok counter => Slot.after counter round.floor

/-- The items above a key, in key order. -/
def itemsAbove (p : Partition) (key : Int) : List (Int × Item) :=
  (p.entries.filter fun e => key < e.1).insertionSort fun a b => a.1 ≤ b.1

theorem mem_itemsAbove {p : Partition} {key k : Int} {item : Item} :
    (k, item) ∈ itemsAbove p key ↔ key < k ∧ p.get k = some item := by
  unfold itemsAbove
  rw [List.mem_insertionSort, List.mem_filter, KeyMap.mem_entries_iff, decide_eq_true_iff, and_comm]

/-- In key order, no key twice. -/
theorem itemsAbove_sorted (p : Partition) (key : Int) :
    (itemsAbove p key).Pairwise fun a b => a.1 < b.1 := by
  have : Std.Total fun a b : Int × Item => a.1 ≤ b.1 := ⟨fun a b => le_total _ _⟩
  have : IsTrans (Int × Item) fun a b => a.1 ≤ b.1 := ⟨fun _ _ _ => le_trans⟩
  have hle : (itemsAbove p key).Pairwise fun a b => a.1 ≤ b.1 := List.pairwise_insertionSort _ _
  have hne : (itemsAbove p key).Pairwise fun a b => a.1 ≠ b.1 := by
    have hkeys : ((p.entries.filter fun e => decide (key < e.1)).map Prod.fst).Nodup :=
      p.nodup.sublist (List.filter_sublist.map _)
    have hsort : ((itemsAbove p key).map Prod.fst).Nodup :=
      ((List.perm_insertionSort _ _).map _).nodup_iff.mpr hkeys
    exact List.pairwise_map.mp hsort
  exact (hle.and hne).imp fun h => lt_of_le_of_ne h.1 h.2

theorem itemsAbove_eq {p : Partition} {key : Int} {l : List (Int × Item)}
    (hsorted : l.Pairwise fun a b => a.1 < b.1)
    (hmem : ∀ k item, (k, item) ∈ l ↔ key < k ∧ p.get k = some item) : itemsAbove p key = l := by
  have hnodup : ∀ {l : List (Int × Item)}, (l.Pairwise fun a b => a.1 < b.1) → l.Nodup :=
    fun h => h.imp fun hlt heq => (heq ▸ hlt).ne rfl
  have hperm : (itemsAbove p key).Perm l := by
    refine (List.perm_ext_iff_of_nodup (hnodup (itemsAbove_sorted p key)) (hnodup hsorted)).mpr ?_
    rintro ⟨k, item⟩
    rw [hmem, mem_itemsAbove]
  exact hperm.eq_of_pairwise (fun a b _ _ hlt hgt => absurd hlt hgt.asymm)
    (itemsAbove_sorted p key) hsorted

/-- `read_top_seq`: the highest key above the counter. The `seq` of an item is its key. -/
def readTopSeq (p : Partition) (counter : Int) : Option Int :=
  (itemsAbove p counter).getLast?.map Prod.fst

/-- What a taken number becomes once the top was read. -/
def seqTakenAt (slot : Slot) (top : Option Int) : PutOutcome :=
  .seqTaken slot.expected (max (top.getD slot.seq) slot.seq)

/-- The answer to one `Query` of `read_since`: the items, and the key to go on after. -/
structure Response where
  items : List (Int × Item)
  lastEvaluatedKey : Option Int

/-- One `Query`: the items above both keys, cut at the limit and at 1 MB. The last key is there when
the `Query` stopped early, and also when it stopped at its last item. -/
def query (cut : List (Int × Item) → Nat) (p : Partition) (since : Int) (start : Option Int)
    (limit : Nat) : Response :=
  let found := itemsAbove p (max since (start.getD since))
  let evaluated := min limit (1 + cut found)
  { items := found.take evaluated
    lastEvaluatedKey :=
      if evaluated ≤ found.length then (found.take evaluated).getLast?.map Prod.fst else none }

/-- What a `Query` gives: some of the items above, the first ones, and the key of the last of them
when there may be more. It gives one at least, if there is one. -/
theorem query_spec (cut : List (Int × Item) → Nat) (p : Partition) (since : Int)
    (start : Option Int) {limit : Nat} (hlimit : 0 < limit) :
    ∃ e, 0 < e ∧ (query cut p since start limit).items
        = (itemsAbove p (max since (start.getD since))).take e ∧
      ∀ key, (query cut p since start limit).lastEvaluatedKey = some key →
        ∃ item, (query cut p since start limit).items.getLast? = some (key, item) := by
  refine ⟨min limit (1 + cut (itemsAbove p (max since (start.getD since)))), by omega, rfl, ?_⟩
  intro key hkey
  unfold query at hkey ⊢
  dsimp only at hkey ⊢
  split_ifs at hkey
  obtain ⟨⟨k, item⟩, hlast, rfl⟩ := Option.map_eq_some_iff.mp hkey
  exact ⟨item, hlast⟩

/-- The variables of the loop of `read_since`. -/
structure Reading (V : Type) where
  ops : List (WireOp V)
  next : Int
  startKey : Option Int

/-- One item of a page. -/
def Reading.push {V : Type} (json : ExtraJson V) (reading : Reading V) (item : Item) :
    Except StoreError (Reading V) := do
  let seq ← parseN i64 item "seq"
  let op ← itemToWire json item
  return { reading with ops := reading.ops ++ [op], next := seq }

/-- One turn of the loop of `read_since`: what the `Query` gave, and the key to go on after. -/
def Reading.turn {V : Type} (json : ExtraJson V) (reading : Reading V) (response : Response) :
    Except StoreError (Reading V) := do
  let reading ← (response.items.map Prod.snd).foldlM (Reading.push json) reading
  return { reading with startKey := response.lastEvaluatedKey }

end NexusFlow.Server
