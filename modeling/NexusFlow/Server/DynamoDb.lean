import NexusFlow.Server.Rounds

/-!
# The DynamoDB op store, one call after another

Model of `crates/server/src/store_ddb.rs` (`DynamoDbOpStore`) when no other caller is under way: a
transaction commits at once or is cancelled by its own conditions, its items are visible at once,
and no deadline passes.

Results: what one append does to the items of a stream, by what stands at the op's claim key
(`append_of_free`, `append_of_own`, `append_of_foreign`), and what a read answers
(`readSince_of_holds`).
-/

namespace NexusFlow.Server

open NexusFlow.Lib

namespace DynamoDbOpStore

/-! ## The store -/

section Store

variable {V : Type} (json : ExtraJson V) (sha256 : String → Vector UInt8 32)
  (cut : List (Int × Item) → Nat)

/-- The reasons of a cancelled transaction: a code for each failed condition. -/
def reasons (p : Partition) (tx : List TxItem) : List (Option String) :=
  tx.map fun item => if item.condition (p.get item.key) then none else some conditionalCheckFailed

/-- `try_append_op`. -/
def tryAppendOp (p : Partition) (stream : StreamId) (slot : Slot) (check : Predecessor)
    (op : WireOp V) (claimed : Bool) : Partition × Except StoreError PutOutcome :=
  let tx := appendTx json sha256 stream slot check op claimed
  if conditionsHold p tx then (commit p tx, .ok (.written slot.seq))
  else
    -- The counter as it was found comes back with its failed condition only.
    let counterItem := if counterStandsAt slot.expected (p.get counterSeq) then none
      else p.get counterSeq
    (p, do
      match ← settleReasons stream slot check claimed (reasons p tx) counterItem "" with
      | .outcome outcome => return outcome
      | .readClaim => return settleClaim (← readClaim p (claimSeq sha256 op.opId)) op.opId
      | .findTop => return seqTakenAt slot (readTopSeq p slot.expected))

/-- One round of `append_one`. -/
def appendRound (stream : StreamId) (op : WireOp V) (p : Partition) (round : Round) :
    Partition × Except StoreError PutOutcome :=
  match nextSlot p round with
  | .error e => (p, .error e)
  | .ok slot =>
    tryAppendOp json sha256 p stream slot (round.predecessorCheck slot) op round.claimed

/-- `append_with_retry`. -/
def appendWithRetry {σ : Type} (stream : StreamId)
    (round : σ → Round → σ × Except StoreError PutOutcome) (loop : Loop) (s : σ) :
    σ × Except StoreError Settled :=
  match round s loop.next with
  | (s, .error e) => (s, .error e)
  | (s, .ok outcome) =>
    match _h : loop.afterRound stream outcome with
    | .error e => (s, .error e)
    | .ok (.inl settled) => (s, .ok settled)
    | .ok (.inr next) => appendWithRetry stream round next s
termination_by (appendAttempts - loop.stalls, contentionRounds - loop.lost)
decreasing_by
  rcases Loop.afterRound_lt _h with ⟨hstalls, hlost, hlt⟩ | ⟨hstalls, hlt⟩
  · rw [hstalls]
    exact .right _ (by omega)
  · exact .left _ _ (by omega)

/-- `append_one`. -/
def appendOne (p : Partition) (stream : StreamId) (op : WireOp V) (start : Counter) :
    Partition × Except StoreError Settled :=
  appendWithRetry stream (appendRound json sha256 stream op) (.start start) p

/-- `DynamoDbOpStore::append`. -/
def append (p : Partition) (stream : StreamId) (op : WireOp V) :
    Partition × Except StoreError Int :=
  let (p, settled) := appendOne json sha256 p stream op .unknown
  (p, settled.map Settled.seq)

/-- The counter the next op of a push expects: the number this one took. An op that was there says
nothing new about it. -/
def carry (start : Counter) : Settled → Counter
  | .written seq => .carried seq
  | .existing _ => start

/-- `DynamoDbOpStore::append_batch`. -/
def appendBatch (stream : StreamId) :
    Partition → Counter → List (WireOp V) → Partition × Except StoreError Unit
  | p, _, [] => (p, .ok ())
  | p, start, op :: ops =>
    match appendOne json sha256 p stream op start with
    | (p, .ok settled) => appendBatch stream p (carry start settled) ops
    | (p, .error e) => (p, .error e)

/-- The loop of `read_since`, a bound on its turns given. -/
def readPages (p : Partition) (since : Int) (page : Nat) :
    Nat → Reading V → Except StoreError (List (WireOp V) × Int)
  | 0, reading => .ok (reading.ops, reading.next)
  | turns + 1, reading =>
    if reading.ops.length < page then do
      let response := query cut p since reading.startKey (page - reading.ops.length)
      let reading ← reading.turn json response
      if reading.startKey.isSome then readPages p since page turns reading
      else return (reading.ops, reading.next)
    else return (reading.ops, reading.next)

/-- `DynamoDbOpStore::read_since`: a turn that goes on has read an item, so there are no more turns
than items on a page. -/
def readSince (p : Partition) (cursor : Int) (limit : Nat) :
    Except StoreError (List (WireOp V) × Int) :=
  readPages json cut p (max cursor 0) (pageLimit limit) (pageLimit limit) ⟨[], cursor, none⟩

/-- One call on DynamoDB. -/
def call (table : StreamId → Partition) : Request V → (StreamId → Partition) × Answer V
  | .append stream op =>
    let (p, answer) := append json sha256 (table stream) stream op
    (setStream table stream p, .ofSeq answer)
  | .appendBatch stream ops =>
    let (p, answer) := appendBatch json sha256 stream (table stream) .unknown ops
    (setStream table stream p, .ofBatch answer)
  | .readSince stream cursor limit =>
    (table, .ofPage (readSince json cut (table stream) cursor limit))

end Store

/-! ## What the items of a stream hold -/

section Holds

variable {V : Type} {json : ExtraJson V} {sha256 : String → Vector UInt8 32}
  {cut : List (Int × Item) → Nat}

/-- The counter item. -/
def counterItem (stream : StreamId) (c : Int) : Item :=
  [("stream_id", .s stream), ("seq", .n counterSeq), ("next_seq", .n c)]

/-- **The items of a stream with these ops**: the counter at their number, each op at its own, and
no claim but of an op that is stored where it says. -/
structure Holds (json : ExtraJson V) (sha256 : String → Vector UInt8 32) (stream : StreamId)
    (p : Partition) (ops : List (WireOp V)) : Prop where
  counter : p.get 0 = if ops = [] then none else some (counterItem stream ops.length)
  op : ∀ i : Nat, p.get (i + 1) = ops[i]?.map fun op => opItem json stream (i + 1) op
  claim : ∀ k < 0, ∀ item, p.get k = some item → ∃ (i : Nat) (op : WireOp V), ops[i]? = some op ∧
    claimSeq sha256 op.opId = k ∧ item = claimItem stream k op.opId (i + 1)

theorem holds_empty (stream : StreamId) : Holds json sha256 stream KeyMap.empty [] where
  counter := rfl
  op _ := rfl
  claim _ _ _ h := by cases h

theorem counterValue_counterItem {stream : StreamId} {c : Int} (hmin : 0 ≤ c) (hmax : c ≤ i64Max) :
    counterValue (some (counterItem stream c)) = .ok c := by
  have hget : (counterItem stream c).get "next_seq" = some (.n c) := by
    simp [counterItem, Item.get, List.lookup_cons]
  simp only [counterValue, hget, Option.isSome_some, if_true]
  refine parseN_eq hget ?_ hmax
  simp only [i64]
  omega

/-- A start that knows the counter, or knows nothing of it. -/
def Knows (start : Counter) (c : Int) : Prop := start = .unknown ∨ start = .carried c

/-- The slot after `n` ops. -/
def slotAfter (n : Nat) : Slot := ⟨n, n + 1⟩

/-- The check of the slot after `n` ops. -/
def checkAfter (n : Nat) : Predecessor := if n = 0 then .none else .present

/-- A round that does not step over a gap. -/
def plainRound (counter : Counter) (claimed : Bool) : Round := ⟨counter, 0, claimed, none⟩

theorem slot_after {n : Nat} (hroom : (n : Int) < i64Max) : Slot.after n 0 = .ok (slotAfter n) := by
  have hmax : max (n : Int) 0 = n := max_eq_left (Int.natCast_nonneg _)
  unfold Slot.after slotAfter
  rw [hmax, if_neg (not_le.mpr hroom)]

theorem plainRound_check (counter : Counter) (claimed : Bool) (n : Nat) :
    (plainRound counter claimed).predecessorCheck (slotAfter n) = checkAfter n := by
  by_cases hn : n = 0
  · subst hn
    rfl
  · have hpos : 0 < n := Nat.pos_of_ne_zero hn
    simp [plainRound, Round.predecessorCheck, Slot.predecessor, slotAfter, checkAfter, hn, hpos]

/-- What the round after `n` ops sends. -/
def nextTx (json : ExtraJson V) (sha256 : String → Vector UInt8 32) (stream : StreamId) (n : Nat)
    (op : WireOp V) (claimed : Bool) : List TxItem :=
  appendTx json sha256 stream (slotAfter n) (checkAfter n) op claimed

/-- The predecessor is checked unless it is the first number. -/
theorem nextTx_eq (stream : StreamId) (n : Nat) (op : WireOp V) (claimed : Bool) :
    nextTx json sha256 stream n op claimed =
      [counterUpdate stream (slotAfter n)]
        ++ (if claimed then [putNew (claimSeq sha256 op.opId)
            (claimItem stream (claimSeq sha256 op.opId) op.opId (n + 1))] else [])
        ++ (if n = 0 then [] else [predecessorCheck n .present])
        ++ [putNew (n + 1) (opItem json stream (n + 1) op)] := by
  by_cases hn : n = 0
  · subst hn
    rfl
  · have hpos : 0 < n := Nat.pos_of_ne_zero hn
    simp [nextTx, appendTx, checkItems, checkAfter, Slot.predecessor, slotAfter, hn, hpos]

section

variable {stream : StreamId} {p : Partition} {ops : List (WireOp V)}
  (h : Holds json sha256 stream p ops)
include h

theorem Holds.counter_stands : counterStandsAt ops.length (p.get counterSeq) = true := by
  unfold counterStandsAt counterSeq
  rw [h.counter]
  by_cases hnil : ops = []
  · simp [hnil]
  · simp [hnil, counterItem, Item.get, List.lookup_cons]

theorem Holds.counter_read (hroom : (ops.length : Int) < i64Max) {start : Counter}
    (hstart : Knows start ops.length) : expectedCounter p start = .ok (ops.length : Int) := by
  rcases hstart with rfl | rfl
  · unfold expectedCounter readCounter counterSeq
    rw [h.counter]
    by_cases hnil : ops = []
    · simp [hnil, counterValue]
    · rw [if_neg hnil]
      exact counterValue_counterItem (Int.natCast_nonneg _) hroom.le
  · rfl

/-- The op below the next number is there. -/
theorem Holds.predecessor_isSome (hne : ops ≠ []) : (p.get (ops.length : Int)).isSome := by
  have hlen := List.length_pos_of_ne_nil hne
  have hget := h.op (ops.length - 1)
  rw [List.getElem?_eq_getElem (by omega)] at hget
  have hcast : (((ops.length - 1 : Nat) : Int) + 1) = ops.length := by omega
  rw [hcast] at hget
  rw [hget]
  rfl

/-- The next number is free. -/
theorem Holds.next_isNone : p.get ((ops.length : Int) + 1) = none := by
  rw [h.op, List.getElem?_eq_none (le_refl _)]
  rfl

/-- Of the conditions of the next round all but the claim's hold. -/
theorem Holds.conditions (op : WireOp V) (claimed : Bool) :
    conditionsHold p (nextTx json sha256 stream ops.length op claimed)
      = (!claimed || (p.get (claimSeq sha256 op.opId)).isNone) := by
  have hcounter := h.counter_stands
  have hnext := h.next_isNone
  rw [nextTx_eq]
  by_cases hnil : ops = []
  · subst hnil
    cases claimed <;>
      simp_all [conditionsHold, counterUpdate, putNew, attributeNotExists, slotAfter]
  · have hpred := h.predecessor_isSome hnil
    have hlen : ops.length ≠ 0 := by simpa using hnil
    cases claimed <;>
      simp_all [conditionsHold, counterUpdate, putNew, attributeNotExists, slotAfter,
        predecessorCheck, attributeExists]

/-- The counter item once moved to the next number. -/
theorem Holds.counter_moved :
    ((p.get counterSeq).getD [("stream_id", .s stream), ("seq", .n counterSeq)]).set "next_seq"
      (.n ((ops.length : Int) + 1)) = counterItem stream ((ops.length : Int) + 1) := by
  unfold counterSeq
  rw [h.counter]
  by_cases hnil : ops = []
  · simp [hnil, Item.set, Item.get, List.lookup_cons, counterItem, counterSeq]
  · simp [hnil, Item.set, Item.get, List.lookup_cons, counterItem]

/-- What stands where once the next round has committed. -/
theorem Holds.get_commit (op : WireOp V) (claimed : Bool) (k : Int) :
    (commit p (nextTx json sha256 stream ops.length op claimed)).get k =
      if k = ops.length + 1 then some (opItem json stream (ops.length + 1) op)
      else if k = claimSeq sha256 op.opId ∧ claimed = true then
        some (claimItem stream (claimSeq sha256 op.opId) op.opId (ops.length + 1))
      else if k = 0 then some (counterItem stream (ops.length + 1)) else p.get k := by
  unfold nextTx
  rw [get_commit_appendTx]
  simp only [slotAfter]
  rw [h.counter_moved]
  rfl

/-- The items once the next round has committed. -/
theorem Holds.committed (op : WireOp V) (claimed : Bool) :
    Holds json sha256 stream (commit p (nextTx json sha256 stream ops.length op claimed))
      (ops ++ [op]) := by
  have hneg := claimSeq_neg sha256 op.opId
  constructor
  · rw [h.get_commit, if_neg (by omega), if_neg (fun hk => by omega), if_pos rfl,
      if_neg (by simp), List.length_append, List.length_singleton]
    push_cast
    rfl
  · intro i
    rw [h.get_commit]
    by_cases hi : i = ops.length
    · subst hi
      rw [if_pos rfl, List.getElem?_concat_length]
      rfl
    · rw [if_neg (by omega), if_neg (fun hk => by omega), if_neg (by omega), h.op]
      by_cases hlt : i < ops.length
      · rw [List.getElem?_append_left hlt]
      · rw [List.getElem?_eq_none (by omega), List.getElem?_eq_none (by simp; omega)]
  · intro k hk item hitem
    rw [h.get_commit, if_neg (by omega)] at hitem
    by_cases hclaim : k = claimSeq sha256 op.opId ∧ claimed = true
    · rw [if_pos hclaim] at hitem
      cases hitem
      refine ⟨ops.length, op, List.getElem?_concat_length, hclaim.1.symm, ?_⟩
      rw [hclaim.1]
    · rw [if_neg hclaim, if_neg (by omega)] at hitem
      obtain ⟨i, op', hop', hkey, rfl⟩ := h.claim k hk item hitem
      have hlt := (List.getElem?_eq_some_iff.mp hop').1
      exact ⟨i, op', by rw [List.getElem?_append_left hlt]; exact hop', hkey, rfl⟩

/-- A round that finds its claim key free commits. -/
theorem Holds.tryAppendOp_free {op : WireOp V} {claimed : Bool}
    (hfree : claimed = true → p.get (claimSeq sha256 op.opId) = none) :
    tryAppendOp json sha256 p stream (slotAfter ops.length) (checkAfter ops.length) op claimed =
      (commit p (nextTx json sha256 stream ops.length op claimed),
        .ok (.written (ops.length + 1))) := by
  have hconditions : conditionsHold p (nextTx json sha256 stream ops.length op claimed) = true := by
    rw [h.conditions]
    cases claimed with
    | false => rfl
    | true => rw [hfree rfl]; rfl
  unfold nextTx at hconditions ⊢
  unfold tryAppendOp
  simp only [hconditions, if_true]
  rfl

/-- A round that finds its claim key taken reads for whom. -/
theorem Holds.tryAppendOp_taken (hroom : (ops.length : Int) < i64Max) {op other : WireOp V}
    {i : Nat} (hother : ops[i]? = some other) (htaken : p.get (claimSeq sha256 op.opId) =
      some (claimItem stream (claimSeq sha256 op.opId) other.opId (i + 1))) :
    tryAppendOp json sha256 p stream (slotAfter ops.length) (checkAfter ops.length) op true =
      (p, .ok (settleClaim (some (other.opId, (i : Int) + 1)) op.opId)) := by
  have hconditions : conditionsHold p (nextTx json sha256 stream ops.length op true) = false := by
    rw [h.conditions, htaken]
    rfl
  have hcounter : counterStandsAt (slotAfter ops.length).expected (p.get counterSeq) = true :=
    h.counter_stands
  have hclassified : classifyAppendCancellation ⟨true, checkAfter ops.length ≠ .none⟩
      (reasons p (nextTx json sha256 stream ops.length op true)) = .ok .claimed := by
    unfold classifyAppendCancellation
    refine if_pos ?_
    rw [nextTx_eq]
    simp [reasons, codeAt, TxLayout.claim, putNew, attributeNotExists, htaken]
  have hread : readClaim p (claimSeq sha256 op.opId) = .ok (some (other.opId, (i : Int) + 1)) := by
    have hlt := (List.getElem?_eq_some_iff.mp hother).1
    have hseq : parseN i64 (claimItem stream (claimSeq sha256 op.opId) other.opId (i + 1)) "op_seq"
        = .ok ((i : Int) + 1) := by
      refine parseN_eq rfl ?_ ?_
      · simp only [i64]
        omega
      · simp only [i64]
        omega
    unfold readClaim
    rw [htaken]
    simp only [hseq]
    rfl
  unfold nextTx at hconditions hclassified
  unfold tryAppendOp
  simp only [hconditions, hcounter, settleReasons, hclassified, hread]
  rfl

variable (hroom : (ops.length : Int) < i64Max)
include hroom

theorem Holds.round_eq {start : Counter} (hstart : Knows start ops.length) (claimed : Bool)
    (op : WireOp V) :
    appendRound json sha256 stream op p (plainRound start claimed) =
      tryAppendOp json sha256 p stream (slotAfter ops.length) (checkAfter ops.length) op claimed := by
  have hslot : nextSlot p (plainRound start claimed) = .ok (slotAfter ops.length) := by
    unfold nextSlot plainRound
    rw [h.counter_read hroom hstart]
    exact slot_after hroom
  unfold appendRound
  rw [hslot]
  simp only [plainRound_check]
  rfl

/-- **A free claim key**: the op goes in after the others, with its claim. -/
theorem append_of_free {start : Counter} (hstart : Knows start ops.length) {op : WireOp V}
    (hfree : p.get (claimSeq sha256 op.opId) = none) :
    appendOne json sha256 p stream op start =
      (commit p (nextTx json sha256 stream ops.length op true), .ok (.written (ops.length + 1))) := by
  unfold appendOne
  rw [appendWithRetry, show (Loop.start start).next = plainRound start true from rfl,
    h.round_eq hroom hstart, h.tryAppendOp_free fun _ => hfree]
  rfl

/-- **The claim of this op id**: nothing is written, and the answer is where that op is. -/
theorem append_of_own {start : Counter} (hstart : Knows start ops.length) {op other : WireOp V}
    {i : Nat} (hother : ops[i]? = some other) (hown : other.opId = op.opId)
    (htaken : p.get (claimSeq sha256 op.opId) =
      some (claimItem stream (claimSeq sha256 op.opId) other.opId (i + 1))) :
    appendOne json sha256 p stream op start = (p, .ok (.existing (i + 1))) := by
  have hsettle : settleClaim (some (other.opId, (i : Int) + 1)) op.opId = .existing (i + 1) :=
    if_pos hown
  unfold appendOne
  rw [appendWithRetry, show (Loop.start start).next = plainRound start true from rfl,
    h.round_eq hroom hstart, h.tryAppendOp_taken hroom hother htaken, hsettle]
  rfl

/-- **The claim of another op id**: the op goes in without a claim. -/
theorem append_of_foreign {start : Counter} (hstart : Knows start ops.length) {op other : WireOp V}
    {i : Nat} (hother : ops[i]? = some other) (hforeign : other.opId ≠ op.opId)
    (htaken : p.get (claimSeq sha256 op.opId) =
      some (claimItem stream (claimSeq sha256 op.opId) other.opId (i + 1))) :
    appendOne json sha256 p stream op start =
      (commit p (nextTx json sha256 stream ops.length op false),
        .ok (.written (ops.length + 1))) := by
  have hsettle : settleClaim (some (other.opId, (i : Int) + 1)) op.opId = .claimForeign :=
    if_neg hforeign
  unfold appendOne
  rw [appendWithRetry, show (Loop.start start).next = plainRound start true from rfl,
    h.round_eq hroom hstart, h.tryAppendOp_taken hroom hother htaken, hsettle]
  change appendWithRetry stream _ ⟨plainRound .unknown false, 1, 0⟩ p = _
  rw [appendWithRetry, h.round_eq hroom (Or.inl rfl),
    h.tryAppendOp_free fun hclaimed => absurd hclaimed Bool.false_ne_true]
  rfl

end

/-! ## Reading -/

/-- The op items of a stream, by their keys. -/
def opEntry (json : ExtraJson V) (stream : StreamId) (seq : Int) (op : WireOp V) : Int × Item :=
  (seq, opItem json stream seq op)

theorem Holds.itemsAbove {stream : StreamId} {p : Partition} {ops : List (WireOp V)}
    (h : Holds json sha256 stream p ops) (n : Nat) :
    itemsAbove p n = (numbered (opEntry json stream) ops).drop n := by
  have hsorted : (numbered (opEntry json stream) ops).Pairwise fun a b => a.1 < b.1 :=
    pairwise_numbered (fun _ _ _ _ hlt => by simpa only [opEntry] using hlt) ops
  refine itemsAbove_eq hsorted.drop fun k item => ?_
  rw [List.mem_iff_getElem?]
  simp only [List.getElem?_drop, getElem?_numbered, Option.map_eq_some_iff, opEntry, Prod.mk.injEq]
  constructor
  · rintro ⟨i, op, hop, rfl, rfl⟩
    refine ⟨by push_cast; omega, ?_⟩
    rw [h.op, hop]
    rfl
  · rintro ⟨hk, hitem⟩
    obtain ⟨i, rfl⟩ : ∃ i : Nat, k = ((n + i : Nat) : Int) + 1 :=
      ⟨(k - 1 - n).toNat, by push_cast; omega⟩
    rw [h.op, Option.map_eq_some_iff] at hitem
    obtain ⟨op, hop, rfl⟩ := hitem
    exact ⟨i, op, hop, rfl, rfl⟩

/-- The position after `count` more items, or the old one. -/
def nextAfter (cursor : Int) (since j : Nat) : Int := if j = 0 then cursor else since + j

section

variable {stream : StreamId} {p : Partition} {ops : List (WireOp V)} {since : Nat} {cursor : Int}

/-- A loop of `read_since` that has read `j` items. -/
def readingAt (ops : List (WireOp V)) (cursor : Int) (since j : Nat) (startKey : Option Int) :
    Reading V :=
  ⟨page ops since j, nextAfter cursor since j, startKey⟩

/-- The items of a page are read one after another. -/
theorem foldlM_push (hjson : json.Inverse) (hroom : (ops.length : Int) ≤ i64Max) (j count : Nat)
    (hcount : j + count ≤ ops.length - since) (startKey : Option Int) :
    ((((numbered (opEntry json stream) ops).drop (since + j)).take count).map Prod.snd).foldlM
        (Reading.push json) (readingAt ops cursor since j startKey)
      = .ok (readingAt ops cursor since (j + count) startKey) := by
  induction count generalizing j with
  | zero => rfl
  | succ count ih =>
    have hlt : since + j < ops.length := by omega
    have hget : (numbered (opEntry json stream) ops)[since + j]?
        = some (opEntry json stream ((since + j : Nat) + 1) ops[since + j]) := by
      rw [getElem?_numbered, List.getElem?_eq_getElem hlt]
      rfl
    have hdrop := List.drop_eq_getElem_cons
      (show since + j < (numbered (opEntry json stream) ops).length by rwa [length_numbered])
    rw [(List.getElem?_eq_some_iff.mp hget).2] at hdrop
    have hpush : Reading.push json (readingAt ops cursor since j startKey)
        (opItem json stream ((since + j : Nat) + 1) ops[since + j])
        = .ok (readingAt ops cursor since (j + 1) startKey) := by
      unfold Reading.push
      rw [parseN_opItem (by omega) (by omega), itemToWire_opItem hjson]
      simp only [readingAt, nextAfter, page, bind, Except.bind, pure, Except.pure]
      rw [List.take_add_one, List.getElem?_drop, List.getElem?_eq_getElem hlt, if_neg (by omega)]
      push_cast
      simp [add_assoc]
    rw [hdrop, List.take_succ_cons, List.map_cons, List.foldlM_cons]
    simp only [opEntry] at hpush ⊢
    rw [hpush]
    have hrest := ih (j + 1) (by omega)
    rw [show j + 1 + count = j + (count + 1) by omega] at hrest
    simpa only [bind, Except.bind, add_assoc] using hrest

section

variable (h : Holds json sha256 stream p ops) (hjson : json.Inverse)
  (hroom : (ops.length : Int) ≤ i64Max) (cut : List (Int × Item) → Nat) (cursor : Int)
include h hjson hroom

/-- **One turn of the loop**: up to the next cut there is a key to go on after, else all is read. -/
theorem turn_of_holds {j limit : Nat} (hj : j ≤ ops.length - since) (hlimit : j < limit)
    {startKey : Option Int} (hstart : max (since : Int) (startKey.getD since) = (since + j : Nat)) :
    (∃ j', j < j' ∧ j' ≤ limit ∧ j' ≤ ops.length - since ∧
      (readingAt ops cursor since j startKey).turn json (query cut p since startKey (limit - j))
        = .ok (readingAt ops cursor since j' (some ((since + j' : Nat) : Int)))) ∨
    (ops.length - since ≤ limit ∧
      (readingAt ops cursor since j startKey).turn json (query cut p since startKey (limit - j))
        = .ok (readingAt ops cursor since (ops.length - since) none)) := by
  have hfound : itemsAbove p (max (since : Int) (startKey.getD since))
      = (numbered (opEntry json stream) ops).drop (since + j) := by
    rw [hstart, h.itemsAbove]
  have hlength : ((numbered (opEntry json stream) ops).drop (since + j)).length
      = ops.length - since - j := by
    rw [List.length_drop, length_numbered]
    omega
  unfold query Reading.turn
  simp only [hfound, hlength]
  generalize he : min (limit - j) (1 + cut ((numbered (opEntry json stream) ops).drop (since + j))) = e
  by_cases hle : e ≤ ops.length - since - j
  · refine .inl ⟨j + e, by omega, by omega, by omega, ?_⟩
    have hlast : (((numbered (opEntry json stream) ops).drop (since + j)).take e).getLast?.map
        Prod.fst = some (((since + (j + e) : Nat) : Int)) := by
      have hlen : (((numbered (opEntry json stream) ops).drop (since + j)).take e).length = e := by
        rw [List.length_take, hlength]
        omega
      rw [List.getLast?_eq_getElem?, hlen, List.getElem?_take_of_lt (by omega), List.getElem?_drop,
        getElem?_numbered, List.getElem?_eq_getElem (by omega)]
      simp only [opEntry, Option.map_some, Option.some.injEq]
      push_cast
      omega
    rw [foldlM_push hjson hroom j e (by omega), if_pos hle, hlast]
    rfl
  · refine .inr ⟨by omega, ?_⟩
    have hend : j + (ops.length - since - j) = ops.length - since := by omega
    have hall : ((((numbered (opEntry json stream) ops).drop (since + j)).take
        (ops.length - since - j)).map Prod.snd).foldlM (Reading.push json)
          (readingAt ops cursor since j startKey)
        = .ok (readingAt ops cursor since (j + (ops.length - since - j)) startKey) :=
      foldlM_push hjson hroom j (ops.length - since - j) hend.le startKey
    rw [List.take_of_length_le (by rw [hlength]), hend] at hall
    rw [List.take_of_length_le (by rw [hlength]; omega), hall, if_neg hle]
    rfl

/-- The loop reads on to the end of the page. -/
theorem readPages_of_holds (since limit : Nat) : ∀ turns j, limit ≤ j + turns → j ≤ limit →
    j ≤ ops.length - since → ∀ startKey : Option Int,
    max (since : Int) (startKey.getD since) = (since + j : Nat) →
    readPages json cut p since limit turns (readingAt ops cursor since j startKey)
      = .ok (page ops since limit, nextAfter cursor since (min limit (ops.length - since))) := by
  intro turns
  induction turns with
  | zero =>
    intro j hturns hlimit hj startKey hstart
    obtain rfl : j = limit := by omega
    rw [min_eq_left hj]
    rfl
  | succ turns ih =>
    intro j hturns hlimit hj startKey hstart
    unfold readPages
    rw [show (readingAt ops cursor since j startKey).startKey = startKey from rfl]
    have hlen : (readingAt ops cursor since j startKey).ops.length = j := by
      simp only [readingAt, page_length]
      omega
    rw [hlen]
    by_cases hlt : j < limit
    · rw [if_pos hlt]
      rcases turn_of_holds h hjson hroom cut cursor hj hlt hstart with
        ⟨j', hj', hlimit', havail, hturn⟩ | ⟨hend, hturn⟩
      · simp only [hturn, bind, Except.bind]
        refine (if_pos rfl).trans (ih j' (by omega) hlimit' havail _ ?_)
        rw [Option.getD_some]
        exact max_eq_right (by push_cast; omega)
      · simp only [hturn, bind, Except.bind]
        have hpage : page ops since (ops.length - since) = page ops since limit := by
          unfold page
          rw [List.take_of_length_le (by rw [List.length_drop]), List.take_of_length_le
            (by rw [List.length_drop]; exact hend)]
        refine (if_neg Bool.false_ne_true).trans ?_
        simp only [readingAt, hpage, min_eq_right hend]
        rfl
    · obtain rfl : j = limit := by omega
      rw [if_neg hlt, min_eq_left hj]
      rfl

/-- **A read answers as the log does.** -/
theorem readSince_of_holds {log : RelayLog V} (hlog : log stream = ops) (limit : Nat) :
    readSince json cut p cursor limit = .ok (log.readSince stream cursor limit) := by
  have hsince : max cursor 0 = ((max cursor 0).toNat : Int) :=
    (Int.toNat_of_nonneg (le_max_right _ _)).symm
  unfold readSince RelayLog.readSince
  rw [hlog]
  generalize hn : (max cursor 0).toNat = since at hsince
  rw [hsince]
  have hpages := readPages_of_holds h hjson hroom cut cursor since
    (pageLimit limit) (pageLimit limit) 0 (by omega) (Nat.zero_le _) (Nat.zero_le _) none (by simp)
  refine hpages.trans ?_
  have hlen := page_length ops since (pageLimit limit)
  simp only [nextAfter, ← hlen, List.length_eq_zero_iff]

end

end

end Holds

end DynamoDbOpStore

end NexusFlow.Server
