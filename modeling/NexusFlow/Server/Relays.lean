import Mathlib.Data.Fintype.Pigeonhole
import Mathlib.Data.Int.Interval
import NexusFlow.Server.DynamoDb

/-!
# Three relays, one log

The three backends of the relay's op store (`crates/server/src/store.rs`, `store_pg.rs`,
`store_ddb.rs`) under one sequence of calls each, and the log they stand for.

A DynamoDB stream knows an op again by its claim, whose key is 63 bits of a hash of the op id. Two op
ids may share it: the second op is then stored without a claim, and a re-push of it is stored again.
So DynamoDB follows the log for sequences that push no two such op ids to one stream
(`ClaimsApart`), and there is no hash with which it does for every sequence
(`claim_keys_collide`, by counting).

Result: `three_relays_one_log`.
-/

namespace NexusFlow.Server

open NexusFlow.Lib

variable {V : Type} {json : ExtraJson V} {sha256 : String → Vector UInt8 32}
  {cut : List (Int × Item) → Nat}

/-! ## What is pushed -/

/-- The ops a call pushes to a stream. -/
def Request.pushed (stream : StreamId) : Request V → List (WireOp V)
  | .append s op => if s = stream then [op] else []
  | .appendBatch s ops => if s = stream then ops else []
  | .readSince _ _ _ => []

/-- The ops a sequence of calls pushes to a stream. -/
def pushedTo (stream : StreamId) (rs : List (Request V)) : List (WireOp V) :=
  rs.flatMap (Request.pushed stream)

/-- No two op ids pushed to one stream share a claim key. -/
def ClaimsApart (sha256 : String → Vector UInt8 32) (rs : List (Request V)) : Prop :=
  ∀ stream, ∀ a ∈ pushedTo stream rs, ∀ b ∈ pushedTo stream rs,
    claimSeq sha256 a.opId = claimSeq sha256 b.opId → a.opId = b.opId

/-- The log after a sequence of calls. -/
def logAfter (rs : List (Request V)) : RelayLog V := stateAfter RelayLog.call RelayLog.empty rs

theorem stateAfter_snoc {σ : Type} (call : σ → Request V → σ × Answer V) (s : σ)
    (rs : List (Request V)) (r : Request V) :
    stateAfter call s (rs ++ [r]) = (call (stateAfter call s rs) r).1 :=
  List.foldl_append

/-- **What a log holds of the ops pushed to it**: each id once, as it was first pushed. -/
structure FirstOf (ops pushed : List (WireOp V)) : Prop where
  sublist : ops.Sublist pushed
  nodup : (ops.map WireOp.opId).Nodup
  known : ∀ op ∈ pushed, op.opId ∈ ops.map WireOp.opId

theorem FirstOf.append {ops pushed : List (WireOp V)} (h : FirstOf ops pushed) (op : WireOp V) :
    FirstOf (appendOnce WireOp.opId ops op).1 (pushed ++ [op]) := by
  have hnodup := appendOnce_nodup h.nodup op
  by_cases hknown : op.opId ∈ ops.map WireOp.opId
  · obtain ⟨n, hn⟩ := Option.ne_none_iff_exists'.mp (position_eq_none.not.mpr (not_not.mpr hknown))
    rw [appendOnce_of_mem hn] at hnodup ⊢
    refine ⟨h.sublist.trans (List.sublist_append_left _ _), hnodup, fun other hother => ?_⟩
    rcases List.mem_append.mp hother with hother | hother
    · exact h.known other hother
    · rw [List.mem_singleton.mp hother]
      exact hknown
  · rw [appendOnce_of_notMem hknown] at hnodup ⊢
    refine ⟨h.sublist.append (List.Sublist.refl _), hnodup, fun other hother => ?_⟩
    rw [List.map_append]
    rcases List.mem_append.mp hother with hother | hother
    · exact List.mem_append_left _ (h.known other hother)
    · rw [List.mem_singleton.mp hother]
      exact List.mem_append_right _ (List.mem_singleton_self _)

theorem RelayLog.append_same (log : RelayLog V) (stream : StreamId) (op : WireOp V) :
    (log.append stream op).1 stream = (appendOnce WireOp.opId (log stream) op).1 := by
  simp only [RelayLog.append, setStream, Function.update_self]

theorem RelayLog.append_other (log : RelayLog V) {stream other : StreamId} (h : other ≠ stream)
    (op : WireOp V) : (log.append stream op).1 other = log other := by
  simp only [RelayLog.append, setStream, Function.update_of_ne h]

theorem FirstOf.call {log : RelayLog V} {stream : StreamId} {pushed : List (WireOp V)}
    (h : FirstOf (log stream) pushed) (r : Request V) :
    FirstOf ((log.call r).1 stream) (pushed ++ r.pushed stream) := by
  cases r with
  | append s op =>
    simp only [RelayLog.call, Request.pushed]
    split_ifs with hs
    · subst hs
      rw [RelayLog.append_same]
      exact h.append op
    · rw [log.append_other (Ne.symm hs), List.append_nil]
      exact h
  | appendBatch s ops =>
    simp only [RelayLog.call, Request.pushed]
    induction ops generalizing log pushed with
    | nil => simpa using h
    | cons op ops ih =>
      split_ifs at ih ⊢ with hs
      · subst hs
        have := ih (RelayLog.append_same log s op ▸ h.append op)
        rwa [List.append_assoc, List.singleton_append] at this
      · have hother := log.append_other (Ne.symm hs) op
        exact ih (by rwa [← hother] at h)
  | readSince s cursor limit =>
    simpa [RelayLog.call, Request.pushed] using h

/-- **The log holds each op id pushed to a stream once, with its first content.** -/
theorem firstOf_logAfter (rs : List (Request V)) (stream : StreamId) :
    FirstOf (logAfter rs stream) (pushedTo stream rs) := by
  induction rs using List.reverseRecOn with
  | nil => exact ⟨List.Sublist.refl _, List.nodup_nil, fun op hop => absurd hop List.not_mem_nil⟩
  | append_singleton rs r ih =>
    unfold logAfter pushedTo at ih ⊢
    rw [stateAfter_snoc, List.flatMap_append, List.flatMap_singleton]
    exact ih.call r

/-! ## DynamoDB -/

namespace DynamoDbOpStore

/-- The items of a stream with these ops, each with its claim. -/
structure HoldsClaimed (json : ExtraJson V) (sha256 : String → Vector UInt8 32) (stream : StreamId)
    (p : Partition) (ops : List (WireOp V)) : Prop extends Holds json sha256 stream p ops where
  claimed : ∀ (i : Nat) (op : WireOp V), ops[i]? = some op → p.get (claimSeq sha256 op.opId) =
    some (claimItem stream (claimSeq sha256 op.opId) op.opId (i + 1))

/-- A table of streams with claims, no op id of a stream outside of `ids`. -/
def HeldWith (json : ExtraJson V) (sha256 : String → Vector UInt8 32)
    (ids : StreamId → String → Prop) (table : StreamId → Partition) (log : RelayLog V) : Prop :=
  ∀ stream, HoldsClaimed json sha256 stream (table stream) (log stream) ∧
    ∀ op ∈ log stream, ids stream op.opId

/-- An append of an op whose id shares no claim key with an op id of the stream. -/
theorem HoldsClaimed.append {stream : StreamId} {p : Partition} {ops : List (WireOp V)}
    (h : HoldsClaimed json sha256 stream p ops) (hroom : (ops.length : Int) < i64Max)
    {start : Counter} (hstart : Knows start ops.length) {op : WireOp V}
    (hapart : ∀ other ∈ ops, claimSeq sha256 other.opId = claimSeq sha256 op.opId →
      other.opId = op.opId) :
    ∃ q settled, appendOne json sha256 p stream op start = (q, .ok settled) ∧
      settled.seq = (appendOnce WireOp.opId ops op).2 ∧
      HoldsClaimed json sha256 stream q (appendOnce WireOp.opId ops op).1 ∧
      Knows (carry start settled) (appendOnce WireOp.opId ops op).1.length := by
  by_cases hknown : op.opId ∈ ops.map WireOp.opId
  · obtain ⟨n, hn⟩ := Option.ne_none_iff_exists'.mp (position_eq_none.not.mpr (not_not.mpr hknown))
    obtain ⟨other, hpos, hother, hid⟩ := position_eq_some hn
    have htaken := h.claimed _ _ hother
    rw [hid] at htaken
    have hseq : ((n - 1 : Nat) : Int) + 1 = n := by omega
    refine ⟨p, .existing ((n - 1 : Nat) + 1),
      append_of_own h.toHolds hroom hstart hother hid (by rw [hid]; exact htaken), ?_⟩
    rw [appendOnce_of_mem hn]
    exact ⟨hseq, h, hstart⟩
  · have hfree : p.get (claimSeq sha256 op.opId) = none := by
      by_contra hsome
      obtain ⟨item, hitem⟩ := Option.ne_none_iff_exists'.mp hsome
      obtain ⟨i, other, hother, hkey, -⟩ := h.claim _ (claimSeq_neg sha256 _) item hitem
      have hmem := List.mem_of_getElem? hother
      exact hknown (List.mem_map.mpr ⟨other, hmem, hapart other hmem hkey⟩)
    refine ⟨_, _, append_of_free h.toHolds hroom hstart hfree, ?_⟩
    rw [appendOnce_of_notMem hknown, List.length_append, List.length_singleton]
    refine ⟨by simp [Settled.seq], ⟨h.committed op true, ?_⟩, .inr (by simp [carry])⟩
    intro i other hother
    rw [h.get_commit]
    have hneg := claimSeq_neg sha256 other.opId
    by_cases hi : i < ops.length
    · rw [List.getElem?_append_left hi] at hother
      have hold := h.claimed i other hother
      rw [if_neg (by omega), if_neg, if_neg (by omega)]
      · exact hold
      · rintro ⟨hkey, -⟩
        rw [hkey, hfree] at hold
        cases hold
    · have hlen := (List.getElem?_eq_some_iff.mp hother).1
      rw [List.length_append, List.length_singleton] at hlen
      obtain rfl : i = ops.length := by omega
      rw [List.getElem?_concat_length] at hother
      cases hother
      rw [if_neg (by omega), if_pos ⟨rfl, rfl⟩]

section

variable {ids : StreamId → String → Prop}
  (hapart : ∀ stream a b, ids stream a → ids stream b → claimSeq sha256 a = claimSeq sha256 b → a = b)
include hapart

/-- One append to a stream of the table. -/
theorem HeldWith.append {table : StreamId → Partition} {log : RelayLog V}
    (h : HeldWith json sha256 ids table log) (hroom : log.Room 1) {stream : StreamId}
    {start : Counter} (hstart : Knows start (log stream).length) {op : WireOp V}
    (hid : ids stream op.opId) :
    ∃ q settled, appendOne json sha256 (table stream) stream op start = (q, .ok settled) ∧
      settled.seq = (log.append stream op).2 ∧
      HeldWith json sha256 ids (setStream table stream q) (log.append stream op).1 ∧
      Knows (carry start settled) ((log.append stream op).1 stream).length := by
  obtain ⟨hstream, hids⟩ := h stream
  obtain ⟨q, settled, heq, hseq, hholds, hknows⟩ := hstream.append (Int.lt_iff_add_one_le.mpr (hroom.length_le stream)) hstart
    fun other hother hkey => hapart stream _ _ (hids other hother) hid hkey
  refine ⟨q, settled, heq, hseq, ?_, ?_⟩
  · intro other
    by_cases hother : other = stream
    · subst hother
      rw [RelayLog.append_same, setStream, Function.update_self]
      refine ⟨hholds, fun a ha => ?_⟩
      rcases mem_appendOnce ha with ha | rfl
      · exact hids a ha
      · exact hid
    · rw [log.append_other hother, setStream, Function.update_of_ne hother]
      exact h other
  · rw [RelayLog.append_same]
    exact hknows

/-- A push to a stream of the table, each op carrying its number to the next. -/
theorem HeldWith.appendBatch {stream : StreamId} (ops : List (WireOp V)) :
    (∀ op ∈ ops, ids stream op.opId) → ∀ {table : StreamId → Partition} {log : RelayLog V}
    {start : Counter}, HeldWith json sha256 ids table log → log.Room ops.length →
    Knows start (log stream).length →
    ∃ q, DynamoDbOpStore.appendBatch json sha256 stream (table stream) start ops = (q, .ok ()) ∧
      HeldWith json sha256 ids (setStream table stream q)
        (ops.foldl (fun log op => (log.append stream op).1) log) := by
  induction ops with
  | nil =>
    intro _ table log start h _ _
    refine ⟨table stream, rfl, ?_⟩
    rw [setStream, Function.update_eq_self]
    exact h
  | cons op ops ih =>
    intro hids table log start h hroom hstart
    obtain ⟨q, settled, heq, -, hnext, hknows⟩ := h.append hapart (hroom.mono (by simp)) hstart
      (hids op List.mem_cons_self)
    obtain ⟨q', heq', hnext'⟩ := ih (fun op hop => hids op (List.mem_cons_of_mem _ hop)) hnext
      (RelayLog.Room.append hroom stream op) hknows
    refine ⟨q', ?_, ?_⟩
    · rw [setStream, Function.update_self] at heq'
      unfold DynamoDbOpStore.appendBatch
      rw [heq]
      exact heq'
    · unfold setStream at hnext' ⊢
      rwa [Function.update_idem] at hnext'

/-- **DynamoDB follows the log**, no two op ids of a stream sharing a claim key. -/
theorem follows (hjson : json.Inverse) :
    Follows (call json sha256 cut) (HeldWith json sha256 ids)
      fun r => ∀ stream, ∀ op ∈ r.pushed stream, ids stream op.opId where
  reads _ _ _ _ _ hop := absurd hop List.not_mem_nil
  step table log r hids h hroom := by
    cases r with
    | append stream op =>
      obtain ⟨q, settled, heq, hseq, hnext, -⟩ := h.append hapart hroom (Or.inl rfl)
        (hids stream op (by simp [Request.pushed]))
      have happend : DynamoDbOpStore.append json sha256 (table stream) stream op
          = (q, .ok settled.seq) := by
        unfold DynamoDbOpStore.append
        rw [heq]
        rfl
      simp only [call, RelayLog.call, happend, hseq]
      exact ⟨rfl, hnext⟩
    | appendBatch stream ops =>
      obtain ⟨q, heq, hnext⟩ := h.appendBatch hapart ops
        (fun op hop => hids stream op (by simpa [Request.pushed] using hop)) hroom (Or.inl rfl)
      simp only [call, RelayLog.call, heq]
      exact ⟨rfl, hnext⟩
    | readSince stream cursor limit =>
      have hlen : ((log stream).length : Int) + (0 : Nat) ≤ i64Max := hroom.length_le stream
      rw [Nat.cast_zero, add_zero] at hlen
      have hpage := readSince_of_holds (h stream).1.toHolds hjson hlen cut cursor rfl limit
      exact ⟨congrArg Answer.ofPage hpage, h⟩

end

theorem heldWith_empty (ids : StreamId → String → Prop) :
    HeldWith json sha256 ids (fun _ => KeyMap.empty) RelayLog.empty :=
  fun stream => ⟨⟨holds_empty stream, fun _ _ hop => by cases hop⟩, fun op hop => by cases hop⟩

end DynamoDbOpStore

/-! ## The three relays -/

/-- **Three relays, one log**: fresh stores of the three kinds answer every sequence of calls as the
log does, DynamoDB where no two op ids pushed to a stream share a claim key; and the log holds each
op id pushed to a stream once, as it was first pushed. -/
theorem three_relays_one_log (json : ExtraJson V) (hjson : json.Inverse)
    (sha256 : String → Vector UInt8 32) (cut : List (Int × Item) → Nat) (rs : List (Request V))
    (hroom : (rs.map Request.count).sum < 2 ^ 63) :
    AnswersAsLog (SqliteOpStore.call json) [] rs ∧
    AnswersAsLog (PostgresOpStore.call json) [] rs ∧
    (ClaimsApart sha256 rs →
      AnswersAsLog (DynamoDbOpStore.call json sha256 cut) (fun _ => KeyMap.empty) rs) ∧
    ∀ stream, FirstOf (logAfter rs stream) (pushedTo stream rs) := by
  refine ⟨?_, ?_, fun hclaims => ?_, firstOf_logAfter rs⟩
  · exact (sqlite_follows hjson).answersAsLog Table.holds_nil (fun _ _ => trivial) hroom
  · exact (postgres_follows hjson).answersAsLog Table.holds_nil (fun _ _ => trivial) hroom
  · have hapart : ∀ stream a b, (∃ op ∈ pushedTo stream rs, op.opId = a) →
        (∃ op ∈ pushedTo stream rs, op.opId = b) →
        claimSeq sha256 a = claimSeq sha256 b → a = b := by
      rintro stream a b ⟨op, hop, rfl⟩ ⟨other, hother, rfl⟩ hkey
      exact hclaims stream op hop other hother hkey
    refine (DynamoDbOpStore.follows hapart hjson).answersAsLog
      (DynamoDbOpStore.heldWith_empty _) (fun r hr stream op hop => ?_) hroom
    exact ⟨op, List.mem_flatMap.mpr ⟨r, hr, hop⟩, rfl⟩

/-- Two ops pushed, the first once more with another content, and a page of one. -/
def sampleCalls : List (Request Empty) :=
  [.append "ws" (sampleOp "01A"), .appendBatch "ws" [sampleOp "01B", sampleOp "01A"],
    .append "ws" { sampleOp "01A" with value := none }, .readSince "ws" (-1) 1]

theorem three_relays_one_log_sample :
    ClaimsApart sampleDigest sampleCalls ∧
    answers (DynamoDbOpStore.call noExtra sampleDigest fun _ => 0) (fun _ => KeyMap.empty) sampleCalls
      = [.cursor 1, .stored, .cursor 1, .page [sampleOp "01A"] 1] := by
  have hapart : ClaimsApart sampleDigest sampleCalls := by
    intro stream a ha b hb hkey
    have hids : ∀ op ∈ pushedTo stream sampleCalls, op.opId = "01A" ∨ op.opId = "01B" := by
      intro op hop
      by_cases hs : "ws" = stream
      · simp [pushedTo, sampleCalls, Request.pushed, hs, sampleOp] at hop
        rcases hop with rfl | rfl | rfl | rfl <;> simp
      · simp [pushedTo, sampleCalls, Request.pushed, hs] at hop
    have hne : claimSeq sampleDigest "01A" ≠ claimSeq sampleDigest "01B" := by decide
    rcases hids a ha with ha | ha <;> rcases hids b hb with hb | hb <;> rw [ha, hb] at hkey ⊢
    · exact absurd hkey hne
    · exact absurd hkey.symm hne
  refine ⟨hapart, ?_⟩
  have h := three_relays_one_log noExtra noExtra_inverse sampleDigest (fun _ => 0) sampleCalls
    (by decide)
  rw [(h.2.2.1 hapart).1]
  decide

/-- An op that finds its claim key taken by another goes in, and the claim stays. -/
theorem DynamoDbOpStore.append_foreign {stream : StreamId} {p : Partition} {ops : List (WireOp V)}
    (h : Holds json sha256 stream p ops) (hroom : (ops.length : Int) < i64Max)
    {op other : WireOp V} {i : Nat} (hother : ops[i]? = some other)
    (hforeign : other.opId ≠ op.opId) (htaken : p.get (claimSeq sha256 op.opId) =
      some (claimItem stream (claimSeq sha256 op.opId) other.opId (i + 1))) :
    ∃ q, append json sha256 p stream op = (q, .ok ((ops.length : Int) + 1)) ∧
      Holds json sha256 stream q (ops ++ [op]) ∧
      q.get (claimSeq sha256 op.opId) = p.get (claimSeq sha256 op.opId) := by
  have hneg := claimSeq_neg sha256 op.opId
  refine ⟨_, ?_, h.committed op false, ?_⟩
  · unfold append
    rw [append_of_foreign h hroom (Or.inl rfl) hother hforeign htaken]
    rfl
  · rw [h.get_commit, if_neg (by omega), if_neg (by simp), if_neg (by omega)]

/-- Three appends, the second and the third of an op that shares its key with the first. -/
theorem answers_of_shared_key (cut : List (Int × Item) → Nat) {a b : String} (hne : a ≠ b)
    (hkey : claimSeq sha256 a = claimSeq sha256 b) :
    answers (DynamoDbOpStore.call noExtra sha256 cut) (fun _ => KeyMap.empty)
      [.append "ws" (sampleOp a), .append "ws" (sampleOp b), .append "ws" (sampleOp b)]
      = [.cursor 1, .cursor 2, .cursor 3] := by
  have hempty : DynamoDbOpStore.Holds noExtra sha256 "ws" KeyMap.empty [] :=
    DynamoDbOpStore.holds_empty "ws"
  -- The first op has the claim.
  have hfirst : DynamoDbOpStore.append noExtra sha256 KeyMap.empty "ws" (sampleOp a)
      = (commit KeyMap.empty (DynamoDbOpStore.nextTx noExtra sha256 "ws" 0 (sampleOp a) true),
        .ok 1) := by
    unfold DynamoDbOpStore.append
    rw [DynamoDbOpStore.append_of_free hempty (by decide) (Or.inl rfl) rfl]
    rfl
  have hclaim : (commit KeyMap.empty (DynamoDbOpStore.nextTx noExtra sha256 "ws" 0 (sampleOp a)
      true)).get (claimSeq sha256 b) = some (claimItem "ws" (claimSeq sha256 b) a 1) := by
    have hneg := claimSeq_neg sha256 b
    have hget := hempty.get_commit (sampleOp a) true (claimSeq sha256 b)
    rw [List.length_nil, if_neg (by omega), if_pos ⟨hkey.symm, rfl⟩] at hget
    rw [← hkey]
    exact (congrArg _ hkey).trans hget
  -- The second finds it taken, twice.
  have hone : (([] ++ [sampleOp a]).length : Int) < i64Max := by
    rw [List.nil_append, List.length_singleton]
    decide
  obtain ⟨p, hsecond, hholds, hstays⟩ :=
    DynamoDbOpStore.append_foreign (hempty.committed (sampleOp a) true) hone
      (show ([] ++ [sampleOp a])[0]? = some (sampleOp a) from rfl)
      (show (sampleOp a).opId ≠ (sampleOp b).opId from hne) hclaim
  have htwo : (([] ++ [sampleOp a] ++ [sampleOp b]).length : Int) < i64Max := by
    rw [List.nil_append, List.length_append, List.length_singleton, List.length_singleton]
    decide
  obtain ⟨q, hthird, -, -⟩ :=
    DynamoDbOpStore.append_foreign hholds htwo
      (show ([] ++ [sampleOp a] ++ [sampleOp b])[0]? = some (sampleOp a) from rfl)
      (show (sampleOp a).opId ≠ (sampleOp b).opId from hne) (hstays.trans hclaim)
  simp only [answers, DynamoDbOpStore.call, setStream, Function.update_self]
  rw [List.length_nil] at hsecond
  rw [hfirst]
  dsimp only
  rw [hsecond]
  dsimp only
  rw [hthird]
  rfl

/-- **No hash makes DynamoDB follow the log for every sequence**: two op ids share a claim key, and
the second one, pushed again, is stored again. -/
theorem claim_keys_collide : ¬ ∃ sha256 : String → Vector UInt8 32,
    ∀ (json : ExtraJson Empty) (cut : List (Int × Item) → Nat) (rs : List (Request Empty)),
      json.Inverse → (rs.map Request.count).sum < 2 ^ 63 →
      AnswersAsLog (DynamoDbOpStore.call json sha256 cut) (fun _ => KeyMap.empty) rs := by
  rintro ⟨sha256, hall⟩
  obtain ⟨a, b, hne, hkey⟩ := Finite.exists_ne_map_eq_of_infinite
    fun opId => (⟨claimSeq sha256 opId, le_claimSeq sha256 opId,
      Int.le_sub_one_of_lt (claimSeq_neg sha256 opId)⟩ : Set.Icc (-2 ^ 63 : Int) (0 - 1))
  have hkey : claimSeq sha256 a = claimSeq sha256 b := congrArg Subtype.val hkey
  have hanswers := (hall noExtra (fun _ => 0) [.append "ws" (sampleOp a), .append "ws" (sampleOp b),
    .append "ws" (sampleOp b)] noExtra_inverse (Nat.lt_of_le_of_lt (le_refl 3) (by decide))).1
  rw [answers_of_shared_key (fun _ => 0) hne hkey] at hanswers
  have hlog : answers RelayLog.call RelayLog.empty [.append "ws" (sampleOp a),
      .append "ws" (sampleOp b), .append "ws" (sampleOp b)] = [.cursor 1, .cursor 2, .cursor 2] := by
    simp [answers, RelayLog.call, RelayLog.append, RelayLog.empty, setStream, appendOnce, position,
      sampleOp, hne, List.findIdx?_cons]
  rw [hlog] at hanswers
  cases hanswers

end NexusFlow.Server
