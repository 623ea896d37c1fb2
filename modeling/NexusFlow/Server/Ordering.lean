import Mathlib.Data.List.Induction
import NexusFlow.Server.Appenders

/-!
# No reader passes an op that appears later

What holds in every state that any number of appenders and readers of one DynamoDB stream reach
(`NexusFlow.Server.Appenders`).

The argument is one invariant. The transactions that went through took consecutive numbers, above
the counter and every op the stream started with (`Numbers`): the counter orders them, and a number
already occupied is stepped over to the top. Only the last of their ops can be invisible, because
each names the op below its own (`Visible`). So a read that was given an op was given every op below
it (`ReaderOk`, `DoneOk`).

The older ops are any, with any gaps, with one thing asked: no number above the counter is free
below an older op (`NoFreeBelow`).
-/

namespace NexusFlow.Server.Appenders

open NexusFlow.Lib

variable {V : Type} {json : ExtraJson V} {sha256 : String → Vector UInt8 32} {stream : StreamId}

/-! ## The stream before this build -/

/-- The counter of a stream: `next_seq`, 0 when it is absent. -/
def counterOf (p : Partition) : Int :=
  match (p.get counterSeq).bind (Item.get · "next_seq") with
  | some (.n c) => c
  | _ => 0

/-- The counter item holds no counter, or a number. -/
def CounterOk (p : Partition) : Prop :=
  ∀ v, (p.get counterSeq).bind (Item.get · "next_seq") = some v → ∃ c, v = .n c ∧ 0 ≤ c

/-- A claim is of an op that is stored where it says. -/
def ClaimsOk (json : ExtraJson V) (sha256 : String → Vector UInt8 32) (stream : StreamId)
    (p : Partition) : Prop :=
  ∀ k < 0, ∀ item, p.get k = some item → ∃ (op : WireOp V) (s : Int), 0 < s ∧
    claimSeq sha256 op.opId = k ∧ item = claimItem stream k op.opId s ∧
    p.get s = some (opItem json stream s op)

/-- **Older ops**: any ops at any positive numbers, with claims or without, with a counter or
without. -/
structure Older (json : ExtraJson V) (sha256 : String → Vector UInt8 32) (stream : StreamId)
    (p : Partition) : Prop where
  counter : CounterOk p
  claims : ClaimsOk json sha256 stream p
  ops : ∀ k > 0, ∀ item, p.get k = some item →
    k ≤ i64Max ∧ ∃ op : WireOp V, item = opItem json stream k op

/-- No number above the counter is free below an older op. -/
def NoFreeBelow (p : Partition) : Prop :=
  ∀ k m, counterOf p < k → k ≤ m → (p.get m).isSome → (p.get k).isSome

/-- The number above which this build writes: the counter, or the highest older op above it. -/
def baseOf (p : Partition) : Int := (counterOf p :: p.keys).max?.getD 0

theorem baseOf_spec (p : Partition) :
    baseOf p ∈ counterOf p :: p.keys ∧ ∀ k ∈ counterOf p :: p.keys, k ≤ baseOf p := by
  have hmax : (counterOf p :: p.keys).max? = some (baseOf p) := rfl
  exact List.max?_eq_some_iff.mp hmax

theorem counterOf_le_baseOf (p : Partition) : counterOf p ≤ baseOf p :=
  (baseOf_spec p).2 _ List.mem_cons_self

theorem get_eq_none_of_baseOf_lt {p : Partition} {k : Int} (h : baseOf p < k) : p.get k = none := by
  by_contra hne
  have hmem := (p.mem_keys_iff k).mpr (Option.isSome_iff_ne_none.mpr hne)
  exact absurd ((baseOf_spec p).2 k (List.mem_cons_of_mem _ hmem)) (not_le.mpr h)

theorem NoFreeBelow.isSome {p : Partition} (h : NoFreeBelow p) {k : Int} (hk : counterOf p < k)
    (hle : k ≤ baseOf p) : (p.get k).isSome := by
  rcases List.mem_cons.mp (baseOf_spec p).1 with hbase | hbase
  · omega
  · exact h k (baseOf p) hk hle ((p.mem_keys_iff _).mp hbase)

theorem CounterOk.nonneg {p : Partition} (h : CounterOk p) : 0 ≤ counterOf p := by
  unfold counterOf
  split
  · rename_i c hc
    obtain ⟨c', hc', hle⟩ := h _ hc
    cases hc'
    exact hle
  · exact le_refl 0

/-- A counter condition that holds says where the counter stands. -/
theorem counterOf_of_standsAt {p : Partition} {expected : Int}
    (hstands : counterStandsAt expected (p.get counterSeq) = true) : counterOf p = expected := by
  unfold counterStandsAt at hstands
  rw [Bool.or_eq_true, Bool.and_eq_true, decide_eq_true_iff, decide_eq_true_iff] at hstands
  unfold counterOf
  rcases hstands with ⟨rfl, hnone⟩ | hsome
  · rw [Option.isNone_iff_eq_none.mp hnone]
  · rw [hsome]

/-! ## What stays -/

/-- What is stored under a key other than the counter's stays. -/
def Grows (p q : Partition) : Prop := ∀ k ≠ 0, ∀ item, p.get k = some item → q.get k = some item

theorem Grows.refl (p : Partition) : Grows p p := fun _ _ _ h => h

theorem Grows.trans {p q r : Partition} (h : Grows p q) (h' : Grows q r) : Grows p r :=
  fun k hk item hitem => h' k hk item (h k hk item hitem)

/-- A floor is a number that is occupied, or none. -/
def FloorOk (p : Partition) (floor : Int) : Prop := floor = 0 ∨ 0 < floor ∧ (p.get floor).isSome

/-- The claim key of an op is that of another op that is stored. -/
def Foreign (json : ExtraJson V) (sha256 : String → Vector UInt8 32) (stream : StreamId)
    (p : Partition) (op : WireOp V) : Prop :=
  ∃ (other : WireOp V) (s : Int), other.opId ≠ op.opId ∧
    claimSeq sha256 other.opId = claimSeq sha256 op.opId ∧ 0 < s ∧
    p.get s = some (opItem json stream s other)

/-- An op id is stored at a number. -/
def StoredAt (json : ExtraJson V) (stream : StreamId) (p : Partition) (opId : String) (s : Int) :
    Prop :=
  ∃ op : WireOp V, op.opId = opId ∧ p.get s = some (opItem json stream s op)

section Grow

variable {p q : Partition} (h : Grows p q)
include h

theorem Grows.isSome {k : Int} (hk : k ≠ 0) (hsome : (p.get k).isSome) : (q.get k).isSome := by
  obtain ⟨item, hitem⟩ := Option.isSome_iff_exists.mp hsome
  rw [h k hk item hitem]
  rfl

theorem FloorOk.grows {floor : Int} (hf : FloorOk p floor) : FloorOk q floor := by
  rcases hf with rfl | ⟨hpos, hsome⟩
  · exact .inl rfl
  · exact .inr ⟨hpos, h.isSome hpos.ne' hsome⟩

theorem Foreign.grows {op : WireOp V} (hf : Foreign json sha256 stream p op) :
    Foreign json sha256 stream q op := by
  obtain ⟨other, s, hne, hkey, hpos, hget⟩ := hf
  exact ⟨other, s, hne, hkey, hpos, h s hpos.ne' _ hget⟩

theorem ClaimsOk.grows_claim {k : Int} {item : Item}
    (hc : ∃ (op : WireOp V) (s : Int), 0 < s ∧ claimSeq sha256 op.opId = k ∧
      item = claimItem stream k op.opId s ∧ p.get s = some (opItem json stream s op)) :
    ∃ (op : WireOp V) (s : Int), 0 < s ∧ claimSeq sha256 op.opId = k ∧
      item = claimItem stream k op.opId s ∧ q.get s = some (opItem json stream s op) := by
  obtain ⟨op, s, hpos, hkey, hitem, hget⟩ := hc
  exact ⟨op, s, hpos, hkey, hitem, h s hpos.ne' _ hget⟩

end Grow

/-! ## The numbers -/

/-- **The transactions that went through took the numbers above the base, one after another**, and
nothing else has changed. -/
structure Numbers (json : ExtraJson V) (sha256 : String → Vector UInt8 32) (stream : StreamId)
    (p : Partition) (now : Partition) (committed : List (Sent V)) : Prop where
  counter_ok : CounterOk now
  claims_ok : ClaimsOk json sha256 stream now
  counter : counterOf now = if committed = [] then counterOf p else baseOf p + committed.length
  older : Grows p now
  new : ∀ (i : Nat) t, committed[i]? = some t → t.slot.seq = baseOf p + 1 + i ∧
    now.get t.slot.seq = some (opItem json stream t.slot.seq t.op)
  op : ∀ k > 0, ∀ item, now.get k = some item →
    k ≤ baseOf p + committed.length ∧ ∃ op : WireOp V, item = opItem json stream k op
  only : ∀ k > 0, ∀ item, now.get k = some item → p.get k = some item ∨
    ∃ t ∈ committed, t.slot.seq = k ∧ item = opItem json stream k t.op
  claimed : ∀ t ∈ committed, t.claimed = true → (now.get (claimSeq sha256 t.op.opId)).isSome

/-- A request that was sent: its number is one above its counter or above an occupied one, it checks
the op below unless there is none, and it goes without a claim over a foreign one only. -/
structure SentOk (json : ExtraJson V) (sha256 : String → Vector UInt8 32) (stream : StreamId)
    (now : Partition) (t : Sent V) : Prop where
  seq : ∃ floor, FloorOk now floor ∧ t.slot.seq = max t.slot.expected floor + 1
  check : t.check = .none → t.slot.seq ≤ 1
  foreign : t.claimed = false → Foreign json sha256 stream now t.op

theorem Numbers.start {p : Partition} (h : Older json sha256 stream p) :
    Numbers json sha256 stream p p [] where
  counter_ok := h.counter
  claims_ok := h.claims
  counter := rfl
  older := Grows.refl p
  new _ _ ht := by cases ht
  op k hk item hitem := by
    refine ⟨?_, (h.ops k hk item hitem).2⟩
    by_contra hlt
    rw [List.length_nil, Nat.cast_zero, add_zero, not_le] at hlt
    rw [get_eq_none_of_baseOf_lt hlt] at hitem
    cases hitem
  only _ _ _ hitem := .inl hitem
  claimed _ ht := by cases ht

/-- What goes through is written to free keys. -/
theorem grows_commit {now : Partition} {t : Sent V}
    (hgoes : conditionsHold now (t.tx json sha256 stream) = true) :
    Grows now (commit now (t.tx json sha256 stream)) := by
  obtain ⟨-, hclaim, hnone⟩ := conditionsHold_appendTx hgoes
  intro k hk item hitem
  unfold Sent.tx
  rw [get_commit_appendTx, if_neg, if_neg, if_neg (by exact hk)]
  · exact hitem
  · rintro ⟨rfl, hclaimed⟩
    rw [hclaim hclaimed] at hitem
    cases hitem
  · rintro rfl
    rw [hnone] at hitem
    cases hitem

section Commit

variable {p now : Partition} {committed : List (Sent V)}
  (h : Numbers json sha256 stream p now committed)
include h

theorem Numbers.floor_le {floor : Int} (hfloor : FloorOk now floor) (hp : CounterOk p) :
    floor ≤ baseOf p + committed.length := by
  rcases hfloor with rfl | ⟨hpos, hsome⟩
  · have := hp.nonneg
    have := counterOf_le_baseOf p
    omega
  · obtain ⟨item, hitem⟩ := Option.isSome_iff_exists.mp hsome
    exact (h.op floor hpos item hitem).1

/-- **The number of a transaction that goes through is the next one.** -/
theorem Numbers.seq_eq (hp : CounterOk p) (hfree : NoFreeBelow p) {t : Sent V}
    (ht : SentOk json sha256 stream now t)
    (hgoes : conditionsHold now (t.tx json sha256 stream) = true) :
    t.slot.seq = baseOf p + 1 + committed.length := by
  obtain ⟨hcounter, -, hnone⟩ := conditionsHold_appendTx hgoes
  obtain ⟨floor, hfloor, hseq⟩ := ht.seq
  have hexpected := counterOf_of_standsAt hcounter
  have hfloor_le := h.floor_le hfloor hp
  have hbase := counterOf_le_baseOf p
  have hnow := h.counter
  by_cases hnil : committed = []
  · subst hnil
    rw [if_pos rfl] at hnow
    simp only [List.length_nil, Nat.cast_zero, add_zero] at hfloor_le ⊢
    -- A lower number would be one above the counter and below an older op, so not free.
    by_contra hne
    have hlt : counterOf p < t.slot.seq := by omega
    have hsome := hfree.isSome hlt (by omega)
    have hpos := hp.nonneg
    have := h.older.isSome (by omega) hsome
    rw [hnone] at this
    cases this
  · rw [if_neg hnil] at hnow
    omega

theorem Numbers.commit (hp : CounterOk p) (hfree : NoFreeBelow p) {t : Sent V}
    (ht : SentOk json sha256 stream now t)
    (hgoes : conditionsHold now (t.tx json sha256 stream) = true) :
    Numbers json sha256 stream p (commit now (t.tx json sha256 stream)) (committed ++ [t]) := by
  have hseq := h.seq_eq hp hfree ht hgoes
  have hgrows := grows_commit hgoes
  have hbase := counterOf_le_baseOf p
  have hzero := hp.nonneg
  have hneg := claimSeq_neg sha256 t.op.opId
  have hget : ∀ k, (Server.commit now (t.tx json sha256 stream)).get k = _ :=
    get_commit_appendTx now stream t.slot t.check t.op t.claimed
  have hcounter : ((Server.commit now (t.tx json sha256 stream)).get counterSeq).bind
      (Item.get · "next_seq") = some (.n t.slot.seq) := by
    rw [hget, if_neg (by unfold counterSeq; omega), if_neg (by unfold counterSeq; omega),
      if_pos rfl]
    exact Item.get_set _ _ _
  have hop : (Server.commit now (t.tx json sha256 stream)).get t.slot.seq
      = some (opItem json stream t.slot.seq t.op) := by
    rw [hget, if_pos rfl]
  refine ⟨?_, ?_, ?_, h.older.trans hgrows, ?_, ?_, ?_, ?_⟩
  · intro v hv
    rw [hcounter] at hv
    cases hv
    exact ⟨_, rfl, by omega⟩
  · intro k hk item hitem
    rw [hget, if_neg (by omega)] at hitem
    by_cases hclaim : k = claimSeq sha256 t.op.opId ∧ t.claimed = true
    · rw [if_pos hclaim] at hitem
      cases hitem
      exact ⟨t.op, t.slot.seq, by omega, hclaim.1.symm, by rw [hclaim.1], hop⟩
    · rw [if_neg hclaim, if_neg (by unfold counterSeq; omega)] at hitem
      exact ClaimsOk.grows_claim hgrows (h.claims_ok k hk item hitem)
  · unfold counterOf
    rw [hcounter, if_neg (by simp), List.length_append, List.length_singleton]
    push_cast
    omega
  · intro i t' ht'
    by_cases hi : i < committed.length
    · rw [List.getElem?_append_left hi] at ht'
      obtain ⟨hseq', hget'⟩ := h.new i t' ht'
      exact ⟨hseq', hgrows _ (by omega) _ hget'⟩
    · have hlen := (List.getElem?_eq_some_iff.mp ht').1
      rw [List.length_append, List.length_singleton] at hlen
      obtain rfl : i = committed.length := by omega
      rw [List.getElem?_concat_length] at ht'
      cases ht'
      exact ⟨hseq, hop⟩
  · intro k hk item hitem
    rw [List.length_append, List.length_singleton]
    rw [hget] at hitem
    by_cases hkseq : k = t.slot.seq
    · rw [if_pos hkseq] at hitem
      cases hitem
      exact ⟨by push_cast; omega, t.op, by rw [hkseq]⟩
    · rw [if_neg hkseq, if_neg (by omega), if_neg (by unfold counterSeq; omega)] at hitem
      obtain ⟨hle, hop'⟩ := h.op k hk item hitem
      exact ⟨by push_cast; omega, hop'⟩
  · intro k hk item hitem
    rw [hget] at hitem
    by_cases hkseq : k = t.slot.seq
    · rw [if_pos hkseq] at hitem
      cases hitem
      exact .inr ⟨t, List.mem_append_right _ List.mem_cons_self, hkseq.symm, by rw [hkseq]⟩
    · rw [if_neg hkseq, if_neg (by omega), if_neg (by unfold counterSeq; omega)] at hitem
      rcases h.only k hk item hitem with hold | ⟨t', ht', hseq', hitem'⟩
      · exact .inl hold
      · exact .inr ⟨t', List.mem_append_left _ ht', hseq', hitem'⟩
  · intro t' ht' hclaimed
    rcases List.mem_append.mp ht' with ht' | ht'
    · exact hgrows.isSome (claimSeq_neg sha256 _).ne (h.claimed t' ht' hclaimed)
    · rw [List.mem_singleton.mp ht'] at hclaimed ⊢
      rw [hget, if_neg (by omega), if_pos ⟨rfl, hclaimed⟩]
      rfl

end Commit

/-! ## What is visible -/

/-- **Only the op at the top may be invisible.** -/
structure Visible (t : StreamTable) (top : Int) : Prop where
  shown : Grows t.shown t.now
  settled : ∀ k > 0, k ∉ t.writing → t.shown.get k = t.now.get k
  hidden : ∀ k > 0, k ∈ t.writing → k = top ∧ t.shown.get k = none

theorem Visible.start (p : Partition) (top : Int) : Visible (.still p) top where
  shown := Grows.refl p
  settled _ _ _ := rfl
  hidden _ _ hk := by cases hk

theorem mem_writtenKeys_tx {t : Sent V} {k : Int} :
    k ∈ writtenKeys (t.tx json sha256 stream) ↔
      k = 0 ∨ t.claimed = true ∧ k = claimSeq sha256 t.op.opId ∨ k = t.slot.seq := by
  have hcheck : (checkItems t.slot t.check).filter (fun item => item.write.isSome) = [] := by
    unfold checkItems
    split_ifs
    · rfl
    · cases t.slot.predecessor <;> rfl
  unfold writtenKeys Sent.tx appendTx
  rw [List.filter_append, List.filter_append, List.filter_append, hcheck]
  cases t.claimed <;> simp [counterUpdate, putNew, counterSeq]

/-- A transaction that takes a number above 1 names the number below. -/
theorem predecessor_mem_tx {t : Sent V} (hcheck : t.check ≠ .none) (hseq : 1 < t.slot.seq) :
    ∃ item ∈ t.tx json sha256 stream, item.key = t.slot.seq - 1 := by
  refine ⟨predecessorCheck (t.slot.seq - 1) t.check, ?_, rfl⟩
  unfold Sent.tx appendTx checkItems Slot.predecessor
  simp [hcheck, hseq]

section

variable {t : StreamTable} {p : Partition} {committed : List (Sent V)}
  (hv : Visible t (baseOf p + committed.length))
  (h : Numbers json sha256 stream p t.now committed)
include hv h

/-- Nothing below the next number is still invisible when its transaction goes through. -/
theorem Visible.all_shown (hp : CounterOk p) (hfree : NoFreeBelow p) {s : Sent V}
    (hs : SentOk json sha256 stream t.now s) (hadmits : t.Admits (s.tx json sha256 stream)) {k : Int}
    (hk : 0 < k) : k ∉ t.writing := by
  intro hmem
  have hseq := h.seq_eq hp hfree hs hadmits.1
  obtain ⟨htop, -⟩ := hv.hidden k hk hmem
  have hcheck : s.check ≠ .none := fun hnone => absurd (hs.check hnone) (by omega)
  have hbelow : ∃ item ∈ s.tx json sha256 stream, item.key = s.slot.seq - 1 :=
    predecessor_mem_tx hcheck (by omega)
  obtain ⟨item, hitem, hkey⟩ := hbelow
  refine hadmits.2 item hitem ?_
  rw [hkey, show s.slot.seq - 1 = k by omega]
  exact hmem

theorem Visible.commit (hp : CounterOk p) (hfree : NoFreeBelow p) {s : Sent V}
    (hs : SentOk json sha256 stream t.now s) (hadmits : t.Admits (s.tx json sha256 stream)) :
    Visible (t.commit (s.tx json sha256 stream)) (baseOf p + (committed ++ [s]).length) := by
  have hseq := h.seq_eq hp hfree hs hadmits.1
  obtain ⟨-, -, hnone⟩ := conditionsHold_appendTx hadmits.1
  have hneg := claimSeq_neg sha256 s.op.opId
  refine ⟨hv.shown.trans (grows_commit hadmits.1), fun k hk hnot => ?_, fun k hk hmem => ?_⟩
  · simp only [StreamTable.commit, List.mem_append, not_or, mem_writtenKeys_tx] at hnot ⊢
    obtain ⟨hold, -, -, hkseq⟩ := hnot
    rw [hv.settled k hk hold]
    unfold Sent.tx
    rw [get_commit_appendTx, if_neg hkseq, if_neg (by omega), if_neg (by unfold counterSeq; omega)]
  · simp only [StreamTable.commit, List.mem_append, mem_writtenKeys_tx] at hmem ⊢
    have hnot := hv.all_shown h hp hfree hs hadmits hk
    obtain rfl : k = s.slot.seq := by
      rcases hmem with hmem | hmem | hmem | hmem
      · exact absurd hmem hnot
      · omega
      · omega
      · exact hmem
    refine ⟨by simp only [List.length_append, List.length_singleton]; push_cast; omega, ?_⟩
    rw [hv.settled _ hk hnot, hnone]

end

theorem Visible.reveal {t : StreamTable} {top : Int} (hv : Visible t top) (k : Int)
    (hmem : k ∈ t.writing) : Visible (t.reveal k) top := by
  have hget : ∀ j, (t.reveal k).shown.get j =
      if j = k then (t.now.get k).or (t.shown.get k) else t.shown.get j := by
    intro j
    unfold StreamTable.reveal
    cases hk : t.now.get k with
    | none =>
      by_cases hj : j = k
      · rw [if_pos hj, hj]
        rfl
      · rw [if_neg hj]
    | some item =>
      simp only [KeyMap.get_insert]
      rfl
  have hwriting : ∀ j, j ∈ (t.reveal k).writing ↔ j ∈ t.writing ∧ j ≠ k := by
    intro j
    simp [StreamTable.reveal]
  refine ⟨fun j hj item hitem => ?_, fun j hj hnot => ?_, fun j hj hmem' => ?_⟩
  · rw [hget] at hitem
    by_cases hjk : j = k
    · subst hjk
      rw [if_pos rfl, Option.or_eq_some_iff] at hitem
      rcases hitem with hitem | ⟨-, hitem⟩
      · exact hitem
      · exact hv.shown j hj item hitem
    · rw [if_neg hjk] at hitem
      exact hv.shown j hj item hitem
  · rw [hwriting, not_and_or, not_not] at hnot
    rw [hget]
    by_cases hjk : j = k
    · subst hjk
      rw [if_pos rfl, (hv.hidden j hj hmem).2, Option.or_none]
      rfl
    · rw [if_neg hjk, hv.settled j hj (hnot.resolve_right hjk)]
      rfl
  · obtain ⟨hmem', hne⟩ := (hwriting j).mp hmem'
    rw [hget, if_neg hne]
    exact hv.hidden j hj hmem'

/-! ## The appends -/

section Callers

variable (json sha256 stream) in
/-- An append: what it has learnt is so. -/
structure AppenderOk (now : Partition) (a : Appender V) : Prop where
  floor : FloorOk now a.loop.next.floor
  foreign : a.loop.next.claimed = false → Foreign json sha256 stream now a.op
  awaiting : ∀ slot check, a.phase = .awaiting slot check → 0 < slot.seq
  findTop : ∀ slot, a.phase = .findTop slot → 0 < slot.seq ∧ (now.get slot.seq).isSome
  written : ∀ seq, a.phase = .settled (.written seq) →
    0 < seq ∧ now.get seq = some (opItem json stream seq a.op)
  existing : ∀ seq, a.phase = .settled (.existing seq) →
    0 < seq ∧ StoredAt json stream now a.op.opId seq

variable (json sha256 stream) in
/-- An outcome of a round that is so. -/
def OutcomeOk (now : Partition) (op : WireOp V) : PutOutcome → Prop
  | .written seq => 0 < seq ∧ now.get seq = some (opItem json stream seq op)
  | .existing seq => 0 < seq ∧ StoredAt json stream now op.opId seq
  | .seqTaken _ top => FloorOk now top
  | .claimForeign => Foreign json sha256 stream now op
  | _ => True

variable {now next : Partition} {a : Appender V}

theorem AppenderOk.grows (hgrows : Grows now next) (h : AppenderOk json sha256 stream now a) :
    AppenderOk json sha256 stream next a where
  floor := h.floor.grows hgrows
  foreign hc := (h.foreign hc).grows hgrows
  awaiting := h.awaiting
  findTop slot hphase :=
    ⟨(h.findTop slot hphase).1,
      hgrows.isSome (h.findTop slot hphase).1.ne' (h.findTop slot hphase).2⟩
  written seq hphase :=
    ⟨(h.written seq hphase).1, hgrows _ (h.written seq hphase).1.ne' _ (h.written seq hphase).2⟩
  existing seq hphase := by
    obtain ⟨hpos, op, hid, hget⟩ := h.existing seq hphase
    exact ⟨hpos, op, hid, hgrows _ hpos.ne' _ hget⟩

theorem SentOk.grows (hgrows : Grows now next) {t : Sent V} (h : SentOk json sha256 stream now t) :
    SentOk json sha256 stream next t where
  seq := by
    obtain ⟨floor, hfloor, hseq⟩ := h.seq
    exact ⟨floor, hfloor.grows hgrows, hseq⟩
  check := h.check
  foreign hc := (h.foreign hc).grows hgrows

/-- An append that is over, or not begun, has only its round to be right about. -/
theorem AppenderOk.of_round {op : WireOp V} {loop : Loop} {phase : Phase}
    (hfloor : FloorOk now loop.next.floor)
    (hforeign : loop.next.claimed = false → Foreign json sha256 stream now op)
    (hphase : phase = .round ∨ phase = .failed ∨ phase = .readClaim) :
    AppenderOk json sha256 stream now ⟨op, loop, phase⟩ := by
  refine ⟨hfloor, hforeign, ?_, ?_, ?_, ?_⟩ <;> rcases hphase with rfl | rfl | rfl <;>
    intros <;> contradiction

theorem FloorOk.max {f g : Int} (hf : FloorOk now f) (hg : FloorOk now g) :
    FloorOk now (max f g) := by
  rcases le_total f g with hle | hle
  · rwa [max_eq_right hle]
  · rwa [max_eq_left hle]

/-- What a stalled round leaves for the next one is so. -/
theorem AppenderOk.stalled (h : AppenderOk json sha256 stream now a) {outcome : PutOutcome}
    (ho : OutcomeOk json sha256 stream now a.op outcome) :
    FloorOk now (a.loop.next.stalled outcome).floor ∧
      ((a.loop.next.stalled outcome).claimed = false → Foreign json sha256 stream now a.op) := by
  cases outcome with
  | seqTaken counter top => exact ⟨h.floor.max ho, h.foreign⟩
  | claimForeign => exact ⟨h.floor, fun _ => ho⟩
  | written seq => exact ⟨h.floor, h.foreign⟩
  | existing seq => exact ⟨h.floor, h.foreign⟩
  | lost seen => exact ⟨h.floor, h.foreign⟩
  | predecessor counter seq absent => exact ⟨h.floor, h.foreign⟩
  | throttled => exact ⟨h.floor, h.foreign⟩
  | claimVanished => exact ⟨h.floor, h.foreign⟩

/-- What a turn of the retry loop makes of an outcome. -/
theorem Loop.afterRound_cases (stream : StreamId) (loop : Loop) (outcome : PutOutcome) :
    (∃ e, loop.afterRound stream outcome = .error e) ∨
    (∃ seq, outcome = .written seq ∧
      loop.afterRound stream outcome = .ok (.inl (.written seq))) ∨
    (∃ seq, outcome = .existing seq ∧
      loop.afterRound stream outcome = .ok (.inl (.existing seq))) ∨
    ∃ next, loop.afterRound stream outcome = .ok (.inr next) ∧
      (next.next = loop.next.stalled outcome ∨
        next.next.floor = loop.next.floor ∧ next.next.claimed = loop.next.claimed) := by
  have hstall : ∀ stalled, (∃ e, loop.afterStall stream stalled = .error e) ∨
      ∃ next, loop.afterStall stream stalled = .ok (.inr next) ∧
        (next.next = loop.next.stalled stalled ∨
          next.next.floor = loop.next.floor ∧ next.next.claimed = loop.next.claimed) := by
    intro stalled
    unfold Loop.afterStall
    split_ifs
    · exact .inl ⟨_, rfl⟩
    · exact .inr ⟨_, rfl, .inl rfl⟩
  cases outcome with
  | written seq => exact .inr (.inl ⟨seq, rfl, rfl⟩)
  | existing seq => exact .inr (.inr (.inl ⟨seq, rfl, rfl⟩))
  | lost seen =>
    unfold Loop.afterRound
    split_ifs
    · exact .inl ⟨_, rfl⟩
    · exact .inr (.inr (.inr ⟨_, rfl, .inr ⟨rfl, rfl⟩⟩))
  | seqTaken counter top =>
    exact (hstall _).imp_right fun hgoes => .inr (.inr hgoes)
  | predecessor counter seq absent =>
    exact (hstall _).imp_right fun hgoes => .inr (.inr hgoes)
  | throttled =>
    exact (hstall _).imp_right fun hgoes => .inr (.inr hgoes)
  | claimForeign =>
    exact (hstall _).imp_right fun hgoes => .inr (.inr hgoes)
  | claimVanished =>
    exact (hstall _).imp_right fun hgoes => .inr (.inr hgoes)

/-- **An append that goes on from an outcome that is so is right.** -/
theorem AppenderOk.after (h : AppenderOk json sha256 stream now a) {outcome : PutOutcome}
    (ho : OutcomeOk json sha256 stream now a.op outcome) :
    AppenderOk json sha256 stream now (a.after stream outcome) := by
  unfold Appender.after
  rcases Loop.afterRound_cases stream a.loop outcome with
    ⟨e, heq⟩ | ⟨seq, rfl, heq⟩ | ⟨seq, rfl, heq⟩ | ⟨next, heq, hnext⟩ <;> rw [heq]
  · exact .of_round h.floor h.foreign (.inr (.inl rfl))
  · refine ⟨h.floor, h.foreign, ?_, ?_, ?_, ?_⟩ <;> intro s <;> intros <;> rename_i hphase <;>
      cases hphase
    exact ho
  · refine ⟨h.floor, h.foreign, ?_, ?_, ?_, ?_⟩ <;> intro s <;> intros <;> rename_i hphase <;>
      cases hphase
    exact ho
  · rcases hnext with hnext | ⟨hfloor, hclaimed⟩
    · have hstalled := h.stalled ho
      rw [← hnext] at hstalled
      exact .of_round hstalled.1 hstalled.2 (.inl rfl)
    · exact .of_round (hfloor ▸ h.floor) (fun hc => h.foreign (hclaimed ▸ hc)) (.inl rfl)

/-- What a cancelled transaction asks for: an outcome that claims nothing of the table, the claim,
or the top when the op's number was reported occupied. -/
theorem settleReasons_cases {slot : Slot} {check : Predecessor} {claimed : Bool}
    {codes : List (Option String)} {counterItem : Option Item} {detail : String} {settle : Settle}
    (h : settleReasons stream slot check claimed codes counterItem detail = .ok settle) :
    (∃ outcome, settle = .outcome outcome ∧
      ∀ (json : ExtraJson V) (sha256 : String → Vector UInt8 32) (now : Partition) (op : WireOp V),
        OutcomeOk json sha256 stream now op outcome) ∨
    settle = .readClaim ∨
    settle = .findTop ∧ codeAt codes (some (TxLayout.op ⟨claimed, check ≠ .none⟩)) =
      some conditionalCheckFailed := by
  unfold settleReasons at h
  split at h
  · cases h
  · rename_i cancellation hclassified
    cases hhint : counterHint counterItem with
    | error e =>
      rw [hhint] at h
      cases h
    | ok hint =>
      rw [hhint] at h
      cases h
      cases cancellation with
      | claimed => exact .inr (.inl rfl)
      | counterMoved => exact .inl ⟨_, rfl, fun _ _ _ _ => trivial⟩
      | predecessorFailed => exact .inl ⟨_, rfl, fun _ _ _ _ => trivial⟩
      | conflict => exact .inl ⟨_, rfl, fun _ _ _ _ => trivial⟩
      | throttled => exact .inl ⟨_, rfl, fun _ _ _ _ => trivial⟩
      | seqTaken =>
        refine .inr (.inr ⟨rfl, ?_⟩)
        unfold classifyAppendCancellation at hclassified
        dsimp only at hclassified
        split_ifs at hclassified <;> first | assumption | cases hclassified

theorem AppenderOk.afterReasons (h : AppenderOk json sha256 stream now a) {slot : Slot}
    {check : Predecessor} (hphase : a.phase = .awaiting slot check) {codes : List (Option String)}
    (htrue : codeAt codes (some (TxLayout.op ⟨a.loop.next.claimed, check ≠ .none⟩)) =
      some conditionalCheckFailed → (now.get slot.seq).isSome)
    (counterItem : Option Item) (detail : String) :
    AppenderOk json sha256 stream now
      (a.afterReasons stream slot check codes counterItem detail) := by
  unfold Appender.afterReasons
  cases hsettle : settleReasons stream slot check a.loop.next.claimed codes counterItem detail with
  | error e => exact .of_round h.floor h.foreign (.inr (.inl rfl))
  | ok settle =>
    rcases settleReasons_cases (V := V) hsettle with ⟨outcome, rfl, ho⟩ | rfl | ⟨rfl, hcode⟩
    · exact h.after (ho json sha256 now a.op)
    · exact .of_round h.floor h.foreign (.inr (.inr rfl))
    · refine ⟨h.floor, h.foreign, ?_, ?_, ?_, ?_⟩ <;> intro s <;> intros <;> rename_i heq <;>
        cases heq
      exact ⟨h.awaiting slot check hphase, htrue hcode⟩

/-- What reading a taken claim gives is so. -/
theorem outcomeOk_settleClaim {shown : Partition} (hshown : Grows shown now)
    (hclaims : ClaimsOk json sha256 stream now) {op : WireOp V} {found : Option (String × Int)}
    (hread : readClaim shown (claimSeq sha256 op.opId) = .ok found) :
    OutcomeOk json sha256 stream now op (settleClaim found op.opId) := by
  have hneg := claimSeq_neg sha256 op.opId
  unfold readClaim at hread
  split at hread
  · rename_i item hitem
    obtain ⟨other, s, hpos, hkey, rfl, hget⟩ :=
      hclaims _ hneg item (hshown _ hneg.ne item hitem)
    have hfound : found = some (other.opId, s) := by
      have hid : parseS (claimItem stream (claimSeq sha256 op.opId) other.opId s) "op_id"
          = .ok other.opId := rfl
      rw [hid] at hread
      cases hseq : parseN i64 (claimItem stream (claimSeq sha256 op.opId) other.opId s) "op_seq" with
      | error e =>
        rw [hseq] at hread
        cases hread
      | ok seq =>
        have hval : seq = s := by
          unfold parseN at hseq
          rw [show Item.get (claimItem stream (claimSeq sha256 op.opId) other.opId s) "op_seq"
            = some (.n s) from rfl] at hseq
          dsimp only at hseq
          split_ifs at hseq
          cases hseq
          rfl
        rw [hseq] at hread
        cases hread
        rw [hval]
    subst hfound
    unfold settleClaim
    by_cases hown : other.opId = op.opId
    · simp only [if_pos hown]
      exact ⟨hpos, other, hown, hget⟩
    · simp only [if_neg hown]
      exact ⟨other, s, hown, hkey, hpos, hget⟩
  · cases hread
    trivial

/-- What reading the top gives is so. -/
theorem outcomeOk_seqTakenAt {shown : Partition} (hshown : Grows shown now) {op : WireOp V}
    {slot : Slot} (hpos : 0 < slot.seq) (hsome : (now.get slot.seq).isSome) :
    OutcomeOk json sha256 stream now op (seqTakenAt slot (readTopSeq shown slot.expected)) := by
  have hslot : FloorOk now slot.seq := .inr ⟨hpos, hsome⟩
  unfold seqTakenAt OutcomeOk
  cases htop : readTopSeq shown slot.expected with
  | none => rwa [Option.getD_none, max_self]
  | some top =>
    rw [Option.getD_some]
    unfold readTopSeq at htop
    obtain ⟨⟨k, item⟩, hlast, rfl⟩ := Option.map_eq_some_iff.mp htop
    have hget := (mem_itemsAbove.mp (List.mem_of_getLast? hlast)).2
    rcases le_or_gt k slot.seq with hle | hlt
    · rwa [max_eq_right hle]
    · rw [max_eq_left hlt.le]
      have hk : 0 < k := hpos.trans hlt
      exact .inr ⟨hk, by rw [hshown k hk.ne' item hget]; rfl⟩

/-- What a round decides on and sends. -/
theorem AppenderOk.send (h : AppenderOk json sha256 stream now a) {shown : Partition} {slot : Slot}
    (hslot : nextSlot shown a.loop.next = .ok slot) :
    0 < slot.seq ∧ SentOk json sha256 stream now
      ⟨slot, a.loop.next.predecessorCheck slot, a.op, a.loop.next.claimed⟩ := by
  have hseq : slot.seq = max slot.expected a.loop.next.floor + 1 := by
    unfold nextSlot at hslot
    split at hslot
    · cases hslot
    · unfold Slot.after at hslot
      split_ifs at hslot
      cases hslot
      rfl
  have hfloor : 0 ≤ a.loop.next.floor := by
    rcases h.floor with hzero | ⟨hpos, -⟩ <;> omega
  refine ⟨by omega, ⟨_, h.floor, hseq⟩, fun hcheck => ?_, h.foreign⟩
  unfold Round.predecessorCheck Slot.predecessor at hcheck
  by_contra hlt
  rw [if_pos (not_le.mp hlt)] at hcheck
  dsimp only at hcheck
  split_ifs at hcheck

end Callers

/-! ## The reads -/

section Readers

variable {now : Partition}

/-- How far a read has come. -/
def Reader.position (r : Reader V) : Int :=
  max (max r.cursor 0) (r.reading.startKey.getD (max r.cursor 0))

/-- What was read up to `n`, from a cursor on: every op that is stored there, and the op at `n`
itself unless nothing was read. -/
structure ReadThrough (now : Partition) (cursor n : Int) (seen : List (Int × Item)) : Prop where
  complete : ∀ k item, max cursor 0 < k → k ≤ n → now.get k = some item → (k, item) ∈ seen
  last : n ≤ max cursor 0 ∨ (now.get n).isSome

/-- A read under way: it has seen all up to where it is, and its cursor says no more. -/
structure ReaderOk (json : ExtraJson V) (now : Partition) (r : Reader V) : Prop where
  through : ReadThrough now r.cursor r.position r.seen
  next : r.reading.next = r.cursor ∨ r.reading.next = r.position
  ops : ∀ e ∈ r.seen, ∃ op ∈ r.reading.ops, itemToWire json e.2 = .ok op

/-- A read that has returned: it has seen all up to the cursor it returned. -/
structure DoneOk (json : ExtraJson V) (now : Partition) (d : ReadDone V) : Prop where
  through : ReadThrough now d.cursor d.next d.seen
  ops : ∀ e ∈ d.seen, ∃ op ∈ d.ops, itemToWire json e.2 = .ok op

/-- A new op above all others is above what was read. -/
theorem ReadThrough.commit {now next : Partition} (hgrows : Grows now next) {cursor n : Int}
    {seen : List (Int × Item)} (h : ReadThrough now cursor n seen)
    (hnew : ∀ k > 0, ∀ item, next.get k = some item → now.get k = none →
      ∀ j > 0, (now.get j).isSome → j < k) : ReadThrough next cursor n seen where
  complete k item hk hle hitem := by
    have hpos : 0 < k := lt_of_le_of_lt (le_max_right _ _) hk
    cases hold : now.get k with
    | some old =>
      rw [hgrows k hpos.ne' old hold] at hitem
      cases hitem
      exact h.complete k item hk hle hold
    | none =>
      rcases h.last with hlast | hlast
      · exact absurd (hk.trans_le hle) (not_lt.mpr hlast)
      · exact absurd hle (not_le.mpr (hnew k hpos item hitem hold n (hpos.trans_le hle) hlast))
  last := by
    rcases h.last with hlast | hlast
    · exact .inl hlast
    · by_cases hn : n ≤ max cursor 0
      · exact .inl hn
      · have hpos : 0 < n := lt_of_le_of_lt (le_max_right _ _) (not_le.mp hn)
        exact .inr (hgrows.isSome hpos.ne' hlast)

/-- The items of a page are read in order: the last one is the next cursor, each gives its op. -/
theorem foldlM_push_ok {items : List Item} {reading next : Reading V}
    (h : items.foldlM (Reading.push json) reading = .ok next) :
    (items = [] ∧ next.next = reading.next ∨
      ∃ last, items.getLast? = some last ∧ parseN i64 last "seq" = .ok next.next) ∧
    (∀ op ∈ reading.ops, op ∈ next.ops) ∧
    ∀ item ∈ items, ∃ op ∈ next.ops, itemToWire json item = .ok op := by
  induction items using List.reverseRecOn generalizing next with
  | nil =>
    cases h
    exact ⟨.inl ⟨rfl, rfl⟩, fun _ hop => hop, fun _ hitem => absurd hitem List.not_mem_nil⟩
  | append_singleton items item ih =>
    rw [List.foldlM_append] at h
    cases hmid : items.foldlM (Reading.push json) reading with
    | error e =>
      rw [hmid] at h
      cases h
    | ok mid =>
      rw [hmid] at h
      obtain ⟨-, hops, hitems⟩ := ih hmid
      replace h : Reading.push json mid item = .ok next := by
        change [item].foldlM (Reading.push json) mid = .ok next at h
        simpa only [List.foldlM_cons, List.foldlM_nil, bind_pure] using h
      unfold Reading.push at h
      cases hseq : parseN i64 item "seq" with
      | error e =>
        rw [hseq] at h
        cases h
      | ok seq =>
        cases hop : itemToWire json item with
        | error e =>
          rw [hseq, hop] at h
          cases h
        | ok op =>
          rw [hseq, hop] at h
          cases h
          refine ⟨.inr ⟨item, List.getLast?_concat, hseq⟩, ?_, ?_⟩
          · exact fun o ho => List.mem_append_left _ (hops o ho)
          · intro i hi
            rcases List.mem_append.mp hi with hi | hi
            · obtain ⟨o, ho, heq⟩ := hitems i hi
              exact ⟨o, List.mem_append_left _ ho, heq⟩
            · rw [List.mem_singleton.mp hi]
              exact ⟨op, List.mem_append_right _ List.mem_cons_self, hop⟩

/-- A page that goes up to `n` holds every op up to `n` that is above where it began. -/
theorem ReadThrough.page {t : StreamTable} {top : Int} (hv : Visible t top)
    (htop : ∀ k > 0, (t.now.get k).isSome → k ≤ top) {cursor position : Int}
    {seen : List (Int × Item)} (h : ReadThrough t.now cursor position seen)
    (hpos : max cursor 0 ≤ position) {e : Nat} {n : Int} {last : Item}
    (hlast : ((itemsAbove t.shown position).take e).getLast? = some (n, last)) :
    ReadThrough t.now cursor n (seen ++ (itemsAbove t.shown position).take e) := by
  have hlastmem := List.mem_of_getLast? hlast
  obtain ⟨hn, hshown⟩ := mem_itemsAbove.mp (List.mem_of_mem_take hlastmem)
  have hzero : 0 ≤ position := (le_max_right _ _).trans hpos
  have hnow : t.now.get n = some last := hv.shown n (by omega) last hshown
  refine ⟨fun k item hk hle hitem => ?_, .inr (by rw [hnow]; rfl)⟩
  rcases le_or_gt k position with hkpos | hkpos
  · exact List.mem_append_left _ (h.complete k item hk hkpos hitem)
  · have hk0 : 0 < k := hzero.trans_lt hkpos
    -- The op at the top is the only one that may be invisible, and `n` is visible above it.
    have hvisible : k ∉ t.writing := by
      intro hmem
      obtain ⟨rfl, hnone⟩ := hv.hidden k hk0 hmem
      have hle' := htop n (by omega) (by rw [hnow]; rfl)
      obtain rfl : k = n := le_antisymm hle hle'
      rw [hnone] at hshown
      cases hshown
    have hfound : (k, item) ∈ itemsAbove t.shown position :=
      mem_itemsAbove.mpr ⟨hkpos, by rw [hv.settled k hk0 hvisible]; exact hitem⟩
    refine List.mem_append_right _ ?_
    rw [← List.take_append_drop e (itemsAbove t.shown position)] at hfound
    rcases List.mem_append.mp hfound with hfound | hfound
    · exact hfound
    · have hsorted := itemsAbove_sorted t.shown position
      rw [← List.take_append_drop e (itemsAbove t.shown position), List.pairwise_append] at hsorted
      have := hsorted.2.2 _ hlastmem _ hfound
      exact absurd hle (not_le.mpr this)

theorem parseN_eq_number {type : IntType} {item : Item} {key : String} {number value : Int}
    (hget : item.get key = some (.n number)) (h : parseN type item key = .ok value) :
    value = number := by
  unfold parseN at h
  rw [hget] at h
  dsimp only at h
  split_ifs at h
  cases h
  rfl

/-- What a turn of a read makes of the answer to its `Query`. -/
theorem Reader.turn_cases {r : Reader V} {response : Response} {out : Reader V ⊕ ReadDone V}
    (h : r.turn json response = some out) :
    ∃ mid, (response.items.map Prod.snd).foldlM (Reading.push json) r.reading = .ok mid ∧
      ((∃ key, response.lastEvaluatedKey = some key ∧ out = .inl ⟨r.cursor, r.page,
          { mid with startKey := some key }, r.seen ++ response.items⟩) ∨
        out = .inr ⟨r.cursor, mid.ops, mid.next, r.seen ++ response.items⟩) := by
  unfold Reader.turn Reading.turn at h
  cases hfold : (response.items.map Prod.snd).foldlM (Reading.push json) r.reading with
  | error e =>
    rw [hfold] at h
    cases h
  | ok mid =>
    rw [hfold] at h
    simp only [bind, Except.bind, pure, Except.pure] at h
    refine ⟨mid, rfl, ?_⟩
    split_ifs at h with hgoes
    · obtain ⟨key, hkey⟩ := Option.isSome_iff_exists.mp hgoes.1
      cases h
      exact .inl ⟨key, hkey, by rw [hkey]⟩
    · cases h
      exact .inr rfl

/-- **A turn of a read** keeps what it says: it goes on, or it returns. -/
theorem ReaderOk.turn {t : StreamTable} {top : Int} (hv : Visible t top)
    (hops : ∀ k > 0, ∀ item, t.now.get k = some item →
      k ≤ top ∧ ∃ op : WireOp V, item = opItem json stream k op)
    {r : Reader V} (h : ReaderOk json t.now r) (hlt : r.reading.ops.length < r.page)
    {cut : List (Int × Item) → Nat} {out : Reader V ⊕ ReadDone V}
    (hturn : r.turn json (query cut t.shown (max r.cursor 0) r.reading.startKey
      (r.page - r.reading.ops.length)) = some out) :
    (∀ next, out = .inl next → ReaderOk json t.now next) ∧
      ∀ done, out = .inr done → DoneOk json t.now done := by
  have hposition : max r.cursor 0 ≤ r.position := le_max_left _ _
  have htop : ∀ k > 0, (t.now.get k).isSome → k ≤ top := by
    intro k hk hsome
    obtain ⟨item, hitem⟩ := Option.isSome_iff_exists.mp hsome
    exact (hops k hk item hitem).1
  obtain ⟨e, he, hitems, hkey⟩ := query_spec cut t.shown (max r.cursor 0) r.reading.startKey
    (Nat.sub_pos_of_lt hlt)
  generalize query cut t.shown (max r.cursor 0) r.reading.startKey
    (r.page - r.reading.ops.length) = response at hturn hitems hkey
  replace hitems : response.items = (itemsAbove t.shown r.position).take e := hitems
  obtain ⟨mid, hfold, hout⟩ := Reader.turn_cases hturn
  obtain ⟨hnext, hold, hnew⟩ := foldlM_push_ok hfold
  have hseen : ∀ x ∈ r.seen ++ response.items, ∃ op ∈ mid.ops, itemToWire json x.2 = .ok op := by
    intro x hx
    rcases List.mem_append.mp hx with hx | hx
    · obtain ⟨op, hop, heq⟩ := h.ops x hx
      exact ⟨op, hold op hop, heq⟩
    · exact hnew x.2 (List.mem_map.mpr ⟨x, hx, rfl⟩)
  cases hlast : response.items.getLast? with
  | none =>
    -- Nothing was found: the read returns where it was.
    have hnil := List.getLast?_eq_none_iff.mp hlast
    rcases hout with ⟨key, hsome, rfl⟩ | rfl
    · obtain ⟨item, hitem⟩ := hkey key hsome
      rw [hlast] at hitem
      cases hitem
    · refine ⟨fun next heq => (by cases heq), fun done heq => ?_⟩
      cases heq
      refine ⟨?_, hseen⟩
      rw [hnil, List.map_nil] at hnext
      rcases hnext with ⟨-, hsame⟩ | ⟨last, hnone, -⟩
      · rw [hnil, List.append_nil, hsame]
        rcases h.next with hcursor | hpos
        · rw [hcursor]
          refine ⟨fun k item hk hle _ => ?_, .inl (le_max_left _ _)⟩
          exact absurd (hk.trans_le hle) (not_lt.mpr (le_max_left _ _))
        · rw [hpos]
          exact h.through
      · cases hnone
  | some last =>
    obtain ⟨n, item⟩ := last
    -- The last item is the op at its key, so its number is the next cursor.
    have hthrough : ReadThrough t.now r.cursor n (r.seen ++ response.items) := by
      rw [hitems] at hlast ⊢
      exact h.through.page hv htop hposition hlast
    obtain ⟨hn, hshown⟩ := mem_itemsAbove.mp (List.mem_of_mem_take (hitems ▸
      List.mem_of_getLast? hlast))
    have hn0 : 0 < n := lt_of_le_of_lt ((le_max_right _ _).trans hposition) hn
    obtain ⟨-, op, rfl⟩ := hops n hn0 item (hv.shown n hn0.ne' item hshown)
    have hnextn : mid.next = n := by
      rcases hnext with ⟨hnil, -⟩ | ⟨last, hlast', hparse⟩
      · rw [List.map_eq_nil_iff] at hnil
        rw [hnil] at hlast
        cases hlast
      · rw [List.getLast?_map, hlast] at hlast'
        cases hlast'
        exact parseN_eq_number rfl hparse
    rcases hout with ⟨key, hsome, rfl⟩ | rfl
    · obtain ⟨item', hitem'⟩ := hkey key hsome
      rw [hlast] at hitem'
      cases hitem'
      have hpos : Reader.position (⟨r.cursor, r.page, { mid with startKey := some n },
          r.seen ++ response.items⟩ : Reader V) = n := by
        have : max r.cursor 0 ≤ n := hposition.trans hn.le
        exact max_eq_right this
      refine ⟨fun next heq => ?_, fun done heq => by cases heq⟩
      cases heq
      exact ⟨hpos.symm ▸ hthrough, .inr (hnextn.trans hpos.symm), hseen⟩
    · refine ⟨fun next heq => (by cases heq), fun done heq => ?_⟩
      cases heq
      exact ⟨hnextn.symm ▸ hthrough, hseen⟩

end Readers

/-! ## The world -/

section World

variable {p : Partition}

/-- **The invariant of the world.** -/
structure WorldOk (json : ExtraJson V) (sha256 : String → Vector UInt8 32) (stream : StreamId)
    (p : Partition) (w : World V) : Prop where
  numbers : Numbers json sha256 stream p w.table.now w.committed
  visible : Visible w.table (baseOf p + w.committed.length)
  sent : ∀ t ∈ w.sent, SentOk json sha256 stream w.table.now t
  appenders : ∀ a ∈ w.appenders, AppenderOk json sha256 stream w.table.now a
  unclaimed : ∀ t ∈ w.committed, t.claimed = false → Foreign json sha256 stream w.table.now t.op
  once : ∀ (i j : Nat) (t t' : Sent V), i < j → w.committed[i]? = some t → w.committed[j]? = some t' →
    t.op.opId = t'.op.opId → Foreign json sha256 stream w.table.now t'.op
  readers : ∀ r ∈ w.readers, ReaderOk json w.table.now r
  reads : ∀ d ∈ w.reads, DoneOk json w.table.now d

theorem WorldOk.start (h : Older json sha256 stream p) :
    WorldOk json sha256 stream p (World.start p) where
  numbers := .start h
  visible := .start p _
  sent _ ht := by cases ht
  appenders _ ha := by cases ha
  unclaimed _ ht := by cases ht
  once _ _ _ _ _ ht := by cases ht
  readers _ hr := by cases hr
  reads _ hd := by cases hd

/-- An append put in the place of another. -/
theorem WorldOk.setAppender {w : World V} (h : WorldOk json sha256 stream p w) (i : Nat)
    {a : Appender V} (ha : AppenderOk json sha256 stream w.table.now a) :
    WorldOk json sha256 stream p (w.setAppender i a) :=
  { h with
    appenders := by
      intro b hb
      rcases List.mem_or_eq_of_mem_set hb with hb | rfl
      · exact h.appenders b hb
      · exact ha }

theorem Foreign.congr {now : Partition} {op op' : WireOp V} (hid : op.opId = op'.opId)
    (h : Foreign json sha256 stream now op) : Foreign json sha256 stream now op' := by
  unfold Foreign at h ⊢
  rwa [← hid]

/-- A transaction goes through. -/
theorem WorldOk.commit (hp : CounterOk p) (hfree : NoFreeBelow p) {w : World V}
    (h : WorldOk json sha256 stream p w) {t : Sent V} (ht : t ∈ w.sent)
    (hadmits : w.table.Admits (t.tx json sha256 stream)) :
    WorldOk json sha256 stream p { w with
      table := w.table.commit (t.tx json sha256 stream), committed := w.committed ++ [t] } := by
  have hsent := h.sent t ht
  have hgrows : Grows w.table.now (Server.commit w.table.now (t.tx json sha256 stream)) :=
    grows_commit hadmits.1
  have hnumbers := h.numbers.commit hp hfree hsent hadmits.1
  -- The one new op is above every other.
  have hnew : ∀ k > 0, ∀ item, (Server.commit w.table.now (t.tx json sha256 stream)).get k
      = some item → w.table.now.get k = none → ∀ j > 0, (w.table.now.get j).isSome → j < k := by
    intro k hk item hitem hnone j hj hsome
    have hseq := h.numbers.seq_eq hp hfree hsent hadmits.1
    have hkseq : k = t.slot.seq := by
      by_contra hne
      have hneg := claimSeq_neg sha256 t.op.opId
      unfold Sent.tx at hitem
      rw [get_commit_appendTx, if_neg hne, if_neg (by omega), if_neg (by unfold counterSeq; omega),
        hnone] at hitem
      cases hitem
    obtain ⟨item', hitem'⟩ := Option.isSome_iff_exists.mp hsome
    have := (h.numbers.op j hj item' hitem').1
    omega
  refine ⟨hnumbers, h.visible.commit h.numbers hp hfree hsent hadmits,
    fun s hs => (h.sent s hs).grows hgrows, fun a ha => (h.appenders a ha).grows hgrows, ?_, ?_,
    fun r hr => ⟨(h.readers r hr).through.commit hgrows hnew, (h.readers r hr).next,
      (h.readers r hr).ops⟩,
    fun d hd => ⟨(h.reads d hd).through.commit hgrows hnew, (h.reads d hd).ops⟩⟩
  · intro s hs hclaimed
    rcases List.mem_append.mp hs with hs | hs
    · exact (h.unclaimed s hs hclaimed).grows hgrows
    · rw [List.mem_singleton.mp hs] at hclaimed ⊢
      exact (hsent.foreign hclaimed).grows hgrows
  · intro i j s s' hij hs hs' hid
    have hjlen := (List.getElem?_eq_some_iff.mp hs').1
    rw [List.length_append, List.length_singleton] at hjlen
    rw [List.getElem?_append_left (by omega)] at hs
    by_cases hj : j < w.committed.length
    · rw [List.getElem?_append_left hj] at hs'
      exact (h.once i j s s' hij hs hs' hid).grows hgrows
    · obtain rfl : j = w.committed.length := by omega
      rw [List.getElem?_concat_length] at hs'
      cases hs'
      have hmem := List.mem_of_getElem? hs
      cases hclaimed' : t.claimed with
      | false => exact (hsent.foreign hclaimed').grows hgrows
      | true =>
        -- Its claim key was free, so the first one has none.
        have hnone := (conditionsHold_appendTx hadmits.1).2.1 hclaimed'
        cases hclaimed : s.claimed with
        | false => exact ((h.unclaimed s hmem hclaimed).grows hgrows).congr hid
        | true =>
          have hsome := h.numbers.claimed s hmem hclaimed
          rw [hid, hnone] at hsome
          cases hsome

/-- **Every step keeps the invariant.** -/
theorem WorldOk.step (hp : CounterOk p) (hfree : NoFreeBelow p) {w w' : World V}
    (h : WorldOk json sha256 stream p w) (hstep : Step json sha256 stream w w') :
    WorldOk json sha256 stream p w' := by
  cases hstep with
  | push op start =>
    refine { h with appenders := ?_ }
    intro a ha
    rcases List.mem_append.mp ha with ha | ha
    · exact h.appenders a ha
    · rw [List.mem_singleton.mp ha]
      exact .of_round (.inl rfl) (fun hclaimed => by cases hclaimed) (.inl rfl)
  | send i a slot hi hphase hslot =>
    have ha := h.appenders a (List.mem_of_getElem? hi)
    obtain ⟨hpos, hsent⟩ := ha.send hslot
    have hset := h.setAppender i (a := { a with
      phase := .awaiting slot (a.loop.next.predecessorCheck slot) }) (by
        refine ⟨ha.floor, ha.foreign, ?_, ?_, ?_, ?_⟩ <;> intro s <;> intros <;> rename_i heq <;>
          cases heq
        exact hpos)
    refine { hset with sent := ?_ }
    intro t ht
    rcases List.mem_append.mp ht with ht | ht
    · exact h.sent t ht
    · rw [List.mem_singleton.mp ht]
      exact hsent
  | commit t ht hadmits => exact h.commit hp hfree ht hadmits
  | reveal k hk => exact { h with visible := h.visible.reveal k hk }
  | answered i a slot check hi hphase hcommitted =>
    obtain ⟨j, hj⟩ := List.mem_iff_getElem?.mp hcommitted
    have ha := h.appenders a (List.mem_of_getElem? hi)
    exact h.setAppender i (ha.after
      ⟨ha.awaiting slot check hphase, (h.numbers.new j _ hj).2⟩)
  | cancelled i a slot check codes counterItem detail hi hphase htrue =>
    have ha := h.appenders a (List.mem_of_getElem? hi)
    exact h.setAppender i (ha.afterReasons hphase htrue counterItem detail)
  | claim i a found hi hphase hread =>
    have ha := h.appenders a (List.mem_of_getElem? hi)
    exact h.setAppender i (ha.after
      (outcomeOk_settleClaim h.visible.shown h.numbers.claims_ok hread))
  | top i a slot hi hphase =>
    have ha := h.appenders a (List.mem_of_getElem? hi)
    obtain ⟨hpos, hsome⟩ := ha.findTop slot hphase
    exact h.setAppender i (ha.after (outcomeOk_seqTakenAt h.visible.shown hpos hsome))
  | giveUp i a hi =>
    have ha := h.appenders a (List.mem_of_getElem? hi)
    exact h.setAppender i (.of_round ha.floor ha.foreign (.inr (.inl rfl)))
  | read cursor limit =>
    refine { h with readers := ?_ }
    intro r hr
    rcases List.mem_append.mp hr with hr | hr
    · exact h.readers r hr
    · rw [List.mem_singleton.mp hr]
      refine ⟨⟨fun k item hk hle _ => ?_, .inl ?_⟩, .inl rfl, fun x hx => by cases hx⟩
      · simp only [Reader.position, Option.getD_none, max_self] at hle
        exact absurd hk (not_lt.mpr hle)
      · simp only [Reader.position, Option.getD_none, max_self, le_refl]
  | query i r next cut hi hlt hturn =>
    have hr := h.readers r (List.mem_of_getElem? hi)
    refine { h with readers := ?_ }
    intro r' hr'
    rcases List.mem_or_eq_of_mem_set hr' with hr' | rfl
    · exact h.readers r' hr'
    · exact (hr.turn h.visible h.numbers.op hlt hturn).1 _ rfl
  | finish i r done cut hi hlt hturn =>
    have hr := h.readers r (List.mem_of_getElem? hi)
    refine { h with reads := ?_ }
    intro d hd
    rcases List.mem_append.mp hd with hd | hd
    · exact h.reads d hd
    · rw [List.mem_singleton.mp hd]
      exact (hr.turn h.visible h.numbers.op hlt hturn).2 _ rfl
  | full i r hi hpage =>
    have hr := h.readers r (List.mem_of_getElem? hi)
    refine { h with reads := ?_ }
    intro d hd
    rcases List.mem_append.mp hd with hd | hd
    · exact h.reads d hd
    · rw [List.mem_singleton.mp hd]
      refine ⟨?_, hr.ops⟩
      rcases hr.next with hcursor | hpos
      · simp only [hcursor]
        refine ⟨fun k item hk hle _ => ?_, .inl (le_max_left _ _)⟩
        exact absurd (hk.trans_le hle) (not_lt.mpr (le_max_left _ _))
      · simp only [hpos]
        exact hr.through

/-- **The invariant holds in every state that is reached.** -/
theorem WorldOk.run (hold : Older json sha256 stream p) (hfree : NoFreeBelow p) {w : World V}
    (hrun : Runs json sha256 stream (World.start p) w) : WorldOk json sha256 stream p w := by
  induction hrun with
  | refl => exact .start hold
  | tail _ hstep ih => exact ih.step hold.counter hfree hstep

end World

/-! ## What every run keeps -/

/-- The reads of a reader that follows the cursors it is given, from a cursor on. -/
def Chained : Int → List (ReadDone V) → Prop
  | _, [] => True
  | cursor, d :: ds => d.cursor = cursor ∧ Chained d.next ds

/-- The cursor such a reader has at the end. -/
def endOf : Int → List (ReadDone V) → Int
  | cursor, [] => cursor
  | _, d :: ds => endOf d.next ds

/-- A reader that followed its cursors has been given all up to the last one. -/
theorem seen_of_chained {t : StreamTable} (hshown : Grows t.shown t.now) (ds : List (ReadDone V)) :
    (∀ d ∈ ds, DoneOk json t.now d) → ∀ {cursor : Int}, Chained cursor ds →
    ∀ k item, max cursor 0 < k → k ≤ endOf cursor ds → t.shown.get k = some item →
    ∃ d ∈ ds, (k, item) ∈ d.seen := by
  induction ds with
  | nil =>
    intro _ cursor _ k item hk hle _
    exact absurd (hk.trans_le hle) (not_lt.mpr (le_max_left _ _))
  | cons d ds ih =>
    intro hds cursor hchained k item hk hle hitem
    obtain ⟨rfl, hrest⟩ := hchained
    have hpos : 0 < k := lt_of_le_of_lt (le_max_right _ _) hk
    rcases le_or_gt k d.next with hnext | hnext
    · exact ⟨d, List.mem_cons_self, (hds d List.mem_cons_self).through.complete k item hk hnext
        (hshown k hpos.ne' item hitem)⟩
    · obtain ⟨d', hd', hmem⟩ := ih (fun d hd => hds d (List.mem_cons_of_mem _ hd)) hrest k item
        (max_lt hnext hpos) hle hitem
      exact ⟨d', List.mem_cons_of_mem _ hd', hmem⟩

/-- **What holds of a stream and its callers in a state that was reached.** -/
structure StreamSafe (json : ExtraJson V) (sha256 : String → Vector UInt8 32) (stream : StreamId)
    (p : Partition) (w : World V) : Prop where
  /-- An op that is visible between the cursors of a read was given to it. -/
  read : ∀ d ∈ w.reads, ∀ k item, max d.cursor 0 < k → k ≤ d.next →
    w.table.shown.get k = some item →
    (k, item) ∈ d.seen ∧ ∃ op ∈ d.ops, itemToWire json item = .ok op
  /-- An op that is visible up to the cursor of a reader that followed from 0 was given to it. -/
  followed : ∀ ds : List (ReadDone V), (∀ d ∈ ds, d ∈ w.reads) → Chained 0 ds →
    ∀ k item, 0 < k → k ≤ endOf 0 ds → w.table.shown.get k = some item →
    ∃ d ∈ ds, (k, item) ∈ d.seen
  /-- From here on the counter does not go back and no op is overwritten. -/
  onward : ∀ w', Runs json sha256 stream w w' → counterOf w.table.now ≤ counterOf w'.table.now ∧
    ∀ k > 0, ∀ item, w.table.now.get k = some item → w'.table.now.get k = some item
  /-- The ops of this build have consecutive numbers, above all there was. -/
  numbered : ∀ (i : Nat) (t : Sent V), w.committed[i]? = some t →
    t.slot.seq = baseOf p + 1 + i ∧
      w.table.now.get t.slot.seq = some (opItem json stream t.slot.seq t.op)
  /-- There is no op but the older ones and those of this build. -/
  only : ∀ k > 0, ∀ item, w.table.now.get k = some item → p.get k = some item ∨
    ∃ t ∈ w.committed, t.slot.seq = k ∧ item = opItem json stream k t.op
  /-- An append that answered a number has its op there. -/
  answered : ∀ a ∈ w.appenders, ∀ s, a.phase = .settled s →
    StoredAt json stream w.table.now a.op.opId s.seq
  /-- An op that was written by its own call is there as it was pushed. -/
  written : ∀ a ∈ w.appenders, ∀ seq, a.phase = .settled (.written seq) →
    w.table.now.get seq = some (opItem json stream seq a.op)
  /-- This build stores an op once, when its claim key is not another op's. -/
  once : ∀ opId, (∀ k > 0, ∀ other : WireOp V,
      w.table.now.get k = some (opItem json stream k other) → other.opId ≠ opId →
      claimSeq sha256 other.opId ≠ claimSeq sha256 opId) →
    ∀ (i j : Nat) (t t' : Sent V), w.committed[i]? = some t → w.committed[j]? = some t' →
    t.op.opId = opId → t'.op.opId = opId → i = j

section Runs

variable {p : Partition}

theorem committed_upTo {w w' : World V} (hrun : Runs json sha256 stream w w') :
    w.committed.length ≤ w'.committed.length := by
  induction hrun with
  | refl => exact le_refl _
  | tail _ hstep ih =>
    refine ih.trans ?_
    cases hstep with
    | commit t ht hadmits => simp
    | _ => exact le_refl _

theorem grows_run {w w' : World V} (hrun : Runs json sha256 stream w w') :
    Grows w.table.now w'.table.now := by
  induction hrun with
  | refl => exact Grows.refl _
  | tail _ hstep ih =>
    refine ih.trans ?_
    cases hstep with
    | commit t ht hadmits => exact grows_commit hadmits.1
    | _ => exact Grows.refl _

/-- The counter of a state is as high as its transactions are many. -/
theorem counterOf_le {w w' : World V} (h : WorldOk json sha256 stream p w)
    (h' : WorldOk json sha256 stream p w') (hle : w.committed.length ≤ w'.committed.length) :
    counterOf w.table.now ≤ counterOf w'.table.now := by
  have hbase := counterOf_le_baseOf p
  rw [h.numbers.counter, h'.numbers.counter]
  split_ifs with hnil hnil' hnil'
  · exact le_refl _
  · omega
  · rw [hnil', List.length_nil, Nat.le_zero, List.length_eq_zero_iff] at hle
    exact absurd hle hnil
  · omega

end Runs

/-- A stream with one older op, written before claims existed, its counter at the op. -/
def sampleStream : Partition :=
  (KeyMap.empty.insert 0 [("stream_id", .s "ws"), ("seq", .n 0), ("next_seq", .n 1)]).insert 1
    (opItem noExtra "ws" 1 (sampleOp "01A"))

theorem sampleStream_get {k : Int} {item : Item} (hk : k ≠ 0)
    (h : sampleStream.get k = some item) :
    k = 1 ∧ item = opItem noExtra "ws" 1 (sampleOp "01A") := by
  unfold sampleStream at h
  rw [KeyMap.get_insert, KeyMap.get_insert, if_neg hk, KeyMap.get_empty] at h
  split_ifs at h with hk1
  cases h
  exact ⟨hk1, rfl⟩

theorem older_sampleStream : Older noExtra sampleDigest "ws" sampleStream where
  counter v hv := by
    cases hv
    exact ⟨1, rfl, by decide⟩
  claims k hk item hitem := by
    obtain ⟨rfl, -⟩ := sampleStream_get hk.ne hitem
    exact absurd hk (by decide)
  ops k hk item hitem := by
    obtain ⟨rfl, rfl⟩ := sampleStream_get hk.ne' hitem
    exact ⟨by decide, _, rfl⟩

theorem noFreeBelow_sampleStream : NoFreeBelow sampleStream := by
  intro k m hk hle hsome
  have hcounter : counterOf sampleStream = 1 := rfl
  obtain ⟨item, hitem⟩ := Option.isSome_iff_exists.mp hsome
  obtain ⟨rfl, -⟩ := sampleStream_get (by omega) hitem
  omega

/-- The older op pushed again: its transaction. -/
def samplePush : Sent Empty := ⟨⟨1, 2⟩, .present, sampleOp "01A", true⟩

/-- The stream once that transaction has gone through. -/
def sampleWorld : World Empty where
  table := (StreamTable.still sampleStream).commit (samplePush.tx noExtra sampleDigest "ws")
  sent := [samplePush]
  committed := [samplePush]
  appenders := [⟨sampleOp "01A", .start .unknown, .awaiting ⟨1, 2⟩ .present⟩]
  readers := []
  reads := []

theorem runs_sampleWorld : Runs noExtra sampleDigest "ws" (World.start sampleStream) sampleWorld := by
  refine ((Relation.ReflTransGen.refl.tail (.push _ (sampleOp "01A") .unknown)).tail
    (.send _ 0 ⟨sampleOp "01A", .start .unknown, .round⟩ ⟨1, 2⟩ rfl rfl rfl)).tail
    (.commit _ samplePush ?_ ?_)
  · exact List.mem_cons_self
  · refine ⟨by decide, fun item _ hmem => ?_⟩
    cases hmem

end NexusFlow.Server.Appenders
