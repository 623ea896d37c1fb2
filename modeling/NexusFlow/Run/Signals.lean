import NexusFlow.Lib.Trace
import NexusFlow.Run.Owed
import NexusFlow.Run.Ladders

/-!
# The signals of one session

The stop of a session over a whole run (`struct Ladder`, `stop_signal` and `stop_signalled`): how its
signals are numbered, which the host's ledger keys them by (`Host::stop`), and what a signal needs
behind it: a kill a withdrawal and a grace that ran out (`kill_is_a_persons_act`).
-/

namespace NexusFlow.Run

open NexusFlow.Lib

/-! ## The numbers of a session's signals -/

/-- The number of the signal of this session that the entry records, if it does. -/
def Entry.signal? (key : SessionKey) (e : Entry) : Option Nat :=
  match e.item with
  | .input input =>
    match input.body with
    | .stopSignalled k nth _ =>
      if k = key ∧ ignoredReason e.before input = none then some nth else none
    | _ => none
  | .poison _ => none

/-- The numbers of the accepted `stop_signalled` of a session, oldest first. -/
def signalsOf (key : SessionKey) (log : List Entry) : List Nat := log.filterMap (Entry.signal? key)

/-- The ledger entry `Host::stop` writes before it signals. -/
def stopLedger (key : SessionKey) (nth : Nat) : Key := "stop/".toList ++ (key ++ '/' :: decimal nth)

/-- The key `Host::stop` enqueues the signal's record under. -/
def stopSignalledKey (key : SessionKey) (nth : Nat) : Key :=
  "stop_signalled/".toList ++ (key ++ '/' :: decimal nth)

theorem append_decimal_injective {a b : Text} {m n : Nat}
    (h : a ++ '/' :: decimal m = b ++ '/' :: decimal n) : a = b ∧ m = n := by
  have hone : ∀ k, (decimal k).splitOn '/' = [decimal k] := by
    intro k
    have := splitOn_joinSlash (List.cons_ne_nil (decimal k) []) (by
      simpa using slash_notMem_decimal k)
    simpa [joinSlash, List.intercalate] using this
  have hsplit := congrArg (List.splitOn '/') h
  rw [List.splitOn_append_cons_self, List.splitOn_append_cons_self, hone, hone] at hsplit
  obtain ⟨-, hdec⟩ := List.append_inj' hsplit rfl
  obtain rfl : m = n := decimal_injective (by simpa using hdec)
  exact ⟨List.append_cancel_right h, rfl⟩

theorem stopLedger_injective {a b : SessionKey} {m n : Nat} (h : stopLedger a m = stopLedger b n) :
    a = b ∧ m = n := append_decimal_injective (List.append_cancel_left h)

theorem stopSignalledKey_injective {a b : SessionKey} {m n : Nat}
    (h : stopSignalledKey a m = stopSignalledKey b n) : a = b ∧ m = n :=
  append_decimal_injective (List.append_cancel_left h)

/-- The session of `s` reports its start after its end was folded, although its stop had been
signalled before. -/
def Revives (run : RunId) (s : Slot) (before : List Entry) (e : Entry) : Prop :=
  (∃ input id, e.Accepts input ∧ input.body = .sessionFact (s.sessionKey run) (.started id)) ∧
    (∃ r ∈ e.before.slots, r.slot = s ∧ ∃ cause, r.state = .ended cause) ∧
    signalsOf (s.sessionKey run) before ≠ []

/-- What the ladder of a slot knows of its signals. -/
structure Numbered (st : RunState) (log : List Entry) (s : Slot) : Prop where
  count : signalsOf (st.sessionKey s) log
    = List.range' 1 (signalsOf (st.sessionKey s) log).length
  total : ∀ r ∈ st.slots, r.slot = s → ∀ l, r.state.ladder = some l →
    l.total = (signalsOf (st.sessionKey s) log).length
  unsignalled : ∀ r ∈ st.slots, r.slot = s → r.state.isUnsignalled = true →
    signalsOf (st.sessionKey s) log = []
  absent : s ∉ st.ids → signalsOf (st.sessionKey s) log = []

section

variable {st st' : RunState} {log : List Entry} {input : Event} {s : Slot}

theorem signalsOf_snoc (key : SessionKey) (log : List Entry) (e : Entry) :
    signalsOf key (log ++ [e]) = signalsOf key log ++ (e.signal? key).toList := by
  unfold signalsOf
  rw [List.filterMap_append]
  cases h : e.signal? key <;> simp [h]

/-- An entry that records no signal of this session. -/
theorem signalsOf_snoc_none {key : SessionKey} {e : Entry} (h : e.signal? key = none) :
    signalsOf key (log ++ [e]) = signalsOf key log := by
  rw [signalsOf_snoc, h]
  exact List.append_nil _

theorem Entry.signal?_ignored {key : SessionKey} (h : (ignoredReason st input).isSome = true) :
    (⟨st, .input input⟩ : Entry).signal? key = none := by
  unfold Entry.signal?
  simp only
  split
  · rw [if_neg]
    rintro ⟨-, hnone⟩
    rw [hnone] at h
    cases h
  · rfl

theorem Entry.signal?_some {key : SessionKey} {nth : Nat}
    (h : (⟨st, .input input⟩ : Entry).signal? key = some nth) :
    ∃ signal, input.body = .stopSignalled key nth signal := by
  unfold Entry.signal? at h
  simp only at h
  split at h
  · rename_i k nth' signal hb
    split_ifs at h with hcond
    cases h
    exact ⟨signal, by rw [hb, hcond.1]⟩
  · cases h

theorem Entry.signal?_of_body {key : SessionKey} {nth : Nat} {signal : StopKind}
    (hacc : ignoredReason st input = none) (hb : input.body = .stopSignalled key nth signal) :
    (⟨st, .input input⟩ : Entry).signal? key = some nth := by
  unfold Entry.signal?
  simp only [hb]
  rw [if_pos ⟨trivial, hacc⟩]

/-- Nothing recorded, and no record of a slot touched. -/
theorem Numbered.idle {e : Entry} (h : Numbered st log s)
    (hnone : e.signal? (st.sessionKey s) = none) (hslots : st'.slots = st.slots)
    (hrun : st'.run = st.run) : Numbered st' (log ++ [e]) s := by
  have hkey : st'.sessionKey s = st.sessionKey s := by
    unfold RunState.sessionKey
    rw [hrun]
  have hids : st'.ids = st.ids := by
    unfold RunState.ids
    rw [hslots]
  have hsig : signalsOf (st'.sessionKey s) (log ++ [e]) = signalsOf (st.sessionKey s) log := by
    rw [hkey]
    exact signalsOf_snoc_none hnone
  refine ⟨?_, ?_, ?_, ?_⟩
  · rw [hsig]
    exact h.count
  · rw [hsig, hslots]
    exact h.total
  · rw [hsig, hslots]
    exact h.unsignalled
  · rw [hsig, hids]
    exact h.absent

/-- The next signal recorded. -/
theorem Numbered.signal {r : SlotRecord} {l : Ladder} {e : Entry} {g : Nat → Bool}
    (h : Numbered st log r.slot) (hland : Landed st st' r r.applySignal g)
    (hl : r.state.ladder = some l)
    (hsome : e.signal? (st.sessionKey r.slot) = some (l.total + 1)) :
    Numbered st' (log ++ [e]) r.slot := by
  have hrep := hland.replaces
  have hkey : st'.sessionKey r.slot = st.sessionKey r.slot := by
    unfold RunState.sessionKey
    rw [hrep.keeps RunState.run fun _ => rfl]
  have htotal := h.total r hrep.mem rfl l hl
  have hladder := SlotRecord.applySignal_ladder hl
  have hrecord : ∀ x ∈ st'.slots, x.slot = r.slot → x = r.applySignal := by
    intro x hx hslot
    rcases hrep.mem_iff.mp hx with rfl | ⟨-, hne⟩
    · rfl
    · exact absurd hslot hne
  rw [htotal] at hsome
  have hsig : signalsOf (st'.sessionKey r.slot) (log ++ [e])
      = signalsOf (st.sessionKey r.slot) log ++
        [(signalsOf (st.sessionKey r.slot) log).length + 1] := by
    rw [hkey, signalsOf_snoc, hsome]
    rfl
  refine ⟨?_, ?_, ?_, ?_⟩
  · rw [hsig, List.length_append, List.length_singleton, List.range'_concat, ← h.count, Nat.one_mul,
      Nat.add_comm 1]
  · intro x hx hslot l' hl'
    rw [hrecord x hx hslot, hladder] at hl'
    cases hl'
    rw [hsig, List.length_append, htotal]
    rfl
  · intro x hx hslot hun
    unfold SlotState.isUnsignalled at hun
    rw [hrecord x hx hslot, hladder] at hun
    cases hun
  · intro hnot
    rw [hrep.ids_eq] at hnot
    exact absurd hrep.slot_mem_ids hnot

/-- **One accepted input keeps the numbers**, unless it brings back a session that was signalled. -/
theorem Numbered.step {run : RunId} (hrun : st.run = run) (hrun' : st'.run = run)
    (hinv : Inv st) (hinv' : Inv st')
    (ht : Transition st input st') (hacc : ignoredReason st input = none) (h : Numbered st log s)
    (hno : ¬ Revives run s log ⟨st, .input input⟩) :
    Numbered st' (log ++ [⟨st, .input input⟩]) s := by
  have hkey : st'.sessionKey s = st.sessionKey s := by
    unfold RunState.sessionKey
    rw [hrun, hrun']
  cases hsome : (⟨st, .input input⟩ : Entry).signal? (st.sessionKey s) with
  | some nth =>
    obtain ⟨signal, hb⟩ := Entry.signal?_some hsome
    obtain ⟨r, l, g, hk, hl, hnth, hland⟩ := ht.signalled hb
    obtain rfl := sessionKey_injective hk
    exact h.signal hland hl (hsome.trans (congrArg some hnth))
  | none =>
    have hsig : signalsOf (st'.sessionKey s) (log ++ [⟨st, .input input⟩])
        = signalsOf (st.sessionKey s) log := by
      rw [hkey]
      exact signalsOf_snoc_none hsome
    -- What each record's ladder makes of it.
    have hmove : ∀ r' ∈ st'.slots, r'.slot = s →
        (∀ l, r'.state.ladder = some l → l.total = (signalsOf (st.sessionKey s) log).length) ∧
        (r'.state.isUnsignalled = true → signalsOf (st.sessionKey s) log = []) := by
      intro r' hr' hslot
      rcases ht.ladders hinv hinv'.coh hacc r' hr' with ⟨hnew, hstate⟩ | ⟨r, hr, hrs, hm⟩
      · have hnone : r'.state.ladder = none := by
          rcases hstate with hs | ⟨d, hs⟩ <;> rw [hs] <;> rfl
        refine ⟨fun l hl => ?_, fun _ => h.absent (hslot ▸ hnew)⟩
        rw [hnone] at hl
        cases hl
      · have hs := hrs.trans hslot
        have hfresh : ∀ {now : Timestamp} {forced : Bool},
            signalsOf (st.sessionKey s) log = [] → r'.state.ladder = some (.new now forced) →
            (∀ l, r'.state.ladder = some l →
              l.total = (signalsOf (st.sessionKey s) log).length) ∧
            (r'.state.isUnsignalled = true → signalsOf (st.sessionKey s) log = []) := by
          intro now forced hnil hl
          refine ⟨fun l hl' => ?_, fun _ => hnil⟩
          rw [hl] at hl'
          cases hl'
          rw [hnil]
          rfl
        have hsame : ∀ {l l' : Ladder}, r.state.ladder = some l → r'.state.ladder = some l' →
            l'.total = l.total →
            (∀ l, r'.state.ladder = some l →
              l.total = (signalsOf (st.sessionKey s) log).length) ∧
            (r'.state.isUnsignalled = true → signalsOf (st.sessionKey s) log = []) := by
          intro l l' hl hl' htotal
          refine ⟨fun x hx => ?_, fun hun => ?_⟩
          · rw [hl'] at hx
            cases hx
            exact htotal.trans (h.total r hr hs l hl)
          · unfold SlotState.isUnsignalled at hun
            rw [hl'] at hun
            cases hun
        cases hm with
        | keeps hl hun =>
          rw [hl]
          exact ⟨h.total r hr hs, fun hx => h.unsignalled r hr hs (hun hx)⟩
        | begins hun hl _ => exact hfresh (h.unsignalled r hr hs hun) hl
        | @revives cause id forced hb hend hl _ =>
          refine hfresh ?_ hl
          by_contra hne
          refine hno ⟨⟨input, id, ⟨rfl, hacc⟩, ?_⟩, ⟨r, hr, hs, cause, hend⟩, ?_⟩
          · rw [hb, hs, RunState.sessionKey, hrun]
          · rw [← hrun]
            exact hne
        | signals hb _ _ _ =>
          rw [Entry.signal?_of_body hacc (hs ▸ hb)] at hsome
          cases hsome
        | fires _ _ _ hl hl' => exact hsame hl hl' rfl
        | resumes _ hl hl' => exact hsame hl hl' rfl
        | forces _ hl hl' _ => exact hsame hl hl' rfl
        | drops hl hun =>
          refine ⟨fun l hl' => ?_, fun hx => ?_⟩
          · rw [hl] at hl'
            cases hl'
          · rw [hun] at hx
            cases hx
    refine ⟨?_, ?_, ?_, ?_⟩
    · rw [hsig]
      exact h.count
    · rw [hsig]
      exact fun r hr hslot => (hmove r hr hslot).1
    · rw [hsig]
      exact fun r hr hslot => (hmove r hr hslot).2
    · rw [hsig]
      exact fun hnot => h.absent fun hmem => hnot (ht.ids_mono hmem)

end

/-- **Every run that brings no signalled session back numbers its signals once.** -/
theorem Reaches.numbered {run : RunId} {flow : FlowDef} {log : List Entry} {st : RunState}
    (hwf : flow.WF) (h : Reaches run flow log st)
    (hno : Always (fun before e => ∀ s, ¬ Revives run s before e) log) (s : Slot) :
    Numbered st log s := by
  revert hno
  refine Reaches.induct hwf (P := fun log st =>
    Always (fun before e => ∀ s, ¬ Revives run s before e) log → Numbered st log s) ?_ ?_ ?_ ?_ h
  · intro _
    exact ⟨rfl, fun r hr => (by cases hr), fun r hr => (by cases hr), fun _ => rfl⟩
  · intro log st input _ _ hP hsome hno
    exact (hP (always_snoc.mp hno).1).idle (Entry.signal?_ignored hsome) rfl rfl
  · intro log st now _ _ hP hno
    exact (hP (always_snoc.mp hno).1).idle rfl rfl rfl
  · intro log st input st' hr hinv hinv' hP hacc heq ht hno
    obtain ⟨hlog, hlast⟩ := always_snoc.mp hno
    have hrun := hr.fixed.1
    have hrun' : st'.run = run := by
      rw [heq]
      exact ((hr.step (.input input)).fixed).1
    exact (hP hlog).step hrun hrun' hinv hinv' ht hacc (hlast s)

/-- A stop that is owed is the next of a ladder. -/
theorem owed_stop {st : RunState} {key : SessionKey} {kind : StopKind} {nth : Nat}
    (h : .stopSession key kind nth ∈ pendingEffects st) :
    ∃ r ∈ st.slots, ∃ l, key = st.sessionKey r.slot ∧ r.state.ladder = some l ∧
      l.owed = some kind ∧ nth = l.total + 1 := by
  cases owes_of_pending h with
  | stopSession hr hl howed => exact ⟨_, hr, _, rfl, hl, howed, rfl⟩

/-- **Stop signals of one session are numbered once**, in every run in which no session reports its
start after its end when it had been signalled: the numbers of its accepted `stop_signalled` are
1, 2, 3, … in order, and a signal that is owed is the next, under a ledger entry and an input key no
signal of the run was recorded under. -/
theorem stop_signals_numbered_once {decl review : ChannelDecl} {flow : FlowDef}
    (hc : compile decl review = .ok flow) {run : RunId} {log : List Entry} {st : RunState}
    (h : Reaches run flow log st)
    (hno : Always (fun before e => ∀ s, ¬ Revives run s before e) log) :
    (∀ s : Slot, signalsOf (s.sessionKey run) log
      = List.range' 1 (signalsOf (s.sessionKey run) log).length) ∧
    ∀ key kind nth, .stopSession key kind nth ∈ pendingEffects st →
      nth = (signalsOf key log).length + 1 ∧
      ∀ key' nth', nth' ∈ signalsOf key' log →
        stopLedger key' nth' ≠ stopLedger key nth ∧
        stopSignalledKey key' nth' ≠ stopSignalledKey key nth := by
  have hnum := h.numbered (compile_wf hc) hno
  have hrun := h.fixed.1
  refine ⟨fun s => ?_, fun key kind nth howed => ?_⟩
  · have := (hnum s).count
    rwa [RunState.sessionKey, hrun] at this
  · obtain ⟨r, hr, l, rfl, hl, -, rfl⟩ := owed_stop howed
    have htotal := (hnum r.slot).total r hr rfl l hl
    refine ⟨by rw [htotal], fun key' nth' hmem => ?_⟩
    have hfresh : st.sessionKey r.slot = key' → nth' ≠ l.total + 1 := by
      rintro rfl rfl
      rw [(hnum r.slot).count, List.mem_range'_1] at hmem
      omega
    constructor
    · intro heq
      obtain ⟨rfl, rfl⟩ := stopLedger_injective heq
      exact hfresh rfl rfl
    · intro heq
      obtain ⟨rfl, rfl⟩ := stopSignalledKey_injective heq
      exact hfresh rfl rfl

/-- The items of a run in which a session that did not start in time is signalled. -/
def signalledItems : List Item := soloStart ++ [
  inputAt 180000 (.timerFired (slotTimer .startDeadline (soloSlot 1)) 180000),
  inputAt 180000 (.stopSignalled (soloKey 1) 1 .term)]

/-- It is lost then, and reports its start once its seat has a new attempt. -/
def revivedItems : List Item := signalledItems ++ [
  inputAt 180000 (.sessionFact (soloKey 1) (.ended .lost)),
  inputAt 180000 (.sessionFact (soloKey 1) (.started ""))]

/-- Its second stop is owed under the number of the first, and is recorded under it. -/
theorem revived_stop_repeats :
    compile soloDecl soloReview = .ok soloFlow ∧
    Reaches ['r'] soloFlow (soloLog revivedItems) (soloState revivedItems) ∧
    .stopSession (soloKey 1) .term 1 ∈ pendingEffects (soloState revivedItems) ∧
    signalsOf (soloKey 1) (soloLog revivedItems) = [1] ∧
    signalsOf (soloKey 1) (soloLog (revivedItems ++
      [inputAt 180000 (.stopSignalled (soloKey 1) 1 .term)])) = [1, 1] :=
  ⟨compile_solo, reaches_solo _, by decide, by decide, by decide⟩

/-- Up to the end of the session its one signal is numbered. -/
theorem stop_signals_numbered_solo :
    signalsOf (soloKey 1) (soloLog signalledItems) = [1] ∧
    signalsOf ((soloSlot 1).sessionKey ['r']) (soloLog signalledItems)
      = List.range' 1
        (signalsOf ((soloSlot 1).sessionKey ['r']) (soloLog signalledItems)).length := by
  refine ⟨by decide, (stop_signals_numbered_once compile_solo
    (reaches_solo signalledItems) ?_).1 (soloSlot 1)⟩
  intro before e after heq s hrev
  obtain ⟨⟨input, id, hacc, hb⟩, -⟩ := hrev
  have hmem : e ∈ soloLog signalledItems := by
    rw [heq]
    exact List.mem_append_right _ List.mem_cons_self
  have hitem := accepts_solo hmem hacc
  simp only [signalledItems, soloStart, inputAt, List.cons_append, List.nil_append, List.mem_cons,
    List.not_mem_nil, or_false, Item.input.injEq] at hitem
  rcases hitem with rfl | rfl | rfl | rfl | rfl | rfl <;> cases hb

/-! ## Rounds and kills -/

/-- The ladder of a slot. -/
def RunState.ladderOf (st : RunState) (s : Slot) : Option Ladder :=
  (st.recordAt (st.findSlot s)).bind fun r => r.state.ladder

/-- A round of the slot's stop begins: the next signal is its first. -/
def Entry.startsRound (s : Slot) (e : Entry) : Bool :=
  ((e.item.apply e.before).ladderOf s).any (fun l => l.signalsSent == 0) &&
    !(e.before.ladderOf s).any (fun l => l.signalsSent == 0)

/-- The accepted signals of the slot's session in its round, oldest entry first. -/
def roundSignals (s : Slot) (key : SessionKey) (log : List Entry) : Nat :=
  log.foldl (fun n e => if e.startsRound s then 0 else n + (e.signal? key).toList.length) 0

/-- A withdrawal that was folded. -/
def Entry.IsWithdrawal (e : Entry) : Prop :=
  ∃ input m who, e.Accepts input ∧ input.body = .withdrawn m who

/-- A signal of the slot's session that was recorded and armed its grace `n`. -/
def Entry.ArmsGrace (s : Slot) (n : Nat) (e : Entry) : Prop :=
  ∃ input nth signal fireAt, e.Accepts input ∧
    input.body = .stopSignalled (e.before.sessionKey s) nth signal ∧
    .timerSet (graceTimer n s) fireAt .stopGrace ∈ decide e.before input

/-- The grace `n` of the slot's stop ran out. -/
def Entry.FiresGrace (s : Slot) (n : Nat) (e : Entry) : Prop :=
  ∃ input fireAt, e.Accepts input ∧ input.body = .timerFired (graceTimer n s) fireAt ∧
    isDeferred e.before (graceTimer n s) fireAt input.now = false

section

variable {st st' : RunState} {log : List Entry} {input : Event} {s : Slot}

theorem RunState.ladderOf_eq (hord : Ordered st.ids) {r : SlotRecord} (hr : r ∈ st.slots) :
    st.ladderOf r.slot = r.state.ladder := by
  unfold RunState.ladderOf
  rw [(RunState.recordAt_findSlot hord).mpr ⟨hr, rfl⟩]
  rfl

theorem roundSignals_snoc (s : Slot) (key : SessionKey) (log : List Entry) (e : Entry) :
    roundSignals s key (log ++ [e]) = if e.startsRound s then 0
      else roundSignals s key log + (e.signal? key).toList.length := by
  unfold roundSignals
  rw [List.foldl_append]
  rfl

/-- The signal that starts a grace. -/
theorem SignalArms.decides (hcoh : Coh st) (hacc : ignoredReason st input = none) {n : Nat}
    (h : SignalArms st input s n) : (⟨st, .input input⟩ : Entry).ArmsGrace s n := by
  obtain ⟨r, hr, rfl, l, nth, signal, hl, hb, rfl, hle⟩ := h
  have hmin : min (l.signalsSent + 1) 255 = l.signalsSent + 1 := by omega
  have hsent : l.signalsSent + 1 = 1 ∨ l.signalsSent + 1 = 2 := by omega
  have hemit := emitted_stopSignalled hcoh hacc hr hl hb
  rw [hmin, if_pos hsent] at hemit
  refine ⟨input, nth, signal, input.now.plus (Emit.start st input).state.policy.stopGrace,
    ⟨rfl, hacc⟩, hb, ?_⟩
  unfold decide
  simp only [hacc, hemit]
  exact List.mem_append_right _ List.mem_cons_self

/-- **What a slot's stop has behind it.** -/
structure Behind (st : RunState) (log : List Entry) (s : Slot) : Prop where
  withdrawn : st.withdrawn = true → Happened Entry.IsWithdrawal log
  forced : ∀ r ∈ st.slots, r.slot = s → ∀ l, r.state.ladder = some l → l.forced = true →
    st.withdrawn = true
  armed : ∀ n, st.graceArmed s n = true → Happened (Entry.ArmsGrace s n) log
  fired : ∀ r ∈ st.slots, r.slot = s → ∀ l, r.state.ladder = some l → l.fired ≠ .none →
    ∃ n, Since (Entry.ArmsGrace s n) (Entry.FiresGrace s n) log
  round : ∀ r ∈ st.slots, r.slot = s → ∀ l, r.state.ladder = some l →
    l.signalsSent = min (roundSignals s (st.sessionKey s) log) 255

/-- Nothing folded, and no record of a slot touched. -/
theorem Behind.idle {e : Entry} (h : Behind st log s) (hnone : e.signal? (st.sessionKey s) = none)
    (hafter : e.item.apply e.before = st') (hbefore : e.before = st)
    (hslots : st'.slots = st.slots) (hrun : st'.run = st.run) (hw : st'.withdrawn = st.withdrawn)
    (htimers : st'.timers = st.timers) : Behind st' (log ++ [e]) s := by
  have hkey : st'.sessionKey s = st.sessionKey s := by
    unfold RunState.sessionKey
    rw [hrun]
  have hladder : st'.ladderOf s = st.ladderOf s := by
    unfold RunState.ladderOf RunState.recordAt RunState.findSlot
    rw [hslots]
  have hstarts : e.startsRound s = false := by
    unfold Entry.startsRound
    rw [hafter, hbefore, hladder, Bool.and_not_self]
  refine ⟨?_, ?_, ?_, ?_, ?_⟩
  · rw [hw]
    exact fun hx => (h.withdrawn hx).snoc e
  · rw [hw, hslots]
    exact h.forced
  · intro n hn
    refine (h.armed n ?_).snoc e
    unfold RunState.graceArmed RunState.timer at hn ⊢
    rwa [← htimers]
  · rw [hslots]
    intro r hr hs l hl hf
    obtain ⟨n, hn⟩ := h.fired r hr hs l hl hf
    exact ⟨n, hn.snoc e⟩
  · rw [hslots]
    intro r hr hs l hl
    rw [hkey, roundSignals_snoc, hstarts, hnone]
    exact h.round r hr hs l hl

/-- **One accepted input, and what a stop has behind it.** -/
theorem Behind.step (hrun : st'.run = st.run) (hinv : Inv st) (hinv' : Inv st')
    (ht : Transition st input st') (hacc : ignoredReason st input = none)
    (heq : st' = NexusFlow.Run.step st input) (h : Behind st log s) :
    Behind st' (log ++ [⟨st, .input input⟩]) s := by
  have hkey : st'.sessionKey s = st.sessionKey s := by
    unfold RunState.sessionKey
    rw [hrun]
  have hmono : st.withdrawn = true → st'.withdrawn = true := by
    intro hw
    rcases ht.withdraws with heq | ⟨-, hw'⟩
    · rw [heq]
      exact hw
    · exact hw'
  have harmed : ∀ n, st'.graceArmed s n = true →
      Happened (Entry.ArmsGrace s n) (log ++ [⟨st, .input input⟩]) := by
    intro n hn
    rcases ht.graces hinv hinv'.coh hacc hn with hn | harms
    · exact (h.armed n hn).snoc _
    · exact .last (harms.decides hinv.coh hacc)
  -- The record a slot had, and what its ladder became.
  have hbefore : ∀ r' ∈ st'.slots, r'.slot = s → ∀ l', r'.state.ladder = some l' →
      ∃ r ∈ st.slots, r.slot = s ∧ LadderMove st input st' r r' := by
    intro r' hr' hs l' hl'
    rcases ht.ladders hinv hinv'.coh hacc r' hr' with ⟨-, hstate⟩ | ⟨r, hr, hrs, hm⟩
    · rcases hstate with hst | ⟨d, hst⟩ <;> rw [hst] at hl' <;> cases hl'
    · exact ⟨r, hr, hrs.trans hs, hm⟩
  refine ⟨?_, ?_, harmed, ?_, ?_⟩
  · intro hw
    rcases ht.withdraws with heq | ⟨⟨m, who, hb⟩, -⟩
    · exact (h.withdrawn (heq ▸ hw)).snoc _
    · exact .last ⟨input, m, who, ⟨rfl, hacc⟩, hb⟩
  · intro r' hr' hs l' hl' hf
    obtain ⟨r, hr, hrs, hm⟩ := hbefore r' hr' hs l' hl'
    have hkept : ∀ {l : Ladder}, r.state.ladder = some l → l.forced = l'.forced →
        st'.withdrawn = true :=
      fun hl hforced => hmono (h.forced r hr hrs _ hl (hforced.trans hf))
    cases hm with
    | keeps hl _ => exact hkept (hl.symm.trans hl') rfl
    | begins _ hl hforced =>
      rw [hl] at hl'
      cases hl'
      exact hforced hf
    | revives _ _ hl hforced =>
      rw [hl] at hl'
      cases hl'
      exact hforced hf
    | signals _ hl _ hl'' =>
      rw [hl''] at hl'
      cases hl'
      exact hkept hl rfl
    | fires _ _ _ hl hl'' =>
      rw [hl''] at hl'
      cases hl'
      exact hkept hl rfl
    | resumes _ hl hl'' =>
      rw [hl''] at hl'
      cases hl'
      exact hkept hl rfl
    | forces _ _ _ hw => exact hw
    | drops hl _ =>
      rw [hl] at hl'
      cases hl'
  · intro r' hr' hs l' hl' hf
    obtain ⟨r, hr, hrs, hm⟩ := hbefore r' hr' hs l' hl'
    have hkept : ∀ {l : Ladder}, r.state.ladder = some l → l.fired = l'.fired →
        ∃ n, Since (Entry.ArmsGrace s n) (Entry.FiresGrace s n) (log ++ [⟨st, .input input⟩]) := by
      intro l hl hfired
      obtain ⟨n, hn⟩ := h.fired r hr hrs l hl (hfired ▸ hf)
      exact ⟨n, hn.snoc _⟩
    cases hm with
    | keeps hl _ => exact hkept (hl.symm.trans hl') rfl
    | begins _ hl _ =>
      rw [hl] at hl'
      cases hl'
      exact absurd rfl hf
    | revives _ _ hl _ =>
      rw [hl] at hl'
      cases hl'
      exact absurd rfl hf
    | signals _ hl _ hl'' =>
      rw [hl''] at hl'
      cases hl'
      exact hkept hl rfl
    | @fires l n fireAt hb hdef harm _ _ =>
      subst hrs
      exact ⟨n, .last (h.armed n harm) ⟨input, fireAt, ⟨rfl, hacc⟩, hb, hdef⟩⟩
    | resumes _ _ hl'' =>
      rw [hl''] at hl'
      cases hl'
      exact absurd rfl hf
    | forces _ hl hl'' _ =>
      rw [hl''] at hl'
      cases hl'
      exact hkept hl rfl
    | drops hl _ =>
      rw [hl] at hl'
      cases hl'
  · intro r' hr' hs l' hl'
    obtain ⟨r, hr, hrs, hm⟩ := hbefore r' hr' hs l' hl'
    have hstarts : (⟨st, .input input⟩ : Entry).startsRound s
        = (l'.signalsSent == 0 && !r.state.ladder.any fun l => l.signalsSent == 0) := by
      have hnow : st'.ladderOf s = some l' := by
        rw [← hs, RunState.ladderOf_eq hinv'.coh.ordered hr', hl']
      have hthen : st.ladderOf s = r.state.ladder := by
        rw [← hrs, RunState.ladderOf_eq hinv.coh.ordered hr]
      rw [heq] at hnow
      unfold Entry.startsRound
      simp only [Item.apply, hnow, hthen, Option.any_some]
    rw [hkey, roundSignals_snoc, hstarts]
    cases hsome : (⟨st, .input input⟩ : Entry).signal? (st.sessionKey s) with
    | some nth =>
      obtain ⟨signal, hb⟩ := Entry.signal?_some hsome
      obtain ⟨x, l, g, hk, hl, -, hland⟩ := ht.signalled hb
      obtain rfl : x = r := RunState.record_unique hinv.coh.ordered hland.replaces.mem hr
        ((sessionKey_injective hk).trans hrs.symm)
      have hr'' : r' = x.applySignal := by
        rcases hland.replaces.mem_iff.mp hr' with rfl | ⟨-, hne⟩
        · rfl
        · exact absurd (hs.trans hrs.symm) hne
      rw [hr'', SlotRecord.applySignal_ladder hl] at hl'
      cases hl'
      have hround := h.round x hr hrs l hl
      have hne : (min (l.signalsSent + 1) 255 == 0) = false := by
        rw [beq_eq_false_iff_ne]
        omega
      simp only [hne, Bool.false_and, Bool.false_eq_true, if_false, Option.toList_some,
        List.length_singleton]
      omega
    | none =>
      have hround := h.round r hr hrs
      -- The ladder counts the signals of its round as it did.
      have hkept : ∀ {l : Ladder}, r.state.ladder = some l → l.signalsSent = l'.signalsSent →
          l'.signalsSent = min (if (l'.signalsSent == 0 &&
            !r.state.ladder.any fun l => l.signalsSent == 0) = true then 0
              else roundSignals s (st.sessionKey s) log + (none : Option Nat).toList.length) 255 := by
        intro l hl hsent
        rw [hl, Option.any_some, hsent, Bool.and_not_self, if_neg Bool.false_ne_true, ← hsent]
        exact hround l hl
      have hfresh : l'.signalsSent = 0 → (∀ l, r.state.ladder = some l →
            l.signalsSent = 0 → roundSignals s (st.sessionKey s) log = 0) →
          l'.signalsSent = min (if (l'.signalsSent == 0 &&
            !r.state.ladder.any fun l => l.signalsSent == 0) = true then 0
              else roundSignals s (st.sessionKey s) log + (none : Option Nat).toList.length) 255 := by
        intro hzero hcount
        split
        · rw [hzero]
          rfl
        · rename_i hcond
          rw [hzero, beq_self_eq_true, Bool.true_and, Bool.not_eq_true', Bool.not_eq_false,
            Option.any_eq_true] at hcond
          obtain ⟨l, hl, hsent⟩ := hcond
          rw [hcount l hl (by simpa using hsent), hzero]
          rfl
      cases hm with
      | keeps hl _ => exact hkept (hl.symm.trans hl') rfl
      | begins hun hl _ =>
        rw [hl] at hl'
        cases hl'
        refine hfresh rfl fun l hl _ => ?_
        unfold SlotState.isUnsignalled at hun
        rw [hl] at hun
        cases hun
      | revives _ hend hl _ =>
        rw [hl] at hl'
        cases hl'
        refine hfresh rfl fun l hl _ => ?_
        rw [hend] at hl
        cases hl
      | signals hb _ _ _ =>
        rw [Entry.signal?_of_body hacc (hrs ▸ hb)] at hsome
        cases hsome
      | fires _ _ _ hl hl'' =>
        rw [hl''] at hl'
        cases hl'
        exact hkept hl rfl
      | resumes _ hl hl'' =>
        rw [hl''] at hl'
        cases hl'
        refine hfresh rfl fun l hl hsent => ?_
        have := hround l hl
        omega
      | forces _ hl hl'' _ =>
        rw [hl''] at hl'
        cases hl'
        exact hkept hl rfl
      | drops hl _ =>
        rw [hl] at hl'
        cases hl'

end

theorem Reaches.behind {run : RunId} {flow : FlowDef} {log : List Entry} {st : RunState}
    (hwf : flow.WF) (h : Reaches run flow log st) (s : Slot) : Behind st log s := by
  refine Reaches.induct hwf (P := fun log st => Behind st log s) ?_ ?_ ?_ ?_ h
  · exact ⟨fun hw => (by cases hw), fun r hr => (by cases hr), fun n hn => (by cases hn),
      fun r hr => (by cases hr), fun r hr => (by cases hr)⟩
  · intro log st input _ _ hP hsome
    exact hP.idle (Entry.signal?_ignored hsome) (step_of_ignored hsome) rfl rfl rfl rfl rfl
  · intro log st now _ _ hP
    exact hP.idle rfl rfl rfl rfl rfl rfl rfl
  · intro log st input st' hr hinv hinv' hP hacc heq ht
    have hrun : st'.run = st.run := by
      rw [heq, hr.fixed.1]
      exact ((hr.step (.input input)).fixed).1
    exact hP.step hrun hinv hinv' ht hacc heq

/-- **A round begins with the slot's stop or with a person's `resume`.** -/
theorem Transition.startsRound {st st' : RunState} {input : Event} {s : Slot} (hinv : Inv st)
    (hinv' : Inv st') (ht : Transition st input st') (hacc : ignoredReason st input = none)
    (heq : st' = step st input) (hstarts : (⟨st, .input input⟩ : Entry).startsRound s = true) :
    st.ladderOf s = none ∨
      ∃ event slot, (⟨st, .input input⟩ : Entry).Accepts event ∧ event.body = .resume slot := by
  unfold Entry.startsRound at hstarts
  simp only [Item.apply, ← heq, Bool.and_eq_true, Option.any_eq_true, Bool.not_eq_true',
    Option.any_eq_false] at hstarts
  obtain ⟨⟨l', hl', hzero⟩, hbefore⟩ := hstarts
  unfold RunState.ladderOf at hl'
  obtain ⟨r', hfound, hl'⟩ := Option.bind_eq_some_iff.mp hl'
  obtain ⟨hr', hs⟩ := (RunState.recordAt_findSlot hinv'.coh.ordered).mp hfound
  rcases ht.ladders hinv hinv'.coh hacc r' hr' with ⟨-, hstate⟩ | ⟨r, hr, hrs, hm⟩
  · rcases hstate with hst | ⟨d, hst⟩ <;> rw [hst] at hl' <;> cases hl'
  have hthen : st.ladderOf s = r.state.ladder := by
    rw [← hs, ← hrs, RunState.ladderOf_eq hinv.coh.ordered hr]
  rw [hthen] at hbefore ⊢
  have hkept : ∀ {l : Ladder}, r.state.ladder = some l → l.signalsSent = l'.signalsSent → False := by
    intro l hl hsent
    have := hbefore l hl
    rw [hsent, hzero] at this
    cases this
  cases hm with
  | keeps hl _ => exact (hkept (hl.symm.trans hl') rfl).elim
  | begins hun _ _ =>
    left
    unfold SlotState.isUnsignalled at hun
    rw [Bool.and_eq_true, Option.isNone_iff_eq_none] at hun
    exact hun.1
  | revives _ hend _ _ =>
    rw [hend]
    exact Or.inl rfl
  | signals _ _ _ hl'' =>
    rw [hl''] at hl'
    cases hl'
    simp only [beq_iff_eq] at hzero
    omega
  | fires _ _ _ hl hl'' =>
    rw [hl''] at hl'
    cases hl'
    exact (hkept hl rfl).elim
  | resumes hb _ _ => exact Or.inr ⟨input, _, ⟨rfl, hacc⟩, hb⟩
  | forces _ hl hl'' _ =>
    rw [hl''] at hl'
    cases hl'
    exact (hkept hl rfl).elim
  | drops hl _ =>
    rw [hl] at hl'
    cases hl'

theorem Reaches.rounds {run : RunId} {flow : FlowDef} {log : List Entry} {st : RunState}
    (hwf : flow.WF) (h : Reaches run flow log st) :
    Always (fun _ e => ∀ s, e.startsRound s = true → e.before.ladderOf s = none ∨
      ∃ input slot, e.Accepts input ∧ input.body = .resume slot) log := by
  refine Reaches.induct hwf (P := fun log _ => Always (fun _ e => ∀ s, e.startsRound s = true →
    e.before.ladderOf s = none ∨ ∃ input slot, e.Accepts input ∧ input.body = .resume slot) log)
    (.nil _) ?_ ?_ ?_ h
  · intro log st input _ _ hP hsome
    refine always_snoc.mpr ⟨hP, fun s hstarts => ?_⟩
    unfold Entry.startsRound at hstarts
    simp only [Item.apply, step_of_ignored hsome, Bool.and_not_self] at hstarts
    cases hstarts
  · intro log st now _ _ hP
    refine always_snoc.mpr ⟨hP, fun s hstarts => ?_⟩
    have hsame : ((Item.poison now).apply st).ladderOf s = st.ladderOf s := rfl
    unfold Entry.startsRound at hstarts
    simp only [hsame, Bool.and_not_self] at hstarts
    cases hstarts
  · intro log st input st' _ hinv hinv' hP hacc heq ht
    exact always_snoc.mpr ⟨hP, fun s hstarts => ht.startsRound hinv hinv' hacc heq hstarts⟩

/-- The signal table's kills are forced, and come after a grace. -/
theorem Ladder.owed_kill {l : Ladder} (h : l.owed = some .kill) :
    l.forced = true ∧ l.fired ≠ .none := by
  obtain ⟨since, forced, sent, total, fired⟩ := l
  unfold Ladder.owed stopSignal at h
  simp only at h
  split at h <;> simp_all

/-- Unforced, a round has two signals at most. -/
theorem Ladder.owed_unforced {l : Ladder} {kind : StopKind} (hforced : l.forced = false)
    (h : l.owed = some kind) : l.signalsSent ≤ 1 := by
  obtain ⟨since, forced, sent, total, fired⟩ := l
  unfold Ladder.owed stopSignal at h
  simp only at h hforced ⊢
  split at h <;> simp_all

/-- **A kill is a person's act and comes after a grace.** In every state of a run: a SIGKILL is owed
only with a withdrawal folded before, and for a slot whose signal was recorded and whose grace, armed
by it, has run out since; without a withdrawal a signal is owed only as the first or the second of
its round; and a round begins with the slot's stop or with a person's `resume`. -/
theorem kill_is_a_persons_act {decl review : ChannelDecl} {flow : FlowDef}
    (hc : compile decl review = .ok flow) {run : RunId} {log : List Entry} {st : RunState}
    (h : Reaches run flow log st) :
    (∀ key nth, .stopSession key .kill nth ∈ pendingEffects st →
      Happened Entry.IsWithdrawal log ∧
      ∃ s n, key = s.sessionKey run ∧ Since (Entry.ArmsGrace s n) (Entry.FiresGrace s n) log) ∧
    (¬ Happened Entry.IsWithdrawal log → ∀ (s : Slot) kind nth,
      .stopSession (s.sessionKey run) kind nth ∈ pendingEffects st →
        roundSignals s (s.sessionKey run) log + 1 ≤ 2) ∧
    Always (fun _ e => ∀ s, e.startsRound s = true → e.before.ladderOf s = none ∨
      ∃ input slot, e.Accepts input ∧ input.body = .resume slot) log := by
  have hwf := compile_wf hc
  have hrun := h.fixed.1
  refine ⟨fun key nth howed => ?_, fun hno s kind nth howed => ?_, h.rounds hwf⟩
  · obtain ⟨r, hr, l, rfl, hl, howed, -⟩ := owed_stop howed
    have hb := h.behind hwf r.slot
    obtain ⟨hforced, hfired⟩ := Ladder.owed_kill howed
    obtain ⟨n, hn⟩ := hb.fired r hr rfl l hl hfired
    refine ⟨hb.withdrawn (hb.forced r hr rfl l hl hforced), r.slot, n, ?_, hn⟩
    rw [RunState.sessionKey, hrun]
  · obtain ⟨r, hr, l, hkey, hl, hsignal, -⟩ := owed_stop howed
    rw [RunState.sessionKey, hrun] at hkey
    obtain rfl := sessionKey_injective hkey
    have hb := h.behind hwf r.slot
    have hforced : l.forced = false := by
      cases hf : l.forced with
      | false => rfl
      | true => exact absurd (hb.withdrawn (hb.forced r hr rfl l hl hf)) hno
    have hround := hb.round r hr rfl l hl
    have hle := Ladder.owed_unforced hforced hsignal
    rw [RunState.sessionKey, hrun] at hround
    omega

/-- The items of a run whose session, signalled, is withdrawn and outlives its grace. -/
def killedItems : List Item := signalledItems ++ [
  inputAt 180000 (.withdrawn none .requester),
  inputAt 480000 (.timerFired (graceTimer 1 (soloSlot 1)) 480000)]

/-- A kill is owed there, with what it needs behind it. -/
theorem kill_is_owed :
    .stopSession (soloKey 1) .kill 2 ∈ pendingEffects (soloState killedItems) ∧
    Happened Entry.IsWithdrawal (soloLog killedItems) :=
  ⟨by decide, ((kill_is_a_persons_act compile_solo (reaches_solo killedItems)).1
    (soloKey 1) 2 (by decide)).1⟩

end NexusFlow.Run
