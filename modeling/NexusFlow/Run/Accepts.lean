import NexusFlow.Run.Coherent

/-!
# What the guard lets pass

The inversion of `ignored_reason` (`guard.rs`): for every input that is acted on, the state it met
and the record it names. `SlotMove` collects what an input that names a session, or a timer of one,
does to that record.
-/

namespace NexusFlow.Run

open NexusFlow.Lib

/-! ## Inversions of `ignored_reason` -/

theorem outOfState_none {b : Bool} (h : outOfState b = none) : b = true := by
  cases b
  · cases h
  · rfl

section Accepted

variable {st : RunState} {input : Event}

theorem accepted_not_finished (h : ignoredReason st input = none) : st.isFinished = false := by
  by_contra hf
  rw [Bool.not_eq_false] at hf
  unfold ignoredReason at h
  rw [if_pos hf] at h
  cases h

/-- The guard once the run is known not to be finished. -/
theorem ignoredReason_open (h : ignoredReason st input = none) :
    ¬ st.isFinished = true := by
  rw [accepted_not_finished h]
  exact Bool.false_ne_true

theorem accepted_commissioned {w f : String} {p : LivenessPolicy} {t : MessageId} {q : String}
    (h : ignoredReason st input = none) (hb : input.body = .commissioned w f p t q) :
    st.commissioned = false := by
  have hopen := ignoredReason_open h
  simp only [ignoredReason, hb, if_neg hopen] at h
  simpa using outOfState_none h

theorem accepted_rootOpened {t m : MessageId} (h : ignoredReason st input = none)
    (hb : input.body = .rootOpened t m) :
    st.rootMessage = none ∧ (st.phase = .created ∨ st.isFinishing = true) := by
  have hopen := ignoredReason_open h
  simp only [ignoredReason, hb, if_neg hopen] at h
  have := outOfState_none h
  rw [Bool.and_eq_true, Option.isNone_iff_eq_none] at this
  refine ⟨this.1, ?_⟩
  have hp := this.2
  unfold RunState.isFinishing
  cases hphase : st.phase <;> simp_all

theorem finishing_or_none {r : Option ReasonCode}
    (h : (if st.isFinishing = true then some ReasonCode.alreadyFinishing else none).or r = none) :
    st.isFinishing = false ∧ r = none := by
  cases hf : st.isFinishing with
  | true => simp [hf] at h
  | false => exact ⟨rfl, by simpa [hf] using h⟩

theorem accepted_claimTaken (h : ignoredReason st input = none)
    (hb : input.body = .claimTaken) : ∃ b, st.phase = .queued b := by
  have hopen := ignoredReason_open h
  simp only [ignoredReason, hb, if_neg hopen] at h
  have hp := outOfState_none (finishing_or_none h).2
  cases hphase : st.phase <;> simp_all

theorem accepted_claimBusy {holder : RunId} (h : ignoredReason st input = none)
    (hb : input.body = .claimBusy holder) : ∃ b, st.phase = .queued b := by
  have hopen := ignoredReason_open h
  simp only [ignoredReason, hb, if_neg hopen] at h
  have hp := outOfState_none (finishing_or_none h).2
  cases hphase : st.phase <;> simp_all

theorem accepted_claimReleased (h : ignoredReason st input = none)
    (hb : input.body = .claimReleased) : readyToRelease st = true := by
  have hopen := ignoredReason_open h
  simp only [ignoredReason, hb, if_neg hopen] at h
  exact outOfState_none h

theorem accepted_treePrepared {b : Base} {f : Option ParkOutcome}
    (h : ignoredReason st input = none) (hb : input.body = .treePrepared b f) :
    st.phase = .running .unprepared := by
  have hopen := ignoredReason_open h
  simp only [ignoredReason, hb, if_neg hopen] at h
  simpa using outOfState_none (finishing_or_none h).2

theorem accepted_treeRefused {reason : TreeRefusal}
    (h : ignoredReason st input = none) (hb : input.body = .treeRefused reason) :
    st.phase = .running .unprepared := by
  have hopen := ignoredReason_open h
  simp only [ignoredReason, hb, if_neg hopen] at h
  simpa using outOfState_none (finishing_or_none h).2

theorem accepted_treeParked {o : ParkOutcome} (h : ignoredReason st input = none)
    (hb : input.body = .treeParked o) : ∃ out reason, st.phase = .finishing out reason .unparked := by
  have hopen := ignoredReason_open h
  simp only [ignoredReason, hb, if_neg hopen] at h
  have hp := outOfState_none h
  split at hp
  · rename_i out reason hphase
    exact ⟨out, reason, hphase⟩
  · cases hp

theorem accepted_delivered {m : MessageId} (h : ignoredReason st input = none)
    (hb : input.body = .delivered m) :
    ∃ key, deliveryKey input = some key ∧ ∃ d ∈ owedDeliveries st, d.1 = key := by
  have hopen := ignoredReason_open h
  simp only [ignoredReason, hb, if_neg hopen] at h
  have hp := outOfState_none h
  cases hkey : deliveryKey input with
  | none => simp [hkey] at hp
  | some key =>
    refine ⟨key, rfl, ?_⟩
    simpa [hkey] using hp

theorem accepted_nudged {key : SessionKey} (h : ignoredReason st input = none)
    (hb : input.body = .nudged key) :
    ∃ r, st.recordAt (st.find key) = some r ∧ ∃ since oc, r.state = .quiet since oc := by
  have hopen := ignoredReason_open h
  simp only [ignoredReason, hb, if_neg hopen] at h
  split at h
  · cases h
  · rename_i r hr
    have hp := outOfState_none h
    refine ⟨r, hr, ?_⟩
    cases hs : r.state <;> simp_all

theorem accepted_stopSignalled {key : SessionKey} {nth : Nat} {sig : StopKind}
    (h : ignoredReason st input = none) (hb : input.body = .stopSignalled key nth sig) :
    ∃ r l, st.recordAt (st.find key) = some r ∧ r.state.ladder = some l ∧ nth = l.total + 1 := by
  have hopen := ignoredReason_open h
  simp only [ignoredReason, hb, if_neg hopen] at h
  split at h
  · cases h
  · rename_i r hr
    have hp := outOfState_none h
    cases hl : r.state.ladder with
    | none => simp [hl] at hp
    | some l => exact ⟨r, l, hr, hl, by simpa [hl] using hp⟩

theorem accepted_sessionFact {key : SessionKey} {f : SessionFact}
    (h : ignoredReason st input = none) (hb : input.body = .sessionFact key f) :
    ∃ r, st.recordAt (st.find key) = some r ∧ factIgnored st r f = none := by
  have hopen := ignoredReason_open h
  simp only [ignoredReason, hb, if_neg hopen] at h
  split at h
  · cases h
  · rename_i r hr
    exact ⟨r, hr, h⟩

/-- The states a session replies from. -/
def SlotState.isWorking : SlotState → Bool
  | .starting _ | .running _ _ | .quiet _ _ | .nudged _ _ => true
  | _ => false

/-- A session that works is neither over nor has it replied. -/
theorem SlotState.isWorking_spec {s : SlotState} (h : s.isWorking = true) :
    s.isRetired = false ∧ s.isDone = false ∧ s.isEscalated = false ∧ s.isLive = true := by
  cases s <;> first | exact ⟨rfl, rfl, rfl, rfl⟩ | cases h

theorem accepted_reply {key : SessionKey} {m : MessageId} {esc rew : Bool}
    (h : ignoredReason st input = none) (hb : input.body = .reply key m esc rew) :
    ∃ r, st.recordAt (st.find key) = some r ∧ r.state.isWorking = true ∧
      st.isFinishing = false := by
  have hopen := ignoredReason_open h
  simp only [ignoredReason, hb, if_neg hopen] at h
  split at h
  · cases h
  · rename_i r hr
    refine ⟨r, hr, ?_⟩
    unfold replyIgnored at h
    split_ifs at h with hrep hsup hfin
    cases hs : r.state <;> simp_all [SlotState.isReplied, SlotState.isWorking]

theorem accepted_answer {q : Key} {disp : Disposition} {m : MessageId}
    (h : ignoredReason st input = none) (hb : input.body = .answer q disp m) :
    st.isFinishing = false ∧
      ∃ x ∈ st.questions, x.answered = false ∧ x.id = q ∧ x.takes disp = true := by
  have hopen := ignoredReason_open h
  simp only [ignoredReason, hb, if_neg hopen] at h
  obtain ⟨hfin, hrest⟩ := finishing_or_none h
  refine ⟨hfin, ?_⟩
  have hp := outOfState_none hrest
  simpa [RunState.openQuestions, and_assoc] using hp

theorem accepted_resume {slot : Option Slot} (h : ignoredReason st input = none)
    (hb : input.body = .resume slot) :
    st.isFinishing = false ∧ ∃ i, resumeTarget st slot = some i := by
  have hopen := ignoredReason_open h
  simp only [ignoredReason, hb, if_neg hopen] at h
  obtain ⟨hfin, hrest⟩ := finishing_or_none h
  exact ⟨hfin, Option.isSome_iff_exists.mp (outOfState_none hrest)⟩

theorem accepted_resumeRun (h : ignoredReason st input = none)
    (hb : input.body = .resumeRun) : st.isFinishing = false ∧ st.condition.isSome = true := by
  have hopen := ignoredReason_open h
  simp only [ignoredReason, hb, if_neg hopen] at h
  obtain ⟨hfin, hrest⟩ := finishing_or_none h
  exact ⟨hfin, outOfState_none hrest⟩

theorem accepted_timerFired {timer : Text} {fireAt : Timestamp}
    (h : ignoredReason st input = none) (hb : input.body = .timerFired timer fireAt) :
    ∃ a, st.timers.get timer = some a ∧ a.fireAt = fireAt := by
  have hopen := ignoredReason_open h
  simp only [ignoredReason, hb, if_neg hopen] at h
  split at h
  · rename_i heq
    exact Option.map_eq_some_iff.mp heq
  · cases h

theorem accepted_body (h : ignoredReason st input = none) :
    (∀ d, input.body ≠ .decision d) ∧ input.body ≠ .unknown := by
  have hopen := ignoredReason_open h
  constructor
  · intro d hb
    simp [ignoredReason, hb, hopen] at h
  · intro hb
    simp [ignoredReason, hb, hopen] at h

/-- The state `decide` starts from. -/
theorem start_state (h : ignoredReason st input = none) :
    (Emit.start st input).state = applyBody st input := by
  show applyInput st input = _
  unfold applyInput
  rw [h]
  rfl

end Accepted

/-! ## What an input does to the record it names -/

/-- Facts that are signs of life and nothing else. -/
def SessionFact.isSign : SessionFact → Bool
  | .heartbeat _ | .usage | .permissionRefused _ _ => true
  | _ => false

/-- Whether the grace `n` of the slot is armed. -/
def RunState.graceArmed (st : RunState) (s : Slot) (n : Nat) : Bool :=
  (st.timer (.grace n s)).isSome

/-- The ladder with a grace folded in. -/
def Ladder.fire (l : Ladder) (n : Nat) : Ladder :=
  { l with fired := l.fired.max (if n = 2 then .second else .first) }

/-- **What one input does to the record it names**, and which graces of its slot are armed after.
The timers of a slot other than its graces follow from `Coh`. -/
inductive SlotMove (st : RunState) (input : Event) (r : SlotRecord) :
    SlotRecord → (Nat → Bool) → Prop
  | nudged {since : Timestamp} {openCall : Option Timestamp}
      (hb : input.body = .nudged (st.sessionKey r.slot)) (hs : r.state = .quiet since openCall) :
      SlotMove st input r { r with state := .nudged input.now openCall } (st.graceArmed r.slot)
  | signalled {l : Ladder} {nth : Nat} {signal : StopKind}
      (hb : input.body = .stopSignalled (st.sessionKey r.slot) nth signal)
      (hs : r.state.ladder = some l) (hnth : nth = l.total + 1) :
      SlotMove st input r r.applySignal fun n =>
        n == l.signalsSent + 1 && n ≤ 2 || st.graceArmed r.slot n
  | started {deadline : Timestamp} {id : String}
      (hb : input.body = .sessionFact (st.sessionKey r.slot) (.started id))
      (hs : r.state = .starting deadline) :
      SlotMove st input r
        { r with lastFact := some input.now, backendSession := some id, state := .running id none }
        (st.graceArmed r.slot)
  | startedStopping {l : Ladder} {after : AfterStop} {id : String}
      (hb : input.body = .sessionFact (st.sessionKey r.slot) (.started id))
      (hs : r.state = .stopping l after) :
      SlotMove st input r { r with lastFact := some input.now, backendSession := some id }
        (st.graceArmed r.slot)
  | startedEnded {cause : EndCause} {id : String}
      (hb : input.body = .sessionFact (st.sessionKey r.slot) (.started id))
      (hs : r.state = .ended cause) (hlater : Later st.ids r.slot) :
      SlotMove st input r
        { r with
          lastFact := some input.now
          backendSession := some id
          state := .stopping (.new input.now st.withdrawn) .nothing }
        (st.graceArmed r.slot)
  | sign {f : SessionFact} (hb : input.body = .sessionFact (st.sessionKey r.slot) f)
      (hsign : f.isSign = true) (hacc : factIgnored st r f = none) :
      SlotMove st input r (r.applyFact (st.isSuperseded r) st.withdrawn input.now f)
        (st.graceArmed r.slot)
  | lingering {pids : List Nat}
      (hb : input.body = .sessionFact (st.sessionKey r.slot) (.groupLingering pids))
      (hs : r.state.isWorking = true) :
      SlotMove st input r
        { r with
          lastFact := some input.now
          pids
          state := .stopping (.new input.now st.withdrawn) (.restart .lost) }
        fun _ => false
  | lingeringReplied {pids : List Nat}
      (hb : input.body = .sessionFact (st.sessionKey r.slot) (.groupLingering pids))
      (hs : r.state.isReplied = true) (hlive : r.state.isLive = true) :
      SlotMove st input r
        (({ r with lastFact := some input.now, pids } : SlotRecord).startReplyStop input.now
          st.withdrawn) (st.graceArmed r.slot)
  | lingeringStopping {l : Ladder} {after : AfterStop} {pids : List Nat}
      (hb : input.body = .sessionFact (st.sessionKey r.slot) (.groupLingering pids))
      (hs : r.state = .stopping l after) :
      SlotMove st input r { r with lastFact := some input.now, pids } (st.graceArmed r.slot)
  | ended {cause : EndCause}
      (hb : input.body = .sessionFact (st.sessionKey r.slot) (.ended cause))
      (hs : r.state.isLive = true) :
      SlotMove st input r (({ r with lastFact := some input.now } : SlotRecord).end' cause)
        fun _ => false
  | replied {message : MessageId} {escalate needsRework : Bool}
      (hb : input.body = .reply (st.sessionKey r.slot) message escalate needsRework)
      (hs : r.state.isWorking = true) (hfin : st.isFinishing = false) :
      SlotMove st input r (r.applyReply (hasEdge st r.slot.step) message escalate needsRework)
        fun _ => false
  | resumed {slot : Option Slot} (hb : input.body = .resume slot) {c : SlotCondition}
      (hc : r.condition = some c) (hlast : ¬ Later st.ids r.slot) (hfin : st.isFinishing = false) :
      SlotMove st input r r.applyResume (st.graceArmed r.slot)
  | deferred {t : TimerId} {fireAt : Timestamp} (hb : input.body = .timerFired t.text fireAt)
      (ht : t.slot? = some r.slot) (hdef : isDeferred st t.text fireAt input.now = true)
      (harmed : (st.timer t).isSome = true) (hne : ∀ s, t ≠ .slot .startDeadline s) :
      SlotMove st input r r (st.graceArmed r.slot)
  | deferredStart {deadline deadline' : Timestamp} {fireAt : Timestamp}
      (hb : input.body = .timerFired (slotTimer .startDeadline r.slot) fireAt)
      (hs : r.state = .starting deadline) :
      SlotMove st input r { r with state := .starting deadline' } (st.graceArmed r.slot)
  | startFailed {deadline : Timestamp} {fireAt : Timestamp}
      (hb : input.body = .timerFired (slotTimer .startDeadline r.slot) fireAt)
      (hs : r.state = .starting deadline) :
      SlotMove st input r
        { r with state := .stopping (.new input.now st.withdrawn) (.restart .startFailed) }
        (st.graceArmed r.slot)
  | quiet {p : TimerPurpose} {session : String} {openCall : Option Timestamp}
      {fireAt : Timestamp} (hb : input.body = .timerFired (slotTimer p r.slot) fireAt)
      (hs : r.state = .running session openCall) :
      SlotMove st input r { r with state := .quiet input.now openCall } (st.graceArmed r.slot)
  | callBound {fireAt : Timestamp}
      (hb : input.body = .timerFired (slotTimer .callBound r.slot) fireAt)
      (hs : r.blind = false) : SlotMove st input r r (st.graceArmed r.slot)
  | hung {fireAt : Timestamp}
      (hb : input.body = .timerFired (slotTimer .confirm r.slot) fireAt)
      (hs : Emit.wasQuiet r.state = true) :
      SlotMove st input r
        { r with state := .stopping (.new input.now st.withdrawn) (.restart .hung) }
        fun _ => false
  | grace {l : Ladder} {n : Nat} {fireAt : Timestamp}
      (hb : input.body = .timerFired (graceTimer n r.slot) fireAt)
      (hdef : isDeferred st (graceTimer n r.slot) fireAt input.now = false)
      (harmed : st.graceArmed r.slot n = true) (hn : n = 1 ∨ n = 2)
      (hs : r.state.ladder = some l) (hpark : n = 1 ∨ l.forced = true) :
      SlotMove st input r { r with state := r.state.mapLadder fun l => l.fire n }
        fun m => m != n && st.graceArmed r.slot m
  | wouldNotStop {l : Ladder} {fireAt : Timestamp} {order : Nat}
      (hb : input.body = .timerFired (graceTimer 2 r.slot) fireAt)
      (hdef : isDeferred st (graceTimer 2 r.slot) fireAt input.now = false)
      (harmed : st.graceArmed r.slot 2 = true)
      (hs : r.state.ladder = some l) (hforced : l.forced = false) :
      SlotMove st input r
        { r with
          state := r.state.mapLadder fun l => l.fire 2
          condition := some (.parked .wouldNotStop order input.now) }
        fun m => m != 2 && st.graceArmed r.slot m
  | windDown {fireAt : Timestamp}
      (hb : input.body = .timerFired (slotTimer .windDown r.slot) fireAt)
      (hs : r.state.isReplied = true) (hlive : r.state.isLive = true)
      (hl : r.state.ladder = none) :
      SlotMove st input r (r.startReplyStop input.now st.withdrawn) (st.graceArmed r.slot)
  | retry {fireAt : Timestamp} {cause : EndCause}
      (hb : input.body = .timerFired (slotTimer .holdRetry r.slot) fireAt)
      (hs : r.state = .ended cause) (hc : r.condition.any SlotCondition.isHeld = true)
      (hlast : ¬ Later st.ids r.slot) :
      SlotMove st input r r (st.graceArmed r.slot)

/-- A state reached by a `SlotMove` of `r`, and coherent. -/
structure Landed (st mid : RunState) (r r' : SlotRecord) (g : Nat → Bool) : Prop where
  replaces : Replaces st mid r r'
  graces : ∀ n, mid.graceArmed r.slot n = g n
  coh : Coh mid

end NexusFlow.Run
