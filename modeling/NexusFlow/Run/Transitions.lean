import NexusFlow.Run.Routes

/-!
# The transitions of a run

`Transition` says what one accepted input does to a run: what it does to the run alone (`RunMove`),
to the record it names (`SlotMove`, and the state it lands in), and where the run goes on from
there. `step_transition` proves that `step` does exactly that, and that the state stays coherent,
from the two invariants of a run between inputs: `Coh`, and `Route`, which says where the run is in
its flow.
-/

namespace NexusFlow.Run

open NexusFlow.Lib

/-! ## Where a run is -/

/-- The visit of a step is recorded as finished. -/
def RunState.isFinishedStep (st : RunState) (step : StepId) (v : Nat) : Prop :=
  ∃ f ∈ st.finishedSteps, f.step = step ∧ f.visit = v

/-- An open ceiling of this step. -/
def RunState.atCeiling (st : RunState) (step : StepId) : Prop :=
  ∃ q ∈ st.questions, q.answered = false ∧ ∃ pass m, q.asked = .ceiling step pass m

/-- What a running run waits for at its current visit. -/
structure Here (st : RunState) (d : StepDef) (v : Nat) : Prop where
  at' : st.At d v
  /-- The consolidator sits down once every member is done, and not before. -/
  consolidator : d.hasSynthesis = true →
    ((∃ r ∈ st.slots, r.slot.seat = (d.id, v, SYNTH)) ↔
      (Emit.memberVerdicts st d d.id v).isSome = true)
  /-- A visit that is complete waits at the ceiling, and no other does. -/
  finished : st.isFinishedStep d.id v ↔ ∃ replies, Complete st d v replies
  ceiling : (∃ replies, Complete st d v replies) → st.atCeiling d.id
  open' : ∀ step, st.atCeiling step → step = d.id ∧ ∃ replies, Complete st d v replies

/-- What a run has written down: the steps it finished and the questions it asked. -/
structure Ledger (st : RunState) : Prop where
  wf : st.flow.WF
  synthPlain : SynthPlain st
  finishedOnce : (st.finishedSteps.map fun f => (f.step, f.visit)).Nodup
  finishedBound : ∀ f ∈ st.finishedSteps, f.visit ≤ (st.visits.get f.step.text).getD 0
  questionIds : (st.questions.map Question.id).Nodup
  ceilings : ∀ q ∈ st.questions, ∀ step pass m, q.asked = .ceiling step pass m →
    ∃ f ∈ st.finishedSteps, f.step = step ∧ q.id = Emit.ceilingKey st.run step f.visit pass ∧
      ∃ d ∈ st.flow.steps, d.id = step ∧ d.onNeedsRework.isSome = true

/-- An open ceiling is of the visit and the pass the run is at. -/
def OpenCeilings (st : RunState) : Prop :=
  ∀ q ∈ st.questions, q.answered = false → ∀ step pass m, q.asked = .ceiling step pass m →
    pass = st.passOf step.text + 1 ∧
      ∃ v, st.visits.get step.text = some v ∧ q.id = Emit.ceilingKey st.run step v pass

/-- The run goes on from a seat's last attempt: one that has ended is held or parked, and only a
superseded one is stopped for nothing. -/
def SlotRecord.GoesOn (r : SlotRecord) : Prop :=
  match r.state with
  | .ended _ => r.condition.isSome = true
  | .stopping _ .nothing => False
  | _ => True

/-- **Where a run is in its flow**, between two inputs; `but` names the one slot, if any, that
`decide` has not yet gone on with. -/
structure Route (st : RunState) (but : Option Slot := none) : Prop extends Ledger st where
  unopened : st.phase = .created → st.rootMessage = none
  idle : (st.phase = .created ∨ ∃ b, st.phase = .queued b) → st.slots = [] ∧ st.questions = [] ∧
    st.finishedSteps = [] ∧ st.currentStep = none ∧ ∀ k, st.visits.get k = none
  here : ∀ tree, st.phase = .running tree → ∃ d v, Here st d v
  ends : st.isOver = false → ∀ r ∈ st.slots, some r.slot ≠ but → ¬ Later st.ids r.slot → r.GoesOn
  asks : st.isOver = false → ∀ r ∈ st.slots, some r.slot ≠ but → ¬ Later st.ids r.slot →
    r.state.isEscalated = true →
      ∃ q ∈ st.questions, q.answered = false ∧ ∃ m, q.asked = .escalation r.slot m
  openCeilings : st.isOver = false → OpenCeilings st

/-! ## The transitions -/

/-- What the run's own timers, its tree's refusals and its park leave alone. -/
def RunState.steady (st : RunState) : RunState :=
  { st with
    condition := none
    nextOrder := 0
    treeRefusals := 0
    rootPeriods := 0
    treeCancelOwed := false
    timers := .empty }

theorem steady_keeps {st st' : RunState} (h : st'.steady = st.steady) {α : Type}
    (g : RunState → α) (hg : ∀ x : RunState, g x.steady = g x) : g st' = g st := by
  rw [← hg st', h, hg]

/-- The reason the run itself is parked for, if it is. -/
def RunState.parkReason (st : RunState) : Option ReasonCode := st.condition.map RunCondition.reason

/-- **What becomes of the run's own park, timers and tree** when it attends to one of them. -/
inductive Attends (st : RunState) (input : Event) (st' : RunState) : Prop
  | refusalKept {reason : TreeRefusal} (hb : input.body = .treeRefused reason)
      (hphase : st.phase = .running .unprepared) (hcond : st'.condition = st.condition)
      (hcancel : st'.treeCancelOwed = false) (htimers : st'.timers = st.timers)
  | refused {reason : TreeRefusal} (hb : input.body = .treeRefused reason)
      (hphase : st.phase = .running .unprepared) (hcond : st'.parkReason = some .treeRefused)
      (hcancel : st'.treeCancelOwed = false) (hwindow : st'.timer .treeWindow = none)
      (hroot : st'.timer .rootDeadline = st.timer .rootDeadline)
  | resumed (hb : input.body = .resumeRun) (hfin : st.isFinishing = false)
      (hcond : st'.condition = none) (hcancel : st'.treeCancelOwed = st.treeCancelOwed)
      (hwindow : st'.timer .treeWindow = st.timer .treeWindow ∨ st.parkReason = some .treeRefused)
      (hroot : st'.timer .rootDeadline = st.timer .rootDeadline ∨
        st.parkReason = some .rootFailed)
  | deferred {t : TimerId} {fireAt : Timestamp} (hb : input.body = .timerFired t.text fireAt)
      (ht : t.slot? = none) (hcond : st'.condition = st.condition) (hcancel : st'.treeCancelOwed = st.treeCancelOwed)
      (harmed : ∀ u : TimerId, (st'.timer u).isSome = (st.timer u).isSome)
  | rootPeriod {fireAt : Timestamp} (hb : input.body = .timerFired rootDeadlineTimer fireAt)
      (harmed : (st.timer .rootDeadline).isSome = true)
      (hcond : st'.condition = st.condition ∨ st'.parkReason = some .rootFailed)
      (hcancel : st'.treeCancelOwed = st.treeCancelOwed)
      (hwindow : st'.timer .treeWindow = st.timer .treeWindow)
  | windowOver {fireAt : Timestamp} (hb : input.body = .timerFired treeWindowTimer fireAt)
      (harmed : (st.timer .treeWindow).isSome = true)
      (hcond : st'.parkReason = some .treeRefused) (hwindow : st'.timer .treeWindow = none)
      (hroot : st'.timer .rootDeadline = st.timer .rootDeadline)

/-- **What an input does to the run alone.** -/
inductive RunMove (st : RunState) (input : Event) : RunState → Prop
  | commissioned {w f : String} {p : LivenessPolicy} {t : MessageId} {q : String}
      (hb : input.body = .commissioned w f p t q) (hno : st.commissioned = false) :
      RunMove st input (({ st with
        commissioned := true
        workspace := w
        flowHash := f
        policy := p
        rootThread := some t
        requester := q } : RunState).arm .rootDeadline
          ⟨input.now.plus p.rootDeadline, .rootDeadline⟩)
  | rootOpened {t m : MessageId} (hb : input.body = .rootOpened t m)
      (hphase : st.phase = .created) (hnone : st.rootMessage = none) :
      RunMove st input (({ st with
        rootThread := some t
        rootMessage := some m
        condition := none
        phase := .queued none } : RunState).disarm .rootDeadline)
  | rootOpenedLate {t m : MessageId} (hb : input.body = .rootOpened t m)
      (hfin : st.isFinishing = true) (hnone : st.rootMessage = none) :
      RunMove st input { st with
        rootThread := some t
        rootMessage := some m
        condition := none }
  | claimBusy {holder : RunId} {b : Option RunId} (hb : input.body = .claimBusy holder)
      (hphase : st.phase = .queued b) :
      RunMove st input { st with
        phase := .queued (some holder)
        claimChanges := st.claimChanges + 1 }
  | released {o : Outcome} {reason : Option ReasonCode} {tree : ParkPhase}
      (hb : input.body = .claimReleased) (hphase : st.phase = .finishing o reason tree)
      (hready : readyToRelease st = true) :
      RunMove st input { st with phase := .finished o reason, timers := .empty }
  | treeParked {o : Outcome} {reason : Option ReasonCode} {outcome : ParkOutcome}
      (hb : input.body = .treeParked outcome) (hphase : st.phase = .finishing o reason .unparked) :
      RunMove st input { st with
        parked := some outcome
        phase := .finishing o reason (.parked outcome) }
  | delivered {m : MessageId} {key : Key} (hb : input.body = .delivered m)
      (hkey : deliveryKey input = some key) (howed : ∃ d ∈ owedDeliveries st, d.1 = key) :
      RunMove st input { st with
        delivered := if key ∈ st.delivered then st.delivered else key :: st.delivered }
  | attended {st' : RunState}
      (hb : (∃ reason, input.body = .treeRefused reason) ∨ input.body = .resumeRun ∨
        ∃ t fireAt, input.body = .timerFired t fireAt)
      (hsteady : st'.steady = st.steady) (hknown : Known st'.timers st.ids)
      (hslot : ∀ t : TimerId, t.slot? ≠ none → st'.timer t = st.timer t)
      (hattends : Attends st input st') : RunMove st input st'

/-- An input that ends where it lands. -/
structure Settles (st : RunState) (input : Event) (r : SlotRecord) : Prop where
  ended : ∀ key cause, input.body ≠ .sessionFact key (.ended cause)
  reply : ∀ key m esc rew, input.body ≠ .reply key m esc rew
  resume : ∀ slot, input.body = .resume slot → r.condition.any SlotCondition.isWouldNotStop = true
  retry : ∀ fireAt, input.body = .timerFired (slotTimer .holdRetry r.slot) fireAt →
    isDeferred st (slotTimer .holdRetry r.slot) fireAt input.now = true

/-- The record after its end. -/
def SlotRecord.ended (r : SlotRecord) (now : Timestamp) (cause : EndCause) : SlotRecord :=
  ({ r with lastFact := some now } : SlotRecord).end' cause

/-- The question an escalation asks. -/
def escalation (st : RunState) (s : Slot) (m : MessageId) (now : Timestamp) : Question :=
  ⟨escalatedKey st s, .escalation s m, now, false⟩

/-- The state with a question answered. -/
def RunState.answered (st : RunState) (q : Key) (cause : Option StartCause) : RunState :=
  { st with
    questions := st.questions.map fun x => if x.id = q then { x with answered := true } else x
    pendingStart := cause }

/-- The state with the tree prepared, before any slot starts. -/
def RunState.prepared (st : RunState) (base : Base) (found : Option ParkOutcome) : RunState :=
  ({ st with
    phase := .running .prepared
    base := some base
    found
    condition := none
    treeCancelOwed := false } : RunState).disarm .treeWindow

/-- The state with a withdrawal recorded. -/
def RunState.withdraw (st : RunState) : RunState :=
  { st with withdrawn := true, slots := st.slots.map SlotRecord.applyWithdrawn }

/-- **What an accepted input does to a run.** -/
inductive Transition (st : RunState) (input : Event) : RunState → Prop
  | run {st' : RunState} (h : RunMove st input st') : Transition st input st'
  | claimed {b : Option RunId} {d : StepDef} {mid : RunState} {a : ArmedTimer}
      (hb : input.body = .claimTaken) (hphase : st.phase = .queued b)
      (hfirst : st.flow.steps.head? = some d)
      (h : Begins input.now { st with claimSince := some input.now } d mid)
      (ha : TimerId.treeWindow.Fits a) :
      Transition st input (mid.arm .treeWindow a)
  | prepared {base : Base} {found : Option ParkOutcome} {st' : RunState}
      (hb : input.body = .treePrepared base found) (hphase : st.phase = .running .unprepared)
      (harms : Arms (st.prepared base found) st') (hwait : Waiting st') : Transition st input st'
  | slot {r r' : SlotRecord} {g : Nat → Bool} {st' : RunState} (hmove : SlotMove st input r r' g)
      (hland : Landed st st' r r' g) (hsettles : Settles st input r) : Transition st input st'
  | ended {r : SlotRecord} {g : Nat → Bool} {cause : EndCause} {mid st' : RunState}
      (hb : input.body = .sessionFact (st.sessionKey r.slot) (.ended cause))
      (hmove : SlotMove st input r (r.ended input.now cause) g)
      (hland : Landed st mid r (r.ended input.now cause) g) (hlive : r.state.isLive = true)
      (hj : r.state.isRetired = false → JustEnded mid (r.ended input.now cause) cause)
      (h : if st.isFinishing = true then st' = mid
        else AfterEnd input.now mid (r.ended input.now cause) r.state cause st') :
      Transition st input st'
  | replied {r r' : SlotRecord} {g : Nat → Bool} {m : MessageId} {esc rew : Bool}
      {mid asked st' : RunState} (hb : input.body = .reply (st.sessionKey r.slot) m esc rew)
      (hr' : r' = r.applyReply (hasEdge st r.slot.step) m esc rew)
      (hw : r.state.isWorking = true) (hmove : SlotMove st input r r' g)
      (hland : Landed st mid r r' g)
      (hasked : asked = if r'.state.isEscalated = true then
        { mid with questions := mid.questions ++ [escalation mid r.slot m input.now] } else mid)
      (hcoh : Coh asked) (h : AfterReply input.now asked r.slot st') : Transition st input st'
  | resumed {r : SlotRecord} {c : SlotCondition} {g : Nat → Bool} {slot : Option Slot}
      {cause : EndCause} {mid st' : RunState} (hb : input.body = .resume slot)
      (hc : r.condition = some c) (hw : c.isWouldNotStop = false)
      (hmove : SlotMove st input r r.applyResume g) (hland : Landed st mid r r.applyResume g)
      (hj : JustEnded mid r.applyResume cause) (h : Restarts input.now mid r.slot st') :
      Transition st input st'
  | retried {r : SlotRecord} {g : Nat → Bool} {fireAt : Timestamp} {cause : EndCause}
      {mid st' : RunState}
      (hb : input.body = .timerFired (slotTimer .holdRetry r.slot) fireAt)
      (hs : r.state = .ended cause) (hc : r.condition.any SlotCondition.isHeld = true)
      (hlast : ¬ Later st.ids r.slot) (hover : st.isOver = false)
      (hmove : SlotMove st input r r g) (hland : Landed st mid r r g)
      (hretry : mid.timer (.slot .holdRetry r.slot) = none)
      (h : Restarts input.now mid r.slot st') : Transition st input st'
  | answered {q : Question} {disp : Disposition} {m m' : MessageId} {r : SlotRecord}
      {st' : RunState} (hb : input.body = .answer q.id disp m) (hq : q ∈ st.questions)
      (hopen : q.answered = false) (hasked : q.asked = .escalation r.slot m') (hr : r ∈ st.slots)
      (hlast : ¬ Later st.ids r.slot) (hesc : r.state.isEscalated = true)
      (hfin : st.isFinishing = false) (hcoh : Coh (st.answered q.id (some (.answer m))))
      (h : Restarts input.now (st.answered q.id (some (.answer m))) r.slot st') :
      Transition st input st'
  | continued {q : Question} {m m' : MessageId} {d : StepDef} {pass : Nat} {target : Text}
      {st' : RunState} (hb : input.body = .answer q.id .continue m) (hq : q ∈ st.questions)
      (hopen : q.answered = false) (hasked : q.asked = .ceiling d.id pass m')
      (hd : d ∈ st.flow.steps) (hedge : d.onNeedsRework = some target)
      (hfin : st.isFinishing = false) (hcoh : Coh (st.answered q.id none))
      (h : Reworks input.now (st.answered q.id none) d target pass st') : Transition st input st'
  | acceptedNext {q : Question} {m m' : MessageId} {d d' : StepDef} {pass : Nat} {next : Text}
      {cause : Option StartCause} {st' : RunState} (hb : input.body = .answer q.id .accept m)
      (hq : q ∈ st.questions) (hopen : q.answered = false)
      (hasked : q.asked = .ceiling d.id pass m') (hd : d ∈ st.flow.steps)
      (hnext : d.next = some next) (hd' : st.flow.step next = some d')
      (hfin : st.isFinishing = false) (hcoh : Coh (st.answered q.id cause))
      (h : Begins input.now (st.answered q.id cause) d' st') : Transition st input st'
  | acceptedLast {q : Question} {m m' : MessageId} {d : StepDef} {pass : Nat}
      {cause : Option StartCause} (hb : input.body = .answer q.id .accept m)
      (hq : q ∈ st.questions) (hopen : q.answered = false)
      (hasked : q.asked = .ceiling d.id pass m') (hd : d ∈ st.flow.steps) (hnext : d.next = none)
      (hfin : st.isFinishing = false) (hcoh : Coh (st.answered q.id cause)) :
      Transition st input
        ((st.answered q.id cause).finishing .accepted .acceptedByRequester input.now)
  | withdrawn {m : Option MessageId} {who : WithdrawnBy} (hb : input.body = .withdrawn m who)
      (hfin : st.isFinishing = false) (hcoh : Coh st.withdraw) :
      Transition st input
        (st.withdraw.finishing .withdrawn (Emit.withdrawnReason who) input.now)
  | forced {m : Option MessageId} {who : WithdrawnBy} (hb : input.body = .withdrawn m who)
      (hfin : st.isFinishing = true) (hcoh : Coh st.withdraw) : Transition st input st.withdraw

/-! ## `step` makes a transition: the run alone -/

section Step

variable {st : RunState} {input : Event}

section Timers

variable {timers : KeyMap Text ArmedTimer} {t u : TimerId}

/-- The run's own timers are no slot's. -/
theorem get_insert_other {a : ArmedTimer} (ht : t.slot? = none) (hu : u.slot? ≠ none) :
    (timers.insert t.text a).get u.text = timers.get u.text := by
  have hne : u.text ≠ t.text := by
    intro heq
    rw [TimerId.text_injective heq] at hu
    exact hu ht
  rw [KeyMap.get_insert, if_neg hne]

theorem get_erase_other (ht : t.slot? = none) (hu : u.slot? ≠ none) :
    (timers.erase t.text).get u.text = timers.get u.text := by
  have hne : u.text ≠ t.text := by
    intro heq
    rw [TimerId.text_injective heq] at hu
    exact hu ht
  rw [KeyMap.get_erase, if_neg hne]

theorem Known.insertRun {ids : List Slot} (h : Known timers ids) {a : ArmedTimer}
    (ht : t.slot? = none) (hfits : t.Fits a) : Known (timers.insert t.text a) ids :=
  h.insert hfits fun s hs => by rw [ht] at hs; cases hs

end Timers

theorem commissioned_transition (h : Coh st) (hacc : ignoredReason st input = none)
    {w f : String} {p : LivenessPolicy} {t : MessageId} {q : String}
    (hb : input.body = .commissioned w f p t q) :
    Transition st input (emitted st input).state ∧ Coh (emitted st input).state := by
  have hno := accepted_commissioned hacc hb
  have hstart : (Emit.start st input).state = { st with
      commissioned := true, workspace := w, flowHash := f, policy := p, rootThread := some t,
      requester := q } := by
    rw [start_state hacc]
    simp only [applyBody, hb]
  have hstate : (emitted st input).state = (Emit.start st input).state.arm .rootDeadline
      ⟨input.now.plus (Emit.start st input).state.policy.rootDeadline, .rootDeadline⟩ := by
    unfold emitted
    rw [hb]
    exact Emit.state_setTimer _ (by decide) .rootDeadline _
  rw [hstate, hstart]
  refine ⟨.run (.commissioned hb hno), h.other rfl rfl rfl rfl rfl rfl ?_ ?_⟩
  · exact h.known.insertRun (t := .rootDeadline) rfl rfl
  · exact fun u hu => get_insert_other (t := .rootDeadline) rfl hu

theorem rootOpened_transition (h : Coh st) (hacc : ignoredReason st input = none)
    {t m : MessageId} (hb : input.body = .rootOpened t m) :
    Transition st input (emitted st input).state ∧ Coh (emitted st input).state := by
  obtain ⟨hnone, hphase⟩ := accepted_rootOpened hacc hb
  have hstart : (Emit.start st input).state = { st with
      rootThread := some t, rootMessage := some m, condition := none } := by
    rw [start_state hacc]
    simp only [applyBody, hb]
  by_cases hcreated : st.phase = .created
  · have hstate : (emitted st input).state = ({ st with
        rootThread := some t, rootMessage := some m, condition := none,
        phase := .queued none } : RunState).disarm .rootDeadline := by
      unfold emitted
      rw [hb]
      simp only [Emit.input]
      rw [if_pos (by rw [hstart]; exact hcreated), Emit.state_push, Emit.state_clearTimer, hstart]
      rfl
    rw [hstate]
    refine ⟨.run (.rootOpened hb hcreated hnone), h.other rfl rfl rfl rfl rfl ?_ ?_ ?_⟩
    · unfold RunState.isOver RunState.isFinishing RunState.isFinished
      rw [hcreated]
      rfl
    · exact h.known.erase _
    · exact fun u hu => get_erase_other (t := .rootDeadline) rfl hu
  · have hfin := hphase.resolve_left hcreated
    have hstate : (emitted st input).state = { st with
        rootThread := some t, rootMessage := some m, condition := none } := by
      unfold emitted
      rw [hb]
      simp only [Emit.input]
      rw [if_neg (by rw [hstart]; exact hcreated), hstart]
    rw [hstate]
    exact ⟨.run (.rootOpenedLate hb hfin hnone), h.aside rfl rfl rfl rfl rfl rfl rfl⟩

theorem claimBusy_transition (h : Coh st) (hacc : ignoredReason st input = none)
    {holder : RunId} (hb : input.body = .claimBusy holder) :
    Transition st input (emitted st input).state ∧ Coh (emitted st input).state := by
  obtain ⟨b, hphase⟩ := accepted_claimBusy hacc hb
  have hstate : (emitted st input).state = { st with
      phase := .queued (some holder), claimChanges := st.claimChanges + 1 } := by
    unfold emitted
    rw [hb]
    simp only [Emit.input]
    rw [Emit.state_push, start_state hacc]
    simp only [applyBody, hb, applyDecision]
  rw [hstate]
  refine ⟨.run (.claimBusy hb hphase), h.aside rfl rfl rfl rfl rfl rfl ?_⟩
  unfold RunState.isOver RunState.isFinishing RunState.isFinished
  rw [hphase]

/-- A slot that is not live is watched by nothing. -/
theorem SlotRecord.mustArm_of_not_live {r : SlotRecord} (h : r.state.isLive = false) :
    r.mustArm = [] := by
  unfold SlotRecord.mustArm
  cases hs : r.state with
  | replied m esc rew process overdue l =>
    cases process
    · simp [hs, SlotState.isLive] at h
    · cases l <;> rfl
  | ended cause => rfl
  | pending => rfl
  | _ => simp [hs, SlotState.isLive] at h

theorem readyToRelease_spec (h : readyToRelease st = true) : ∃ o reason park,
    st.phase = .finishing o reason (.parked park) ∧ st.anyLive = false ∧ owedDeliveries st = [] := by
  unfold readyToRelease at h
  split at h
  · rename_i o reason park hphase
    rw [Bool.and_eq_true, Bool.not_eq_true', List.isEmpty_iff] at h
    exact ⟨o, reason, park, hphase, h.1, h.2⟩
  · cases h

theorem RunState.anyLive_false {st : RunState} (h : st.anyLive = false) {r : SlotRecord}
    (hr : r ∈ st.slots) : r.state.isLive = false := by
  unfold RunState.anyLive at h
  rw [List.any_eq_false] at h
  simpa using h r hr

/-- The claim is released with nothing live, so nothing is left to watch. -/
theorem Coh.released (h : Coh st) (hready : readyToRelease st = true) {o : Outcome}
    {reason : Option ReasonCode} {tree : ParkPhase} (hphase : st.phase = .finishing o reason tree) :
    Coh { st with phase := .finished o reason, timers := .empty } := by
  obtain ⟨-, -, -, -, hlive, -⟩ := readyToRelease_spec hready
  have hover : st.isOver = true := by
    unfold RunState.isOver RunState.isFinishing
    rw [hphase]
    rfl
  have hknown : Known .empty st.ids := by
    intro k a hk
    cases hk
  refine ⟨h.ordered, h.visitBound, hknown, ?_, h.active, h.asked⟩
  intro r hr
  have hc := h.slots r hr
  have hnot := RunState.anyLive_false hlive hr
  refine
    ⟨(fun _ h => by cases h), ?_, (fun _ h => by cases h), (fun h => by cases h), hc.alive,
    hc.named, hc.condition, hc.retired, ?_⟩
  · rw [SlotRecord.mustArm_of_not_live hnot]
    exact fun _ h => by cases h
  · exact fun _ => hc.isOver hover

theorem claimReleased_transition (h : Coh st) (hacc : ignoredReason st input = none)
    (hb : input.body = .claimReleased) :
    Transition st input (emitted st input).state ∧ Coh (emitted st input).state := by
  have hready := accepted_claimReleased hacc hb
  obtain ⟨o, reason, park, hphase, -, -⟩ := readyToRelease_spec hready
  have hstart : (Emit.start st input).state = st := by
    rw [start_state hacc]
    simp only [applyBody, hb]
  have hstate : (emitted st input).state
      = { st with phase := .finished o reason, timers := .empty } := by
    unfold emitted
    rw [hb]
    simp only [Emit.input, Emit.finished, hstart, hphase]
    rw [Emit.state_push, hstart]
    rfl
  rw [hstate]
  exact ⟨.run (.released hb hphase hready), h.released hready hphase⟩

theorem treeParked_transition (h : Coh st) (hacc : ignoredReason st input = none)
    {outcome : ParkOutcome} (hb : input.body = .treeParked outcome) :
    Transition st input (emitted st input).state ∧ Coh (emitted st input).state := by
  obtain ⟨o, reason, hphase⟩ := accepted_treeParked hacc hb
  have hstate : (emitted st input).state = { st with
      parked := some outcome, phase := .finishing o reason (.parked outcome) } := by
    unfold emitted
    rw [hb]
    simp only [Emit.input]
    rw [start_state hacc]
    simp only [applyBody, hb, hphase]
  rw [hstate]
  refine ⟨.run (.treeParked hb hphase), h.aside rfl rfl rfl rfl rfl rfl ?_⟩
  unfold RunState.isOver RunState.isFinishing RunState.isFinished
  rw [hphase]

theorem delivered_transition (h : Coh st) (hacc : ignoredReason st input = none)
    {m : MessageId} (hb : input.body = .delivered m) :
    Transition st input (emitted st input).state ∧ Coh (emitted st input).state := by
  obtain ⟨key, hkey, howed⟩ := accepted_delivered hacc hb
  have hstate : (emitted st input).state = { st with
      delivered := if key ∈ st.delivered then st.delivered else key :: st.delivered } := by
    unfold emitted
    rw [hb]
    simp only [Emit.input]
    rw [start_state hacc]
    simp only [applyBody, hb, hkey]
  rw [hstate]
  exact ⟨.run (.delivered hb hkey howed), h.aside rfl rfl rfl rfl rfl rfl rfl⟩

/-- The run alone, attending to its tree, its root or its condition. -/
theorem Coh.steady {st' : RunState} (h : Coh st) (hsteady : st'.steady = st.steady)
    (hknown : Known st'.timers st.ids)
    (hslot : ∀ t : TimerId, t.slot? ≠ none → st'.timer t = st.timer t) : Coh st' :=
  h.other (steady_keeps hsteady RunState.run fun _ => rfl)
    (steady_keeps hsteady RunState.slots fun _ => rfl)
    (steady_keeps hsteady RunState.visits fun _ => rfl)
    (steady_keeps hsteady RunState.currentStep fun _ => rfl)
    (steady_keeps hsteady RunState.questions fun _ => rfl)
    (steady_keeps hsteady RunState.isOver fun _ => rfl) hknown hslot

theorem attended_transition {st' : RunState} (h : Coh st)
    (hb : (∃ reason, input.body = .treeRefused reason) ∨ input.body = .resumeRun ∨
      ∃ t fireAt, input.body = .timerFired t fireAt)
    (hsteady : st'.steady = st.steady) {timers : KeyMap Text ArmedTimer}
    (htimers : st'.timers = timers) (hknown : Known timers st.ids)
    (hslot : ∀ t : TimerId, t.slot? ≠ none → timers.get t.text = st.timer t)
    (hattends : Attends st input st') : Transition st input st' ∧ Coh st' := by
  subst htimers
  exact ⟨.run (.attended hb hsteady hknown hslot hattends), h.steady hsteady hknown hslot⟩

theorem treeRefused_transition (h : Coh st) (hacc : ignoredReason st input = none)
    {reason : TreeRefusal} (hb : input.body = .treeRefused reason) :
    Transition st input (emitted st input).state ∧ Coh (emitted st input).state := by
  have hphase := accepted_treeRefused hacc hb
  have hstart : (Emit.start st input).state = { st with
      treeRefusals := st.treeRefusals + 1, treeCancelOwed := false } := by
    rw [start_state hacc]
    simp only [applyBody, hb]
  have hemit : emitted st input = if (isPermanent reason && st.condition.isNone) = true then
      ((Emit.start st input).clearTimer treeWindowTimer).push (.parked none .treeRefused)
      else Emit.start st input := by
    unfold emitted
    rw [hb]
    rfl
  rw [hemit]
  split
  · rw [Emit.state_push, Emit.state_clearTimer, hstart]
    refine attended_transition h (Or.inl ⟨reason, hb⟩) rfl rfl (h.known.erase treeWindowTimer)
      (fun u hu => get_erase_other (t := .treeWindow) rfl hu) (.refused hb hphase rfl rfl ?_ ?_)
    · exact (@RunState.timer_disarm st .treeWindow .treeWindow).trans (if_pos rfl)
    · exact (@RunState.timer_disarm st .treeWindow .rootDeadline).trans (if_neg (by decide))
  · rw [hstart]
    exact attended_transition h (Or.inl ⟨reason, hb⟩) rfl rfl h.known (fun _ _ => rfl)
      (.refusalKept hb hphase rfl rfl rfl)

theorem resumeRun_transition (h : Coh st) (hacc : ignoredReason st input = none)
    (hb : input.body = .resumeRun) :
    Transition st input (emitted st input).state ∧ Coh (emitted st input).state := by
  obtain ⟨hfin, -⟩ := accepted_resumeRun hacc hb
  have hstart : (Emit.start st input).state = { st with condition := none, rootPeriods := 0 } := by
    rw [start_state hacc]
    simp only [applyBody, hb]
  have hemit : emitted st input = (Emit.start st input).resumeRun := by
    unfold emitted
    rw [hb]
    rfl
  have harm : ∀ (t : TimerId) (span : Secs) (p : TimerPurpose), t.slot? = none →
      p ≠ .startDeadline → (∀ x, t.Fits ⟨x, p⟩) →
      (t = .treeWindow → st.parkReason = some .treeRefused) →
      (t = .rootDeadline → st.parkReason = some .rootFailed) →
      Transition st input ((Emit.start st input).setTimer t.text span p).state ∧
        Coh ((Emit.start st input).setTimer t.text span p).state := by
    intro t span p ht hp hfits hwindow hroot
    have hother : ∀ (a : ArmedTimer) (u : TimerId), u ≠ t →
        RunState.timer { st with timers := st.timers.insert t.text a } u = st.timer u :=
      fun a u hne => (@RunState.timer_arm st t u a).trans (if_neg hne)
    rw [Emit.state_setTimer _ hp, hstart]
    refine attended_transition h (Or.inr (Or.inl hb)) rfl rfl (h.known.insertRun ht (hfits _))
      (fun u hu => get_insert_other ht hu) (.resumed hb hfin rfl rfl ?_ ?_)
    · by_cases heq : TimerId.treeWindow = t
      · exact Or.inr (hwindow heq.symm)
      · exact Or.inl (hother _ _ heq)
    · by_cases heq : TimerId.rootDeadline = t
      · exact Or.inr (hroot heq.symm)
      · exact Or.inl (hother _ _ heq)
  rw [hemit]
  unfold Emit.resumeRun
  split
  · rename_i hreason
    exact harm .rootDeadline _ .rootDeadline rfl (by decide) (fun _ => rfl) (fun h => by cases h)
      fun _ => hreason
  · rename_i hreason
    exact harm .treeWindow _ .treeWindow rfl (by decide) (fun _ => rfl) (fun _ => hreason)
      (fun h => by cases h)
  · rw [hstart]
    exact attended_transition h (Or.inr (Or.inl hb)) rfl rfl h.known (fun _ _ => rfl)
      (.resumed hb hfin rfl rfl (Or.inl rfl) (Or.inl rfl))

/-- A timer of the run that fires: its root's deadline, or its tree's window. -/
theorem runFiring_transition (h : Coh st) (hacc : ignoredReason st input = none) {t : TimerId}
    {fireAt : Timestamp} {a : ArmedTimer} (hb : input.body = .timerFired t.text fireAt)
    (ha : st.timer t = some a) (ht : t.slot? = none) (hfits : t.Fits a) :
    Transition st input (emitted st input).state ∧ Coh (emitted st input).state := by
  have hbody : (∃ reason, input.body = .treeRefused reason) ∨ input.body = .resumeRun ∨
      ∃ t fireAt, input.body = .timerFired t fireAt := Or.inr (Or.inr ⟨_, _, hb⟩)
  have hknown : Known (st.timers.erase t.text) st.ids := h.known.erase _
  have hslot : ∀ u : TimerId, u.slot? ≠ none → (st.timers.erase t.text).get u.text = st.timer u :=
    fun u hu => get_erase_other ht hu
  have harm : ∀ (b : ArmedTimer), t.Fits b → ∀ u : TimerId, u.slot? ≠ none →
      ((st.timers.erase t.text).insert t.text b).get u.text = st.timer u := by
    intro b _ u hu
    rw [get_insert_other ht hu]
    exact hslot u hu
  have hstart := firing_start hacc hb ha
  rw [firing_emitted hb ha]
  split
  · rename_i hdef
    rw [if_pos hdef] at hstart
    have hp : a.purpose ≠ .startDeadline := by
      intro hp
      cases t with
      | rootDeadline => exact absurd (hfits.symm.trans hp) (by decide)
      | treeWindow => exact absurd (hfits.symm.trans hp) (by decide)
      | slot p s => cases ht
      | grace n s => cases ht
    have hfits' : ∀ x, t.Fits ⟨x, a.purpose⟩ := by
      intro x
      cases t with
      | rootDeadline => exact hfits
      | treeWindow => exact hfits
      | slot p s => cases ht
      | grace n s => cases ht
    rw [Emit.state_setTimer _ hp, hstart]
    refine attended_transition h hbody rfl rfl (hknown.insertRun ht (hfits' _)) (harm _ (hfits' _))
      (.deferred hb ht rfl rfl fun u => ?_)
    show (((st.timers.erase t.text).insert t.text _).get u.text).isSome = _
    rw [KeyMap.get_insert, KeyMap.get_erase]
    split
    · rename_i heq
      rw [TimerId.text_injective heq, ha]
      rfl
    · rfl
  · rename_i hdef
    rw [if_neg hdef] at hstart
    cases t with
    | slot p s => cases ht
    | grace n s => cases ht
    | rootDeadline =>
      rw [show a.purpose = .rootDeadline from hfits] at hstart ⊢
      simp only [applyFiring] at hstart
      simp only [Emit.fire, Emit.rootPeriod]
      split
      · rw [Emit.state_push, hstart]
        simp only [applyDecision, takeOrder]
        refine attended_transition h hbody rfl rfl hknown hslot
          (.rootPeriod hb (by rw [ha]; rfl) (Or.inr rfl) rfl ?_)
        exact (@RunState.timer_disarm st .rootDeadline .treeWindow).trans (if_neg (by decide))
      · have hset := Emit.state_setTimer (Emit.start st input)
          (show TimerPurpose.rootDeadline ≠ .startDeadline by decide) .rootDeadline
          (Emit.start st input).state.policy.rootDeadline
        unfold Emit.setRootDeadline
        rw [show rootDeadlineTimer = TimerId.rootDeadline.text from rfl, hset, hstart]
        refine attended_transition h hbody rfl rfl (hknown.insertRun rfl rfl) (harm _ rfl)
          (.rootPeriod hb (by rw [ha]; rfl) (Or.inl rfl) rfl ?_)
        show ((st.timers.erase rootDeadlineTimer).insert rootDeadlineTimer _).get treeWindowTimer = _
        rw [KeyMap.get_insert, if_neg (by decide), KeyMap.get_erase, if_neg (by decide)]
        rfl
    | treeWindow =>
      rw [show a.purpose = .treeWindow from hfits] at hstart ⊢
      simp only [applyFiring] at hstart
      simp only [Emit.fire]
      rw [Emit.state_push, hstart]
      simp only [applyDecision, takeOrder]
      refine attended_transition h hbody rfl rfl hknown hslot
        (.windowOver hb (by rw [ha]; rfl) rfl ?_ ?_)
      · exact (@RunState.timer_disarm st .treeWindow .treeWindow).trans (if_pos rfl)
      · exact (@RunState.timer_disarm st .treeWindow .rootDeadline).trans
          (if_neg (by decide))

end Step

end NexusFlow.Run
