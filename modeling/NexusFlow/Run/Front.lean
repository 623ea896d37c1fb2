import NexusFlow.Lib.Trace
import NexusFlow.Run.Changes

/-!
# The run's own park, timers and tree

What one input does to the part of a state that belongs to no slot: the phase, the run's own
condition, the cancel it owes and its two timers, `root_deadline` and `tree_window`. `FrontMove`
says it for every transition. `Front` is what follows in every run: the tree's window, its cancel and
its refusal belong to a run whose tree is not prepared. `Early` is what follows where the commission
is the first thing a run folds, as the host has it: `root_deadline` belongs to a run whose root is
not open, and the window is not open while the run is parked, unless the host parked it itself.
-/

namespace NexusFlow.Run

open NexusFlow.Lib

/-- Nothing of the run's own changed. -/
structure SameFront (st st' : RunState) : Prop where
  phase : st'.phase = st.phase
  condition : st'.condition = st.condition
  cancel : st'.treeCancelOwed = st.treeCancelOwed
  window : st'.timer .treeWindow = st.timer .treeWindow
  root : st'.timer .rootDeadline = st.timer .rootDeadline

/-- **What an accepted input does to the run's own park, timers and tree.** -/
inductive FrontMove (st : RunState) (input : Event) (st' : RunState) : Prop
  | same (h : SameFront st st')
  | commissioned {w f : String} {p : LivenessPolicy} {t : MessageId} {q : String}
      (hb : input.body = .commissioned w f p t q) (hphase : st'.phase = st.phase)
      (hcond : st'.condition = st.condition) (hcancel : st'.treeCancelOwed = st.treeCancelOwed)
      (hwindow : st'.timer .treeWindow = st.timer .treeWindow)
  | opened {t m : MessageId} (hb : input.body = .rootOpened t m) (hphase : st.phase = .created)
      (hphase' : st'.phase = .queued none) (hcond : st'.condition = none)
      (hcancel : st'.treeCancelOwed = st.treeCancelOwed)
      (hwindow : st'.timer .treeWindow = st.timer .treeWindow)
      (hroot : st'.timer .rootDeadline = none)
  | busy {holder : RunId} {b b' : Option RunId} (hb : input.body = .claimBusy holder)
      (hphase : st.phase = .queued b) (hphase' : st'.phase = .queued b')
      (hcond : st'.condition = st.condition) (hcancel : st'.treeCancelOwed = st.treeCancelOwed)
      (hwindow : st'.timer .treeWindow = st.timer .treeWindow)
      (hroot : st'.timer .rootDeadline = st.timer .rootDeadline)
  | claimed {b : Option RunId} (hb : input.body = .claimTaken) (hphase : st.phase = .queued b)
      (hphase' : st'.phase = .running .unprepared) (hcond : st'.condition = st.condition)
      (hcancel : st'.treeCancelOwed = st.treeCancelOwed)
      (hroot : st'.timer .rootDeadline = st.timer .rootDeadline)
  | prepared (hphase : st.phase = .running .unprepared) (hphase' : st'.phase = .running .prepared)
      (hcond : st'.condition = none) (hcancel : st'.treeCancelOwed = false)
      (hwindow : st'.timer .treeWindow = none)
      (hroot : st'.timer .rootDeadline = st.timer .rootDeadline)
  | attends (hphase : st'.phase = st.phase) (h : Attends st input st')
  | finishes (hover : st.isOver = false) (hover' : st'.isFinishing = true)
      (hcond : st'.condition = none) (hcancel : st'.treeCancelOwed = false)
      (hwindow : st'.timer .treeWindow = none) (hroot : st'.timer .rootDeadline = none)
  | isOver (hover : st.isOver = true) (hover' : st'.isOver = true)
      (hcond : st'.condition = none ∨ st'.condition = st.condition)
      (hcancel : st'.treeCancelOwed = st.treeCancelOwed)
      (hwindow : st'.timer .treeWindow = none ∨ st'.timer .treeWindow = st.timer .treeWindow)
      (hroot : st'.timer .rootDeadline = none ∨ st'.timer .rootDeadline = st.timer .rootDeadline)

section

variable {st mid st' : RunState} {input : Event} {r r' : SlotRecord}

theorem SameFront.refl (st : RunState) : SameFront st st := ⟨rfl, rfl, rfl, rfl, rfl⟩

theorem SameFront.trans (h : SameFront st mid) (h' : SameFront mid st') : SameFront st st' :=
  ⟨h'.phase.trans h.phase, h'.condition.trans h.condition, h'.cancel.trans h.cancel,
    h'.window.trans h.window, h'.root.trans h.root⟩

theorem Replaces.sameFront (h : Replaces st st' r r') : SameFront st st' :=
  ⟨h.phase_eq, h.keeps RunState.condition fun _ => rfl,
    h.keeps RunState.treeCancelOwed fun _ => rfl, h.other .treeWindow (fun h => by cases h),
    h.other .rootDeadline (fun h => by cases h)⟩

theorem Arms.sameFront (h : Arms st st') : SameFront st st' := by
  have hother : ∀ t : TimerId, t.slot? = none → st'.timer t = st.timer t := by
    intro t ht
    refine h.keeps (fun x => x.timer t) fun x s d => ?_
    refine (timer_startSlot x s d t).trans (if_neg ?_)
    rintro rfl
    cases ht
  exact ⟨h.keeps RunState.phase fun _ _ _ => rfl, h.keeps RunState.condition fun _ _ _ => rfl,
    h.keeps RunState.treeCancelOwed fun _ _ _ => rfl, hother _ rfl, hother _ rfl⟩

/-- A `step_started` opens the run, and touches nothing else of its own. -/
theorem Starts.keepsFront {now : Timestamp} {step : StepId} {visit attempt : Nat}
    {members : List Handle} (h : Starts now mid step visit attempt members st') :
    st'.phase = mid.phase.opened ∧ st'.condition = mid.condition ∧
      st'.treeCancelOwed = mid.treeCancelOwed ∧ st'.timer .treeWindow = mid.timer .treeWindow ∧
      st'.timer .rootDeadline = mid.timer .rootDeadline := by
  obtain ⟨new, ho, -⟩ := opened_of_stepStarted mid step visit attempt members now
  have hfront := h.arms.sameFront
  rw [ho.eq] at hfront
  exact ⟨hfront.phase, hfront.condition, hfront.cancel, hfront.window, hfront.root⟩

/-- A `step_started` in a run that is running. -/
theorem Starts.sameFront {now : Timestamp} {step : StepId} {visit attempt : Nat}
    {members : List Handle} (h : Starts now mid step visit attempt members st')
    (hrunning : ∃ tree, mid.phase = .running tree) : SameFront mid st' := by
  obtain ⟨tree, hphase⟩ := hrunning
  obtain ⟨hopened, hcond, hcancel, hwindow, hroot⟩ := h.keepsFront
  refine ⟨?_, hcond, hcancel, hwindow, hroot⟩
  rw [hopened, hphase]
  rfl

theorem finishing_front (h : Known st.timers st.ids) (o : Outcome) (reason : ReasonCode)
    (now : Timestamp) : (st.finishing o reason now).timer .treeWindow = none ∧
      (st.finishing o reason now).timer .rootDeadline = none := by
  have hnone : ∀ t : TimerId, t.slot? = none → (st.finishing o reason now).timer t = none := by
    intro t ht
    rw [timer_finishing]
    cases ha : st.timer t with
    | none => rfl
    | some a =>
      obtain ⟨u, htext, hfits, -⟩ := h _ _ ha
      cases TimerId.text_injective htext
      cases t with
      | rootDeadline => simp [Option.filter, keepsFinishing, show a.purpose = _ from hfits]
      | treeWindow => simp [Option.filter, keepsFinishing, show a.purpose = _ from hfits]
      | slot p s => cases ht
      | grace n s => cases ht
  exact ⟨hnone _ rfl, hnone _ rfl⟩

/-- **What an accepted input does to the run's own park, timers and tree.** -/
theorem Transition.front (ht : Transition st input st') (h : Inv st)
    (hacc : ignoredReason st input = none) : FrontMove st input st' := by
  have hopen := accepted_not_finished hacc
  -- What starts after a record has moved.
  have hstarts : ∀ {r x : SlotRecord} {a : RunState} {now : Timestamp} {step : StepId}
      {visit attempt : Nat} {members : List Handle}, Replaces st a r x → st.isFinishing = false →
      Starts now a step visit attempt members st' → FrontMove st input st' := by
    intro r x a now step visit attempt members hrep hfin hs
    obtain ⟨tree, hphase⟩ := h.route.running (isOver_eq_false hfin hopen) (List.ne_nil_of_mem hrep.mem)
    exact .same (hrep.sameFront.trans (hs.sameFront ⟨tree, hrep.phase_eq.trans hphase⟩))
  have hasking : ∀ {q : Question}, q ∈ st.questions → st.isFinishing = false →
      ∃ tree, st.phase = .running tree := by
    intro q hq hfin
    exact h.route.running_of_question (isOver_eq_false hfin hopen) hq
  cases ht with
  | run hm =>
    cases hm with
    | commissioned hb _ =>
      exact .commissioned hb rfl rfl rfl
        ((RunState.timer_arm _ _ _).trans (if_neg (by decide)))
    | rootOpened hb hphase _ =>
      exact .opened hb hphase rfl rfl rfl
        ((RunState.timer_disarm _ _).trans (if_neg (by decide)))
        ((RunState.timer_disarm _ _).trans (if_pos rfl))
    | rootOpenedLate _ hfin _ =>
      exact .isOver (RunState.isOver_of_finishing hfin) (RunState.isOver_of_finishing hfin)
        (Or.inl rfl) rfl (Or.inr rfl) (Or.inr rfl)
    | claimBusy hb hphase => exact .busy hb hphase rfl rfl rfl rfl rfl
    | released _ hphase _ =>
      refine .isOver ?_ rfl (Or.inr rfl) rfl (Or.inl rfl) (Or.inl rfl)
      unfold RunState.isOver RunState.isFinishing
      rw [hphase]
      rfl
    | treeParked _ hphase =>
      refine .isOver ?_ rfl (Or.inr rfl) rfl (Or.inr rfl) (Or.inr rfl)
      unfold RunState.isOver RunState.isFinishing
      rw [hphase]
      rfl
    | delivered _ _ _ => exact .same ⟨rfl, rfl, rfl, rfl, rfl⟩
    | attended _ hsteady _ _ hattends =>
      exact .attends (steady_keeps hsteady RunState.phase fun _ => rfl) hattends
  | @claimed b d mid a hb hphase _ hbegins _ =>
    obtain ⟨hopened, hcond, hcancel, -, hroot⟩ := hbegins.keepsFront
    refine .claimed hb hphase ?_ hcond hcancel ?_
    · rw [show ({ st with claimSince := some input.now } : RunState).phase = _ from hphase]
        at hopened
      exact hopened
    · exact ((RunState.timer_arm _ _ _).trans (if_neg (by decide))).trans hroot
  | @prepared base found st' _ hphase harms _ =>
    have hfront := harms.sameFront
    refine .prepared hphase hfront.phase hfront.condition hfront.cancel ?_ ?_
    · rw [hfront.window]
      exact (RunState.timer_disarm _ _).trans (if_pos rfl)
    · rw [hfront.root]
      exact (RunState.timer_disarm _ _).trans (if_neg (by decide))
  | slot _ hland _ => exact .same hland.replaces.sameFront
  | @ended r g cause mid st' hb hmove hland hlive hj hafter =>
    have hrep := hland.replaces
    split at hafter
    · exact .same (hafter ▸ hrep.sameFront)
    · rename_i hfin
      cases hafter with
      | isOver _ harms _ => exact .same (hrep.sameFront.trans harms.sameFront)
      | restart _ _ _ hre => exact hstarts hrep (by simpa using hfin) hre
      | park _ _ hp => exact .same (hrep.sameFront.trans hp.replaces.sameFront)
      | hold _ _ _ _ hp _ => exact .same (hrep.sameFront.trans hp.replaces.sameFront)
  | @replied r r' g m esc rew mid asked st' hb hr' hwork hmove hland hasked hcoh hafter =>
    have hfin := (accepted_reply hacc hb).choose_spec.2.2
    have hover := isOver_eq_false hfin hopen
    have hrep := hland.replaces
    have hasks : SameFront mid asked := by
      rw [hasked]
      split
      · exact ⟨rfl, rfl, rfl, rfl, rfl⟩
      · exact .refl _
    have hfront := hrep.sameFront.trans hasks
    obtain ⟨tree, hphase⟩ := h.route.running hover (List.ne_nil_of_mem hrep.mem)
    have hrunning : asked.phase = .running tree := hfront.phase.trans hphase
    cases hafter with
    | elsewhere _ => exact .same hfront
    | waits _ _ _ => exact .same hfront
    | consolidates _ _ _ _ _ hs => exact .same (hfront.trans (hs.sameFront ⟨tree, hrunning⟩))
    | waitsSynthesis _ _ _ _ _ _ => exact .same hfront
    | @done _ replies _ _ _ _ _ hf =>
      generalize replies.any id = needsRework at hf
      cases hf with
      | rework _ _ hre =>
        obtain ⟨d', -, hs⟩ := hre
        have hstep := hs.sameFront ⟨tree, hrunning⟩
        exact .same (hfront.trans ⟨hstep.phase, hstep.condition, hstep.cancel, hstep.window,
          hstep.root⟩)
      | ceiling _ _ _ =>
        exact .same ⟨hfront.phase, hfront.condition, hfront.cancel, hfront.window, hfront.root⟩
      | next _ _ _ hs =>
        have hstep := hs.sameFront ⟨tree, hrunning⟩
        exact .same (hfront.trans ⟨hstep.phase, hstep.condition, hstep.cancel, hstep.window,
          hstep.root⟩)
      | last _ _ =>
        obtain ⟨hwindow, hroot⟩ :=
          finishing_front (hcoh.finishStep _ _ _ _).known .delivered .delivered input.now
        exact .finishes hover rfl rfl rfl hwindow hroot
  | resumed _ _ _ _ hland hj hre =>
    obtain ⟨tree, hphase⟩ := h.route.running (hland.replaces.isOver_eq ▸ hj.isOver)
      (List.ne_nil_of_mem hland.replaces.mem)
    exact .same (hland.replaces.sameFront.trans
      (hre.sameFront ⟨tree, hland.replaces.phase_eq.trans hphase⟩))
  | retried _ _ _ _ hover _ hland _ hre =>
    obtain ⟨tree, hphase⟩ := h.route.running hover (List.ne_nil_of_mem hland.replaces.mem)
    exact .same (hland.replaces.sameFront.trans
      (hre.sameFront ⟨tree, hland.replaces.phase_eq.trans hphase⟩))
  | answered _ hq _ _ _ _ _ hfin _ hre =>
    obtain ⟨tree, hphase⟩ := hasking hq hfin
    have hstep := hre.sameFront ⟨tree, hphase⟩
    exact .same ⟨hstep.phase, hstep.condition, hstep.cancel, hstep.window, hstep.root⟩
  | continued _ hq _ _ _ _ hfin _ hre =>
    obtain ⟨tree, hphase⟩ := hasking hq hfin
    obtain ⟨d', -, hs⟩ := hre
    have hstep := hs.sameFront ⟨tree, hphase⟩
    exact .same ⟨hstep.phase, hstep.condition, hstep.cancel, hstep.window, hstep.root⟩
  | acceptedNext _ hq _ _ _ _ _ hfin _ hs =>
    obtain ⟨tree, hphase⟩ := hasking hq hfin
    have hstep := hs.sameFront ⟨tree, hphase⟩
    exact .same ⟨hstep.phase, hstep.condition, hstep.cancel, hstep.window, hstep.root⟩
  | acceptedLast _ _ _ _ _ _ hfin hcoh =>
    obtain ⟨hwindow, hroot⟩ :=
      finishing_front hcoh.known .accepted .acceptedByRequester input.now
    exact .finishes (isOver_eq_false hfin hopen) rfl rfl rfl hwindow hroot
  | withdrawn _ hfin hcoh =>
    obtain ⟨hwindow, hroot⟩ := finishing_front hcoh.known .withdrawn (Emit.withdrawnReason _) input.now
    exact .finishes (isOver_eq_false hfin hopen) rfl rfl rfl hwindow hroot
  | forced _ _ _ => exact .same ⟨rfl, rfl, rfl, rfl, rfl⟩

/-! ## In every run -/

/-- **The tree's window, its cancel and its refusal belong to a tree that is not prepared.** -/
structure Front (st : RunState) : Prop where
  window : (st.timer .treeWindow).isSome = true → st.phase = .running .unprepared
  cancel : st.treeCancelOwed = true → st.phase = .running .unprepared
  refused : st.parkReason = some .treeRefused → st.phase = .running .unprepared

/-- **What a run that is commissioned first adds.** -/
structure Early (st : RunState) : Prop where
  root : (st.timer .rootDeadline).isSome = true → st.phase = .created
  failed : st.parkReason = some .rootFailed → st.phase = .created
  queued : ∀ b, st.phase = .queued b → ∀ reason, st.parkReason = some reason →
    reason = .poisonInput
  clear : (st.timer .treeWindow).isSome = true → ∀ reason, st.parkReason = some reason →
    reason = .poisonInput

theorem parkReason_eq (h : st'.condition = st.condition) : st'.parkReason = st.parkReason := by
  unfold RunState.parkReason
  rw [h]

theorem parkReason_none (h : st.condition = none) : st.parkReason = none := by
  unfold RunState.parkReason
  rw [h]
  rfl

/-- Nothing to account for. -/
theorem Front.bare (hwindow : st.timer .treeWindow = none) (hcancel : st.treeCancelOwed = false)
    (hcond : st.condition = none) : Front st := by
  refine ⟨?_, ?_, ?_⟩
  · rw [hwindow]
    exact fun h => by cases h
  · rw [hcancel]
    exact fun h => by cases h
  · rw [parkReason_none hcond]
    exact fun h => by cases h

/-- A phase that goes on, with nothing new to account for. -/
theorem Front.keep (h : Front st)
    (hphase : st.phase = .running .unprepared → st'.phase = .running .unprepared)
    (hwindow : (st'.timer .treeWindow).isSome = true → (st.timer .treeWindow).isSome = true)
    (hcancel : st'.treeCancelOwed = true → st.treeCancelOwed = true)
    (hcond : st'.parkReason = some .treeRefused → st.parkReason = some .treeRefused) : Front st' :=
  ⟨fun hw => hphase (h.window (hwindow hw)), fun hc => hphase (h.cancel (hcancel hc)),
    fun hr => hphase (h.refused (hcond hr))⟩

theorem Front.attends (h : Front st) (hphase : st'.phase = st.phase) (ha : Attends st input st') :
    Front st' := by
  have hkeep : st.phase = .running .unprepared → st'.phase = .running .unprepared := hphase.trans
  cases ha with
  | refusalKept _ hunprepared _ _ _ =>
    exact ⟨fun _ => hkeep hunprepared, fun _ => hkeep hunprepared, fun _ => hkeep hunprepared⟩
  | refused _ hunprepared _ _ _ _ =>
    exact ⟨fun _ => hkeep hunprepared, fun _ => hkeep hunprepared, fun _ => hkeep hunprepared⟩
  | resumed _ _ hcond hcancel hwindow _ =>
    refine ⟨fun hw => hkeep ?_, fun hc => hkeep (h.cancel (hcancel ▸ hc)), ?_⟩
    · rcases hwindow with hwindow | hreason
      · exact h.window (hwindow ▸ hw)
      · exact h.refused hreason
    · rw [parkReason_none hcond]
      exact fun h => by cases h
  | deferred _ _ hcond hcancel harmed =>
    exact h.keep hkeep (fun hw => harmed _ ▸ hw) (fun hc => hcancel ▸ hc)
      fun hr => parkReason_eq hcond ▸ hr
  | rootPeriod _ _ hcond hcancel hwindow =>
    refine h.keep hkeep (fun hw => hwindow ▸ hw) (fun hc => hcancel ▸ hc) fun hr => ?_
    rcases hcond with hcond | hfailed
    · exact parkReason_eq hcond ▸ hr
    · rw [hfailed] at hr
      cases hr
  | windowOver _ harmed _ _ _ =>
    have hunprepared := hkeep (h.window harmed)
    exact ⟨fun _ => hunprepared, fun _ => hunprepared, fun _ => hunprepared⟩

theorem Front.move (h : Front st) (hm : FrontMove st input st') : Front st' := by
  cases hm with
  | same hs =>
    exact h.keep hs.phase.trans (fun hw => hs.window ▸ hw) (fun hc => hs.cancel ▸ hc)
      fun hr => parkReason_eq hs.condition ▸ hr
  | commissioned _ hphase hcond hcancel hwindow =>
    exact h.keep hphase.trans (fun hw => hwindow ▸ hw) (fun hc => hcancel ▸ hc)
      fun hr => parkReason_eq hcond ▸ hr
  | opened _ hphase _ hcond hcancel hwindow _ =>
    refine h.keep (fun hp => ?_) (fun hw => hwindow ▸ hw) (fun hc => hcancel ▸ hc) fun hr => ?_
    · rw [hphase] at hp
      cases hp
    · rw [parkReason_none hcond] at hr
      cases hr
  | busy _ hphase _ hcond hcancel hwindow _ =>
    refine h.keep (fun hp => ?_) (fun hw => hwindow ▸ hw) (fun hc => hcancel ▸ hc)
      fun hr => parkReason_eq hcond ▸ hr
    rw [hphase] at hp
    cases hp
  | claimed _ _ hphase' _ _ _ => exact ⟨fun _ => hphase', fun _ => hphase', fun _ => hphase'⟩
  | prepared _ _ hcond hcancel hwindow _ => exact .bare hwindow hcancel hcond
  | attends hphase ha => exact h.attends hphase ha
  | finishes _ _ hcond hcancel hwindow _ => exact .bare hwindow hcancel hcond
  | isOver hover _ hcond hcancel hwindow _ =>
    refine h.keep (fun hphase => ?_) (fun hw => ?_) (fun hc => hcancel ▸ hc) fun hr => ?_
    · unfold RunState.isOver RunState.isFinishing RunState.isFinished at hover
      rw [hphase] at hover
      cases hover
    · rcases hwindow with hwindow | hwindow
      · rw [hwindow] at hw
        cases hw
      · exact hwindow ▸ hw
    · rcases hcond with hcond | hcond
      · rw [parkReason_none hcond] at hr
        cases hr
      · exact parkReason_eq hcond ▸ hr

/-- Nothing to account for. -/
theorem Early.bare (hroot : (st.timer .rootDeadline).isSome = true → st.phase = .created)
    (hcond : st.condition = none) : Early st := by
  refine ⟨hroot, ?_, ?_, ?_⟩ <;> rw [parkReason_none hcond]
  · exact fun h => by cases h
  · exact fun _ _ _ h => by cases h
  · exact fun _ _ h => by cases h

theorem Early.attends (h : Early st) (hfront : Front st) (hphase : st'.phase = st.phase)
    (ha : Attends st input st') : Early st' := by
  cases ha with
  | refusalKept _ _ hcond _ htimers =>
    have htimer : ∀ t, st'.timer t = st.timer t := by
      intro t
      unfold RunState.timer
      rw [htimers]
    refine ⟨?_, ?_, ?_, ?_⟩ <;> simp only [htimer, parkReason_eq hcond, hphase]
    · exact h.root
    · exact h.failed
    · exact h.queued
    · exact h.clear
  | refused _ hunprepared hcond _ hwindow hroot =>
    refine ⟨?_, ?_, fun b hq => ?_, ?_⟩
    · rw [hroot, hphase]
      exact h.root
    · rw [hcond]
      exact fun h => by cases h
    · rw [hphase, hunprepared] at hq
      cases hq
    · rw [hwindow]
      exact fun h => by cases h
  | resumed _ _ hcond _ _ hroot =>
    refine .bare (fun hr => ?_) hcond
    rw [hphase]
    rcases hroot with hroot | hreason
    · exact h.root (hroot ▸ hr)
    · exact h.failed hreason
  | deferred _ _ hcond _ harmed =>
    refine ⟨?_, ?_, ?_, ?_⟩ <;> simp only [harmed, parkReason_eq hcond, hphase]
    · exact h.root
    · exact h.failed
    · exact h.queued
    · exact h.clear
  | rootPeriod _ harmed _ _ hwindow =>
    have hcreated := h.root harmed
    refine ⟨fun _ => hphase.trans hcreated, fun _ => hphase.trans hcreated, fun b hq => ?_,
      fun hw => ?_⟩
    · rw [hphase, hcreated] at hq
      cases hq
    · have := hfront.window (hwindow ▸ hw)
      rw [hcreated] at this
      cases this
  | windowOver _ harmed hcond hwindow hroot =>
    refine ⟨?_, ?_, fun b hq => ?_, ?_⟩
    · rw [hroot, hphase]
      exact h.root
    · rw [hcond]
      exact fun h => by cases h
    · rw [hphase, hfront.window harmed] at hq
      cases hq
    · rw [hwindow]
      exact fun h => by cases h

theorem Early.move (h : Early st) (hfront : Front st) (hm : FrontMove st input st')
    (hfirst : ∀ w f p t q, input.body = .commissioned w f p t q → st.phase = .created) :
    Early st' := by
  cases hm with
  | same hs =>
    refine ⟨?_, ?_, ?_, ?_⟩ <;>
      simp only [hs.window, hs.root, parkReason_eq hs.condition, hs.phase]
    · exact h.root
    · exact h.failed
    · exact h.queued
    · exact h.clear
  | commissioned hb hphase hcond _ hwindow =>
    have hcreated := hfirst _ _ _ _ _ hb
    refine ⟨fun _ => hphase.trans hcreated, fun _ => hphase.trans hcreated, fun b hq => ?_, ?_⟩
    · rw [hphase, hcreated] at hq
      cases hq
    · rw [hwindow, parkReason_eq hcond]
      exact h.clear
  | opened _ _ _ hcond _ _ hroot =>
    refine .bare ?_ hcond
    rw [hroot]
    exact fun h => by cases h
  | busy _ hphase _ hcond _ hwindow hroot =>
    have hnot : ¬ st.phase = .created := by
      rw [hphase]
      exact fun h => by cases h
    refine ⟨?_, ?_, ?_, ?_⟩ <;> simp only [hwindow, hroot, parkReason_eq hcond]
    · exact fun hr => absurd (h.root hr) hnot
    · exact fun hf => absurd (h.failed hf) hnot
    · exact fun _ _ => h.queued _ hphase
    · exact h.clear
  | claimed _ hphase hphase' hcond _ hroot =>
    have hnot : ¬ st.phase = .created := by
      rw [hphase]
      exact fun h => by cases h
    refine ⟨?_, ?_, fun b hq => ?_, ?_⟩
    · rw [hroot]
      exact fun hr => absurd (h.root hr) hnot
    · rw [parkReason_eq hcond]
      exact fun hf => absurd (h.failed hf) hnot
    · rw [hphase'] at hq
      cases hq
    · rw [parkReason_eq hcond]
      exact fun _ => h.queued _ hphase
  | prepared hphase _ hcond _ _ hroot =>
    refine .bare (fun hr => ?_) hcond
    have := h.root (hroot ▸ hr)
    rw [hphase] at this
    cases this
  | attends hphase ha => exact h.attends hfront hphase ha
  | finishes _ _ hcond _ _ hroot =>
    refine .bare ?_ hcond
    rw [hroot]
    exact fun h => by cases h
  | isOver hover hover' hcond _ hwindow hroot =>
    have hnot : ∀ p, st.phase = p → p ≠ .created ∧ p ≠ .running .unprepared := by
      rintro p rfl
      unfold RunState.isOver RunState.isFinishing RunState.isFinished at hover
      constructor <;> intro hp <;> rw [hp] at hover <;> cases hover
    refine ⟨fun hr => ?_, fun hf => ?_, fun b hq => ?_, fun hw => ?_⟩
    · rcases hroot with hroot | hroot
      · rw [hroot] at hr
        cases hr
      · exact absurd (h.root (hroot ▸ hr)) (hnot _ rfl).1
    · rcases hcond with hcond | hcond
      · rw [parkReason_none hcond] at hf
        cases hf
      · exact absurd (h.failed (parkReason_eq hcond ▸ hf)) (hnot _ rfl).1
    · unfold RunState.isOver RunState.isFinishing RunState.isFinished at hover'
      rw [hq] at hover'
      cases hover'
    · rcases hwindow with hwindow | hwindow
      · rw [hwindow] at hw
        cases hw
      · exact absurd (hfront.window (hwindow ▸ hw)) (hnot _ rfl).2

end

/-- **In every state of a run** the tree's window, cancel and refusal are of an unprepared tree. -/
theorem Reaches.front {run : RunId} {flow : FlowDef} {log : List Entry} {st : RunState}
    (hwf : flow.WF) (h : Reaches run flow log st) : Front st := by
  refine Reaches.induct hwf (P := fun _ st => Front st) (.bare rfl rfl rfl) ?_ ?_ ?_ h
  · exact fun _ _ _ _ _ hP _ => hP
  · intro _ st now _ _ hP
    rw [Item.apply_poison]
    exact hP.keep id id id (fun h => by cases h)
  · exact fun _ st input st' _ hinv _ hP hacc _ ht => hP.move (ht.front hinv hacc)

/-- The commission is folded before the run leaves `Created`, as the host enqueues it. -/
def CommissionedFirst (log : List Entry) : Prop :=
  Always (fun _ e => ∀ input w f p t q, e.Accepts input → input.body = .commissioned w f p t q →
    e.before.phase = .created) log

theorem Reaches.early {run : RunId} {flow : FlowDef} {log : List Entry} {st : RunState}
    (hwf : flow.WF) (h : Reaches run flow log st) (hfirst : CommissionedFirst log) : Early st := by
  revert hfirst
  refine Reaches.induct hwf (P := fun log st => CommissionedFirst log → Early st)
    (fun _ => .bare (fun h => by cases h) rfl) ?_ ?_ ?_ h
  · exact fun _ _ _ _ _ hP _ hfirst => hP (always_snoc.mp hfirst).1
  · intro _ st now _ _ hP hfirst
    have := hP (always_snoc.mp hfirst).1
    rw [Item.apply_poison]
    exact ⟨this.root, (fun h => by cases h), fun _ _ _ heq => (Option.some.inj heq).symm,
      fun _ _ heq => (Option.some.inj heq).symm⟩
  · intro _ st input st' hr hinv _ hP hacc _ ht hfirst
    obtain ⟨hlog, hlast⟩ := always_snoc.mp hfirst
    exact (hP hlog).move (hr.front hwf) (ht.front hinv hacc)
      fun w f p t q hb => hlast input w f p t q ⟨rfl, hacc⟩ hb

end NexusFlow.Run
