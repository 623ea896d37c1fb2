import NexusFlow.Run.Journey

/-!
# Every reachable state of a run

`Inv` puts the coherence of records and timers (`Coh`), the run's place in its flow (`Route`) and
what `arm_ready` leaves behind (`Waiting`) together. `Transition.route` and `Transition.waiting`
carry it over one accepted input, and **`Reaches.inv`** over every run of a compiled flow: any
sequence of inputs and of the host's own `poison_input` parks.
-/

namespace NexusFlow.Run

open NexusFlow.Lib

/-! ## Changes no place hangs on -/

/-- What the run's place hangs on is untouched. -/
theorem Route.aside {st st' : RunState} (hroute : Route st) (hrun : st'.run = st.run)
    (hflow : st'.flow = st.flow) (hslots : st'.slots = st.slots) (hvisits : st'.visits = st.visits)
    (hpasses : st'.passes = st.passes) (hcurrent : st'.currentStep = st.currentStep)
    (hfinished : st'.finishedSteps = st.finishedSteps) (hquestions : st'.questions = st.questions)
    (hover : st'.isOver = st.isOver) (hunopened : st'.phase = .created → st'.rootMessage = none)
    (hidle : (st'.phase = .created ∨ ∃ b, st'.phase = .queued b) →
      st.phase = .created ∨ ∃ b, st.phase = .queued b)
    (hrunning : ∀ tree, st'.phase = .running tree → ∃ tree, st.phase = .running tree) :
    Route st' := by
  have hids : st'.ids = st.ids := by
    unfold RunState.ids
    rw [hslots]
  have hlatest : ∀ step v m, st'.latest step v m = st.latest step v m := by
    intro step v m
    unfold RunState.latest
    rw [hslots]
  have hplain : SynthPlain st' := by
    unfold SynthPlain
    rw [hslots]
    exact hroute.synthPlain
  refine ⟨hroute.toLedger.congr hflow hplain hfinished (fun k => by rw [hvisits]) hquestions hrun,
    hunopened, ?_, ?_, ?_, ?_, ?_⟩
  · intro hphase
    rw [hslots, hquestions, hfinished, hcurrent, hvisits]
    exact hroute.idle (hidle hphase)
  · intro tree hphase
    obtain ⟨tree, hphase⟩ := hrunning tree hphase
    obtain ⟨d, v, hhere⟩ := hroute.here tree hphase
    refine ⟨d, v, hhere.congr (hhere.at'.of_ids hflow hcurrent hvisits hids) ?_
      (exists_seat_iff hids _) (by rw [hlatest]) hfinished (atCeiling_congr hquestions)⟩
    unfold Emit.memberVerdicts
    simp only [hlatest]
  · rw [hover, hslots, hids]
    exact hroute.ends
  · rw [hover, hslots, hids, hquestions]
    exact hroute.asks
  · rw [hover]
    exact fun ho => (hroute.openCeilings ho).congr hquestions hrun (fun k => by rw [hvisits]) hpasses

theorem RunState.isOver_of_finishing {st : RunState} (h : st.isFinishing = true) :
    st.isOver = true := by
  unfold RunState.isOver
  rw [h]
  rfl

theorem RunMove.route {st st' : RunState} {input : Event} (h : RunMove st input st')
    (hroute : Route st) : Route st' := by
  cases h with
  | commissioned _ _ =>
    exact hroute.aside rfl rfl rfl rfl rfl rfl rfl rfl rfl hroute.unopened id fun t ht => ⟨t, ht⟩
  | rootOpened _ hphase _ =>
    refine hroute.aside rfl rfl rfl rfl rfl rfl rfl rfl ?_ (fun h => by cases h)
      (fun _ => Or.inl hphase) (fun _ h => by cases h)
    unfold RunState.isOver RunState.isFinishing RunState.isFinished
    rw [hphase]
    rfl
  | rootOpenedLate _ hfin _ =>
    refine Ledger.route_over (hroute.toLedger.congr rfl hroute.synthPlain rfl (fun _ => le_refl _)
      rfl rfl) ?_
    exact RunState.isOver_of_finishing hfin
  | claimBusy _ hphase =>
    refine hroute.aside rfl rfl rfl rfl rfl rfl rfl rfl ?_ (fun h => by cases h)
      (fun _ => Or.inr ⟨_, hphase⟩) (fun _ h => by cases h)
    unfold RunState.isOver RunState.isFinishing RunState.isFinished
    rw [hphase]
  | released _ _ _ =>
    exact Ledger.route_over (hroute.toLedger.congr rfl hroute.synthPlain rfl (fun _ => le_refl _)
      rfl rfl) rfl
  | treeParked _ _ =>
    exact Ledger.route_over (hroute.toLedger.congr rfl hroute.synthPlain rfl (fun _ => le_refl _)
      rfl rfl) rfl
  | delivered _ _ _ =>
    exact hroute.aside rfl rfl rfl rfl rfl rfl rfl rfl rfl hroute.unopened id fun t ht => ⟨t, ht⟩
  | attended _ hsteady _ _ _ =>
    have hphase := steady_keeps hsteady RunState.phase fun _ => rfl
    have hkeep : ∀ {α : Type} (g : RunState → α), (∀ x : RunState, g x.steady = g x) →
        g st' = g st := fun g hg => steady_keeps hsteady g hg
    refine hroute.aside (hkeep RunState.run fun _ => rfl) (hkeep RunState.flow fun _ => rfl)
      (hkeep RunState.slots fun _ => rfl) (hkeep RunState.visits fun _ => rfl)
      (hkeep RunState.passes fun _ => rfl) (hkeep RunState.currentStep fun _ => rfl)
      (hkeep RunState.finishedSteps fun _ => rfl) (hkeep RunState.questions fun _ => rfl)
      (hkeep RunState.isOver fun _ => rfl) ?_ ?_ ?_
    · rw [hphase, hkeep RunState.rootMessage fun _ => rfl]
      exact hroute.unopened
    · rw [hphase]
      exact id
    · rw [hphase]
      exact fun t ht => ⟨t, ht⟩

/-! ## Answers -/

theorem Ledger.answered {st : RunState} (h : Ledger st) (q : Key) (cause : Option StartCause) :
    Ledger (st.answered q cause) where
  wf := h.wf
  synthPlain := h.synthPlain
  finishedOnce := h.finishedOnce
  finishedBound := h.finishedBound
  questionIds := by
    show ((st.questions.map _).map _).Nodup
    rw [List.map_map, List.map_congr_left (g := Question.id)]
    · exact h.questionIds
    · intro x _
      simp only [Function.comp]
      split <;> rfl
  ceilings x hx step pass m hasked := by
    obtain ⟨y, hy, hid, hya, -⟩ := RunState.mem_answered hx
    rw [hid]
    exact h.ceilings y hy step pass m (hya ▸ hasked)

/-- An unanswered question stays. -/
theorem mem_answered_of_ne {st : RunState} {q : Key} {cause : Option StartCause} {x : Question}
    (hx : x ∈ st.questions) (hne : x.id ≠ q) : x ∈ (st.answered q cause).questions :=
  List.mem_map.mpr ⟨x, hx, if_neg hne⟩

/-- An escalation answered: every other place waits as it did. -/
theorem Route.answersEscalation {st : RunState} (hroute : Route st) {q : Question}
    (hq : q ∈ st.questions) {s : Slot} {m : MessageId} (hasked : q.asked = .escalation s m)
    (cause : Option StartCause) : Route (st.answered q.id cause) (some s) := by
  have hceiling : ∀ step, (st.answered q.id cause).atCeiling step ↔ st.atCeiling step := by
    intro step
    constructor
    · rintro ⟨x, hx, hopen, pass, m', hxa⟩
      obtain ⟨y, hy, -, hya, hyo⟩ := RunState.mem_answered hx
      exact ⟨y, hy, (hyo hopen).1, pass, m', hya ▸ hxa⟩
    · rintro ⟨x, hx, hopen, pass, m', hxa⟩
      refine ⟨x, mem_answered_of_ne hx fun hid => ?_, hopen, pass, m', hxa⟩
      rw [List.inj_on_of_nodup_map hroute.questionIds hx hq hid, hasked] at hxa
      cases hxa
  refine ⟨hroute.toLedger.answered _ _, hroute.unopened, ?_, ?_, ?_, ?_, ?_⟩
  · intro hphase
    have := (hroute.idle hphase).2.1
    rw [this] at hq
    cases hq
  · intro tree hphase
    obtain ⟨d, v, hhere⟩ := hroute.here tree hphase
    exact ⟨d, v, hhere.congr (hhere.at'.of_ids rfl rfl rfl rfl) rfl Iff.rfl Iff.rfl rfl hceiling⟩
  · exact fun hover r hr _ hlast => hroute.ends hover r hr (fun h => by cases h) hlast
  · intro hover r hr hne hlast hesc
    obtain ⟨x, hx, hopen, m', hxa⟩ := hroute.asks hover r hr (fun h => by cases h) hlast hesc
    refine ⟨x, mem_answered_of_ne hx fun hid => ?_, hopen, m', hxa⟩
    rw [List.inj_on_of_nodup_map hroute.questionIds hx hq hid, hasked] at hxa
    cases hxa
    exact hne rfl
  · intro hover x hx hopen step pass m' hxa
    obtain ⟨y, hy, hid, hya, hyo⟩ := RunState.mem_answered hx
    rw [hid]
    exact hroute.openCeilings hover y hy (hyo hopen).1 step pass m' (hya ▸ hxa)

/-- **The run waits at one ceiling**: answered, none is open. -/
theorem Route.noCeiling_answered {st : RunState} (hroute : Route st) (h : Coh st)
    (hover : st.isOver = false) {q : Question} (hq : q ∈ st.questions)
    (hopen : q.answered = false) {step : StepId} {pass : Nat} {m : MessageId}
    (hasked : q.asked = .ceiling step pass m) (cause : Option StartCause) :
    st.AllDone ∧ ∀ step, ¬ (st.answered q.id cause).atCeiling step := by
  have hat : st.atCeiling step := ⟨q, hq, hopen, pass, m, hasked⟩
  refine ⟨hroute.allDone_at_ceiling h hover hat, ?_⟩
  rintro step' ⟨x, hx, hxopen, pass', m', hxa⟩
  obtain ⟨y, hy, hid, hya, hyo⟩ := RunState.mem_answered hx
  obtain ⟨hyopen, hne⟩ := hyo hxopen
  rw [hya] at hxa
  obtain ⟨hpass, v, hv, hkey⟩ := hroute.openCeilings hover q hq hopen step pass m hasked
  obtain ⟨hpass', v', hv', hkey'⟩ := hroute.openCeilings hover y hy hyopen step' pass' m' hxa
  -- Both are of the step the run is at, so they are one question.
  obtain ⟨d, w, hhere⟩ := hroute.here_of_question hover hq
  have h1 := (hhere.open' step hat).1
  have h2 := (hhere.open' step' ⟨y, hy, hyopen, pass', m', hxa⟩).1
  subst h1 h2
  rw [hv, Option.some.injEq] at hv'
  rw [hkey, hkey', hpass, hpass', hv'] at hne
  exact hne rfl

/-! ## Every transition -/

theorem Route.attended {st : RunState} (hroute : Route st) (base : Base)
    (found : Option ParkOutcome) (hphase : st.phase = .running .unprepared) :
    Route (st.prepared base found) := by
  refine hroute.aside rfl rfl rfl rfl rfl rfl rfl rfl ?_ (fun h => by cases h) ?_ fun _ _ =>
    ⟨_, hphase⟩
  · rw [isOver_running hphase]
    exact isOver_running (t := .prepared) rfl
  · rintro (hp | ⟨b, hp⟩) <;> cases hp

/-- Two changes of one record, one after the other. -/
theorem Replaces.trans {st mid st' : RunState} {r r' r'' : SlotRecord} (h : Replaces st mid r r')
    (h' : Replaces mid st' r' r'') : Replaces st st' r r'' where
  mem := h.mem
  slot := h'.slot.trans h.slot
  bare := h'.bare.trans h.bare
  slots_eq := by
    rw [h'.slots_eq]
    unfold RunState.upd
    rw [h.slots_eq]
    unfold RunState.upd
    rw [List.map_map]
    refine List.map_congr_left fun x _ => ?_
    simp only [Function.comp]
    by_cases hx : x.slot = r.slot
    · rw [if_pos hx, if_pos rfl, if_pos hx]
    · rw [if_neg hx, if_neg (by rw [h.slot]; exact hx), if_neg hx]
  other t ht := (h'.other t (by rw [h.slot]; exact ht)).trans (h.other t ht)
  known hk := by
    have := h'.known (by rw [h.ids_eq]; exact h.known hk)
    rwa [h.ids_eq] at this

theorem SlotState.isReplied_of_escalated {s : SlotState} (h : s.isEscalated = true) :
    s.isReplied = true := by
  cases s <;> first | rfl | cases h

theorem SlotState.isRetired_of_replied {s : SlotState} (h : s.isReplied = true) :
    s.isRetired = true := by
  cases s <;> first | rfl | cases h

theorem SlotRecord.holdRetry_notMem {r : SlotRecord} (h : r.state.isReplied = true) :
    TimerPurpose.holdRetry ∉ r.mayArm := by
  unfold SlotRecord.mayArm
  cases hs : r.state with
  | replied m esc rew process overdue l =>
    cases process <;> cases l <;> simp
  | _ => rw [hs] at h; cases h

theorem Ledger.withdraw {st : RunState} (h : Ledger st) : Ledger st.withdraw := by
  refine h.congr rfl ?_ rfl (fun _ => le_refl _) rfl rfl
  intro r hr hm
  obtain ⟨x, hx, rfl⟩ := List.mem_map.mp hr
  exact (SlotState.mapLadder_isEscalated _ _).trans (h.synthPlain x hx hm)

/-- The seat of an attempt that has just ended goes on with its next one. -/
theorem JustEnded.route {mid st' : RunState} {r : SlotRecord} {cause : EndCause} {now : Timestamp}
    (hj : JustEnded mid r cause) (h : Coh mid) (hroute : Route mid (some r.slot))
    (hre : Restarts now mid r.slot st') : Route st' :=
  hroute.restarts h hj.mem hj.last (by rw [hj.state]; rfl) (by rw [hj.state]; rfl)
    ((hj.timers h).1 _) (hj.not_asked h) hj.isOver hre

/-- **Every accepted input leaves the run at a place of its flow.** -/
theorem Transition.route {st st' : RunState} {input : Event} (ht : Transition st input st')
    (h : Coh st) (h' : Coh st') (hroute : Route st) (hacc : ignoredReason st input = none) :
    Route st' := by
  cases ht with
  | run hm => exact hm.route hroute
  | @claimed b d mid a hb hphase hfirst hbegins ha =>
    have hover : st.isOver = false := by
      unfold RunState.isOver RunState.isFinishing RunState.isFinished
      rw [hphase]
      rfl
    obtain ⟨hslots, hquestions, -⟩ := hroute.idle (Or.inr ⟨b, hphase⟩)
    have hcoh : Coh { st with claimSince := some input.now } := h.aside rfl rfl rfl rfl rfl rfl rfl
    have hmid : Route mid := by
      refine Route.begins hcoh (hroute.toLedger.congr rfl hroute.synthPlain rfl
        (fun _ => le_refl _) rfl rfl) (List.mem_of_head? hfirst) ?_ hover ?_ hbegins
      · intro r hr
        rw [show ({ st with claimSince := some input.now } : RunState).slots = st.slots from rfl,
          hslots] at hr
        cases hr
      · rintro step ⟨q, hq, -⟩
        rw [show ({ st with claimSince := some input.now } : RunState).questions = st.questions
          from rfl, hquestions] at hq
        cases hq
    exact hmid.aside rfl rfl rfl rfl rfl rfl rfl rfl rfl hmid.unopened id fun t ht => ⟨t, ht⟩
  | prepared hb hphase harms hwait =>
    refine (hroute.attended _ _ hphase).arms ?_ harms
    refine h.other rfl rfl rfl rfl rfl ?_ (h.known.erase _) fun u hu => get_erase_other rfl hu
    rw [isOver_running hphase]
    exact isOver_running (t := .prepared) rfl
  | slot hmove hland hsettles =>
    refine hroute.replaces h h' hland.replaces (hmove.same hsettles.reply) fun hover hlast => ?_
    exact hmove.goesOn ((h.slots _ hland.replaces.mem).condition hlast) hsettles hlast
      (hroute.ends hover _ hland.replaces.mem (fun h => by cases h) hlast)
  | @ended r g cause mid st' hb hmove hland hlive hj hafter =>
    have hrep := hland.replaces
    have hsame : SameVerdict r (r.ended input.now cause) :=
      hmove.same fun key m esc rew hb' => by rw [hb] at hb'; cases hb'
    -- A reply's session, a superseded one and one of a run that is over lead to nothing.
    have hstay : r.state.isRetired = true ∨ st.isOver = true → Route mid := by
      intro hor
      refine hroute.replaces h hland.coh hrep hsame fun hover hlast => ?_
      rcases hor with hret | ho
      · have hgo := hroute.ends hover r hrep.mem (fun h => by cases h) hlast
        refine .of_replied (hsame.replied.trans ?_)
        unfold SlotRecord.GoesOn at hgo
        cases hs : r.state with
        | replied m esc rew process overdue l => rfl
        | stopping l after =>
          rw [hs] at hret hgo
          cases after with
          | nothing => exact hgo.elim
          | restart reason => cases hret
        | ended c => rw [hs] at hlive; cases hlive
        | _ => rw [hs] at hret; cases hret
      · rw [ho] at hover
        cases hover
    split at hafter
    · rename_i hfin
      rw [hafter]
      exact hstay (Or.inr (RunState.isOver_of_finishing hfin))
    · have hbut : Route mid (some r.slot) := hroute.replacesBut h hrep hsame (Or.inl rfl)
      cases hafter with
      | isOver hwas harms hwait => exact (hstay (Or.inl hwas)).arms hland.coh harms
      | restart hwas hordered hbudget hre => exact (hj hwas).route hland.coh hbut hre
      | park hwas hreason hpark =>
        exact hroute.replaces h h' (hrep.trans hpark.replaces)
          ⟨hsame.verdict, hsame.replied, hsame.escalated⟩ fun _ _ =>
            .of_condition (hj hwas).state rfl
      | hold hwas hcause hlimit hresets hheld =>
        exact hroute.replaces h h' (hrep.trans hheld.replaces)
          ⟨hsame.verdict, hsame.replied, hsame.escalated⟩ fun _ _ =>
            .of_condition (hj hwas).state rfl
  | @replied r r' g m esc rew mid asked st' hb hr' hw hmove hland hasked hcoh hafter =>
    have hover := isOver_eq_false (accepted_reply hacc hb).choose_spec.2.2
      (accepted_not_finished hacc)
    have hreplied : r'.state.isReplied = true := by rw [hr']; rfl
    obtain ⟨d, hheard, hstep⟩ := hroute.heard h hover hw hland.replaces hreplied
      (fun hm => by
        rw [hr'] at hm ⊢
        exact SlotRecord.applyReply_synth hm _ _ _ _) hasked
    exact hheard.after hcoh hstep hafter
  | @resumed r c g slot cause mid st' hb hc hw hmove hland hj hre =>
    have hsame : SameVerdict r r.applyResume :=
      hmove.same fun key m esc rew hb' => by rw [hb] at hb'; cases hb'
    have hbut := hroute.replacesBut h hland.replaces hsame (Or.inl rfl)
    rw [← r.applyResume_slot] at hre hbut
    exact hj.route hland.coh hbut hre
  | @retried r g fireAt cause mid st' hb hs hc hlast hover hmove hland hretry hre =>
    have hbut := hroute.replacesBut h hland.replaces (.of_state rfl) (Or.inl rfl)
    refine hbut.restarts hland.coh hland.replaces.mem_new ?_ (by rw [hs]; rfl) (by rw [hs]; rfl)
      hretry ?_ ?_ hre
    · rw [hland.replaces.ids_eq]
      exact hlast
    · intro q hq m hasked
      obtain ⟨-, ⟨x, hx, hslot, hesc⟩, -⟩ := hland.coh.asked q hq r.slot m hasked
      rw [RunState.record_unique hland.coh.ordered hx hland.replaces.mem_new hslot, hs] at hesc
      cases hesc
    · rw [hland.replaces.isOver_eq]
      exact hover
  | @answered q disp m m' r st' hb hq hopen hasked hr hlast hesc hfin hcoh hre =>
    have hover := isOver_eq_false hfin (accepted_not_finished hacc)
    have hdone : r.state.isDone = false := by
      cases hs : r.state with
      | replied m esc rew process overdue l =>
        rw [hs] at hesc
        cases esc
        · cases hesc
        · rfl
      | _ => rfl
    have hreplied : r.state.isReplied = true := SlotState.isReplied_of_escalated hesc
    refine (hroute.answersEscalation hq hasked _).restarts hcoh hr hlast hdone
      (SlotState.isRetired_of_replied hreplied) ?_ ?_ hover hre
    · cases ht : (st.answered q.id (some (.answer m))).timer (.slot .holdRetry r.slot) with
      | none => rfl
      | some a =>
        have := (h.slots r hr).may .holdRetry (by
          rw [show st.timer (.slot .holdRetry r.slot) = some a from ht]; rfl)
        exact absurd this (SlotRecord.holdRetry_notMem hreplied)
    · intro x hx m'' hxa
      obtain ⟨y, hy, hid, hya, hyo⟩ := RunState.mem_answered hx
      by_contra hno
      obtain ⟨-, hne⟩ := hyo (by simpa using hno)
      refine hne ?_
      rw [(h.asked y hy r.slot m'' (hya ▸ hxa)).1, (h.asked q hq r.slot m' hasked).1]
  | continued hb hq hopen hasked hd hedge hfin hcoh hre =>
    have hover := isOver_eq_false hfin (accepted_not_finished hacc)
    obtain ⟨hdone, hnone⟩ := hroute.noCeiling_answered h hover hq hopen hasked none
    exact (hroute.toLedger.answered _ _).reworks hcoh hdone hover hnone hre
  | acceptedNext hb hq hopen hasked hd hnext hd' hfin hcoh hbegins =>
    have hover := isOver_eq_false hfin (accepted_not_finished hacc)
    obtain ⟨hdone, hnone⟩ := hroute.noCeiling_answered h hover hq hopen hasked _
    exact Route.begins hcoh (hroute.toLedger.answered _ _) (FlowDef.step_mem hd').1 hdone hover
      hnone hbegins
  | acceptedLast hb hq hopen hasked hd hnext hfin hcoh =>
    exact (hroute.toLedger.answered _ _).finishing _ _ _
  | withdrawn hb hfin hcoh => exact hroute.toLedger.withdraw.finishing _ _ _
  | forced hb hfin hcoh =>
    exact hroute.toLedger.withdraw.route_over (RunState.isOver_of_finishing hfin)

/-! ## What `arm_ready` leaves behind -/

/-- A live session stays live, so what waits for it still does. -/
theorem Waiting.replaces {st st' : RunState} {r r' : SlotRecord} (hw : Waiting st)
    (hord : Ordered st.ids) (hrep : Replaces st st' r r')
    (hlive : r.state.isLive = true → r'.state.isLive = true)
    (hpending : r'.state = .pending → r.state = .pending) : Waiting st' := by
  have hpersona : ∀ m, st.personaIsLive m = true → st'.personaIsLive m = true := by
    intro m hm
    obtain ⟨y, hy, hym, hyl⟩ := RunState.personaIsLive_iff.mp hm
    by_cases hyr : y.slot = r.slot
    · rw [RunState.record_unique hord hy hrep.mem hyr] at hym hyl
      exact RunState.personaIsLive_iff.mpr ⟨r', hrep.mem_new, by rw [hrep.slot]; exact hym, hlive hyl⟩
    · exact RunState.personaIsLive_iff.mpr ⟨y, hrep.mem_iff.mpr (Or.inr ⟨hy, hyr⟩), hym, hyl⟩
  intro hprep x hx hp
  have hprep' : st.treePrepared = true := by
    unfold RunState.treePrepared at hprep ⊢
    rwa [hrep.phase_eq] at hprep
  rcases hrep.mem_iff.mp hx with rfl | ⟨hx, -⟩
  · rw [hrep.slot]
    exact hpersona _ (hw hprep' r hrep.mem (hpending hp))
  · exact hpersona _ (hw hprep' x hx hp)

/-- The seats of one visit wait for each other only through another seat: when a session of it
ends, no slot waits for its persona. -/
theorem Waiting.ended {st st' : RunState} {r r' : SlotRecord} (hw : Waiting st) (h : Coh st)
    (hrep : Replaces st st' r r') (hretired : r.state.isRetired = false)
    (hpending : r'.state ≠ .pending) : Waiting st' := by
  obtain ⟨hlast, -⟩ := (h.slots r hrep.mem).not_retired hretired
  have hundone : r.state.isDone = false := by
    cases hs : r.state with
    | replied m esc rew process overdue l => rw [hs] at hretired; cases hretired
    | _ => rfl
  intro hprep x hx hp
  have hprep' : st.treePrepared = true := by
    unfold RunState.treePrepared at hprep ⊢
    rwa [hrep.phase_eq] at hprep
  rcases hrep.mem_iff.mp hx with rfl | ⟨hx, hne⟩
  · exact absurd hp hpending
  obtain ⟨y, hy, hym, hyl⟩ := RunState.personaIsLive_iff.mp (hw hprep' x hx hp)
  by_cases hyr : y.slot = r.slot
  · -- Then both are the last attempt of one seat.
    exfalso
    have hxl : ¬ Later st.ids x.slot := fun hl => by
      have := (h.slots x hx).retired hl
      rw [hp] at this
      cases this
    obtain ⟨hstep, hvisit⟩ := h.active r hrep.mem hlast hundone
    obtain ⟨hstep', hvisit'⟩ := h.active x hx hxl (by rw [hp]; rfl)
    rw [hstep, Option.some.injEq] at hstep'
    rw [← hstep', hvisit, Option.some.injEq] at hvisit'
    have hseat : r.slot.seat = x.slot.seat := by
      simp only [Slot.seat, hstep', hvisit', ← hym, hyr]
    rcases lt_trichotomy r.slot.attempt x.slot.attempt with hlt | heq | hgt
    · exact hlast ⟨x.slot, RunState.mem_ids.mpr ⟨x, hx, rfl⟩, hseat.symm, hlt⟩
    · exact hne (Slot.ext' hseat heq).symm
    · exact hxl ⟨r.slot, hrep.slot_mem_ids, hseat, hgt⟩
  · exact RunState.personaIsLive_iff.mpr ⟨y, hrep.mem_iff.mpr (Or.inr ⟨hy, hyr⟩), hym, hyl⟩

theorem Waiting.aside {st st' : RunState} (hw : Waiting st) (hslots : st'.slots = st.slots)
    (hprep : st'.treePrepared = true → st.treePrepared = true) : Waiting st' := by
  unfold Waiting RunState.personaIsLive at hw ⊢
  rw [hslots]
  exact fun hp => hw (hprep hp)

theorem Waiting.of_over {st : RunState} (h : st.isOver = true) : Waiting st := by
  intro hprep
  unfold RunState.treePrepared at hprep
  rw [isOver_running (of_decide_eq_true hprep)] at h
  cases h

/-- **Every accepted input leaves a waiting slot a live persona to wait for.** -/
theorem Transition.waiting {st st' : RunState} {input : Event} (ht : Transition st input st')
    (h : Coh st) (hw : Waiting st) : Waiting st' := by
  cases ht with
  | run hm =>
    cases hm with
    | commissioned _ _ => exact hw.aside rfl id
    | rootOpened _ _ _ => exact hw.aside rfl (fun h => by cases h)
    | rootOpenedLate _ _ _ => exact hw.aside rfl id
    | claimBusy _ _ => exact hw.aside rfl (fun h => by cases h)
    | released _ _ _ => exact hw.aside rfl (fun h => by cases h)
    | treeParked _ _ => exact hw.aside rfl (fun h => by cases h)
    | delivered _ _ _ => exact hw.aside rfl id
    | attended _ hsteady _ _ _ =>
      refine hw.aside (steady_keeps hsteady RunState.slots fun _ => rfl) ?_
      rw [steady_keeps hsteady RunState.treePrepared fun _ => rfl]
      exact id
  | claimed hb hphase hfirst hbegins ha => exact hbegins.waiting.aside rfl id
  | prepared hb hphase harms hwait => exact hwait
  | slot hmove hland hsettles =>
    obtain ⟨hlive, hpending⟩ := hmove.live hsettles.ended
    exact hw.replaces h.ordered hland.replaces hlive hpending
  | @ended r g cause mid st' hb hmove hland hlive hj hafter =>
    have hover : st.isFinishing = true → Waiting mid := fun hfin => by
      refine .of_over ?_
      rw [hland.replaces.isOver_eq]
      exact RunState.isOver_of_finishing hfin
    split at hafter
    · rename_i hfin
      rw [hafter]
      exact hover hfin
    · cases hafter with
      | isOver hwas harms hwait => exact hwait
      | restart hwas hordered hbudget hre => exact hre.waiting
      | park hwas hreason hpark =>
        refine hw.ended h (hland.replaces.trans hpark.replaces) hwas fun hp => ?_
        rw [show _ = (r.ended input.now cause).state from rfl, (hj hwas).state] at hp
        cases hp
      | hold hwas hcause hlimit hresets hheld =>
        refine hw.ended h (hland.replaces.trans hheld.replaces) hwas fun hp => ?_
        rw [show _ = (r.ended input.now cause).state from rfl, (hj hwas).state] at hp
        cases hp
  | @replied r r' g m esc rew mid asked st' hb hr' hwork hmove hland hasked hcoh hafter =>
    have hmid : Waiting mid := by
      obtain ⟨hlive, hpending⟩ := hmove.live fun _ _ hb' => by rw [hb] at hb'; cases hb'
      exact hw.replaces h.ordered hland.replaces hlive hpending
    have hstay : Waiting asked := by
      rw [hasked]
      split
      · exact hmid.aside rfl id
      · exact hmid
    cases hafter with
    | elsewhere _ => exact hstay
    | waits _ _ _ => exact hstay
    | consolidates _ _ _ _ _ hs => exact hs.waiting
    | waitsSynthesis _ _ _ _ _ _ => exact hstay
    | @done _ replies _ _ _ _ _ hf =>
      generalize replies.any id = needsRework at hf
      cases hf with
      | rework _ _ hre => exact hre.choose_spec.2.waiting
      | ceiling _ _ _ => exact hstay.aside rfl id
      | next _ _ _ hb => exact hb.waiting
      | last _ _ => exact .of_over rfl
  | resumed _ _ _ _ _ _ hre => exact hre.waiting
  | retried _ _ _ _ _ _ _ _ hre => exact hre.waiting
  | answered _ _ _ _ _ _ _ _ _ hre => exact hre.waiting
  | continued _ _ _ _ _ _ _ _ hre => exact hre.choose_spec.2.waiting
  | acceptedNext _ _ _ _ _ _ _ _ _ hb => exact hb.waiting
  | acceptedLast _ _ _ _ _ _ _ _ => exact .of_over rfl
  | withdrawn _ _ _ => exact .of_over rfl
  | forced _ hfin _ => exact .of_over (RunState.isOver_of_finishing hfin)

/-! ## The invariant of a run -/

/-- **What holds in every state between two inputs.** -/
structure Inv (st : RunState) : Prop where
  coh : Coh st
  route : Route st
  waiting : Waiting st

theorem Inv.initial (run : RunId) {flow : FlowDef} (hwf : flow.WF) :
    Inv (.initial run flow) where
  coh := by
    refine ⟨List.Pairwise.nil, ?_, ?_, ?_, ?_, ?_⟩
    · exact fun s hs => absurd hs List.not_mem_nil
    · intro k a hk
      cases hk
    · exact fun r hr => absurd hr List.not_mem_nil
    · exact fun r hr => absurd hr List.not_mem_nil
    · exact fun q hq => absurd hq List.not_mem_nil
  route := by
    refine
      ⟨⟨hwf, ?_, List.nodup_nil, ?_, List.nodup_nil, ?_⟩, fun _ => rfl, ?_, (fun _ h => by cases h),
      ?_, ?_, ?_⟩
    · exact fun r hr => absurd hr List.not_mem_nil
    · exact fun f hf => absurd hf List.not_mem_nil
    · exact fun q hq => absurd hq List.not_mem_nil
    · exact fun _ => ⟨rfl, rfl, rfl, rfl, fun _ => rfl⟩
    · exact fun _ r hr => absurd hr List.not_mem_nil
    · exact fun _ r hr => absurd hr List.not_mem_nil
    · exact fun _ q hq => absurd hq List.not_mem_nil
  waiting := (fun h => by cases h)

/-- The host's own park for a row that would not fold. -/
theorem Inv.poison {st : RunState} (h : Inv st) (now : Timestamp) :
    Inv ((Item.poison now).apply st) where
  coh := h.coh.aside rfl rfl rfl rfl rfl rfl rfl
  route := h.route.aside rfl rfl rfl rfl rfl rfl rfl rfl rfl h.route.unopened id fun t ht => ⟨t, ht⟩
  waiting := h.waiting.aside rfl id

/-- **One input keeps the invariant**, and is a transition when it is acted on. -/
theorem Inv.step {st : RunState} (h : Inv st) (input : Event) : Inv (step st input) := by
  cases hi : ignoredReason st input with
  | some reason =>
    rw [step_of_ignored (by rw [hi]; rfl)]
    exact h
  | none =>
    obtain ⟨ht, hcoh⟩ := step_transition h.coh h.route hi
    exact ⟨hcoh, ht.route h.coh hcoh h.route hi, ht.waiting h.coh h.waiting⟩

/-- **Every state a run reaches.** -/
theorem Reaches.inv {run : RunId} {flow : FlowDef} {log : List Entry} {st : RunState}
    (hwf : flow.WF) (h : Reaches run flow log st) : Inv st := by
  induction h with
  | initial => exact .initial run hwf
  | step _ item ih =>
    cases item with
    | input event => exact ih.step event
    | poison now => exact ih.poison now

end NexusFlow.Run
