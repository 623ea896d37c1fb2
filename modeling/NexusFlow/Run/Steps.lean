import NexusFlow.Run.Transitions

/-!
# Every step is a transition

The inputs that name a session, a step or the whole run, each taken from `emitted` to the
`Transition` it makes, and `step_transition` for all of them.
-/

namespace NexusFlow.Run

open NexusFlow.Lib

section Step

variable {st : RunState} {input : Event}

/-! ## The claim and the tree -/

theorem claimTaken_transition (h : Coh st) (hroute : Route st)
    (hacc : ignoredReason st input = none) (hb : input.body = .claimTaken) :
    Transition st input (emitted st input).state ∧ Coh (emitted st input).state := by
  obtain ⟨b, hphase⟩ := accepted_claimTaken hacc hb
  obtain ⟨hslots, -⟩ := hroute.idle (Or.inr ⟨b, hphase⟩)
  have hstart : (Emit.start st input).state = { st with claimSince := some input.now } := by
    rw [start_state hacc]
    simp only [applyBody, hb]
  have hcoh : Coh (Emit.start st input).state := by
    rw [hstart]
    exact h.aside rfl rfl rfl rfl rfl rfl rfl
  obtain ⟨d, rest, hsteps⟩ := List.exists_cons_of_ne_nil hroute.wf.nonempty
  have hmem : d ∈ st.flow.steps := by rw [hsteps]; exact List.mem_cons_self
  have hhead : st.flow.steps.head? = some d := by rw [hsteps]; rfl
  have hflow : (Emit.start st input).state.flow = st.flow := by rw [hstart]
  have hover : (Emit.start st input).state.isOver = false := by
    rw [hstart]
    unfold RunState.isOver RunState.isFinishing RunState.isFinished
    rw [hphase]
    rfl
  have hdone : (Emit.start st input).state.AllDone := by
    intro r hr
    rw [hstart, hslots] at hr
    cases hr
  obtain ⟨hbegins, hcoh'⟩ := startStep_begins (Emit.start st input) hcoh (by rw [hflow]; exact hroute.wf)
    hdone hover (by rw [hflow]; exact hroute.wf.step_eq hmem)
  have hstate : (emitted st input).state
      = ((Emit.start st input).startStep d.id.text).state.arm .treeWindow
        ⟨input.now.plus ((Emit.start st input).startStep d.id.text).state.policy.treeWindow,
          .treeWindow⟩ := by
    unfold emitted
    rw [hb]
    simp only [Emit.input, Emit.claimTaken, hflow, hhead]
    exact Emit.state_setTimer _ (by decide) .treeWindow _
  rw [hstate]
  rw [hstart] at hbegins
  refine ⟨.claimed hb hphase hhead hbegins rfl, hcoh'.other rfl rfl rfl rfl rfl rfl ?_ ?_⟩
  · exact hcoh'.known.insertRun (t := .treeWindow) rfl rfl
  · exact fun u hu => get_insert_other (t := .treeWindow) rfl hu

theorem treePrepared_transition (h : Coh st) (hacc : ignoredReason st input = none) {base : Base}
    {found : Option ParkOutcome} (hb : input.body = .treePrepared base found) :
    Transition st input (emitted st input).state ∧ Coh (emitted st input).state := by
  have hphase := accepted_treePrepared hacc hb
  have hstate : ((Emit.start st input).clearTimer treeWindowTimer).state
      = st.prepared base found := by
    rw [Emit.state_clearTimer, start_state hacc]
    simp only [applyBody, hb]
    rfl
  have hcoh : Coh (st.prepared base found) := by
    refine h.other rfl rfl rfl rfl rfl ?_ (h.known.erase _) ?_
    · unfold RunState.isOver RunState.isFinishing RunState.isFinished
      rw [hphase]
      rfl
    · exact fun u hu => get_erase_other (t := .treeWindow) rfl hu
  obtain ⟨harms, hwait⟩ := armReady_arms ((Emit.start st input).clearTimer treeWindowTimer)
    (by rw [hstate]; exact hcoh.ordered)
  rw [hstate] at harms
  have hemit : emitted st input
      = ((Emit.start st input).clearTimer treeWindowTimer).armReady := by
    unfold emitted
    rw [hb]
    rfl
  rw [hemit]
  exact ⟨.prepared hb hphase harms hwait, hcoh.arms harms⟩

/-! ## Sessions -/

theorem isOver_eq_false {st : RunState} (hfin : st.isFinishing = false)
    (hdone : st.isFinished = false) : st.isOver = false := by
  unfold RunState.isOver
  rw [hfin, hdone]
  rfl

theorem Replaces.isFinishing_eq {st st' : RunState} {r r' : SlotRecord}
    (h : Replaces st st' r r') : st'.isFinishing = st.isFinishing := by
  unfold RunState.isFinishing
  rw [h.phase_eq]

theorem ended_transition (h : Coh st) (hacc : ignoredReason st input = none) {key : SessionKey}
    {cause : EndCause} (hb : input.body = .sessionFact key (.ended cause)) :
    Transition st input (emitted st input).state ∧ Coh (emitted st input).state := by
  obtain ⟨r, g, e, rfl, hlive, hmove, hland, hemit⟩ := ended_lands h hacc hb
  have hc := h.slots r hland.replaces.mem
  have hfin : e.state.isFinishing = st.isFinishing := hland.replaces.isFinishing_eq
  rw [hemit]
  have hj : r.state.isRetired = false → JustEnded e.state (r.ended input.now cause) cause := by
    intro hret
    obtain ⟨hlast, hover⟩ := hc.not_retired hret
    refine ⟨hland.replaces.mem_new, ?_, rfl, ?_, ?_⟩
    · unfold SlotRecord.ended SlotRecord.end'
      cases hs : r.state <;> simp_all [SlotState.isRetired]
    · rw [hland.replaces.ids_eq]
      exact hlast
    · rw [hland.replaces.isOver_eq]
      exact hover
  cases hf : st.isFinishing with
  | true =>
    have hstay : (e.afterEnd (r.ended input.now cause) r.state cause).state = e.state := by
      unfold Emit.afterEnd
      rw [if_pos (by rw [hfin]; exact hf)]
    refine ⟨.ended hb hmove hland hlive hj ?_, ?_⟩
    · rw [if_pos hf]
      exact hstay
    · show Coh (e.afterEnd (r.ended input.now cause) r.state cause).state
      rw [hstay]
      exact hland.coh
  | false =>
    obtain ⟨hafter, hcoh⟩ := afterEnd_after e hland.coh (by rw [hfin]; exact hf) hlive hc.named hj
    refine ⟨.ended hb hmove hland hlive hj ?_, hcoh⟩
    rw [if_neg (by rw [hf]; exact Bool.false_ne_true)]
    exact hafter

/-- Being at a visit is a matter of the flow's place and of the slots there are. -/
theorem RunState.At.of_ids {st st' : RunState} {d : StepDef} {v : Nat} (h : st.At d v)
    (hflow : st'.flow = st.flow) (hcurrent : st'.currentStep = st.currentStep)
    (hvisits : st'.visits = st.visits) (hids : st'.ids = st.ids) : st'.At d v where
  step := by rw [hflow]; exact h.step
  current := by rw [hcurrent]; exact h.current
  visit := by rw [hvisits]; exact h.visit
  seats m hm := by
    obtain ⟨r, hr, hseat⟩ := h.seats m hm
    have hmem : r.slot ∈ st'.ids := by rw [hids]; exact RunState.mem_ids.mpr ⟨r, hr, rfl⟩
    obtain ⟨r', hr', hslot⟩ := RunState.mem_ids.mp hmem
    exact ⟨r', hr', by rw [hslot]; exact hseat⟩
  members r hr hstep hvisit := by
    have hmem : r.slot ∈ st.ids := by rw [← hids]; exact RunState.mem_ids.mpr ⟨r, hr, rfl⟩
    obtain ⟨r', hr', hslot⟩ := RunState.mem_ids.mp hmem
    rw [← hslot] at hstep hvisit ⊢
    exact h.members r' hr' hstep hvisit

/-- A run with a record that goes on is running. -/
theorem Route.running {but : Option Slot} (hroute : Route st but) (hover : st.isOver = false)
    (hslots : st.slots ≠ []) : ∃ tree, st.phase = .running tree := by
  unfold RunState.isOver RunState.isFinishing RunState.isFinished at hover
  cases hphase : st.phase with
  | created => exact absurd (hroute.idle (Or.inl hphase)).1 hslots
  | queued b => exact absurd (hroute.idle (Or.inr ⟨b, hphase⟩)).1 hslots
  | running tree => exact ⟨tree, rfl⟩
  | finishing o reason tree => rw [hphase] at hover; cases hover
  | finished o reason => rw [hphase] at hover; cases hover

/-- So is one that has asked. -/
theorem Route.running_of_question {but : Option Slot} (hroute : Route st but)
    (hover : st.isOver = false) {q : Question} (hq : q ∈ st.questions) :
    ∃ tree, st.phase = .running tree := by
  unfold RunState.isOver RunState.isFinishing RunState.isFinished at hover
  cases hphase : st.phase with
  | created => rw [(hroute.idle (Or.inl hphase)).2.1] at hq; cases hq
  | queued b => rw [(hroute.idle (Or.inr ⟨b, hphase⟩)).2.1] at hq; cases hq
  | running tree => exact ⟨tree, rfl⟩
  | finishing o reason tree => rw [hphase] at hover; cases hover
  | finished o reason => rw [hphase] at hover; cases hover

/-- The visit a seat's undone last attempt is at is the run's. -/
theorem Route.here_of_active {but : Option Slot} (hroute : Route st but) (h : Coh st)
    (hover : st.isOver = false) {r : SlotRecord} (hr : r ∈ st.slots) (hlast : ¬ Later st.ids r.slot)
    (hdone : r.state.isDone = false) : ∃ d, Here st d r.slot.visit ∧ r.slot.step = d.id := by
  obtain ⟨tree, hphase⟩ := hroute.running hover (List.ne_nil_of_mem hr)
  obtain ⟨d, v, hhere⟩ := hroute.here tree hphase
  obtain ⟨hstep, hvisit⟩ := h.active r hr hlast hdone
  rw [hhere.at'.current, Option.some.injEq] at hstep
  rw [← hstep, hhere.at'.visit, Option.some.injEq] at hvisit
  exact ⟨d, hvisit ▸ hhere, hstep.symm⟩

theorem SynthPlain.replaces {st mid : RunState} {r r' : SlotRecord} (h : SynthPlain st)
    (hrep : Replaces st mid r r')
    (hr' : r'.slot.member = SYNTH → r'.state.isEscalated = false) : SynthPlain mid := by
  intro x hx hm
  rcases hrep.mem_iff.mp hx with rfl | ⟨hx, -⟩
  · exact hr' hm
  · exact h x hx hm

/-- A consolidator's reply carries no routing bit. -/
theorem SlotRecord.applyReply_synth {r : SlotRecord} (h : r.slot.member = SYNTH) (edge : Bool)
    (m : MessageId) (esc rew : Bool) :
    (r.applyReply edge m esc rew).state.isEscalated = false := by
  unfold SlotRecord.applyReply
  simp [h, SlotState.isEscalated]

theorem escalate_state {e : Emit st (applyInput st input) input.now} {key : SessionKey}
    {r' : SlotRecord} {m : MessageId} {esc rew overdue : Bool} {process : Process}
    {l : Option Ladder} (hs : r'.state = .replied m esc rew process overdue l)
    (hkey : e.state.sessionKey r'.slot = key) : (e.escalate key r').state
      = if r'.state.isEscalated = true then
          { e.state with
            questions := e.state.questions ++ [escalation e.state r'.slot m input.now] }
        else e.state := by
  unfold Emit.escalate escalation escalatedKey
  rw [hs, hkey]
  cases esc <;> rfl

theorem reply_transition (h : Coh st) (hroute : Route st) (hacc : ignoredReason st input = none)
    {key : SessionKey} {m : MessageId} {esc rew : Bool} (hb : input.body = .reply key m esc rew) :
    Transition st input (emitted st input).state ∧ Coh (emitted st input).state := by
  obtain ⟨r, g, e, rfl, hw, -, hmove, hland, hemit⟩ := reply_lands h hacc hb
  have hrep := hland.replaces
  obtain ⟨-, hlast, hover⟩ := (h.slots r hrep.mem).working hw
  have hdone : r.state.isDone = false := by
    cases hs : r.state <;> simp_all [SlotState.isWorking, SlotState.isDone]
  obtain ⟨d, hhere, hstep⟩ := hroute.here_of_active h hover hrep.mem hlast hdone
  have hrun : e.state.run = st.run := hrep.keeps RunState.run fun _ => rfl
  have hkey : e.state.sessionKey (r.applyReply (hasEdge st r.slot.step) m esc rew).slot
      = st.sessionKey r.slot := by
    unfold RunState.sessionKey
    rw [hrun]
    rfl
  have hasked := @escalate_state _ _ e _ (r.applyReply (hasEdge st r.slot.step) m esc rew) _ _ _ _ _ _
    rfl hkey
  have hcoh : Coh (e.escalate (st.sessionKey r.slot)
      (r.applyReply (hasEdge st r.slot.step) m esc rew)).state := by
    rw [hasked]
    split
    · rename_i hesc
      refine hland.coh.ask rfl ?_
      intro s m' hq
      cases hq
      refine ⟨rfl, ⟨_, hrep.mem_new, rfl, hesc⟩, fun _ => ?_⟩
      rw [hrep.ids_eq]
      exact hlast
    · exact hland.coh
  -- Asking a question changes nothing that says where the run is.
  have hfields : ∀ {α : Type} (f : RunState → α),
      (∀ x qs, f { x with questions := qs } = f x) → f (e.escalate (st.sessionKey r.slot)
        (r.applyReply (hasEdge st r.slot.step) m esc rew)).state = f e.state := by
    intro α f hf
    rw [hasked]
    split
    · exact hf _ _
    · rfl
  have hat : (e.escalate (st.sessionKey r.slot)
      (r.applyReply (hasEdge st r.slot.step) m esc rew)).state.At d r.slot.visit := by
    refine hhere.at'.of_ids ?_ ?_ ?_ ?_
    · rw [hfields RunState.flow fun _ _ => rfl]
      exact hrep.keeps RunState.flow fun _ => rfl
    · rw [hfields RunState.currentStep fun _ _ => rfl]
      exact hrep.keeps RunState.currentStep fun _ => rfl
    · rw [hfields RunState.visits fun _ _ => rfl]
      exact hrep.keeps RunState.visits fun _ => rfl
    · rw [hfields RunState.ids fun _ _ => rfl]
      exact hrep.ids_eq
  have hplain : SynthPlain (e.escalate (st.sessionKey r.slot)
      (r.applyReply (hasEdge st r.slot.step) m esc rew)).state := by
    have := hroute.synthPlain.replaces hrep fun hm => SlotRecord.applyReply_synth hm _ _ _ _
    unfold SynthPlain at this ⊢
    rw [hfields RunState.slots fun _ _ => rfl]
    exact this
  obtain ⟨hafter, hcoh'⟩ := afterReply_after _ hcoh
    (by rw [hfields RunState.flow fun _ _ => rfl, hrep.keeps RunState.flow fun _ => rfl]
        exact hroute.wf) hat hstep hplain
    (by rw [hfields RunState.isOver fun _ _ => rfl, hrep.isOver_eq]
        exact hover)
  rw [hemit]
  exact ⟨.replied hb rfl hw hmove hland hasked hcoh hafter, hcoh'⟩

theorem resume_transition (h : Coh st) (hacc : ignoredReason st input = none) {slot : Option Slot}
    (hb : input.body = .resume slot) :
    Transition st input (emitted st input).state ∧ Coh (emitted st input).state := by
  obtain ⟨r, c, g, e, hcond, hlast, hfin, hmove, hland, hemit⟩ := resume_lands h hacc hb
  have hc := h.slots r hland.replaces.mem
  rw [hemit]
  cases hw : c.isWouldNotStop with
  | true =>
    rw [if_pos rfl]
    refine ⟨.slot hmove hland ⟨?_, ?_, ?_, ?_⟩, hland.coh⟩
    · exact fun _ _ hb' => by rw [hb] at hb'; cases hb'
    · exact fun _ _ _ _ hb' => by rw [hb] at hb'; cases hb'
    · intro _ _
      rw [hcond]
      exact hw
    · exact fun _ hb' => by rw [hb] at hb'; cases hb'
  | false =>
    rw [if_neg (by exact Bool.false_ne_true)]
    have hfits := hc.condition hlast c hcond
    rw [if_neg (by rw [hw]; exact Bool.false_ne_true)] at hfits
    obtain ⟨cause, hs⟩ := hfits
    have hj : JustEnded e.state r.applyResume cause := by
      refine ⟨hland.replaces.mem_new, ?_, r.applyResume_condition, ?_, ?_⟩
      · unfold SlotRecord.applyResume
        rw [hcond, Option.any_some, if_neg (by rw [hw]; exact Bool.false_ne_true)]
        exact hs
      · rw [hland.replaces.ids_eq, r.applyResume_slot]
        exact hlast
      · rw [hland.replaces.isOver_eq]
        exact isOver_eq_false hfin (accepted_not_finished hacc)
    obtain ⟨hre, hcoh⟩ := hj.restarts e hland.coh
    rw [r.applyResume_slot] at hre hcoh
    exact ⟨.resumed hb hcond hw hmove hland hj hre, hcoh⟩

/-- An input that is none of those that go on. -/
theorem settles_of {r : SlotRecord} (hended : ∀ key cause, input.body ≠ .sessionFact key (.ended cause))
    (hreply : ∀ key m esc rew, input.body ≠ .reply key m esc rew)
    (hresume : ∀ slot, input.body ≠ .resume slot)
    (htimer : ∀ fireAt, input.body ≠ .timerFired (slotTimer .holdRetry r.slot) fireAt) :
    Settles st input r :=
  ⟨hended, hreply, fun slot hb => absurd hb (hresume slot), fun f hb => absurd hb (htimer f)⟩

/-- A sign of a session that ends where it lands. -/
theorem settled_transition
    (h : ∃ r r' g, SlotMove st input r r' g ∧ Landed st (emitted st input).state r r' g)
    (hended : ∀ key cause, input.body ≠ .sessionFact key (.ended cause))
    (hreply : ∀ key m esc rew, input.body ≠ .reply key m esc rew)
    (hresume : ∀ slot, input.body ≠ .resume slot)
    (htimer : ∀ t fireAt, input.body ≠ .timerFired t fireAt) :
    Transition st input (emitted st input).state ∧ Coh (emitted st input).state := by
  obtain ⟨r, r', g, hmove, hland⟩ := h
  exact ⟨.slot hmove hland (settles_of hended hreply hresume fun f => htimer _ f), hland.coh⟩

theorem timerFired_transition (h : Coh st) (hacc : ignoredReason st input = none) {timer : Text}
    {fireAt : Timestamp} (hb : input.body = .timerFired timer fireAt) :
    Transition st input (emitted st input).state ∧ Coh (emitted st input).state := by
  obtain ⟨a, ha, -⟩ := accepted_timerFired hacc hb
  obtain ⟨t, rfl, hfits, hslot⟩ := h.known timer a ha
  cases ht : t.slot? with
  | none => exact runFiring_transition h hacc hb ha ht hfits
  | some s =>
    obtain ⟨r, hr, rfl⟩ := RunState.mem_ids.mp (hslot s ht)
    have hsettles : (isDeferred st t.text fireAt input.now = false → t ≠ .slot .holdRetry r.slot) →
        Settles st input r := by
      intro hne
      refine ⟨?_, ?_, ?_, ?_⟩
      · exact fun _ _ hb' => by rw [hb] at hb'; cases hb'
      · exact fun _ _ _ _ hb' => by rw [hb] at hb'; cases hb'
      · exact fun _ hb' => by rw [hb] at hb'; cases hb'
      · intro f hb'
        rw [hb] at hb'
        injection hb' with htext hfire
        subst hfire
        have heq : t = .slot .holdRetry r.slot := TimerId.text_injective htext
        by_contra hnd
        rw [Bool.not_eq_true] at hnd
        rw [← htext] at hnd
        exact hne hnd heq
    have hlands : (isDeferred st t.text fireAt input.now = false → t ≠ .slot .holdRetry r.slot) →
        (∃ r' g, SlotMove st input r r' g ∧ Landed st (emitted st input).state r r' g) →
        Transition st input (emitted st input).state ∧ Coh (emitted st input).state := by
      rintro hne ⟨r', g, hmove, hland⟩
      exact ⟨.slot hmove hland (hsettles hne), hland.coh⟩
    cases hdef : isDeferred st t.text fireAt input.now with
    | true =>
      exact hlands (fun hnd => by rw [hdef] at hnd; cases hnd)
        (deferred_lands h hacc hb ha hr ht hfits hdef)
    | false =>
      cases t with
      | rootDeadline => cases ht
      | treeWindow => cases ht
      | grace n s =>
        cases ht
        exact hlands (fun _ => (fun h => by cases h)) (graceFired_lands h hacc hb ha hr hfits hdef)
      | slot p s =>
        cases ht
        by_cases hp : p = .holdRetry
        · subst hp
          obtain ⟨cause, g, e, hs, hheld, hlast, hmove, hland, hnone, hemit⟩ :=
            retryFired_lands h hacc hb ha hr hfits hdef
          have hretired : st.isOver = false := by
            by_contra ho
            have := ((h.slots r hr).isOver (by simpa using ho)).2
            rw [hheld] at this
            cases this
          obtain ⟨hre, hcoh⟩ := restart_restarts e hland.coh hland.replaces.mem_new
            (by rw [hland.replaces.ids_eq]; exact hlast) (by rw [hs]; rfl) (by rw [hs]; rfl) hnone
            (fun q hq m hasked => by
              obtain ⟨-, ⟨x, hx, hslot, hesc⟩, -⟩ := hland.coh.asked q hq r.slot m hasked
              rw [RunState.record_unique hland.coh.ordered hx hland.replaces.mem_new hslot, hs] at hesc
              cases hesc)
            (by rw [hland.replaces.isOver_eq]; exact hretired)
          rw [hemit]
          exact ⟨.retried hb hs hheld hlast hretired hmove hland hnone hre, hcoh⟩
        · refine hlands (fun _ heq => ?_) (slotFired_lands h hacc hb ha hr hfits hdef hp)
          cases heq
          exact hp rfl

/-! ## Answers -/

/-- What an answered question starts the next step or attempt with. -/
def answerCause (st : RunState) (asked : Asked) (disp : Disposition) (m : MessageId) :
    Option StartCause :=
  match asked, disp with
  | .escalation _ _, _ => some (.answer m)
  | .ceiling step _ _, .accept => (st.verdictOf step.text).map fun verdict => .accept m verdict
  | _, _ => none

theorem modify_question {qs : List Question} (hnd : (qs.map Question.id).Nodup)
    {f : Question → Question} : ∀ {i : Nat} {q : Question}, qs[i]? = some q →
      qs.modify i f = qs.map fun x => if x.id = q.id then f x else x := by
  induction qs with
  | nil => simp
  | cons a l ih =>
    intro i q hi
    obtain ⟨ha, hl⟩ := List.nodup_cons.mp hnd
    cases i with
    | zero =>
      simp only [List.getElem?_cons_zero, Option.some.injEq] at hi
      subst hi
      rw [List.modify_zero_cons, List.map_cons, if_pos rfl]
      congr 1
      conv_lhs => rw [← List.map_id l]
      refine List.map_congr_left fun b hb => ?_
      have hne : b.id ≠ a.id := fun heq => ha (heq ▸ List.mem_map.mpr ⟨b, hb, rfl⟩)
      rw [if_neg hne, id]
    | succ i =>
      rw [List.getElem?_cons_succ] at hi
      have hne : a.id ≠ q.id := by
        intro heq
        exact ha (heq ▸ List.mem_map.mpr ⟨q, List.mem_of_getElem? hi, rfl⟩)
      rw [List.modify_succ_cons, List.map_cons, if_neg hne, ih hl hi]

theorem applyAnswer_eq (hnd : (st.questions.map Question.id).Nodup) {q : Question}
    (hq : q ∈ st.questions) (disp : Disposition) (m : MessageId) :
    applyAnswer st q.id disp m = st.answered q.id (answerCause st q.asked disp m) := by
  unfold applyAnswer
  cases hi : st.questions.findIdx? (fun x => x.id == q.id) with
  | none =>
    have := List.findIdx?_eq_none_iff.mp hi q hq
    simp at this
  | some i =>
    obtain ⟨hlt, hp, -⟩ := List.findIdx?_eq_some_iff_getElem.mp hi
    have hget : st.questions[i]? = some q := by
      rw [List.getElem?_eq_getElem hlt, Option.some.injEq]
      exact List.inj_on_of_nodup_map hnd (List.getElem_mem hlt) hq (by simpa using hp)
    simp only [hget, Option.map_some]
    rw [modify_question hnd hget]
    unfold RunState.answered answerCause
    cases q.asked <;> cases disp <;> rfl

theorem find_question (hnd : (st.questions.map Question.id).Nodup) {q : Question}
    (hq : q ∈ st.questions) :
    (st.questions.find? fun x => x.id == q.id).map Question.asked = some q.asked := by
  cases hf : st.questions.find? (fun x => x.id == q.id) with
  | none =>
    have := List.find?_eq_none.mp hf q hq
    simp at this
  | some x =>
    have hx := List.mem_of_find?_eq_some hf
    have hid : x.id = q.id := by simpa using List.find?_some hf
    rw [List.inj_on_of_nodup_map hnd hx hq hid]
    rfl

/-- An answer closes a question and opens none. -/
theorem RunState.mem_answered {q : Key} {cause : Option StartCause} {x : Question}
    (hx : x ∈ (st.answered q cause).questions) : ∃ y ∈ st.questions, x.id = y.id ∧
      x.asked = y.asked ∧ (x.answered = false → y.answered = false ∧ y.id ≠ q) := by
  unfold RunState.answered at hx
  obtain ⟨y, hy, rfl⟩ := List.mem_map.mp hx
  refine ⟨y, hy, ?_⟩
  split
  · exact ⟨rfl, rfl, (fun h => by cases h)⟩
  · rename_i hne
    exact ⟨rfl, rfl, fun ha => ⟨ha, hne⟩⟩

theorem Coh.answered (h : Coh st) (q : Key) (cause : Option StartCause) :
    Coh (st.answered q cause) := by
  refine ⟨h.ordered, h.visitBound, h.known, ?_, h.active, ?_⟩
  · exact fun r hr => (h.slots r hr).frame rfl rfl (fun _ => rfl) (fun _ => rfl)
  · intro x hx s m hasked
    obtain ⟨y, hy, hid, hasked', hopen⟩ := RunState.mem_answered hx
    obtain ⟨hkey, hrec, hlast⟩ := h.asked y hy s m (hasked' ▸ hasked)
    exact ⟨hid.trans hkey, hrec, fun ha => hlast (hopen ha).1⟩

/-- A run that goes on and has asked something is at a visit. -/
theorem Route.here_of_question (hroute : Route st) (hover : st.isOver = false) {q : Question}
    (hq : q ∈ st.questions) : ∃ d v, Here st d v := by
  obtain ⟨tree, hphase⟩ := hroute.running_of_question hover hq
  exact hroute.here tree hphase

/-- A run at an open ceiling has every answer of its visit. -/
theorem Route.allDone_at_ceiling (hroute : Route st) (h : Coh st) (hover : st.isOver = false)
    {step : StepId} (hq : st.atCeiling step) : st.AllDone := by
  obtain ⟨d, v, hhere⟩ := hroute.here_of_question hover hq.choose_spec.1
  obtain ⟨-, replies, hc⟩ := hhere.open' step hq
  exact hc.allDone h hhere.at' hroute.synthPlain

theorem answer_transition (h : Coh st) (hroute : Route st) (hacc : ignoredReason st input = none)
    {key : Key} {disp : Disposition} {m : MessageId} (hb : input.body = .answer key disp m) :
    Transition st input (emitted st input).state ∧ Coh (emitted st input).state := by
  obtain ⟨hfin, q, hq, hopen, rfl, htakes⟩ := accepted_answer hacc hb
  have hover := isOver_eq_false hfin (accepted_not_finished hacc)
  have hstart : (Emit.start st input).state
      = st.answered q.id (answerCause st q.asked disp m) := by
    rw [start_state hacc]
    simp only [applyBody, hb]
    exact applyAnswer_eq hroute.questionIds hq disp m
  have hcoh := h.answered q.id (answerCause st q.asked disp m)
  have hemit : emitted st input = (Emit.start st input).answer q.id disp := by
    unfold emitted
    rw [hb]
    rfl
  rw [hemit]
  unfold Emit.answer
  rw [find_question hroute.questionIds hq]
  cases hasked : q.asked with
  | escalation s m' =>
    simp only
    obtain ⟨hid, ⟨r, hr, rfl, hesc⟩, hlast⟩ := h.asked q hq s m' hasked
    rw [hasked] at hstart hcoh
    have hreplied : r.state.isReplied = true := by
      cases hs : r.state <;> simp_all [SlotState.isEscalated, SlotState.isReplied]
    obtain ⟨hre, hcoh'⟩ := restart_restarts (Emit.start st input) (r := r)
      (by rw [hstart]; exact hcoh) (by rw [hstart]; exact hr)
      (by rw [hstart]; exact hlast hopen)
      (by cases hs : r.state <;> simp_all [SlotState.isDone, SlotState.isEscalated]
          rename_i esc _ _ _ _
          cases esc <;> simp_all)
      (by cases hs : r.state <;> simp_all [SlotState.isReplied, SlotState.isRetired])
      (by
        rw [hstart]
        cases ht : st.timer (.slot .holdRetry r.slot) with
        | none => exact ht
        | some a =>
          have hmay := (h.slots r hr).may .holdRetry (by rw [ht]; rfl)
          obtain ⟨hne, -⟩ | ⟨hne, -⟩ | ⟨hne, -⟩ | ⟨hne, -⟩ | ⟨hne, -⟩ | ⟨hne, -⟩ |
            ⟨-, -, cause, hs⟩ := SlotRecord.mayArm_state hmay
          any_goals exact absurd hne (by decide)
          rw [hs] at hreplied
          cases hreplied)
      (by
        intro x hx m'' hx'
        rw [hstart] at hx
        by_contra hne
        rw [Bool.not_eq_true] at hne
        obtain ⟨y, hy, -, hyasked, hyopen⟩ := RunState.mem_answered hx
        obtain ⟨hkey, -⟩ := h.asked y hy r.slot m'' (hyasked ▸ hx')
        exact (hyopen hne).2 (hkey.trans hid.symm))
      (by rw [hstart]; exact hover)
    rw [hstart] at hre
    exact ⟨.answered hb hq hopen hasked hr (hlast hopen) hesc hfin hcoh hre, hcoh'⟩
  | ceiling step pass lv =>
    simp only
    obtain ⟨f, -, -, -, d, hd, rfl, hedge⟩ := hroute.ceilings q hq step pass lv hasked
    obtain ⟨target, htarget⟩ := Option.isSome_iff_exists.mp hedge
    have hdone := hroute.allDone_at_ceiling h hover ⟨q, hq, hopen, pass, lv, hasked⟩
    have hflow : (Emit.start st input).state.flow = st.flow := by rw [hstart]; rfl
    have hstep : (Emit.start st input).state.flow.step d.id.text = some d := by
      rw [hflow]
      exact hroute.wf.step_eq hd
    have hcoh' : Coh (Emit.start st input).state := by rw [hstart]; exact hcoh
    have hwf : (Emit.start st input).state.flow.WF := by rw [hflow]; exact hroute.wf
    have hdone' : (Emit.start st input).state.AllDone := by rw [hstart]; exact hdone
    have hover' : (Emit.start st input).state.isOver = false := by rw [hstart]; exact hover
    cases disp with
    | unknown raw =>
      unfold Question.takes at htakes
      cases htakes
    | «continue» =>
      simp only [Emit.oneMorePass, hstep, Option.bind_some, htarget]
      obtain ⟨hre, hcoh''⟩ := rework_reworks (Emit.start st input) hcoh' hwf hdone' hover'
        (by rw [hflow]; exact hd) htarget pass
      rw [hstart, hasked] at hre
      rw [hasked] at hcoh
      exact ⟨.continued hb hq hopen hasked hd htarget hfin hcoh hre, hcoh''⟩
    | accept =>
      cases hnext : d.next with
      | none =>
        simp only [Emit.accept, hstep, Option.bind_some, hnext]
        rw [state_finishRun, hstart]
        exact ⟨.acceptedLast hb hq hopen hasked hd hnext hfin hcoh, hcoh.finish _ _ _⟩
      | some next =>
        simp only [Emit.accept, hstep, Option.bind_some, hnext]
        obtain ⟨d', hd', hid⟩ := hroute.wf.known d hd next (by simp [StepDef.references, hnext])
        have hstep' : st.flow.step next = some d' := by
          rw [← hid]
          exact hroute.wf.step_eq hd'
        obtain ⟨hbegins, hcoh''⟩ := startStep_begins (Emit.start st input) hcoh' hwf hdone' hover'
          (by rw [hflow]; exact hstep')
        rw [hstart] at hbegins
        exact ⟨.acceptedNext hb hq hopen hasked hd hnext hstep' hfin hcoh hbegins, hcoh''⟩

/-! ## Withdrawals -/

theorem SlotRecord.applyWithdrawn_slot (r : SlotRecord) : r.applyWithdrawn.slot = r.slot := rfl

theorem SlotRecord.applyWithdrawn_arms (r : SlotRecord) :
    r.applyWithdrawn.mustArm = r.mustArm ∧
      (∀ p ∈ r.mayArm, p ∈ r.applyWithdrawn.mayArm) := by
  cases hs : r.state with
  | replied m esc rew process overdue l =>
    cases process <;> cases l <;>
      simp [SlotRecord.mustArm, SlotRecord.mayArm, SlotRecord.applyWithdrawn, hs,
        SlotState.mapLadder]
  | ended cause =>
    simp only [SlotRecord.mustArm, SlotRecord.mayArm, SlotRecord.applyWithdrawn, hs,
      SlotState.mapLadder, true_and]
    intro p hp
    cases hc : r.condition with
    | none => simp [hc] at hp
    | some c =>
      cases c with
      | held reason u o => simpa [hc, SlotCondition.isHeld, SlotCondition.isWouldNotStop] using hp
      | parked reason o since => simp [hc, SlotCondition.isHeld] at hp
  | running sid oc =>
    cases oc <;> simp [SlotRecord.mustArm, SlotRecord.mayArm, SlotRecord.applyWithdrawn, hs,
      SlotState.mapLadder]
  | _ =>
    simp [SlotRecord.mustArm, SlotRecord.mayArm, SlotRecord.applyWithdrawn, hs,
      SlotState.mapLadder]

theorem ids_withdraw : st.withdraw.ids = st.ids := by
  unfold RunState.withdraw RunState.ids
  rw [List.map_map]
  rfl

theorem Coh.withdraw (h : Coh st) : Coh st.withdraw := by
  have hids : st.withdraw.ids = st.ids := ids_withdraw
  have hmem : ∀ x ∈ st.withdraw.slots, ∃ r ∈ st.slots, x = r.applyWithdrawn := by
    intro x hx
    obtain ⟨r, hr, rfl⟩ := List.mem_map.mp hx
    exact ⟨r, hr, rfl⟩
  have hladder : ∀ r : SlotRecord, r.applyWithdrawn.state.ladder.isSome = r.state.ladder.isSome := by
    intro r
    show (r.state.mapLadder _).ladder.isSome = _
    rw [SlotState.mapLadder_ladder, Option.isSome_map]
  refine ⟨hids ▸ h.ordered, ?_, ?_, ?_, ?_, ?_⟩
  · rw [hids]
    exact h.visitBound
  · rw [hids]
    exact h.known
  · intro x hx
    obtain ⟨r, hr, rfl⟩ := hmem x hx
    have hc := h.slots r hr
    obtain ⟨hmust, hmay⟩ := r.applyWithdrawn_arms
    refine ⟨?_, ?_, ?_, ?_, ?_, ?_, ?_, ?_, ?_⟩
    · exact fun p hp => hmay p (hc.may p hp)
    · rw [hmust]
      exact hc.must
    · intro n hn
      rw [hladder]
      exact hc.grace n hn
    · rw [hids]
      exact hc.retry
    · rw [hladder]
      intro hl
      exact (SlotState.mapLadder_isLive _ _).trans (hc.alive hl)
    · exact (SlotState.mapLadder_isNamed _ _).trans hc.named
    · rw [hids]
      intro hlast c hcond
      have hcond' : r.condition = some c ∧ c.isWouldNotStop = false := by
        unfold SlotRecord.applyWithdrawn at hcond
        cases hrc : r.condition with
        | none => simp [hrc] at hcond
        | some c' =>
          cases hw : c'.isWouldNotStop <;> simp_all
      have := hc.condition hlast c hcond'.1
      rw [if_neg (by rw [hcond'.2]; exact Bool.false_ne_true)] at this ⊢
      obtain ⟨cause, hs⟩ := this
      exact ⟨cause, by show r.state.mapLadder _ = _; rw [hs]; rfl⟩
    · rw [hids]
      exact fun hl => (SlotState.mapLadder_isRetired _ _).trans (hc.retired hl)
    · intro ho
      obtain ⟨hret, hheld⟩ := hc.isOver ho
      refine ⟨(SlotState.mapLadder_isRetired _ _).trans hret, ?_⟩
      unfold SlotRecord.applyWithdrawn
      simp only
      split
      · rfl
      · exact hheld
  · intro x hx hl hnot
    obtain ⟨r, hr, rfl⟩ := hmem x hx
    rw [hids] at hl
    exact h.active r hr hl ((SlotState.mapLadder_isDone _ _).symm.trans hnot)
  · intro q hq s m hasked
    obtain ⟨hid, ⟨r, hr, hslot, hesc⟩, hopen⟩ := h.asked q hq s m hasked
    refine ⟨hid, ⟨r.applyWithdrawn, List.mem_map.mpr ⟨r, hr, rfl⟩, hslot, ?_⟩, ?_⟩
    · exact (SlotState.mapLadder_isEscalated _ _).trans hesc
    · rw [hids]
      exact hopen

theorem withdrawn_transition (h : Coh st) (hacc : ignoredReason st input = none)
    {m : Option MessageId} {who : WithdrawnBy} (hb : input.body = .withdrawn m who) :
    Transition st input (emitted st input).state ∧ Coh (emitted st input).state := by
  have hstart : (Emit.start st input).state = st.withdraw := by
    rw [start_state hacc]
    simp only [applyBody, hb]
    rfl
  have hemit : emitted st input = if st.isFinishing = true then
      (Emit.start st input).push .withdrawForced
      else (Emit.start st input).finishRun .withdrawn (Emit.withdrawnReason who) := by
    unfold emitted
    rw [hb]
    rfl
  rw [hemit]
  split
  · rename_i hfin
    rw [Emit.state_push, hstart]
    exact ⟨.forced hb hfin h.withdraw, h.withdraw⟩
  · rename_i hfin
    rw [state_finishRun, hstart]
    exact ⟨.withdrawn hb (by simpa using hfin) h.withdraw, h.withdraw.finish _ _ _⟩

/-! ## Every input -/

/-- **`step` makes a transition, and keeps the state coherent**: what every accepted input does. -/
theorem step_transition (h : Coh st) (hroute : Route st) (hacc : ignoredReason st input = none) :
    Transition st input (step st input) ∧ Coh (step st input) := by
  rw [step_eq_state hacc]
  cases hb : input.body with
  | commissioned w f p t q => exact commissioned_transition h hacc hb
  | rootOpened t m => exact rootOpened_transition h hacc hb
  | claimTaken => exact claimTaken_transition h hroute hacc hb
  | claimBusy holder => exact claimBusy_transition h hacc hb
  | claimReleased => exact claimReleased_transition h hacc hb
  | treePrepared base found => exact treePrepared_transition h hacc hb
  | treeRefused reason => exact treeRefused_transition h hacc hb
  | treeParked outcome => exact treeParked_transition h hacc hb
  | delivered m => exact delivered_transition h hacc hb
  | nudged key =>
    exact settled_transition (nudged_lands h hacc hb) (by simp [hb]) (by simp [hb]) (by simp [hb])
      (by simp [hb])
  | stopSignalled key nth signal =>
    exact settled_transition (stopSignalled_lands h hacc hb) (by simp [hb]) (by simp [hb])
      (by simp [hb]) (by simp [hb])
  | sessionFact key f =>
    have hsettled : (∀ cause, f ≠ .ended cause) →
        (∃ r r' g, SlotMove st input r r' g ∧ Landed st (emitted st input).state r r' g) →
        Transition st input (emitted st input).state ∧ Coh (emitted st input).state := by
      intro hf hland
      exact settled_transition hland (by simpa [hb] using fun _ cause _ => hf cause)
        (by simp [hb]) (by simp [hb]) (by simp [hb])
    cases f with
    | started sid => exact hsettled (fun _ h => by cases h) (started_lands h hacc hb)
    | heartbeat k => exact hsettled (fun _ h => by cases h) (sign_lands h hacc hb rfl)
    | usage => exact hsettled (fun _ h => by cases h) (sign_lands h hacc hb rfl)
    | permissionRefused rule program =>
      exact hsettled (fun _ h => by cases h) (sign_lands h hacc hb rfl)
    | groupLingering pids => exact hsettled (fun _ h => by cases h) (lingering_lands h hacc hb)
    | ended cause => exact ended_transition h hacc hb
    | unknown =>
      obtain ⟨r, -, hig⟩ := accepted_sessionFact hacc hb
      cases hig
  | reply key m esc rew => exact reply_transition h hroute hacc hb
  | answer q disp m => exact answer_transition h hroute hacc hb
  | resume slot => exact resume_transition h hacc hb
  | resumeRun => exact resumeRun_transition h hacc hb
  | withdrawn m who => exact withdrawn_transition h hacc hb
  | timerFired timer fireAt => exact timerFired_transition h hacc hb
  | decision d => exact absurd hb ((accepted_body hacc).1 d)
  | unknown => exact absurd hb (accepted_body hacc).2

end Step

end NexusFlow.Run
