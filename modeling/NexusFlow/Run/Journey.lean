import NexusFlow.Run.Moves

/-!
# From a reply to the next place

`Heard` is what a run is left with once a reply is recorded and its escalation asked, before
`after_reply` goes on with it (`Route.heard`). From there the run waits, the consolidator sits down,
or the step ends and the run is at its next place (`Heard.after`).
-/

namespace NexusFlow.Run

open NexusFlow.Lib

/-! ## After a reply -/

/-- A reply of the visit the run is at, recorded and its escalation asked. -/
structure Heard (st : RunState) (d : StepDef) (v : Nat) : Prop extends Ledger st where
  at' : st.At d v
  running : ∃ tree, st.phase = .running tree
  unfinished : ¬ st.isFinishedStep d.id v
  noCeiling : ∀ step, ¬ st.atCeiling step
  ends : ∀ r ∈ st.slots, ¬ Later st.ids r.slot → r.GoesOn
  asks : ∀ r ∈ st.slots, ¬ Later st.ids r.slot → r.state.isEscalated = true →
    ∃ q ∈ st.questions, q.answered = false ∧ ∃ m, q.asked = .escalation r.slot m
  seated : (∃ r ∈ st.slots, r.slot.seat = (d.id, v, SYNTH)) →
    (Emit.memberVerdicts st d d.id v).isSome = true

theorem isOver_running {st : RunState} {t : TreePhase} (h : st.phase = .running t) :
    st.isOver = false := by
  unfold RunState.isOver RunState.isFinishing RunState.isFinished
  rw [h]
  rfl

theorem OpenCeilings.of_none {st : RunState} (h : ∀ step, ¬ st.atCeiling step) :
    OpenCeilings st :=
  fun q hq hopen step pass m hasked => absurd ⟨q, hq, hopen, pass, m, hasked⟩ (h step)

namespace Heard

variable {st : RunState} {d : StepDef} {v : Nat}

theorem isOver (h : Heard st d v) : st.isOver = false := by
  obtain ⟨tree, hphase⟩ := h.running
  exact isOver_running hphase

/-- An incomplete visit goes on waiting. -/
theorem here (h : Heard st d v)
    (hsynth : d.hasSynthesis = true → (Emit.memberVerdicts st d d.id v).isSome = true →
      ∃ r ∈ st.slots, r.slot.seat = (d.id, v, SYNTH))
    (hincomplete : ¬ ∃ replies, Complete st d v replies) : Here st d v where
  at' := h.at'
  consolidator hs := ⟨h.seated, hsynth hs⟩
  finished := ⟨fun hf => absurd hf h.unfinished, fun hc => absurd hc hincomplete⟩
  ceiling hc := absurd hc hincomplete
  open' step hc := absurd hc (h.noCeiling step)

theorem route (h : Heard st d v) (hhere : Here st d v) : Route st := by
  obtain ⟨tree, hphase⟩ := h.running
  refine ⟨h.toLedger, ?_, ?_, fun _ _ => ⟨d, v, hhere⟩, ?_, ?_, fun _ => .of_none h.noCeiling⟩
  · intro hp
    rw [hphase] at hp
    cases hp
  · intro hp
    rw [hphase] at hp
    rcases hp with hp | ⟨b, hp⟩ <;> cases hp
  · exact fun _ r hr _ hlast => h.ends r hr hlast
  · exact fun _ r hr _ hlast => h.asks r hr hlast

/-- A member is still to answer. -/
theorem waits (h : Heard st d v) (hnone : Emit.memberVerdicts st d d.id v = none) : Route st := by
  refine h.route (h.here ?_ ?_)
  · intro _ hsome
    rw [hnone] at hsome
    cases hsome
  · rintro ⟨replies, hc⟩
    rw [hc.verdicts] at hnone
    cases hnone

/-- The consolidator is still to answer. -/
theorem waitsSynthesis (h : Heard st d v) (hcoh : Coh st) (hsyn : d.hasSynthesis = true)
    {r : SlotRecord} (hr : st.latest d.id v SYNTH = some r) (hreplied : r.state.isReplied = false) :
    Route st := by
  obtain ⟨hmem, hseat, -⟩ := RunState.latest_spec hcoh.ordered hr
  refine h.route (h.here (fun _ _ => ⟨r, hmem, hseat⟩) ?_)
  rintro ⟨replies, hc⟩
  obtain ⟨x, hx, hxr⟩ := hc.synthesis hsyn
  rw [hr, Option.some.injEq] at hx
  rw [← hx, hreplied] at hxr
  cases hxr

/-- The consolidator sits down. -/
theorem consolidates (h : Heard st d v) (hcoh : Coh st) {now : Timestamp} {st' : RunState}
    (hsyn : d.hasSynthesis = true) {replies : List Bool}
    (hall : Emit.memberVerdicts st d d.id v = some replies)
    (hnone : st.latest d.id v SYNTH = none) (hs : Starts now st d.id v 1 [SYNTH] st') :
    Route st' := by
  have hfree := RunState.latest_eq_none_iff.mp hnone
  obtain ⟨new, ho, hnew⟩ := opened_of_stepStarted st d.id v 1 [SYNTH] now
  obtain ⟨n, rfl, hn⟩ : ∃ n, new = [n] ∧ n.slot = ⟨d.id, v, SYNTH, 1⟩ := by
    obtain ⟨n, hn⟩ := List.length_eq_one_iff.mp (by simpa using congrArg List.length hnew)
    rw [hn] at hnew
    exact ⟨n, hn, by simpa using hnew⟩
  have hseat : n.slot.seat = (d.id, v, SYNTH) := by rw [hn]; rfl
  have hcoh' := hcoh.newSeats d.id v (List.nodup_singleton SYNTH)
    (fun r hr m hm => by rw [List.mem_singleton.mp hm]; exact hfree r hr)
    (by rw [h.at'.visit]; exact le_refl _)
    (fun r hr hl hd => by
      obtain ⟨hstep, hvisit⟩ := hcoh.active r hr hl hd
      rw [h.at'.current, Option.some.injEq] at hstep
      rw [← hstep, h.at'.visit, Option.some.injEq] at hvisit
      exact ⟨hstep.symm, hvisit.symm⟩) h.isOver now
  have hnlast : ¬ Later (applyDecision st (.stepStarted d.id v 1 [SYNTH]) now).ids n.slot := by
    rintro ⟨t, ht, hts, hlt⟩
    rw [ho.ids, List.mem_append] at ht
    rcases ht with ht | ht
    · obtain ⟨x, hx, rfl⟩ := RunState.mem_ids.mp ht
      exact hfree x hx (hts.trans hseat)
    · simp only [List.map_cons, List.map_nil, List.mem_singleton] at ht
      rw [ht] at hlt
      exact lt_irrefl _ hlt
  obtain ⟨hlatest, hpending⟩ := ho.latest_new hcoh' (List.mem_singleton.mpr rfl) hseat hnlast
  have hverdicts : Emit.memberVerdicts (applyDecision st (.stepStarted d.id v 1 [SYNTH]) now) d
      d.id v = some replies := by
    rw [← hall]
    refine mapM_congr_of_mem fun m hm => ?_
    rw [ho.latest_old fun x hx => ?_]
    rw [List.mem_singleton.mp hx, hseat]
    simp only [ne_eq, Prod.mk.injEq, true_and]
    exact fun heq => synth_notMem h.wf h.at'.step (heq ▸ hm)
  have hold : ∀ r : SlotRecord, ¬ Later (applyDecision st (.stepStarted d.id v 1 [SYNTH]) now).ids
      r.slot → ¬ Later st.ids r.slot := by
    intro r hl hl'
    refine hl (hl'.mono fun t ht => ?_)
    rw [ho.ids]
    exact List.mem_append_left _ ht
  have hincomplete : ¬ ∃ replies, Complete (applyDecision st (.stepStarted d.id v 1 [SYNTH]) now)
      d v replies := by
    rintro ⟨_, hc⟩
    obtain ⟨x, hx, hxr⟩ := hc.synthesis hsyn
    rw [hlatest, Option.some.injEq] at hx
    rw [← hx, hpending] at hxr
    cases hxr
  refine (ho.stays h.at'.visit h.toLedger h.isOver (fun r hr hl => h.ends r hr (hold r hl))
    (fun r hr hl => h.asks r hr (hold r hl)) (.of_none h.noCeiling)
    ⟨ho.at' h.at' rfl ?_, ?_, ?_, ?_, ?_⟩).arms hcoh' hs.arms
  · intro x hx
    rw [List.mem_singleton.mp hx, hn]
    exact Or.inr ⟨rfl, hsyn⟩
  · intro _
    rw [hverdicts]
    refine ⟨fun _ => rfl, fun _ => ⟨n, ?_, hseat⟩⟩
    rw [ho.slots]
    exact List.mem_append_right _ (List.mem_singleton.mpr rfl)
  · refine ⟨fun hf => ?_, fun hc => absurd hc hincomplete⟩
    unfold RunState.isFinishedStep at hf
    rw [ho.eq] at hf
    exact absurd hf h.unfinished
  · exact fun hc => absurd hc hincomplete
  · exact fun step hc => absurd ((ho.atCeiling_iff step).mp hc) (h.noCeiling step)

end Heard

/-! ## The end of a step -/

theorem Ledger.finishStep {st : RunState} (h : Ledger st) {step : StepId} {v : Nat}
    (hnot : ¬ st.isFinishedStep step v) (hv : v ≤ (st.visits.get step.text).getD 0) (rew : Bool)
    (now : Timestamp) : Ledger (st.finishStep step v rew now) where
  wf := h.wf
  synthPlain := h.synthPlain
  finishedOnce := by
    show ((st.finishedSteps ++ [_]).map _).Nodup
    rw [List.map_append, List.nodup_append]
    refine ⟨h.finishedOnce, List.nodup_singleton _, ?_⟩
    intro a ha b hb heq
    obtain ⟨f, hf, rfl⟩ := List.mem_map.mp ha
    simp only [List.map_cons, List.map_nil, List.mem_singleton] at hb
    rw [hb, Prod.mk.injEq] at heq
    exact hnot ⟨f, hf, heq.1, heq.2⟩
  finishedBound f hf := by
    rcases List.mem_append.mp hf with hf | hf
    · exact h.finishedBound f hf
    · rw [List.mem_singleton.mp hf]
      exact hv
  questionIds := h.questionIds
  ceilings q hq s pass m hasked := by
    obtain ⟨f, hf, hrest⟩ := h.ceilings q hq s pass m hasked
    exact ⟨f, List.mem_append_left _ hf, hrest⟩

theorem Ledger.rework {st : RunState} (h : Ledger st) («from» : StepId) («to» : Text) (pass : Nat)
    (now : Timestamp) : Ledger (applyDecision st (.rework «from» «to» «from» pass) now) :=
  h.congr rfl h.synthPlain rfl (fun _ => le_refl _) rfl rfl

/-- A run that is over is nowhere in its flow. -/
theorem Ledger.route_over {st : RunState} (h : Ledger st) (hover : st.isOver = true) :
    Route st := by
  have hnot : ∀ {p : Prop}, st.isOver = false → p := fun hf => by rw [hf] at hover; cases hover
  refine ⟨h, ?_, ?_, ?_, fun hf => hnot hf, fun hf => hnot hf, fun hf => hnot hf⟩
  · intro hp
    unfold RunState.isOver RunState.isFinishing RunState.isFinished at hover
    rw [hp] at hover
    cases hover
  · intro hp
    unfold RunState.isOver RunState.isFinishing RunState.isFinished at hover
    rcases hp with hp | ⟨b, hp⟩ <;> rw [hp] at hover <;> cases hover
  · intro tree hp
    exact hnot (isOver_running hp)

theorem Ledger.finishing {st : RunState} (h : Ledger st) (o : Outcome) (reason : ReasonCode)
    (now : Timestamp) : Route (st.finishing o reason now) := by
  refine Ledger.route_over (h.congr rfl ?_ rfl (fun _ => le_refl _) rfl rfl) rfl
  intro r hr hm
  obtain ⟨x, hx, rfl⟩ := List.mem_map.mp hr
  rw [SlotRecord.finish_isEscalated]
  exact h.synthPlain x hx hm

theorem Ledger.reworks {mid st' : RunState} (h : Ledger mid) (hcoh : Coh mid)
    (hdone : mid.AllDone) (hover : mid.isOver = false) (hnone : ∀ step, ¬ mid.atCeiling step)
    {d : StepDef} {target : Text} {pass : Nat} {now : Timestamp}
    (hre : Reworks now mid d target pass st') : Route st' := by
  obtain ⟨d', hd', hb⟩ := hre
  exact Route.begins (hcoh.rework d.id target pass now) (h.rework d.id target pass now)
    (FlowDef.step_mem hd').1 hdone hover hnone hb

/-- **The end of a step puts the run at its next place**: a back edge and the next step begin one,
a ceiling waits at this one, and the last step's end finishes the run. -/
theorem Heard.finishes {st st' : RunState} {d : StepDef} {v : Nat} (h : Heard st d v)
    (hcoh : Coh st) {replies : List Bool} (hc : Complete st d v replies) {rew : Bool}
    {now : Timestamp} (hf : FinishesStep now st d v rew st') : Route st' := by
  have hdone := hc.allDone hcoh h.at' h.synthPlain
  have hledger := h.toLedger.finishStep h.unfinished (by rw [h.at'.visit]; exact le_refl _) rew now
  cases hf with
  | rework hedge hle hre => exact hledger.reworks (hcoh.finishStep _ _ _ _) hdone h.isOver h.noCeiling hre
  | next hpass hnext hd' hb =>
    exact Route.begins (hcoh.finishStep _ _ _ _) hledger (FlowDef.step_mem hd').1 hdone h.isOver
      h.noCeiling hb
  | last hpass hnext => exact hledger.finishing _ _ _
  | @ceiling target verdict hedge hgt hverdict =>
    obtain ⟨tree, hphase⟩ := h.running
    -- The question is new: the visit it is about was not finished before.
    have hfresh : Emit.ceilingKey st.run d.id v (st.passOf d.id.text + 1)
        ∉ st.questions.map Question.id := by
      intro hmem
      obtain ⟨q, hq, hid⟩ := List.mem_map.mp hmem
      cases hasked : q.asked with
      | escalation s m =>
        rw [(hcoh.asked q hq s m hasked).1] at hid
        exact ceilingKey_ne_escalated _ _ _ _ _ hid.symm
      | ceiling s pass m =>
        obtain ⟨f, hf, hstep, hkey, -⟩ := h.ceilings q hq s pass m hasked
        rw [hkey] at hid
        obtain ⟨rfl, hv, -⟩ := ceilingKey_injective hid
        exact h.unfinished ⟨f, hf, hstep, hv⟩
    have hatc : (applyDecision (st.finishStep d.id v true now) (.ceiling (Emit.ceilingKey st.run
        d.id v (st.passOf d.id.text + 1)) d.id (st.passOf d.id.text + 1) verdict.message)
          now).atCeiling d.id :=
      ⟨_, List.mem_append_right _ (List.mem_singleton.mpr rfl), rfl, _, _, rfl⟩
    have honly : ∀ q ∈ (applyDecision (st.finishStep d.id v true now) (.ceiling (Emit.ceilingKey
        st.run d.id v (st.passOf d.id.text + 1)) d.id (st.passOf d.id.text + 1) verdict.message)
          now).questions, q.answered = false → ∀ step pass m, q.asked = .ceiling step pass m →
            step = d.id ∧ pass = st.passOf d.id.text + 1 ∧
              q.id = Emit.ceilingKey st.run d.id v (st.passOf d.id.text + 1) := by
      intro q hq hopen step pass m hasked
      rcases List.mem_append.mp hq with hq | hq
      · exact absurd ⟨q, hq, hopen, pass, m, hasked⟩ (h.noCeiling step)
      · rw [List.mem_singleton.mp hq] at hasked ⊢
        cases hasked
        exact ⟨rfl, rfl, rfl⟩
    have hcomplete : ∃ replies, Complete (applyDecision (st.finishStep d.id v true now) (.ceiling
        (Emit.ceilingKey st.run d.id v (st.passOf d.id.text + 1)) d.id (st.passOf d.id.text + 1)
          verdict.message) now) d v replies := ⟨replies, hc.verdicts, hc.synthesis⟩
    refine ⟨⟨hledger.wf, hledger.synthPlain, hledger.finishedOnce, hledger.finishedBound, ?_, ?_⟩,
      ?_, ?_, fun _ _ => ⟨d, v, ?_, ?_, ?_, fun _ => hatc, ?_⟩, fun _ r hr _ hlast => h.ends r hr hlast,
      ?_, ?_⟩
    · show ((st.questions ++ [_]).map _).Nodup
      rw [List.map_append, List.nodup_append]
      refine ⟨h.questionIds, List.nodup_singleton _, ?_⟩
      intro a ha b hb heq
      simp only [List.map_cons, List.map_nil, List.mem_singleton] at hb
      exact hfresh (hb ▸ heq ▸ ha)
    · intro q hq s pass m hasked
      rcases List.mem_append.mp hq with hq | hq
      · exact hledger.ceilings q hq s pass m hasked
      · rw [List.mem_singleton.mp hq] at hasked ⊢
        cases hasked
        exact ⟨⟨d.id, v, .of true, now⟩, List.mem_append_right _ (List.mem_singleton.mpr rfl), rfl,
          rfl, d, h.at'.step, rfl, by rw [hedge]; rfl⟩
    · intro hp
      rw [show (applyDecision _ _ _).phase = st.phase from rfl, hphase] at hp
      cases hp
    · intro hp
      rw [show (applyDecision _ _ _).phase = st.phase from rfl, hphase] at hp
      rcases hp with hp | ⟨b, hp⟩ <;> cases hp
    · exact h.at'.of_ids rfl rfl rfl rfl
    · intro hs
      refine ⟨h.seated, fun _ => ?_⟩
      obtain ⟨x, hx, -⟩ := hc.synthesis hs
      obtain ⟨hmem, hseat, -⟩ := RunState.latest_spec hcoh.ordered hx
      exact ⟨x, hmem, hseat⟩
    · exact ⟨fun _ => hcomplete, fun _ =>
        ⟨⟨d.id, v, .of true, now⟩, List.mem_append_right _ (List.mem_singleton.mpr rfl), rfl, rfl⟩⟩
    · rintro step ⟨q, hq, hopen, pass, m, hasked⟩
      exact ⟨(honly q hq hopen step pass m hasked).1, hcomplete⟩
    · intro _ r hr _ hlast hesc
      obtain ⟨q, hq, hrest⟩ := h.asks r hr hlast hesc
      exact ⟨q, List.mem_append_left _ hq, hrest⟩
    · intro _ q hq hopen step pass m hasked
      obtain ⟨rfl, hpass, hid⟩ := honly q hq hopen step pass m hasked
      subst hpass
      exact ⟨rfl, v, h.at'.visit, hid⟩

/-- **What a reply leads to puts the run at its next place.** -/
theorem Heard.after {st st' : RunState} {d : StepDef} {s : Slot} (h : Heard st d s.visit)
    (hcoh : Coh st) (hs : s.step = d.id) {now : Timestamp} (ha : AfterReply now st s st') :
    Route st' := by
  have hflow : ∀ d', st.flow.step s.step.text = some d' → d' = d := by
    intro d' hd'
    rw [hs, h.wf.step_eq h.at'.step, Option.some.injEq] at hd'
    exact hd'.symm
  cases ha with
  | elsewhere hne =>
    rw [hs, h.at'.current, h.at'.visit] at hne
    exact absurd hne (by simp)
  | waits hd hcur hnone =>
    rw [hflow _ hd, hs] at hnone
    exact h.waits hnone
  | consolidates hd hcur hall hsyn hnone hstarts =>
    rw [hflow _ hd, hs] at hall
    rw [hflow _ hd] at hsyn
    rw [hs] at hnone hstarts
    exact h.consolidates hcoh hsyn hall hnone hstarts
  | waitsSynthesis hd hcur hall hsyn hr hreplied =>
    rw [hflow _ hd] at hsyn
    rw [hs] at hr
    exact h.waitsSynthesis hcoh hsyn hr hreplied
  | done hd hcur hall hsyn hf =>
    rw [hflow _ hd] at hall hsyn hf
    rw [hs] at hall hsyn
    exact h.finishes hcoh ⟨hall, hsyn⟩ hf

/-- A session that works is not superseded, and its visit is not over. -/
theorem Route.working {st : RunState} (hroute : Route st) (h : Coh st) (hover : st.isOver = false)
    {r : SlotRecord} (hr : r ∈ st.slots) (hw : r.state.isWorking = true) :
    ¬ Later st.ids r.slot ∧ r.state.isDone = false ∧ ∃ d, Here st d r.slot.visit ∧
      r.slot.step = d.id ∧ ¬ ∃ replies, Complete st d r.slot.visit replies := by
  obtain ⟨hretired, hdone, -, -⟩ := SlotState.isWorking_spec hw
  have hlast : ¬ Later st.ids r.slot := by
    intro hl
    rw [(h.slots r hr).retired hl] at hretired
    cases hretired
  obtain ⟨d, hhere, hstep⟩ := hroute.here_of_active h hover hr hlast hdone
  refine ⟨hlast, hdone, d, hhere, hstep, ?_⟩
  rintro ⟨replies, hc⟩
  rw [hc.allDone h hhere.at' hroute.synthPlain r hr hlast] at hdone
  cases hdone

/-- **A reply is heard.** -/
theorem Route.heard {st mid asked : RunState} {r r' : SlotRecord} {m : MessageId}
    {now : Timestamp} (hroute : Route st) (h : Coh st) (hover : st.isOver = false)
    (hw : r.state.isWorking = true) (hrep : Replaces st mid r r')
    (hreplied : r'.state.isReplied = true)
    (hplain : r'.slot.member = SYNTH → r'.state.isEscalated = false)
    (hasked : asked = if r'.state.isEscalated = true then
      { mid with questions := mid.questions ++ [escalation mid r.slot m now] } else mid) :
    ∃ d, Heard asked d r.slot.visit ∧ r.slot.step = d.id := by
  obtain ⟨hlast, hdone, d, hhere, hstep, hincomplete⟩ := hroute.working h hover hrep.mem hw
  refine ⟨d, ?_, hstep⟩
  have hfields : ∀ {α : Type} (g : RunState → α),
      (∀ (x : RunState) qs, g { x with questions := qs } = g x) → g asked = g mid := by
    intro α g hg
    rw [hasked]
    split
    · exact hg _ _
    · rfl
  have hids : asked.ids = st.ids := (hfields RunState.ids fun _ _ => rfl).trans hrep.ids_eq
  have hslots : asked.slots = mid.slots := hfields RunState.slots fun _ _ => rfl
  have hkeeps : ∀ {α : Type} (g : RunState → α),
      (∀ (x : RunState) qs, g { x with questions := qs } = g x) → (∀ x : RunState, g x.bare = g x) →
        g asked = g st := fun g hg hg' => (hfields g hg).trans (hrep.keeps g hg')
  have hquestions : ∀ q ∈ asked.questions, q ∈ st.questions ∨
      q = escalation st r.slot m now := by
    intro q hq
    rw [hasked] at hq
    split at hq
    · rcases List.mem_append.mp hq with hq | hq
      · rw [hrep.keeps RunState.questions fun _ => rfl] at hq
        exact Or.inl hq
      · refine Or.inr ((List.mem_singleton.mp hq).trans ?_)
        unfold escalation escalatedKey RunState.sessionKey
        rw [hrep.keeps RunState.run fun _ => rfl]
    · rw [hrep.keeps RunState.questions fun _ => rfl] at hq
      exact Or.inl hq
  have hmore : ∀ q ∈ st.questions, q ∈ asked.questions := by
    intro q hq
    rw [← hrep.keeps RunState.questions fun _ => rfl] at hq
    rw [hasked]
    split
    · exact List.mem_append_left _ hq
    · exact hq
  -- The question is new: the attempt has not replied before.
  have hnodup : (asked.questions.map Question.id).Nodup := by
    rw [hasked]
    split
    · show ((mid.questions ++ [_]).map _).Nodup
      rw [hrep.keeps RunState.questions fun _ => rfl, List.map_append, List.nodup_append]
      refine ⟨hroute.questionIds, List.nodup_singleton _, ?_⟩
      intro a ha b hb heq
      obtain ⟨q, hq, rfl⟩ := List.mem_map.mp ha
      simp only [List.map_cons, List.map_nil, List.mem_singleton] at hb
      rw [hb] at heq
      have hkey : escalatedKey mid r.slot = escalatedKey st r.slot := by
        unfold escalatedKey RunState.sessionKey
        rw [hrep.keeps RunState.run fun _ => rfl]
      change q.id = escalatedKey mid r.slot at heq
      rw [hkey] at heq
      cases hqa : q.asked with
      | escalation s m' =>
        obtain ⟨hid, ⟨x, hx, hxs, hesc⟩, -⟩ := h.asked q hq s m' hqa
        rw [hid] at heq
        have hs : s = r.slot := sessionKey_injective (List.append_cancel_left heq)
        rw [RunState.record_unique h.ordered hx hrep.mem (hxs.trans hs),
          (SlotState.isWorking_spec hw).2.2.1] at hesc
        cases hesc
      | ceiling s pass m' =>
        obtain ⟨f, -, -, hid, -⟩ := hroute.ceilings q hq s pass m' hqa
        rw [hid] at heq
        exact ceilingKey_ne_escalated _ _ _ _ _ heq
    · rw [hrep.keeps RunState.questions fun _ => rfl]
      exact hroute.questionIds
  have hseatiff := exists_seat_iff hids (d.id, r.slot.visit, SYNTH)
  refine ⟨⟨?_, ?_, ?_, ?_, hnodup, ?_⟩, ?_, ?_, ?_, ?_, ?_, ?_, ?_⟩
  · rw [hkeeps RunState.flow (fun _ _ => rfl) fun _ => rfl]
    exact hroute.wf
  · unfold SynthPlain
    rw [hslots]
    exact hroute.synthPlain.replaces hrep hplain
  · rw [hkeeps RunState.finishedSteps (fun _ _ => rfl) fun _ => rfl]
    exact hroute.finishedOnce
  · rw [hkeeps RunState.finishedSteps (fun _ _ => rfl) fun _ => rfl,
      hkeeps RunState.visits (fun _ _ => rfl) fun _ => rfl]
    exact hroute.finishedBound
  · rw [hkeeps RunState.finishedSteps (fun _ _ => rfl) fun _ => rfl,
      hkeeps RunState.run (fun _ _ => rfl) fun _ => rfl,
      hkeeps RunState.flow (fun _ _ => rfl) fun _ => rfl]
    intro q hq step pass m' hqa
    rcases hquestions q hq with hq | rfl
    · exact hroute.ceilings q hq step pass m' hqa
    · cases hqa
  · exact hhere.at'.of_ids (hkeeps RunState.flow (fun _ _ => rfl) fun _ => rfl)
      (hkeeps RunState.currentStep (fun _ _ => rfl) fun _ => rfl)
      (hkeeps RunState.visits (fun _ _ => rfl) fun _ => rfl) hids
  · rw [hkeeps RunState.phase (fun _ _ => rfl) fun _ => rfl]
    exact hroute.running hover (List.ne_nil_of_mem hrep.mem)
  · unfold RunState.isFinishedStep
    rw [hkeeps RunState.finishedSteps (fun _ _ => rfl) fun _ => rfl]
    exact fun hf => hincomplete (hhere.finished.mp hf)
  · rintro step ⟨q, hq, hopen, pass, m', hqa⟩
    rcases hquestions q hq with hq | rfl
    · exact hincomplete (hhere.open' step ⟨q, hq, hopen, pass, m', hqa⟩).2
    · cases hqa
  · intro x hx hl
    rw [hslots] at hx
    rw [hids] at hl
    rcases hrep.mem_iff.mp hx with rfl | ⟨hx, -⟩
    · exact .of_replied hreplied
    · exact hroute.ends hover x hx (fun h => by cases h) hl
  · intro x hx hl hesc
    rw [hslots] at hx
    rw [hids] at hl
    rcases hrep.mem_iff.mp hx with rfl | ⟨hx, -⟩
    · refine ⟨escalation mid r.slot m now, ?_, rfl, m, by rw [hrep.slot]; rfl⟩
      rw [hasked, if_pos hesc]
      exact List.mem_append_right _ (List.mem_singleton.mpr rfl)
    · obtain ⟨q, hq, hrest⟩ := hroute.asks hover x hx (fun h => by cases h) hl hesc
      exact ⟨q, hmore q hq, hrest⟩
  · rw [hseatiff]
    rintro ⟨x, hx, hxs⟩
    simp only [Slot.seat, Prod.mk.injEq] at hxs
    have hsyn : d.hasSynthesis = true := by
      rcases hhere.at'.members x hx hxs.1 hxs.2.1 with hm | ⟨-, hsyn⟩
      · rw [hxs.2.2] at hm
        exact absurd hm (synth_notMem hroute.wf hhere.at'.step)
      · exact hsyn
    have hsome := (hhere.consolidator hsyn).mp ⟨x, hx, by simp only [Slot.seat, hxs]⟩
    -- Every member had counted, so this reply is the consolidator's.
    have hother : r.slot.member ∉ d.members := by
      intro hm
      obtain ⟨replies, hreplies⟩ := Option.isSome_iff_exists.mp hsome
      obtain ⟨y, hy, hyd⟩ := memberVerdicts_done hreplies hm
      have := RunState.latest_eq_some h.ordered hrep.mem hlast
      rw [hstep, hy, Option.some.injEq] at this
      rw [this, hdone] at hyd
      cases hyd
    rw [show Emit.memberVerdicts asked d d.id r.slot.visit
      = Emit.memberVerdicts st d d.id r.slot.visit from ?_]
    · exact hsome
    refine mapM_congr_of_mem fun m' hm' => ?_
    rw [hfields (fun x => x.latest d.id r.slot.visit m') fun _ _ => rfl, hrep.latest_eq]
    cases hl : st.latest d.id r.slot.visit m' with
    | none => rfl
    | some y =>
      obtain ⟨-, hys, -⟩ := RunState.latest_spec h.ordered hl
      have hne : y.slot ≠ r.slot := by
        intro heq
        rw [heq] at hys
        simp only [Slot.seat, Prod.mk.injEq] at hys
        exact hother (hys.2.2 ▸ hm')
      rw [Option.map_some, if_neg hne]

end NexusFlow.Run
