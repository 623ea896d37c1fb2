import NexusFlow.Run.Steps

/-!
# A run keeps its place in the flow

`Route` along every transition: what one record's change keeps (`Route.replaces`), where the next
visit of a step puts the run (`Route.begins`), the next attempt of a seat (`Route.restarts`), the
consolidator (`Route.consolidates`) and an open ceiling (`Route.ceiling`).
-/

namespace NexusFlow.Run

open NexusFlow.Lib

/-! ## One record changed -/

/-- A change of the records that keeps their slots changes what `latest` finds, not where. -/
theorem latest_map {st st' : RunState} {f : SlotRecord → SlotRecord}
    (hslots : st'.slots = st.slots.map f) (hf : ∀ x, (f x).slot = x.slot) (step : StepId)
    (visit : Nat) (m : Handle) : st'.latest step visit m = (st.latest step visit m).map f := by
  unfold RunState.latest
  rw [hslots, ← List.map_reverse, List.find?_map]
  congr 2
  funext x
  simp only [Function.comp, hf]

theorem Replaces.latest_eq {st st' : RunState} {r r' : SlotRecord} (h : Replaces st st' r r')
    (step : StepId) (visit : Nat) (m : Handle) : st'.latest step visit m
      = (st.latest step visit m).map fun x => if x.slot = r.slot then r' else x := by
  refine latest_map h.slots_eq (fun x => ?_) step visit m
  split
  · rename_i hx
    rw [h.slot, hx]
  · rfl

/-- What the members' answers count is what each record's last state counts. -/
theorem Replaces.memberVerdicts {st st' : RunState} {r r' : SlotRecord}
    (h : Replaces st st' r r') (hord : Ordered st.ids)
    (hverdict : Emit.memberVerdict r' = Emit.memberVerdict r) (d : StepDef) (step : StepId)
    (visit : Nat) :
    Emit.memberVerdicts st' d step visit = Emit.memberVerdicts st d step visit := by
  unfold Emit.memberVerdicts
  congr 1
  funext m
  rw [h.latest_eq]
  cases hl : st.latest step visit m with
  | none => rfl
  | some x =>
    simp only [Option.map_some, Option.bind_some]
    split
    · rename_i hx
      rw [RunState.record_unique hord (RunState.latest_spec hord hl).1 h.mem hx, hverdict]
    · rfl

theorem Replaces.latest_replied {st st' : RunState} {r r' : SlotRecord}
    (h : Replaces st st' r r') (hord : Ordered st.ids)
    (hreplied : r'.state.isReplied = r.state.isReplied) (step : StepId) (visit : Nat)
    (m : Handle) : (∃ x, st'.latest step visit m = some x ∧ x.state.isReplied = true) ↔
      ∃ x, st.latest step visit m = some x ∧ x.state.isReplied = true := by
  rw [h.latest_eq]
  cases hl : st.latest step visit m with
  | none => simp
  | some x =>
    simp only [Option.map_some, Option.some.injEq, exists_eq_left']
    split
    · rename_i hx
      rw [RunState.record_unique hord (RunState.latest_spec hord hl).1 h.mem hx, hreplied]
    · rfl

theorem exists_seat_iff {st st' : RunState} (hids : st'.ids = st.ids)
    (seat : StepId × Nat × Handle) :
    (∃ r ∈ st'.slots, r.slot.seat = seat) ↔ ∃ r ∈ st.slots, r.slot.seat = seat := by
  have h : ∀ x : RunState, (∃ r ∈ x.slots, r.slot.seat = seat) ↔ ∃ s ∈ x.ids, s.seat = seat := by
    intro x
    constructor
    · rintro ⟨r, hr, hseat⟩
      exact ⟨r.slot, RunState.mem_ids.mpr ⟨r, hr, rfl⟩, hseat⟩
    · rintro ⟨s, hs, hseat⟩
      obtain ⟨r, hr, rfl⟩ := RunState.mem_ids.mp hs
      exact ⟨r, hr, hseat⟩
  rw [h, h, hids]

/-- What a run waits for hangs on its members' answers, its consolidator and its open ceilings. -/
theorem Here.congr {st st' : RunState} {d : StepDef} {v : Nat} (h : Here st d v)
    (hat : st'.At d v)
    (hverdicts : Emit.memberVerdicts st' d d.id v = Emit.memberVerdicts st d d.id v)
    (hsynth : (∃ r ∈ st'.slots, r.slot.seat = (d.id, v, SYNTH)) ↔
      ∃ r ∈ st.slots, r.slot.seat = (d.id, v, SYNTH))
    (hreplied : (∃ r, st'.latest d.id v SYNTH = some r ∧ r.state.isReplied = true) ↔
      ∃ r, st.latest d.id v SYNTH = some r ∧ r.state.isReplied = true)
    (hfinished : st'.finishedSteps = st.finishedSteps)
    (hceiling : ∀ step, st'.atCeiling step ↔ st.atCeiling step) : Here st' d v := by
  have hcomplete : (∃ replies, Complete st' d v replies) ↔ ∃ replies, Complete st d v replies := by
    constructor
    · rintro ⟨replies, hc⟩
      exact ⟨replies, hverdicts ▸ hc.verdicts, fun hs => hreplied.mp (hc.synthesis hs)⟩
    · rintro ⟨replies, hc⟩
      exact ⟨replies, hverdicts.trans hc.verdicts, fun hs => hreplied.mpr (hc.synthesis hs)⟩
  refine ⟨hat, ?_, ?_, ?_, ?_⟩
  · intro hs
    rw [hsynth, hverdicts]
    exact h.consolidator hs
  · unfold RunState.isFinishedStep
    rw [hfinished, hcomplete]
    exact h.finished
  · rw [hcomplete, hceiling]
    exact h.ceiling
  · intro step
    rw [hceiling, hcomplete]
    exact h.open' step

theorem atCeiling_congr {st st' : RunState} (hq : st'.questions = st.questions) (step : StepId) :
    st'.atCeiling step ↔ st.atCeiling step := by
  unfold RunState.atCeiling
  rw [hq]

theorem OpenCeilings.congr {st st' : RunState} (h : OpenCeilings st)
    (hq : st'.questions = st.questions) (hrun : st'.run = st.run)
    (hvisits : ∀ k, st'.visits.get k = st.visits.get k) (hpasses : st'.passes = st.passes) :
    OpenCeilings st' := by
  unfold OpenCeilings RunState.passOf
  simp only [hq, hrun, hvisits, hpasses]
  exact h

/-- The ledger hangs on what is written down, and on the consolidators' replies. -/
theorem Ledger.congr {st st' : RunState} (h : Ledger st) (hflow : st'.flow = st.flow)
    (hplain : SynthPlain st') (hfinished : st'.finishedSteps = st.finishedSteps)
    (hvisits : ∀ k, (st.visits.get k).getD 0 ≤ (st'.visits.get k).getD 0)
    (hq : st'.questions = st.questions) (hrun : st'.run = st.run) : Ledger st' where
  wf := hflow ▸ h.wf
  synthPlain := hplain
  finishedOnce := hfinished ▸ h.finishedOnce
  finishedBound f hf := le_trans (h.finishedBound f (hfinished ▸ hf)) (hvisits _)
  questionIds := hq ▸ h.questionIds
  ceilings := by
    rw [hq, hfinished, hrun, hflow]
    exact h.ceilings

theorem SlotRecord.GoesOn.of_replied {r : SlotRecord} (h : r.state.isReplied = true) :
    r.GoesOn := by
  unfold SlotRecord.GoesOn
  cases hs : r.state <;> first | trivial | (rw [hs] at h; cases h)

theorem SlotRecord.GoesOn.of_pending {r : SlotRecord} (h : r.state = .pending) : r.GoesOn := by
  unfold SlotRecord.GoesOn
  rw [h]
  trivial

/-- An end that is held or parked waits for its time or a person. -/
theorem SlotRecord.GoesOn.of_condition {r : SlotRecord} {cause : EndCause} {c : SlotCondition}
    (h : r.state = .ended cause) (hc : r.condition = some c) : r.GoesOn := by
  unfold SlotRecord.GoesOn
  rw [h, hc]
  rfl

/-- What a record's change must keep for the run to stay where it is. -/
structure SameVerdict (r r' : SlotRecord) : Prop where
  verdict : Emit.memberVerdict r' = Emit.memberVerdict r
  replied : r'.state.isReplied = r.state.isReplied
  escalated : r'.state.isEscalated = r.state.isEscalated

/-- One record changed: the run stays where it is, but for what its slot is about to lead to. -/
theorem Route.replacesBut {st st' : RunState} {r r' : SlotRecord} {but : Option Slot}
    (hroute : Route st but) (h : Coh st) (hrep : Replaces st st' r r') (hsame : SameVerdict r r')
    (hbut : but = none ∨ but = some r.slot) : Route st' (some r.slot) := by
  have hflow : st'.flow = st.flow := hrep.keeps RunState.flow fun _ => rfl
  have hquestions : st'.questions = st.questions := hrep.keeps RunState.questions fun _ => rfl
  have hfinished : st'.finishedSteps = st.finishedSteps :=
    hrep.keeps RunState.finishedSteps fun _ => rfl
  have hvisits : st'.visits = st.visits := hrep.keeps RunState.visits fun _ => rfl
  have hpasses : st'.passes = st.passes := hrep.keeps RunState.passes fun _ => rfl
  have hcurrent : st'.currentStep = st.currentStep := hrep.keeps RunState.currentStep fun _ => rfl
  have hrun : st'.run = st.run := hrep.keeps RunState.run fun _ => rfl
  have hmessage : st'.rootMessage = st.rootMessage := hrep.keeps RunState.rootMessage fun _ => rfl
  have hplain : SynthPlain st' := by
    refine hroute.synthPlain.replaces hrep fun hm => ?_
    rw [hsame.escalated]
    exact hroute.synthPlain r hrep.mem (by rw [← hrep.slot]; exact hm)
  -- A record of another slot was there before, and is not the one left out.
  have hother : ∀ x ∈ st'.slots, some x.slot ≠ some r.slot → x ∈ st.slots ∧ some x.slot ≠ but := by
    intro x hx hne
    rcases hrep.mem_iff.mp hx with rfl | ⟨hx, -⟩
    · exact absurd (congrArg some hrep.slot) hne
    · refine ⟨hx, ?_⟩
      rcases hbut with rfl | rfl
      · exact fun h => by cases h
      · exact hne
  refine ⟨hroute.toLedger.congr hflow hplain hfinished (fun k => by rw [hvisits]) hquestions hrun,
    ?_, ?_, ?_, ?_, ?_, ?_⟩
  · rw [hrep.phase_eq, hmessage]
    exact hroute.unopened
  · rw [hrep.phase_eq]
    intro hphase
    have hmem := hrep.mem
    rw [(hroute.idle hphase).1] at hmem
    cases hmem
  · intro tree hphase
    rw [hrep.phase_eq] at hphase
    obtain ⟨d, v, hhere⟩ := hroute.here tree hphase
    refine ⟨d, v, hhere.congr (hhere.at'.of_ids hflow hcurrent hvisits hrep.ids_eq)
      (hrep.memberVerdicts h.ordered hsame.verdict _ _ _) (exists_seat_iff hrep.ids_eq _)
      (hrep.latest_replied h.ordered hsame.replied _ _ _) hfinished
      (atCeiling_congr hquestions)⟩
  · rw [hrep.isOver_eq, hrep.ids_eq]
    intro hover x hx hne hlast
    obtain ⟨hx, hne⟩ := hother x hx hne
    exact hroute.ends hover x hx hne hlast
  · rw [hrep.isOver_eq, hrep.ids_eq, hquestions]
    intro hover x hx hne hlast hesc
    obtain ⟨hx, hne⟩ := hother x hx hne
    exact hroute.asks hover x hx hne hlast hesc
  · rw [hrep.isOver_eq]
    exact fun hover => (hroute.openCeilings hover).congr hquestions hrun (fun k => by rw [hvisits]) hpasses

/-- The slot left out is gone on with. -/
theorem Route.close {st : RunState} {r : SlotRecord} (hroute : Route st (some r.slot)) (h : Coh st)
    (hr : r ∈ st.slots)
    (hends : st.isOver = false → ¬ Later st.ids r.slot → r.GoesOn)
    (hasks : st.isOver = false → ¬ Later st.ids r.slot → r.state.isEscalated = true →
      ∃ q ∈ st.questions, q.answered = false ∧ ∃ m, q.asked = .escalation r.slot m) : Route st := by
  refine ⟨hroute.toLedger, hroute.unopened, hroute.idle, hroute.here, ?_, ?_, hroute.openCeilings⟩
  · intro hover x hx _ hlast
    by_cases hx' : x.slot = r.slot
    · rw [RunState.record_unique h.ordered hx hr hx'] at hlast ⊢
      exact hends hover hlast
    · exact hroute.ends hover x hx (fun heq => hx' (Option.some.inj heq)) hlast
  · intro hover x hx _ hlast
    by_cases hx' : x.slot = r.slot
    · rw [RunState.record_unique h.ordered hx hr hx'] at hlast ⊢
      exact hasks hover hlast
    · exact hroute.asks hover x hx (fun heq => hx' (Option.some.inj heq)) hlast

/-- **One record changed, and the run stays where it is.** -/
theorem Route.replaces {st st' : RunState} {r r' : SlotRecord} (hroute : Route st) (h : Coh st)
    (h' : Coh st') (hrep : Replaces st st' r r') (hsame : SameVerdict r r')
    (hends : st.isOver = false → ¬ Later st.ids r.slot → r'.GoesOn) : Route st' := by
  have hbut := hroute.replacesBut h hrep hsame (Or.inl rfl)
  rw [← hrep.slot] at hbut
  refine hbut.close h' hrep.mem_new ?_ ?_
  · rw [hrep.isOver_eq, hrep.ids_eq, hrep.slot]
    exact hends
  · rw [hrep.isOver_eq, hrep.ids_eq, hrep.slot, hsame.escalated,
      hrep.keeps RunState.questions fun _ => rfl]
    exact fun hover => hroute.asks hover r hrep.mem (fun h => by cases h)

/-- Starting the slots that wait keeps the run where it is. -/
theorem Route.arms {st st' : RunState} (hroute : Route st) (h : Coh st) (ha : Arms st st') :
    Route st' := by
  induction ha with
  | refl => exact hroute
  | start hr hp _ _ d _ ih =>
    refine ih (hroute.replaces h (h.startSlot hr hp d) (replaces_startSlot h.ordered hr hp d)
      ⟨?_, ?_, ?_⟩ fun _ _ => trivial) (h.startSlot hr hp d)
    · simp [Emit.memberVerdict, hp]
    · simp [SlotState.isReplied, hp]
    · simp [SlotState.isEscalated, hp]

/-! ## The next visit of a step -/

theorem mapM_none_of_mem {α β : Type} {f : α → Option β} {l : List α} {a : α} (ha : a ∈ l)
    (hfa : f a = none) : l.mapM f = none := by
  cases hl : l.mapM f with
  | none => rfl
  | some bs =>
    obtain ⟨b, -, hb⟩ := mapM_some_mem hl ha
    rw [hfa] at hb
    cases hb

theorem mapM_congr_of_mem {α β : Type} {f g : α → Option β} : ∀ {l : List α},
    (∀ a ∈ l, f a = g a) → l.mapM f = l.mapM g
  | [], _ => rfl
  | a :: l, h => by
    rw [List.mapM_cons, List.mapM_cons, h a List.mem_cons_self,
      mapM_congr_of_mem fun b hb => h b (List.mem_cons_of_mem _ hb)]

theorem memberVerdict_of_undone {r : SlotRecord} (h : r.state.isDone = false) :
    Emit.memberVerdict r = none := by
  cases hv : Emit.memberVerdict r with
  | none => rfl
  | some b =>
    rw [Emit.memberVerdict_some hv] at h
    cases h

theorem synth_notMem {f : FlowDef} (hwf : f.WF) {d : StepDef} (hd : d ∈ f.steps) :
    SYNTH ∉ d.members :=
  fun hm => absurd (hwf.membersOk d hd SYNTH hm) (by decide)

/-- A `step_started` in the words of the state it leaves. -/
structure Opened (mid st' : RunState) (step : StepId) (visit : Nat) (new : List SlotRecord) :
    Prop where
  eq : st' = { mid with
    phase := mid.phase.opened
    visits := mid.visits.insert step.text visit
    currentStep := some step
    pendingStart := none
    slots := mid.slots ++ new }
  isNew : ∀ n ∈ new, n.IsNew

theorem opened_of_stepStarted (mid : RunState) (step : StepId) (visit attempt : Nat)
    (members : List Handle) (now : Timestamp) : ∃ new,
      Opened mid (applyDecision mid (.stepStarted step visit attempt members) now) step visit new ∧
      new.map SlotRecord.slot = members.map fun m => ⟨step, visit, m, attempt⟩ := by
  obtain ⟨new, heq, hslots, hnew⟩ := applyStepStarted_eq mid step visit attempt members now
  exact ⟨new, ⟨heq, hnew⟩, hslots⟩

namespace Opened

variable {mid st' : RunState} {step : StepId} {visit : Nat} {new : List SlotRecord}

theorem slots (h : Opened mid st' step visit new) : st'.slots = mid.slots ++ new := by rw [h.eq]

theorem ids (h : Opened mid st' step visit new) :
    st'.ids = mid.ids ++ new.map SlotRecord.slot := by
  unfold RunState.ids
  rw [h.slots, List.map_append]

theorem isOver (h : Opened mid st' step visit new) (hover : mid.isOver = false) :
    st'.isOver = false := isOver_opened (by rw [h.eq]) hover

theorem running (h : Opened mid st' step visit new) (hover : mid.isOver = false) :
    ¬ (st'.phase = .created ∨ ∃ b, st'.phase = .queued b) := by
  rw [h.eq]
  unfold RunState.isOver RunState.isFinishing RunState.isFinished at hover
  cases hphase : mid.phase <;> simp_all [Phase.opened]

theorem get_visits (h : Opened mid st' step visit new) (k : Text) :
    st'.visits.get k = if k = step.text then some visit else mid.visits.get k := by
  rw [h.eq]
  exact KeyMap.get_insert _ _ _ _

/-- The ledger survives: what starts has replied to nothing, and a visit only counts up. -/
theorem ledger (h : Opened mid st' step visit new) (hledger : Ledger mid)
    (hvisit : (mid.visits.get step.text).getD 0 ≤ visit) : Ledger st' := by
  refine hledger.congr (by rw [h.eq]) ?_ (by rw [h.eq]) ?_ (by rw [h.eq]) (by rw [h.eq])
  · intro r hr hm
    rw [h.slots, List.mem_append] at hr
    rcases hr with hr | hr
    · exact hledger.synthPlain r hr hm
    · rw [(h.isNew r hr).1]
      rfl
  · intro k
    rw [h.get_visits]
    split
    · rename_i hk
      rw [hk]
      exact hvisit
    · exact le_refl _

/-- A seat's last attempt is an old one no new one supersedes, or new. -/
theorem last_old (h : Opened mid st' step visit new) {r : SlotRecord} (hr : r ∈ st'.slots)
    (hlast : ¬ Later st'.ids r.slot) :
    (r ∈ mid.slots ∧ ¬ Later mid.ids r.slot) ∨ (r ∈ new ∧ r.state = .pending) := by
  rw [h.slots, List.mem_append] at hr
  rcases hr with hr | hr
  · refine Or.inl ⟨hr, fun hl => hlast (hl.mono fun t ht => ?_)⟩
    rw [h.ids]
    exact List.mem_append_left _ ht
  · exact Or.inr ⟨hr, (h.isNew r hr).1⟩

theorem atCeiling_iff (h : Opened mid st' step visit new) (s : StepId) :
    st'.atCeiling s ↔ mid.atCeiling s := atCeiling_congr (by rw [h.eq]) s

end Opened

/-- **The next visit of a step puts the run there.** -/
theorem Route.opens {mid st' : RunState} {d : StepDef} {new : List SlotRecord}
    (hcoh : Coh mid) (h : Coh st') (hledger : Ledger mid) (hd : d ∈ mid.flow.steps)
    (hdone : mid.AllDone) (hover : mid.isOver = false) (hnone : ∀ step, ¬ mid.atCeiling step)
    (ho : Opened mid st' d.id ((mid.visits.get d.id.text).getD 0 + 1) new)
    (hnew : new.map SlotRecord.slot = d.members.map fun m =>
      ⟨d.id, (mid.visits.get d.id.text).getD 0 + 1, m, 1⟩) : Route st' := by
  have hslot : ∀ n ∈ new, ∃ m ∈ d.members,
      n.slot = ⟨d.id, (mid.visits.get d.id.text).getD 0 + 1, m, 1⟩ := by
    intro n hn
    have : n.slot ∈ new.map SlotRecord.slot := List.mem_map.mpr ⟨n, hn, rfl⟩
    rw [hnew] at this
    obtain ⟨m, hm, heq⟩ := List.mem_map.mp this
    exact ⟨m, hm, heq.symm⟩
  -- An older record of this step is of an earlier visit.
  have hold : ∀ r ∈ mid.slots, r.slot.step = d.id →
      r.slot.visit ≠ (mid.visits.get d.id.text).getD 0 + 1 := by
    intro r hr hstep hvisit
    have hb := hcoh.visitBound r.slot (RunState.mem_ids.mpr ⟨r, hr, rfl⟩)
    rw [hstep, hvisit] at hb
    omega
  have hseat : ∀ r ∈ st'.slots, ∀ m, r.slot.seat
      = (d.id, (mid.visits.get d.id.text).getD 0 + 1, m) → r ∈ new ∧ m ∈ d.members := by
    intro r hr m hs
    simp only [Slot.seat, Prod.mk.injEq] at hs
    rw [ho.slots, List.mem_append] at hr
    rcases hr with hr | hr
    · exact absurd hs.2.1 (hold r hr hs.1)
    · obtain ⟨m', hm', heq⟩ := hslot r hr
      refine ⟨hr, ?_⟩
      rw [heq] at hs
      exact hs.2.2 ▸ hm'
  have hat : st'.At d ((mid.visits.get d.id.text).getD 0 + 1) := by
    refine ⟨by rw [ho.eq]; exact hd, by rw [ho.eq], ?_, ?_, ?_⟩
    · rw [ho.get_visits, if_pos rfl]
    · intro m hm
      have : (⟨d.id, (mid.visits.get d.id.text).getD 0 + 1, m, 1⟩ : Slot)
          ∈ new.map SlotRecord.slot := by
        rw [hnew]
        exact List.mem_map.mpr ⟨m, hm, rfl⟩
      obtain ⟨n, hn, hns⟩ := List.mem_map.mp this
      exact ⟨n, by rw [ho.slots]; exact List.mem_append_right _ hn, by rw [hns]; rfl⟩
    · intro r hr hstep hvisit
      refine Or.inl (hseat r hr r.slot.member ?_).2
      simp only [Slot.seat, hstep, hvisit]
  have hverdicts : Emit.memberVerdicts st' d d.id ((mid.visits.get d.id.text).getD 0 + 1)
      = none := by
    obtain ⟨m, hm⟩ := List.exists_mem_of_ne_nil _ (hledger.wf.membersNe d hd)
    refine mapM_none_of_mem hm ?_
    cases hl : st'.latest d.id ((mid.visits.get d.id.text).getD 0 + 1) m with
    | none => rfl
    | some x =>
      obtain ⟨hx, hs, -⟩ := RunState.latest_spec h.ordered hl
      rw [Option.bind_some, Emit.memberVerdict, (ho.isNew x (hseat x hx m hs).1).1]
  have hincomplete : ¬ ∃ replies, Complete st' d
      ((mid.visits.get d.id.text).getD 0 + 1) replies := by
    rintro ⟨replies, hc⟩
    rw [hc.verdicts] at hverdicts
    cases hverdicts
  have hceiling : ∀ step, ¬ st'.atCeiling step := fun step hc =>
    hnone step ((ho.atCeiling_iff step).mp hc)
  have hunfinished : ¬ st'.isFinishedStep d.id ((mid.visits.get d.id.text).getD 0 + 1) := by
    rintro ⟨f, hf, hstep, hvisit⟩
    rw [ho.eq] at hf
    have := hledger.finishedBound f hf
    rw [hstep, hvisit] at this
    omega
  refine ⟨ho.ledger hledger (Nat.le_succ _), ?_, ?_, ?_, ?_, ?_, ?_⟩
  · exact fun hphase => absurd (Or.inl hphase) (ho.running hover)
  · exact fun hphase => absurd hphase (ho.running hover)
  · intro tree _
    refine ⟨d, _, hat, ?_, ?_, ?_, ?_⟩
    · intro _
      rw [hverdicts]
      constructor
      · rintro ⟨r, hr, hs⟩
        exact absurd (hseat r hr SYNTH hs).2 (synth_notMem hledger.wf hd)
      · exact fun h => by cases h
    · exact ⟨fun hf => absurd hf hunfinished, fun hc => absurd hc hincomplete⟩
    · exact fun hc => absurd hc hincomplete
    · exact fun step hc => absurd hc (hceiling step)
  · intro _ r hr _ hlast
    rcases ho.last_old hr hlast with ⟨hr, hlast⟩ | ⟨-, hp⟩
    · exact .of_replied (SlotState.isReplied_of_done (hdone r hr hlast))
    · exact .of_pending hp
  · intro _ r hr _ hlast hesc
    rcases ho.last_old hr hlast with ⟨hr, hlast⟩ | ⟨-, hp⟩
    · have := hdone r hr hlast
      cases hs : r.state with
      | replied m esc rew process overdue l =>
        rw [hs] at this hesc
        cases esc
        · cases hesc
        · cases this
      | _ => rw [hs] at this; cases this
    · rw [hp] at hesc
      cases hesc
  · intro _ q hq hopen step pass m hasked
    exact absurd ⟨q, hq, hopen, pass, m, hasked⟩ (hceiling step)

/-- A step begins, and its slots start. -/
theorem Route.begins {mid st' : RunState} {d : StepDef} {now : Timestamp} (hcoh : Coh mid)
    (hledger : Ledger mid) (hd : d ∈ mid.flow.steps) (hdone : mid.AllDone)
    (hover : mid.isOver = false) (hnone : ∀ step, ¬ mid.atCeiling step)
    (hb : Begins now mid d st') : Route st' := by
  obtain ⟨new, ho, hnew⟩ := opened_of_stepStarted mid d.id
    ((mid.visits.get d.id.text).getD 0 + 1) 1 d.members now
  have h := hcoh.newSeats d.id ((mid.visits.get d.id.text).getD 0 + 1)
    (hledger.wf.membersNodup d hd) (fun r hr m _ hseat => by
      have hbound := hcoh.visitBound r.slot (RunState.mem_ids.mpr ⟨r, hr, rfl⟩)
      simp only [Slot.seat, Prod.mk.injEq] at hseat
      rw [hseat.1, hseat.2.1] at hbound
      omega) (Nat.le_succ _) (fun r hr hl hnot => by
      rw [hdone r hr hl] at hnot
      cases hnot) hover now
  exact (Route.opens hcoh h hledger hd hdone hover hnone ho hnew).arms h hb.arms

/-! ## The next attempt of a seat, and the consolidator -/

namespace Opened

variable {mid st' : RunState} {step : StepId} {visit : Nat} {new : List SlotRecord}

/-- A seat nothing new sits in has its old last attempt. -/
theorem latest_old (h : Opened mid st' step visit new) {step' : StepId} {visit' : Nat} {m : Handle}
    (hfree : ∀ n ∈ new, n.slot.seat ≠ (step', visit', m)) :
    st'.latest step' visit' m = mid.latest step' visit' m := by
  unfold RunState.latest
  rw [h.slots, List.reverse_append, List.find?_append]
  have hnone : new.reverse.find? (fun r => r.slot.step == step' && r.slot.visit == visit' &&
      r.slot.member == m) = none := by
    rw [List.find?_eq_none]
    intro n hn heq
    refine hfree n (List.mem_reverse.mp hn) ?_
    simp only [Bool.and_eq_true, beq_iff_eq] at heq
    simp only [Slot.seat, heq.1.1, heq.1.2, heq.2]
  rw [hnone, Option.none_or]

/-- A seat something new sits in has a waiting last attempt. -/
theorem latest_new (h : Opened mid st' step visit new) (hcoh : Coh st') {step' : StepId}
    {visit' : Nat} {m : Handle} {n : SlotRecord} (hn : n ∈ new)
    (hseat : n.slot.seat = (step', visit', m)) (hlast : ¬ Later st'.ids n.slot) :
    st'.latest step' visit' m = some n ∧ n.state = .pending := by
  simp only [Slot.seat, Prod.mk.injEq] at hseat
  have hmem : n ∈ st'.slots := by
    rw [h.slots]
    exact List.mem_append_right _ hn
  have := RunState.latest_eq_some hcoh.ordered hmem hlast
  rw [hseat.1, hseat.2.1, hseat.2.2] at this
  exact ⟨this, (h.isNew n hn).1⟩

/-- **What starts at the visit the run is at leaves it there.** -/
theorem stays (h : Opened mid st' step visit new) {d : StepDef}
    (hvisit : mid.visits.get step.text = some visit) (hledger : Ledger mid)
    (hover : mid.isOver = false)
    (hends : ∀ r ∈ mid.slots, ¬ Later st'.ids r.slot → r.GoesOn)
    (hasks : ∀ r ∈ mid.slots, ¬ Later st'.ids r.slot → r.state.isEscalated = true →
      ∃ q ∈ mid.questions, q.answered = false ∧ ∃ m, q.asked = .escalation r.slot m)
    (hopen : OpenCeilings mid) (hhere : Here st' d visit) : Route st' := by
  refine ⟨h.ledger hledger (by rw [hvisit]; exact le_refl _), ?_, ?_, ?_, ?_, ?_, ?_⟩
  · exact fun hphase => absurd (Or.inl hphase) (h.running hover)
  · exact fun hphase => absurd hphase (h.running hover)
  · exact fun _ _ => ⟨d, visit, hhere⟩
  · intro _ r hr _ hlast
    rcases h.last_old hr hlast with ⟨hr, -⟩ | ⟨-, hp⟩
    · exact hends r hr hlast
    · exact .of_pending hp
  · intro _ r hr _ hlast hesc
    rcases h.last_old hr hlast with ⟨hr, -⟩ | ⟨-, hp⟩
    · rw [h.eq]
      exact hasks r hr hlast hesc
    · rw [hp] at hesc
      cases hesc
  · intro _
    refine hopen.congr (by rw [h.eq]) (by rw [h.eq]) (fun k => ?_) (by rw [h.eq])
    rw [h.get_visits]
    split
    · rename_i hk
      rw [hk, hvisit]
    · rfl

/-- The seats of the visit it is at, with new ones of the flow's own. -/
theorem at' (h : Opened mid st' step visit new) {d : StepDef} (hat : mid.At d visit)
    (hd : step = d.id) (hnew : ∀ n ∈ new, n.slot.member ∈ d.members ∨
      (n.slot.member = SYNTH ∧ d.hasSynthesis = true)) : st'.At d visit := by
  subst hd
  refine ⟨by rw [h.eq]; exact hat.step, by rw [h.eq], ?_, ?_, ?_⟩
  · rw [h.get_visits, if_pos rfl]
  · intro m hm
    obtain ⟨r, hr, hseat⟩ := hat.seats m hm
    exact ⟨r, by rw [h.slots]; exact List.mem_append_left _ hr, hseat⟩
  · intro r hr hstep hvisit
    rw [h.slots, List.mem_append] at hr
    rcases hr with hr | hr
    · exact hat.members r hr hstep hvisit
    · exact hnew r hr

end Opened

/-- A seat of the visit the run is at that is not done is not replied, if the consolidator's. -/
theorem not_replied_of_undone {r : SlotRecord} (hesc : r.state.isEscalated = false)
    (hdone : r.state.isDone = false) : r.state.isReplied = false := by
  cases hrep : r.state.isReplied with
  | false => rfl
  | true =>
    rw [SlotState.isDone_of_replied hrep hesc] at hdone
    cases hdone

/-- **The next attempt of a seat leaves the run where it is.** -/
theorem Route.restarts {mid st' : RunState} {r : SlotRecord} {now : Timestamp} (h : Coh mid)
    (hroute : Route mid (some r.slot)) (hr : r ∈ mid.slots) (hlast : ¬ Later mid.ids r.slot)
    (hdone : r.state.isDone = false) (hretired : r.state.isRetired = true)
    (hretry : mid.timer (.slot .holdRetry r.slot) = none)
    (hopen : ∀ q ∈ mid.questions, ∀ m, q.asked = .escalation r.slot m → q.answered = true)
    (hover : mid.isOver = false) (hre : Restarts now mid r.slot st') : Route st' := by
  obtain ⟨d, hhere, hstep⟩ := hroute.here_of_active h hover hr hlast hdone
  have hcoh := h.nextAttempt hr hlast hdone hretired hretry hopen hover now
  obtain ⟨new, ho, hnew⟩ := opened_of_stepStarted mid r.slot.step r.slot.visit
    (r.slot.attempt + 1) [r.slot.member] now
  obtain ⟨n, rfl, hn⟩ : ∃ n, new = [n] ∧
      n.slot = ⟨r.slot.step, r.slot.visit, r.slot.member, r.slot.attempt + 1⟩ := by
    obtain ⟨n, hn⟩ := List.length_eq_one_iff.mp (by simpa using congrArg List.length hnew)
    rw [hn] at hnew
    exact ⟨n, hn, by simpa using hnew⟩
  have hseat : n.slot.seat = r.slot.seat := by rw [hn]; rfl
  -- The old attempt is superseded by the new one, which is the seat's last.
  have hold : ∀ x ∈ mid.slots, ¬ Later (applyDecision mid (.stepStarted r.slot.step r.slot.visit
      (r.slot.attempt + 1) [r.slot.member]) now).ids x.slot → x.slot ≠ r.slot := by
    intro x _ hl heq
    refine hl ⟨n.slot, ?_, by rw [heq, hseat], by rw [heq, hn]; exact Nat.lt_succ_self _⟩
    rw [ho.ids]
    exact List.mem_append_right _ (by simp)
  have hnlast : ¬ Later (applyDecision mid (.stepStarted r.slot.step r.slot.visit
      (r.slot.attempt + 1) [r.slot.member]) now).ids n.slot := by
    rintro ⟨t, ht, hts, hlt⟩
    rw [ho.ids, List.mem_append] at ht
    rcases ht with ht | ht
    · refine hlast ⟨t, ht, hts.trans hseat, ?_⟩
      rw [hn] at hlt
      exact Nat.lt_of_succ_lt hlt
    · simp only [List.map_cons, List.map_nil, List.mem_singleton] at ht
      rw [ht] at hlt
      exact lt_irrefl _ hlt
  have hmember := hhere.at'.members r hr hstep rfl
  have hrseat : r.slot.seat = (d.id, r.slot.visit, r.slot.member) := by
    simp only [Slot.seat, hstep]
  have hlatest : mid.latest d.id r.slot.visit r.slot.member = some r := by
    have := RunState.latest_eq_some h.ordered hr hlast
    rwa [hstep] at this
  obtain ⟨hlatest', hpending⟩ := ho.latest_new hcoh (List.mem_singleton.mpr rfl)
    (hseat.trans hrseat) hnlast
  have hother : ∀ m, m ≠ r.slot.member → (applyDecision mid (.stepStarted r.slot.step
      r.slot.visit (r.slot.attempt + 1) [r.slot.member]) now).latest d.id r.slot.visit m
        = mid.latest d.id r.slot.visit m := by
    intro m hm
    refine ho.latest_old fun x hx => ?_
    rw [List.mem_singleton.mp hx, hseat, hrseat]
    simp only [ne_eq, Prod.mk.injEq, not_and]
    exact fun _ _ heq => hm heq.symm
  refine (ho.stays (h.active r hr hlast hdone).2 hroute.toLedger hover ?_ ?_
    (hroute.openCeilings hover) (hhere.congr (ho.at' hhere.at' hstep ?_) ?_ ?_ ?_ (by rw [ho.eq])
      ho.atCeiling_iff)).arms hcoh hre.arms
  · intro x hx hl
    refine hroute.ends hover x hx (fun heq => hold x hx hl (Option.some.inj heq)) fun hl' =>
      hl (hl'.mono fun t ht => ?_)
    rw [ho.ids]
    exact List.mem_append_left _ ht
  · intro x hx hl
    refine hroute.asks hover x hx (fun heq => hold x hx hl (Option.some.inj heq)) fun hl' =>
      hl (hl'.mono fun t ht => ?_)
    rw [ho.ids]
    exact List.mem_append_left _ ht
  · intro x hx
    rw [List.mem_singleton.mp hx, hn]
    exact hmember
  · by_cases hm : r.slot.member ∈ d.members
    · -- The seat counted nothing before, and counts nothing now.
      unfold Emit.memberVerdicts
      rw [mapM_none_of_mem hm, mapM_none_of_mem hm]
      · rw [hlatest, Option.bind_some]
        exact memberVerdict_of_undone hdone
      · rw [hlatest', Option.bind_some, Emit.memberVerdict, hpending]
    · unfold Emit.memberVerdicts
      refine mapM_congr_of_mem fun m hm' => ?_
      rw [hother m fun heq => hm (heq ▸ hm')]
  · constructor
    · rintro ⟨x, hx, hxs⟩
      rw [ho.slots, List.mem_append] at hx
      rcases hx with hx | hx
      · exact ⟨x, hx, hxs⟩
      · rw [List.mem_singleton.mp hx, hseat] at hxs
        exact ⟨r, hr, hxs⟩
    · rintro ⟨x, hx, hxs⟩
      exact ⟨x, by rw [ho.slots]; exact List.mem_append_left _ hx, hxs⟩
  · by_cases hm : r.slot.member = SYNTH
    · rw [← hm, hlatest', hlatest]
      simp only [Option.some.injEq, exists_eq_left', hpending]
      rw [not_replied_of_undone (hroute.synthPlain r hr hm) hdone]
      rfl
    · rw [hother SYNTH (fun heq => hm heq.symm)]

end NexusFlow.Run
