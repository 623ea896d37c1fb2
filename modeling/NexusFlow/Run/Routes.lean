import NexusFlow.Run.Firings

/-!
# Where a run goes on

The half of `decide` that leaves one slot behind (`route.rs`, and `restart_or_park` and `hold` of
`session.rs`), as relations between the state it starts from and the state it reaches: a
`step_started` with the slots it starts (`Starts`), the end of a step (`FinishesStep`), what a reply
leads to (`AfterReply`), what an end leads to (`AfterEnd`), what an answer leads to
(`AfterAnswer`). Every later invariant is proved by cases of these.
-/

namespace NexusFlow.Run

open NexusFlow.Lib

/-! ## The relations -/

/-- A `step_started`, and after it every waiting slot that may start. -/
structure Starts (now : Timestamp) (mid : RunState) (step : StepId) (visit attempt : Nat)
    (members : List Handle) (st' : RunState) : Prop where
  arms : Arms (applyDecision mid (.stepStarted step visit attempt members) now) st'
  waiting : Waiting st'

/-- The next visit of a step of the flow. -/
def Begins (now : Timestamp) (mid : RunState) (d : StepDef) (st' : RunState) : Prop :=
  Starts now mid d.id ((mid.visits.get d.id.text).getD 0 + 1) 1 d.members st'

/-- The next attempt of a seat. -/
def Restarts (now : Timestamp) (mid : RunState) (s : Slot) (st' : RunState) : Prop :=
  Starts now mid s.step s.visit (s.attempt + 1) [s.member] st'

/-- The outcome of a step that is done. -/
def StepOutcome.of (needsRework : Bool) : StepOutcome := if needsRework then .needsRework else .pass

/-- The state with a step's end recorded. -/
def RunState.finishStep (st : RunState) (step : StepId) (visit : Nat) (needsRework : Bool)
    (now : Timestamp) : RunState :=
  applyDecision st (.stepFinished step visit (.of needsRework)) now

/-- A back edge taken: the pass is counted, and the step it leads to begins. -/
def Reworks (now : Timestamp) (mid : RunState) (d : StepDef) (target : Text) (pass : Nat)
    (st' : RunState) : Prop :=
  ∃ d', mid.flow.step target = some d' ∧
    Begins now (applyDecision mid (.rework d.id target d.id pass) now) d' st'

/-- **The end of a step**: rework, the ceiling, the next step or the end of the run. -/
inductive FinishesStep (now : Timestamp) (mid : RunState) (d : StepDef) (visit : Nat) :
    Bool → RunState → Prop
  | rework {target : Text} {st' : RunState} (hedge : d.onNeedsRework = some target)
      (hle : mid.passOf d.id.text + 1 ≤ d.maxPasses)
      (h : Reworks now (mid.finishStep d.id visit true now) d target
        (mid.passOf d.id.text + 1) st') :
      FinishesStep now mid d visit true st'
  | ceiling {target : Text} {verdict : VerdictRef} (hedge : d.onNeedsRework = some target)
      (hgt : d.maxPasses < mid.passOf d.id.text + 1)
      (hverdict : mid.verdictOf d.id.text = some verdict) :
      FinishesStep now mid d visit true (applyDecision (mid.finishStep d.id visit true now)
        (.ceiling (Emit.ceilingKey mid.run d.id visit (mid.passOf d.id.text + 1)) d.id
          (mid.passOf d.id.text + 1) verdict.message) now)
  | next {needsRework : Bool} {next : Text} {d' : StepDef} {st' : RunState}
      (hpass : needsRework = true → d.onNeedsRework = none) (hnext : d.next = some next)
      (hd' : mid.flow.step next = some d')
      (h : Begins now (mid.finishStep d.id visit needsRework now) d' st') :
      FinishesStep now mid d visit needsRework st'
  | last {needsRework : Bool} (hpass : needsRework = true → d.onNeedsRework = none)
      (hnext : d.next = none) :
      FinishesStep now mid d visit needsRework
        ((mid.finishStep d.id visit needsRework now).finishing .delivered .delivered now)

/-- **What a reply leads to**, once it is recorded and its escalation asked. -/
inductive AfterReply (now : Timestamp) (mid : RunState) (s : Slot) : RunState → Prop
  | elsewhere (h : mid.currentStep ≠ some s.step ∨ mid.visits.get s.step.text ≠ some s.visit) :
      AfterReply now mid s mid
  | waits {d : StepDef} (hd : mid.flow.step s.step.text = some d)
      (hcur : mid.currentStep = some s.step ∧ mid.visits.get s.step.text = some s.visit)
      (h : Emit.memberVerdicts mid d s.step s.visit = none) : AfterReply now mid s mid
  | consolidates {d : StepDef} {replies : List Bool} {st' : RunState}
      (hd : mid.flow.step s.step.text = some d)
      (hcur : mid.currentStep = some s.step ∧ mid.visits.get s.step.text = some s.visit)
      (hall : Emit.memberVerdicts mid d s.step s.visit = some replies)
      (hsyn : d.hasSynthesis = true) (hnone : mid.latest s.step s.visit SYNTH = none)
      (h : Starts now mid s.step s.visit 1 [SYNTH] st') : AfterReply now mid s st'
  | waitsSynthesis {d : StepDef} {replies : List Bool} {r : SlotRecord}
      (hd : mid.flow.step s.step.text = some d)
      (hcur : mid.currentStep = some s.step ∧ mid.visits.get s.step.text = some s.visit)
      (hall : Emit.memberVerdicts mid d s.step s.visit = some replies)
      (hsyn : d.hasSynthesis = true) (hr : mid.latest s.step s.visit SYNTH = some r)
      (h : r.state.isReplied = false) : AfterReply now mid s mid
  | done {d : StepDef} {replies : List Bool} {st' : RunState}
      (hd : mid.flow.step s.step.text = some d)
      (hcur : mid.currentStep = some s.step ∧ mid.visits.get s.step.text = some s.visit)
      (hall : Emit.memberVerdicts mid d s.step s.visit = some replies)
      (hsyn : d.hasSynthesis = true →
        ∃ r, mid.latest s.step s.visit SYNTH = some r ∧ r.state.isReplied = true)
      (h : FinishesStep now mid d s.visit (replies.any id) st') : AfterReply now mid s st'

/-- **What an end leads to** in a run that goes on; `r` is the record after it. -/
inductive AfterEnd (now : Timestamp) (mid : RunState) (r : SlotRecord) (was : SlotState)
    (cause : EndCause) : RunState → Prop
  | isOver {st' : RunState} (hwas : was.isRetired = true) (harms : Arms mid st')
      (hwait : Waiting st') : AfterEnd now mid r was cause st'
  | restart {st' : RunState} (hwas : was.isRetired = false)
      (hordered : (∃ l reason, was = .stopping l (.restart reason)) ∨ isHold cause = false)
      (hbudget : r.restarts + 1 < mid.policy.maxAttempts) (h : Restarts now mid r.slot st') :
      AfterEnd now mid r was cause st'
  | park {st' : RunState} {reason : ReasonCode} {order : Nat} (hwas : was.isRetired = false)
      (hreason : reason ≠ .wouldNotStop)
      (h : Landed mid st' r { r with condition := some (.parked reason order now) } fun _ => false) :
      AfterEnd now mid r was cause st'
  | hold {st' : RunState} {reason : ReasonCode} {order : Nat} {«until» : Timestamp}
      {resetsAt : Option Timestamp} (hwas : was.isRetired = false) (hcause : isHold cause = true)
      (hlimit : resetsAt = none → r.holds < mid.policy.maxHolds)
      (hresets : ∀ t, cause = .usageLimit (some t) ↔ resetsAt = some t)
      (h : Landed mid st' r
        { r with
          holds := if resetsAt.isNone then r.holds + 1 else r.holds
          condition := some (.held reason «until» order) } fun _ => false)
      (hretry : st'.timer (.slot .holdRetry r.slot) = some ⟨«until», .holdRetry⟩) :
      AfterEnd now mid r was cause st'

/-! ## Coherence along the way -/

/-- Every seat's last attempt is done. -/
def RunState.AllDone (st : RunState) : Prop :=
  ∀ r ∈ st.slots, ¬ Later st.ids r.slot → r.state.isDone = true

theorem FlowDef.step_mem {f : FlowDef} {id : Text} {d : StepDef} (h : f.step id = some d) :
    d ∈ f.steps ∧ d.id.text = id :=
  ⟨List.mem_of_find?_eq_some h, by simpa using List.find?_some h⟩

theorem FlowDef.WF.step_eq {f : FlowDef} (hwf : f.WF) {d : StepDef} (hd : d ∈ f.steps) :
    f.step d.id.text = some d := by
  cases hs : f.step d.id.text with
  | none =>
    have := List.find?_eq_none.mp hs d hd
    simp at this
  | some d' =>
    obtain ⟨hd', hid⟩ := FlowDef.step_mem hs
    rw [List.inj_on_of_nodup_map hwf.idsNodup hd' hd (Name.ext' hid)]

/-- A change that neither records, timers, questions nor the place in the flow take part in. -/
theorem Coh.aside {st st' : RunState} (h : Coh st) (hrun : st'.run = st.run)
    (hslots : st'.slots = st.slots) (hvisits : st'.visits = st.visits)
    (hcurrent : st'.currentStep = st.currentStep) (hquestions : st'.questions = st.questions)
    (htimers : st'.timers = st.timers) (hover : st'.isOver = st.isOver) : Coh st' :=
  h.other hrun hslots hvisits hcurrent hquestions hover (htimers ▸ h.known)
    fun t _ => by unfold RunState.timer; rw [htimers]

/-- A question asked: an escalation names a last attempt that escalated. -/
theorem Coh.ask {st st' : RunState} (h : Coh st) {q : Question}
    (hst' : st' = { st with questions := st.questions ++ [q] })
    (hq : ∀ s m, q.asked = .escalation s m → q.id = escalatedKey st s ∧
      (∃ r ∈ st.slots, r.slot = s ∧ r.state.isEscalated = true) ∧
        (q.answered = false → ¬ Later st.ids s)) : Coh st' := by
  subst hst'
  refine ⟨h.ordered, h.visitBound, h.known, ?_, h.active, ?_⟩
  · exact fun r hr => (h.slots r hr).frame rfl rfl (fun _ => rfl) (fun _ => rfl)
  intro x hx s m hasked
  rcases List.mem_append.mp hx with hx | hx
  · exact h.asked x hx s m hasked
  · rw [List.mem_singleton.mp hx] at hasked ⊢
    exact hq s m hasked

section Emit

variable {before start : RunState} {now : Timestamp} (e : Emit before start now)

theorem starts_push {step : StepId} {visit attempt : Nat} {members : List Handle}
    (hcoh : Coh (applyDecision e.state (.stepStarted step visit attempt members) now)) :
    Starts now e.state step visit attempt members
        (e.push (.stepStarted step visit attempt members)).armReady.state ∧
      Coh (e.push (.stepStarted step visit attempt members)).armReady.state := by
  obtain ⟨harms, hwait⟩ := armReady_arms (e.push (.stepStarted step visit attempt members))
    hcoh.ordered
  exact ⟨⟨harms, hwait⟩, hcoh.arms harms⟩

/-- A seat restarts from an attempt that is over, asks nothing and has no retry armed. -/
theorem restart_restarts (h : Coh e.state) {r : SlotRecord} (hr : r ∈ e.state.slots)
    (hlast : ¬ Later e.state.ids r.slot) (hdone : r.state.isDone = false)
    (hretired : r.state.isRetired = true)
    (hretry : e.state.timer (.slot .holdRetry r.slot) = none)
    (hopen : ∀ q ∈ e.state.questions, ∀ m, q.asked = .escalation r.slot m → q.answered = true)
    (hover : e.state.isOver = false) :
    Restarts now e.state r.slot (e.restart r.slot).state ∧ Coh (e.restart r.slot).state :=
  starts_push e (h.nextAttempt hr hlast hdone hretired hretry hopen hover now)

/-- A step begins where everything before it is done. -/
theorem startStep_begins (h : Coh e.state) (hwf : e.state.flow.WF) (hdone : e.state.AllDone)
    (hover : e.state.isOver = false) {id : Text} {d : StepDef} (hd : e.state.flow.step id = some d) :
    Begins now e.state d (e.startStep id).state ∧ Coh (e.startStep id).state := by
  obtain ⟨hmem, hid⟩ := FlowDef.step_mem hd
  unfold Emit.startStep
  rw [hd]
  subst hid
  refine starts_push e (h.newSeats d.id _ (hwf.membersNodup d hmem) ?_ (Nat.le_succ _) ?_ hover now)
  · intro r hr m _ hseat
    have hbound := h.visitBound r.slot (RunState.mem_ids.mpr ⟨r, hr, rfl⟩)
    simp only [Slot.seat, Prod.mk.injEq] at hseat
    rw [hseat.1, hseat.2.1] at hbound
    omega
  · intro r hr hl hnot
    rw [hdone r hr hl] at hnot
    cases hnot

/-- A finished step's end recorded: nothing that coherence reads. -/
theorem Coh.finishStep {st : RunState} (h : Coh st) (step : StepId) (visit : Nat)
    (needsRework : Bool) (now : Timestamp) : Coh (st.finishStep step visit needsRework now) :=
  h.aside rfl rfl rfl rfl rfl rfl rfl

theorem Coh.rework {st : RunState} (h : Coh st) («from» : StepId) («to» : Text) (pass : Nat)
    (now : Timestamp) : Coh (applyDecision st (.rework «from» «to» «from» pass) now) :=
  h.aside rfl rfl rfl rfl rfl rfl rfl

theorem rework_reworks (h : Coh e.state) (hwf : e.state.flow.WF) (hdone : e.state.AllDone)
    (hover : e.state.isOver = false) {d : StepDef} (hd : d ∈ e.state.flow.steps) {target : Text}
    (hedge : d.onNeedsRework = some target) (pass : Nat) :
    Reworks now e.state d target pass (e.rework d.id target pass).state ∧
      Coh (e.rework d.id target pass).state := by
  obtain ⟨d', hd', hid⟩ := hwf.known d hd target (by simp [StepDef.references, hedge])
  have hstep : e.state.flow.step target = some d' := by
    rw [← hid]
    exact hwf.step_eq hd'
  obtain ⟨hbegins, hcoh⟩ := startStep_begins (e.push (.rework d.id target d.id pass))
    (h.rework d.id target pass now) hwf hdone hover hstep
  exact ⟨⟨d', hstep, hbegins⟩, hcoh⟩

/-- **What the end of a step leads to.** -/
theorem finishStep_finishes (h : Coh e.state) (hwf : e.state.flow.WF) (hdone : e.state.AllDone)
    (hover : e.state.isOver = false) {d : StepDef} (hd : d ∈ e.state.flow.steps) (visit : Nat)
    (needsRework : Bool) {verdict : VerdictRef}
    (hverdict : e.state.verdictOf d.id.text = some verdict) :
    FinishesStep now e.state d visit needsRework (e.finishStep d.id visit needsRework).state ∧
      Coh (e.finishStep d.id visit needsRework).state := by
  have hcoh := h.finishStep d.id visit needsRework now
  have hstep : (e.push (.stepFinished d.id visit (.of needsRework))).state.flow.step d.id.text
      = some d := hwf.step_eq hd
  have hgo : (needsRework = true → d.onNeedsRework = none) →
      (d.next = none → (e.finishStep d.id visit needsRework).state
        = ((e.push (.stepFinished d.id visit (.of needsRework))).finishRun .delivered
            .delivered).state) →
      (∀ next, d.next = some next → (e.finishStep d.id visit needsRework).state
        = ((e.push (.stepFinished d.id visit (.of needsRework))).startStep next).state) →
      FinishesStep now e.state d visit needsRework (e.finishStep d.id visit needsRework).state ∧
        Coh (e.finishStep d.id visit needsRework).state := by
    intro hpass hlast hmore
    cases hnext : d.next with
    | none =>
      rw [hlast hnext, state_finishRun]
      exact ⟨.last hpass hnext, hcoh.finish _ _ _⟩
    | some next =>
      rw [hmore next hnext]
      obtain ⟨d', hd', hid⟩ := hwf.known d hd next (by simp [StepDef.references, hnext])
      have hstep' : e.state.flow.step next = some d' := by
        rw [← hid]
        exact hwf.step_eq hd'
      obtain ⟨hbegins, hcoh'⟩ := startStep_begins
        (e.push (.stepFinished d.id visit (.of needsRework))) hcoh hwf hdone hover hstep'
      exact ⟨.next hpass hnext hstep' hbegins, hcoh'⟩
  cases hrew : needsRework with
  | false =>
    subst hrew
    refine hgo (fun h => by cases h) (fun hnext => ?_) (fun next hnext => ?_)
    all_goals
      unfold Emit.finishStep
      simp only [Bool.false_eq_true, if_false]
      rw [show (StepOutcome.pass) = .of false from rfl, hstep]
      simp only [hnext]
  | true =>
    subst hrew
    cases hedge : d.onNeedsRework with
    | none =>
      refine hgo (fun _ => hedge) (fun hnext => ?_) (fun next hnext => ?_)
      all_goals
        unfold Emit.finishStep
        simp only [if_true]
        rw [show (StepOutcome.needsRework) = .of true from rfl, hstep]
        simp only [hedge, hnext]
    | some target =>
      have heq : e.finishStep d.id visit true
          = if e.state.passOf d.id.text + 1 ≤ d.maxPasses then
              (e.push (.stepFinished d.id visit (.of true))).rework d.id target
                (e.state.passOf d.id.text + 1)
            else (e.push (.stepFinished d.id visit (.of true))).ceiling d.id visit
                (e.state.passOf d.id.text + 1) := by
        unfold Emit.finishStep
        simp only [if_true]
        rw [show (StepOutcome.needsRework) = .of true from rfl, hstep]
        simp only [hedge]
        rfl
      rw [heq]
      split
      · rename_i hle
        obtain ⟨hre, hcoh'⟩ := rework_reworks (e.push (.stepFinished d.id visit (.of true))) hcoh
          hwf hdone hover hd hedge (e.state.passOf d.id.text + 1)
        exact ⟨.rework hedge hle hre, hcoh'⟩
      · rename_i hgt
        have hverdict' : (e.push (.stepFinished d.id visit (.of true))).state.verdictOf d.id.text
            = some verdict := hverdict
        unfold Emit.ceiling
        rw [hverdict']
        refine ⟨.ceiling hedge (by omega) hverdict, hcoh.ask rfl ?_⟩
        intro s m hasked
        cases hasked

end Emit

/-! ## What a reply leads to -/

theorem mapM_some {α β : Type} {f : α → Option β} : ∀ {l : List α} {bs : List β},
    l.mapM f = some bs → List.Forall₂ (fun a b => f a = some b) l bs
  | [], bs, h => by
    rw [List.mapM_nil] at h
    cases h
    exact .nil
  | a :: l, bs, h => by
    rw [List.mapM_cons] at h
    obtain ⟨b, hb, h⟩ := Option.bind_eq_some_iff.mp h
    obtain ⟨cs, hcs, h⟩ := Option.bind_eq_some_iff.mp h
    cases h
    exact .cons hb (mapM_some hcs)

theorem mapM_none {α β : Type} {f : α → Option β} {l : List α} (h : l.mapM f = none) :
    ∃ a ∈ l, f a = none := by
  induction l with
  | nil => cases h
  | cons a l ih =>
    rw [List.mapM_cons] at h
    cases hfa : f a with
    | none => exact ⟨a, List.mem_cons_self, hfa⟩
    | some b =>
      cases hl : l.mapM f with
      | none =>
        obtain ⟨c, hc, hfc⟩ := ih hl
        exact ⟨c, List.mem_cons_of_mem _ hc, hfc⟩
      | some bs =>
        rw [hfa, hl] at h
        cases h

theorem Emit.memberVerdict_some {r : SlotRecord} {b : Bool} (h : Emit.memberVerdict r = some b) :
    r.state.isDone = true := by
  unfold Emit.memberVerdict at h
  cases hs : r.state with
  | replied m esc rew process overdue l =>
    cases esc <;> simp_all [SlotState.isDone]
  | _ => simp [hs] at h

theorem Emit.memberVerdict_none {r : SlotRecord} (h : Emit.memberVerdict r = none) :
    r.state.isDone = false := by
  unfold Emit.memberVerdict at h
  cases hs : r.state with
  | replied m esc rew process overdue l =>
    cases esc <;> simp_all [SlotState.isDone]
  | _ => simp [SlotState.isDone]

theorem mapM_some_mem {α β : Type} {f : α → Option β} {l : List α} {bs : List β}
    (h : l.mapM f = some bs) {a : α} (ha : a ∈ l) : ∃ b ∈ bs, f a = some b := by
  have hall := mapM_some h
  clear h
  induction hall with
  | nil => cases ha
  | cons hab _ ih =>
    rcases List.mem_cons.mp ha with rfl | ha
    · exact ⟨_, List.mem_cons_self, hab⟩
    · obtain ⟨b, hb, hfa⟩ := ih ha
      exact ⟨b, List.mem_cons_of_mem _ hb, hfa⟩

/-- With every verdict in, each member's last attempt is done. -/
theorem memberVerdicts_done {st : RunState} {d : StepDef} {step : StepId} {visit : Nat}
    {replies : List Bool} (h : Emit.memberVerdicts st d step visit = some replies) {m : Handle}
    (hm : m ∈ d.members) : ∃ r, st.latest step visit m = some r ∧ r.state.isDone = true := by
  obtain ⟨b, -, hb⟩ := mapM_some_mem h hm
  obtain ⟨r, hr, hverdict⟩ := Option.bind_eq_some_iff.mp hb
  exact ⟨r, hr, Emit.memberVerdict_some hverdict⟩

/-- Without, some member's last attempt is not. -/
theorem memberVerdicts_none {st : RunState} {d : StepDef} {step : StepId} {visit : Nat}
    (h : Emit.memberVerdicts st d step visit = none) :
    ∃ m ∈ d.members, ∀ r, st.latest step visit m = some r → r.state.isDone = false := by
  obtain ⟨m, hm, hnone⟩ := mapM_none h
  refine ⟨m, hm, fun r hr => ?_⟩
  rw [hr, Option.bind_some] at hnone
  exact Emit.memberVerdict_none hnone

/-- **Where a run is**: at visit `v` of the step `d`, whose members all have a seat. -/
structure RunState.At (st : RunState) (d : StepDef) (v : Nat) : Prop where
  step : d ∈ st.flow.steps
  current : st.currentStep = some d.id
  visit : st.visits.get d.id.text = some v
  seats : ∀ m ∈ d.members, ∃ r ∈ st.slots, r.slot.seat = (d.id, v, m)
  members : ∀ r ∈ st.slots, r.slot.step = d.id → r.slot.visit = v →
    r.slot.member ∈ d.members ∨ (r.slot.member = SYNTH ∧ d.hasSynthesis = true)

/-- Every answer of the visit is in: the members', and the consolidator's of a fan-out. -/
structure Complete (st : RunState) (d : StepDef) (v : Nat) (replies : List Bool) : Prop where
  verdicts : Emit.memberVerdicts st d d.id v = some replies
  synthesis : d.hasSynthesis = true →
    ∃ r, st.latest d.id v SYNTH = some r ∧ r.state.isReplied = true

/-- A consolidator's reply never escalates. -/
def SynthPlain (st : RunState) : Prop :=
  ∀ r ∈ st.slots, r.slot.member = SYNTH → r.state.isEscalated = false

theorem SlotState.isDone_of_replied {s : SlotState} (h : s.isReplied = true)
    (hesc : s.isEscalated = false) : s.isDone = true := by
  cases s with
  | replied m esc rew process overdue l =>
    cases esc
    · rfl
    · cases hesc
  | _ => cases h

theorem SlotState.isReplied_of_done {s : SlotState} (h : s.isDone = true) :
    s.isReplied = true := by
  cases s <;> first | rfl | cases h

/-- The last attempt of a seat at the current visit is of a member or of the consolidator. -/
theorem Complete.allDone {st : RunState} {d : StepDef} {v : Nat} {replies : List Bool} (h : Coh st)
    (hat : st.At d v) (hplain : SynthPlain st) (hc : Complete st d v replies) : st.AllDone := by
  intro r hr hlast
  by_contra hnot
  rw [Bool.not_eq_true] at hnot
  obtain ⟨hstep, hvisit⟩ := h.active r hr hlast hnot
  rw [hat.current, Option.some.injEq] at hstep
  rw [← hstep, hat.visit, Option.some.injEq] at hvisit
  have hlatest := RunState.latest_eq_some h.ordered hr hlast
  rw [← hstep, ← hvisit] at hlatest
  rcases hat.members r hr hstep.symm hvisit.symm with hm | ⟨hm, hsyn⟩
  · obtain ⟨x, hx, hdone⟩ := memberVerdicts_done hc.verdicts hm
    rw [hlatest, Option.some.injEq] at hx
    rw [← hx, hnot] at hdone
    cases hdone
  · obtain ⟨x, hx, hreplied⟩ := hc.synthesis hsyn
    rw [← hm, hlatest, Option.some.injEq] at hx
    rw [← hx] at hreplied
    rw [SlotState.isDone_of_replied hreplied (hplain r hr hm)] at hnot
    cases hnot

theorem verdictOf_isSome {st : RunState} {step : Text} {v : Nat}
    (hv : st.visits.get step = some v) {r : SlotRecord} (hr : r ∈ st.slots)
    (hstep : r.slot.step.text = step) (hvisit : r.slot.visit = v)
    (hreplied : r.state.isReplied = true)
    (hsyn : (st.flow.step step).any StepDef.isFanOut = true → r.slot.member = SYNTH) :
    ∃ verdict, st.verdictOf step = some verdict := by
  rw [← Option.isSome_iff_exists]
  unfold RunState.verdictOf
  rw [hv, Option.bind_some]
  simp only
  rw [List.findSome?_isSome_iff]
  refine ⟨r, List.mem_filter.mpr ⟨List.mem_reverse.mpr hr, ?_⟩, ?_⟩
  · simp only [hstep, hvisit, beq_self_eq_true, Bool.and_true, Bool.true_and, Bool.or_eq_true,
      Bool.not_eq_true', beq_iff_eq]
    cases hf : (st.flow.step step).any StepDef.isFanOut with
    | false => exact Or.inl rfl
    | true => exact Or.inr (hsyn hf)
  · cases hs : r.state <;> simp_all [SlotState.isReplied]

/-- A complete visit has a verdict. -/
theorem Complete.verdict {st : RunState} {d : StepDef} {v : Nat} {replies : List Bool} (h : Coh st)
    (hwf : st.flow.WF) (hat : st.At d v) (hc : Complete st d v replies) :
    ∃ verdict, st.verdictOf d.id.text = some verdict := by
  have hany : (st.flow.step d.id.text).any StepDef.isFanOut = d.hasSynthesis := by
    rw [hwf.step_eq hat.step, hwf.synthesis d hat.step]
    rfl
  cases hsyn : d.hasSynthesis with
  | true =>
    obtain ⟨r, hr, hreplied⟩ := hc.synthesis hsyn
    obtain ⟨hmem, hseat, -⟩ := RunState.latest_spec h.ordered hr
    simp only [Slot.seat, Prod.mk.injEq] at hseat
    exact verdictOf_isSome hat.visit hmem (by rw [hseat.1]) hseat.2.1 hreplied
      (fun _ => hseat.2.2)
  | false =>
    obtain ⟨m, hm⟩ := List.exists_mem_of_ne_nil _ (hwf.membersNe d hat.step)
    obtain ⟨r, hr, hdone⟩ := memberVerdicts_done hc.verdicts hm
    obtain ⟨hmem, hseat, -⟩ := RunState.latest_spec h.ordered hr
    simp only [Slot.seat, Prod.mk.injEq] at hseat
    refine verdictOf_isSome hat.visit hmem (by rw [hseat.1]) hseat.2.1
      (SlotState.isReplied_of_done hdone) ?_
    rw [hany, hsyn]
    exact fun h => by cases h

section Emit

variable {before start : RunState} {now : Timestamp} (e : Emit before start now)

/-- **What a reply of the current visit leads to.** -/
theorem afterReply_after (h : Coh e.state) (hwf : e.state.flow.WF) {d : StepDef} {s : Slot}
    (hat : e.state.At d s.visit) (hs : s.step = d.id) (hplain : SynthPlain e.state)
    (hover : e.state.isOver = false) :
    AfterReply now e.state s (e.afterReply s).state ∧ Coh (e.afterReply s).state := by
  have hd : e.state.flow.step s.step.text = some d := by
    rw [hs]
    exact hwf.step_eq hat.step
  have hcur : e.state.currentStep = some s.step ∧
      e.state.visits.get s.step.text = some s.visit := by
    rw [hs]
    exact ⟨hat.current, hat.visit⟩
  unfold Emit.afterReply
  rw [if_neg (by simp [hcur.1, hcur.2]), hd]
  simp only
  cases hall : Emit.memberVerdicts e.state d s.step s.visit with
  | none => exact ⟨.waits hd hcur hall, h⟩
  | some replies =>
    simp only
    have hdone : (d.hasSynthesis = true →
        ∃ r, e.state.latest s.step s.visit SYNTH = some r ∧ r.state.isReplied = true) →
        AfterReply now e.state s (e.finishStep s.step s.visit (replies.any id)).state ∧
          Coh (e.finishStep s.step s.visit (replies.any id)).state := by
      intro hsyn
      have hc : Complete e.state d s.visit replies := ⟨hs ▸ hall, hs ▸ hsyn⟩
      obtain ⟨verdict, hverdict⟩ := hc.verdict h hwf hat
      obtain ⟨hfin, hcoh⟩ := finishStep_finishes e h hwf (hc.allDone h hat hplain) hover hat.step
        s.visit (replies.any id) hverdict
      rw [hs]
      exact ⟨.done hd hcur hall hsyn hfin, hcoh⟩
    split
    · rename_i hsyn
      cases hlat : e.state.latest s.step s.visit SYNTH with
      | none =>
        simp only
        have hcoh := h.newSeats s.step s.visit (List.nodup_singleton SYNTH)
          (fun r hr m hm => by
            rw [List.mem_singleton.mp hm]
            exact RunState.latest_eq_none_iff.mp hlat r hr)
          (by rw [hcur.2]; exact le_refl _)
          (fun r hr hl hnot => by
            obtain ⟨hc, hv⟩ := h.active r hr hl hnot
            rw [hcur.1, Option.some.injEq] at hc
            rw [← hc, hcur.2, Option.some.injEq] at hv
            exact ⟨hc.symm, hv.symm⟩) hover now
        obtain ⟨hstarts, hcoh'⟩ := starts_push e hcoh
        exact ⟨.consolidates hd hcur hall hsyn hlat hstarts, hcoh'⟩
      | some r =>
        simp only
        split
        · rename_i hreplied
          exact hdone fun _ => ⟨r, hlat, hreplied⟩
        · rename_i hreplied
          exact ⟨.waitsSynthesis hd hcur hall hsyn hlat (by simpa using hreplied), h⟩
    · rename_i hsyn
      exact hdone fun hs => absurd hs hsyn

/-! ## What an end leads to -/

/-- An attempt that ended in a run that goes on, before `decide` goes on with it. -/
structure JustEnded (st : RunState) (r : SlotRecord) (cause : EndCause) : Prop where
  mem : r ∈ st.slots
  state : r.state = .ended cause
  condition : r.condition = none
  last : ¬ Later st.ids r.slot
  isOver : st.isOver = false

theorem JustEnded.timers {st : RunState} {r : SlotRecord} {cause : EndCause} (h : Coh st)
    (hj : JustEnded st r cause) : (∀ p, st.timer (.slot p r.slot) = none) ∧
      ∀ n, st.timer (.grace n r.slot) = none := by
  have hc := h.slots r hj.mem
  constructor
  · intro p
    cases ht : st.timer (.slot p r.slot) with
    | none => rfl
    | some a =>
      have := hc.may p (by rw [ht]; rfl)
      simp [SlotRecord.mayArm, hj.state, hj.condition] at this
  · intro n
    cases ht : st.timer (.grace n r.slot) with
    | none => rfl
    | some a =>
      have := hc.grace n (by rw [ht]; rfl)
      simp [hj.state, SlotState.ladder] at this

/-- An attempt that ended asked nothing. -/
theorem JustEnded.not_asked {st : RunState} {r : SlotRecord} {cause : EndCause} (h : Coh st)
    (hj : JustEnded st r cause) (q : Question) (hq : q ∈ st.questions) (m : MessageId)
    (hasked : q.asked = .escalation r.slot m) : q.answered = true := by
  obtain ⟨-, ⟨x, hx, hslot, hesc⟩, -⟩ := h.asked q hq r.slot m hasked
  rw [RunState.record_unique h.ordered hx hj.mem hslot, hj.state] at hesc
  cases hesc

theorem JustEnded.restarts {r : SlotRecord} {cause : EndCause} (h : Coh e.state)
    (hj : JustEnded e.state r cause) :
    Restarts now e.state r.slot (e.restart r.slot).state ∧ Coh (e.restart r.slot).state :=
  restart_restarts e h hj.mem hj.last (by rw [hj.state]; rfl) (by rw [hj.state]; rfl)
    ((hj.timers h).1 _) (hj.not_asked h) hj.isOver

theorem JustEnded.parks {r : SlotRecord} {cause : EndCause} (h : Coh e.state)
    (hj : JustEnded e.state r cause) {reason : ReasonCode} (hreason : reason ≠ .wouldNotStop) :
    Landed e.state (e.push (.parked (some r.slot) reason)).state r
      { r with condition := some (.parked reason (e.state.nextOrder + 1) now) } fun _ => false := by
  have hc := h.slots r hj.mem
  obtain ⟨hnone, hgrace⟩ := hj.timers h
  have hw : (SlotCondition.parked reason (e.state.nextOrder + 1) now).isWouldNotStop = false := by
    cases reason <;> first | rfl | exact absurd rfl hreason
  refine lands h ((Replaces.refl h.ordered hj.mem).parked h.ordered reason) ?_ (fun _ => false)
    ?_ ?_ (fun _ h => by cases h) ?_ (fun _ h => by cases h) (fun h => by cases h) ?_ (fun _ => rfl)
  · exact ⟨id, id, id, hc.alive, hc.named⟩
  · intro p
    rw [timer_parkSlot h.ordered, hnone]
    rfl
  · intro n
    rw [timer_parkSlot h.ordered, hgrace]
    rfl
  · simp [SlotRecord.mustArm, hj.state]
  · intro _ c hcond
    cases hcond
    rw [if_neg (by rw [hw]; exact Bool.false_ne_true)]
    exact ⟨cause, hj.state⟩

theorem JustEnded.holds {r : SlotRecord} {cause : EndCause} (h : Coh e.state)
    (hj : JustEnded e.state r cause) (reason : ReasonCode) («until» : Timestamp)
    (resetsAt : Option Timestamp) :
    Landed e.state ((e.push (.held r.slot reason «until» resetsAt)).setTimerAt
      (slotTimer .holdRetry r.slot) «until» .holdRetry).state r
      { r with
        holds := if resetsAt.isNone then r.holds + 1 else r.holds
        condition := some (.held reason «until» (e.state.nextOrder + 1)) } fun _ => false := by
  have hc := h.slots r hj.mem
  obtain ⟨hnone, hgrace⟩ := hj.timers h
  have hstate : ((e.push (.held r.slot reason «until» resetsAt)).setTimerAt
      (slotTimer .holdRetry r.slot) «until» .holdRetry).state
        = (e.push (.held r.slot reason «until» resetsAt)).state.arm (.slot .holdRetry r.slot)
          ⟨«until», .holdRetry⟩ := rfl
  rw [hstate]
  refine lands h (((Replaces.refl h.ordered hj.mem).held h.ordered reason «until» resetsAt).arm rfl
    ⟨rfl, by decide⟩) ?_ (fun p => p = .holdRetry) ?_ ?_ ?_ ?_ (fun _ h => by cases h)
    (fun _ => hj.last) ?_ ?_
  · exact ⟨id, id, id, hc.alive, hc.named⟩
  · intro p
    rw [RunState.timer_arm, timer_held h.ordered, hnone]
    by_cases hp : p = .holdRetry <;> simp [hp]
  · intro n
    rw [RunState.timer_arm, timer_held h.ordered, hgrace]
    rfl
  · intro p hp
    simpa [SlotRecord.mayArm, hj.state, SlotCondition.isHeld] using hp
  · simp [SlotRecord.mustArm, hj.state]
  · intro _ c hcond
    cases hcond
    exact ⟨cause, hj.state⟩
  · rw [hj.isOver]
    exact fun h => by cases h

/-- The reason a slot parks with when its restarts are spent. -/
theorem restartOrPark_after {r : SlotRecord} {was : SlotState} {cause : EndCause}
    (h : Coh e.state) (hwas : was.isRetired = false) (hj : JustEnded e.state r cause)
    {exhausted : ReasonCode} (hexhausted : exhausted ≠ .wouldNotStop)
    (hordered : (∃ l reason, was = .stopping l (.restart reason)) ∨ isHold cause = false) :
    AfterEnd now e.state r was cause (e.restartOrPark r exhausted).state ∧
      Coh (e.restartOrPark r exhausted).state := by
  unfold Emit.restartOrPark
  split
  · rename_i hbudget
    obtain ⟨hre, hcoh⟩ := hj.restarts e h
    exact ⟨.restart hwas hordered hbudget hre, hcoh⟩
  · have hpark : ∀ reason : ReasonCode, reason ≠ .wouldNotStop →
        AfterEnd now e.state r was cause (e.push (.parked (some r.slot) reason)).state ∧
          Coh (e.push (.parked (some r.slot) reason)).state := by
      intro reason hreason
      have hland := hj.parks e h hreason
      exact ⟨.park hwas hreason hland, hland.coh⟩
    refine hpark _ ?_
    split
    · exact fun h => by cases h
    · exact hexhausted

theorem hold_after {r : SlotRecord} {was : SlotState} {cause : EndCause}
    (h : Coh e.state) (hwas : was.isRetired = false) (hj : JustEnded e.state r cause)
    (hcause : isHold cause = true) (reason : ReasonCode) (resetsAt : Option Timestamp)
    (hresets : ∀ t, cause = .usageLimit (some t) ↔ resetsAt = some t) :
    AfterEnd now e.state r was cause (e.hold r reason resetsAt).state ∧
      Coh (e.hold r reason resetsAt).state := by
  unfold Emit.hold
  split
  · have hland := hj.parks e h (show ReasonCode.holdLimit ≠ .wouldNotStop by decide)
    exact ⟨.park hwas (by decide) hland, hland.coh⟩
  · rename_i hlimit
    have hland := hj.holds e h reason (Emit.holdUntil e.state.policy now resetsAt) resetsAt
    refine ⟨.hold hwas hcause ?_ hresets hland ?_, hland.coh⟩
    · rintro rfl
      by_contra hle
      exact hlimit ⟨rfl, by omega⟩
    · exact (RunState.timer_arm _ _ _).trans (if_pos rfl)

/-- **What an end leads to** in a run that goes on. -/
theorem afterEnd_after {r : SlotRecord} {was : SlotState} {cause : EndCause} (h : Coh e.state)
    (hfin : e.state.isFinishing = false) (hlive : was.isLive = true) (hnamed : was.isNamed = true)
    (hended : was.isRetired = false → JustEnded e.state r cause) :
    AfterEnd now e.state r was cause (e.afterEnd r was cause).state ∧
      Coh (e.afterEnd r was cause).state := by
  have harm : was.isRetired = true → AfterEnd now e.state r was cause e.armReady.state ∧
      Coh e.armReady.state := by
    intro hwas
    obtain ⟨harms, hwait⟩ := armReady_arms e h.ordered
    exact ⟨.isOver hwas harms hwait, h.arms harms⟩
  have hunordered : was.isWorking = true → AfterEnd now e.state r was cause
      (e.endedUnordered r cause).state ∧ Coh (e.endedUnordered r cause).state := by
    intro hw
    have hwas := SlotState.isWorking_retired hw
    have hj := hended hwas
    cases cause with
    | usageLimit resetsAt =>
      exact hold_after e h hwas hj rfl .usageLimit resetsAt (by simp)
    | providerUnavailable =>
      exact hold_after e h hwas hj rfl .providerUnavailable none (by simp)
    | permissionRefused rule program =>
      have hland := hj.parks e h (show ReasonCode.permissionRefused ≠ .wouldNotStop by decide)
      exact ⟨.park hwas (by decide) hland, hland.coh⟩
    | _ => exact restartOrPark_after e h hwas hj (by decide) (Or.inr rfl)
  unfold Emit.afterEnd
  rw [if_neg (by rw [hfin]; exact Bool.false_ne_true)]
  cases was with
  | pending => cases hlive
  | ended c => cases hlive
  | replied m esc rew process overdue l => exact harm rfl
  | stopping l after =>
    cases after with
    | nothing => exact harm rfl
    | restart reason =>
      refine restartOrPark_after e h rfl (hended rfl) ?_ (Or.inl ⟨l, reason, rfl⟩)
      rintro rfl
      cases hnamed
  | _ => exact hunordered rfl

end Emit

end NexusFlow.Run
