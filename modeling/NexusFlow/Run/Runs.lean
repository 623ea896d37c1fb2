import NexusFlow.Run.Invariant

/-!
# Histories

A run's log holds, for every item the host folded, the state the item met. `Reaches.induct` is the
rule every claim about whole runs is proved by: an accepted input makes a `Transition` between two
states that keep `Inv`; an ignored one and the host's own park leave the records alone.
`history` writes a run's log down from its items, for runs that are given.
-/

namespace NexusFlow.Run

open NexusFlow.Lib

/-! ## The run and its flow are fixed -/

/-- Which run it is, its flow, and what its commission said of it: no decision changes these, and no
input but the commission. -/
def RunState.given (st : RunState) : RunId × FlowDef × Bool × String :=
  (st.run, st.flow, st.commissioned, st.workspace)

theorem modifyRecord_given (st : RunState) (s : Slot) (f : SlotRecord → SlotRecord) :
    (st.modifyRecord s f).given = st.given := by
  unfold RunState.modifyRecord
  split <;> rfl

theorem applyDecision_given (st : RunState) (d : Decision) (now : Timestamp) :
    (applyDecision st d now).given = st.given := by
  cases d with
  | stepStarted step visit attempt members =>
    obtain ⟨new, heq, -, -⟩ := applyStepStarted_eq st step visit attempt members now
    rw [applyDecision, heq]
    rfl
  | timerSet timer fireAt purpose =>
    simp only [applyDecision]
    split
    · unfold armStart
      split
      · rfl
      · exact modifyRecord_given _ _ _
    · rfl
  | liveness slot reason since => exact modifyRecord_given _ _ _
  | held slot reason «until» resetsAt => exact modifyRecord_given (takeOrder st) _ _
  | parked slot reason =>
    cases slot with
    | some slot => exact modifyRecord_given (takeOrder st) _ _
    | none => rfl
  | _ => rfl

theorem foldDecisions_given (now : Timestamp) (ds : List Decision) : ∀ st : RunState,
    (foldDecisions st now ds).given = st.given := by
  induction ds with
  | nil => exact fun _ => rfl
  | cons d ds ih => exact fun st => (ih _).trans (applyDecision_given st d now)

theorem applyFiring_given (st : RunState) (timer : Text) (purpose : TimerPurpose)
    (now : Timestamp) : (applyFiring st timer purpose now).given = st.given := by
  cases purpose with
  | stopGrace =>
    simp only [applyFiring]
    split
    · rfl
    · exact modifyRecord_given _ _ _
  | windDown =>
    simp only [applyFiring]
    split
    · rfl
    · exact modifyRecord_given _ _ _
  | _ => rfl

theorem applyBody_given (st : RunState) {input : Event}
    (h : ∀ w f p t q, input.body ≠ .commissioned w f p t q) :
    (applyBody st input).given = st.given := by
  cases hb : input.body with
  | commissioned w f p t q => exact absurd hb (h w f p t q)
  | delivered message => simp only [applyBody, hb]; split <;> rfl
  | nudged key => simp only [applyBody, hb]; split <;> rfl
  | stopSignalled key nth signal => simp only [applyBody, hb]; split <;> rfl
  | sessionFact key f => simp only [applyBody, hb]; split <;> rfl
  | reply key m esc rew => simp only [applyBody, hb]; split <;> rfl
  | answer question disposition m =>
    simp only [applyBody, hb, applyAnswer]
    split <;> rfl
  | resume slot => simp only [applyBody, hb]; split <;> rfl
  | timerFired timer fireAt =>
    simp only [applyBody, hb]
    split
    · rfl
    · split
      · rfl
      · exact applyFiring_given _ _ _ _
  | _ => simp only [applyBody, hb, RunState.given]

theorem applyInput_given (st : RunState) {input : Event}
    (h : ∀ w f p t q, input.body ≠ .commissioned w f p t q) :
    (applyInput st input).given = st.given := by
  unfold applyInput
  split
  · rfl
  · exact applyBody_given st h

theorem RunState.fixed_of_given {st st' : RunState} (h : st'.given = st.given) :
    st'.run = st.run ∧ st'.flow = st.flow :=
  ⟨congrArg Prod.fst h, congrArg (fun g => g.2.1) h⟩

theorem applyInput_fixed (st : RunState) (input : Event) :
    (applyInput st input).run = st.run ∧ (applyInput st input).flow = st.flow := by
  by_cases h : ∃ w f p t q, input.body = .commissioned w f p t q
  · obtain ⟨w, f, p, t, q, hb⟩ := h
    unfold applyInput
    split
    · exact ⟨rfl, rfl⟩
    · simp only [applyBody, hb, and_self]
  · refine RunState.fixed_of_given (applyInput_given st ?_)
    intro w f p t q hb
    exact h ⟨w, f, p, t, q, hb⟩

theorem Item.apply_fixed (st : RunState) (item : Item) :
    (item.apply st).run = st.run ∧ (item.apply st).flow = st.flow := by
  cases item with
  | poison now => exact RunState.fixed_of_given (applyDecision_given st _ _)
  | input event =>
    obtain ⟨hrun, hflow⟩ := RunState.fixed_of_given
      (foldDecisions_given event.now (decide st event) (applyInput st event))
    obtain ⟨hrun', hflow'⟩ := applyInput_fixed st event
    exact ⟨hrun.trans hrun', hflow.trans hflow'⟩

/-- A run stays the run of its flow. -/
theorem Reaches.fixed {run : RunId} {flow : FlowDef} {log : List Entry} {st : RunState}
    (h : Reaches run flow log st) : st.run = run ∧ st.flow = flow := by
  induction h with
  | initial => exact ⟨rfl, rfl⟩
  | step _ item ih =>
    obtain ⟨hrun, hflow⟩ := Item.apply_fixed _ item
    exact ⟨hrun.trans ih.1, hflow.trans ih.2⟩

/-! ## Induction over a run -/

/-- The entry's item is this input, and the input was acted on. -/
def Entry.Accepts (e : Entry) (input : Event) : Prop :=
  e.item = .input input ∧ ignoredReason e.before input = none

/-- **The induction rule of a run.** -/
theorem Reaches.induct {run : RunId} {flow : FlowDef} (hwf : flow.WF)
    {P : List Entry → RunState → Prop} (hinitial : P [] (.initial run flow))
    (hignored : ∀ log st input, Reaches run flow log st → Inv st → P log st →
      (ignoredReason st input).isSome = true → P (log ++ [⟨st, .input input⟩]) st)
    (hpoison : ∀ log st now, Reaches run flow log st → Inv st → P log st →
      P (log ++ [⟨st, .poison now⟩]) ((Item.poison now).apply st))
    (hstep : ∀ log st input st', Reaches run flow log st → Inv st → Inv st' → P log st →
      ignoredReason st input = none → st' = NexusFlow.Run.step st input →
      Transition st input st' → P (log ++ [⟨st, .input input⟩]) st')
    {log : List Entry} {st : RunState} (h : Reaches run flow log st) : P log st := by
  induction h with
  | initial => exact hinitial
  | @step log st h item ih =>
    have hinv := h.inv hwf
    cases item with
    | poison now => exact hpoison _ _ now h hinv ih
    | input event =>
      cases hi : ignoredReason st event with
      | some reason =>
        have hsome : (ignoredReason st event).isSome = true := by rw [hi]; rfl
        rw [show (Item.input event).apply st = st from step_of_ignored hsome]
        exact hignored _ _ event h hinv ih hsome
      | none =>
        exact hstep _ _ event _ h hinv (hinv.step event) ih hi rfl
          (step_transition hinv.coh hinv.route hi).1

/-- The host's own park, in the words of the state it leaves. -/
theorem Item.apply_poison (st : RunState) (now : Timestamp) : (Item.poison now).apply st
    = { st with
        nextOrder := st.nextOrder + 1
        condition := some ⟨.poisonInput, st.nextOrder + 1, now⟩ } := rfl

/-! ## What starting slots leaves alone -/

theorem Arms.keeps {st st' : RunState} {α : Type} (g : RunState → α)
    (hg : ∀ (x : RunState) s d, g (x.startSlot s d) = g x) (h : Arms st st') : g st' = g st := by
  induction h with
  | refl => rfl
  | start _ _ _ _ d _ ih => exact ih.trans (hg _ _ d)

theorem Starts.phase {now : Timestamp} {mid st' : RunState} {step : StepId} {visit attempt : Nat}
    {members : List Handle} (h : Starts now mid step visit attempt members st') :
    st'.phase = mid.phase.opened := by
  obtain ⟨new, ho, -⟩ := opened_of_stepStarted mid step visit attempt members now
  rw [h.arms.keeps RunState.phase fun _ _ _ => rfl, ho.eq]

theorem Starts.isOver {now : Timestamp} {mid st' : RunState} {step : StepId} {visit attempt : Nat}
    {members : List Handle} (h : Starts now mid step visit attempt members st')
    (hover : mid.isOver = false) : st'.isOver = false := isOver_opened h.phase hover

theorem Arms.keeps_ids {st st' : RunState} (h : Arms st st') : st'.ids = st.ids := by
  refine h.keeps RunState.ids fun x s d => ?_
  exact RunState.ids_upd fun r => r.armStart_slot d

theorem Starts.ids_mono {now : Timestamp} {mid st' : RunState} {step : StepId}
    {visit attempt : Nat} {members : List Handle} (h : Starts now mid step visit attempt members st')
    {s : Slot} (hs : s ∈ mid.ids) : s ∈ st'.ids := by
  obtain ⟨new, ho, -⟩ := opened_of_stepStarted mid step visit attempt members now
  rw [h.arms.keeps_ids, ho.ids]
  exact List.mem_append_left _ hs

theorem RunState.ids_finishing (st : RunState) (o : Outcome) (reason : ReasonCode)
    (now : Timestamp) : (st.finishing o reason now).ids = st.ids :=
  ids_applyFinishing st o (some reason) now

/-- **No record is ever dropped.** -/
theorem Transition.ids_mono {st st' : RunState} {input : Event} (ht : Transition st input st')
    {s : Slot} (hs : s ∈ st.ids) : s ∈ st'.ids := by
  cases ht with
  | run hm =>
    cases hm with
    | attended _ hsteady _ _ _ =>
      rw [steady_keeps hsteady RunState.ids fun _ => rfl]
      exact hs
    | _ => exact hs
  | claimed _ _ _ hb _ => exact hb.ids_mono hs
  | prepared _ _ harms _ =>
    rw [harms.keeps_ids]
    exact hs
  | slot _ hland _ =>
    rw [hland.replaces.ids_eq]
    exact hs
  | @ended r g cause mid st' hb hmove hland hlive hj hafter =>
    rw [← hland.replaces.ids_eq] at hs
    split at hafter
    · exact hafter ▸ hs
    · cases hafter with
      | isOver _ harms _ =>
        rw [harms.keeps_ids]
        exact hs
      | restart _ _ _ hre => exact hre.ids_mono hs
      | park _ _ hp =>
        rw [hp.replaces.ids_eq]
        exact hs
      | hold _ _ _ _ hp _ =>
        rw [hp.replaces.ids_eq]
        exact hs
  | @replied r r' g m esc rew mid asked st' hb hr' hwork hmove hland hasked hcoh hafter =>
    have hs' : s ∈ asked.ids := by
      rw [← hland.replaces.ids_eq] at hs
      rw [hasked]
      split <;> exact hs
    cases hafter with
    | elsewhere _ => exact hs'
    | waits _ _ _ => exact hs'
    | consolidates _ _ _ _ _ h => exact h.ids_mono hs'
    | waitsSynthesis _ _ _ _ _ _ => exact hs'
    | @done _ replies _ _ _ _ _ hf =>
      generalize replies.any id = needsRework at hf
      cases hf with
      | rework _ _ hre =>
        obtain ⟨d', -, h⟩ := hre
        exact h.ids_mono hs'
      | ceiling _ _ _ => exact hs'
      | next _ _ _ h => exact h.ids_mono hs'
      | last _ _ =>
        rw [RunState.ids_finishing]
        exact hs'
  | resumed _ _ _ _ hland _ hre => exact hre.ids_mono (hland.replaces.ids_eq ▸ hs)
  | retried _ _ _ _ _ _ hland _ hre => exact hre.ids_mono (hland.replaces.ids_eq ▸ hs)
  | answered _ _ _ _ _ _ _ _ _ hre => exact hre.ids_mono hs
  | continued _ _ _ _ _ _ _ _ hre =>
    obtain ⟨d', -, h⟩ := hre
    exact h.ids_mono hs
  | acceptedNext _ _ _ _ _ _ _ _ _ h => exact h.ids_mono hs
  | acceptedLast _ _ _ _ _ _ _ _ =>
    rw [RunState.ids_finishing]
    exact hs
  | withdrawn _ _ _ =>
    rw [RunState.ids_finishing, ids_withdraw]
    exact hs
  | forced _ _ _ =>
    rw [ids_withdraw]
    exact hs

/-! ## Given runs -/

/-- The log of a run from its items. -/
def history (st : RunState) : List Item → List Entry
  | [] => []
  | item :: items => ⟨st, item⟩ :: history (item.apply st) items

/-- The state a run reaches from its items. -/
def replay (st : RunState) (items : List Item) : RunState := items.foldl (fun st i => i.apply st) st

theorem reaches_append {run : RunId} {flow : FlowDef} (items : List Item) :
    ∀ {log : List Entry} {st : RunState}, Reaches run flow log st →
      Reaches run flow (log ++ history st items) (replay st items) := by
  induction items with
  | nil =>
    intro log st h
    rw [history, List.append_nil]
    exact h
  | cons item items ih =>
    intro log st h
    have := ih (h.step item)
    rwa [List.append_assoc] at this

theorem reaches_history (run : RunId) (flow : FlowDef) (items : List Item) :
    Reaches run flow (history (.initial run flow) items) (replay (.initial run flow) items) :=
  reaches_append items .initial

theorem history_items (items : List Item) : ∀ st : RunState,
    (history st items).map Entry.item = items := by
  induction items with
  | nil => exact fun _ => rfl
  | cons item items ih =>
    intro st
    rw [history, List.map_cons, ih]

/-- A flow of one step, `a`, that the persona `w` works on. -/
def soloDecl : ChannelDecl where
  name := ['f']
  steps := [{ id := ['a'], target := ['w'] }]
  workingTree := .exclusive

/-- The review channel it does not use. -/
def soloReview : ChannelDecl where
  name := ['r']

/-- What `compile` makes of it. -/
def soloFlow : FlowDef where
  name := ['f']
  steps := [{
    id := ⟨['a'], by decide⟩
    kind := .single ⟨['w'], by decide⟩
    next := none
    onNeedsRework := none
    maxPasses := 1
    input := none
    resume := false
    task := none
    stage := none
    channel := ['f']
    opener := SUPERVISOR }]
  ignoredTimeouts := []

theorem compile_solo : compile soloDecl soloReview = .ok soloFlow := rfl

/-- The slot of its `n`th attempt. -/
def soloSlot (n : Nat) : Slot := ⟨⟨['a'], by decide⟩, 1, ⟨['w'], by decide⟩, n⟩

/-- The session of that attempt in the run `r`. -/
def soloKey (n : Nat) : SessionKey := (soloSlot n).sessionKey ['r']

/-- An input at an instant. -/
def inputAt (now : Timestamp) (body : EventBody) : Item := .input ⟨0, now, [], body⟩

/-- The solo flow's run up to its first session. -/
def soloStart : List Item := [
  inputAt 0 (.commissioned "" "" .default "" ""),
  inputAt 0 (.rootOpened "" ""),
  inputAt 0 .claimTaken,
  inputAt 0 (.treePrepared ⟨"", ""⟩ none)]

/-- The log of a run of the solo flow. -/
def soloLog (items : List Item) : List Entry := history (.initial ['r'] soloFlow) items

/-- The state it reaches. -/
def soloState (items : List Item) : RunState := replay (.initial ['r'] soloFlow) items

/-- An input that was accepted is one of the items. -/
theorem accepts_solo {items : List Item} {e : Entry} (he : e ∈ soloLog items) {input : Event}
    (hacc : e.Accepts input) : .input input ∈ items := by
  have := List.mem_map_of_mem (f := Entry.item) he
  rwa [soloLog, history_items, hacc.1] at this

theorem reaches_solo (items : List Item) :
    Reaches ['r'] soloFlow (soloLog items) (soloState items) := reaches_history _ _ items

end NexusFlow.Run
