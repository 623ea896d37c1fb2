import NexusFlow.Run.Front

/-!
# Before the claim and after the end

Two facts about whole runs that the claim on a workspace rests on. Nothing runs before the claim:
a run that is `Running`, or has a record at all, has folded `claim_taken` (`Reaches.claimed`). Nothing
runs after the end: once a run is finishing and no session of it lives, no input but a `started` of
a session that had ended changes that (`AllOver.step`).
-/

namespace NexusFlow.Run

open NexusFlow.Lib

variable {st st' : RunState} {input : Event} {r r' : SlotRecord} {g : Nat → Bool}

/-! ## Before the claim -/

/-- The phase is `Running`. -/
def Phase.isRunning : Phase → Bool
  | .running _ => true
  | _ => false

/-- Nothing has run yet. -/
structure Unclaimed (st : RunState) : Prop where
  slots : st.slots = []
  questions : st.questions = []
  phase : st.phase.isRunning = false

theorem Unclaimed.noRecord (h : Unclaimed st) : r ∉ st.slots := by
  rw [h.slots]
  exact List.not_mem_nil

theorem Unclaimed.noQuestion (h : Unclaimed st) {q : Question} : q ∉ st.questions := by
  rw [h.questions]
  exact List.not_mem_nil

/-- Every input but `claim_taken` leaves a run unclaimed. -/
theorem Unclaimed.transition (h : Unclaimed st) (ht : Transition st input st') :
    input.body = .claimTaken ∨ Unclaimed st' := by
  cases ht with
  | run hm =>
    right
    cases hm with
    | commissioned _ _ => exact ⟨h.slots, h.questions, h.phase⟩
    | rootOpened _ _ _ => exact ⟨h.slots, h.questions, rfl⟩
    | rootOpenedLate _ _ _ => exact ⟨h.slots, h.questions, h.phase⟩
    | claimBusy _ _ => exact ⟨h.slots, h.questions, rfl⟩
    | released _ _ _ => exact ⟨h.slots, h.questions, rfl⟩
    | treeParked _ _ => exact ⟨h.slots, h.questions, rfl⟩
    | delivered _ _ _ => exact ⟨h.slots, h.questions, h.phase⟩
    | attended _ hsteady _ _ _ =>
      refine ⟨?_, ?_, ?_⟩
      · rw [steady_keeps hsteady RunState.slots fun _ => rfl]
        exact h.slots
      · rw [steady_keeps hsteady RunState.questions fun _ => rfl]
        exact h.questions
      · rw [steady_keeps hsteady RunState.phase fun _ => rfl]
        exact h.phase
  | claimed hb _ _ _ _ => exact Or.inl hb
  | prepared _ hphase _ _ =>
    have hnot := h.phase
    rw [hphase] at hnot
    cases hnot
  | slot _ hland _ => exact absurd hland.replaces.mem h.noRecord
  | ended _ _ hland _ _ _ => exact absurd hland.replaces.mem h.noRecord
  | replied _ _ _ _ hland _ _ _ => exact absurd hland.replaces.mem h.noRecord
  | resumed _ _ _ _ hland _ _ => exact absurd hland.replaces.mem h.noRecord
  | retried _ _ _ _ _ _ hland _ _ => exact absurd hland.replaces.mem h.noRecord
  | answered _ hq _ _ _ _ _ _ _ _ => exact absurd hq h.noQuestion
  | continued _ hq _ _ _ _ _ _ _ => exact absurd hq h.noQuestion
  | acceptedNext _ hq _ _ _ _ _ _ _ _ => exact absurd hq h.noQuestion
  | acceptedLast _ hq _ _ _ _ _ _ => exact absurd hq h.noQuestion
  | withdrawn _ _ _ =>
    right
    refine ⟨?_, h.questions, rfl⟩
    unfold RunState.finishing applyFinishing RunState.withdraw
    simp only [h.slots, List.map_nil]
  | forced _ _ _ =>
    right
    refine ⟨?_, h.questions, h.phase⟩
    unfold RunState.withdraw
    simp only [h.slots, List.map_nil]

/-- **Nothing runs before the claim.** -/
theorem Reaches.claimed {run : RunId} {flow : FlowDef} {log : List Entry} (hwf : flow.WF)
    (h : Reaches run flow log st) :
    (∃ e ∈ log, ∃ input, e.Accepts input ∧ input.body = .claimTaken) ∨ Unclaimed st := by
  refine Reaches.induct hwf (P := fun log st =>
    (∃ e ∈ log, ∃ input, e.Accepts input ∧ input.body = .claimTaken) ∨ Unclaimed st) ?_ ?_ ?_ ?_ h
  · exact Or.inr ⟨rfl, rfl, rfl⟩
  · intro _ _ _ _ _ hP _
    exact hP.imp_left fun ⟨e, he, hacc⟩ => ⟨e, List.mem_append_left _ he, hacc⟩
  · intro _ _ _ _ _ hP
    refine hP.imp (fun ⟨e, he, hacc⟩ => ⟨e, List.mem_append_left _ he, hacc⟩) fun hu => ?_
    exact ⟨hu.slots, hu.questions, hu.phase⟩
  · intro log st input st' _ _ _ hP hacc _ ht
    rcases hP with ⟨e, he, hacc⟩ | hu
    · exact Or.inl ⟨e, List.mem_append_left _ he, hacc⟩
    · rcases hu.transition ht with hb | hu'
      · exact Or.inl ⟨_, List.mem_append_right _ List.mem_cons_self, input, ⟨rfl, hacc⟩, hb⟩
      · exact Or.inr hu'

/-! ## After the end -/

/-- The run is over and no session of it lives. -/
structure AllOver (st : RunState) : Prop where
  isOver : st.isOver = true
  none : st.anyLive = false

/-- A session that had ended reports `started`. -/
def lateStart (st : RunState) (input : Event) : Bool :=
  match input.body with
  | .sessionFact key (.started _) =>
    (st.recordAt (st.find key)).any fun r => match r.state with
      | .ended _ => true
      | _ => false
  | _ => false

/-- **No input but a late `started` makes a session live** that was not. -/
theorem SlotMove.wakes (h : SlotMove st input r r' g) (hlive : r.state.isLive = false)
    (hlive' : r'.state.isLive = true) :
    ∃ cause id, r.state = .ended cause ∧
      input.body = .sessionFact (st.sessionKey r.slot) (.started id) := by
  have hnot : ∀ {s : SlotState}, r.state = s → s.isLive = true → False := by
    intro s hs hl
    rw [hs, hl] at hlive
    cases hlive
  have hworking : r.state.isWorking = true → False := by
    intro hw
    cases hs : r.state with
    | starting _ => exact hnot hs rfl
    | running _ _ => exact hnot hs rfl
    | quiet _ _ => exact hnot hs rfl
    | nudged _ _ => exact hnot hs rfl
    | _ => rw [hs] at hw; cases hw
  have hladder : ∀ {f : Ladder → Ladder}, (r.state.mapLadder f).isLive = true → False := by
    intro f hl
    rw [SlotState.mapLadder_live, hlive] at hl
    cases hl
  cases h with
  | startedEnded hb hs _ => exact ⟨_, _, hs, hb⟩
  | nudged _ hs => exact (hnot hs rfl).elim
  | signalled _ _ _ => exact (hladder hlive').elim
  | started _ hs => exact (hnot hs rfl).elim
  | startedStopping _ hs => exact (hnot hs rfl).elim
  | sign _ hsign hacc =>
    rcases sign_state hsign hacc (st.isSuperseded r) st.withdrawn input.now with
      hs | ⟨hw, -⟩
    · rw [hs, hlive] at hlive'
      cases hlive'
    · exact (hworking hw).elim
  | lingering _ hw => exact (hworking hw).elim
  | lingeringReplied _ _ hl => rw [hl] at hlive; cases hlive
  | lingeringStopping _ hs => exact (hnot hs rfl).elim
  | ended _ hl => rw [hl] at hlive; cases hlive
  | replied _ hw _ => exact (hworking hw).elim
  | resumed _ _ _ _ =>
    unfold SlotRecord.applyResume at hlive'
    split at hlive'
    · exact (hladder hlive').elim
    · rw [hlive] at hlive'
      cases hlive'
  | deferred _ _ _ _ _ => rw [hlive] at hlive'; cases hlive'
  | deferredStart _ hs => exact (hnot hs rfl).elim
  | startFailed _ hs => exact (hnot hs rfl).elim
  | quiet _ hs => exact (hnot hs rfl).elim
  | callBound _ _ => rw [hlive] at hlive'; cases hlive'
  | hung _ hs =>
    cases hst : r.state with
    | quiet _ _ => exact (hnot hst rfl).elim
    | nudged _ _ => exact (hnot hst rfl).elim
    | _ => rw [hst] at hs; cases hs
  | grace _ _ _ _ _ _ => exact (hladder hlive').elim
  | wouldNotStop _ _ _ _ _ => exact (hladder hlive').elim
  | windDown _ _ hl _ => rw [hl] at hlive; cases hlive
  | retry _ _ _ _ => rw [hlive] at hlive'; cases hlive'

theorem isOver_of_phase {a b : RunState} (h : a.phase = b.phase) : a.isOver = b.isOver := by
  unfold RunState.isOver RunState.isFinishing RunState.isFinished
  rw [h]

/-- A run that is over stays over. -/
theorem FrontMove.stays_over (h : FrontMove st input st') (hover : st.isOver = true) :
    st'.isOver = true := by
  have hsame : st'.phase = st.phase → st'.isOver = true := fun heq =>
    (isOver_of_phase heq).trans hover
  have hphase := hover
  unfold RunState.isOver RunState.isFinishing RunState.isFinished at hphase
  cases h with
  | same h => exact hsame h.phase
  | commissioned _ hp _ _ _ => exact hsame hp
  | opened _ hp _ _ _ _ _ => rw [hp] at hphase; cases hphase
  | busy _ hp _ _ _ _ _ => rw [hp] at hphase; cases hphase
  | claimed _ hp _ _ _ _ => rw [hp] at hphase; cases hphase
  | prepared hp _ _ _ _ _ => rw [hp] at hphase; cases hphase
  | attends hp _ => exact hsame hp
  | finishes hnot _ _ _ _ _ => rw [hnot] at hover; cases hover
  | isOver _ hover' _ _ _ _ => exact hover'

theorem anyLive_eq_false : st.anyLive = false ↔ ∀ r ∈ st.slots, r.state.isLive = false := by
  unfold RunState.anyLive
  rw [List.any_eq_false]
  exact forall₂_congr fun r _ => by simp

/-- A record put in another's place wakes nothing but by a late `started`. -/
theorem Landed.noneLive (hland : Landed st st' r r' g) (hmove : SlotMove st input r r' g)
    (hcoh : Coh st) (hnone : st.anyLive = false) (hlate : lateStart st input = false) :
    st'.anyLive = false := by
  rw [anyLive_eq_false] at hnone ⊢
  intro x hx
  rw [hland.replaces.slots_eq, RunState.mem_upd] at hx
  obtain ⟨y, hy, rfl⟩ := hx
  split_ifs with hslot
  · cases hlive : r'.state.isLive with
    | false => rfl
    | true =>
      obtain ⟨cause, id, hs, hb⟩ := hmove.wakes (hnone r hland.replaces.mem) hlive
      have hat : st.recordAt (st.find (st.sessionKey r.slot)) = some r :=
        (RunState.recordAt_find hcoh.ordered).mpr ⟨hland.replaces.mem, rfl⟩
      unfold lateStart at hlate
      rw [hb] at hlate
      simp only [hat, Option.any_some, hs] at hlate
      cases hlate
  · exact hnone y hy

/-- **Nothing runs after the end.** -/
theorem AllOver.step (h : AllOver st) (hinv : Inv st) (hlate : lateStart st input = false) :
    AllOver (Run.step st input) := by
  cases hi : ignoredReason st input with
  | some reason =>
    rw [step_of_ignored (by rw [hi]; rfl)]
    exact h
  | none =>
    have ht := (step_transition hinv.coh hinv.route hi).1
    have hopen := accepted_not_finished hi
    have hfin : st.isFinishing = true := by
      have := h.isOver
      unfold RunState.isOver at this
      rwa [hopen, Bool.or_false] at this
    have hfinishing : ∀ {p : Prop}, st.isFinishing = false → p := fun hno => by
      rw [hfin] at hno
      cases hno
    refine ⟨(ht.front hinv hi).stays_over h.isOver, ?_⟩
    generalize Run.step st input = st' at ht
    cases ht with
    | run hm =>
      cases hm with
      | attended _ hsteady _ _ _ =>
        rw [steady_keeps hsteady RunState.anyLive fun _ => rfl]
        exact h.none
      | _ => exact h.none
    | claimed _ hphase _ _ _ =>
      refine hfinishing ?_
      unfold RunState.isFinishing
      rw [hphase]
    | prepared _ hphase _ _ =>
      refine hfinishing ?_
      unfold RunState.isFinishing
      rw [hphase]
    | slot hmove hland _ => exact hland.noneLive hmove hinv.coh h.none hlate
    | ended _ hmove hland _ _ hend =>
      rw [if_pos hfin] at hend
      subst hend
      exact hland.noneLive hmove hinv.coh h.none hlate
    | replied _ _ hw _ hland _ _ _ =>
      have hnot := anyLive_eq_false.mp h.none _ hland.replaces.mem
      rw [(SlotState.isWorking_spec hw).2.2.2] at hnot
      cases hnot
    | resumed hb _ _ _ _ _ _ => simp [ignoredReason, hopen, hb, hfin] at hi
    | retried _ _ _ _ hover _ _ _ _ => rw [h.isOver] at hover; cases hover
    | answered _ _ _ _ _ _ _ hno _ _ => exact hfinishing hno
    | continued _ _ _ _ _ _ hno _ _ => exact hfinishing hno
    | acceptedNext _ _ _ _ _ _ _ hno _ _ => exact hfinishing hno
    | acceptedLast _ _ _ _ _ _ hno _ => exact hfinishing hno
    | withdrawn _ hno _ => exact hfinishing hno
    | forced _ _ _ =>
      have hnone := h.none
      rw [anyLive_eq_false] at hnone ⊢
      intro r hr
      obtain ⟨x, hx, rfl⟩ := List.mem_map.mp hr
      exact (SlotState.mapLadder_live _ _).trans (hnone x hx)

end NexusFlow.Run
