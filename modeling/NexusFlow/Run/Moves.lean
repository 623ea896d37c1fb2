import NexusFlow.Run.Places

/-!
# What a session's inputs leave alone

The facts about a `SlotMove` that hang on no other record: what it keeps of the record
(`SlotMove.plan`), that only a reply changes what the step counts (`SlotMove.same`), that the run has
something to go on from (`SlotMove.goesOn`) and that only an end ends a session (`SlotMove.live`).
-/

namespace NexusFlow.Run

open NexusFlow.Lib

/-! ## The record's plan -/

/-- A record without what the inputs of its session change: which attempt it is, what it was handed
and what it may spend. -/
def SlotRecord.plan (r : SlotRecord) : SlotRecord :=
  { r with
    state := .pending
    condition := none
    fresh := false
    blind := false
    sampling := false
    backendSession := none
    lastFact := none
    pids := []
    refused := none }

/-- What reads only the plan of a record reads the same. -/
theorem plan_keeps {r r' : SlotRecord} (h : r'.plan = r.plan) {α : Type} (g : SlotRecord → α)
    (hg : ∀ x : SlotRecord, g x.plan = g x) : g r' = g r := by
  rw [← hg r', h, hg]

theorem SlotRecord.revive_plan (r : SlotRecord) : r.revive.plan = r.plan := by
  unfold SlotRecord.revive
  split <;> rfl

theorem SlotRecord.setOpenCall_plan (r : SlotRecord) (value : Option Timestamp) :
    (r.setOpenCall value).plan = r.plan := by
  unfold SlotRecord.setOpenCall
  split <;> rfl

theorem SlotRecord.beat_plan (r : SlotRecord) (now : Timestamp) (k : HeartbeatKind) :
    (r.beat now k).plan = r.plan := by
  cases k with
  | callsOpen => exact r.setOpenCall_plan _
  | callsClosed => exact r.setOpenCall_plan _
  | _ => rfl

theorem SlotRecord.startReplyStop_plan (r : SlotRecord) (now : Timestamp) (forced : Bool) :
    (r.startReplyStop now forced).plan = r.plan := by
  unfold SlotRecord.startReplyStop
  split <;> rfl

theorem SlotRecord.applyFact_plan (r : SlotRecord) (superseded forced : Bool) (now : Timestamp)
    (f : SessionFact) : (r.applyFact superseded forced now f).plan = r.plan := by
  cases f with
  | heartbeat k => exact (beat_plan _ _ _).trans (revive_plan _)
  | usage => exact revive_plan _
  | permissionRefused rule program => exact revive_plan _
  | groupLingering pids => exact startReplyStop_plan _ _ _
  | _ => rfl

theorem SlotRecord.applyResume_plan (r : SlotRecord) : r.applyResume.plan = r.plan := by
  unfold SlotRecord.applyResume
  split <;> rfl

/-- **No input of a session changes its record's plan.** -/
theorem SlotMove.plan {st : RunState} {input : Event} {r r' : SlotRecord} {g : Nat → Bool}
    (h : SlotMove st input r r' g) : r'.plan = r.plan := by
  cases h with
  | sign _ _ _ => exact SlotRecord.applyFact_plan _ _ _ _ _
  | lingeringReplied _ _ _ => exact SlotRecord.startReplyStop_plan _ _ _
  | windDown _ _ _ _ => exact SlotRecord.startReplyStop_plan _ _ _
  | resumed _ _ _ _ => exact SlotRecord.applyResume_plan _
  | _ => rfl

/-! ## Signs of life -/

theorem SlotRecord.revive_state_cases (r : SlotRecord) : r.revive.state = r.state ∨
    (Emit.wasQuiet r.state = true ∧ ∃ session openCall, r.revive.state = .running session openCall) := by
  cases hq : Emit.wasQuiet r.state with
  | false => exact Or.inl (by rw [SlotRecord.revive_of_not_quiet hq])
  | true => exact Or.inr ⟨rfl, SlotRecord.revive_state hq⟩

/-- A sign of life leaves a session as it is, or a session at work running. -/
theorem sign_state {st : RunState} {r : SlotRecord} {f : SessionFact} (hsign : f.isSign = true)
    (hacc : factIgnored st r f = none) (superseded forced : Bool) (now : Timestamp) :
    (r.applyFact superseded forced now f).state = r.state ∨
      (r.state.isWorking = true ∧
        ∃ session openCall, (r.applyFact superseded forced now f).state = .running session openCall) := by
  have hrevive : ∀ r₀ : SlotRecord, r₀.state = r.state → r₀.revive.state = r.state ∨
      (r.state.isWorking = true ∧ ∃ session openCall,
        r₀.revive.state = .running session openCall) := by
    intro r₀ h₀
    rcases r₀.revive_state_cases with h | ⟨hq, h⟩
    · exact Or.inl (h.trans h₀)
    · refine Or.inr ⟨?_, h⟩
      rw [h₀] at hq
      cases hs : r.state <;> rw [hs] at hq <;> first | rfl | cases hq
  cases f with
  | usage => exact hrevive _ rfl
  | permissionRefused rule program => exact hrevive _ rfl
  | heartbeat k =>
    right
    have hacc' := outOfState_none hacc
    have hrun : ∀ r₀ : SlotRecord, r₀.state = r.state → r.state.isWorking = true ∧
        ∃ session openCall, r₀.revive.state = .running session openCall := by
      intro r₀ h₀
      cases hs : r.state with
      | running session openCall =>
        refine ⟨rfl, session, openCall, ?_⟩
        rw [SlotRecord.revive_of_not_quiet (by rw [h₀, hs]; rfl), h₀, hs]
      | quiet since openCall => exact ⟨rfl, SlotRecord.revive_state (by rw [h₀, hs]; rfl)⟩
      | nudged since openCall => exact ⟨rfl, SlotRecord.revive_state (by rw [h₀, hs]; rfl)⟩
      | _ => rw [hs] at hacc'; cases hacc'
    obtain ⟨hw, session, openCall, hs⟩ := hrun { r with lastFact := some now } rfl
    obtain ⟨openCall', hs', -⟩ := SlotRecord.beat_running hs now k
    exact ⟨hw, session, openCall', hs'⟩
  | _ => cases hsign

theorem sign_condition {r : SlotRecord} {f : SessionFact} (hsign : f.isSign = true)
    (superseded forced : Bool) (now : Timestamp) :
    (r.applyFact superseded forced now f).condition = r.condition := by
  cases f with
  | usage => exact SlotRecord.revive_condition _
  | permissionRefused rule program => exact SlotRecord.revive_condition _
  | heartbeat k => exact (SlotRecord.beat_condition _ _ _).trans (SlotRecord.revive_condition _)
  | _ => cases hsign

/-! ## What the step counts -/

namespace SameVerdict

variable {r r' : SlotRecord}

theorem of_state (h : r'.state = r.state) : SameVerdict r r' := by
  refine ⟨?_, by rw [h], by rw [h]⟩
  unfold Emit.memberVerdict
  rw [h]

theorem of_unreplied (h : r.state.isReplied = false) (h' : r'.state.isReplied = false) :
    SameVerdict r r' := by
  have hkey : ∀ x : SlotRecord, x.state.isReplied = false →
      Emit.memberVerdict x = none ∧ x.state.isEscalated = false := by
    intro x hx
    unfold Emit.memberVerdict
    cases hs : x.state <;> first | exact ⟨rfl, rfl⟩ | (rw [hs] at hx; cases hx)
  exact ⟨by rw [(hkey r h).1, (hkey r' h').1], by rw [h, h'], by rw [(hkey r h).2, (hkey r' h').2]⟩

theorem of_mapLadder {f : Ladder → Ladder} (h : r'.state = r.state.mapLadder f) :
    SameVerdict r r' := by
  cases hs : r.state with
  | replied m esc rew process overdue l =>
    rw [hs] at h
    refine ⟨?_, by rw [h, hs]; rfl, by rw [h, hs]; cases esc <;> rfl⟩
    unfold Emit.memberVerdict
    rw [h, hs]
    cases esc <;> rfl
  | stopping l after =>
    refine of_unreplied (by rw [hs]; rfl) (by rw [h, hs]; rfl)
  | _ => exact of_state (by rw [h, hs]; rfl)

theorem startReplyStop (h : r.state.isReplied = true) {x : SlotRecord} (hx : x.state = r.state)
    (now : Timestamp) (forced : Bool) : SameVerdict r (x.startReplyStop now forced) := by
  cases hs : r.state with
  | replied m esc rew process overdue l =>
    have hstate : (x.startReplyStop now forced).state
        = .replied m esc rew process true (some (l.getD (.new now forced))) := by
      unfold SlotRecord.startReplyStop
      rw [hx, hs]
    refine ⟨?_, by rw [hstate, hs]; rfl, by rw [hstate, hs]; cases esc <;> rfl⟩
    unfold Emit.memberVerdict
    rw [hstate, hs]
    cases esc <;> rfl
  | _ => rw [hs] at h; cases h

theorem end' {x : SlotRecord} (hx : x.state = r.state) (cause : EndCause) :
    SameVerdict r (x.end' cause) := by
  cases hs : r.state with
  | replied m esc rew process overdue l =>
    have hstate : (x.end' cause).state = .replied m esc rew .ended overdue none := by
      unfold SlotRecord.end'
      rw [hx, hs]
    refine ⟨?_, by rw [hstate, hs]; rfl, by rw [hstate, hs]; cases esc <;> rfl⟩
    unfold Emit.memberVerdict
    rw [hstate, hs]
    cases esc <;> rfl
  | _ =>
    refine of_unreplied (by rw [hs]; rfl) ?_
    unfold SlotRecord.end'
    rw [hx, hs]
    rfl

end SameVerdict

/-- **Only a reply changes what the step counts.** -/
theorem SlotMove.same {st : RunState} {input : Event} {r r' : SlotRecord} {g : Nat → Bool}
    (h : SlotMove st input r r' g) (hreply : ∀ key m esc rew, input.body ≠ .reply key m esc rew) :
    SameVerdict r r' := by
  cases h with
  | nudged _ hs => exact .of_unreplied (by rw [hs]; rfl) rfl
  | signalled _ _ _ => exact .of_mapLadder rfl
  | started _ hs => exact .of_unreplied (by rw [hs]; rfl) rfl
  | startedStopping _ _ => exact .of_state rfl
  | startedEnded _ hs _ => exact .of_unreplied (by rw [hs]; rfl) rfl
  | sign _ hsign hacc =>
    rcases sign_state hsign hacc (st.isSuperseded r) st.withdrawn input.now with
      h | ⟨hw, session, openCall, h⟩
    · exact .of_state h
    · refine .of_unreplied ?_ (by rw [h]; rfl)
      cases hs : r.state <;> first | rfl | (rw [hs] at hw; cases hw)
  | lingering _ hw =>
    refine .of_unreplied ?_ rfl
    cases hs : r.state <;> first | rfl | (rw [hs] at hw; cases hw)
  | @lingeringReplied pids _ hs _ =>
    exact SameVerdict.startReplyStop hs (x := { r with lastFact := some input.now, pids }) rfl _ _
  | lingeringStopping _ _ => exact .of_state rfl
  | ended _ _ => exact SameVerdict.end' (r := r) (x := { r with lastFact := some input.now }) rfl _
  | replied hb _ _ => exact absurd hb (hreply _ _ _ _)
  | resumed _ _ _ _ =>
    unfold SlotRecord.applyResume
    split
    · exact .of_mapLadder rfl
    · exact .of_state rfl
  | deferred _ _ _ _ _ => exact .of_state rfl
  | deferredStart _ hs => exact .of_unreplied (by rw [hs]; rfl) rfl
  | startFailed _ hs => exact .of_unreplied (by rw [hs]; rfl) rfl
  | quiet _ hs => exact .of_unreplied (by rw [hs]; rfl) rfl
  | callBound _ _ => exact .of_state rfl
  | hung _ hq =>
    refine .of_unreplied ?_ rfl
    cases hs : r.state <;> first | rfl | (rw [hs] at hq; cases hq)
  | grace _ _ _ _ _ _ => exact .of_mapLadder rfl
  | wouldNotStop _ _ _ _ _ => exact .of_mapLadder rfl
  | windDown _ hs _ _ => exact .startReplyStop hs rfl _ _
  | retry _ _ _ _ => exact .of_state rfl

theorem SlotRecord.GoesOn.congr {r r' : SlotRecord} (h : r.GoesOn) (hs : r'.state = r.state)
    (hc : r'.condition = r.condition) : r'.GoesOn := by
  unfold SlotRecord.GoesOn at h ⊢
  rw [hs, hc]
  exact h

theorem SlotRecord.GoesOn.mapLadder {r r' : SlotRecord} (h : r.GoesOn) {f : Ladder → Ladder}
    {l : Ladder} (hl : r.state.ladder = some l) (hs : r'.state = r.state.mapLadder f) :
    r'.GoesOn := by
  unfold SlotRecord.GoesOn at h ⊢
  cases hst : r.state with
  | stopping l after =>
    rw [hst] at hs h
    rw [hs]
    cases after with
    | nothing => exact h
    | restart reason => trivial
  | replied m esc rew process overdue l =>
    rw [hst] at hs
    rw [hs]
    trivial
  | _ => rw [hst] at hl; cases hl

/-- **An input that ends where it lands leaves the run something to go on from.** -/
theorem SlotMove.goesOn {st : RunState} {input : Event} {r r' : SlotRecord} {g : Nat → Bool}
    (h : SlotMove st input r r' g) (hfits : r.ConditionFits) (hsettles : Settles st input r)
    (hlast : ¬ Later st.ids r.slot) (hr : r.GoesOn) : r'.GoesOn := by
  cases h with
  | signalled _ hl _ => exact hr.mapLadder hl rfl
  | startedStopping _ _ => exact hr.congr rfl rfl
  | startedEnded _ _ hlater => exact absurd hlater hlast
  | sign _ hsign hacc =>
    rcases sign_state hsign hacc (st.isSuperseded r) st.withdrawn input.now with
      h | ⟨-, session, openCall, h⟩
    · exact hr.congr h (sign_condition hsign _ _ _)
    · unfold SlotRecord.GoesOn
      rw [h]
      trivial
  | @lingeringReplied pids _ hrep _ =>
    refine .of_replied (((SameVerdict.startReplyStop hrep
      (x := { r with lastFact := some input.now, pids }) rfl input.now st.withdrawn).replied).trans
        hrep)
  | lingeringStopping _ _ => exact hr.congr rfl rfl
  | ended hb _ => exact absurd hb (hsettles.ended _ _)
  | replied hb _ _ => exact absurd hb (hsettles.reply _ _ _ _)
  | resumed hb hc _ _ =>
    have hw := hsettles.resume _ hb
    unfold SlotRecord.applyResume
    rw [if_pos hw]
    rw [hc, Option.any_some] at hw
    have hl := hfits _ hc
    rw [if_pos hw] at hl
    obtain ⟨l, hl⟩ := Option.isSome_iff_exists.mp hl
    exact hr.mapLadder hl rfl
  | deferred _ _ _ _ _ => exact hr
  | callBound _ _ => exact hr
  | grace _ _ _ _ hl _ => exact hr.mapLadder hl rfl
  | wouldNotStop _ _ _ hl _ => exact hr.mapLadder hl rfl
  | windDown _ hrep _ _ =>
    exact .of_replied (((SameVerdict.startReplyStop hrep (x := r) rfl input.now
      st.withdrawn).replied).trans hrep)
  | retry _ _ _ _ => exact hr
  | _ => trivial

theorem SlotState.mapLadder_live (s : SlotState) (f : Ladder → Ladder) :
    (s.mapLadder f).isLive = s.isLive := by
  cases s <;> rfl

theorem SlotState.mapLadder_pending {s : SlotState} {f : Ladder → Ladder}
    (h : s.mapLadder f = .pending) : s = .pending := by
  cases s <;> first | exact h | cases h

theorem SlotRecord.startReplyStop_live (r : SlotRecord) (now : Timestamp) (forced : Bool) :
    (r.startReplyStop now forced).state.isLive = r.state.isLive := by
  unfold SlotRecord.startReplyStop
  cases hs : r.state <;> simp [hs, SlotState.isLive]

/-- **No input but an end makes a live session not live**, and none makes a slot wait. -/
theorem SlotMove.live {st : RunState} {input : Event} {r r' : SlotRecord} {g : Nat → Bool}
    (h : SlotMove st input r r' g) (hended : ∀ key cause, input.body ≠ .sessionFact key (.ended cause)) :
    (r.state.isLive = true → r'.state.isLive = true) ∧
      (r'.state = .pending → r.state = .pending) := by
  cases h with
  | signalled _ _ _ =>
    exact ⟨fun hl => (SlotState.mapLadder_live _ _).trans hl, SlotState.mapLadder_pending⟩
  | startedStopping _ _ => exact ⟨id, id⟩
  | sign _ hsign hacc =>
    rcases sign_state hsign hacc (st.isSuperseded r) st.withdrawn input.now with
      h | ⟨-, session, openCall, h⟩
    · rw [h]
      exact ⟨id, id⟩
    · rw [h]
      exact ⟨fun _ => rfl, (fun h => by cases h)⟩
  | @lingeringReplied pids _ hrep _ =>
    refine ⟨fun hl => (SlotRecord.startReplyStop_live _ _ _).trans hl, fun hp => ?_⟩
    have := (SameVerdict.startReplyStop hrep (x := { r with lastFact := some input.now, pids })
      rfl input.now st.withdrawn).replied
    rw [hrep, hp] at this
    cases this
  | lingeringStopping _ _ => exact ⟨id, id⟩
  | ended hb _ => exact absurd hb (hended _ _)
  | resumed _ _ _ _ =>
    unfold SlotRecord.applyResume
    split
    · exact ⟨fun hl => (SlotState.mapLadder_live _ _).trans hl, SlotState.mapLadder_pending⟩
    · exact ⟨id, id⟩
  | deferred _ _ _ _ _ => exact ⟨id, id⟩
  | callBound _ _ => exact ⟨id, id⟩
  | grace _ _ _ _ _ _ =>
    exact ⟨fun hl => (SlotState.mapLadder_live _ _).trans hl, SlotState.mapLadder_pending⟩
  | wouldNotStop _ _ _ _ _ =>
    exact ⟨fun hl => (SlotState.mapLadder_live _ _).trans hl, SlotState.mapLadder_pending⟩
  | windDown _ hrep _ _ =>
    refine ⟨fun hl => (SlotRecord.startReplyStop_live _ _ _).trans hl, fun hp => ?_⟩
    have := (SameVerdict.startReplyStop hrep (x := r) rfl input.now st.withdrawn).replied
    rw [hrep, hp] at this
    cases this
  | retry _ _ _ _ => exact ⟨id, id⟩
  | _ => exact ⟨fun _ => rfl, (fun h => by cases h)⟩

end NexusFlow.Run
