import NexusFlow.Run.Finish

/-!
# What an owed effect says

`pending_effects` (`effects.rs`) derives what a run owes from its state. `Owes` is what an owed
effect says about the state, case by case; `pending_session_iff` is which effects of sessions are
pending, exactly.
-/

namespace NexusFlow.Run

open NexusFlow.Lib

/-- The session an effect is for. -/
def Effect.session? : Effect → Option SessionKey
  | .startSession key _ _ | .nudgeSession key _ | .stopSession key _ _ => some key
  | _ => none

/-- **What an owed effect says about the state.** -/
inductive Owes (st : RunState) : Effect → Prop
  | openRoot (hphase : st.phase = .created) (hroot : st.rootMessage = none)
      (hcommissioned : st.commissioned = true) : Owes st (.openRoot st.run)
  | takeClaim {b : Option RunId} (hphase : st.phase = .queued b) :
      Owes st (.takeClaim st.workspace)
  | prepareTree (hphase : st.phase = .running .unprepared) : Owes st (.prepareTree st.workspace)
  | cancelTree (hcancel : st.treeCancelOwed = true) : Owes st (.cancelTree st.workspace)
  | parkTree {o : Outcome} {reason : Option ReasonCode}
      (hphase : st.phase = .finishing o reason .unparked) (hlive : st.anyLive = false) :
      Owes st (.parkTree st.workspace o)
  | releaseClaim (hready : readyToRelease st = true) : Owes st (.releaseClaim st.workspace)
  | startSession {r : SlotRecord} {d : Timestamp} (hr : r ∈ st.slots)
      (hs : r.state = .starting d) :
      Owes st (.startSession (st.sessionKey r.slot) r.turn r.resume)
  | nudgeSession {r : SlotRecord} {since : Timestamp} {openCall : Option Timestamp}
      (hr : r ∈ st.slots) (hs : r.state = .quiet since openCall) :
      Owes st (.nudgeSession (st.sessionKey r.slot) nudgeText)
  | stopSession {r : SlotRecord} {l : Ladder} {kind : StopKind} (hr : r ∈ st.slots)
      (hl : r.state.ladder = some l) (howed : l.owed = some kind) :
      Owes st (.stopSession (st.sessionKey r.slot) kind (l.total + 1))
  | deliver {d : Key × DeliverBody} (hd : d ∈ owedDeliveries st) :
      Owes st (.deliver (st.rootThread.getD "") d.2 d.1)

/-- A session's effect is owed by a run whose tree is prepared, or that waits for its stops. -/
inductive OwesSession (st : RunState) (effect : Effect) : Prop
  | running {r : SlotRecord} (hphase : st.phase = .running .prepared)
      (hcancel : st.treeCancelOwed = false) (hr : r ∈ st.slots)
      (heff : slotEffect st r = some effect)
  | finishing {o : Outcome} {reason : Option ReasonCode} {tree : ParkPhase} {r : SlotRecord}
      (hphase : st.phase = .finishing o reason tree) (hlive : st.anyLive = true)
      (hr : r ∈ st.slots) (heff : stopEffect r (st.sessionKey r.slot) = some effect)

section

variable {st st' : RunState} {input : Event} {effect : Effect} {r : SlotRecord}

theorem Owes.of_stop (hr : r ∈ st.slots)
    (heff : stopEffect r (st.sessionKey r.slot) = some effect) : Owes st effect := by
  obtain ⟨l, hl, heff⟩ := Option.bind_eq_some_iff.mp heff
  obtain ⟨kind, hkind, rfl⟩ := Option.map_eq_some_iff.mp heff
  exact .stopSession hr hl hkind

theorem Owes.of_slot (hr : r ∈ st.slots) (heff : slotEffect st r = some effect) :
    Owes st effect := by
  unfold slotEffect at heff
  split at heff
  · rename_i d hs
    cases heff
    exact .startSession hr hs
  · rename_i since openCall hs
    cases heff
    exact .nudgeSession hr hs
  · exact .of_stop hr heff

theorem Owes.of_deliver (h : effect ∈ deliverEffects st) : Owes st effect := by
  obtain ⟨d, hd, rfl⟩ := List.mem_map.mp h
  exact .deliver hd

/-- **What is pending is owed.** -/
theorem owes_of_pending (h : effect ∈ pendingEffects st) : Owes st effect := by
  unfold pendingEffects at h
  cases hp : st.phase with
  | created =>
    simp only [hp] at h
    split at h
    · rename_i hcond
      simp only [Bool.and_eq_true, Option.isNone_iff_eq_none] at hcond
      cases List.mem_singleton.mp h
      exact .openRoot hp hcond.1.2 hcond.1.1
    · cases h
  | queued b =>
    simp only [hp] at h
    cases List.mem_singleton.mp h
    exact .takeClaim hp
  | running tree =>
    simp only [hp, runningEffects] at h
    split at h
    · rename_i hcancel
      cases List.mem_singleton.mp h
      exact .cancelTree hcancel
    split at h
    · rename_i htree
      subst htree
      split at h
      · cases h
      · cases List.mem_singleton.mp h
        exact .prepareTree hp
    · rcases List.mem_append.mp h with h | h
      · obtain ⟨r, hr, heff⟩ := List.mem_filterMap.mp h
        exact .of_slot hr heff
      · exact .of_deliver h
  | finishing o reason tree =>
    have hfin : st.isFinishing = true := by
      unfold RunState.isFinishing
      rw [hp]
    have hmem : effect ∈ pendingEffects st := by
      unfold pendingEffects
      exact h
    rcases finishing_owes hfin hmem with ⟨r, l, kind, hr, hl, howed, -, rfl⟩ |
      ⟨o, reason, hphase, hlive, rfl⟩ | ⟨o, reason, p, d, -, -, hd, rfl⟩ | ⟨hready, rfl⟩
    · exact .stopSession hr hl howed
    · exact .parkTree hphase hlive
    · exact .deliver hd
    · exact .releaseClaim hready
  | finished o reason =>
    simp only [hp] at h
    cases h

theorem deliver_session (h : effect ∈ deliverEffects st) : effect.session? = none := by
  obtain ⟨d, -, rfl⟩ := List.mem_map.mp h
  rfl

/-- **Which effects of sessions are pending.** -/
theorem pending_session_iff (hs : effect.session? ≠ none) :
    effect ∈ pendingEffects st ↔ OwesSession st effect := by
  have hone : ∀ e : Effect, e.session? = none → effect ∈ [e] → False := by
    intro e he hmem
    rw [List.mem_singleton.mp hmem] at hs
    exact hs he
  constructor
  · intro h
    unfold pendingEffects at h
    cases hp : st.phase with
    | created =>
      simp only [hp] at h
      split at h
      · exact (hone _ rfl h).elim
      · cases h
    | queued b =>
      simp only [hp] at h
      exact (hone _ rfl h).elim
    | running tree =>
      simp only [hp, runningEffects] at h
      split at h
      · exact (hone _ rfl h).elim
      rename_i hcancel
      split at h
      · split at h
        · cases h
        · exact (hone _ rfl h).elim
      · rename_i htree
        obtain rfl : tree = .prepared := by
          cases tree with
          | unprepared => exact absurd rfl htree
          | prepared => rfl
        rcases List.mem_append.mp h with h | h
        · obtain ⟨r, hr, heff⟩ := List.mem_filterMap.mp h
          exact .running hp (Bool.not_eq_true _ ▸ hcancel) hr heff
        · exact absurd (deliver_session h) hs
    | finishing o reason tree =>
      simp only [hp, finishingEffects] at h
      split at h
      · rename_i hlive
        obtain ⟨r, hr, heff⟩ := List.mem_filterMap.mp h
        exact .finishing hp hlive hr heff
      split at h
      · exact (hone _ rfl h).elim
      split at h
      · exact absurd (deliver_session h) hs
      · exact (hone _ rfl h).elim
    | finished o reason =>
      simp only [hp] at h
      cases h
  · intro h
    unfold pendingEffects
    cases h with
    | running hphase hcancel hr heff =>
      simp only [hphase, runningEffects, hcancel, Bool.false_eq_true, if_false, reduceCtorEq]
      exact List.mem_append_left _ (List.mem_filterMap.mpr ⟨_, hr, heff⟩)
    | finishing hphase hlive hr heff =>
      simp only [hphase, finishingEffects, hlive, if_true]
      exact List.mem_filterMap.mpr ⟨_, hr, heff⟩

end

end NexusFlow.Run
