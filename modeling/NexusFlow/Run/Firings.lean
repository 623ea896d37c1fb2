import NexusFlow.Run.Stops

/-!
# Timers that fire

A timer of a slot that fires names a record whose state it watches (`mayArm_state`), so what it
does is a `SlotMove` of that record, whether it is put off (`deferred_lands`), a grace
(`graceFired_lands`) or another timer of the slot (`slotFired_lands`). A hold's retry goes on to
the next attempt (`retryFired_lands`); every other firing ends where it lands.
-/

namespace NexusFlow.Run

open NexusFlow.Lib

/-- The state a timer watches. -/
theorem SlotRecord.mayArm_state {r : SlotRecord} {p : TimerPurpose} (h : p ∈ r.mayArm) :
    (p = .startDeadline ∧ ∃ d, r.state = .starting d) ∨
    (p = .quiet ∧ ∃ s, r.state = .running s none) ∨
    (p = .subprocessIdle ∧ r.blind = false ∧ ∃ s t, r.state = .running s (some t)) ∨
    (p = .callBound ∧ r.sampling = false ∧ ∃ s t, r.state = .running s (some t)) ∨
    (p = .confirm ∧ Emit.wasQuiet r.state = true) ∨
    (p = .windDown ∧ ∃ m esc rew overdue, r.state = .replied m esc rew .live overdue none) ∨
    (p = .holdRetry ∧ r.condition.any SlotCondition.isHeld = true ∧
      ∃ cause, r.state = .ended cause) := by
  unfold SlotRecord.mayArm at h
  cases hs : r.state with
  | running s oc =>
    cases oc with
    | none => simp_all
    | some t =>
      simp only [hs, List.mem_append] at h
      rcases h with h | h
      · split at h <;> simp_all
      · split at h <;> simp_all
  | replied m esc rew process overdue l =>
    cases process <;> cases l <;> simp_all
  | ended cause =>
    simp only [hs] at h
    split at h <;> simp_all
  | _ => simp_all [Emit.wasQuiet]

section Firing

variable {st : RunState} {input : Event} {t : TimerId} {a : ArmedTimer} {fireAt : Timestamp}

/-- What a firing starts from. -/
theorem firing_start (hacc : ignoredReason st input = none)
    (hb : input.body = .timerFired t.text fireAt) (ha : st.timer t = some a) :
    (Emit.start st input).state
      = if isDeferred st t.text fireAt input.now = true then st.disarm t
        else applyFiring (st.disarm t) t.text a.purpose input.now := by
  have hget : st.timers.get t.text = some a := ha
  rw [start_state hacc]
  simp only [applyBody, hb, hget]
  rfl

/-- What a firing goes on with. -/
theorem firing_emitted (hb : input.body = .timerFired t.text fireAt) (ha : st.timer t = some a) :
    emitted st input = if isDeferred st t.text fireAt input.now = true then
        (Emit.start st input).setTimer t.text (Emit.start st input).state.policy.wakeJump a.purpose
      else (Emit.start st input).fire t.text a.purpose t.slot? := by
  have hget : st.timers.get t.text = some a := ha
  unfold emitted
  rw [hb]
  simp only [Emit.input, Emit.timerFired, hget, timerSlot_text]

variable {r : SlotRecord}

theorem deferred_lands (h : Coh st) (hacc : ignoredReason st input = none)
    (hb : input.body = .timerFired t.text fireAt) (ha : st.timer t = some a) (hr : r ∈ st.slots)
    (ht : t.slot? = some r.slot) (hfits : t.Fits a)
    (hdef : isDeferred st t.text fireAt input.now = true) :
    ∃ r' g, SlotMove st input r r' g ∧ Landed st (emitted st input).state r r' g := by
  have hc := h.slots r hr
  have hstart := firing_start hacc hb ha
  rw [if_pos hdef] at hstart
  have hrep : Replaces st (Emit.start st input).state r r := by
    rw [hstart]
    exact (Replaces.refl h.ordered hr).disarm ht
  rw [firing_emitted hb ha, if_pos hdef]
  by_cases hp : a.purpose = .startDeadline
  · -- Putting the start deadline off arms the start again: the slot is `Starting` already.
    cases t with
    | slot p s =>
      obtain ⟨hpurpose, -⟩ := hfits
      rw [hp] at hpurpose
      subst hpurpose
      simp only [TimerId.slot?, Option.some.injEq] at ht
      subst ht
      have hmay := hc.may .startDeadline (by rw [ha]; rfl)
      obtain ⟨-, d, hs⟩ | ⟨hne, -⟩ | ⟨hne, -⟩ | ⟨hne, -⟩ | ⟨hne, -⟩ | ⟨hne, -⟩ | ⟨hne, -⟩ :=
        SlotRecord.mayArm_state hmay
      any_goals exact absurd hne (by decide)
      refine ⟨{ r with state := .starting (input.now.plus
        (Emit.start st input).state.policy.wakeJump) }, _, .deferredStart hb hs, ?_⟩
      have hord : Ordered (Emit.start st input).state.ids := hrep.ids_eq ▸ h.ordered
      have hstate : ((Emit.start st input).setTimer
          (slotTimer .startDeadline r.slot) (Emit.start st input).state.policy.wakeJump
          .startDeadline).state = (Emit.start st input).state.startSlot r.slot (input.now.plus
            (Emit.start st input).state.policy.wakeJump) :=
        state_setStartDeadline (Emit.start st input) hord r.slot _
      rw [hp]
      simp only [TimerId.text]
      rw [hstate]
      have hrep' := (hrep.arm (t := .slot .startDeadline r.slot)
        (a := ⟨input.now.plus (Emit.start st input).state.policy.wakeJump, .startDeadline⟩) rfl
        ⟨rfl, by decide⟩).upd (f := fun x => x.armStart (input.now.plus
          (Emit.start st input).state.policy.wakeJump)) (r.armStart_slot _)
      have harm : ∀ d', r.armStart d' = { r with state := .starting d' } := by
        intro d'
        unfold SlotRecord.armStart
        rw [hs]
      rw [harm] at hrep'
      have htimer : ∀ u, ((Emit.start st input).state.startSlot r.slot (input.now.plus
          (Emit.start st input).state.policy.wakeJump)).timer u
            = if u = .slot .startDeadline r.slot then
                some ⟨input.now.plus (Emit.start st input).state.policy.wakeJump, .startDeadline⟩
              else st.timer u := by
        intro u
        have : ((Emit.start st input).state.startSlot r.slot (input.now.plus
            (Emit.start st input).state.policy.wakeJump)).timer u = _ := RunState.timer_arm _ _ _
        rw [this, hstart, RunState.timer_disarm]
        split <;> rfl
      refine lands_working h hrep' (by rw [hs]; rfl) rfl (fun h => by cases h)
        (fun p => p = .startDeadline) ?_ ?_
        (fun _ hn => hn) ?_ ?_ rfl
      · intro p
        rw [htimer]
        by_cases hpp : p = .startDeadline
        · simp [hpp]
        · have hnone : (st.timer (.slot p r.slot)).isSome = false := by
            by_contra hne
            rw [Bool.not_eq_false] at hne
            have := hc.may p hne
            simp [SlotRecord.mayArm, hs, hpp] at this
          simp [hpp, hnone]
      · intro n
        rw [htimer]
        rfl
      · intro p hpp
        simpa [SlotRecord.mayArm] using hpp
      · simp [SlotRecord.mustArm]
    | grace n s => exact absurd (hfits.1.symm.trans hp) (by decide)
    | rootDeadline => cases ht
    | treeWindow => cases ht
  · refine ⟨r, _, .deferred hb ht hdef (by rw [ha]; rfl) ?_, ?_⟩
    · rintro s rfl
      exact hp hfits.1
    rw [Emit.state_setTimer _ hp]
    have htimer : ∀ u, (((Emit.start st input).state.arm t ⟨input.now.plus
        (Emit.start st input).state.policy.wakeJump, a.purpose⟩).timer u).isSome
          = (st.timer u).isSome := by
      intro u
      rw [RunState.timer_arm, hstart, RunState.timer_disarm]
      split
      · rename_i hu
        rw [hu, ha]
        rfl
      · rfl
    refine lands_same h (hrep.arm ht ?_) rfl rfl rfl rfl (fun p => htimer _) (fun n => htimer _)
    cases t <;> exact hfits

/-- A running slot falls quiet: nothing is armed for it but the confirmation. -/
theorem quiet_lands {e : Emit st (applyInput st input) input.now} (h : Coh st)
    (hrep : Replaces st e.state r r) {session : String} {openCall : Option Timestamp}
    (hs : r.state = .running session openCall)
    (hT : ∀ p, e.state.timer (.slot p r.slot) = none)
    (hG : ∀ n, e.state.timer (.grace n r.slot) = st.timer (.grace n r.slot)) :
    Landed st (e.quiet r.slot).state r { r with state := .quiet input.now openCall }
      (st.graceArmed r.slot) := by
  have hord : Ordered e.state.ids := hrep.ids_eq ▸ h.ordered
  have hrep' := (hrep.liveness h.ordered .quiet input.now).setSlotTimer (p := .confirm)
    (e.conclude r.slot .quiet).state.policy.confirmWithin (by decide) (by decide)
  have hstate : r.state.concluded .quiet input.now st.withdrawn = .quiet input.now openCall := by
    rw [hs]
    rfl
  rw [hstate] at hrep'
  have htimer : ∀ u, ((e.quiet r.slot).state.timer u).isSome
      = (Decidable.decide (u = .slot .confirm r.slot) || (e.state.timer u).isSome) := by
    intro u
    have := timer_setSlotTimer (e.conclude r.slot .quiet) r.slot
      (e.conclude r.slot .quiet).state.policy.confirmWithin (p := .confirm) (by decide) u
    unfold Emit.quiet
    rw [this, Emit.conclude, timer_liveness hord]
    split <;> simp_all
  refine lands_working h hrep' (by rw [hs]; rfl) rfl (fun h => by cases h) (fun p => p = .confirm)
    ?_ ?_
    (fun _ hn => hn) ?_ ?_ rfl
  · intro p
    refine (htimer (.slot p r.slot)).trans ?_
    rw [hT]
    simp
  · intro n
    refine (htimer (.grace n r.slot)).trans ?_
    rw [hG]
    rfl
  · intro p hp
    simpa [SlotRecord.mayArm] using hp
  · simp [SlotRecord.mustArm]

/-- A slot whose state is watched by one timer has none once that timer is gone. -/
theorem timer_disarm_none {s : Slot} {p : TimerPurpose} (hc : Coherent st r) (hs : r.slot = s)
    (hmay : ∀ q ∈ r.mayArm, q = p) (q : TimerPurpose) :
    (st.disarm (.slot p s)).timer (.slot q s) = none := by
  subst hs
  rw [RunState.timer_disarm]
  split
  · rfl
  · rename_i hne
    cases hq : st.timer (.slot q r.slot) with
    | none => rfl
    | some a => exact absurd (by rw [hmay q (hc.may q (by rw [hq]; rfl))]) hne

/-- The graces of a slot do not hang on its other timers. -/
theorem grace_disarm_slot (p : TimerPurpose) (n : Nat) :
    (st.disarm (.slot p r.slot)).timer (.grace n r.slot) = st.timer (.grace n r.slot) := by
  rw [RunState.timer_disarm, if_neg (by simp)]

section Fired

variable {e : Emit st (applyInput st input) input.now}

/-- The emit a firing starts with, its timer gone and nothing else changed. -/
theorem replaces_disarm {p : TimerPurpose} (h : Coh st) (hr : r ∈ st.slots)
    (hstart : e.state = st.disarm (.slot p r.slot)) : Replaces st e.state r r := by
  rw [hstart]
  exact (Replaces.refl h.ordered hr).disarm rfl

/-- The session never reported. -/
theorem startFailed_lands (h : Coh st) (hr : r ∈ st.slots)
    (hstart : e.state = st.disarm (.slot .startDeadline r.slot)) {d : Timestamp}
    (hs : r.state = .starting d) :
    Landed st (e.conclude r.slot .startFailed).state r
      { r with state := .stopping (.new input.now st.withdrawn) (.restart .startFailed) }
      (st.graceArmed r.slot) := by
  have hrep := replaces_disarm h hr hstart
  have hord : Ordered e.state.ids := hrep.ids_eq ▸ h.ordered
  refine lands_working h (hrep.liveness h.ordered .startFailed input.now) (by rw [hs]; rfl) rfl
    (fun _ => rfl) (fun _ => false) ?_ ?_ (fun _ hn => hn) (fun _ h => by cases h)
    (fun _ h => by cases h) rfl
  · intro q
    rw [Emit.conclude, timer_liveness hord, hstart,
      timer_disarm_none (h.slots r hr) rfl (by simp [SlotRecord.mayArm, hs])]
    rfl
  · intro n
    rw [Emit.conclude, timer_liveness hord, hstart, grace_disarm_slot]
    rfl

/-- A quiet or nudged session gave no sign. -/
theorem hung_lands (h : Coh st) (hr : r ∈ st.slots)
    (hstart : e.state = st.disarm (.slot .confirm r.slot)) (hq : Emit.wasQuiet r.state = true) :
    Landed st ((e.clearSlotTimers r.slot).conclude r.slot .hung).state r
      { r with state := .stopping (.new input.now st.withdrawn) (.restart .hung) }
      fun _ => false := by
  have hrep := (replaces_disarm h hr hstart).clearSlotTimers
  have hord : Ordered (e.clearSlotTimers r.slot).state.ids := hrep.ids_eq ▸ h.ordered
  have hw : r.state.isWorking = true := by
    cases hs : r.state <;> simp_all [Emit.wasQuiet, SlotState.isWorking]
  refine lands_working h (hrep.liveness h.ordered .hung input.now) hw rfl
    (fun _ => rfl) (fun _ => false) ?_ ?_ (fun _ h => by cases h) (fun _ h => by cases h)
    (fun _ h => by cases h) rfl
  · intro q
    rw [Emit.conclude, timer_liveness hord, timer_clearSlotTimers_self _ rfl]
    rfl
  · intro n
    rw [Emit.conclude, timer_liveness hord, timer_clearSlotTimers_self _ rfl]
    rfl

/-- A bound of an open call is over, and the other is cancelled: the slot falls quiet. -/
theorem callQuiet_lands {p q : TimerPurpose} (h : Coh st) (hr : r ∈ st.slots)
    (hstart : e.state = st.disarm (.slot p r.slot)) {sid : String} {c : Timestamp}
    (hs : r.state = .running sid (some c))
    (hpq : ∀ x, x = .subprocessIdle ∨ x = .callBound → x = p ∨ x = q) :
    Landed st ((e.clearSlotTimer r.slot q).quiet r.slot).state r
      { r with state := .quiet input.now (some c) } (st.graceArmed r.slot) := by
  have hc := h.slots r hr
  refine quiet_lands h ((replaces_disarm h hr hstart).clearSlotTimer q) hs ?_ ?_
  · intro x
    rw [timer_clearSlotTimer, hstart, RunState.timer_disarm]
    cases hx : st.timer (.slot x r.slot) with
    | none => simp
    | some a =>
      have hmay := hc.may x (by rw [hx]; rfl)
      have hor : x = .subprocessIdle ∨ x = .callBound := by
        simp only [SlotRecord.mayArm, hs, List.mem_append] at hmay
        rcases hmay with hmay | hmay
        · split at hmay <;> simp_all
        · split at hmay <;> simp_all
      rcases hpq x hor with rfl | rfl <;> simp
  · intro n
    rw [timer_clearSlotTimer, if_neg (by simp), hstart, grace_disarm_slot]

/-- A bound of a blind host's call that fires for a host that sees: nothing. -/
theorem callUnbound_lands (h : Coh st) (hr : r ∈ st.slots)
    (hstart : e.state = st.disarm (.slot .callBound r.slot)) (hblind : r.blind = false) {sid : String}
    {c : Timestamp} (hs : r.state = .running sid (some c)) :
    Landed st e.state r r (st.graceArmed r.slot) := by
  have hc := h.slots r hr
  have hw : r.state.isWorking = true := by rw [hs]; rfl
  refine lands_working h (replaces_disarm h hr hstart) hw rfl
    (by rw [SlotState.isWorking_ladder hw]; exact fun h => by cases h)
    (fun p => p != .callBound && (st.timer (.slot p r.slot)).isSome) ?_ ?_ (fun _ hn => hn) ?_ ?_
    hc.named
  · intro p
    rw [hstart, RunState.timer_disarm]
    by_cases hp : p = .callBound <;> simp [hp]
  · intro n
    rw [hstart, grace_disarm_slot]
    rfl
  · intro p hp
    rw [Bool.and_eq_true] at hp
    exact hc.may p hp.2
  · intro p hp
    have hmust := hc.must p hp
    simp only [SlotRecord.mustArm, hs, hblind, Bool.false_eq_true, if_false,
      List.mem_singleton] at hp
    subst hp
    simp [hmust]

/-- The wind-down of a slot that replied is over: its stop begins. -/
theorem windDown_lands (h : Coh st) (hr : r ∈ st.slots)
    (hstart : e.state = (st.disarm (.slot .windDown r.slot)).upd r.slot
      fun x => x.startReplyStop input.now st.withdrawn)
    (hreplied : r.state.isReplied = true) (hlive : r.state.isLive = true) :
    Landed st e.state r (r.startReplyStop input.now st.withdrawn) (st.graceArmed r.slot) := by
  have hrep : Replaces st e.state r (r.startReplyStop input.now st.withdrawn) := by
    rw [hstart]
    exact ((Replaces.refl h.ordered hr).disarm rfl).upd (r.startReplyStop_slot _ _)
  refine lands_replyStop h hrep rfl rfl hreplied hlive ?_ ?_
  · intro p
    rw [hstart]
    refine (RunState.timer_disarm _ _).trans ?_
    simp
  · intro n
    rw [hstart]
    exact congrArg Option.isSome (grace_disarm_slot _ n)

/-- A hold is over: its retry is gone, and the slot still held. -/
theorem retry_lands (h : Coh st) (hr : r ∈ st.slots)
    (hstart : e.state = st.disarm (.slot .holdRetry r.slot)) {cause : EndCause}
    (hs : r.state = .ended cause) : Landed st e.state r r (st.graceArmed r.slot) := by
  have hc := h.slots r hr
  have hmay : ∀ q ∈ r.mayArm, q = .holdRetry := by
    intro q hq
    simp only [SlotRecord.mayArm, hs] at hq
    split at hq <;> simp_all
  refine lands h (replaces_disarm h hr hstart) ⟨id, id, id, hc.alive, hc.named⟩ (fun _ => false) ?_
    ?_ (fun _ h => by cases h)
    (by simp [SlotRecord.mustArm, hs]) hc.grace (fun h => by cases h) hc.condition
    (fun ho => (hc.isOver ho).2)
  · intro q
    rw [hstart, timer_disarm_none hc rfl hmay]
    rfl
  · intro n
    rw [hstart, grace_disarm_slot]
    rfl

end Fired

/-- What a firing that is not put off starts from and goes on with. -/
theorem fired_start {p : TimerPurpose} (hacc : ignoredReason st input = none)
    (hb : input.body = .timerFired (slotTimer p r.slot) fireAt)
    (ha : st.timer (.slot p r.slot) = some a) (hfits : (TimerId.slot p r.slot).Fits a)
    (hdef : isDeferred st (slotTimer p r.slot) fireAt input.now = false) :
    (Emit.start st input).state
        = applyFiring (st.disarm (.slot p r.slot)) (slotTimer p r.slot) p input.now ∧
      emitted st input = (Emit.start st input).fire (slotTimer p r.slot) p (some r.slot) := by
  have hnot : ¬ isDeferred st (TimerId.slot p r.slot).text fireAt input.now = true := by
    show ¬ isDeferred st (slotTimer p r.slot) fireAt input.now = true
    rw [hdef]
    exact Bool.false_ne_true
  have hstart := firing_start (t := .slot p r.slot) hacc hb ha
  have hemit := firing_emitted (t := .slot p r.slot) hb ha
  rw [if_neg hnot, hfits.1] at hstart hemit
  exact ⟨hstart, hemit⟩

/-- A timer of a slot that fires on time, a hold's retry apart. -/
theorem slotFired_lands {p : TimerPurpose} (h : Coh st) (hacc : ignoredReason st input = none)
    (hb : input.body = .timerFired (slotTimer p r.slot) fireAt)
    (ha : st.timer (.slot p r.slot) = some a) (hr : r ∈ st.slots)
    (hfits : (TimerId.slot p r.slot).Fits a)
    (hdef : isDeferred st (slotTimer p r.slot) fireAt input.now = false) (hp : p ≠ .holdRetry) :
    ∃ r' g, SlotMove st input r r' g ∧ Landed st (emitted st input).state r r' g := by
  have hc := h.slots r hr
  obtain ⟨hstart, hemit⟩ := fired_start hacc hb ha hfits hdef
  have hmem := hc.may p (by rw [ha]; rfl)
  rw [hemit]
  obtain ⟨rfl, d, hs⟩ | ⟨rfl, sid, hs⟩ | ⟨rfl, hblind, sid, c, hs⟩ | ⟨rfl, hsampling, sid, c, hs⟩ |
    ⟨rfl, hq⟩ | ⟨rfl, m, esc, rew, overdue, hs⟩ | ⟨rfl, -⟩ := SlotRecord.mayArm_state hmem
  · exact ⟨_, _, .startFailed hb hs, startFailed_lands h hr hstart hs⟩
  · refine ⟨_, _, .quiet hb hs, quiet_lands h (replaces_disarm h hr hstart) hs ?_ ?_⟩
    · intro q
      rw [hstart]
      exact timer_disarm_none (p := .quiet) hc rfl (by simp [SlotRecord.mayArm, hs]) q
    · intro n
      rw [hstart]
      exact grace_disarm_slot _ n
  · exact ⟨_, _, .quiet hb hs, callQuiet_lands h hr hstart hs (fun x hx => hx)⟩
  · have hrec := (replaces_disarm h hr hstart).foundSlot h.ordered
    simp only [Emit.fire, Emit.callBound, hrec, Option.any_some]
    cases hblind : r.blind with
    | true =>
      exact ⟨_, _, .quiet hb hs, callQuiet_lands h hr hstart hs (fun x hx => hx.symm)⟩
    | false => exact ⟨_, _, .callBound hb hblind, callUnbound_lands h hr hstart hblind hs⟩
  · exact ⟨_, _, .hung hb hq, hung_lands h hr hstart hq⟩
  · have hstart' : (Emit.start st input).state = (st.disarm (.slot .windDown r.slot)).upd r.slot
        fun x => x.startReplyStop input.now st.withdrawn := by
      rw [hstart]
      have hslot : timerSlot (slotTimer .windDown r.slot) = some r.slot :=
        timerSlot_text (.slot .windDown r.slot)
      simp only [applyFiring, hslot]
      exact RunState.modifyRecord_eq_upd
        (show Ordered (st.disarm (.slot .windDown r.slot)).ids from h.ordered) _ _
    have hreplied : r.state.isReplied = true := by rw [hs]; rfl
    have hlive : r.state.isLive = true := by rw [hs]; rfl
    exact ⟨_, _, .windDown hb hreplied hlive (by rw [hs]; rfl),
      windDown_lands h hr hstart' hreplied hlive⟩
  · exact absurd rfl hp

/-- A hold's retry that fires on time. -/
theorem retryFired_lands (h : Coh st) (hacc : ignoredReason st input = none)
    (hb : input.body = .timerFired (slotTimer .holdRetry r.slot) fireAt)
    (ha : st.timer (.slot .holdRetry r.slot) = some a) (hr : r ∈ st.slots)
    (hfits : (TimerId.slot .holdRetry r.slot).Fits a)
    (hdef : isDeferred st (slotTimer .holdRetry r.slot) fireAt input.now = false) :
    ∃ cause g, ∃ e : Emit st (applyInput st input) input.now, r.state = .ended cause ∧
      r.condition.any SlotCondition.isHeld = true ∧ ¬ Later st.ids r.slot ∧
      SlotMove st input r r g ∧ Landed st e.state r r g ∧
      e.state.timer (.slot .holdRetry r.slot) = none ∧ emitted st input = e.restart r.slot := by
  have hc := h.slots r hr
  obtain ⟨hstart, hemit⟩ := fired_start hacc hb ha hfits hdef
  have hmem := hc.may .holdRetry (by rw [ha]; rfl)
  have hlast := hc.retry (by rw [ha]; rfl)
  obtain ⟨hne, -⟩ | ⟨hne, -⟩ | ⟨hne, -⟩ | ⟨hne, -⟩ | ⟨hne, -⟩ | ⟨hne, -⟩ | ⟨-, hheld, cause, hs⟩ :=
    SlotRecord.mayArm_state hmem
  any_goals exact absurd hne (by decide)
  refine ⟨cause, _, Emit.start st input, hs, hheld, hlast, .retry hb hs hheld hlast,
    retry_lands h hr hstart hs, ?_, hemit⟩
  rw [hstart]
  exact (RunState.timer_disarm _ _).trans (if_pos rfl)

/-! ## Graces -/

/-- The state a grace that fires leaves, before the last rung parks. -/
theorem grace_start {n : Nat} (h : Coh st)
    (hn : n = 1 ∨ n = 2) : applyFiring (st.disarm (.grace n r.slot)) (graceTimer n r.slot)
      .stopGrace input.now = (st.disarm (.grace n r.slot)).upd r.slot fun x =>
        { x with state := x.state.mapLadder fun l => l.fire n } := by
  have hslot : timerSlot (graceTimer n r.slot) = some r.slot := timerSlot_text (.grace n r.slot)
  have hfired : (if graceNth (graceTimer n r.slot) = some 2 then GraceFired.second else .first)
      = if n = 2 then .second else .first := by
    rw [graceNth_grace]
    rcases hn with rfl | rfl <;> rfl
  simp only [applyFiring, hslot, hfired]
  rw [RunState.modifyRecord_eq_upd
    (show Ordered (st.disarm (.grace n r.slot)).ids from h.ordered)]
  rfl

theorem graceFired_lands {n : Nat} (h : Coh st) (hacc : ignoredReason st input = none)
    (hb : input.body = .timerFired (graceTimer n r.slot) fireAt)
    (ha : st.timer (.grace n r.slot) = some a) (hr : r ∈ st.slots)
    (hfits : (TimerId.grace n r.slot).Fits a)
    (hdef : isDeferred st (graceTimer n r.slot) fireAt input.now = false) :
    ∃ r' g, SlotMove st input r r' g ∧ Landed st (emitted st input).state r r' g := by
  have hc := h.slots r hr
  have hnot : ¬ isDeferred st (TimerId.grace n r.slot).text fireAt input.now = true := by
    show ¬ isDeferred st (graceTimer n r.slot) fireAt input.now = true
    rw [hdef]
    exact Bool.false_ne_true
  have hstart := firing_start (t := .grace n r.slot) hacc hb ha
  have hemit := firing_emitted (t := .grace n r.slot) hb ha
  rw [if_neg hnot] at hstart hemit
  obtain ⟨hpurpose, hn⟩ := hfits
  rw [hpurpose] at hstart hemit
  rw [show (TimerId.grace n r.slot).text = graceTimer n r.slot from rfl, grace_start h hn]
    at hstart
  have harmed : st.graceArmed r.slot n = true := by
    unfold RunState.graceArmed
    rw [ha]
    rfl
  have hsome := hc.grace n harmed
  obtain ⟨l, hl⟩ := Option.isSome_iff_exists.mp hsome
  have hrep : Replaces st (Emit.start st input).state r
      { r with state := r.state.mapLadder fun l => l.fire n } := by
    rw [hstart]
    exact ((Replaces.refl h.ordered hr).disarm rfl).upd rfl
  have htimer : ∀ u, (Emit.start st input).state.timer u
      = if u = .grace n r.slot then none else st.timer u := by
    intro u
    rw [hstart]
    exact RunState.timer_disarm _ _
  have hT : ∀ p, (Emit.start st input).state.timer (.slot p r.slot)
      = st.timer (.slot p r.slot) := by
    intro p
    rw [htimer, if_neg (by simp)]
  have hG : ∀ m, ((Emit.start st input).state.timer (.grace m r.slot)).isSome
      = (m != n && st.graceArmed r.slot m) := by
    intro m
    rw [htimer]
    by_cases hm : m = n <;> simp [hm, RunState.graceArmed]
  have hladder : (r.state.mapLadder fun l => l.fire n).ladder = some (l.fire n) := by
    rw [SlotState.mapLadder_ladder, hl]
    rfl
  have hladder' : (r.state.mapLadder fun l => l.fire n).ladder.isSome = true := by
    rw [hladder]
    rfl
  have hforced : (((Emit.start st input).state.recordAt
      ((Emit.start st input).state.findSlot r.slot)).bind fun r => r.state.ladder).any Ladder.forced
        = l.forced := by
    rw [hrep.foundSlot h.ordered, Option.bind_some, hladder]
    rfl
  rw [hemit]
  simp only [Emit.fire, TimerId.slot?, Emit.graceOver]
  rw [show (TimerId.grace n r.slot).text = graceTimer n r.slot from rfl, graceNth_grace, hforced]
  have hkeeps : Landed st (Emit.start st input).state r
      { r with state := r.state.mapLadder fun l => l.fire n }
      (fun m => m != n && st.graceArmed r.slot m) :=
    lands_stopping h hrep hsome (SlotState.becomes_mapLadder _ hc.alive hc.named) hladder' hT hG
      (fun hlast => (hc.condition hlast).mapLadder rfl rfl) (fun ho => (hc.isOver ho).2)
  rcases hn with rfl | rfl
  · rw [if_pos (by decide)]
    exact ⟨_, _, .grace hb hdef harmed (Or.inl rfl) hl (Or.inl rfl), hkeeps⟩
  · rw [if_neg (by simp)]
    cases hf : l.forced with
    | true =>
      rw [if_pos rfl]
      exact ⟨_, _, .grace hb hdef harmed (Or.inr rfl) hl (Or.inr hf), hkeeps⟩
    | false =>
      rw [if_neg (by simp)]
      have hord : Ordered (Emit.start st input).state.ids := hrep.ids_eq ▸ h.ordered
      refine ⟨_, _, .wouldNotStop hb hdef harmed hl hf, lands_stopping h
        (hrep.parked h.ordered .wouldNotStop) hsome (SlotState.becomes_mapLadder _ hc.alive hc.named) hladder'
        ?_ ?_ ?_ (fun _ => rfl)⟩
      · intro p
        rw [timer_parkSlot hord, hT]
      · intro m
        rw [timer_parkSlot hord, hG]
      · intro _ c hcond
        cases hcond
        exact hladder'

end Firing

end NexusFlow.Run
