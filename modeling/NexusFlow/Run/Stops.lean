import NexusFlow.Run.Sessions

/-!
# Stops, ends, replies and resumes

The inputs after which a slot is no longer at work: a group that lingers, an end, a reply, and the
`resume` of a parked or held slot. Each lands (`Landed`) where `decide` goes on to the rest of the
run: after an end that is the restart, the hold or the park it leads to.
-/

namespace NexusFlow.Run

open NexusFlow.Lib

section Emit

variable {before st start : RunState} {now : Timestamp} {r r' : SlotRecord}
  {e : Emit before start now}

/-! ## The decisions that change one record -/

/-- The state a `liveness` concludes. -/
def SlotState.concluded (s : SlotState) (reason : ReasonCode) (since : Timestamp)
    (withdrawn : Bool) : SlotState :=
  if reason = .quiet then .quiet since s.openCall
  else .stopping (.new since withdrawn) (.restart reason)

theorem state_liveness (hord : Ordered e.state.ids) (s : Slot) (reason : ReasonCode)
    (since : Timestamp) : (e.push (.liveness s reason since)).state
      = e.state.upd s fun r =>
          { r with state := r.state.concluded reason since e.state.withdrawn } := by
  rw [Emit.state_push]
  simp only [applyDecision, applyLiveness]
  rw [RunState.modifyRecord_eq_upd hord]
  rfl

theorem Replaces.liveness (h : Replaces st e.state r r') (hord : Ordered st.ids)
    (reason : ReasonCode) (since : Timestamp) :
    Replaces st (e.push (.liveness r.slot reason since)).state r
      { r' with state := r'.state.concluded reason since st.withdrawn } := by
  have hw : e.state.withdrawn = st.withdrawn := h.keeps RunState.withdrawn fun _ => rfl
  rw [state_liveness (h.ids_eq ▸ hord), hw]
  exact h.upd rfl

theorem timer_liveness (hord : Ordered e.state.ids) (s : Slot) (reason : ReasonCode)
    (since : Timestamp) (t : TimerId) :
    (e.push (.liveness s reason since)).state.timer t = e.state.timer t := by
  rw [state_liveness hord]
  rfl

theorem state_parkSlot (hord : Ordered e.state.ids) (s : Slot) (reason : ReasonCode) :
    (e.push (.parked (some s) reason)).state = (takeOrder e.state).upd s fun r =>
      { r with condition := some (.parked reason (e.state.nextOrder + 1) now) } :=
  RunState.modifyRecord_eq_upd (show Ordered (takeOrder e.state).ids from hord) s _

/-- A park of a slot puts its condition on its record. -/
theorem Replaces.parked (h : Replaces st e.state r r') (hord : Ordered st.ids)
    (reason : ReasonCode) :
    Replaces st (e.push (.parked (some r.slot) reason)).state r
      { r' with condition := some (.parked reason (e.state.nextOrder + 1) now) } := by
  rw [state_parkSlot (h.ids_eq ▸ hord)]
  exact h.takeOrder.upd rfl

theorem timer_parkSlot (hord : Ordered e.state.ids) (s : Slot) (reason : ReasonCode)
    (t : TimerId) : (e.push (.parked (some s) reason)).state.timer t = e.state.timer t := by
  rw [state_parkSlot hord]
  rfl

theorem state_held (hord : Ordered e.state.ids) (s : Slot) (reason : ReasonCode)
    («until» : Timestamp) (resetsAt : Option Timestamp) :
    (e.push (.held s reason «until» resetsAt)).state = (takeOrder e.state).upd s fun r =>
      { r with
        holds := if resetsAt.isNone then r.holds + 1 else r.holds
        condition := some (.held reason «until» (e.state.nextOrder + 1)) } :=
  RunState.modifyRecord_eq_upd (show Ordered (takeOrder e.state).ids from hord) s _

/-- A hold of a slot puts its condition on its record, and counts where no reset is named. -/
theorem Replaces.held (h : Replaces st e.state r r') (hord : Ordered st.ids)
    (reason : ReasonCode) («until» : Timestamp) (resetsAt : Option Timestamp) :
    Replaces st (e.push (.held r.slot reason «until» resetsAt)).state r
      { r' with
        holds := if resetsAt.isNone then r'.holds + 1 else r'.holds
        condition := some (.held reason «until» (e.state.nextOrder + 1)) } := by
  rw [state_held (h.ids_eq ▸ hord)]
  exact h.takeOrder.upd rfl

theorem timer_held (hord : Ordered e.state.ids) (s : Slot) (reason : ReasonCode)
    («until» : Timestamp) (resetsAt : Option Timestamp) (t : TimerId) :
    (e.push (.held s reason «until» resetsAt)).state.timer t = e.state.timer t := by
  rw [state_held hord]
  rfl

/-- After `clear_slot_timers` the slot has none. -/
theorem timer_clearSlotTimers_self (t : TimerId) {s : Slot} (ht : t.slot? = some s) :
    (e.clearSlotTimers s).state.timer t = none := by
  rw [timer_clearSlotTimers, if_pos ht]

end Emit

/-! ## A group that lingers -/

section Inputs

variable {st : RunState} {input : Event}

theorem SlotState.live_cases {s : SlotState} (h : s.isLive = true) :
    s.isWorking = true ∨ (∃ l after, s = .stopping l after) ∨ s.isReplied = true := by
  cases s <;> simp_all [SlotState.isLive, SlotState.isWorking, SlotState.isReplied]

theorem SlotRecord.startReplyStop_of_not_replied {r : SlotRecord} (h : r.state.isReplied = false)
    (now : Timestamp) (forced : Bool) : r.startReplyStop now forced = r := by
  unfold SlotRecord.startReplyStop
  cases hs : r.state <;> simp_all [SlotState.isReplied]

/-- The stop of a slot that replied. -/
theorem SlotRecord.startReplyStop_state {r : SlotRecord} {m : MessageId} {esc rew : Bool}
    {process : Process} {overdue : Bool} {l : Option Ladder}
    (h : r.state = .replied m esc rew process overdue l) (now : Timestamp) (forced : Bool) :
    r.startReplyStop now forced
      = { r with state := .replied m esc rew process true (some (l.getD (.new now forced))) } := by
  unfold SlotRecord.startReplyStop
  rw [h]

/-- `lands` for the stop of a slot that replied: its wind-down is over. -/
theorem lands_replyStop {mid : RunState} {r r₀ : SlotRecord} (h : Coh st) {now : Timestamp}
    {forced : Bool} (hrep : Replaces st mid r (r₀.startReplyStop now forced))
    (hstate : r₀.state = r.state) (hcond : r₀.condition = r.condition)
    (hr : r.state.isReplied = true) (hlive : r.state.isLive = true)
    (hT : ∀ p, mid.timer (.slot p r.slot)
      = if p = .windDown then none else st.timer (.slot p r.slot))
    (hG : ∀ n, (mid.timer (.grace n r.slot)).isSome = st.graceArmed r.slot n) :
    Landed st mid r (r₀.startReplyStop now forced) (st.graceArmed r.slot) := by
  have hc := h.slots r hrep.mem
  cases hs : r.state with
  | replied m esc rew process overdue l =>
    have hr₀ := SlotRecord.startReplyStop_state (hstate.trans hs) now forced
    have hs' : (r₀.startReplyStop now forced).state
        = .replied m esc rew process true (some (l.getD (.new now forced))) := by rw [hr₀]
    have hsome : (r₀.startReplyStop now forced).state.ladder.isSome = true := by rw [hs']; rfl
    refine lands h hrep ?_ (fun _ => false) ?_ hG (fun _ h => by cases h) ?_ (fun _ _ => hsome)
      (fun h => by cases h) ?_ ?_
    · rw [hs, hs']
      rw [hs] at hlive
      cases esc <;> exact ⟨id, id, id, fun _ => hlive, rfl⟩
    · intro p
      rw [hT]
      split
      · rfl
      · rename_i hp
        by_contra hne
        rw [Bool.not_eq_false] at hne
        have hmay := hc.may p hne
        simp only [SlotRecord.mayArm, hs] at hmay
        split at hmay <;> simp_all
    · rw [(SlotRecord.arms_of_ladder hsome).2]
      exact fun _ h => by cases h
    · intro hl
      refine (hc.condition hl).of_eq (by rw [hr₀]; exact hcond) (fun _ => hsome) ?_
      intro cause hcause
      rw [hs] at hcause
      cases hcause
    · intro ho
      rw [hr₀]
      exact hcond ▸ (hc.isOver ho).2
  | _ => simp [hs, SlotState.isReplied] at hr

theorem lingering_lands (h : Coh st) (hacc : ignoredReason st input = none) {key : SessionKey}
    {pids : List Nat} (hb : input.body = .sessionFact key (.groupLingering pids)) :
    ∃ r r' g, SlotMove st input r r' g ∧ Landed st (emitted st input).state r r' g := by
  obtain ⟨r, hfound, hig⟩ := accepted_sessionFact hacc hb
  obtain ⟨hr, rfl⟩ := (found_iff h).mp hfound
  obtain ⟨hrep, htimer, hemit⟩ := fact_start h hacc hb hfound
  have hc := h.slots r hr
  have hlive : r.state.isLive = true := outOfState_none hig
  rw [hemit]
  rcases SlotState.live_cases hlive with hw | ⟨l, after, hs⟩ | hreplied
  · have hnot : r.state.isReplied = false := by
      cases hs : r.state <;> simp_all [SlotState.isWorking, SlotState.isReplied]
    simp only [SlotRecord.applyFact, SlotRecord.startReplyStop_of_not_replied (r :=
      { r with lastFact := some input.now, pids }) hnot] at hrep ⊢
    have hfact : (Emit.start st input).factOn r.state
        { r with lastFact := some input.now, pids } (.groupLingering pids)
          = ((Emit.start st input).clearSlotTimers r.slot).push
            (.liveness r.slot .lost input.now) := by
      simp only [Emit.factOn, Emit.groupLingering]
      cases hs : r.state <;> simp_all [SlotState.isWorking]
    have hord : Ordered ((Emit.start st input).clearSlotTimers r.slot).state.ids :=
      hrep.clearSlotTimers.ids_eq ▸ h.ordered
    rw [hfact]
    refine ⟨r, _, _, .lingering hb hw, ?_⟩
    refine lands_working h (hrep.clearSlotTimers.liveness h.ordered .lost input.now) hw rfl
      (fun _ => rfl) (fun _ => false) ?_ ?_ (fun _ h => by cases h) (fun _ h => by cases h)
      (fun _ h => by cases h) rfl
    · intro p
      rw [timer_liveness hord, timer_clearSlotTimers_self _ rfl]
      rfl
    · intro n
      rw [timer_liveness hord, timer_clearSlotTimers_self _ rfl]
      rfl
  · have hnot : r.state.isReplied = false := by rw [hs]; rfl
    simp only [SlotRecord.applyFact, SlotRecord.startReplyStop_of_not_replied (r :=
      { r with lastFact := some input.now, pids }) hnot] at hrep ⊢
    simp only [Emit.factOn, Emit.groupLingering, hs]
    exact ⟨r, _, _, .lingeringStopping hb hs, lands_same h hrep rfl rfl rfl rfl
      (fun p => by rw [htimer]) (fun n => by rw [htimer]; rfl)⟩
  · have hfact : (Emit.start st input).factOn r.state
        (r.applyFact (st.isSuperseded r) st.withdrawn input.now (.groupLingering pids))
        (.groupLingering pids) = (Emit.start st input).clearSlotTimer r.slot .windDown := by
      simp only [Emit.factOn, Emit.groupLingering, SlotRecord.applyFact_slot]
      cases hs : r.state <;> simp_all [SlotState.isReplied]
    rw [hfact]
    refine ⟨r, _, _, .lingeringReplied hb hreplied hlive, ?_⟩
    refine lands_replyStop h (hrep.clearSlotTimer .windDown) rfl rfl hreplied hlive ?_ ?_
    · intro p
      rw [timer_clearSlotTimer, htimer]
      simp
    · intro n
      rw [timer_clearSlotTimer, htimer]
      rfl

/-! ## Ends -/

/-- What `ended` goes on with once the slot's timers are cancelled. -/
def Emit.afterEnd {before start : RunState} {now : Timestamp} (e : Emit before start now)
    (r : SlotRecord) (was : SlotState) (cause : EndCause) : Emit before start now :=
  if e.state.isFinishing then e
  else
    match was with
    | .replied .. | .stopping _ .nothing => e.armReady
    | .stopping _ (.restart exhausted) => e.restartOrPark r exhausted
    | _ => e.endedUnordered r cause

/-- The states an end is accepted from. -/
theorem factIgnored_ended {r : SlotRecord} {cause : EndCause}
    (h : factIgnored st r (.ended cause) = none) : r.state.isLive = true := by
  unfold factIgnored at h
  cases hs : r.state with
  | replied m esc rew process overdue l => cases process <;> simp_all [SlotState.isLive]
  | _ => simp_all [SlotState.isLive]

theorem ended_lands (h : Coh st) (hacc : ignoredReason st input = none) {key : SessionKey}
    {cause : EndCause} (hb : input.body = .sessionFact key (.ended cause)) :
    ∃ r g, ∃ e : Emit st (applyInput st input) input.now, st.sessionKey r.slot = key ∧
      r.state.isLive = true ∧
      SlotMove st input r (({ r with lastFact := some input.now } : SlotRecord).end' cause) g ∧
      Landed st e.state r (({ r with lastFact := some input.now } : SlotRecord).end' cause) g ∧
      emitted st input
        = e.afterEnd (({ r with lastFact := some input.now } : SlotRecord).end' cause) r.state
          cause := by
  obtain ⟨r, hfound, hig⟩ := accepted_sessionFact hacc hb
  obtain ⟨hr, rfl⟩ := (found_iff h).mp hfound
  obtain ⟨hrep, htimer, hemit⟩ := fact_start h hacc hb hfound
  have hc := h.slots r hr
  have hlive := factIgnored_ended hig
  refine ⟨r, _, (Emit.start st input).clearSlotTimers r.slot, rfl, hlive, .ended hb hlive, ?_, ?_⟩
  · refine lands h hrep.clearSlotTimers ?_ (fun _ => false) ?_ ?_ (fun _ h => by cases h) ?_
      (fun _ h => by cases h) (fun h => by cases h) ?_ ?_
    · cases r.state with
      | replied m esc rew process overdue l =>
        cases esc <;> constructor <;> simp [SlotRecord.end', SlotState.isRetired,
          SlotState.isEscalated, SlotState.isDone, SlotState.ladder, SlotState.isNamed]
      | _ =>
        constructor <;> simp [SlotRecord.end', SlotState.isRetired, SlotState.isEscalated,
          SlotState.isDone, SlotState.ladder, SlotState.isNamed]
    · intro p
      rw [timer_clearSlotTimers_self _ rfl]
      rfl
    · intro n
      rw [timer_clearSlotTimers_self _ rfl]
      rfl
    · cases r.state <;> simp [SlotRecord.mustArm, SlotRecord.end']
    · exact fun _ => SlotRecord.conditionFits_of_none rfl
    · exact fun _ => rfl
  · rw [hemit]
    rfl

/-! ## Replies -/

theorem reply_lands (h : Coh st) (hacc : ignoredReason st input = none) {key : SessionKey}
    {m : MessageId} {esc rew : Bool} (hb : input.body = .reply key m esc rew) :
    ∃ r g, ∃ e : Emit st (applyInput st input) input.now, st.sessionKey r.slot = key ∧
      r.state.isWorking = true ∧ st.isFinishing = false ∧
      SlotMove st input r (r.applyReply (hasEdge st r.slot.step) m esc rew) g ∧
      Landed st e.state r (r.applyReply (hasEdge st r.slot.step) m esc rew) g ∧
      emitted st input = (e.escalate key (r.applyReply (hasEdge st r.slot.step) m esc rew)).afterReply
        r.slot := by
  obtain ⟨r, hfound, hw, hfin⟩ := accepted_reply hacc hb
  obtain ⟨hr, rfl⟩ := (found_iff h).mp hfound
  obtain ⟨hrep, htimer⟩ := start_replaces (f := fun r =>
      r.applyReply (hasEdge st r.slot.step) m esc rew) h hacc hfound
    (applyBody_of_body hb) rfl
  refine ⟨r, _, ((Emit.start st input).clearSlotTimers r.slot).setSlotTimer r.slot
    ((Emit.start st input).clearSlotTimers r.slot).state.policy.stopGrace .windDown, rfl, hw, hfin,
    .replied hb hw hfin, ?_, ?_⟩
  · refine lands_working h (hrep.clearSlotTimers.setSlotTimer _ (by decide) (by decide)) hw rfl
      (fun h => by cases h) (fun p => p = .windDown) ?_ ?_ (fun _ h => by cases h) ?_ ?_ rfl
    · intro p
      rw [timer_setSlotTimer _ _ _ (by decide), timer_clearSlotTimers_self _ rfl]
      split <;> simp_all
    · intro n
      rw [timer_setSlotTimer _ _ _ (by decide), timer_clearSlotTimers_self _ rfl]
      rfl
    · intro p hp
      simpa [SlotRecord.mayArm, SlotRecord.applyReply] using hp
    · simp [SlotRecord.mustArm, SlotRecord.applyReply]
  · unfold emitted
    rw [hb]
    simp only [Emit.input, Emit.reply, hrep.found h.ordered]
    rfl

/-! ## Resumes -/

theorem minByKey_mem {α β : Type} [LT β] [DecidableLT β] {key : α → β} {l : List α} {a : α}
    (h : minByKey key l = some a) : a ∈ l := by
  induction l generalizing a with
  | nil => cases h
  | cons b l ih =>
    unfold minByKey at h
    cases hl : minByKey key l with
    | none =>
      simp only [hl, Option.some.injEq] at h
      exact h ▸ List.mem_cons_self
    | some c =>
      simp only [hl] at h
      split at h
      · cases h
        exact List.mem_cons_of_mem _ (ih hl)
      · cases h
        exact List.mem_cons_self

/-- What a `resume` acts on: a condition of a seat's last attempt. -/
theorem resumeTarget_spec {slot : Option Slot} {i : Nat} (h : Ordered st.ids)
    (hi : resumeTarget st slot = some i) :
    ∃ r c, st.slots[i]? = some r ∧ r ∈ st.slots ∧ r.condition = some c ∧
      ¬ Later st.ids r.slot := by
  have hcur : isCurrentCondition st i = true := by
    cases slot with
    | some s => exact (Option.filter_eq_some_iff.mp hi).2
    | none => exact (List.mem_filter.mp (minByKey_mem hi)).2
  unfold isCurrentCondition at hcur
  cases hr : st.slots[i]? with
  | none => simp [hr] at hcur
  | some r =>
    simp only [hr, Option.any_some, Bool.and_eq_true, Bool.not_eq_true'] at hcur
    obtain ⟨c, hc⟩ := Option.isSome_iff_exists.mp hcur.1
    have hmem := List.mem_of_getElem? hr
    refine ⟨r, c, rfl, hmem, hc, fun hl => ?_⟩
    rw [(RunState.isSuperseded_eq h hmem).mpr hl] at hcur
    cases hcur.2

theorem SlotRecord.applyResume_slot (r : SlotRecord) : r.applyResume.slot = r.slot := by
  unfold SlotRecord.applyResume
  split <;> rfl

theorem SlotRecord.applyResume_condition (r : SlotRecord) : r.applyResume.condition = none := by
  unfold SlotRecord.applyResume
  split <;> rfl

/-- What a `resume` goes on with. -/
theorem resume_lands (h : Coh st) (hacc : ignoredReason st input = none) {slot : Option Slot}
    (hb : input.body = .resume slot) :
    ∃ r c g, ∃ e : Emit st (applyInput st input) input.now, r.condition = some c ∧
      ¬ Later st.ids r.slot ∧ st.isFinishing = false ∧
      SlotMove st input r r.applyResume g ∧ Landed st e.state r r.applyResume g ∧
      emitted st input = if c.isWouldNotStop = true then e else e.restart r.slot := by
  obtain ⟨hfin, i, hi⟩ := accepted_resume hacc hb
  obtain ⟨r, c, hget, hr, hcond, hlast⟩ := resumeTarget_spec h.ordered hi
  have hc := h.slots r hr
  have hstate : (Emit.start st input).state = st.upd r.slot SlotRecord.applyResume := by
    rw [start_state hacc]
    simp only [applyBody, hb, hi]
    exact RunState.modifySlot_eq_upd h.ordered hget
  have hrep : Replaces st (Emit.start st input).state r r.applyResume := by
    rw [hstate]
    exact Replaces.of_upd h.ordered hr r.applyResume_slot
  have htimer : ∀ t, (Emit.start st input).state.timer t = st.timer t := by
    intro t
    rw [hstate]
    rfl
  have hrec : st.recordAt (resumeTarget st slot) = some r := by
    rw [hi]
    exact hget
  have hfits := hc.condition hlast c hcond
  cases hw : c.isWouldNotStop with
  | true =>
    rw [if_pos hw] at hfits
    refine ⟨r, c, _, Emit.start st input, hcond, hlast, hfin, .resumed hb hcond hlast hfin, ?_, ?_⟩
    · have hr' : r.applyResume = { r with
          condition := none
          state := r.state.mapLadder fun l => { l with signalsSent := 0, fired := .none } } := by
        unfold SlotRecord.applyResume
        rw [hcond, Option.any_some, if_pos hw]
      rw [hr'] at hrep ⊢
      refine lands_stopping h hrep hfits (SlotState.becomes_mapLadder _ hc.alive hc.named) ?_
        (fun p => htimer _) (fun n => by rw [htimer]; rfl)
        (fun _ => SlotRecord.conditionFits_of_none rfl) (fun _ => rfl)
      simp only [SlotState.mapLadder_ladder, Option.isSome_map]
      exact hfits
    · unfold emitted
      rw [hb]
      simp only [Emit.input, Emit.resume, hrec, hcond]
      cases c with
      | held reason u o => cases hw
      | parked reason o s =>
        cases reason <;> simp [SlotCondition.isWouldNotStop] at hw ⊢
  | false =>
    rw [if_neg (by rw [hw]; exact Bool.false_ne_true)] at hfits
    obtain ⟨cause, hs⟩ := hfits
    have hr' : r.applyResume = { r with condition := none, fresh := true } := by
      unfold SlotRecord.applyResume
      rw [hcond, Option.any_some, if_neg (by rw [hw]; exact Bool.false_ne_true)]
    -- A hold cancels its retry first; a park has none.
    have hland : ∀ e : Emit st (applyInput st input) input.now,
        Replaces st e.state r r.applyResume →
        (∀ p, (e.state.timer (.slot p r.slot)).isSome = false) →
        (∀ n, (e.state.timer (.grace n r.slot)).isSome = st.graceArmed r.slot n) →
        Landed st e.state r r.applyResume (st.graceArmed r.slot) := by
      intro e hrep hT hG
      rw [hr'] at hrep ⊢
      refine lands h hrep ?_ (fun _ => false) hT hG (fun _ h => by cases h) ?_ hc.grace
        (fun h => by cases h)
        (fun _ => SlotRecord.conditionFits_of_none rfl) (fun _ => rfl)
      · rw [hs]
        exact ⟨id, id, id, (fun h => by cases h), rfl⟩
      · simp [SlotRecord.mustArm, hs]
    cases c with
    | held reason u o =>
      refine ⟨r, _, _, (Emit.start st input).clearSlotTimer r.slot .holdRetry, hcond, hlast, hfin,
        .resumed hb hcond hlast hfin, hland _ (hrep.clearSlotTimer _) ?_ ?_, ?_⟩
      · intro p
        rw [timer_clearSlotTimer, htimer]
        split
        · rfl
        · rename_i hp
          by_contra hne
          rw [Bool.not_eq_false] at hne
          have hmay := hc.may p hne
          simp only [SlotRecord.mayArm, hs, hcond, Option.any_some, SlotCondition.isHeld, if_true,
            List.mem_singleton] at hmay
          exact hp (by rw [hmay])
      · intro n
        rw [timer_clearSlotTimer, htimer]
        rfl
      · unfold emitted
        rw [hb]
        simp only [Emit.input, Emit.resume, hrec, hcond]
        rfl
    | parked reason o s =>
      refine ⟨r, _, _, Emit.start st input, hcond, hlast, hfin, .resumed hb hcond hlast hfin,
        hland _ hrep ?_ ?_, ?_⟩
      · intro p
        rw [htimer]
        by_contra hne
        rw [Bool.not_eq_false] at hne
        have hmay := hc.may p hne
        simp [SlotRecord.mayArm, hs, hcond, SlotCondition.isHeld] at hmay
      · intro n
        rw [htimer]
        rfl
      · have hne : reason ≠ .wouldNotStop := by
          rintro rfl
          cases hw
        unfold emitted
        rw [hb]
        simp only [Emit.input, Emit.resume, hrec, hcond, if_neg hne, hw, Bool.false_eq_true,
          if_false]

end Inputs

end NexusFlow.Run
