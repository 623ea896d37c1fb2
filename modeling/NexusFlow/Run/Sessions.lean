import NexusFlow.Run.Accepts

/-!
# What a session's inputs do to its record

Each input that names a session, and each of its timers that fires, replaces one record and changes
timers of its slot only. This file says so (`Replaces`) for all of them, up to the point where
`decide` goes on to the rest of the run (a restart, a park, the end of a step), and proves that the
state is coherent there.
-/

namespace NexusFlow.Run

open NexusFlow.Lib

/-! ## Changing one record -/

/-- What a change of a slot's state never undoes. -/
structure SlotState.Becomes (s s' : SlotState) : Prop where
  retired : s.isRetired = true → s'.isRetired = true
  escalated : s.isEscalated = true → s'.isEscalated = true
  done : s.isDone = true → s'.isDone = true
  alive : s'.ladder.isSome = true → s'.isLive = true
  named : s'.isNamed = true

theorem Coh.change {st st' : RunState} {r r' : SlotRecord} (h : Coh st)
    (hrep : Replaces st st' r r') (hstate : r.state.Becomes r'.state)
    (hmay : ∀ p, (st'.timer (.slot p r.slot)).isSome = true → p ∈ r'.mayArm)
    (hmust : ∀ p ∈ r'.mustArm, (st'.timer (.slot p r.slot)).isSome = true)
    (hgrace : ∀ n, (st'.timer (.grace n r.slot)).isSome = true → r'.state.ladder.isSome = true)
    (hretry : (st'.timer (.slot .holdRetry r.slot)).isSome = true → ¬ Later st.ids r.slot)
    (hcond : ¬ Later st.ids r.slot → r'.ConditionFits)
    (hheld : st.isOver = true → r'.condition.any SlotCondition.isHeld = false) : Coh st' := by
  have hc := h.slots r hrep.mem
  refine h.replace hrep ?_ hstate.escalated hstate.done
  refine ⟨?_, ?_, ?_, ?_, hstate.alive, hstate.named, ?_, ?_, ?_⟩
  · rw [hrep.slot]
    exact hmay
  · rw [hrep.slot]
    exact hmust
  · rw [hrep.slot]
    exact hgrace
  · rw [hrep.slot, hrep.ids_eq]
    exact hretry
  · rw [hrep.slot, hrep.ids_eq]
    exact hcond
  · rw [hrep.slot, hrep.ids_eq]
    exact fun hl => hstate.retired (hc.retired hl)
  · rw [hrep.isOver_eq]
    exact fun ho => ⟨hstate.retired (hc.isOver ho).1, hheld ho⟩

/-- An attempt that is not over is the last of its seat, in a run that is not over. -/
theorem Coherent.not_retired {st : RunState} {r : SlotRecord} (h : Coherent st r)
    (hr : r.state.isRetired = false) : ¬ Later st.ids r.slot ∧ st.isOver = false := by
  constructor
  · intro hl
    rw [h.retired hl] at hr
    cases hr
  · by_contra ho
    rw [(h.isOver (by simpa using ho)).1] at hr
    cases hr

/-- Which timers of its slot are armed, in a coherent state whose `mayArm` and `mustArm` agree. -/
theorem Coherent.armed_iff {st : RunState} {r : SlotRecord} (h : Coherent st r)
    (heq : r.mayArm = r.mustArm) (p : TimerPurpose) :
    (st.timer (.slot p r.slot)).isSome = true ↔ p ∈ r.mustArm :=
  ⟨fun hs => heq ▸ h.may p hs, h.must p⟩

/-- A condition that fits nothing but an end or a stop stands on no other state. -/
theorem SlotRecord.ConditionFits.none {r : SlotRecord} (h : r.ConditionFits)
    (hladder : r.state.ladder = none) (hended : ∀ cause, r.state ≠ .ended cause) :
    r.condition = none := by
  cases hc : r.condition with
  | none => rfl
  | some c =>
    have := h c hc
    split at this
    · rw [hladder] at this
      cases this
    · obtain ⟨cause, hcause⟩ := this
      exact absurd hcause (hended cause)

theorem SlotRecord.conditionFits_of_none {r : SlotRecord} (h : r.condition = none) :
    r.ConditionFits := by
  intro c hc
  rw [h] at hc
  cases hc

/-! ## Addressing a record -/

/-- The record an accepted session input names. -/
theorem found_iff {st : RunState} (h : Coh st) {key : SessionKey} {r : SlotRecord} :
    st.recordAt (st.find key) = some r ↔ r ∈ st.slots ∧ st.sessionKey r.slot = key :=
  RunState.recordAt_find h.ordered

/-- Where `find` finds a record, the update it is for is the one of the record's slot. -/
theorem modifyFound {st : RunState} (h : Ordered st.ids) {key : SessionKey} {r : SlotRecord}
    (hrec : st.recordAt (st.find key) = some r) (f : SlotRecord → SlotRecord) :
    (match st.find key with
      | none => st
      | some i => st.modifySlot i f) = st.upd r.slot f := by
  cases hfind : st.find key with
  | none =>
    rw [hfind] at hrec
    cases hrec
  | some i => exact RunState.modifyFound_eq_upd h hfind hrec f

/-- The replaced record is the one found under its session's key. -/
theorem Replaces.found {st st' : RunState} {r r' : SlotRecord} (h : Replaces st st' r r')
    (hord : Ordered st.ids) : st'.recordAt (st'.find (st.sessionKey r.slot)) = some r' := by
  have hord' : Ordered st'.ids := h.ids_eq ▸ hord
  refine (RunState.recordAt_find hord').mpr ⟨h.mem_new, ?_⟩
  rw [h.slot]
  unfold RunState.sessionKey
  rw [h.keeps RunState.run fun _ => rfl]

/-- The replaced record is the one found at its slot. -/
theorem Replaces.foundSlot {st st' : RunState} {r r' : SlotRecord} (h : Replaces st st' r r')
    (hord : Ordered st.ids) : st'.recordAt (st'.findSlot r.slot) = some r' :=
  (RunState.recordAt_findSlot (h.ids_eq ▸ hord)).mpr ⟨h.mem_new, h.slot⟩

/-- The replaced record stands where it stood. -/
theorem Replaces.find_eq {st st' : RunState} {r r' : SlotRecord} (h : Replaces st st' r r')
    (key : SessionKey) : st'.find key = st.find key := by
  unfold RunState.find
  have hrun : st'.run = st.run := h.keeps RunState.run fun _ => rfl
  have hkey : ∀ slots : List SlotRecord,
      slots.findIdx? (fun r => st.sessionKey r.slot == key)
        = (slots.map SlotRecord.slot).findIdx? fun s => st.sessionKey s == key := by
    intro slots
    rw [List.findIdx?_map]
    rfl
  have hsame : (fun r : SlotRecord => st'.sessionKey r.slot == key)
      = fun r => st.sessionKey r.slot == key := by
    funext r
    unfold RunState.sessionKey
    rw [hrun]
  have hids : st'.slots.map SlotRecord.slot = st.slots.map SlotRecord.slot := h.ids_eq
  rw [hsame, hkey, hkey, hids]

/-! ## Signs of life -/

section Emit

variable {before st start : RunState} {now : Timestamp} {r r' : SlotRecord}

theorem Replaces.clearSlotTimer {e : Emit before start now} (h : Replaces st e.state r r')
    (p : TimerPurpose) : Replaces st (e.clearSlotTimer r.slot p).state r r' := by
  rw [Emit.state_clearSlotTimer]
  exact h.disarm rfl

theorem Replaces.setSlotTimer {e : Emit before start now} (h : Replaces st e.state r r')
    (span : Secs) {p : TimerPurpose} (hp : p ≠ .startDeadline) (hp' : p ≠ .stopGrace) :
    Replaces st (e.setSlotTimer r.slot span p).state r r' := by
  rw [Emit.state_setSlotTimer e hp]
  exact h.arm rfl ⟨rfl, hp'⟩

theorem Replaces.clearSlotTimers {e : Emit before start now} (h : Replaces st e.state r r') :
    Replaces st (e.clearSlotTimers r.slot).state r r' := by
  rw [Emit.state_clearSlotTimers]
  exact h.disarmSlot

/-- The timers of a slot after one of them is cancelled. -/
theorem timer_clearSlotTimer (e : Emit before start now) (s : Slot) (p : TimerPurpose) (t : TimerId) :
    (e.clearSlotTimer s p).state.timer t = if t = .slot p s then none else e.state.timer t := by
  rw [Emit.state_clearSlotTimer, RunState.timer_disarm]

theorem timer_setSlotTimer (e : Emit before start now) (s : Slot) (span : Secs) {p : TimerPurpose}
    (hp : p ≠ .startDeadline) (t : TimerId) : (e.setSlotTimer s span p).state.timer t
      = if t = .slot p s then some ⟨now.plus span, p⟩ else e.state.timer t := by
  rw [Emit.state_setSlotTimer e hp, RunState.timer_arm]

theorem timer_clearSlotTimers (e : Emit before start now) (s : Slot) (t : TimerId) :
    (e.clearSlotTimers s).state.timer t = if t.slot? = some s then none else e.state.timer t := by
  rw [Emit.state_clearSlotTimers, RunState.timer_disarmSlot]

/-- The timers after one is cancelled under a condition. -/
theorem timer_clearIf (b : Bool) (e : Emit before start now) (s : Slot) (p : TimerPurpose)
    (t : TimerId) : (if b = true then e.clearSlotTimer s p else e).state.timer t
      = if b = true ∧ t = .slot p s then none else e.state.timer t := by
  cases b
  · simp
  · simp [timer_clearSlotTimer]

/-- The timers after one is armed under a condition. -/
theorem timer_setIf (b : Bool) (e : Emit before start now) (s : Slot) (span : Secs) {p : TimerPurpose}
    (hp : p ≠ .startDeadline) (t : TimerId) :
    (if b = true then e.setSlotTimer s span p else e).state.timer t
      = if b = true ∧ t = .slot p s then some ⟨now.plus span, p⟩ else e.state.timer t := by
  cases b
  · simp
  · simp [timer_setSlotTimer e s span hp]

theorem Replaces.clearIf {e : Emit before start now} (h : Replaces st e.state r r') (b : Bool)
    (p : TimerPurpose) :
    Replaces st (if b = true then e.clearSlotTimer r.slot p else e).state r r' := by
  cases b
  · exact h
  · exact h.clearSlotTimer p

theorem Replaces.setIf {e : Emit before start now} (h : Replaces st e.state r r') (b : Bool)
    (span : Secs) {p : TimerPurpose} (hp : p ≠ .startDeadline) (hp' : p ≠ .stopGrace) :
    Replaces st (if b = true then e.setSlotTimer r.slot span p else e).state r r' := by
  cases b
  · exact h
  · exact h.setSlotTimer span hp hp'

/-- With no call open: `quiet` is armed, if it was or where the beat arms it. -/
theorem rearmClosed_spec {e : Emit before start now} (h : Replaces st e.state r r')
    (wasQuiet : Bool) (beat : Option HeartbeatKind) :
    Replaces st (e.rearmClosed r.slot wasQuiet beat).state r r' ∧
      (∀ n, (e.rearmClosed r.slot wasQuiet beat).state.timer (.grace n r.slot)
        = e.state.timer (.grace n r.slot)) ∧
      ∀ p, ((e.rearmClosed r.slot wasQuiet beat).state.timer (.slot p r.slot)).isSome =
        match p with
        | .subprocessIdle | .callBound => false
        | .quiet => wasQuiet || beat.any Emit.HeartbeatKind.rearmsQuiet ||
            (e.state.timer (.slot .quiet r.slot)).isSome
        | p => (e.state.timer (.slot p r.slot)).isSome := by
  unfold Emit.rearmClosed
  have h2 := (h.clearSlotTimer .subprocessIdle).clearSlotTimer .callBound
  simp only
  split
  · rename_i hq
    refine ⟨h2.setSlotTimer _ (by decide) (by decide), ?_, ?_⟩
    · intro n
      simp [timer_setSlotTimer, timer_clearSlotTimer]
    · intro p
      cases p <;> simp [timer_setSlotTimer, timer_clearSlotTimer, hq]
  · rename_i hq
    refine ⟨h2, ?_, ?_⟩
    · intro n
      simp [timer_clearSlotTimer]
    · intro p
      rw [Bool.not_eq_true] at hq
      cases p <;> simp [timer_clearSlotTimer, hq]

/-- With a call open: `subprocess_idle` needs a host that samples, `call_bound` a blind one. -/
theorem rearmOpen_spec {e : Emit before start now} (h : Replaces st e.state r r')
    (blind sampling wasQuiet : Bool) (beat : Option HeartbeatKind) :
    Replaces st (e.rearmOpen r.slot blind sampling wasQuiet beat).state r r' ∧
      (∀ n, (e.rearmOpen r.slot blind sampling wasQuiet beat).state.timer (.grace n r.slot)
        = e.state.timer (.grace n r.slot)) ∧
      ∀ p, ((e.rearmOpen r.slot blind sampling wasQuiet beat).state.timer (.slot p r.slot)).isSome =
        match p with
        | .quiet => false
        | .subprocessIdle => !blind && (wasQuiet || beat == some .callsOpen ||
            beat == some .subprocessMoved || (e.state.timer (.slot .subprocessIdle r.slot)).isSome)
        | .callBound => !sampling && (wasQuiet || beat == some .callsOpen ||
            beat == some .blind || (e.state.timer (.slot .callBound r.slot)).isSome)
        | p => (e.state.timer (.slot p r.slot)).isSome := by
  unfold Emit.rearmOpen
  simp only
  refine ⟨?_, ?_, ?_⟩
  · exact ((((h.clearSlotTimer .quiet).clearIf _ _).clearIf _ _).setIf _ _ (by decide)
      (by decide)).setIf _ _ (by decide) (by decide)
  · intro n
    simp only [timer_setIf _ _ _ _ (show TimerPurpose.callBound ≠ .startDeadline by decide),
      timer_setIf _ _ _ _ (show TimerPurpose.subprocessIdle ≠ .startDeadline by decide),
      timer_clearIf, timer_clearSlotTimer, reduceCtorEq, and_false, if_false]
  · intro p
    simp only [timer_setIf _ _ _ _ (show TimerPurpose.callBound ≠ .startDeadline by decide),
      timer_setIf _ _ _ _ (show TimerPurpose.subprocessIdle ≠ .startDeadline by decide),
      timer_clearIf, timer_clearSlotTimer, TimerId.slot.injEq, and_true]
    cases p <;> cases blind <;> cases sampling <;> simp
    all_goals (split <;> simp_all)

end Emit

/-! ## The inputs -/

section Inputs

variable {st : RunState} {input : Event} {r : SlotRecord}

theorem applyBody_of_body {body : EventBody} (hb : input.body = body) :
    applyBody st input = applyBody st { input with body } := by
  rw [← hb]

/-- Where an input's body changes the record found under a key, `decide` starts from that change. -/
theorem start_replaces (h : Coh st) (hacc : ignoredReason st input = none) {key : SessionKey}
    (hfound : st.recordAt (st.find key) = some r) {f : SlotRecord → SlotRecord}
    (hbody : applyBody st input = match st.find key with
      | none => st
      | some i => st.modifySlot i f) (hf : (f r).slot = r.slot) :
    Replaces st (Emit.start st input).state r (f r) ∧
      ∀ t, (Emit.start st input).state.timer t = st.timer t := by
  rw [start_state hacc, hbody, modifyFound h.ordered hfound]
  exact ⟨Replaces.of_upd h.ordered ((found_iff h).mp hfound).1 hf, fun _ => rfl⟩

/-- A change of one record lands, where the timers armed after it are those the new state is
watched by. -/
theorem lands {mid : RunState} {r' : SlotRecord} {g : Nat → Bool} (h : Coh st)
    (hrep : Replaces st mid r r') (hstate : r.state.Becomes r'.state) (T : TimerPurpose → Bool)
    (hT : ∀ p, (mid.timer (.slot p r.slot)).isSome = T p)
    (hG : ∀ n, (mid.timer (.grace n r.slot)).isSome = g n)
    (hmay : ∀ p, T p = true → p ∈ r'.mayArm) (hmust : ∀ p ∈ r'.mustArm, T p = true)
    (hgrace : ∀ n, g n = true → r'.state.ladder.isSome = true)
    (hretry : T .holdRetry = true → ¬ Later st.ids r.slot)
    (hcond : ¬ Later st.ids r.slot → r'.ConditionFits)
    (hheld : st.isOver = true → r'.condition.any SlotCondition.isHeld = false) :
    Landed st mid r r' g where
  replaces := hrep
  graces := hG
  coh := by
    refine h.change hrep hstate (fun p => ?_) (fun p => ?_) (fun n => ?_) ?_ hcond hheld
    · rw [hT]
      exact hmay p
    · rw [hT]
      exact hmust p
    · rw [hG]
      exact hgrace n
    · rw [hT]
      exact hretry

/-- A slot with no stop under way has no grace armed. -/
theorem Coherent.graceArmed_false (hc : Coherent st r) (hl : r.state.ladder = none) (n : Nat) :
    st.graceArmed r.slot n = false := by
  by_contra hne
  have := hc.grace n (by simpa only [RunState.graceArmed, Bool.not_eq_false] using hne)
  rw [hl] at this
  cases this

theorem SlotState.isWorking_ladder {s : SlotState} (h : s.isWorking = true) : s.ladder = none := by
  cases s <;> simp_all [SlotState.isWorking, SlotState.ladder]

theorem SlotState.isWorking_retired {s : SlotState} (h : s.isWorking = true) :
    s.isRetired = false := by
  cases s <;> simp_all [SlotState.isWorking, SlotState.isRetired]

theorem SlotState.isWorking_becomes {s s' : SlotState} (h : s.isWorking = true)
    (halive : s'.ladder.isSome = true → s'.isLive = true) (hnamed : s'.isNamed = true) :
    s.Becomes s' := by
  cases s <;> simp only [SlotState.isWorking, Bool.false_eq_true] at h
  all_goals exact
    ⟨(fun h => by cases h), (fun h => by cases h), (fun h => by cases h), halive, hnamed⟩

/-- A working slot has no condition, and it is the last of its seat in a run that goes on. -/
theorem Coherent.working (hc : Coherent st r) (hw : r.state.isWorking = true) :
    r.condition = none ∧ ¬ Later st.ids r.slot ∧ st.isOver = false := by
  obtain ⟨hlast, hover⟩ := hc.not_retired (SlotState.isWorking_retired hw)
  refine ⟨(hc.condition hlast).none (SlotState.isWorking_ladder hw) ?_, hlast, hover⟩
  intro cause hcause
  rw [hcause] at hw
  cases hw

/-- `lands` for a slot at work: nothing can be in its way. -/
theorem lands_working {mid : RunState} {r' : SlotRecord} {g : Nat → Bool} (h : Coh st)
    (hrep : Replaces st mid r r') (hw : r.state.isWorking = true)
    (hcond : r'.condition = r.condition)
    (halive : r'.state.ladder.isSome = true → r'.state.isLive = true) (T : TimerPurpose → Bool)
    (hT : ∀ p, (mid.timer (.slot p r.slot)).isSome = T p)
    (hG : ∀ n, (mid.timer (.grace n r.slot)).isSome = g n)
    (hg : ∀ n, g n = true → st.graceArmed r.slot n = true)
    (hmay : ∀ p, T p = true → p ∈ r'.mayArm) (hmust : ∀ p ∈ r'.mustArm, T p = true)
    (hnamed : r'.state.isNamed = true) : Landed st mid r r' g := by
  have hc := h.slots r hrep.mem
  obtain ⟨hnone, hlast, hover⟩ := hc.working hw
  refine lands h hrep (SlotState.isWorking_becomes hw halive hnamed) T hT hG hmay hmust ?_
    (fun _ => hlast) (fun _ => SlotRecord.conditionFits_of_none (hcond.trans hnone)) ?_
  · intro n hn
    have := hg n hn
    rw [hc.graceArmed_false (SlotState.isWorking_ladder hw)] at this
    cases this
  · rw [hover]
    exact fun h => by cases h

theorem nudged_lands (h : Coh st) (hacc : ignoredReason st input = none) {key : SessionKey}
    (hb : input.body = .nudged key) :
    ∃ r r' g, SlotMove st input r r' g ∧ Landed st (emitted st input).state r r' g := by
  obtain ⟨r, hfound, since, oc, hs⟩ := accepted_nudged hacc hb
  obtain ⟨hr, rfl⟩ := (found_iff h).mp hfound
  obtain ⟨hrep, htimer⟩ := start_replaces h hacc hfound (applyBody_of_body hb)
    (by simp only [hs])
  simp only [hs] at hrep
  have hemit : (emitted st input).state = ((Emit.start st input).setSlotTimer r.slot
      (Emit.start st input).state.policy.confirmWithin .confirm).state := by
    unfold emitted
    rw [hb]
    simp only [Emit.input, Emit.nudged, hrep.found h.ordered]
  refine ⟨r, _, _, .nudged hb hs, ?_⟩
  rw [hemit]
  refine lands_working h (hrep.setSlotTimer _ (by decide) (by decide)) (by rw [hs]; rfl) rfl
    (fun h => by cases h)
    (fun p => p = .confirm || (st.timer (.slot p r.slot)).isSome) ?_ ?_ (fun _ hn => hn) ?_ ?_ rfl
  · intro p
    rw [timer_setSlotTimer _ _ _ (by decide), htimer]
    split <;> simp_all
  · intro n
    rw [timer_setSlotTimer _ _ _ (by decide), htimer]
    rfl
  · intro p hp
    have hmay := (h.slots r hr).may p
    simp only [SlotRecord.mayArm, hs, List.mem_singleton, Bool.or_eq_true, decide_eq_true_eq]
      at hp hmay ⊢
    exact hp.elim id hmay
  · simp [SlotRecord.mustArm]

/-! ### Signals -/

theorem SlotState.mapLadder_ladder (s : SlotState) (f : Ladder → Ladder) :
    (s.mapLadder f).ladder = s.ladder.map f := by
  cases s <;> rfl

theorem SlotState.mapLadder_isLive (s : SlotState) (f : Ladder → Ladder) :
    (s.mapLadder f).isLive = s.isLive := by
  cases s <;> rfl

theorem SlotState.mapLadder_isRetired (s : SlotState) (f : Ladder → Ladder) :
    (s.mapLadder f).isRetired = s.isRetired := by
  cases s with
  | stopping l after => cases after <;> rfl
  | _ => rfl

theorem SlotState.mapLadder_isEscalated (s : SlotState) (f : Ladder → Ladder) :
    (s.mapLadder f).isEscalated = s.isEscalated := by
  cases s with
  | replied m esc _ _ _ _ => cases esc <;> rfl
  | _ => rfl

theorem SlotState.mapLadder_isDone (s : SlotState) (f : Ladder → Ladder) :
    (s.mapLadder f).isDone = s.isDone := by
  cases s with
  | replied m esc _ _ _ _ => cases esc <;> rfl
  | _ => rfl

theorem SlotState.mapLadder_isNamed (s : SlotState) (f : Ladder → Ladder) :
    (s.mapLadder f).isNamed = s.isNamed := by
  cases s with
  | stopping l after =>
    cases after with
    | nothing => rfl
    | restart reason => cases reason <;> rfl
  | _ => rfl

/-- A change of the ladder undoes nothing. -/
theorem SlotState.becomes_mapLadder {s : SlotState} (f : Ladder → Ladder)
    (halive : s.ladder.isSome = true → s.isLive = true) (hnamed : s.isNamed = true) :
    s.Becomes (s.mapLadder f) where
  named := by rwa [SlotState.mapLadder_isNamed]
  retired h := by rwa [SlotState.mapLadder_isRetired]
  escalated h := by rwa [SlotState.mapLadder_isEscalated]
  done h := by rwa [SlotState.mapLadder_isDone]
  alive h := by
    rw [SlotState.mapLadder_ladder, Option.isSome_map] at h
    rw [SlotState.mapLadder_isLive]
    exact halive h

/-- A slot with a stop under way is watched by its graces alone. -/
theorem SlotRecord.arms_of_ladder {r : SlotRecord} (h : r.state.ladder.isSome = true) :
    r.mayArm = [] ∧ r.mustArm = [] := by
  unfold SlotRecord.mayArm SlotRecord.mustArm
  cases hs : r.state with
  | replied m esc rew process overdue l =>
    cases l with
    | none => simp [hs, SlotState.ladder] at h
    | some l => cases process <;> exact ⟨rfl, rfl⟩
  | stopping l after => exact ⟨rfl, rfl⟩
  | _ => simp [hs, SlotState.ladder] at h

/-- `lands` for a slot whose stop is under way and stays so. -/
theorem lands_stopping {mid : RunState} {r' : SlotRecord} {g : Nat → Bool} (h : Coh st)
    (hrep : Replaces st mid r r') (hl : r.state.ladder.isSome = true)
    (hstate : r.state.Becomes r'.state) (hl' : r'.state.ladder.isSome = true)
    (hT : ∀ p, mid.timer (.slot p r.slot) = st.timer (.slot p r.slot))
    (hG : ∀ n, (mid.timer (.grace n r.slot)).isSome = g n)
    (hcond : ¬ Later st.ids r.slot → r'.ConditionFits)
    (hheld : st.isOver = true → r'.condition.any SlotCondition.isHeld = false) :
    Landed st mid r r' g := by
  have hc := h.slots r hrep.mem
  have hnone : ∀ p, (st.timer (.slot p r.slot)).isSome = false := by
    intro p
    by_contra hne
    have := hc.may p (by simpa only [Bool.not_eq_false] using hne)
    rw [(SlotRecord.arms_of_ladder hl).1] at this
    cases this
  refine lands h hrep hstate (fun _ => false) ?_ hG (fun _ h => by cases h) ?_ (fun _ _ => hl')
    (fun h => by cases h) hcond hheld
  · intro p
    rw [hT, hnone]
  · rw [(SlotRecord.arms_of_ladder hl').2]
    exact fun _ h => by cases h

theorem SlotRecord.ConditionFits.of_eq {r r' : SlotRecord} (h : r.ConditionFits)
    (hcond : r'.condition = r.condition)
    (hladder : r.state.ladder.isSome = true → r'.state.ladder.isSome = true)
    (hended : ∀ cause, r.state = .ended cause → ∃ cause', r'.state = .ended cause') :
    r'.ConditionFits := by
  intro c hc
  have := h c (hcond ▸ hc)
  split
  · rename_i hw
    rw [if_pos hw] at this
    exact hladder this
  · rename_i hw
    rw [if_neg hw] at this
    obtain ⟨cause, hcause⟩ := this
    exact hended cause hcause

/-- A change of the ladder alone keeps the condition in its place. -/
theorem SlotRecord.ConditionFits.mapLadder {r r' : SlotRecord} (h : r.ConditionFits)
    (hcond : r'.condition = r.condition) {f : Ladder → Ladder}
    (hs : r'.state = r.state.mapLadder f) : r'.ConditionFits := by
  refine h.of_eq hcond (fun hl => ?_) (fun cause hcause => ⟨cause, ?_⟩)
  · rw [hs, SlotState.mapLadder_ladder, Option.isSome_map]
    exact hl
  · rw [hs, hcause]
    rfl

theorem SlotRecord.applySignal_ladder {r : SlotRecord} {l : Ladder}
    (hl : r.state.ladder = some l) : r.applySignal.state.ladder
      = some { l with signalsSent := min (l.signalsSent + 1) 255, total := l.total + 1 } := by
  show (r.state.mapLadder _).ladder = _
  rw [SlotState.mapLadder_ladder, hl]
  rfl

/-- What `stop_signalled` decides: the grace of one of the first two signals of a round. -/
theorem emitted_stopSignalled (h : Coh st) (hacc : ignoredReason st input = none) {l : Ladder}
    {nth : Nat} {signal : StopKind} (hr : r ∈ st.slots) (hl : r.state.ladder = some l)
    (hb : input.body = .stopSignalled (st.sessionKey r.slot) nth signal) :
    emitted st input
      = if min (l.signalsSent + 1) 255 = 1 ∨ min (l.signalsSent + 1) 255 = 2 then
          (Emit.start st input).setTimer (graceTimer (min (l.signalsSent + 1) 255) r.slot)
            (Emit.start st input).state.policy.stopGrace .stopGrace
        else Emit.start st input := by
  obtain ⟨hrep, -⟩ := start_replaces (f := SlotRecord.applySignal) h hacc
    ((found_iff h).mpr ⟨hr, rfl⟩) (applyBody_of_body hb) rfl
  unfold emitted
  rw [hb]
  simp only [Emit.input, Emit.stopSignalled, hrep.found h.ordered, SlotRecord.applySignal_ladder hl,
    Option.map_some, Option.getD_some]
  rfl

theorem stopSignalled_lands (h : Coh st) (hacc : ignoredReason st input = none) {key : SessionKey}
    {nth : Nat} {signal : StopKind} (hb : input.body = .stopSignalled key nth signal) :
    ∃ r r' g, SlotMove st input r r' g ∧ Landed st (emitted st input).state r r' g := by
  obtain ⟨r, l, hfound, hl, hnth⟩ := accepted_stopSignalled hacc hb
  obtain ⟨hr, rfl⟩ := (found_iff h).mp hfound
  obtain ⟨hrep, htimer⟩ := start_replaces (f := SlotRecord.applySignal) h hacc hfound
    (applyBody_of_body hb) rfl
  have hc := h.slots r hr
  have hsome : r.state.ladder.isSome = true := by rw [hl]; rfl
  have hladder := SlotRecord.applySignal_ladder hl
  have hemit := emitted_stopSignalled h hacc hr hl hb
  refine ⟨r, _, _, .signalled hb hl hnth, ?_⟩
  have hbecomes : r.state.Becomes r.applySignal.state := SlotState.becomes_mapLadder _ hc.alive hc.named
  have hfits : ¬ Later st.ids r.slot → r.applySignal.ConditionFits :=
    fun hlast => (hc.condition hlast).mapLadder rfl rfl
  have hheld : st.isOver = true → r.applySignal.condition.any SlotCondition.isHeld = false :=
    fun ho => (hc.isOver ho).2
  have hsome' : r.applySignal.state.ladder.isSome = true := by rw [hladder]; rfl
  rw [hemit]
  split
  · rename_i hsent
    have hstate : ((Emit.start st input).setTimer (graceTimer (min (l.signalsSent + 1) 255) r.slot)
        (Emit.start st input).state.policy.stopGrace .stopGrace).state
          = (Emit.start st input).state.arm (.grace (min (l.signalsSent + 1) 255) r.slot) _ :=
      Emit.state_setTimer _ (by decide) (.grace _ r.slot) _
    rw [hstate]
    refine lands_stopping h (hrep.arm rfl ⟨rfl, hsent⟩) hsome hbecomes hsome' ?_ ?_ hfits hheld
    · intro p
      rw [RunState.timer_arm, if_neg (by simp), htimer]
    · intro n
      rw [RunState.timer_arm, htimer]
      have hmin : min (l.signalsSent + 1) 255 = l.signalsSent + 1 := by omega
      have hle : l.signalsSent + 1 ≤ 2 := by omega
      rw [hmin]
      by_cases hn : n = l.signalsSent + 1
      · subst hn
        simp [hle]
      · simp [hn, RunState.graceArmed]
  · rename_i hsent
    refine lands_stopping h hrep hsome hbecomes hsome' (fun p => htimer _) ?_ hfits hheld
    intro n
    rw [htimer]
    have hn : (n == l.signalsSent + 1 && Decidable.decide (n ≤ 2)) = false := by
      simp only [Bool.and_eq_false_iff, beq_eq_false_iff_ne, decide_eq_false_iff_not]
      omega
    rw [hn]
    rfl

/-! ### Facts -/

theorem SlotRecord.revive_slot (r : SlotRecord) : r.revive.slot = r.slot := by
  unfold SlotRecord.revive
  split <;> rfl

theorem SlotRecord.startReplyStop_slot (r : SlotRecord) (now : Timestamp) (forced : Bool) :
    (r.startReplyStop now forced).slot = r.slot := by
  unfold SlotRecord.startReplyStop
  split <;> rfl

theorem SlotRecord.beat_slot (r : SlotRecord) (now : Timestamp) (k : HeartbeatKind) :
    (r.beat now k).slot = r.slot := by
  unfold SlotRecord.beat SlotRecord.setOpenCall
  cases k <;> first | rfl | (simp only; split <;> rfl)

theorem SlotRecord.applyFact_slot (r : SlotRecord) (superseded forced : Bool) (now : Timestamp)
    (f : SessionFact) : (r.applyFact superseded forced now f).slot = r.slot := by
  cases f with
  | heartbeat k => exact (beat_slot _ _ _).trans (revive_slot _)
  | usage => exact revive_slot _
  | permissionRefused rule program => exact revive_slot _
  | groupLingering pids => exact startReplyStop_slot _ _ _
  | _ => rfl

/-- What `decide` goes on with after a fact. -/
theorem fact_start (h : Coh st) (hacc : ignoredReason st input = none) {f : SessionFact}
    (hb : input.body = .sessionFact (st.sessionKey r.slot) f)
    (hfound : st.recordAt (st.find (st.sessionKey r.slot)) = some r) :
    Replaces st (Emit.start st input).state r
        (r.applyFact (st.isSuperseded r) st.withdrawn input.now f) ∧
      (∀ t, (Emit.start st input).state.timer t = st.timer t) ∧
      emitted st input = (Emit.start st input).factOn r.state
        (r.applyFact (st.isSuperseded r) st.withdrawn input.now f) f := by
  obtain ⟨hrep, htimer⟩ := start_replaces
    (f := fun r => r.applyFact (st.isSuperseded r) st.withdrawn input.now f) h hacc hfound
    (applyBody_of_body hb) (r.applyFact_slot _ _ _ _)
  refine ⟨hrep, htimer, ?_⟩
  unfold emitted
  rw [hb]
  have hwas : st.recordAt ((Emit.start st input).state.find (st.sessionKey r.slot)) = some r := by
    rw [hrep.find_eq]
    exact hfound
  simp only [Emit.input, Emit.fact, hwas, hrep.found h.ordered]

theorem started_lands (h : Coh st) (hacc : ignoredReason st input = none) {key : SessionKey}
    {sid : String} (hb : input.body = .sessionFact key (.started sid)) :
    ∃ r r' g, SlotMove st input r r' g ∧ Landed st (emitted st input).state r r' g := by
  obtain ⟨r, hfound, hig⟩ := accepted_sessionFact hacc hb
  obtain ⟨hr, rfl⟩ := (found_iff h).mp hfound
  obtain ⟨hrep, htimer, hemit⟩ := fact_start h hacc hb hfound
  have hc := h.slots r hr
  have hstate := outOfState_none hig
  rw [hemit]
  cases hs : r.state with
  | starting d =>
    simp only [SlotRecord.applyFact, hs] at hrep
    simp only [Emit.factOn, SlotRecord.applyFact, hs]
    refine ⟨r, _, _, .started hb hs, ?_⟩
    refine lands_working h ((hrep.clearSlotTimer _).setSlotTimer _ (by decide) (by decide))
      (by rw [hs]; rfl) rfl (fun h => by cases h)
      (fun p => p = .quiet || (st.timer (.slot p r.slot)).isSome && p != .startDeadline)
      ?_ ?_ (fun _ hn => hn) ?_ ?_ rfl
    · intro p
      rw [timer_setSlotTimer _ _ _ (by decide), timer_clearSlotTimer, htimer]
      cases p <;> simp
    · intro n
      rw [timer_setSlotTimer _ _ _ (by decide), timer_clearSlotTimer, htimer]
      rfl
    · intro p hp
      have hmay := hc.may p
      simp only [SlotRecord.mayArm, hs, List.mem_singleton, Bool.or_eq_true, Bool.and_eq_true,
        decide_eq_true_eq, bne_iff_ne] at hp hmay ⊢
      rcases hp with hp | ⟨hp, hne⟩
      · exact hp
      · exact absurd (hmay hp) hne
    · simp [SlotRecord.mustArm]
  | stopping l after =>
    simp only [SlotRecord.applyFact, hs] at hrep
    rw [← hs] at hrep
    simp only [Emit.factOn]
    refine ⟨r, _, _, .startedStopping hb hs, ?_⟩
    refine lands_stopping h hrep (by rw [hs]; rfl) ?_ (by rw [hs]; rfl) (fun p => htimer _)
      (fun n => by rw [htimer]; rfl) (fun hl => (hc.condition hl).of_eq rfl id fun c hc' => ⟨c, hc'⟩)
      (fun ho => (hc.isOver ho).2)
    exact ⟨id, id, id, hc.alive, hc.named⟩
  | ended cause =>
    simp only [hs] at hstate
    have hlater := (RunState.isSuperseded_eq h.ordered hr).mp hstate
    simp only [SlotRecord.applyFact, hs, hstate, if_true] at hrep
    simp only [Emit.factOn]
    refine ⟨r, _, _, .startedEnded hb hs hlater, ?_⟩
    have hnone : ∀ p, (st.timer (.slot p r.slot)).isSome = false := by
      intro p
      by_contra hne
      rw [Bool.not_eq_false] at hne
      have hmay := hc.may p hne
      simp only [SlotRecord.mayArm, hs] at hmay
      split at hmay
      · rw [List.mem_singleton.mp hmay] at hne
        exact hc.retry hne hlater
      · cases hmay
    refine lands h hrep
      ⟨fun _ => rfl, by rw [hs]; exact (fun h => by cases h),
      by rw [hs]; exact (fun h => by cases h),
      fun _ => rfl, rfl⟩
      (fun _ => false) (fun p => by rw [htimer, hnone]) (fun n => by rw [htimer]; rfl)
      (fun _ h => by cases h) (fun _ h => by cases h)
      (fun _ _ => rfl) (fun h => by cases h) (fun hl => absurd hlater hl)
      (fun ho => (hc.isOver ho).2)
  | _ => simp [hs] at hstate

/-- What a beat may have changed of a running slot. -/
structure Beats (r r' : SlotRecord) (openCall openCall' : Option Timestamp)
    (beat : Option HeartbeatKind) : Prop where
  closed : openCall' = none → openCall = none ∨ beat.any Emit.HeartbeatKind.rearmsQuiet = true
  opened : openCall'.isSome = true → beat = some .callsOpen ∨ openCall.isSome = true
  sighted : r'.blind = false → r.blind = false
  sampling : r'.sampling = false → r.sampling = false
  blind : r'.blind = true → beat = some .blind ∨ r.blind = true

theorem SlotState.isWorking_of_wasQuiet {s : SlotState} (h : Emit.wasQuiet s = true) :
    s.isWorking = true := by
  cases s <;> first | rfl | cases h

theorem SlotRecord.mayArm_of_wasQuiet (h : Emit.wasQuiet r.state = true) :
    r.mayArm = [.confirm] := by
  unfold SlotRecord.mayArm
  cases hs : r.state <;> rw [hs] at h <;> first | rfl | cases h

/-- The signs of life are armed for what is now true of the slot. -/
theorem rearm_lands {start : RunState} {now : Timestamp} {e : Emit st start now}
    {r' : SlotRecord} (h : Coh st) (hrep : Replaces st e.state r r')
    (htimer : ∀ t, e.state.timer t = st.timer t) {session' : String}
    {openCall' : Option Timestamp} (hs' : r'.state = .running session' openCall')
    (hcond : r'.condition = r.condition) (beat : Option HeartbeatKind)
    (hwas : Emit.wasQuiet r.state = true ∨ Emit.wasQuiet r.state = false ∧
      ∃ session openCall, r.state = .running session openCall ∧
        Beats r r' openCall openCall' beat) :
    Landed st (e.rearm r' (Emit.wasQuiet r.state) beat).state r r' (st.graceArmed r.slot) := by
  have hc := h.slots r hrep.mem
  have hw : r.state.isWorking = true := by
    rcases hwas with hq | ⟨-, session, openCall, hs, -⟩
    · exact SlotState.isWorking_of_wasQuiet hq
    · rw [hs]
      rfl
  have hconfirm := hrep.clearIf (Emit.wasQuiet r.state) .confirm
  unfold Emit.rearm
  rw [hrep.slot]
  simp only
  cases openCall' with
  | none =>
    have hclosed : Emit.callOpen r'.state = false := by rw [hs']; rfl
    rw [if_neg (by rw [hclosed]; exact Bool.false_ne_true)]
    obtain ⟨hrep', hgrace, hT⟩ := rearmClosed_spec hconfirm (Emit.wasQuiet r.state) beat
    refine lands_working h hrep' hw hcond (by rw [hs']; exact fun h => by cases h) _ hT ?_
      (fun _ hn => hn) ?_ ?_
      (by rw [hs']; rfl)
    · intro n
      rw [hgrace, timer_clearIf, htimer]
      simp [RunState.graceArmed]
    · intro p hp
      have hmay := hc.may p
      -- from here on only the timers that `hp` names matter
      clear hT hgrace hrep' hconfirm hrep hc h
      simp only [SlotRecord.mayArm, hs', List.mem_singleton]
      rcases hwas with hq | ⟨hq, session, openCall, hs, hbeats⟩
      · have hquiet := SlotRecord.mayArm_of_wasQuiet hq
        cases p <;> simp_all [timer_clearSlotTimer]
      · cases openCall <;> cases p <;> simp_all [SlotRecord.mayArm]
    · intro p hp
      have hmust := hc.must
      clear hT hgrace hrep' hconfirm hrep hc h
      simp only [SlotRecord.mustArm, hs', List.mem_singleton] at hp
      subst hp
      rcases hwas with hq | ⟨hq, session, openCall, hs, hbeats⟩
      · simp [hq]
      · rcases hbeats.closed rfl with rfl | hbeat
        · have := hmust .quiet (by simp [SlotRecord.mustArm, hs])
          simp [hq, htimer, this]
        · simp [hbeat]
  | some t =>
    have hopen : Emit.callOpen r'.state = true := by rw [hs']; rfl
    rw [if_pos hopen]
    obtain ⟨hrep', hgrace, hT⟩ := rearmOpen_spec hconfirm r'.blind r'.sampling
      (Emit.wasQuiet r.state) beat
    refine lands_working h hrep' hw hcond (by rw [hs']; exact fun h => by cases h) _ hT ?_
      (fun _ hn => hn) ?_ ?_
      (by rw [hs']; rfl)
    · intro n
      rw [hgrace, timer_clearIf, htimer]
      simp [RunState.graceArmed]
    · intro p hp
      have hmay := hc.may p
      clear hT hgrace hrep' hconfirm hrep hc h
      simp only [SlotRecord.mayArm, hs', List.mem_append]
      rcases hwas with hq | ⟨hq, session, openCall, hs, hbeats⟩
      · have hquiet := SlotRecord.mayArm_of_wasQuiet hq
        cases p <;> simp_all [timer_clearSlotTimer]
      · cases openCall <;> cases p <;> simp_all [SlotRecord.mayArm]
    · intro p hp
      have hmust := hc.must
      clear hT hgrace hrep' hconfirm hrep hc h
      simp only [SlotRecord.mustArm, hs'] at hp
      rcases hwas with hq | ⟨hq, session, openCall, hs, hbeats⟩
      · cases hbl : r'.blind <;> cases hsa : r'.sampling <;> simp_all
      · have hopened := hbeats.opened rfl
        have hsighted := hbeats.sighted
        have hsampling := hbeats.sampling
        have hblind := hbeats.blind
        cases openCall <;> cases hbl : r'.blind <;> cases hsa : r'.sampling <;>
          simp_all [SlotRecord.mustArm]
        rcases hblind with hbeat | hbeat
        · exact Or.inl (Or.inr hbeat)
        · exact Or.inr (hmust _ (by simp [hbeat]))

theorem SlotRecord.revive_of_not_quiet {r : SlotRecord} (h : Emit.wasQuiet r.state = false) :
    r.revive = r := by
  unfold SlotRecord.revive
  cases hs : r.state <;> simp_all [Emit.wasQuiet]

theorem SlotRecord.revive_state {r : SlotRecord} (h : Emit.wasQuiet r.state = true) :
    ∃ session openCall, r.revive.state = .running session openCall := by
  unfold SlotRecord.revive
  cases hs : r.state <;> simp_all [Emit.wasQuiet]

theorem SlotRecord.revive_condition (r : SlotRecord) : r.revive.condition = r.condition := by
  unfold SlotRecord.revive
  split <;> rfl

theorem SlotRecord.beat_condition (r : SlotRecord) (now : Timestamp) (k : HeartbeatKind) :
    (r.beat now k).condition = r.condition := by
  unfold SlotRecord.beat SlotRecord.setOpenCall
  cases k <;> first | rfl | (simp only; split <;> rfl)

/-- A beat of a running slot leaves it running. -/
theorem SlotRecord.beat_running {r : SlotRecord} {session : String} {openCall : Option Timestamp}
    (hs : r.state = .running session openCall) (now : Timestamp) (k : HeartbeatKind) :
    ∃ openCall', (r.beat now k).state = .running session openCall' ∧
      Beats r (r.beat now k) openCall openCall' (some k) := by
  unfold SlotRecord.beat SlotRecord.setOpenCall
  cases k with
  | callsOpen =>
    refine ⟨openCall.or (some now), by simp [hs], ?_⟩
    constructor <;> simp [hs, Emit.HeartbeatKind.rearmsQuiet]
  | callsClosed =>
    refine ⟨none, by simp [hs], ?_⟩
    constructor <;> simp [hs, Emit.HeartbeatKind.rearmsQuiet]
  | _ =>
    refine ⟨openCall, by simp [hs], ?_⟩
    constructor <;> simp +contextual

/-- `lands` where nothing a timer watches has changed. -/
theorem lands_same {mid : RunState} {r' : SlotRecord} (h : Coh st) (hrep : Replaces st mid r r')
    (hstate : r'.state = r.state) (hcond : r'.condition = r.condition)
    (hblind : r'.blind = r.blind) (hsampling : r'.sampling = r.sampling)
    (hT : ∀ p, (mid.timer (.slot p r.slot)).isSome = (st.timer (.slot p r.slot)).isSome)
    (hG : ∀ n, (mid.timer (.grace n r.slot)).isSome = st.graceArmed r.slot n) :
    Landed st mid r r' (st.graceArmed r.slot) := by
  have hc := h.slots r hrep.mem
  have hmay : r'.mayArm = r.mayArm := by
    unfold SlotRecord.mayArm
    rw [hstate, hcond, hblind, hsampling]
  have hmust : r'.mustArm = r.mustArm := by
    unfold SlotRecord.mustArm
    rw [hstate, hblind, hsampling]
  refine lands h hrep ?_ _ hT hG (by rw [hmay]; exact hc.may) (by rw [hmust]; exact hc.must)
    (by rw [hstate]; exact hc.grace) hc.retry ?_ ?_
  · rw [hstate]
    exact ⟨id, id, id, hc.alive, hc.named⟩
  · exact fun hl => (hc.condition hl).of_eq hcond (by rw [hstate]; exact id)
      (fun c hcause => ⟨c, hstate.trans hcause⟩)
  · rw [hcond]
    exact fun ho => (hc.isOver ho).2

/-- What a sign of life without a beat leads to. -/
theorem plainSign_lands {start : RunState} {now : Timestamp} {e : Emit st start now}
    {r₀ : SlotRecord} (h : Coh st) (hrep : Replaces st e.state r r₀.revive)
    (htimer : ∀ t, e.state.timer t = st.timer t) (hstate : r₀.state = r.state)
    (hcond : r₀.condition = r.condition) (hblind : r₀.blind = r.blind)
    (hsampling : r₀.sampling = r.sampling) :
    Landed st (if Emit.wasQuiet r.state = true then e.rearm r₀.revive true none else e).state r
      r₀.revive (st.graceArmed r.slot) := by
  split
  · rename_i hq
    obtain ⟨session, openCall, hs⟩ := SlotRecord.revive_state (r := r₀) (by rw [hstate]; exact hq)
    have := rearm_lands h hrep htimer hs (r₀.revive_condition.trans hcond) none (Or.inl hq)
    rwa [hq] at this
  · rename_i hq
    rw [Bool.not_eq_true] at hq
    rw [SlotRecord.revive_of_not_quiet (by rw [hstate]; exact hq)] at hrep ⊢
    exact lands_same h hrep hstate hcond hblind hsampling (fun p => by rw [htimer])
      (fun n => by rw [htimer]; rfl)

theorem sign_lands (h : Coh st) (hacc : ignoredReason st input = none) {key : SessionKey}
    {f : SessionFact} (hb : input.body = .sessionFact key f) (hf : f.isSign = true) :
    ∃ r r' g, SlotMove st input r r' g ∧ Landed st (emitted st input).state r r' g := by
  obtain ⟨r, hfound, hig⟩ := accepted_sessionFact hacc hb
  obtain ⟨hr, rfl⟩ := (found_iff h).mp hfound
  obtain ⟨hrep, htimer, hemit⟩ := fact_start h hacc hb hfound
  refine ⟨r, _, _, .sign hb hf hig, ?_⟩
  rw [hemit]
  cases f with
  | usage => exact plainSign_lands h hrep htimer rfl rfl rfl rfl
  | permissionRefused rule program => exact plainSign_lands h hrep htimer rfl rfl rfl rfl
  | heartbeat k =>
    by_cases hk : ∃ raw, k = .unknown raw
    · obtain ⟨raw, rfl⟩ := hk
      exact plainSign_lands h hrep htimer rfl rfl rfl rfl
    have hfact : (Emit.start st input).factOn r.state
        (r.applyFact (st.isSuperseded r) st.withdrawn input.now (.heartbeat k)) (.heartbeat k)
          = (Emit.start st input).rearm
            (r.applyFact (st.isSuperseded r) st.withdrawn input.now (.heartbeat k))
            (Emit.wasQuiet r.state) (some k) := by
      cases k <;> first | rfl | exact absurd ⟨_, rfl⟩ hk
    rw [hfact]
    have hstate := outOfState_none hig
    cases hq : Emit.wasQuiet r.state with
    | true =>
      obtain ⟨session, openCall, hs⟩ :=
        SlotRecord.revive_state (r := { r with lastFact := some input.now }) hq
      obtain ⟨openCall', hs', -⟩ := SlotRecord.beat_running hs input.now k
      have := rearm_lands h hrep htimer hs'
        ((SlotRecord.beat_condition _ _ _).trans (SlotRecord.revive_condition _)) (some k)
        (Or.inl hq)
      rwa [hq] at this
    | false =>
      obtain ⟨session, openCall, hs⟩ : ∃ session openCall, r.state = .running session openCall := by
        cases hs : r.state <;> simp_all [Emit.wasQuiet]
      have hrevive : ({ r with lastFact := some input.now } : SlotRecord).revive
          = { r with lastFact := some input.now } := SlotRecord.revive_of_not_quiet hq
      obtain ⟨openCall', hs', hbeats⟩ :=
        SlotRecord.beat_running (r := { r with lastFact := some input.now }) hs input.now k
      simp only [SlotRecord.applyFact, hrevive] at hrep ⊢
      have := rearm_lands h hrep htimer hs' (SlotRecord.beat_condition _ _ _) (some k)
        (Or.inr ⟨hq, session, openCall, hs,
          ⟨hbeats.closed, hbeats.opened, hbeats.sighted, hbeats.sampling, hbeats.blind⟩⟩)
      rwa [hq] at this
  | _ => cases hf

end Inputs

end NexusFlow.Run
