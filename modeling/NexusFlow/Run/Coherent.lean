import NexusFlow.Run.Records

/-!
# Timers and slots agree

`Coh` is what holds of the records, timers and escalations in every state between two inputs: each
armed timer belongs to a record whose state it watches, each state that is watched has its timer
armed, superseded attempts are over, a condition of a seat's last attempt stands only on a state it
can be about, and an escalation's question names a reply that escalated.

This file states it and proves how it survives the small changes the engine is made of: one record
replaced together with its timers (`Coh.replace`), a waiting slot started (`Coh.startSlot`, and
`Coh.arms` for the whole of `arm_ready`), attempts added (`Coh.addRecords`), the run finishing
(`Coh.finish`). The next file composes them into the inputs.
-/

namespace NexusFlow.Run

open NexusFlow.Lib

/-! ## The invariant -/

/-- The states a superseded attempt can be in, and every attempt of a finishing run. -/
def SlotState.isRetired : SlotState → Bool
  | .replied .. | .ended _ | .stopping _ .nothing => true
  | _ => false

/-- A reply that escalated. -/
def SlotState.isEscalated : SlotState → Bool
  | .replied _ true _ _ _ _ => true
  | _ => false

/-- A reply that did not escalate: the attempt's part of its step is done. -/
def SlotState.isDone : SlotState → Bool
  | .replied _ false _ _ _ _ => true
  | _ => false

/-- A stop that leads to a restart does not park as the stop itself would. -/
def SlotState.isNamed : SlotState → Bool
  | .stopping _ (.restart .wouldNotStop) => false
  | _ => true

/-- Whether the condition is a hold. -/
def SlotCondition.isHeld : SlotCondition → Bool
  | .held _ _ _ => true
  | .parked _ _ _ => false

namespace SlotRecord

/-- The timers a slot may have armed, its graces apart. -/
def mayArm (r : SlotRecord) : List TimerPurpose :=
  match r.state with
  | .starting _ => [.startDeadline]
  | .running _ none => [.quiet]
  | .running _ (some _) =>
    (if r.blind then [] else [.subprocessIdle]) ++ (if r.sampling then [] else [.callBound])
  | .quiet _ _ | .nudged _ _ => [.confirm]
  | .replied _ _ _ .live _ none => [.windDown]
  | .ended _ => if r.condition.any SlotCondition.isHeld then [.holdRetry] else []
  | _ => []

/-- The timers a slot has armed. -/
def mustArm (r : SlotRecord) : List TimerPurpose :=
  match r.state with
  | .starting _ => [.startDeadline]
  | .running _ none => [.quiet]
  | .running _ (some _) =>
    if r.blind then (if r.sampling then [] else [.callBound]) else [.subprocessIdle]
  | .quiet _ _ | .nudged _ _ => [.confirm]
  | .replied _ _ _ .live _ none => [.windDown]
  | _ => []

/-- A `would_not_stop` stands on a stop under way, every other condition on an end. -/
def ConditionFits (r : SlotRecord) : Prop :=
  ∀ c, r.condition = some c →
    if c.isWouldNotStop then r.state.ladder.isSome = true else ∃ cause, r.state = .ended cause

end SlotRecord

/-- The run is finishing or finished. -/
def RunState.isOver (st : RunState) : Bool := st.isFinishing || st.isFinished

/-- What holds of one record: of its timers, its condition and its place among the attempts. -/
structure Coherent (st : RunState) (r : SlotRecord) : Prop where
  may : ∀ p, (st.timer (.slot p r.slot)).isSome = true → p ∈ r.mayArm
  must : ∀ p ∈ r.mustArm, (st.timer (.slot p r.slot)).isSome = true
  grace : ∀ n, (st.timer (.grace n r.slot)).isSome = true → r.state.ladder.isSome = true
  retry : (st.timer (.slot .holdRetry r.slot)).isSome = true → ¬ Later st.ids r.slot
  alive : r.state.ladder.isSome = true → r.state.isLive = true
  named : r.state.isNamed = true
  condition : ¬ Later st.ids r.slot → r.ConditionFits
  retired : Later st.ids r.slot → r.state.isRetired = true
  isOver : st.isOver = true → r.state.isRetired = true ∧ r.condition.any SlotCondition.isHeld = false

/-- The purpose a timer of this id is armed with. -/
def TimerId.Fits (t : TimerId) (a : ArmedTimer) : Prop :=
  match t with
  | .rootDeadline => a.purpose = .rootDeadline
  | .treeWindow => a.purpose = .treeWindow
  | .slot p _ => a.purpose = p ∧ p ≠ .stopGrace
  | .grace n _ => a.purpose = .stopGrace ∧ (n = 1 ∨ n = 2)

/-- Every armed timer is one the engine makes, for a slot that has a record. -/
def Known (timers : KeyMap Text ArmedTimer) (ids : List Slot) : Prop :=
  ∀ k a, timers.get k = some a →
    ∃ t : TimerId, k = t.text ∧ t.Fits a ∧ ∀ s, t.slot? = some s → s ∈ ids

/-- The key of an escalation's question. -/
def escalatedKey (st : RunState) (s : Slot) : Key := "escalated/".toList ++ st.sessionKey s

/-- **The coherence of a state** between two inputs. -/
structure Coh (st : RunState) : Prop where
  ordered : Ordered st.ids
  visitBound : ∀ s ∈ st.ids, s.visit ≤ (st.visits.get s.step.text).getD 0
  known : Known st.timers st.ids
  slots : ∀ r ∈ st.slots, Coherent st r
  active : ∀ r ∈ st.slots, ¬ Later st.ids r.slot → r.state.isDone = false →
    st.currentStep = some r.slot.step ∧ st.visits.get r.slot.step.text = some r.slot.visit
  asked : ∀ q ∈ st.questions, ∀ s m, q.asked = .escalation s m →
    q.id = escalatedKey st s ∧ (∃ r ∈ st.slots, r.slot = s ∧ r.state.isEscalated = true) ∧
      (q.answered = false → ¬ Later st.ids s)

/-! ## Frames -/

theorem Coherent.frame {st st' : RunState} {r : SlotRecord} (h : Coherent st r)
    (hids : st'.ids = st.ids) (hover : st'.isOver = st.isOver)
    (hslot : ∀ p, st'.timer (.slot p r.slot) = st.timer (.slot p r.slot))
    (hgrace : ∀ n, st'.timer (.grace n r.slot) = st.timer (.grace n r.slot)) :
    Coherent st' r where
  may p := by rw [hslot]; exact h.may p
  must p := by rw [hslot]; exact h.must p
  grace n := by rw [hgrace]; exact h.grace n
  retry := by rw [hslot, hids]; exact h.retry
  alive := h.alive
  named := h.named
  condition := by rw [hids]; exact h.condition
  retired := by rw [hids]; exact h.retired
  isOver := by rw [hover]; exact h.isOver

theorem Known.erase {timers : KeyMap Text ArmedTimer} {ids : List Slot} (h : Known timers ids)
    (k : Text) : Known (timers.erase k) ids := by
  intro j a hj
  rw [KeyMap.get_erase] at hj
  split at hj
  · cases hj
  · exact h j a hj

theorem Known.filter {timers : KeyMap Text ArmedTimer} {ids : List Slot} (h : Known timers ids)
    (p : Text × ArmedTimer → Bool) : Known (timers.filter p) ids := by
  intro j a hj
  rw [KeyMap.get_filter, Option.filter_eq_some_iff] at hj
  exact h j a hj.1

theorem Known.insert {timers : KeyMap Text ArmedTimer} {ids : List Slot} (h : Known timers ids)
    {t : TimerId} {a : ArmedTimer} (hfits : t.Fits a) (hslot : ∀ s, t.slot? = some s → s ∈ ids) :
    Known (timers.insert t.text a) ids := by
  intro j b hj
  rw [KeyMap.get_insert] at hj
  split at hj
  · rename_i heq
    cases hj
    exact ⟨t, heq, hfits, hslot⟩
  · exact h j b hj

theorem Known.mono {timers : KeyMap Text ArmedTimer} {ids ids' : List Slot} (h : Known timers ids)
    (hsub : ∀ s ∈ ids, s ∈ ids') : Known timers ids' := by
  intro j a hj
  obtain ⟨t, ht, hfits, hslot⟩ := h j a hj
  exact ⟨t, ht, hfits, fun s hs => hsub s (hslot s hs)⟩

/-- A slot without a record has no timer. -/
theorem Known.timer_none {st : RunState} (h : Known st.timers st.ids) {t : TimerId} {s : Slot}
    (hslot : t.slot? = some s) (hs : s ∉ st.ids) : st.timer t = none := by
  cases ha : st.timer t with
  | none => rfl
  | some a =>
    obtain ⟨u, htext, -, hmem⟩ := h _ _ ha
    cases TimerId.text_injective htext
    exact absurd (hmem s hslot) hs

/-! ## One record and its timers -/

/-- What a change of records, timers and ages leaves alone. -/
def RunState.bare (st : RunState) : RunState :=
  { st with slots := [], timers := .empty, nextOrder := 0 }

/-- What reads neither records nor timers nor ages reads the same. -/
theorem bare_keeps {st st' : RunState} (h : st'.bare = st.bare) {α : Type} (g : RunState → α)
    (hg : ∀ x : RunState, g x.bare = g x) : g st' = g st := by
  rw [← hg st', h, hg]

/-- `st'` is `st` with the record `r` replaced by `r'`, and with timers of that slot and of no
other changed. -/
structure Replaces (st st' : RunState) (r r' : SlotRecord) : Prop where
  mem : r ∈ st.slots
  slot : r'.slot = r.slot
  bare : st'.bare = st.bare
  slots_eq : st'.slots = (st.upd r.slot fun _ => r').slots
  other : ∀ t : TimerId, t.slot? ≠ some r.slot → st'.timer t = st.timer t
  known : Known st.timers st.ids → Known st'.timers st.ids

namespace Replaces

variable {st st' : RunState} {r r' : SlotRecord}

theorem ids_eq (h : Replaces st st' r r') : st'.ids = st.ids := by
  unfold RunState.ids
  rw [h.slots_eq]
  unfold RunState.upd
  rw [List.map_map]
  refine List.map_congr_left fun x _ => ?_
  simp only [Function.comp]
  split
  · rename_i hx
    rw [h.slot, hx]
  · rfl

theorem keeps (h : Replaces st st' r r') {α : Type} (g : RunState → α)
    (hg : ∀ x : RunState, g x.bare = g x) : g st' = g st := bare_keeps h.bare g hg

theorem phase_eq (h : Replaces st st' r r') : st'.phase = st.phase :=
  h.keeps RunState.phase fun _ => rfl

theorem isOver_eq (h : Replaces st st' r r') : st'.isOver = st.isOver := by
  unfold RunState.isOver RunState.isFinishing RunState.isFinished
  rw [h.phase_eq]

theorem mem_iff (h : Replaces st st' r r') {x : SlotRecord} :
    x ∈ st'.slots ↔ x = r' ∨ (x ∈ st.slots ∧ x.slot ≠ r.slot) := by
  rw [h.slots_eq, RunState.mem_upd]
  constructor
  · rintro ⟨y, hy, rfl⟩
    split
    · exact Or.inl rfl
    · rename_i hne
      exact Or.inr ⟨hy, hne⟩
  · rintro (rfl | ⟨hx, hne⟩)
    · exact ⟨r, h.mem, by rw [if_pos rfl]⟩
    · exact ⟨x, hx, by rw [if_neg hne]⟩

theorem mem_new (h : Replaces st st' r r') : r' ∈ st'.slots := h.mem_iff.mpr (Or.inl rfl)

theorem slot_mem_ids (h : Replaces st st' r r') : r.slot ∈ st.ids :=
  RunState.mem_ids.mpr ⟨r, h.mem, rfl⟩

/-- Updating the record of a slot replaces it. -/
theorem of_upd (hord : Ordered st.ids) (hr : r ∈ st.slots) {f : SlotRecord → SlotRecord}
    (hf : (f r).slot = r.slot) : Replaces st (st.upd r.slot f) r (f r) where
  mem := hr
  slot := hf
  bare := rfl
  slots_eq := by
    unfold RunState.upd
    refine List.map_congr_left fun x hx => ?_
    split
    · rename_i hxr
      rw [RunState.record_unique hord hx hr hxr]
    · rfl
  other _ _ := rfl
  known hk := hk

/-- Nothing changed is the record replaced by itself. -/
theorem refl (hord : Ordered st.ids) (hr : r ∈ st.slots) : Replaces st st r r := by
  have h := of_upd hord hr (f := id) rfl
  have heq : st.upd r.slot id = st := by
    have hmap : (st.slots.map fun x => if x.slot = r.slot then id x else x) = st.slots := by
      simp
    unfold RunState.upd
    rw [hmap]
  rwa [heq] at h

/-- A change of the timers of the slot. -/
theorem withTimers (h : Replaces st st' r r') {timers : KeyMap Text ArmedTimer}
    (hother : ∀ t : TimerId, t.slot? ≠ some r.slot → timers.get t.text = st'.timer t)
    (hknown : Known st'.timers st.ids → Known timers st.ids) :
    Replaces st { st' with timers } r r' where
  mem := h.mem
  slot := h.slot
  bare := h.bare
  slots_eq := h.slots_eq
  other t ht := (hother t ht).trans (h.other t ht)
  known hk := hknown (h.known hk)

theorem arm (h : Replaces st st' r r') {t : TimerId} {a : ArmedTimer}
    (ht : t.slot? = some r.slot) (hfits : t.Fits a) : Replaces st (st'.arm t a) r r' := by
  refine h.withTimers (fun u hu => ?_) (fun hk => hk.insert hfits ?_)
  · have hne : u ≠ t := fun heq => hu (heq ▸ ht)
    rw [KeyMap.get_insert, if_neg (fun heq => hne (TimerId.text_injective heq))]
    rfl
  · intro s hs
    rw [ht, Option.some.injEq] at hs
    exact hs ▸ h.slot_mem_ids

theorem disarm (h : Replaces st st' r r') {t : TimerId} (ht : t.slot? = some r.slot) :
    Replaces st (st'.disarm t) r r' := by
  refine h.withTimers (fun u hu => ?_) (fun hk => hk.erase _)
  have hne : u ≠ t := fun heq => hu (heq ▸ ht)
  rw [KeyMap.get_erase, if_neg (fun heq => hne (TimerId.text_injective heq))]
  rfl

theorem disarmSlot (h : Replaces st st' r r') : Replaces st (st'.disarmSlot r.slot) r r' := by
  refine h.withTimers (fun u hu => ?_) (fun hk => hk.filter _)
  have := @RunState.timer_disarmSlot st' r.slot u
  rw [if_neg hu] at this
  exact this

/-- A second change of the same record. -/
theorem upd (h : Replaces st st' r r') {f : SlotRecord → SlotRecord}
    (hf : (f r').slot = r'.slot) : Replaces st (st'.upd r.slot f) r (f r') where
  mem := h.mem
  slot := hf.trans h.slot
  bare := h.bare
  slots_eq := by
    unfold RunState.upd
    simp only
    rw [h.slots_eq, RunState.upd, List.map_map]
    refine List.map_congr_left fun x _ => ?_
    simp only [Function.comp]
    by_cases hx : x.slot = r.slot
    · rw [if_pos hx, if_pos h.slot, if_pos hx]
    · rw [if_neg hx, if_neg hx, if_neg hx]
  other t ht := h.other t ht
  known hk := h.known hk

theorem takeOrder (h : Replaces st st' r r') : Replaces st (takeOrder st') r r' where
  mem := h.mem
  slot := h.slot
  bare := h.bare
  slots_eq := h.slots_eq
  other t ht := h.other t ht
  known hk := h.known hk

end Replaces

/-- **Coherence survives the replacement of one record**, when the new record is coherent with
its timers and a reply that escalated stays one. -/
theorem Coh.replace {st st' : RunState} {r r' : SlotRecord} (h : Coh st)
    (hrep : Replaces st st' r r') (hcoh : Coherent st' r')
    (hesc : r.state.isEscalated = true → r'.state.isEscalated = true)
    (hdone : r.state.isDone = true → r'.state.isDone = true) : Coh st' where
  ordered := hrep.ids_eq ▸ h.ordered
  visitBound := by
    rw [hrep.ids_eq, hrep.keeps RunState.visits fun _ => rfl]
    exact h.visitBound
  known := by
    rw [hrep.ids_eq]
    exact hrep.known h.known
  slots := by
    intro x hx
    rcases hrep.mem_iff.mp hx with rfl | ⟨hx, hne⟩
    · exact hcoh
    · refine (h.slots x hx).frame hrep.ids_eq hrep.isOver_eq (fun p => hrep.other _ ?_)
        (fun n => hrep.other _ ?_)
      · simpa [TimerId.slot?] using hne
      · simpa [TimerId.slot?] using hne
  active := by
    intro x hx hlater hnot
    rw [hrep.ids_eq] at hlater
    rw [hrep.keeps RunState.currentStep fun _ => rfl, hrep.keeps RunState.visits fun _ => rfl]
    rcases hrep.mem_iff.mp hx with rfl | ⟨hx, -⟩
    · rw [hrep.slot] at hlater ⊢
      refine h.active r hrep.mem hlater ?_
      cases hd : r.state.isDone with
      | false => rfl
      | true => rw [hdone hd] at hnot; cases hnot
    · exact h.active x hx hlater hnot
  asked := by
    intro q hq s m hasked
    rw [hrep.keeps RunState.questions fun _ => rfl] at hq
    obtain ⟨hid, ⟨x, hx, hslot, hstate⟩, hopen⟩ := h.asked q hq s m hasked
    refine ⟨?_, ?_, ?_⟩
    · rw [hid]
      unfold escalatedKey RunState.sessionKey
      rw [hrep.keeps RunState.run fun _ => rfl]
    · by_cases hxr : x.slot = r.slot
      · have hxeq : x = r := RunState.record_unique h.ordered hx hrep.mem hxr
        subst hxeq
        exact ⟨r', hrep.mem_new, hrep.slot.trans hslot, hesc hstate⟩
      · exact ⟨x, hrep.mem_iff.mpr (Or.inr ⟨hx, hxr⟩), hslot, hstate⟩
    · rw [hrep.ids_eq]
      exact hopen

/-! ## Starting the slots that wait -/

/-- The start deadline of a slot armed: what takes a waiting slot to `Starting`. -/
def RunState.startSlot (st : RunState) (s : Slot) (deadline : Timestamp) : RunState :=
  (st.arm (.slot .startDeadline s) ⟨deadline, .startDeadline⟩).upd s fun r => r.armStart deadline

theorem applyDecision_startDeadline {st : RunState} (hord : Ordered st.ids) (s : Slot)
    (deadline now : Timestamp) :
    applyDecision st (.timerSet (slotTimer .startDeadline s) deadline .startDeadline) now
      = st.startSlot s deadline := by
  have hslot : timerSlot (slotTimer .startDeadline s) = some s :=
    timerSlot_text (.slot .startDeadline s)
  simp only [applyDecision, armStart, if_true, hslot]
  exact @RunState.modifyRecord_eq_upd
    (st.arm (.slot .startDeadline s) ⟨deadline, .startDeadline⟩) hord s _

theorem state_setStartDeadline {before start : RunState} {now : Timestamp}
    (e : Emit before start now) (hord : Ordered e.state.ids) (s : Slot) (span : Secs) :
    (e.setSlotTimer s span .startDeadline).state = e.state.startSlot s (now.plus span) :=
  applyDecision_startDeadline hord s _ now

theorem SlotRecord.armStart_slot (r : SlotRecord) (d : Timestamp) :
    (r.armStart d).slot = r.slot := by
  unfold SlotRecord.armStart
  split <;> rfl

theorem SlotRecord.armStart_pending {r : SlotRecord} (h : r.state = .pending) (d : Timestamp) :
    r.armStart d = { r with state := .starting d } := by
  unfold SlotRecord.armStart
  rw [h]

theorem replaces_startSlot {st : RunState} (hord : Ordered st.ids) {r : SlotRecord}
    (hr : r ∈ st.slots) (hp : r.state = .pending) (d : Timestamp) :
    Replaces st (st.startSlot r.slot d) r { r with state := .starting d } := by
  have h := (((Replaces.refl hord hr).arm (t := .slot .startDeadline r.slot)
    (a := ⟨d, .startDeadline⟩) rfl ⟨rfl, by decide⟩).upd (f := fun x => x.armStart d)
    (r.armStart_slot d))
  rwa [SlotRecord.armStart_pending hp] at h

/-- A slot that waits has no timer. -/
theorem Coherent.pending_timer {st : RunState} {r : SlotRecord} (h : Coherent st r)
    (hp : r.state = .pending) : (∀ p, st.timer (.slot p r.slot) = none) ∧
      ∀ n, st.timer (.grace n r.slot) = none := by
  constructor
  · intro p
    have hmay := h.may p
    simp only [SlotRecord.mayArm, hp, List.not_mem_nil, imp_false, Bool.not_eq_true,
      Option.isSome_eq_false_iff, Option.isNone_iff_eq_none] at hmay
    exact hmay
  · intro n
    have hgrace := h.grace n
    simpa [SlotState.ladder, hp] using hgrace

theorem Coh.startSlot {st : RunState} (h : Coh st) {r : SlotRecord} (hr : r ∈ st.slots)
    (hp : r.state = .pending) (d : Timestamp) : Coh (st.startSlot r.slot d) := by
  have hrep := replaces_startSlot h.ordered hr hp d
  have hc := h.slots r hr
  obtain ⟨hnone, hgrace⟩ := hc.pending_timer hp
  have htimer : ∀ t : TimerId, (st.startSlot r.slot d).timer t
      = if t = .slot .startDeadline r.slot then some ⟨d, .startDeadline⟩ else st.timer t :=
    fun t => RunState.timer_arm _ _ _
  have hover : st.isOver = false := by
    by_contra hne
    have := (hc.isOver (by simpa using hne)).1
    rw [hp] at this
    cases this
  refine h.replace hrep ?_ (by simp [SlotState.isEscalated, hp]) (by simp [SlotState.isDone, hp])
  refine ⟨?_, ?_, ?_, ?_, ?_, rfl, ?_, ?_, ?_⟩
  · intro p hsome
    rw [htimer] at hsome
    split at hsome
    · rename_i heq
      cases heq
      simp [SlotRecord.mayArm]
    · simp [hnone] at hsome
  · intro p hmem
    simp only [SlotRecord.mustArm, List.mem_singleton] at hmem
    subst hmem
    rw [htimer]
    simp
  · intro n hsome
    rw [htimer, if_neg (by simp), hgrace] at hsome
    cases hsome
  · intro hsome
    rw [htimer, if_neg (by simp), hnone] at hsome
    cases hsome
  · simp [SlotState.ladder]
  · rw [hrep.ids_eq]
    intro hlast c hcond
    have := hc.condition hlast c hcond
    simp [hp, SlotState.ladder] at this
  · rw [hrep.ids_eq]
    intro hlater
    have := hc.retired hlater
    rw [hp] at this
    cases this
  · rw [hrep.isOver_eq, hover]
    intro hf
    cases hf

/-- What `arm_ready` does: start waiting slots, one after the other, each with the tree prepared
and no process of its persona live. -/
inductive Arms : RunState → RunState → Prop
  | refl (st : RunState) : Arms st st
  | start {st st' : RunState} {r : SlotRecord} (hr : r ∈ st.slots) (hp : r.state = .pending)
      (hprep : st.treePrepared = true) (hpersona : st.personaIsLive r.slot.member = false)
      (deadline : Timestamp) (h : Arms (st.startSlot r.slot deadline) st') : Arms st st'

theorem Arms.bare {st st' : RunState} (hord : Ordered st.ids) (h : Arms st st') :
    st'.bare = st.bare ∧ st'.ids = st.ids := by
  induction h with
  | refl => exact ⟨rfl, rfl⟩
  | start hr hp _ _ d _ ih =>
    have hrep := replaces_startSlot hord hr hp d
    obtain ⟨hb, hi⟩ := ih (hrep.ids_eq ▸ hord)
    exact ⟨hb.trans hrep.bare, hi.trans hrep.ids_eq⟩

/-- **Coherence survives `arm_ready`.** -/
theorem Coh.arms {st st' : RunState} (h : Coh st) (ha : Arms st st') : Coh st' := by
  induction ha with
  | refl => exact h
  | start hr hp _ _ d _ ih => exact ih (h.startSlot hr hp d)

/-- A record that `arm_ready` did not start is unchanged, one it started was waiting. -/
theorem Arms.mem {st st' : RunState} (hord : Ordered st.ids) (h : Arms st st') {x : SlotRecord}
    (hx : x ∈ st'.slots) : x ∈ st.slots ∨
      ∃ r ∈ st.slots, ∃ d, r.state = .pending ∧ x = { r with state := .starting d } := by
  induction h with
  | refl => exact Or.inl hx
  | @start st st' r hr hp _ _ d _ ih =>
    have hrep := replaces_startSlot hord hr hp d
    rcases ih (hrep.ids_eq ▸ hord) hx with hmem | ⟨y, hy, d', hyp, rfl⟩
    · rcases hrep.mem_iff.mp hmem with rfl | ⟨hmem, -⟩
      · exact Or.inr ⟨r, hr, d, hp, rfl⟩
      · exact Or.inl hmem
    · rcases hrep.mem_iff.mp hy with rfl | ⟨hmem, -⟩
      · cases hyp
      · exact Or.inr ⟨y, hmem, d', hyp, rfl⟩

/-- A record that is not waiting is not touched. -/
theorem Arms.mem_of_not_pending {st st' : RunState} (hord : Ordered st.ids) (h : Arms st st')
    {x : SlotRecord} (hx : x ∈ st.slots) (hp : x.state ≠ .pending) : x ∈ st'.slots := by
  induction h with
  | refl => exact hx
  | @start st st' r hr hpr _ _ d _ ih =>
    have hrep := replaces_startSlot hord hr hpr d
    refine ih (hrep.ids_eq ▸ hord) (hrep.mem_iff.mpr (Or.inr ⟨hx, fun heq => ?_⟩))
    exact hp (RunState.record_unique hord hx hr heq ▸ hpr)

theorem Arms.trans {a b c : RunState} (h : Arms a b) (h' : Arms b c) : Arms a c := by
  induction h with
  | refl => exact h'
  | start hr hp hprep hpersona d _ ih => exact .start hr hp hprep hpersona d (ih h')

theorem RunState.personaIsLive_iff {st : RunState} {m : Handle} :
    st.personaIsLive m = true ↔ ∃ r ∈ st.slots, r.slot.member = m ∧ r.state.isLive = true := by
  simp [RunState.personaIsLive]

theorem Arms.personaIsLive {st st' : RunState} (hord : Ordered st.ids) (h : Arms st st')
    {m : Handle} (hm : st.personaIsLive m = true) : st'.personaIsLive m = true := by
  obtain ⟨r, hr, hmem, hlive⟩ := RunState.personaIsLive_iff.mp hm
  refine RunState.personaIsLive_iff.mpr ⟨r, h.mem_of_not_pending hord hr ?_, hmem, hlive⟩
  intro hp
  rw [hp] at hlive
  cases hlive

section ArmReady

variable {before start : RunState} {now : Timestamp}

theorem armSlot_arms (e : Emit before start now) (hord : Ordered e.state.ids)
    (hprep : e.state.treePrepared = true) {r : SlotRecord} (hr : r ∈ e.state.slots)
    (hp : r.state = .pending) :
    Arms e.state (e.armSlot r.slot).state ∧ ((e.armSlot r.slot).state.personaIsLive r.slot.member
      = true) := by
  unfold Emit.armSlot
  split
  · rename_i hlive
    exact ⟨.refl _, hlive⟩
  · rename_i hlive
    rw [state_setStartDeadline e hord]
    refine ⟨.start hr hp hprep (by simpa using hlive) _ (.refl _), ?_⟩
    have hrep := replaces_startSlot hord hr hp (now.plus e.state.policy.startDeadline)
    exact RunState.personaIsLive_iff.mpr ⟨_, hrep.mem_new, rfl, rfl⟩

theorem foldl_armSlot_arms (W : List Slot) : ∀ (e : Emit before start now),
    Ordered e.state.ids → e.state.treePrepared = true → W.Nodup →
    (∀ s ∈ W, ∃ r ∈ e.state.slots, r.slot = s ∧ r.state = .pending) →
    Arms e.state (W.foldl Emit.armSlot e).state ∧
      ∀ s ∈ W, (W.foldl Emit.armSlot e).state.personaIsLive s.member = true := by
  induction W with
  | nil => exact fun e _ _ _ _ => ⟨.refl _, fun s hs => absurd hs List.not_mem_nil⟩
  | cons s W ih =>
    intro e hord hprep hnd hW
    obtain ⟨hs, hndW⟩ := List.nodup_cons.mp hnd
    obtain ⟨r, hr, rfl, hp⟩ := hW s List.mem_cons_self
    obtain ⟨harm, hlive⟩ := armSlot_arms e hord hprep hr hp
    obtain ⟨hbare, hids⟩ := harm.bare hord
    have hprep' : (e.armSlot r.slot).state.treePrepared = true := by
      have hphase : (e.armSlot r.slot).state.phase = e.state.phase :=
        bare_keeps hbare RunState.phase fun _ => rfl
      unfold RunState.treePrepared
      rw [hphase]
      exact hprep
    have hord' : Ordered (e.armSlot r.slot).state.ids := hids ▸ hord
    have hW' : ∀ t ∈ W, ∃ x ∈ (e.armSlot r.slot).state.slots, x.slot = t ∧ x.state = .pending := by
      intro t ht
      obtain ⟨x, hx, rfl, hxp⟩ := hW t (List.mem_cons_of_mem _ ht)
      have hne : x.slot ≠ r.slot := fun heq => hs (heq ▸ ht)
      unfold Emit.armSlot
      split
      · exact ⟨x, hx, rfl, hxp⟩
      · rw [state_setStartDeadline e hord]
        exact ⟨x, (replaces_startSlot hord hr hp _).mem_iff.mpr (Or.inr ⟨hx, hne⟩), rfl, hxp⟩
    obtain ⟨harms, hall⟩ := ih (e.armSlot r.slot) hord' hprep' hndW hW'
    refine ⟨harm.trans harms, fun t ht => ?_⟩
    rcases List.mem_cons.mp ht with rfl | ht
    · exact harms.personaIsLive hord' hlive
    · exact hall t ht

/-- Every slot that still waits on a prepared tree waits for a process of its persona. -/
def Waiting (st : RunState) : Prop :=
  st.treePrepared = true → ∀ r ∈ st.slots, r.state = .pending →
    st.personaIsLive r.slot.member = true

/-- **What `arm_ready` does.** -/
theorem armReady_arms (e : Emit before start now) (hord : Ordered e.state.ids) :
    Arms e.state e.armReady.state ∧ Waiting e.armReady.state := by
  unfold Emit.armReady
  split
  · rename_i hprep
    have hnd : ((e.state.slots.filter fun r => r.state = .pending).map SlotRecord.slot).Nodup :=
      hord.nodup.sublist (List.filter_sublist.map _)
    have hW : ∀ s ∈ (e.state.slots.filter fun r => r.state = .pending).map SlotRecord.slot,
        ∃ r ∈ e.state.slots, r.slot = s ∧ r.state = .pending := by
      intro s hs
      obtain ⟨r, hr, rfl⟩ := List.mem_map.mp hs
      obtain ⟨hr, hp⟩ := List.mem_filter.mp hr
      exact ⟨r, hr, rfl, by simpa using hp⟩
    obtain ⟨harms, hall⟩ := foldl_armSlot_arms _ e hord hprep hnd hW
    refine ⟨harms, fun _ x hx hp => ?_⟩
    rcases harms.mem hord hx with hmem | ⟨r, -, d, -, rfl⟩
    · exact hall x.slot (List.mem_map.mpr ⟨x, List.mem_filter.mpr ⟨hmem, by simpa using hp⟩, rfl⟩)
    · cases hp
  · rename_i hprep
    exact ⟨.refl _, fun h => absurd h hprep⟩

end ArmReady

/-! ## Changes of the run alone -/

/-- Coherence reads the run's records, questions and place in the flow, whether it is over, and
the timers of its slots. -/
theorem Coh.other {st st' : RunState} (h : Coh st) (hrun : st'.run = st.run)
    (hslots : st'.slots = st.slots) (hvisits : st'.visits = st.visits)
    (hcurrent : st'.currentStep = st.currentStep) (hquestions : st'.questions = st.questions)
    (hover : st'.isOver = st.isOver) (hknown : Known st'.timers st.ids)
    (htimer : ∀ t : TimerId, t.slot? ≠ none → st'.timer t = st.timer t) : Coh st' := by
  have hids : st'.ids = st.ids := by
    unfold RunState.ids
    rw [hslots]
  refine ⟨hids ▸ h.ordered, ?_, hids ▸ hknown, ?_, ?_, ?_⟩
  · rw [hids, hvisits]
    exact h.visitBound
  · intro r hr
    rw [hslots] at hr
    exact (h.slots r hr).frame hids hover (fun p => htimer _ (by simp [TimerId.slot?]))
      (fun n => htimer _ (by simp [TimerId.slot?]))
  · rw [hslots, hids, hcurrent, hvisits]
    exact h.active
  · rw [hslots, hids, hquestions]
    unfold escalatedKey RunState.sessionKey
    rw [hrun]
    exact h.asked

/-! ## New attempts -/

/-- A record no input has reached. -/
def SlotRecord.IsNew (r : SlotRecord) : Prop := r.state = .pending ∧ r.condition = none

/-- **Coherence survives new attempts**, where each stands after every older attempt of its seat,
what it supersedes is over and asks nothing, and no reply is left out of the current visit. -/
theorem Coh.addRecords {st st' : RunState} (h : Coh st) {new : List SlotRecord}
    (hrun : st'.run = st.run) (hslots : st'.slots = st.slots ++ new)
    (htimers : st'.timers = st.timers) (hquestions : st'.questions = st.questions)
    (hover : st'.isOver = false)
    (hnew : ∀ n ∈ new, n.IsNew) (hord : Ordered st'.ids)
    (hseats : (new.map fun n => n.slot.seat).Nodup)
    (hvisits : ∀ s ∈ st'.ids, s.visit ≤ (st'.visits.get s.step.text).getD 0)
    (hsuper : ∀ r ∈ st.slots, Later (new.map SlotRecord.slot) r.slot →
      r.state.isRetired = true ∧ st.timer (.slot .holdRetry r.slot) = none)
    (hopen : ∀ q ∈ st.questions, ∀ s m, q.asked = .escalation s m → q.answered = false →
      ¬ Later (new.map SlotRecord.slot) s)
    (hactive : ∀ r ∈ st'.slots, ¬ Later st'.ids r.slot → r.state.isDone = false →
      st'.currentStep = some r.slot.step ∧ st'.visits.get r.slot.step.text = some r.slot.visit) :
    Coh st' := by
  have hids : st'.ids = st.ids ++ new.map SlotRecord.slot := by
    unfold RunState.ids
    rw [hslots, List.map_append]
  have htimer : ∀ t, st'.timer t = st.timer t := by
    intro t
    unfold RunState.timer
    rw [htimers]
  have hlater : ∀ s, Later st'.ids s ↔ Later st.ids s ∨ Later (new.map SlotRecord.slot) s := by
    intro s
    rw [hids, later_append_iff]
  have hfresh : ∀ n ∈ new, n.slot ∉ st.ids := by
    intro n hn hmem
    have hnd := hord.nodup
    rw [hids, List.nodup_append] at hnd
    exact hnd.2.2 _ hmem _ (List.mem_map.mpr ⟨n, hn, rfl⟩) rfl
  -- A new attempt is the last of its seat, so nothing supersedes it.
  have hlast : ∀ n ∈ new, ¬ Later st'.ids n.slot := by
    rintro n hn ⟨t, ht, hseat, hlt⟩
    rw [hids, List.mem_append] at ht
    rcases ht with ht | ht
    · have hpair := hord
      unfold Ordered at hpair
      rw [hids, List.pairwise_append] at hpair
      have := hpair.2.2 t ht n.slot (List.mem_map.mpr ⟨n, hn, rfl⟩) hseat
      omega
    · obtain ⟨n', hn', rfl⟩ := List.mem_map.mp ht
      rw [List.inj_on_of_nodup_map hseats hn' hn hseat] at hlt
      exact lt_irrefl _ hlt
  refine ⟨hord, hvisits, ?_, ?_, hactive, ?_⟩
  · rw [htimers, hids]
    exact h.known.mono fun s hs => List.mem_append_left _ hs
  · intro r hr
    rw [hslots, List.mem_append] at hr
    rcases hr with hr | hn
    · have hc := h.slots r hr
      refine ⟨?_, ?_, ?_, ?_, hc.alive, hc.named, ?_, ?_, ?_⟩
      · intro p
        rw [htimer]
        exact hc.may p
      · intro p
        rw [htimer]
        exact hc.must p
      · intro n
        rw [htimer]
        exact hc.grace n
      · rw [htimer]
        intro hsome hl
        rcases (hlater _).mp hl with hl | hl
        · exact hc.retry hsome hl
        · rw [(hsuper r hr hl).2] at hsome
          cases hsome
      · exact fun hl => hc.condition fun hl' => hl ((hlater _).mpr (Or.inl hl'))
      · intro hl
        rcases (hlater _).mp hl with hl | hl
        · exact hc.retired hl
        · exact (hsuper r hr hl).1
      · rw [hover]
        intro hf
        cases hf
    · obtain ⟨hstate, hcond⟩ := hnew r hn
      have hnone : ∀ t : TimerId, t.slot? = some r.slot → st'.timer t = none := by
        intro t ht
        rw [htimer]
        exact h.known.timer_none ht (hfresh r hn)
      refine ⟨?_, ?_, ?_, ?_, ?_, by rw [hstate]; rfl, ?_, ?_, ?_⟩
      · intro p hsome
        rw [hnone _ rfl] at hsome
        cases hsome
      · simp [SlotRecord.mustArm, hstate]
      · intro n hsome
        rw [hnone _ rfl] at hsome
        cases hsome
      · intro hsome
        rw [hnone _ rfl] at hsome
        cases hsome
      · simp [hstate, SlotState.ladder]
      · intro _ c hc
        rw [hcond] at hc
        cases hc
      · exact fun hl => absurd hl (hlast r hn)
      · rw [hover]
        intro hf
        cases hf
  · intro q hq s m hasked
    rw [hquestions] at hq
    obtain ⟨hid, ⟨r, hr, hslot, hesc⟩, hopenq⟩ := h.asked q hq s m hasked
    refine ⟨?_, ⟨r, by rw [hslots]; exact List.mem_append_left _ hr, hslot, hesc⟩, ?_⟩
    · rw [hid]
      unfold escalatedKey RunState.sessionKey
      rw [hrun]
    · intro hans hl
      rcases (hlater s).mp hl with hl | hl
      · exact hopenq hans hl
      · exact hopen q hq s m hasked hans hl

/-! ### The records of a `step_started` -/

theorem newRecord_slot (st : RunState) (step : StepId) (visit attempt : Nat) (m : Handle)
    (cause : Option StartCause) (now : Timestamp) :
    (newRecord st step visit attempt m cause now).slot = ⟨step, visit, m, attempt⟩ := by
  unfold newRecord
  split
  · rfl
  · simp only [nextAttempt, spendAttempt]
    split <;> split <;> first | rfl | (split <;> first | rfl | (split <;> rfl))

theorem newRecord_isNew (st : RunState) (step : StepId) (visit attempt : Nat) (m : Handle)
    (cause : Option StartCause) (now : Timestamp) :
    (newRecord st step visit attempt m cause now).IsNew := by
  unfold newRecord SlotRecord.IsNew
  split
  · exact ⟨rfl, rfl⟩
  · simp only [nextAttempt, spendAttempt]
    split <;> split <;> first | exact ⟨rfl, rfl⟩ |
      (split <;> first | exact ⟨rfl, rfl⟩ | (split <;> exact ⟨rfl, rfl⟩))

theorem foldl_startMember (step : StepId) (visit attempt : Nat) (cause : Option StartCause)
    (now : Timestamp) (members : List Handle) : ∀ st : RunState, ∃ new : List SlotRecord,
      members.foldl (startMember step visit attempt cause now) st
        = { st with slots := st.slots ++ new } ∧
      new.map SlotRecord.slot = members.map (fun m => ⟨step, visit, m, attempt⟩) ∧
      ∀ n ∈ new, n.IsNew := by
  induction members with
  | nil => exact fun st => ⟨[], by simp, rfl, by simp⟩
  | cons m members ih =>
    intro st
    obtain ⟨new, heq, hslots, hnew⟩ := ih (startMember step visit attempt cause now st m)
    refine ⟨newRecord st step visit attempt m cause now :: new, ?_, ?_, ?_⟩
    · rw [List.foldl_cons, heq]
      simp [startMember]
    · rw [List.map_cons, List.map_cons, hslots, newRecord_slot]
    · intro n hn
      rcases List.mem_cons.mp hn with rfl | hn
      · exact newRecord_isNew ..
      · exact hnew n hn

/-- The phase a `step_started` leaves. -/
def Phase.opened : Phase → Phase
  | .queued _ | .created => .running .unprepared
  | p => p

/-- **What a `step_started` does**: it opens one new record for each member. -/
theorem applyStepStarted_eq (st : RunState) (step : StepId) (visit attempt : Nat)
    (members : List Handle) (now : Timestamp) : ∃ new : List SlotRecord,
      applyStepStarted st step visit attempt members now
        = { st with
            phase := st.phase.opened
            visits := st.visits.insert step.text visit
            currentStep := some step
            pendingStart := none
            slots := st.slots ++ new } ∧
      new.map SlotRecord.slot = members.map (fun m => ⟨step, visit, m, attempt⟩) ∧
      ∀ n ∈ new, n.IsNew := by
  obtain ⟨new, heq, hslots, hnew⟩ := foldl_startMember step visit attempt st.pendingStart now
    members { st with
      phase := st.phase.opened
      visits := st.visits.insert step.text visit
      currentStep := some step
      pendingStart := none }
  refine ⟨new, ?_, hslots, hnew⟩
  unfold applyStepStarted
  exact heq

theorem isOver_opened {st st' : RunState} (h : st'.phase = st.phase.opened)
    (hover : st.isOver = false) : st'.isOver = false := by
  unfold RunState.isOver RunState.isFinishing RunState.isFinished at hover ⊢
  rw [h]
  cases hp : st.phase <;> simp_all [Phase.opened]

/-- The next attempt of a seat: its last attempt is over, asks nothing and has no retry armed. -/
theorem Coh.nextAttempt {st : RunState} (h : Coh st) {r : SlotRecord} (hr : r ∈ st.slots)
    (hlast : ¬ Later st.ids r.slot) (hdone : r.state.isDone = false)
    (hretired : r.state.isRetired = true) (hretry : st.timer (.slot .holdRetry r.slot) = none)
    (hopen : ∀ q ∈ st.questions, ∀ m, q.asked = .escalation r.slot m → q.answered = true)
    (hover : st.isOver = false) (now : Timestamp) :
    Coh (applyDecision st
      (.stepStarted r.slot.step r.slot.visit (r.slot.attempt + 1) [r.slot.member]) now) := by
  obtain ⟨hcurrent, hvisit⟩ := h.active r hr hlast hdone
  obtain ⟨new, heq, hnewSlots, hnew⟩ := applyStepStarted_eq st r.slot.step r.slot.visit
    (r.slot.attempt + 1) [r.slot.member] now
  simp only [applyDecision]
  rw [heq]
  simp only [List.map_cons, List.map_nil] at hnewSlots
  have hseat : ∀ t : Slot, t.seat = r.slot.seat → t ∈ st.ids → t.attempt ≤ r.slot.attempt := by
    intro t ht hmem
    by_contra hlt
    exact hlast ⟨t, hmem, ht, by omega⟩
  have hvisits : ∀ step, (st.visits.insert r.slot.step.text r.slot.visit).get step
      = st.visits.get step := by
    intro step
    rw [KeyMap.get_insert]
    split
    · rename_i hs
      rw [hs, hvisit]
    · rfl
  have hnewLater : ∀ s, Later (new.map SlotRecord.slot) s → s.seat = r.slot.seat := by
    intro s hl
    rw [hnewSlots] at hl
    obtain ⟨t, ht, hseat', -⟩ := hl
    rw [List.mem_singleton.mp ht] at hseat'
    exact hseat'.symm
  refine @Coh.addRecords _ _ h new rfl rfl rfl rfl (isOver_opened rfl hover) hnew ?_ ?_ ?_ ?_ ?_ ?_
  · unfold RunState.ids Ordered
    rw [List.map_append, hnewSlots, List.pairwise_append]
    refine ⟨h.ordered, List.pairwise_singleton _ _, ?_⟩
    intro t ht s hs hts
    rw [List.mem_singleton.mp hs] at hts ⊢
    have := hseat t hts ht
    simp only
    omega
  · have : (new.map fun n => n.slot.seat) = [r.slot.seat] := by
      rw [show (fun n : SlotRecord => n.slot.seat) = Slot.seat ∘ SlotRecord.slot from rfl,
        ← List.map_map, hnewSlots]
      rfl
    rw [this]
    exact List.nodup_singleton _
  · intro s hs
    rw [hvisits]
    unfold RunState.ids at hs
    rw [List.map_append, hnewSlots, List.mem_append] at hs
    rcases hs with hs | hs
    · exact h.visitBound s hs
    · rw [List.mem_singleton.mp hs, hvisit]
      rfl
  · intro x hx hl
    have hxseat := hnewLater _ hl
    by_cases hxr : x = r
    · rw [hxr]
      exact ⟨hretired, hretry⟩
    -- An older attempt of the seat is superseded already.
    have hle := hseat x.slot hxseat (RunState.mem_ids.mpr ⟨x, hx, rfl⟩)
    have hne : x.slot.attempt ≠ r.slot.attempt := fun hatt =>
      hxr (RunState.record_unique h.ordered hx hr (Slot.ext' hxseat hatt))
    have hold : Later st.ids x.slot :=
      ⟨r.slot, RunState.mem_ids.mpr ⟨r, hr, rfl⟩, hxseat.symm, by omega⟩
    refine ⟨(h.slots x hx).retired hold, ?_⟩
    cases htimer : st.timer (.slot .holdRetry x.slot) with
    | none => rfl
    | some a => exact absurd hold ((h.slots x hx).retry (by rw [htimer]; rfl))
  · intro q hq s m hasked hans hl
    obtain ⟨-, ⟨x, hx, rfl, -⟩, hopenq⟩ := h.asked q hq s m hasked
    have hxseat := hnewLater _ hl
    have hle := hseat x.slot hxseat (RunState.mem_ids.mpr ⟨x, hx, rfl⟩)
    have hge : ¬ x.slot.attempt < r.slot.attempt := fun hlt =>
      hopenq hans ⟨r.slot, RunState.mem_ids.mpr ⟨r, hr, rfl⟩, hxseat.symm, hlt⟩
    have hslot : x.slot = r.slot := Slot.ext' hxseat (by omega)
    rw [hopen q hq m (hslot ▸ hasked)] at hans
    cases hans
  · intro x hx hl hnd
    rw [hvisits]
    simp only [List.mem_append] at hx
    rcases hx with hx | hx
    · have hl' : ¬ Later st.ids x.slot := fun hl' => hl (hl'.mono fun t ht => by
        unfold RunState.ids
        rw [List.map_append]
        exact List.mem_append_left _ ht)
      obtain ⟨hc, hv⟩ := h.active x hx hl' hnd
      exact ⟨hcurrent.symm.trans hc, hv⟩
    · have hslot : x.slot ∈ new.map SlotRecord.slot := List.mem_map.mpr ⟨x, hx, rfl⟩
      rw [hnewSlots, List.mem_singleton] at hslot
      rw [hslot]
      exact ⟨rfl, hvisit⟩

/-- New seats: no older record shares one, and every seat there is is done or of this visit. -/
theorem Coh.newSeats {st : RunState} (h : Coh st) (step : StepId) (visit : Nat)
    {members : List Handle} (hnd : members.Nodup)
    (hfree : ∀ r ∈ st.slots, ∀ m ∈ members, r.slot.seat ≠ (step, visit, m))
    (hvisit : (st.visits.get step.text).getD 0 ≤ visit)
    (hactive : ∀ r ∈ st.slots, ¬ Later st.ids r.slot → r.state.isDone = false →
      r.slot.step = step ∧ r.slot.visit = visit)
    (hover : st.isOver = false) (now : Timestamp) :
    Coh (applyDecision st (.stepStarted step visit 1 members) now) := by
  obtain ⟨new, heq, hnewSlots, hnew⟩ := applyStepStarted_eq st step visit 1 members now
  simp only [applyDecision]
  rw [heq]
  have hmemNew : ∀ s ∈ new.map SlotRecord.slot, ∃ m ∈ members, s = ⟨step, visit, m, 1⟩ := by
    intro s hs
    rw [hnewSlots] at hs
    obtain ⟨m, hm, rfl⟩ := List.mem_map.mp hs
    exact ⟨m, hm, rfl⟩
  have hnewLater : ∀ r ∈ st.slots, ¬ Later (new.map SlotRecord.slot) r.slot := by
    rintro r hr ⟨t, ht, hseat, -⟩
    obtain ⟨m, hm, rfl⟩ := hmemNew t ht
    exact hfree r hr m hm hseat.symm
  refine @Coh.addRecords _ _ h new rfl rfl rfl rfl (isOver_opened rfl hover) hnew ?_ ?_ ?_ ?_ ?_ ?_
  · unfold RunState.ids Ordered
    rw [List.map_append, List.pairwise_append]
    refine ⟨h.ordered, ?_, ?_⟩
    · rw [hnewSlots, List.pairwise_map]
      refine hnd.imp ?_
      intro a b hab hseat
      simp only [Slot.seat, Prod.mk.injEq, true_and] at hseat
      exact absurd hseat hab
    · intro t ht s hs hts
      obtain ⟨r, hr, rfl⟩ := List.mem_map.mp ht
      obtain ⟨m, hm, rfl⟩ := hmemNew s hs
      exact absurd hts (hfree r hr m hm)
  · rw [show (fun n : SlotRecord => n.slot.seat) = Slot.seat ∘ SlotRecord.slot from rfl,
      ← List.map_map, hnewSlots, List.map_map]
    refine hnd.map ?_
    intro a b hab
    simpa [Slot.seat] using hab
  · intro s hs
    rw [KeyMap.get_insert]
    unfold RunState.ids at hs
    rw [List.map_append, List.mem_append] at hs
    rcases hs with hs | hs
    · have hb := h.visitBound s hs
      split
      · rename_i hstep
        rw [hstep] at hb
        exact le_trans hb hvisit
      · exact hb
    · obtain ⟨m, hm, rfl⟩ := hmemNew s hs
      simp
  · exact fun r hr hl => absurd hl (hnewLater r hr)
  · intro q hq s m hasked hans hl
    obtain ⟨-, ⟨x, hx, rfl, -⟩, -⟩ := h.asked q hq s m hasked
    exact hnewLater x hx hl
  · intro x hx hl hnot
    rw [KeyMap.get_insert]
    simp only [List.mem_append] at hx
    rcases hx with hx | hx
    · have hl' : ¬ Later st.ids x.slot := fun hl' => hl (hl'.mono fun t ht => by
        unfold RunState.ids
        rw [List.map_append]
        exact List.mem_append_left _ ht)
      obtain ⟨rfl, rfl⟩ := hactive x hx hl' hnot
      simp
    · obtain ⟨m, hm, hslot⟩ := hmemNew _ (List.mem_map.mpr ⟨x, hx, rfl⟩)
      rw [hslot]
      simp

/-! ## The run finishes -/

theorem SlotRecord.finish_slot (r : SlotRecord) (forced : Bool) (now : Timestamp) :
    (r.finish forced now).slot = r.slot := rfl

theorem SlotRecord.finish_isRetired (r : SlotRecord) (forced : Bool) (now : Timestamp) :
    (r.finish forced now).state.isRetired = true := by
  unfold SlotRecord.finish
  cases r.state <;> rfl

theorem SlotRecord.finish_replied {r : SlotRecord} (h : r.state.isReplied = true) (forced : Bool)
    (now : Timestamp) : (r.finish forced now).state = r.state := by
  unfold SlotRecord.finish
  cases hs : r.state <;> simp_all [SlotState.isReplied]

theorem SlotRecord.finish_isDone (r : SlotRecord) (forced : Bool) (now : Timestamp) :
    (r.finish forced now).state.isDone = r.state.isDone := by
  unfold SlotRecord.finish
  cases r.state <;> rfl

theorem SlotRecord.finish_isEscalated (r : SlotRecord) (forced : Bool) (now : Timestamp) :
    (r.finish forced now).state.isEscalated = r.state.isEscalated := by
  unfold SlotRecord.finish
  cases r.state <;> rfl

/-- The wind-down is a replied slot's timer. -/
theorem SlotRecord.windDown_mayArm {r : SlotRecord} (h : .windDown ∈ r.mayArm) :
    r.state.isReplied = true := by
  unfold SlotRecord.mayArm at h
  split at h
  · simp at h
  · simp at h
  · split at h <;> split at h <;> simp at h
  · simp at h
  · simp at h
  · rename_i hs
    rw [hs]
    rfl
  · split at h <;> simp at h
  · simp at h

theorem SlotRecord.mayArm_congr {r r' : SlotRecord} (hs : r'.state = r.state)
    (hrep : r.state.isReplied = true) : r'.mayArm = r.mayArm ∧ r'.mustArm = r.mustArm := by
  unfold SlotRecord.mayArm SlotRecord.mustArm
  rw [hs]
  cases h : r.state <;> simp only [h, SlotState.isReplied, reduceCtorEq] at hrep
  rename_i process _ ladder
  cases process <;> cases ladder <;> exact ⟨rfl, rfl⟩

/-- A finishing slot awaits its wind-down, if anything. -/
theorem SlotRecord.mustArm_finish {r : SlotRecord} {forced : Bool} {now : Timestamp}
    {p : TimerPurpose} (h : p ∈ (r.finish forced now).mustArm) :
    p = .windDown ∧ p ∈ r.mustArm := by
  cases hrep : r.state.isReplied with
  | true =>
    rw [(SlotRecord.mayArm_congr (SlotRecord.finish_replied hrep forced now) hrep).2] at h
    refine ⟨?_, h⟩
    unfold SlotRecord.mustArm at h
    cases hs : r.state <;> simp_all [SlotState.isReplied]
    split at h <;> simp_all
  | false =>
    unfold SlotRecord.mustArm SlotRecord.finish at h
    cases hs : r.state <;> simp_all [SlotState.isReplied]

theorem ids_applyFinishing (st : RunState) (outcome : Outcome) (reason : Option ReasonCode)
    (now : Timestamp) : (applyFinishing st outcome reason now).ids = st.ids := by
  unfold applyFinishing RunState.ids
  simp [Function.comp_def, SlotRecord.finish_slot]

/-- The timers a finishing run keeps. -/
def keepsFinishing (e : Text × ArmedTimer) : Bool :=
  e.2.purpose = .stopGrace || e.2.purpose = .windDown

/-- The state `finish_run` leaves. -/
def RunState.finishing (st : RunState) (outcome : Outcome) (reason : ReasonCode)
    (now : Timestamp) : RunState :=
  { applyFinishing st outcome (some reason) now with timers := st.timers.filter keepsFinishing }

theorem state_finishRun {before start : RunState} {now : Timestamp} (e : Emit before start now)
    (outcome : Outcome) (reason : ReasonCode) :
    (e.finishRun outcome reason).state = e.state.finishing outcome reason now := by
  unfold Emit.finishRun RunState.finishing
  simp only [Emit.state_foldl_clearTimer, Emit.state_push, applyDecision]
  rw [← KeyMap.foldl_erase_keys]
  have htimers : (applyFinishing e.state outcome (some reason) now).timers = e.state.timers := rfl
  rw [htimers]
  congr 3
  refine List.filter_congr fun x _ => ?_
  simp [keepsFinishing]

theorem timer_finishing (st : RunState) (outcome : Outcome) (reason : ReasonCode)
    (now : Timestamp) (t : TimerId) : (st.finishing outcome reason now).timer t
      = (st.timer t).filter fun a => keepsFinishing (t.text, a) :=
  KeyMap.get_filter _ _ _

/-- **Coherence survives the end of the run.** -/
theorem Coh.finish {st : RunState} (h : Coh st) (outcome : Outcome) (reason : ReasonCode)
    (now : Timestamp) : Coh (st.finishing outcome reason now) := by
  have hids : (st.finishing outcome reason now).ids = st.ids :=
    ids_applyFinishing st outcome (some reason) now
  have hmem : ∀ x ∈ (st.finishing outcome reason now).slots,
      ∃ r ∈ st.slots, x = r.finish st.withdrawn now := by
    intro x hx
    obtain ⟨r, hr, rfl⟩ := List.mem_map.mp hx
    exact ⟨r, hr, rfl⟩
  have hsome : ∀ t, ((st.finishing outcome reason now).timer t).isSome = true →
      ∃ a, st.timer t = some a ∧ keepsFinishing (t.text, a) = true := by
    intro t ht
    obtain ⟨a, ha⟩ := Option.isSome_iff_exists.mp ht
    rw [timer_finishing, Option.filter_eq_some_iff] at ha
    exact ⟨a, ha.1, ha.2⟩
  have hfits : ∀ (t : TimerId) a, st.timer t = some a → t.Fits a := by
    intro t a ha
    obtain ⟨u, htext, hfit, -⟩ := h.known _ _ ha
    cases TimerId.text_injective htext
    exact hfit
  -- The only slot timer that is kept is the wind-down.
  have hkept : ∀ p s, ((st.finishing outcome reason now).timer (.slot p s)).isSome = true →
      p = .windDown ∧ (st.timer (.slot p s)).isSome = true := by
    intro p s hp
    obtain ⟨a, ha, hk⟩ := hsome _ hp
    obtain ⟨hpurpose, hne⟩ := hfits _ _ ha
    subst hpurpose
    simp only [keepsFinishing, Bool.or_eq_true, decide_eq_true_eq] at hk
    exact ⟨hk.resolve_left hne, by rw [ha]; rfl⟩
  refine ⟨hids ▸ h.ordered, ?_, ?_, ?_, ?_, ?_⟩
  · rw [hids]
    exact h.visitBound
  · rw [hids]
    exact h.known.filter _
  · intro x hx
    obtain ⟨r, hr, rfl⟩ := hmem x hx
    have hc := h.slots r hr
    refine ⟨?_, ?_, ?_, ?_, ?_, ?_, ?_, ?_, ?_⟩
    · intro p hp
      obtain ⟨rfl, hp'⟩ := hkept p _ hp
      have hmay := hc.may .windDown hp'
      have hrep := SlotRecord.windDown_mayArm hmay
      rwa [(SlotRecord.mayArm_congr (SlotRecord.finish_replied hrep _ now) hrep).1]
    · intro p hp
      obtain ⟨rfl, hp'⟩ := SlotRecord.mustArm_finish hp
      obtain ⟨a, ha⟩ := Option.isSome_iff_exists.mp (hc.must _ hp')
      rw [timer_finishing, SlotRecord.finish_slot, ha]
      have hpurpose : a.purpose = .windDown := (hfits _ _ ha).1
      simp [Option.filter, keepsFinishing, hpurpose]
    · intro n hn
      obtain ⟨a, ha, -⟩ := hsome _ hn
      have hladder := hc.grace n (by rw [SlotRecord.finish_slot] at ha; rw [ha]; rfl)
      revert hladder
      unfold SlotRecord.finish SlotState.ladder
      cases r.state <;> simp
    · intro hp
      obtain ⟨hne, -⟩ := hkept _ _ hp
      cases hne
    · intro hladder
      have halive := hc.alive
      unfold SlotRecord.finish at hladder ⊢
      cases hs : r.state <;> simp_all [SlotState.ladder, SlotState.isLive]
    · unfold SlotRecord.finish
      cases r.state <;> rfl
    · intro _ c hcond
      cases hcond
    · exact fun _ => r.finish_isRetired _ _
    · exact fun _ => ⟨r.finish_isRetired _ _, rfl⟩
  · intro x hx hl hnot
    obtain ⟨r, hr, rfl⟩ := hmem x hx
    rw [SlotRecord.finish_isDone] at hnot
    exact h.active r hr (hids ▸ hl) hnot
  · intro q hq s m hasked
    obtain ⟨hid, ⟨r, hr, hslot, hesc⟩, hopen⟩ := h.asked q hq s m hasked
    refine ⟨hid, ⟨r.finish st.withdrawn now, List.mem_map.mpr ⟨r, hr, rfl⟩, hslot, ?_⟩, ?_⟩
    · rw [SlotRecord.finish_isEscalated]
      exact hesc
    · rw [hids]
      exact hopen

end NexusFlow.Run
