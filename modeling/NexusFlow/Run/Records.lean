import NexusFlow.Run.Keys

/-!
# Records and timers as tables

How the lookups and updates of the engine read when no two records share a slot. Attempts of one
seat stand in the list in rising order (`Ordered`); then an update by index, by slot or by session
key is `upd`, a map over the records, `latest` is the greatest attempt, and an attempt is
superseded exactly when a later one exists (`isSuperseded_eq`).

The second half says what each operation of `Emit` does to the state, timers read as a function of
`TimerId` (`RunState.timer`).
-/

namespace NexusFlow.Run

open NexusFlow.Lib

/-! ## Seats and attempts -/

/-- The seat of a slot: everything but the attempt. -/
def Slot.seat (s : Slot) : StepId × Nat × Handle := (s.step, s.visit, s.member)

theorem Slot.ext' {s t : Slot} (hseat : s.seat = t.seat) (hattempt : s.attempt = t.attempt) :
    s = t := by
  obtain ⟨step, visit, member, attempt⟩ := s
  obtain ⟨step', visit', member', attempt'⟩ := t
  simp only [Slot.seat, Prod.mk.injEq] at hseat
  obtain ⟨rfl, rfl, rfl⟩ := hseat
  subst hattempt
  rfl

/-- The slots of a run's records, in the order they started. -/
def RunState.ids (st : RunState) : List Slot := st.slots.map SlotRecord.slot

/-- Attempts of one seat stand in rising order. -/
def Ordered (ids : List Slot) : Prop :=
  ids.Pairwise fun a b => a.seat = b.seat → a.attempt < b.attempt

/-- A later attempt of this seat exists. -/
def Later (ids : List Slot) (s : Slot) : Prop :=
  ∃ t ∈ ids, t.seat = s.seat ∧ s.attempt < t.attempt

instance (ids : List Slot) (s : Slot) : Decidable (Later ids s) :=
  inferInstanceAs (Decidable (∃ t ∈ ids, _))

theorem Ordered.nodup {ids : List Slot} (h : Ordered ids) : ids.Nodup := by
  refine List.Pairwise.imp ?_ h
  rintro a b hab rfl
  exact absurd (hab rfl) (lt_irrefl _)

theorem Later.mono {ids ids' : List Slot} {s : Slot} (hsub : ∀ t ∈ ids, t ∈ ids')
    (h : Later ids s) : Later ids' s := by
  obtain ⟨t, ht, hseat, hlt⟩ := h
  exact ⟨t, hsub t ht, hseat, hlt⟩

theorem later_append_iff {ids new : List Slot} {s : Slot} :
    Later (ids ++ new) s ↔ Later ids s ∨ Later new s := by
  simp only [Later, List.mem_append, or_and_right, exists_or]

namespace RunState

variable {st : RunState}

theorem mem_ids {s : Slot} : s ∈ st.ids ↔ ∃ r ∈ st.slots, r.slot = s := List.mem_map

theorem record_unique (h : Ordered st.ids) {r r' : SlotRecord} (hr : r ∈ st.slots)
    (hr' : r' ∈ st.slots) (hslot : r.slot = r'.slot) : r = r' :=
  List.inj_on_of_nodup_map h.nodup hr hr' hslot

/-! ## The lookups -/

theorem latest_eq_none_iff {step : StepId} {visit : Nat} {member : Handle} :
    st.latest step visit member = none ↔
      ∀ r ∈ st.slots, r.slot.seat ≠ (step, visit, member) := by
  unfold latest
  rw [List.find?_eq_none]
  simp only [List.mem_reverse, Bool.and_eq_true, beq_iff_eq, Slot.seat, ne_eq, Prod.mk.injEq,
    and_assoc]

theorem latest_spec (h : Ordered st.ids) {step : StepId} {visit : Nat} {member : Handle}
    {l : SlotRecord} (hl : st.latest step visit member = some l) :
    l ∈ st.slots ∧ l.slot.seat = (step, visit, member) ∧
      ∀ r ∈ st.slots, r.slot.seat = (step, visit, member) → r.slot.attempt ≤ l.slot.attempt := by
  unfold latest at hl
  obtain ⟨hp, as, bs, heq, hnone⟩ := List.find?_eq_some_iff_append.mp hl
  have hseat : l.slot.seat = (step, visit, member) := by
    simpa [Slot.seat, and_assoc] using hp
  have hslots : st.slots = bs.reverse ++ l :: as.reverse := by
    rw [← List.reverse_inj, heq]
    simp
  have hmem : l ∈ st.slots := by
    rw [hslots]
    simp
  refine ⟨hmem, hseat, fun r hr hrseat => ?_⟩
  rw [hslots, List.mem_append, List.mem_cons] at hr
  rcases hr with hr | rfl | hr
  · unfold Ordered ids at h
    rw [hslots, List.map_append, List.pairwise_append] at h
    have hlt := h.2.2 r.slot (List.mem_map.mpr ⟨r, hr, rfl⟩) l.slot (by simp)
    exact le_of_lt (hlt (hrseat.trans hseat.symm))
  · exact le_refl _
  · have := hnone r (List.mem_reverse.mp hr)
    simp only [Slot.seat, Prod.mk.injEq] at hrseat
    simp [hrseat] at this

/-- The greatest attempt of a seat is the one `latest` finds. -/
theorem latest_eq_some (h : Ordered st.ids) {l : SlotRecord} (hl : l ∈ st.slots)
    (hnot : ¬ Later st.ids l.slot) :
    st.latest l.slot.step l.slot.visit l.slot.member = some l := by
  cases hlat : st.latest l.slot.step l.slot.visit l.slot.member with
  | none => exact absurd rfl (latest_eq_none_iff.mp hlat l hl)
  | some m =>
    obtain ⟨hm, hseat, hmax⟩ := latest_spec h hlat
    have hle := hmax l hl rfl
    have hge : ¬ l.slot.attempt < m.slot.attempt :=
      fun hlt => hnot ⟨m.slot, mem_ids.mpr ⟨m, hm, rfl⟩, hseat, hlt⟩
    have hslot : m.slot = l.slot := Slot.ext' hseat (by omega)
    rw [record_unique h hm hl hslot]

theorem latest_not_later (h : Ordered st.ids) {step : StepId} {visit : Nat} {member : Handle}
    {l : SlotRecord} (hl : st.latest step visit member = some l) : ¬ Later st.ids l.slot := by
  obtain ⟨-, hseat, hmax⟩ := latest_spec h hl
  rintro ⟨t, ht, htseat, hlt⟩
  obtain ⟨r, hr, rfl⟩ := mem_ids.mp ht
  have := hmax r hr (htseat.trans hseat)
  omega

/-- **An attempt is superseded exactly when a later one of its seat exists.** -/
theorem isSuperseded_eq (h : Ordered st.ids) {r : SlotRecord} (hr : r ∈ st.slots) :
    st.isSuperseded r = true ↔ Later st.ids r.slot := by
  unfold isSuperseded
  cases hlat : st.latest r.slot.step r.slot.visit r.slot.member with
  | none => exact absurd rfl (latest_eq_none_iff.mp hlat r hr)
  | some l =>
    obtain ⟨hl, hseat, hmax⟩ := latest_spec h hlat
    simp only [Option.any_some, bne_iff_ne, ne_eq]
    constructor
    · intro hne
      have hle := hmax r hr rfl
      exact ⟨l.slot, mem_ids.mpr ⟨l, hl, rfl⟩, hseat, by omega⟩
    · rintro ⟨t, ht, htseat, hlt⟩ heq
      obtain ⟨r', hr', rfl⟩ := mem_ids.mp ht
      have := hmax r' hr' htseat
      omega

theorem recordAt_find {key : SessionKey} {r : SlotRecord} (h : Ordered st.ids) :
    st.recordAt (st.find key) = some r ↔ r ∈ st.slots ∧ st.sessionKey r.slot = key := by
  unfold recordAt find
  constructor
  · intro hrec
    obtain ⟨i, hi, hget⟩ := Option.bind_eq_some_iff.mp hrec
    obtain ⟨hlt, hp, -⟩ := List.findIdx?_eq_some_iff_getElem.mp hi
    rw [List.getElem?_eq_getElem hlt, Option.some.injEq] at hget
    subst hget
    exact ⟨List.getElem_mem hlt, by simpa using hp⟩
  · rintro ⟨hr, hkey⟩
    cases hi : st.slots.findIdx? (fun r => st.sessionKey r.slot == key) with
    | none =>
      have := List.findIdx?_eq_none_iff.mp hi r hr
      simp [hkey] at this
    | some i =>
      obtain ⟨hlt, hp, -⟩ := List.findIdx?_eq_some_iff_getElem.mp hi
      have hslot : (st.slots[i]).slot = r.slot := by
        refine @sessionKey_injective st.run _ _ ?_
        have : st.sessionKey (st.slots[i]).slot = key := by simpa using hp
        exact this.trans hkey.symm
      rw [Option.bind_some, List.getElem?_eq_getElem hlt,
        record_unique h (List.getElem_mem hlt) hr hslot]

theorem recordAt_findSlot {s : Slot} {r : SlotRecord} (h : Ordered st.ids) :
    st.recordAt (st.findSlot s) = some r ↔ r ∈ st.slots ∧ r.slot = s := by
  unfold recordAt findSlot
  constructor
  · intro hrec
    obtain ⟨i, hi, hget⟩ := Option.bind_eq_some_iff.mp hrec
    obtain ⟨hlt, hp, -⟩ := List.findIdx?_eq_some_iff_getElem.mp hi
    rw [List.getElem?_eq_getElem hlt, Option.some.injEq] at hget
    subst hget
    exact ⟨List.getElem_mem hlt, by simpa using hp⟩
  · rintro ⟨hr, rfl⟩
    cases hi : st.slots.findIdx? (fun r' => r'.slot == r.slot) with
    | none =>
      have := List.findIdx?_eq_none_iff.mp hi r hr
      simp at this
    | some i =>
      obtain ⟨hlt, hp, -⟩ := List.findIdx?_eq_some_iff_getElem.mp hi
      rw [Option.bind_some, List.getElem?_eq_getElem hlt,
        record_unique h (List.getElem_mem hlt) hr (by simpa using hp)]

/-! ## The updates -/

/-- The record of `s` changed by `f`. -/
def upd (st : RunState) (s : Slot) (f : SlotRecord → SlotRecord) : RunState :=
  { st with slots := st.slots.map fun r => if r.slot = s then f r else r }

theorem modify_eq_map {slots : List SlotRecord} (hnd : (slots.map SlotRecord.slot).Nodup)
    {f : SlotRecord → SlotRecord} : ∀ {i : Nat} {r : SlotRecord}, slots[i]? = some r →
      slots.modify i f = slots.map fun r' => if r'.slot = r.slot then f r' else r' := by
  induction slots with
  | nil => simp
  | cons a l ih =>
    intro i r hi
    obtain ⟨ha, hl⟩ := List.nodup_cons.mp hnd
    cases i with
    | zero =>
      simp only [List.getElem?_cons_zero, Option.some.injEq] at hi
      subst hi
      rw [List.modify_zero_cons, List.map_cons, if_pos rfl]
      congr 1
      conv_lhs => rw [← List.map_id l]
      refine List.map_congr_left fun b hb => ?_
      have hne : b.slot ≠ a.slot := fun heq => ha (heq ▸ List.mem_map.mpr ⟨b, hb, rfl⟩)
      rw [if_neg hne, id]
    | succ i =>
      rw [List.getElem?_cons_succ] at hi
      have hne : a.slot ≠ r.slot := by
        intro heq
        exact ha (heq ▸ List.mem_map.mpr ⟨r, List.mem_of_getElem? hi, rfl⟩)
      rw [List.modify_succ_cons, List.map_cons, if_neg hne, ih hl hi]

theorem modifySlot_eq_upd (h : Ordered st.ids) {f : SlotRecord → SlotRecord} {i : Nat}
    {r : SlotRecord} (hi : st.slots[i]? = some r) : st.modifySlot i f = st.upd r.slot f := by
  unfold modifySlot upd
  rw [modify_eq_map h.nodup hi]

theorem upd_of_absent {s : Slot} {f : SlotRecord → SlotRecord} (h : s ∉ st.ids) :
    st.upd s f = st := by
  have hmap : (st.slots.map fun r => if r.slot = s then f r else r) = st.slots := by
    conv_rhs => rw [← List.map_id st.slots]
    refine List.map_congr_left fun r hr => ?_
    have hne : r.slot ≠ s := fun heq => h (mem_ids.mpr ⟨r, hr, heq⟩)
    rw [if_neg hne, id]
  unfold upd
  rw [hmap]

theorem modifyRecord_eq_upd (h : Ordered st.ids) (s : Slot) (f : SlotRecord → SlotRecord) :
    st.modifyRecord s f = st.upd s f := by
  unfold modifyRecord
  cases hi : st.findSlot s with
  | none =>
    refine (upd_of_absent fun hmem => ?_).symm
    obtain ⟨r, hr, hslot⟩ := mem_ids.mp hmem
    have := List.findIdx?_eq_none_iff.mp hi r hr
    simp [hslot] at this
  | some i =>
    obtain ⟨hlt, hp, -⟩ := List.findIdx?_eq_some_iff_getElem.mp hi
    have hslot : (st.slots[i]).slot = s := by simpa using hp
    rw [← hslot]
    exact modifySlot_eq_upd h (List.getElem?_eq_getElem hlt)

/-- Addressing a session by its key updates the record of its slot. -/
theorem modifyFound_eq_upd (h : Ordered st.ids) {key : SessionKey} {i : Nat} {r : SlotRecord}
    (hfind : st.find key = some i) (hrec : st.recordAt (st.find key) = some r)
    (f : SlotRecord → SlotRecord) : st.modifySlot i f = st.upd r.slot f := by
  rw [hfind, recordAt, Option.bind_some] at hrec
  exact modifySlot_eq_upd h hrec

section Upd

variable {s : Slot} {f : SlotRecord → SlotRecord}

/-- What an update keeps of a record's identity. -/
def KeepsSlot (f : SlotRecord → SlotRecord) : Prop := ∀ r, (f r).slot = r.slot

theorem ids_upd (hf : KeepsSlot f) : (st.upd s f).ids = st.ids := by
  unfold ids upd
  rw [List.map_map]
  refine List.map_congr_left fun r _ => ?_
  simp only [Function.comp]
  split
  · exact hf r
  · rfl

theorem mem_upd {r' : SlotRecord} :
    r' ∈ (st.upd s f).slots ↔ ∃ r ∈ st.slots, r' = if r.slot = s then f r else r := by
  unfold upd
  rw [List.mem_map]
  exact ⟨fun ⟨r, hr, h⟩ => ⟨r, hr, h.symm⟩, fun ⟨r, hr, h⟩ => ⟨r, hr, h.symm⟩⟩

end Upd

/-! ## Timers -/

/-- The armed timer of this id. -/
def timer (st : RunState) (t : TimerId) : Option ArmedTimer := st.timers.get t.text

/-- The state with a timer armed. -/
def arm (st : RunState) (t : TimerId) (a : ArmedTimer) : RunState :=
  { st with timers := st.timers.insert t.text a }

/-- The state with a timer cancelled. -/
def disarm (st : RunState) (t : TimerId) : RunState :=
  { st with timers := st.timers.erase t.text }

/-- The state with every timer of a slot cancelled. -/
def disarmSlot (st : RunState) (s : Slot) : RunState :=
  { st with timers := st.timers.filter fun e => !('/' :: slotSuffix s).isSuffixOf e.1 }

theorem timer_arm (t u : TimerId) (a : ArmedTimer) :
    (st.arm t a).timer u = if u = t then some a else st.timer u := by
  simp only [timer, arm, KeyMap.get_insert, TimerId.text_inj]

theorem timer_disarm (t u : TimerId) :
    (st.disarm t).timer u = if u = t then none else st.timer u := by
  simp only [timer, disarm, KeyMap.get_erase, TimerId.text_inj]

theorem timer_disarmSlot (s : Slot) (u : TimerId) :
    (st.disarmSlot s).timer u = if u.slot? = some s then none else st.timer u := by
  simp only [timer, disarmSlot, KeyMap.get_filter]
  by_cases h : u.slot? = some s
  · rw [if_pos h]
    cases st.timers.get u.text with
    | none => rfl
    | some a => simp [(isSuffixOf_text u s).mpr h]
  · rw [if_neg h]
    have hnot : ('/' :: slotSuffix s).isSuffixOf u.text = false := by
      rw [← Bool.not_eq_true, isSuffixOf_text]
      exact h
    cases st.timers.get u.text with
    | none => rfl
    | some a => simp [hnot]

end RunState

/-! ## What the operations of `Emit` do to the state -/

namespace Emit

variable {before start : RunState} {now : Timestamp} (e : Emit before start now)

@[simp] theorem state_push (d : Decision) : (e.push d).state = applyDecision e.state d now := rfl

@[simp] theorem out_push (d : Decision) : (e.push d).out = e.out ++ [d] := rfl

theorem state_clearTimer (timer : Text) :
    (e.clearTimer timer).state = { e.state with timers := e.state.timers.erase timer } := by
  unfold clearTimer
  split
  · rfl
  · rename_i h
    have hnone : e.state.timers.get timer = none := by
      simpa [KeyMap.contains] using h
    rw [KeyMap.erase_eq_self hnone]

theorem state_foldl_clearTimer (timers : List Text) :
    (timers.foldl clearTimer e).state
      = { e.state with timers := timers.foldl KeyMap.erase e.state.timers } := by
  induction timers generalizing e with
  | nil => rfl
  | cons t ts ih => rw [List.foldl_cons, ih, state_clearTimer, List.foldl_cons]

theorem state_clearSlotTimer (s : Slot) (p : TimerPurpose) :
    (e.clearSlotTimer s p).state = e.state.disarm (.slot p s) := e.state_clearTimer _

theorem state_clearSlotTimers (s : Slot) :
    (e.clearSlotTimers s).state = e.state.disarmSlot s := by
  unfold clearSlotTimers RunState.disarmSlot
  rw [state_foldl_clearTimer]
  rw [← KeyMap.foldl_erase_keys, KeyMap.keys, List.filter_map]
  simp [Function.comp_def]

theorem state_setTimer {p : TimerPurpose} (hp : p ≠ .startDeadline) (t : TimerId) (span : Secs) :
    (e.setTimer t.text span p).state = e.state.arm t ⟨now.plus span, p⟩ := by
  unfold setTimer setTimerAt
  rw [state_push]
  simp only [applyDecision]
  rw [if_neg hp]
  rfl

theorem state_setSlotTimer {p : TimerPurpose} (hp : p ≠ .startDeadline) (s : Slot) (span : Secs) :
    (e.setSlotTimer s span p).state = e.state.arm (.slot p s) ⟨now.plus span, p⟩ :=
  e.state_setTimer hp (.slot p s) span

end Emit

end NexusFlow.Run
