import NexusFlow.Run.Decide

/-!
# Keys and timer ids name what they were made from

The engine keeps its timers under ids it formats (`slot_timer`, `grace_timer`) and reads back
(`timer_slot`, `grace_nth`), cancels a slot's timers by the *suffix* of their ids, and finds a
session by its formatted key. Since no id of a compiled flow holds a `/`, none of that can mix two
slots up:

* **`sessionKey_injective`**: two slots of a run never share a session key.
* `ceilingKey_injective`, `ceilingKey_ne_escalated`: two questions of a run never share an id.
* **`TimerId.text_injective`**: two timers never share an id.
* `timerSlot_text`, `graceNth_grace`: the readers undo the formatters.
* `isSuffixOf_text`: an id ends in a slot's suffix exactly when it is a timer of that slot.
-/

namespace NexusFlow.Run

open NexusFlow.Lib

/-! ## Segments -/

theorem slash_notMem_decimal (n : Nat) : '/' ∉ decimal n := by
  intro h
  have := Nat.isDigit_of_mem_toDigits (by decide) (by decide) h
  exact absurd this (by decide)

theorem parseNat_decimal (n : Nat) : parseNat (decimal n) = some n := by
  have hdigit : ∀ c ∈ decimal n, c.isDigit = true :=
    fun c hc => Nat.isDigit_of_mem_toDigits (by decide) (by decide) hc
  have hplain : dropPlus (decimal n) = decimal n := by
    unfold dropPlus
    split
    · rename_i rest heq
      have := hdigit '+' (by rw [heq]; exact List.mem_cons_self)
      exact absurd this (by decide)
    · rfl
  unfold parseNat
  rw [hplain, if_pos ⟨Nat.toDigits_ne_nil, List.all_eq_true.mpr hdigit⟩]
  exact congrArg some Nat.ofDigitChars_ten_toDigits

theorem decimal_injective {m n : Nat} (h : decimal m = decimal n) : m = n := by
  have := congrArg parseNat h
  rwa [parseNat_decimal, parseNat_decimal, Option.some.injEq] at this

theorem Slot.noSlash_pieces (s : Slot) : ∀ p ∈ s.pieces, '/' ∉ p := by
  intro p hp
  simp only [Slot.pieces, List.mem_cons, List.not_mem_nil, or_false] at hp
  rcases hp with rfl | rfl | rfl | rfl
  · exact s.step.noSlash
  · simpa using slash_notMem_decimal s.visit
  · exact s.member.noSlash
  · simpa using slash_notMem_decimal s.attempt

theorem Slot.pieces_injective {s t : Slot} (h : s.pieces = t.pieces) : s = t := by
  obtain ⟨step, visit, member, attempt⟩ := s
  obtain ⟨step', visit', member', attempt'⟩ := t
  simp only [Slot.pieces, List.cons.injEq, true_and, and_true] at h
  obtain ⟨h1, h2, h3, h4⟩ := h
  rw [Name.ext' h1, decimal_injective h2, Name.ext' h3, decimal_injective h4]

theorem splitOn_joinSlash {pieces : List Text} (hne : pieces ≠ [])
    (h : ∀ p ∈ pieces, '/' ∉ p) : (joinSlash pieces).splitOn '/' = pieces :=
  List.splitOn_intercalate '/' h hne

theorem splitOn_slotSuffix (s : Slot) : (slotSuffix s).splitOn '/' = s.pieces :=
  splitOn_joinSlash (List.cons_ne_nil _ _) s.noSlash_pieces

theorem splitOn_before_suffix (pre : Text) (s : Slot) :
    (pre ++ '/' :: slotSuffix s).splitOn '/' = pre.splitOn '/' ++ s.pieces := by
  rw [List.splitOn_append_cons_self, splitOn_slotSuffix]

theorem Slot.sessionKey_eq (s : Slot) (run : RunId) :
    s.sessionKey run = run ++ '/' :: slotSuffix s := by
  simp [Slot.sessionKey, slotSuffix, joinSlash, List.intercalate, Slot.pieces]

theorem slotSuffix_injective {s t : Slot} (h : slotSuffix s = slotSuffix t) : s = t := by
  have := congrArg (List.splitOn '/') h
  rw [splitOn_slotSuffix, splitOn_slotSuffix] at this
  exact Slot.pieces_injective this

/-- **Two slots of a run never share a session key.** -/
theorem sessionKey_injective {run : RunId} {s t : Slot}
    (h : s.sessionKey run = t.sessionKey run) : s = t := by
  rw [Slot.sessionKey_eq, Slot.sessionKey_eq, List.append_cancel_left_eq, List.cons.injEq] at h
  exact slotSuffix_injective h.2

/-- Two ceilings of a run never share a question. -/
theorem ceilingKey_injective {run : RunId} {s t : StepId} {v w p q : Nat}
    (h : Emit.ceilingKey run s v p = Emit.ceilingKey run t w q) : s = t ∧ v = w ∧ p = q := by
  have heq : ∀ (s : StepId) (v p : Nat), Emit.ceilingKey run s v p = "ceiling".toList ++ '/' ::
      (run ++ '/' :: joinSlash [s.text, 'v' :: decimal v, 'p' :: decimal p]) := by
    intro s v p
    simp [Emit.ceilingKey, joinSlash, List.intercalate]
  have hsplit : ∀ (s : StepId) (v p : Nat),
      (joinSlash [s.text, 'v' :: decimal v, 'p' :: decimal p]).splitOn '/'
        = [s.text, 'v' :: decimal v, 'p' :: decimal p] := by
    intro s v p
    refine splitOn_joinSlash (List.cons_ne_nil _ _) ?_
    simp only [List.mem_cons, List.not_mem_nil, or_false, forall_eq_or_imp, forall_eq]
    exact ⟨s.noSlash, by simpa using slash_notMem_decimal v, by simpa using slash_notMem_decimal p⟩
  rw [heq, heq, List.append_cancel_left_eq, List.cons.injEq, List.append_cancel_left_eq,
    List.cons.injEq] at h
  have := congrArg (List.splitOn '/') h.2.2
  rw [hsplit, hsplit] at this
  simp only [List.cons.injEq, true_and, and_true] at this
  exact ⟨Name.ext' this.1, decimal_injective this.2.1, decimal_injective this.2.2⟩

/-- A ceiling's question is no escalation's. -/
theorem ceilingKey_ne_escalated (run : RunId) (s : StepId) (v p : Nat) (key : SessionKey) :
    Emit.ceilingKey run s v p ≠ "escalated/".toList ++ key := by
  simp [Emit.ceilingKey, joinSlash, List.intercalate]

/-! ## Timer ids -/

/-- What a timer id of the engine stands for. -/
inductive TimerId
  | rootDeadline
  | treeWindow
  | slot (purpose : TimerPurpose) (s : Slot)
  | grace (nth : Nat) (s : Slot)
deriving DecidableEq

namespace TimerId

/-- The id the timer is kept under. -/
def text : TimerId → Text
  | .rootDeadline => rootDeadlineTimer
  | .treeWindow => treeWindowTimer
  | .slot purpose s => slotTimer purpose s
  | .grace nth s => graceTimer nth s

/-- The slot whose timer it is. -/
def slot? : TimerId → Option Slot
  | .rootDeadline | .treeWindow => none
  | .slot _ s | .grace _ s => some s

/-- Its segments. -/
def pieces : TimerId → List Text
  | .rootDeadline => [rootDeadlineTimer]
  | .treeWindow => [treeWindowTimer]
  | .slot purpose s => purpose.asStr :: s.pieces
  | .grace nth s => TimerPurpose.stopGrace.asStr :: decimal nth :: s.pieces

end TimerId

theorem asStr_noSlash (p : TimerPurpose) : '/' ∉ p.asStr := by
  cases p <;> decide

theorem asStr_injective {p q : TimerPurpose} (h : p.asStr = q.asStr) : p = q := by
  revert h
  cases p <;> cases q <;> decide

theorem TimerId.splitOn_text (t : TimerId) : t.text.splitOn '/' = t.pieces := by
  cases t with
  | rootDeadline => exact List.splitOn_eq_singleton (by decide)
  | treeWindow => exact List.splitOn_eq_singleton (by decide)
  | slot p s =>
    show (p.asStr ++ '/' :: slotSuffix s).splitOn '/' = _
    rw [splitOn_before_suffix, List.splitOn_eq_singleton (asStr_noSlash p)]
    rfl
  | grace n s =>
    show (TimerPurpose.stopGrace.asStr ++ '/' :: (decimal n ++ '/' :: slotSuffix s)).splitOn '/' = _
    rw [List.splitOn_append_cons_self, splitOn_before_suffix,
      List.splitOn_eq_singleton (asStr_noSlash _),
      List.splitOn_eq_singleton (slash_notMem_decimal n)]
    rfl

theorem TimerId.pieces_injective {t u : TimerId} (h : t.pieces = u.pieces) : t = u := by
  cases t <;> cases u
  case slot.slot p s q s' =>
    simp only [TimerId.pieces, List.cons.injEq] at h
    rw [asStr_injective h.1, Slot.pieces_injective h.2]
  case grace.grace n s m s' =>
    simp only [TimerId.pieces, List.cons.injEq, true_and] at h
    rw [decimal_injective h.1, Slot.pieces_injective h.2]
  case rootDeadline.treeWindow | treeWindow.rootDeadline =>
    exact absurd h (by decide)
  all_goals
    first
      | rfl
      | exact absurd (congrArg List.length h) (by simp [TimerId.pieces, Slot.pieces])

/-- **Two timers never share an id.** -/
theorem TimerId.text_injective {t u : TimerId} (h : t.text = u.text) : t = u := by
  have := congrArg (List.splitOn '/') h
  rw [TimerId.splitOn_text, TimerId.splitOn_text] at this
  exact TimerId.pieces_injective this

theorem TimerId.text_inj {t u : TimerId} : t.text = u.text ↔ t = u :=
  ⟨TimerId.text_injective, fun h => h ▸ rfl⟩

theorem parseAfter_decimal (c : Char) (n : Nat) : parseAfter c (c :: decimal n) = some n := by
  simp [parseAfter, parseNat_decimal]

theorem segment_text (n : Name) : segment n.text = some n := by
  unfold segment
  rw [dif_neg n.noSlash]

/-- The slot a list of segments ends in. -/
theorem timerSlot_of_pieces {timer pre : Text} {rest : List Text} {s : Slot}
    (h : timer.splitOn '/' = pre :: rest ++ s.pieces) : timerSlot timer = some s := by
  have hrev : (pre :: rest ++ s.pieces).reverse
      = ('a' :: decimal s.attempt) :: s.member.text :: ('v' :: decimal s.visit) :: s.step.text ::
        (pre :: rest).reverse := by
    simp [Slot.pieces]
  obtain ⟨x, xs, hx⟩ : ∃ x xs, (pre :: rest).reverse = x :: xs :=
    List.exists_cons_of_ne_nil (by simp)
  unfold timerSlot
  rw [h, hrev, hx]
  simp [parseAfter_decimal, segment_text]

/-- **`timer_slot` undoes the formatters.** -/
theorem timerSlot_text (t : TimerId) : timerSlot t.text = t.slot? := by
  have h := t.splitOn_text
  cases t with
  | rootDeadline => decide
  | treeWindow => decide
  | slot p s => exact @timerSlot_of_pieces _ _ [] _ h
  | grace n s => exact @timerSlot_of_pieces _ _ [decimal n] _ h

theorem graceNth_grace (n : Nat) (s : Slot) : graceNth (graceTimer n s) = some n := by
  have heq : graceTimer n s
      = (TimerPurpose.stopGrace.asStr ++ ['/']) ++ (decimal n ++ '/' :: slotSuffix s) := by
    rw [graceTimer, List.append_assoc]
    rfl
  unfold graceNth
  simp only
  rw [heq, if_pos (List.prefix_append _ _), List.drop_left, splitOn_before_suffix,
    List.splitOn_eq_singleton (slash_notMem_decimal n)]
  exact parseNat_decimal n

/-- An id ends in a slot's suffix exactly when it is a timer of that slot: what
`clear_slot_timers` cancels. -/
theorem isSuffixOf_text (t : TimerId) (s : Slot) :
    ('/' :: slotSuffix s).isSuffixOf t.text = true ↔ t.slot? = some s := by
  rw [List.isSuffixOf_iff_suffix]
  constructor
  · rintro ⟨pre, hpre⟩
    have hsplit := congrArg (List.splitOn '/') hpre
    rw [splitOn_before_suffix, TimerId.splitOn_text] at hsplit
    obtain ⟨x, xs, hx⟩ := List.exists_cons_of_ne_nil (List.splitOn_ne_nil '/' pre)
    have h := @timerSlot_of_pieces t.text x xs s
      (by rw [TimerId.splitOn_text, ← hsplit, hx])
    rwa [timerSlot_text] at h
  · intro h
    cases t with
    | rootDeadline => cases h
    | treeWindow => cases h
    | slot p s' =>
      cases h
      exact ⟨p.asStr, rfl⟩
    | grace n s' =>
      cases h
      exact ⟨TimerPurpose.stopGrace.asStr ++ '/' :: decimal n, by simp [TimerId.text, graceTimer]⟩

end NexusFlow.Run
