import Mathlib.Algebra.Order.Field.Rat
import Mathlib.Data.List.Lex
import Mathlib.Data.Prod.Lex
import Mathlib.Data.Set.Subsingleton
import Mathlib.Data.String.Basic
import Mathlib.Order.Fin.Basic
import Mathlib.Tactic.FieldSimp
import Mathlib.Tactic.Linarith
import Mathlib.Tactic.Ring
import Mathlib.Tactic.SplitIfs

/-!
# RFC 3339 timestamps: text order and the order of instants

A timestamp is a civil date and time, any number of fraction digits, a zone, and the character
between date and time, which readers of the format leave open. `Stamp.text` is how it is written,
`Stamp.instant` what it means: a UTC minute and the seconds within it, so that a leap second comes
after the second before it.

* `Stamp.text_lt_iff`: the text order of two stamps, part by part.
* `text_lt_iff_of_spelling`: in one spelling (`Spelling`) texts compare as instants.
* `text_law_iff`: in any set of spellings they do exactly when it holds at most one.
* `text_law_canonical`: of two stamps in UTC without trailing zeros they do unless the fraction of one
  continues the other's.
-/

namespace NexusFlow.Lib.Rfc3339

/-! ## Lists in order -/

/-- Behind parts of one length, the first difference decides. -/
theorem append_lt_append_iff {α : Type*} [LinearOrder α] {a b s t : List α}
    (hlen : a.length = b.length) : a ++ s < b ++ t ↔ a < b ∨ a = b ∧ s < t := by
  induction a generalizing b with
  | nil =>
    obtain rfl := List.length_eq_zero_iff.mp hlen.symm
    simp
  | cons x a ih =>
    cases b with
    | nil => cases hlen
    | cons y b =>
      rw [List.cons_append, List.cons_append, List.cons_lt_cons_iff, List.cons_lt_cons_iff,
        ih (Nat.succ.inj hlen), List.cons.injEq]
      constructor
      · rintro (h | ⟨rfl, h | ⟨rfl, h⟩⟩)
        · exact .inl (.inl h)
        · exact .inl (.inr ⟨rfl, h⟩)
        · exact .inr ⟨⟨rfl, rfl⟩, h⟩
      · rintro ((h | ⟨rfl, h⟩) | ⟨⟨rfl, rfl⟩, h⟩)
        · exact .inl h
        · exact .inr ⟨rfl, .inl h⟩
        · exact .inr ⟨rfl, .inr ⟨rfl, h⟩⟩

theorem append_eq_append_iff {α : Type*} {a b s t : List α} (hlen : a.length = b.length) :
    a ++ s = b ++ t ↔ a = b ∧ s = t :=
  ⟨fun h => List.append_inj h hlen, fun ⟨h, h'⟩ => by rw [h, h']⟩

/-! ## Numbers of one width -/

/-- The last `w` decimal digits of a number. -/
def pad : ℕ → ℕ → List Char
  | 0, _ => []
  | w + 1, n => pad w (n / 10) ++ [Nat.digitChar (n % 10)]

@[simp] theorem length_pad (w n : ℕ) : (pad w n).length = w := by
  induction w generalizing n with
  | zero => rfl
  | succ w ih => simp [pad, ih]

theorem digitChar_lt_iff {m n : ℕ} (hm : m < 10) (hn : n < 10) :
    Nat.digitChar m < Nat.digitChar n ↔ m < n := by
  have h : ∀ m < 10, ∀ n < 10, Nat.digitChar m < Nat.digitChar n ↔ m < n := by decide
  exact h m hm n hn

theorem digitChar_inj {m n : ℕ} (hm : m < 10) (hn : n < 10) :
    Nat.digitChar m = Nat.digitChar n ↔ m = n := by
  have h : ∀ m < 10, ∀ n < 10, Nat.digitChar m = Nat.digitChar n ↔ m = n := by decide
  exact h m hm n hn

/-- **Numbers of one width compare as texts**. -/
theorem pad_lt_iff {w m n : ℕ} (hm : m < 10 ^ w) (hn : n < 10 ^ w) :
    (pad w m < pad w n ↔ m < n) ∧ (pad w m = pad w n ↔ m = n) := by
  induction w generalizing m n with
  | zero =>
    rw [pow_zero, Nat.lt_one_iff] at hm hn
    subst hm hn
    simp [pad]
  | succ w ih =>
    rw [pow_succ] at hm hn
    obtain ⟨hlt, heq⟩ := ih (m := m / 10) (n := n / 10) (by omega) (by omega)
    have hm' : m % 10 < 10 := Nat.mod_lt _ (by decide)
    have hn' : n % 10 < 10 := Nat.mod_lt _ (by decide)
    unfold pad
    constructor
    · rw [append_lt_append_iff (by simp), hlt, heq, List.cons_lt_cons_iff,
        digitChar_lt_iff hm' hn']
      simp only [List.not_lt_nil, and_false, or_false]
      omega
    · rw [append_eq_append_iff (by simp), heq, List.cons.injEq,
        digitChar_inj hm' hn', eq_self_iff_true, and_true]
      omega

/-! ## Civil dates and times -/

/-- A leap year. -/
def isLeap (y : ℕ) : Bool := y % 4 == 0 && (y % 100 != 0 || y % 400 == 0)

/-- The days of a month. -/
def daysIn (leap : Bool) (m : ℕ) : ℕ :=
  if m = 2 then (if leap then 29 else 28) else if m = 4 ∨ m = 6 ∨ m = 9 ∨ m = 11 then 30 else 31

/-- The days of a year before a month. -/
def daysBefore (leap : Bool) (m : ℕ) : ℕ :=
  ((List.range (m - 1)).map fun i => daysIn leap (i + 1)).sum

/-- The leap years before a year. -/
def leapsBefore (y : ℕ) : ℕ := (y + 3) / 4 + (y + 399) / 400 - (y + 99) / 100

/-- A date and a time of day on some clock; a leap second is the sixtieth of its minute. -/
structure Civil where
  year : ℕ
  month : ℕ
  day : ℕ
  hour : ℕ
  minute : ℕ
  second : ℕ
  year_lt : year < 10000
  month_pos : 1 ≤ month
  month_le : month ≤ 12
  day_pos : 1 ≤ day
  day_le : day ≤ daysIn (isLeap year) month
  hour_lt : hour < 24
  minute_lt : minute < 60
  second_le : second ≤ 60

namespace Civil

/-- The days from the first day of the year 0. -/
def dayNumber (c : Civil) : ℕ :=
  365 * c.year + leapsBefore c.year + daysBefore (isLeap c.year) c.month + c.day

/-- The minutes from the first day of the year 0. -/
def minutes (c : Civil) : ℕ := (c.dayNumber * 24 + c.hour) * 60 + c.minute

/-- `full-date`. -/
def dateText (c : Civil) : List Char :=
  pad 4 c.year ++ ('-' :: (pad 2 c.month ++ ('-' :: pad 2 c.day)))

/-- `partial-time`, to the second. -/
def timeText (c : Civil) : List Char :=
  pad 2 c.hour ++ (':' :: (pad 2 c.minute ++ (':' :: pad 2 c.second)))

@[simp] theorem length_dateText (c : Civil) : c.dateText.length = 10 := by simp [dateText]

@[simp] theorem length_timeText (c : Civil) : c.timeText.length = 8 := by simp [timeText]

theorem daysBefore_add_le (leap : Bool) : ∀ m < 13, ∀ m' < 13, 1 ≤ m → m < m' →
    daysBefore leap m + daysIn leap m ≤ daysBefore leap m' := by
  cases leap <;> decide

theorem daysBefore_last (leap : Bool) : ∀ m < 13, 1 ≤ m →
    daysBefore leap m + daysIn leap m ≤ 365 + leap.toNat := by
  cases leap <;> decide

theorem leapsBefore_succ (y : ℕ) : leapsBefore (y + 1) = leapsBefore y + (isLeap y).toNat := by
  have h : (isLeap y).toNat = if y % 4 = 0 ∧ (y % 100 ≠ 0 ∨ y % 400 = 0) then 1 else 0 := by
    unfold isLeap
    by_cases h4 : y % 4 = 0 <;> by_cases h100 : y % 100 = 0 <;> by_cases h400 : y % 400 = 0 <;>
      simp [h4, h100, h400]
  rw [h]
  unfold leapsBefore
  split_ifs with hleap <;> omega

theorem yearStart_le {y y' : ℕ} (h : y < y') :
    365 * y + leapsBefore y + 365 + (isLeap y).toNat ≤ 365 * y' + leapsBefore y' := by
  induction y', h using Nat.le_induction with
  | base =>
    rw [leapsBefore_succ]
    omega
  | succ y' _ ih =>
    rw [leapsBefore_succ]
    omega

/-- **Days in order**: the year decides, then the month, then the day. -/
theorem dayNumber_lt_iff (c c' : Civil) : c.dayNumber < c'.dayNumber ↔
    c.year < c'.year ∨ c.year = c'.year ∧
      (c.month < c'.month ∨ c.month = c'.month ∧ c.day < c'.day) := by
  have hlt : ∀ c c' : Civil, (c.year < c'.year ∨ c.year = c'.year ∧
      (c.month < c'.month ∨ c.month = c'.month ∧ c.day < c'.day)) → c.dayNumber < c'.dayNumber := by
    rintro c c' (hyear | ⟨hyear, hmonth | ⟨hmonth, hday⟩⟩)
    · have h1 := yearStart_le hyear
      have h2 := daysBefore_last (isLeap c.year) c.month (by have := c.month_le; omega) c.month_pos
      have h3 := c.day_le
      have h4 := c'.day_pos
      unfold dayNumber
      omega
    · have h1 := daysBefore_add_le (isLeap c.year) c.month (by have := c.month_le; omega) c'.month
        (by have := c'.month_le; omega) c.month_pos hmonth
      have h2 := c.day_le
      have h3 := c'.day_pos
      unfold dayNumber
      rw [← hyear]
      omega
    · unfold dayNumber
      rw [← hyear, ← hmonth]
      omega
  refine ⟨fun h => ?_, hlt c c'⟩
  by_contra hno
  have hback : (c'.year < c.year ∨ c'.year = c.year ∧
      (c'.month < c.month ∨ c'.month = c.month ∧ c'.day < c.day)) ∨
      (c.year = c'.year ∧ c.month = c'.month ∧ c.day = c'.day) := by omega
  rcases hback with hback | ⟨hy, hm, hd⟩
  · exact absurd (hlt c' c hback) (not_lt.mpr h.le)
  · have heq : c.dayNumber = c'.dayNumber := by
      unfold dayNumber
      rw [hy, hm, hd]
    exact absurd heq h.ne

/-- Dates compare as texts. -/
theorem dateText_lt_iff (c c' : Civil) :
    (c.dateText < c'.dateText ↔ c.dayNumber < c'.dayNumber) ∧
    (c.dateText = c'.dateText ↔ c.dayNumber = c'.dayNumber) := by
  obtain ⟨hylt, hyeq⟩ := pad_lt_iff (w := 4) c.year_lt c'.year_lt
  obtain ⟨hmlt, hmeq⟩ := pad_lt_iff (w := 2) (m := c.month) (n := c'.month)
    (by have := c.month_le; omega) (by have := c'.month_le; omega)
  have hday : ∀ c : Civil, c.day < 10 ^ 2 := by
    intro c
    have h1 := c.day_le
    unfold daysIn at h1
    split_ifs at h1 <;> omega
  obtain ⟨hdlt, hdeq⟩ := pad_lt_iff (w := 2) (hday c) (hday c')
  constructor
  · rw [dayNumber_lt_iff]
    unfold dateText
    rw [append_lt_append_iff (by simp), hylt, hyeq, List.cons_lt_cons_iff,
      append_lt_append_iff (by simp), hmlt, hmeq, List.cons_lt_cons_iff, hdlt]
    simp
  · have hfields : c.dayNumber = c'.dayNumber ↔
        c.year = c'.year ∧ c.month = c'.month ∧ c.day = c'.day := by
      have h1 := dayNumber_lt_iff c c'
      have h2 := dayNumber_lt_iff c' c
      omega
    rw [hfields]
    unfold dateText
    rw [append_eq_append_iff (by simp), hyeq, List.cons.injEq, append_eq_append_iff (by simp), hmeq,
      List.cons.injEq, hdeq]
    simp

/-- Times compare as texts. -/
theorem timeText_lt_iff (c c' : Civil) :
    (c.timeText < c'.timeText ↔ c.hour * 60 + c.minute < c'.hour * 60 + c'.minute ∨
      c.hour * 60 + c.minute = c'.hour * 60 + c'.minute ∧ c.second < c'.second) ∧
    (c.timeText = c'.timeText ↔ c.hour * 60 + c.minute = c'.hour * 60 + c'.minute ∧
      c.second = c'.second) := by
  have h1 := c.minute_lt
  have h2 := c'.minute_lt
  have h3 := c.second_le
  have h4 := c'.second_le
  have h5 := c.hour_lt
  have h6 := c'.hour_lt
  obtain ⟨hhlt, hheq⟩ := pad_lt_iff (w := 2) (m := c.hour) (n := c'.hour) (by omega) (by omega)
  obtain ⟨hmlt, hmeq⟩ := pad_lt_iff (w := 2) (m := c.minute) (n := c'.minute) (by omega) (by omega)
  obtain ⟨hslt, hseq⟩ := pad_lt_iff (w := 2) (m := c.second) (n := c'.second) (by omega) (by omega)
  constructor
  · unfold timeText
    rw [append_lt_append_iff (by simp), hhlt, hheq, List.cons_lt_cons_iff,
      append_lt_append_iff (by simp), hmlt, hmeq, List.cons_lt_cons_iff, hslt]
    simp only [lt_self_iff_false, false_or, true_and]
    omega
  · unfold timeText
    rw [append_eq_append_iff (by simp), hheq, List.cons.injEq, append_eq_append_iff (by simp), hmeq,
      List.cons.injEq, hseq]
    simp only [true_and]
    omega

end Civil

/-! ## Fractions -/

/-- What decimal digits behind the point are worth. -/
def decimal : List (Fin 10) → ℚ
  | [] => 0
  | d :: ds => ((d : ℕ) + decimal ds) / 10

theorem decimal_cons (d : Fin 10) (ds : List (Fin 10)) :
    decimal (d :: ds) = ((d : ℕ) + decimal ds) / 10 := rfl

/-- The digits as written. -/
def digitsText (ds : List (Fin 10)) : List Char := ds.map fun d : Fin 10 => Nat.digitChar d.val

/-- `time-secfrac`, if there is one. -/
def fractionText (ds : List (Fin 10)) : List Char := if ds = [] then [] else '.' :: digitsText ds

theorem decimal_bounds (ds : List (Fin 10)) : 0 ≤ decimal ds ∧ decimal ds < 1 := by
  induction ds with
  | nil => exact ⟨le_rfl, zero_lt_one⟩
  | cons d ds ih =>
    obtain ⟨h0, h1⟩ := ih
    have hd : ((d : ℕ) : ℚ) ≤ 9 := by exact_mod_cast Nat.lt_succ_iff.mp d.isLt
    have hd0 : (0 : ℚ) ≤ ((d : ℕ) : ℚ) := Nat.cast_nonneg _
    rw [decimal_cons]
    constructor
    · linarith
    · linarith

/-- The first digit decides. -/
theorem decimal_cons_lt_iff (d e : Fin 10) (ds es : List (Fin 10)) :
    decimal (d :: ds) < decimal (e :: es) ↔ d < e ∨ d = e ∧ decimal ds < decimal es := by
  obtain ⟨hd0, hd1⟩ := decimal_bounds ds
  obtain ⟨he0, he1⟩ := decimal_bounds es
  have hstep : ∀ {x y : Fin 10}, x < y → ((x : ℕ) : ℚ) + 1 ≤ ((y : ℕ) : ℚ) := fun h => by
    exact_mod_cast Nat.succ_le_of_lt h
  rw [decimal_cons, decimal_cons, div_lt_div_iff_of_pos_right (by norm_num : (0 : ℚ) < 10)]
  rcases lt_trichotomy d e with h | rfl | h
  · refine iff_of_true ?_ (.inl h)
    linarith [hstep h]
  · simp
  · refine iff_of_false ?_ ?_
    · linarith [hstep h]
    · rintro (h' | ⟨rfl, _⟩)
      · exact absurd h' (not_lt.mpr h.le)
      · exact absurd h (lt_irrefl _)

theorem decimal_cons_inj (d e : Fin 10) (ds es : List (Fin 10)) :
    decimal (d :: ds) = decimal (e :: es) ↔ d = e ∧ decimal ds = decimal es := by
  have h1 := decimal_cons_lt_iff d e ds es
  have h2 := decimal_cons_lt_iff e d es ds
  constructor
  · intro h
    have hn1 := h1.not.mp h.not_lt
    have hn2 := h2.not.mp h.not_gt
    push Not at hn1 hn2
    obtain rfl : d = e := le_antisymm hn2.1 hn1.1
    exact ⟨rfl, le_antisymm (hn2.2 rfl) (hn1.2 rfl)⟩
  · rintro ⟨rfl, h⟩
    rw [decimal_cons, decimal_cons, h]

theorem digitsText_cons_lt_iff (d e : Fin 10) (ds es : List (Fin 10)) (s t : List Char) :
    digitsText (d :: ds) ++ s < digitsText (e :: es) ++ t ↔
      d < e ∨ d = e ∧ digitsText ds ++ s < digitsText es ++ t := by
  unfold digitsText
  rw [List.map_cons, List.map_cons, List.cons_append, List.cons_append, List.cons_lt_cons_iff,
    digitChar_lt_iff d.isLt e.isLt, digitChar_inj d.isLt e.isLt, Fin.lt_def, Fin.ext_iff]

/-- Fractions of one length compare as texts. -/
theorem digitsText_lt_iff {ds es : List (Fin 10)} (hlen : ds.length = es.length) :
    (digitsText ds < digitsText es ↔ decimal ds < decimal es) ∧
    (digitsText ds = digitsText es ↔ decimal ds = decimal es) := by
  induction ds generalizing es with
  | nil =>
    obtain rfl := List.length_eq_zero_iff.mp hlen.symm
    simp [digitsText]
  | cons d ds ih =>
    cases es with
    | nil => cases hlen
    | cons e es =>
      obtain ⟨hlt, heq⟩ := ih (Nat.succ.inj hlen)
      constructor
      · rw [decimal_cons_lt_iff, ← hlt]
        have h := digitsText_cons_lt_iff d e ds es [] []
        simpa only [List.append_nil] using h
      · rw [decimal_cons_inj, ← heq]
        unfold digitsText
        rw [List.map_cons, List.map_cons, List.cons.injEq, digitChar_inj d.isLt e.isLt, Fin.ext_iff]

@[simp] theorem length_digitsText (ds : List (Fin 10)) : (digitsText ds).length = ds.length :=
  List.length_map _

theorem length_fractionText_congr {ds es : List (Fin 10)} (hlen : ds.length = es.length) :
    (fractionText ds).length = (fractionText es).length := by
  unfold fractionText
  cases ds with
  | nil =>
    obtain rfl := List.length_eq_zero_iff.mp hlen.symm
    rfl
  | cons d ds =>
    cases es with
    | nil => cases hlen
    | cons e es => simpa using hlen

theorem fractionText_lt_iff {ds es : List (Fin 10)} (hlen : ds.length = es.length) :
    (fractionText ds < fractionText es ↔ decimal ds < decimal es) ∧
    (fractionText ds = fractionText es ↔ decimal ds = decimal es) := by
  obtain ⟨hlt, heq⟩ := digitsText_lt_iff hlen
  unfold fractionText
  cases ds with
  | nil =>
    obtain rfl := List.length_eq_zero_iff.mp hlen.symm
    simp
  | cons d ds =>
    cases es with
    | nil => cases hlen
    | cons e es =>
      rw [if_neg (List.cons_ne_nil _ _), if_neg (List.cons_ne_nil _ _), List.cons_lt_cons_iff,
        List.cons.injEq, hlt, heq]
      simp

/-! ## Stamps -/

/-- `time-offset`. -/
inductive Zone
  | utc
  | utcLower
  | offset (west : Bool) (hours : Fin 24) (minutes : Fin 60)
  deriving DecidableEq

/-- How far the zone's clocks are ahead of UTC. -/
def Zone.minutes : Zone → ℤ
  | .utc | .utcLower => 0
  | .offset west hours minutes =>
    let ahead : ℤ := (hours : ℕ) * 60 + (minutes : ℕ)
    if west then -ahead else ahead

/-- The zone as written. -/
def Zone.text : Zone → List Char
  | .utc => ['Z']
  | .utcLower => ['z']
  | .offset west hours minutes =>
    (if west then '-' else '+') :: (pad 2 hours ++ (':' :: pad 2 minutes))

/-- A timestamp. -/
structure Stamp where
  civil : Civil
  fraction : List (Fin 10)
  zone : Zone
  separator : Char

namespace Stamp

/-- The timestamp as written. -/
def text (x : Stamp) : String := String.ofList (x.civil.dateText ++
  (x.separator :: (x.civil.timeText ++ (fractionText x.fraction ++ x.zone.text))))

/-- The UTC minute, and the seconds within it. -/
def instant (x : Stamp) : ℤ ×ₗ ℚ :=
  toLex ((x.civil.minutes : ℤ) - x.zone.minutes, x.civil.second + decimal x.fraction)

theorem text_eq (x : Stamp) : x.text.toList = x.civil.dateText ++
    (x.separator :: (x.civil.timeText ++ (fractionText x.fraction ++ x.zone.text))) :=
  String.toList_ofList

/-- **Text order, part by part.** -/
theorem text_lt_iff (x y : Stamp) : x.text < y.text ↔ x.civil.dayNumber < y.civil.dayNumber ∨
    x.civil.dayNumber = y.civil.dayNumber ∧ (x.separator < y.separator ∨
      x.separator = y.separator ∧ (x.civil.timeText < y.civil.timeText ∨
        x.civil.timeText = y.civil.timeText ∧
          fractionText x.fraction ++ x.zone.text < fractionText y.fraction ++ y.zone.text)) := by
  obtain ⟨hlt, heq⟩ := Civil.dateText_lt_iff x.civil y.civil
  rw [String.lt_iff, text_eq, text_eq, append_lt_append_iff (by simp), hlt, heq,
    List.cons_lt_cons_iff, append_lt_append_iff (by simp)]

/-- Instants in order. -/
theorem instant_lt_iff (x y : Stamp) : x.instant < y.instant ↔
    (x.civil.minutes : ℤ) - x.zone.minutes < y.civil.minutes - y.zone.minutes ∨
    (x.civil.minutes : ℤ) - x.zone.minutes = y.civil.minutes - y.zone.minutes ∧
      (x.civil.second : ℚ) + decimal x.fraction < y.civil.second + decimal y.fraction :=
  Prod.Lex.toLex_lt_toLex

end Stamp

/-- How a timestamp is spelled: all but the time it says. -/
structure Spelling where
  separator : Char
  digits : ℕ
  zone : Zone
  deriving DecidableEq

/-- The spelling of a timestamp. -/
def Stamp.spelling (x : Stamp) : Spelling := ⟨x.separator, x.fraction.length, x.zone⟩

/-- A whole second comes before the next with any fraction. -/
theorem seconds_lt_iff {m n : ℕ} (ds es : List (Fin 10)) :
    (m : ℚ) + decimal ds < n + decimal es ↔ m < n ∨ m = n ∧ decimal ds < decimal es := by
  obtain ⟨hd0, hd1⟩ := decimal_bounds ds
  obtain ⟨he0, he1⟩ := decimal_bounds es
  have hstep : ∀ {m n : ℕ}, m < n → (m : ℚ) + 1 ≤ n := fun h => by exact_mod_cast h
  rcases lt_trichotomy m n with h | rfl | h
  · exact iff_of_true (by linarith [hstep h]) (.inl h)
  · simp
  · refine iff_of_false (by linarith [hstep h]) ?_
    rintro (h' | ⟨rfl, _⟩)
    · exact absurd h' (not_lt.mpr h.le)
    · exact absurd h (lt_irrefl _)

/-- **One spelling**: texts compare as instants. -/
theorem text_lt_iff_of_spelling {x y : Stamp} (h : x.spelling = y.spelling) :
    x.text < y.text ↔ x.instant < y.instant := by
  obtain ⟨hsep, hdigits, hzone⟩ := Spelling.mk.inj h
  obtain ⟨htlt, hteq⟩ := Civil.timeText_lt_iff x.civil y.civil
  obtain ⟨hflt, hfeq⟩ := fractionText_lt_iff hdigits
  rw [Stamp.text_lt_iff, Stamp.instant_lt_iff, hsep, hzone, htlt, hteq,
    append_lt_append_iff (length_fractionText_congr hdigits), hflt, seconds_lt_iff]
  simp only [lt_self_iff_false, false_or, true_and, and_false, or_false, sub_lt_sub_iff_right,
    sub_left_inj, Nat.cast_lt, Nat.cast_inj]
  have h1 := x.civil.hour_lt
  have h2 := y.civil.hour_lt
  have h3 := x.civil.minute_lt
  have h4 := y.civil.minute_lt
  unfold Civil.minutes
  by_cases hbefore : decimal x.fraction < decimal y.fraction
  · simp only [hbefore, and_true]
    omega
  · simp only [hbefore, and_false, or_false]
    omega

/-! ## More than one spelling -/

/-- Timestamps in these spellings compare as their instants do. -/
def TextLaw (spellings : Set Spelling) : Prop :=
  ∀ x y : Stamp, x.spelling ∈ spellings → y.spelling ∈ spellings →
    (x.text < y.text ↔ x.instant < y.instant)

/-- A whole second, in a spelling. -/
def Spelling.say (σ : Spelling) (c : Civil) : Stamp :=
  ⟨c, List.replicate σ.digits 0, σ.zone, σ.separator⟩

@[simp] theorem Spelling.spelling_say (σ : Spelling) (c : Civil) : (σ.say c).spelling = σ := by
  unfold say Stamp.spelling
  rw [List.length_replicate]

theorem decimal_zeros (n : ℕ) : decimal (List.replicate n 0) = 0 := by
  induction n with
  | zero => rfl
  | succ n ih =>
    rw [List.replicate_succ, decimal_cons, ih]
    simp

theorem Spelling.instant_say (σ : Spelling) (c : Civil) :
    (σ.say c).instant = toLex ((c.minutes : ℤ) - σ.zone.minutes, (c.second : ℚ)) := by
  unfold Stamp.instant say
  dsimp only
  rw [decimal_zeros, add_zero]

/-- A zone does not begin like a fraction. -/
theorem Zone.exists_text (z : Zone) : ∃ c rest, z.text = c :: rest ∧ c ≠ '.' ∧ c ≠ '0' := by
  cases z with
  | utc => exact ⟨_, _, rfl, by decide, by decide⟩
  | utcLower => exact ⟨_, _, rfl, by decide, by decide⟩
  | offset west hours minutes =>
    refine ⟨_, _, rfl, ?_, ?_⟩ <;> cases west <;> decide

theorem Zone.text_injective : Function.Injective Zone.text := by
  have hne : ∀ west : Bool, (if west then '-' else '+') ≠ 'Z' ∧
      (if west then '-' else '+') ≠ 'z' := by
    decide
  intro a b h
  cases a with
  | utc =>
    cases b with
    | utc => rfl
    | utcLower => exact absurd h (by decide)
    | offset west hours minutes => exact absurd (List.cons.inj h).1.symm (hne west).1
  | utcLower =>
    cases b with
    | utc => exact absurd h (by decide)
    | utcLower => rfl
    | offset west hours minutes => exact absurd (List.cons.inj h).1.symm (hne west).2
  | offset west hours minutes =>
    cases b with
    | utc => exact absurd (List.cons.inj h).1 (hne west).1
    | utcLower => exact absurd (List.cons.inj h).1 (hne west).2
    | offset west' hours' minutes' =>
      obtain ⟨hsign, h⟩ := List.cons.inj h
      obtain ⟨hhours, h⟩ := (append_eq_append_iff (by simp)).mp h
      have hminutes := (List.cons.inj h).2
      have hsign : west = west' := by
        cases west <;> cases west' <;> first | rfl | exact absurd hsign (by decide)
      have hhours :=
        (pad_lt_iff (w := 2) (m := hours) (n := hours') (by omega) (by omega)).2.mp hhours
      have hminutes :=
        (pad_lt_iff (w := 2) (m := minutes) (n := minutes') (by omega) (by omega)).2.mp hminutes
      rw [hsign, Fin.ext hhours, Fin.ext hminutes]

/-- How many zeros stand in front of a zone is read off the text. -/
theorem zeros_inj {m n : ℕ} {a b : Zone}
    (h : List.replicate m '0' ++ a.text = List.replicate n '0' ++ b.text) : m = n ∧ a = b := by
  obtain ⟨c, rest, ha, _, hc⟩ := a.exists_text
  obtain ⟨d, rest', hb, _, hd⟩ := b.exists_text
  induction m generalizing n with
  | zero =>
    cases n with
    | zero => exact ⟨rfl, Zone.text_injective h⟩
    | succ n =>
      rw [ha] at h
      exact absurd (List.cons.inj h).1 hc
  | succ m ih =>
    cases n with
    | zero =>
      rw [hb] at h
      exact absurd (List.cons.inj h).1.symm hd
    | succ n =>
      obtain ⟨hmn, hab⟩ := ih (List.cons.inj h).2
      exact ⟨congrArg _ hmn, hab⟩

theorem fractionText_zeros (n : ℕ) : fractionText (List.replicate n 0) =
    if n = 0 then [] else '.' :: List.replicate n '0' := by
  unfold fractionText digitsText
  cases n with
  | zero => rfl
  | succ n =>
    rw [if_neg (by simp [List.replicate_succ]), if_neg (Nat.succ_ne_zero n), List.map_replicate]
    rfl

/-- **One second in two spellings** is two texts. -/
theorem Spelling.say_injective {σ τ : Spelling} {c : Civil}
    (h : (σ.say c).text = (τ.say c).text) : σ = τ := by
  have h := congrArg String.toList h
  rw [Stamp.text_eq, Stamp.text_eq, append_eq_append_iff (by simp), List.cons.injEq,
    append_eq_append_iff (by simp)] at h
  obtain ⟨_, hsep, _, h⟩ := h
  change fractionText (List.replicate σ.digits 0) ++ σ.zone.text =
    fractionText (List.replicate τ.digits 0) ++ τ.zone.text at h
  rw [fractionText_zeros, fractionText_zeros] at h
  obtain ⟨c, rest, hσ, hc, _⟩ := σ.zone.exists_text
  obtain ⟨d, rest', hτ, hd, _⟩ := τ.zone.exists_text
  have hboth : σ.digits = τ.digits ∧ σ.zone = τ.zone := by
    split_ifs at h with h1 h2 h2
    · exact ⟨h1.trans h2.symm, Zone.text_injective h⟩
    · rw [hσ] at h
      exact absurd (List.cons.inj h).1 hc
    · rw [hτ] at h
      exact absurd (List.cons.inj h).1.symm hd
    · exact zeros_inj (List.cons.inj h).2
  obtain ⟨_, _, _⟩ := σ
  obtain ⟨_, _, _⟩ := τ
  simp only [Spelling.mk.injEq]
  exact ⟨hsep, hboth⟩

/-- The last minute of a day. -/
def lastMinute : Civil where
  year := 2026
  month := 1
  day := 1
  hour := 23
  minute := 59
  second := 0
  year_lt := by decide
  month_pos := by decide
  month_le := by decide
  day_pos := by decide
  day_le := by decide
  hour_lt := by decide
  minute_lt := by decide
  second_le := by decide

/-- The first of the next. -/
def firstMinute : Civil where
  year := 2026
  month := 1
  day := 2
  hour := 0
  minute := 0
  second := 0
  year_lt := by decide
  month_pos := by decide
  month_le := by decide
  day_pos := by decide
  day_le := by decide
  hour_lt := by decide
  minute_lt := by decide
  second_le := by decide

/-- So many seconds past a summer noon. -/
def summerNoon (second : ℕ) : Civil where
  year := 2026
  month := 6
  day := 9
  hour := 12
  minute := 0
  second := min second 59
  year_lt := by decide
  month_pos := by decide
  month_le := by decide
  day_pos := by decide
  day_le := by decide
  hour_lt := by decide
  minute_lt := by decide
  second_le := (Nat.min_le_right second 59).trans (by decide)

/-- The fraction digits of half a second. -/
def half : List (Fin 10) := [5]

/-- **Texts compare as instants in one spelling, and in no two.** A second spelling either says the
same second in another text, or says a later date of a zone further east, which may be the same
minute. -/
theorem text_law_iff (spellings : Set Spelling) : TextLaw spellings ↔ spellings.Subsingleton := by
  constructor
  · intro h σ hσ τ hτ
    have hzone : ∀ σ ∈ spellings, ∀ τ ∈ spellings, ¬ σ.zone.minutes < τ.zone.minutes := by
      intro σ hσ τ hτ hlt
      have hlaw := h (σ.say lastMinute) (τ.say firstMinute) (by simpa) (by simpa)
      have htext : (σ.say lastMinute).text < (τ.say firstMinute).text :=
        (Stamp.text_lt_iff _ _).mpr
          (.inl (show lastMinute.dayNumber < firstMinute.dayNumber by decide))
      have hinstant := hlaw.mp htext
      rw [Spelling.instant_say, Spelling.instant_say, Prod.Lex.toLex_lt_toLex] at hinstant
      have hminutes : (firstMinute.minutes : ℤ) = lastMinute.minutes + 1 := by decide
      have hsecond : ¬ (lastMinute.second : ℚ) < firstMinute.second := lt_irrefl _
      dsimp only at hinstant
      rcases hinstant with hinstant | ⟨_, hinstant⟩
      · omega
      · exact hsecond hinstant
    have hsame : σ.zone.minutes = τ.zone.minutes :=
      le_antisymm (not_lt.mp (hzone τ hτ σ hσ)) (not_lt.mp (hzone σ hσ τ hτ))
    have hinstant : (σ.say firstMinute).instant = (τ.say firstMinute).instant := by
      rw [Spelling.instant_say, Spelling.instant_say, hsame]
    have hno : ∀ σ ∈ spellings, ∀ τ ∈ spellings,
        (σ.say firstMinute).instant = (τ.say firstMinute).instant →
        ¬ (σ.say firstMinute).text < (τ.say firstMinute).text := by
      intro σ hσ τ hτ heq hlt
      have hlaw := (h (σ.say firstMinute) (τ.say firstMinute) (by simpa) (by simpa)).mp hlt
      exact absurd heq hlaw.ne
    refine Spelling.say_injective (c := firstMinute) (le_antisymm ?_ ?_)
    · exact not_lt.mp (hno τ hτ σ hσ hinstant.symm)
    · exact not_lt.mp (hno σ hσ τ hτ hinstant)
  · intro h x y hx hy
    exact text_lt_iff_of_spelling (h hx hy)

/-! ## UTC, without trailing zeros -/

/-- A fraction without trailing zeros. -/
def Trimmed (ds : List (Fin 10)) : Prop := ∀ d ∈ ds.getLast?, d ≠ 0

/-- One goes on where the other ends. -/
def Continues (ds es : List (Fin 10)) : Prop := ds ≠ es ∧ (ds <+: es ∨ es <+: ds)

instance (ds es : List (Fin 10)) : Decidable (Continues ds es) :=
  inferInstanceAs (Decidable (_ ∧ _))

theorem Continues.symm {ds es : List (Fin 10)} (h : Continues ds es) : Continues es ds :=
  ⟨h.1.symm, h.2.symm⟩

theorem Trimmed.tail {d : Fin 10} {ds : List (Fin 10)} (h : Trimmed (d :: ds)) : Trimmed ds := by
  intro e he
  refine h e ?_
  rw [List.getLast?_cons, Option.mem_def.mp he]
  rfl

/-- A fraction that is there is worth something. -/
theorem decimal_pos {ds : List (Fin 10)} (h : Trimmed ds) (hne : ds ≠ []) : 0 < decimal ds := by
  induction ds with
  | nil => exact absurd rfl hne
  | cons d ds ih =>
    rw [decimal_cons]
    cases ds with
    | nil =>
      have hd : d ≠ 0 := h d rfl
      have hd : (0 : ℚ) < ((d : ℕ) : ℚ) := by exact_mod_cast Fin.pos_iff_ne_zero.mpr hd
      have : decimal [] = 0 := rfl
      linarith
    | cons e es =>
      have := ih h.tail (List.cons_ne_nil _ _)
      have hd : (0 : ℚ) ≤ ((d : ℕ) : ℚ) := Nat.cast_nonneg _
      linarith

theorem continues_cons_iff {d e : Fin 10} {ds es : List (Fin 10)} :
    Continues (d :: ds) (e :: es) ↔ d = e ∧ Continues ds es := by
  unfold Continues
  rw [List.cons_prefix_cons, List.cons_prefix_cons, ne_eq, List.cons.injEq]
  constructor
  · rintro ⟨hne, ⟨rfl, h⟩ | ⟨rfl, h⟩⟩
    · exact ⟨rfl, fun heq => hne ⟨rfl, heq⟩, .inl h⟩
    · exact ⟨rfl, fun heq => hne ⟨rfl, heq⟩, .inr h⟩
  · rintro ⟨rfl, hne, h⟩
    exact ⟨fun heq => hne heq.2, h.imp (⟨rfl, ·⟩) (⟨rfl, ·⟩)⟩

theorem digitsText_law {ds es : List (Fin 10)} (hds : Trimmed ds) (hes : Trimmed es) :
    (digitsText ds ++ Zone.utc.text < digitsText es ++ Zone.utc.text ↔ decimal ds < decimal es) ↔
      ¬ Continues ds es := by
  have hz : ∀ d : Fin 10, Nat.digitChar d.val < 'Z' := by decide
  have hnil : decimal [] = 0 := rfl
  induction ds generalizing es with
  | nil =>
    cases es with
    | nil => simp [Continues]
    | cons e es =>
      refine iff_of_false (fun h => ?_) (not_not.mpr ⟨(List.cons_ne_nil _ _).symm, .inl ?_⟩)
      · have htext := h.mpr (by rw [hnil]; exact decimal_pos hes (List.cons_ne_nil _ _))
        rcases List.cons_lt_cons_iff.mp htext with hlt | ⟨heq, _⟩
        · exact absurd hlt (not_lt.mpr (hz e).le)
        · exact absurd heq (hz e).ne'
      · exact List.nil_prefix
  | cons d ds ih =>
    cases es with
    | nil =>
      refine iff_of_false (fun h => ?_) (not_not.mpr ⟨List.cons_ne_nil _ _, .inr ?_⟩)
      · have hlt := h.mp (List.cons_lt_cons_iff.mpr (.inl (hz d)))
        rw [hnil] at hlt
        exact absurd hlt (not_lt.mpr (decimal_bounds _).1)
      · exact List.nil_prefix
    | cons e es =>
      rw [digitsText_cons_lt_iff, decimal_cons_lt_iff, continues_cons_iff]
      by_cases hde : d = e
      · subst hde
        simpa using ih hds.tail hes.tail
      · simp [hde]

theorem fractionText_law {ds es : List (Fin 10)} (hds : Trimmed ds) (hes : Trimmed es) :
    (fractionText ds ++ Zone.utc.text < fractionText es ++ Zone.utc.text ↔
      decimal ds < decimal es) ↔ ¬ Continues ds es := by
  rw [← digitsText_law hds hes]
  have hz : ∀ d : Fin 10, Nat.digitChar d.val < 'Z' := by decide
  unfold fractionText
  cases ds with
  | nil =>
    cases es with
    | nil => exact Iff.rfl
    | cons e es =>
      have h1 : ¬ Zone.utc.text < ('.' :: digitsText (e :: es)) ++ Zone.utc.text := fun h => by
        rcases List.cons_lt_cons_iff.mp h with h | ⟨h, _⟩
        · exact absurd h (by decide)
        · exact absurd h (by decide)
      have h2 : ¬ Zone.utc.text < digitsText (e :: es) ++ Zone.utc.text := fun h => by
        rcases List.cons_lt_cons_iff.mp h with h | ⟨h, _⟩
        · exact absurd h (not_lt.mpr (hz e).le)
        · exact absurd h (hz e).ne'
      exact iff_congr (iff_of_false h1 h2) Iff.rfl
  | cons d ds =>
    cases es with
    | nil =>
      have h1 : ('.' :: digitsText (d :: ds)) ++ Zone.utc.text < Zone.utc.text :=
        List.cons_lt_cons_iff.mpr (.inl (by decide))
      have h2 : digitsText (d :: ds) ++ Zone.utc.text < Zone.utc.text :=
        List.cons_lt_cons_iff.mpr (.inl (hz d))
      exact iff_congr (iff_of_true h1 h2) Iff.rfl
    | cons e es =>
      rw [if_neg (List.cons_ne_nil _ _), if_neg (List.cons_ne_nil _ _), List.cons_append,
        List.cons_append, List.cons_lt_cons_iff]
      simp

/-- A timestamp as UTC writers spell it. -/
structure Canonical (x : Stamp) : Prop where
  separator : x.separator = 'T'
  zone : x.zone = .utc
  trimmed : Trimmed x.fraction

/-- Two timestamps of one second, one with further digits. -/
def SameSecond (x y : Stamp) : Prop :=
  x.civil.minutes = y.civil.minutes ∧ x.civil.second = y.civil.second ∧
    Continues x.fraction y.fraction

instance (x y : Stamp) : Decidable (SameSecond x y) := inferInstanceAs (Decidable (_ ∧ _))

theorem SameSecond.symm {x y : Stamp} (h : SameSecond x y) : SameSecond y x :=
  ⟨h.1.symm, h.2.1.symm, h.2.2.symm⟩

/-- **Canonical texts compare as instants**, but for two of one second of which one has further
digits: there the shorter text, its zone where the other goes on, comes last. -/
theorem text_law_canonical {x y : Stamp} (hx : Canonical x) (hy : Canonical y) :
    (x.text < y.text ↔ x.instant < y.instant) ↔ ¬ SameSecond x y := by
  obtain ⟨htlt, hteq⟩ := Civil.timeText_lt_iff x.civil y.civil
  have hlaw := fractionText_law hx.trimmed hy.trimmed
  rw [Stamp.text_lt_iff, Stamp.instant_lt_iff, hx.separator, hy.separator, hx.zone, hy.zone, htlt,
    hteq, seconds_lt_iff]
  simp only [lt_self_iff_false, false_or, true_and, sub_lt_sub_iff_right, sub_left_inj,
    Nat.cast_lt, Nat.cast_inj]
  unfold SameSecond
  have h1 := x.civil.hour_lt
  have h2 := y.civil.hour_lt
  have h3 := x.civil.minute_lt
  have h4 := y.civil.minute_lt
  have hminutes : ∀ c : Civil, c.minutes = c.dayNumber * 1440 + (c.hour * 60 + c.minute) := by
    intro c
    unfold Civil.minutes
    ring
  rw [hminutes, hminutes]
  by_cases hsame : (x.civil.dayNumber = y.civil.dayNumber ∧
      x.civil.hour * 60 + x.civil.minute = y.civil.hour * 60 + y.civil.minute) ∧
      x.civil.second = y.civil.second
  · obtain ⟨⟨hday, htime⟩, hsecond⟩ := hsame
    rw [hday, htime, hsecond]
    simpa using hlaw
  · refine iff_of_true ⟨?_, ?_⟩ fun h => hsame ⟨by omega, h.2.1⟩
    · rintro (h | ⟨hday, (h | h) | h⟩)
      · exact .inl (by omega)
      · exact .inl (by omega)
      · exact .inr ⟨by omega, .inl h.2⟩
      · exact absurd ⟨⟨hday, h.1.1⟩, h.1.2⟩ hsame
    · rintro (h | ⟨hminute, h | h⟩)
      · by_cases hday : x.civil.dayNumber < y.civil.dayNumber
        · exact .inl hday
        · exact .inr ⟨by omega, .inl (.inl (by omega))⟩
      · exact .inr ⟨by omega, .inl (.inr ⟨by omega, h⟩)⟩
      · exact absurd ⟨by omega, h.1⟩ hsame

end NexusFlow.Lib.Rfc3339
