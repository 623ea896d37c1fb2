import Mathlib.Algebra.Order.Ring.Int
import Mathlib.Data.List.Basic

/-!
# The string operations the products build ids with

Rust's `str` operations as they are used on composite target ids and values: `split`, `split_once`
and `join` on one character, `contains`, `strip_prefix`. A composite id is read back by `splitChar`
exactly as `joinChar` wrote it when no piece holds the separator (`splitChar_joinChar`).
-/

namespace NexusFlow.Foundation

/-- `s.split(c).collect()`: never empty, one piece more than `s` holds `c`. -/
def splitChar (c : Char) (s : String) : List String := (s.toList.splitOn c).map String.ofList

/-- `pieces.join(c)`. -/
def joinChar (c : Char) (pieces : List String) : String :=
  String.ofList ([c].intercalate (pieces.map String.toList))

/-- `s.contains(c)`. -/
def hasChar (c : Char) (s : String) : Bool := s.toList.contains c

/-- `s.split_once(c)`: around the first occurrence. -/
def splitOnce (c : Char) (s : String) : Option (String × String) :=
  match s.toList.dropWhile (· != c) with
  | [] => none
  | _ :: rest => some (String.ofList (s.toList.takeWhile (· != c)), String.ofList rest)

/-- `s.starts_with(pre)`. -/
def startsWith (pre s : String) : Bool := pre.toList.isPrefixOf s.toList

/-- `s.strip_prefix(pre)`. -/
def stripPrefix (pre s : String) : Option String :=
  if startsWith pre s then some (String.ofList (s.toList.drop pre.toList.length)) else none

/-- `c.is_ascii_alphanumeric()`. -/
def isAsciiAlphanumeric (c : Char) : Bool :=
  ('a' ≤ c && c ≤ 'z') || ('A' ≤ c && c ≤ 'Z') || ('0' ≤ c && c ≤ '9')

theorem hasChar_eq_false_iff {c : Char} {s : String} : hasChar c s = false ↔ c ∉ s.toList := by
  simp [hasChar]

theorem hasChar_append (c : Char) (a b : String) :
    hasChar c (a ++ b) = (hasChar c a || hasChar c b) := by
  unfold hasChar
  rw [String.toList_append, List.contains_append]

/-- Splitting undoes joining, when no piece holds the separator. -/
theorem splitChar_joinChar {c : Char} {pieces : List String} (hne : pieces ≠ [])
    (h : ∀ p ∈ pieces, hasChar c p = false) : splitChar c (joinChar c pieces) = pieces := by
  unfold splitChar joinChar
  rw [String.toList_ofList, List.splitOn_intercalate c]
  · rw [List.map_map]
    conv_rhs => rw [← List.map_id pieces]
    exact List.map_congr_left fun p _ => String.ofList_toList
  · intro l hl
    obtain ⟨p, hp, rfl⟩ := List.mem_map.mp hl
    exact hasChar_eq_false_iff.mp (h p hp)
  · simpa using hne

/-- Joining undoes splitting. -/
theorem joinChar_splitChar (c : Char) (s : String) : joinChar c (splitChar c s) = s := by
  unfold splitChar joinChar
  rw [List.map_map]
  have : String.toList ∘ String.ofList = id := by
    funext l
    exact String.toList_ofList
  rw [this, List.map_id, List.intercalate_splitOn, String.ofList_toList]

theorem notMem_of_mem_splitOn {α : Type*} [DecidableEq α] {a : α} :
    ∀ {l p : List α}, p ∈ l.splitOn a → a ∉ p
  | [], p, h => by
    rw [List.splitOn_nil, List.mem_singleton] at h
    simp [h]
  | x :: l, p, h => by
    rw [List.splitOn_cons_eq_if_modifyHead] at h
    split_ifs at h with hx
    · rcases List.mem_cons.mp h with rfl | h
      · exact List.not_mem_nil
      · exact notMem_of_mem_splitOn h
    · obtain ⟨q, ps, hl⟩ := List.exists_cons_of_ne_nil (List.splitOn_ne_nil a l)
      rw [hl, List.modifyHead_cons] at h
      rcases List.mem_cons.mp h with rfl | h
      · have hq : a ∉ q := notMem_of_mem_splitOn (l := l) (by rw [hl]; exact List.mem_cons_self)
        rw [List.mem_cons, not_or]
        exact ⟨fun hax => hx (by simp [hax]), hq⟩
      · exact notMem_of_mem_splitOn (l := l) (by rw [hl]; exact List.mem_cons_of_mem q h)

/-- No piece of a split holds the separator. -/
theorem hasChar_of_mem_splitChar {c : Char} {s p : String} (h : p ∈ splitChar c s) :
    hasChar c p = false := by
  obtain ⟨l, hl, rfl⟩ := List.mem_map.mp h
  rw [hasChar_eq_false_iff, String.toList_ofList]
  exact notMem_of_mem_splitOn hl

/-- What `split_once` splits is what stands around the first separator. -/
theorem splitOnce_eq_some {c : Char} {s a b : String} (h : splitOnce c s = some (a, b)) :
    s = a ++ (String.singleton c ++ b) ∧ hasChar c a = false := by
  unfold splitOnce at h
  have hsplit := List.takeWhile_append_dropWhile (p := (· != c)) (l := s.toList)
  cases hd : s.toList.dropWhile (· != c) with
  | nil =>
    rw [hd] at h
    cases h
  | cons d rest =>
    rw [hd] at h hsplit
    cases h
    have hdc : d = c := by
      have hne : s.toList.dropWhile (· != c) ≠ [] := by simp [hd]
      simpa [hd] using List.head_dropWhile_not (· != c) hne
    subst hdc
    constructor
    · rw [← String.toList_inj, String.toList_append, String.toList_append, String.toList_ofList,
        String.toList_ofList, String.toList_singleton]
      exact hsplit.symm
    · rw [hasChar_eq_false_iff, String.toList_ofList]
      intro hmem
      have := List.all_takeWhile (p := (· != d)) (l := s.toList)
      rw [List.all_eq_true] at this
      simpa using this d hmem

theorem splitOnce_append {c : Char} {a : String} (ha : hasChar c a = false) (b : String) :
    splitOnce c (a ++ (String.singleton c ++ b)) = some (a, b) := by
  rw [hasChar_eq_false_iff] at ha
  have hall : ∀ x ∈ a.toList, (x != c) = true := by
    intro x hx
    rw [bne_iff_ne]
    rintro rfl
    exact ha hx
  have htake : (a.toList ++ c :: b.toList).takeWhile (· != c) = a.toList := by
    rw [List.takeWhile_append_of_pos hall, List.takeWhile_cons_of_neg (by simp), List.append_nil]
  have hdrop : (a.toList ++ c :: b.toList).dropWhile (· != c) = c :: b.toList := by
    rw [List.dropWhile_append_of_pos hall, List.dropWhile_cons_of_neg (by simp)]
  have hlist : (a ++ (String.singleton c ++ b)).toList = a.toList ++ c :: b.toList := by
    rw [String.toList_append, String.toList_append, String.toList_singleton]
    rfl
  unfold splitOnce
  rw [hlist, hdrop, htake]
  simp only [String.ofList_toList]

theorem splitOnce_eq_none {c : Char} {s : String} (h : splitOnce c s = none) :
    hasChar c s = false := by
  unfold splitOnce at h
  cases hd : s.toList.dropWhile (· != c) with
  | nil =>
    rw [hasChar_eq_false_iff]
    intro hmem
    have hsplit := List.takeWhile_append_dropWhile (p := (· != c)) (l := s.toList)
    rw [hd, List.append_nil] at hsplit
    have := List.all_takeWhile (p := (· != c)) (l := s.toList)
    rw [hsplit, List.all_eq_true] at this
    simpa using this c hmem
  | cons d rest =>
    rw [hd] at h
    cases h

end NexusFlow.Foundation
