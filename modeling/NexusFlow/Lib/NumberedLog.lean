import Mathlib.Algebra.Order.Ring.Int
import Mathlib.Data.List.Basic
import Mathlib.Data.List.Nodup

/-!
# A numbered log without duplicates

A list that only grows at its end, each item under its position counted from 1, no two items under
one key: appending a key that is there answers its position and changes nothing. A reader takes pages
after a position and follows the last position it was given.

`numbered` is a table of such a log: what stands for each item under its position.

Results: the positions of a log are stable under appending (`position_append`), appending keeps the
keys apart (`appendOnce_nodup`), and following from any position with any page sizes reads the items
in order, each once (`follow_eq`).
-/

namespace NexusFlow.Lib

variable {α κ : Type*} [DecidableEq κ] (key : α → κ)

/-- The position of the item with this key, counted from 1. -/
def position (log : List α) (k : κ) : Option Nat :=
  (log.findIdx? fun a => key a = k).map (· + 1)

/-- Append an item, unless its key is there; the position it holds. -/
def appendOnce (log : List α) (a : α) : List α × Nat :=
  match position key log (key a) with
  | some n => (log, n)
  | none => (log ++ [a], log.length + 1)

/-- The items after a position, at most `limit`. -/
def page (log : List α) (after limit : Nat) : List α := (log.drop after).take limit

/-- What a reader is given that follows its positions, one page after another. -/
def follow (log : List α) : Nat → List Nat → List α
  | _, [] => []
  | after, limit :: limits =>
    page log after limit ++ follow log (after + (page log after limit).length) limits

section Numbered

variable {β : Type*} (f : Int → α → β)

/-- What stands for each item under its position. -/
def numbered (log : List α) : List β := log.zipIdx.map fun e => f (e.2 + 1) e.1

variable {f}

theorem numbered_snoc (log : List α) (a : α) :
    numbered f (log ++ [a]) = numbered f log ++ [f (log.length + 1) a] := by
  unfold numbered
  rw [List.zipIdx_append, List.map_append]
  simp

theorem length_numbered (log : List α) : (numbered f log).length = log.length := by
  unfold numbered
  rw [List.length_map, List.length_zipIdx]

theorem getElem?_numbered (log : List α) (i : Nat) :
    (numbered f log)[i]? = log[i]?.map fun a => f (i + 1) a := by
  unfold numbered
  rw [List.getElem?_map, List.getElem?_zipIdx, Option.map_map, Nat.zero_add]
  rfl

theorem mem_numbered {log : List α} {b : β} :
    b ∈ numbered f log ↔ ∃ (i : Nat) (a : α), log[i]? = some a ∧ b = f (i + 1) a := by
  rw [List.mem_iff_getElem?]
  refine exists_congr fun i => ?_
  rw [getElem?_numbered, Option.map_eq_some_iff]
  exact exists_congr fun a => and_congr_right fun _ => eq_comm

/-- What rises with the position rises along the log. -/
theorem pairwise_numbered {R : β → β → Prop} (hR : ∀ i j a b, i < j → R (f i a) (f j b))
    (log : List α) : (numbered f log).Pairwise R := by
  rw [List.pairwise_iff_getElem]
  intro i j hi hj hij
  have hget : ∀ k (hk : k < (numbered f log).length), ∃ a, (numbered f log)[k] = f (k + 1) a := by
    intro k hk
    obtain ⟨a, -, ha⟩ := Option.map_eq_some_iff.mp
      ((getElem?_numbered (f := f) log k).symm.trans (List.getElem?_eq_getElem hk))
    exact ⟨a, ha.symm⟩
  obtain ⟨a, ha⟩ := hget i hi
  obtain ⟨b, hb⟩ := hget j hj
  rw [ha, hb]
  exact hR _ _ _ _ (by omega)

end Numbered

variable {key}

theorem position_eq_none {log : List α} {k : κ} : position key log k = none ↔ k ∉ log.map key := by
  unfold position
  rw [Option.map_eq_none_iff, List.findIdx?_eq_none_iff, List.mem_map]
  simp

theorem position_eq_some {log : List α} {k : κ} {n : Nat} (h : position key log k = some n) :
    ∃ a, 1 ≤ n ∧ log[n - 1]? = some a ∧ key a = k := by
  unfold position at h
  obtain ⟨i, hi, rfl⟩ := Option.map_eq_some_iff.mp h
  obtain ⟨hlt, hk, -⟩ := List.findIdx?_eq_some_iff_getElem.mp hi
  exact ⟨log[i], Nat.succ_pos i, List.getElem?_eq_getElem hlt, of_decide_eq_true hk⟩

/-- A position is stable. -/
theorem position_append {log more : List α} {k : κ} {n : Nat} (h : position key log k = some n) :
    position key (log ++ more) k = some n := by
  unfold position at *
  obtain ⟨i, hi, rfl⟩ := Option.map_eq_some_iff.mp h
  rw [List.findIdx?_append, hi]
  rfl

theorem position_snoc {log : List α} {a : α} (h : key a ∉ log.map key) :
    position key (log ++ [a]) (key a) = some (log.length + 1) := by
  have hnone : (log.findIdx? fun b => decide (key b = key a)) = none := by
    have := position_eq_none.mpr h
    unfold position at this
    exact Option.map_eq_none_iff.mp this
  unfold position
  rw [List.findIdx?_append, hnone]
  simp

theorem appendOnce_of_mem {log : List α} {a : α} {n : Nat}
    (h : position key log (key a) = some n) : appendOnce key log a = (log, n) := by
  unfold appendOnce
  rw [h]

theorem appendOnce_of_notMem {log : List α} {a : α} (h : key a ∉ log.map key) :
    appendOnce key log a = (log ++ [a], log.length + 1) := by
  unfold appendOnce
  rw [position_eq_none.mpr h]

theorem mem_appendOnce {log : List α} {a b : α} (h : b ∈ (appendOnce key log a).1) :
    b ∈ log ∨ b = a := by
  unfold appendOnce at h
  split at h
  · exact .inl h
  · rcases List.mem_append.mp h with h | h
    · exact .inl h
    · exact .inr (List.mem_singleton.mp h)

/-- **No key twice.** -/
theorem appendOnce_nodup {log : List α} (h : (log.map key).Nodup) (a : α) :
    ((appendOnce key log a).1.map key).Nodup := by
  unfold appendOnce
  split
  · exact h
  · rename_i hnone
    rw [List.map_append]
    refine h.append (List.nodup_singleton _) ?_
    intro k hk hk'
    rw [List.map_singleton, List.mem_singleton] at hk'
    exact position_eq_none.mp hnone (hk' ▸ hk)

theorem page_length (log : List α) (after limit : Nat) :
    (page log after limit).length = min limit (log.length - after) := by
  unfold page
  rw [List.length_take, List.length_drop]

/-- **Following reads on in order, each item once**: what was read is the next stretch of the log. -/
theorem follow_eq (log : List α) (limits : List Nat) : ∀ after,
    follow log after limits = (log.drop after).take limits.sum := by
  induction limits with
  | nil => exact fun after => (List.take_zero).symm
  | cons limit limits ih =>
    intro after
    rw [follow, ih, List.sum_cons, page_length]
    unfold page
    by_cases hlen : limit ≤ log.length - after
    · rw [min_eq_left hlen, List.take_add, List.drop_drop]
    · rw [min_eq_right (le_of_not_ge hlen)]
      have hall : (log.drop after).length ≤ limit := by
        rw [List.length_drop]
        exact le_of_not_ge hlen
      have hnone : log.drop (after + (log.length - after)) = [] :=
        List.drop_eq_nil_of_le (by omega)
      rw [hnone, List.take_nil, List.append_nil, List.take_of_length_le hall,
        List.take_of_length_le (hall.trans (Nat.le_add_right _ _))]

end NexusFlow.Lib
