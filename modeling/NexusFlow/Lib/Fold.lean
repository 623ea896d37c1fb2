import Mathlib.Algebra.Order.Ring.Int
import Mathlib.Data.List.Sort
import Mathlib.Order.Basic

/-!
# Folds whose elements commute or absorb each other

General facts about `List.foldl` and the stable sort, over an arbitrary state `σ` and arbitrary elements `α`.

* `foldl_insertionSort`: a fold does not notice a stable sort, as long as every pair the sort
  moves past each other commutes. Pairs the sort leaves in order (equal keys) need not commute,
  which is what a last-writer-wins register with ties needs.
* `insertionSort_append`: sorting the front of a list first changes nothing.
* `foldl_perm`: a fold whose elements commute pairwise is a function of the multiset of elements.
* `foldl_replay`: when a folded element stays absorbed by whatever is folded after it, folding
  any of the elements again changes nothing.
-/

namespace NexusFlow.Lib

variable {σ α : Type*}

/-- `a` and `b` can be folded in either order, from every state. -/
def Commute (f : σ → α → σ) (a b : α) : Prop := ∀ s, f (f s a) b = f (f s b) a

theorem Commute.symm {f : σ → α → σ} {a b : α} (h : Commute f a b) : Commute f b a :=
  fun s => (h s).symm

/-! ## Sorting -/

/-- Inserting `a` into its place is folding it first, when `a` commutes with everything it moves
past. -/
theorem foldl_orderedInsert {f : σ → α → σ} {le : α → α → Prop} [DecidableRel le] {a : α} :
    ∀ (l : List α) (s : σ), (∀ b ∈ l, ¬ le a b → Commute f a b) →
      (l.orderedInsert le a).foldl f s = l.foldl f (f s a)
  | [], _, _ => rfl
  | b :: l, s, h => by
    by_cases hab : le a b
    · rw [List.orderedInsert_cons_of_le _ _ hab]
      rfl
    · rw [List.orderedInsert_of_not_le _ _ hab, List.foldl_cons,
        foldl_orderedInsert l (f s b) fun c hc => h c (List.mem_cons_of_mem b hc), List.foldl_cons,
        h b List.mem_cons_self hab s]

/-- **A fold does not notice a stable sort** of commuting elements. -/
theorem foldl_insertionSort {f : σ → α → σ} {le : α → α → Prop} [DecidableRel le] :
    ∀ (l : List α) (s : σ), l.Pairwise (fun a b => ¬ le a b → Commute f a b) →
      (l.insertionSort le).foldl f s = l.foldl f s
  | [], _, _ => rfl
  | a :: l, s, h => by
    obtain ⟨ha, hl⟩ := List.pairwise_cons.mp h
    rw [List.insertionSort_cons, foldl_orderedInsert, foldl_insertionSort l _ hl, List.foldl_cons]
    intro b hb
    exact ha b ((List.mem_insertionSort le).mp hb)

section Stable

variable {le : α → α → Prop} [DecidableRel le] [Std.Total le] [IsTrans α le]

/-- Two insertions commute, when one element is strictly below the other. -/
theorem orderedInsert_comm {a x : α} (h : ¬ le a x) : ∀ l : List α,
    (l.orderedInsert le a).orderedInsert le x = (l.orderedInsert le x).orderedInsert le a
  | [] => by
    have hxa : le x a := (total_of le x a).resolve_right h
    simp [h, hxa]
  | y :: l => by
    have hxa : le x a := (total_of le x a).resolve_right h
    by_cases hay : le a y
    · have hxy : le x y := IsTrans.trans _ _ _ hxa hay
      simp [h, hxa, hay, hxy]
    · by_cases hxy : le x y
      · simp [h, hay, hxy]
      · simp [hay, hxy, orderedInsert_comm h l]

/-- Inserting a list with `a` put in its place is inserting the list, then `a`. -/
theorem foldr_orderedInsert (a : α) (m : List α) : ∀ l : List α,
    (l.orderedInsert le a).foldr (List.orderedInsert le) m =
      (l.foldr (List.orderedInsert le) m).orderedInsert le a
  | [] => rfl
  | x :: l => by
    by_cases hax : le a x
    · rw [List.orderedInsert_cons_of_le _ _ hax]
      rfl
    · rw [List.orderedInsert_of_not_le _ _ hax, List.foldr_cons, foldr_orderedInsert a m l,
        orderedInsert_comm hax]
      rfl

/-- **Sorting the front first changes nothing**: the sort is stable. -/
theorem insertionSort_append (l m : List α) :
    (l.insertionSort le ++ m).insertionSort le = (l ++ m).insertionSort le := by
  have happend (k : List α) : (k ++ m).insertionSort le =
      k.foldr (List.orderedInsert le) (m.insertionSort le) := List.foldr_append
  rw [happend, happend]
  induction l with
  | nil => rfl
  | cons a l ih => rw [List.insertionSort_cons, foldr_orderedInsert, ih, List.foldr_cons]

/-- A sort that only moves elements past ones they commute with: the front sorted, then the back. -/
theorem foldl_insertionSort_append {f : σ → α → σ} {l m : List α}
    (hlm : ∀ a ∈ l, ∀ b ∈ m, ¬ le a b → Commute f a b)
    (hm : m.Pairwise fun a b => ¬ le a b → Commute f a b) (s : σ) :
    ((l ++ m).insertionSort le).foldl f s = m.foldl f ((l.insertionSort le).foldl f s) := by
  rw [← insertionSort_append, foldl_insertionSort, List.foldl_append]
  refine List.pairwise_append.mpr ⟨?_, hm, fun a ha => hlm a ((List.mem_insertionSort le).mp ha)⟩
  exact (List.pairwise_insertionSort le l).imp fun hab hnot => absurd hab hnot

end Stable

/-- **A fold over commuting elements is a function of the multiset.** -/
theorem foldl_perm {f : σ → α → σ} {l₁ l₂ : List α} (hp : l₁.Perm l₂) (s : σ)
    (h : ∀ a ∈ l₁, ∀ b ∈ l₁, Commute f a b) : l₁.foldl f s = l₂.foldl f s :=
  hp.foldl_eq' (fun a ha b hb z => h a ha b hb z) s

/-- Lists of commuting elements fold one past the other. -/
theorem foldl_foldl_comm {f : σ → α → σ} {l₁ l₂ : List α} (s : σ)
    (h : ∀ a ∈ l₁, ∀ b ∈ l₂, Commute f a b) :
    l₂.foldl f (l₁.foldl f s) = l₁.foldl f (l₂.foldl f s) := by
  induction l₁ generalizing s with
  | nil => rfl
  | cons a l₁ ih =>
    rw [List.foldl_cons, ih _ fun a' ha' => h a' (List.mem_cons_of_mem a ha'), List.foldl_cons]
    congr 1
    have hcomm : ∀ b ∈ l₂, Commute f a b := h a List.mem_cons_self
    clear ih h
    induction l₂ generalizing s with
    | nil => rfl
    | cons b l₂ ihb =>
      rw [List.foldl_cons, hcomm b List.mem_cons_self s,
        ihb _ fun b' hb' => hcomm b' (List.mem_cons_of_mem b hb')]
      rfl

/-! ## Absorption -/

/-- Folding `a` once more changes nothing. -/
def Absorbed (f : σ → α → σ) (s : σ) (a : α) : Prop := f s a = s

/-- `b` leaves `a` absorbed, and `a` absorbs itself: what makes a fold replayable. -/
structure Replays (f : σ → α → σ) (a b : α) : Prop where
  self : ∀ s, Absorbed f (f s a) a
  keep : ∀ s, Absorbed f s a → Absorbed f (f s b) a

theorem Absorbed.foldl {f : σ → α → σ} {a : α} {l : List α} {s : σ} (h : Absorbed f s a)
    (hl : ∀ b ∈ l, Replays f a b) : Absorbed f (l.foldl f s) a := by
  induction l generalizing s with
  | nil => exact h
  | cons b l ih =>
    exact ih ((hl b List.mem_cons_self).keep s h) fun c hc => hl c (List.mem_cons_of_mem b hc)

/-- Every element is absorbed once the whole list has been folded. -/
theorem absorbed_foldl_of_mem {f : σ → α → σ} {a : α} {l : List α} (s : σ) (ha : a ∈ l)
    (hl : ∀ b ∈ l, Replays f a b) : Absorbed f (l.foldl f s) a := by
  obtain ⟨l₁, l₂, rfl⟩ := List.append_of_mem ha
  rw [List.foldl_append, List.foldl_cons]
  refine Absorbed.foldl ((hl a ha).self _) fun b hb => hl b ?_
  exact List.mem_append_right l₁ (List.mem_cons_of_mem a hb)

theorem foldl_of_absorbed {f : σ → α → σ} {s : σ} :
    ∀ {l : List α}, (∀ a ∈ l, Absorbed f s a) → l.foldl f s = s
  | [], _ => rfl
  | a :: l, h => by
    rw [List.foldl_cons, h a List.mem_cons_self]
    exact foldl_of_absorbed fun b hb => h b (List.mem_cons_of_mem a hb)

/-- **Folding again what was folded changes nothing.** -/
theorem foldl_replay {f : σ → α → σ} {l l' : List α} (s : σ) (hsub : ∀ a ∈ l', a ∈ l)
    (hl : ∀ a ∈ l, ∀ b ∈ l, Replays f a b) : l'.foldl f (l.foldl f s) = l.foldl f s :=
  foldl_of_absorbed fun a ha => absorbed_foldl_of_mem s (hsub a ha) (hl a (hsub a ha))

end NexusFlow.Lib
