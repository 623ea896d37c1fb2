import Mathlib.Data.Finset.Card
import Mathlib.Data.Set.Basic
import Mathlib.Logic.Relation

/-!
# Worklists

The loop that takes an element off a list, notes each of its successors not found before, and goes
on until the list is empty. `push` is where a new element joins the list: at the front for a stack,
at the end for a queue, as the rows of a recursive query whose `UNION` drops the ones it already has.

**Main results**: `search_eq` and `recursiveUnion_eq`. With a turn of fuel for each element on the
list and each one that can still be found the loop returns, and what it found is what some root
reaches in one step or more, whatever the order (`Inv.drain`).
-/

namespace NexusFlow.Lib

open Relation

variable {α : Type*} [DecidableEq α]

/-- What has been found, and what is still to be looked into. -/
structure Worklist (α : Type*) where
  found : Finset α
  todo : List α

namespace Worklist

variable (push : α → List α → List α) (next : α → List α)

/-- Note an element, unless it was found before. -/
def note (w : Worklist α) (x : α) : Worklist α :=
  if x ∈ w.found then w else ⟨insert x w.found, push x w.todo⟩

/-- Note the elements of a list in turn. -/
def noteAll (w : Worklist α) (xs : List α) : Worklist α := xs.foldl (note push) w

/-- Look into the list until it is empty. `none` when the fuel does not last. -/
def drain : Nat → Worklist α → Option (Finset α)
  | _, ⟨found, []⟩ => some found
  | 0, ⟨_, _ :: _⟩ => none
  | fuel + 1, ⟨found, x :: todo⟩ => drain fuel (noteAll push ⟨found, todo⟩ (next x))

/-- Start from a stack of roots. -/
def search (fuel : Nat) (roots : List α) : Option (Finset α) :=
  drain List.cons next fuel ⟨∅, roots⟩

/-- A recursive query: the rows of the first part, then the rows each row gives, with `UNION`. -/
def recursiveUnion (fuel : Nat) (first : List α) : Option (Finset α) :=
  drain (fun x todo => todo ++ [x]) next fuel (noteAll (fun x todo => todo ++ [x]) ⟨∅, []⟩ first)

/-! ## Noting -/

section Note

variable {push} (hpush : ∀ x todo, (push x todo).Perm (x :: todo))

theorem found_noteAll (w : Worklist α) (xs : List α) :
    (noteAll push w xs).found = w.found ∪ xs.toFinset := by
  induction xs generalizing w with
  | nil => simp [noteAll]
  | cons x xs ih =>
    have hnote : (note push w x).found = insert x w.found := by
      unfold note
      split_ifs with h
      · rw [Finset.insert_eq_of_mem h]
      · rfl
    change (noteAll push (note push w x) xs).found = _
    rw [ih, hnote, List.toFinset_cons, Finset.insert_union, Finset.union_insert]

include hpush

theorem mem_todo_noteAll {w : Worklist α} {xs : List α} {y : α} :
    y ∈ (noteAll push w xs).todo ↔ y ∈ w.todo ∨ (y ∈ xs ∧ y ∉ w.found) := by
  induction xs generalizing w with
  | nil => simp [noteAll]
  | cons x xs ih =>
    change y ∈ (noteAll push (note push w x) xs).todo ↔ _
    rw [ih]
    unfold note
    split_ifs with h
    · by_cases hy : y = x
      · subst hy
        simp [h]
      · simp [hy]
    · rw [(hpush x w.todo).mem_iff]
      by_cases hy : y = x
      · subst hy
        simp [h]
      · simp [hy]

/-- Each element found joins the list. -/
theorem length_todo_noteAll (w : Worklist α) (xs : List α) :
    (noteAll push w xs).todo.length + w.found.card =
      w.todo.length + (noteAll push w xs).found.card := by
  induction xs generalizing w with
  | nil => rfl
  | cons x xs ih =>
    have hstep : (note push w x).todo.length + w.found.card =
        w.todo.length + (note push w x).found.card := by
      unfold note
      split_ifs with h
      · rfl
      · rw [(hpush x w.todo).length_eq, Finset.card_insert_of_notMem h, List.length_cons]
        omega
    have := ih (note push w x)
    change (noteAll push (note push w x) xs).todo.length + w.found.card =
      w.todo.length + (noteAll push (note push w x) xs).found.card
    omega

end Note

/-! ## The loop -/

/-- `y` is a successor of `x`. -/
def Next (next : α → List α) (x y : α) : Prop := y ∈ next x

/-- **The invariant of the loop**: nothing is found that no root reaches, and what has left the list
has all its successors found. -/
structure Inv (next : α → List α) (roots : Set α) (w : Worklist α) : Prop where
  todo : ∀ x ∈ w.todo, x ∈ roots ∨ x ∈ w.found
  sound : ∀ x ∈ w.found, ∃ r ∈ roots, TransGen (Next next) r x
  closed : ∀ x, x ∈ roots ∨ x ∈ w.found → x ∈ w.todo ∨ ∀ y ∈ next x, y ∈ w.found

section Drain

variable {push next} {roots : Set α}

omit [DecidableEq α] in
/-- A successor of a root, or of something found, is reached from a root. -/
theorem Inv.reached {w : Worklist α} (h : Inv next roots w) {x y : α}
    (hx : x ∈ roots ∨ x ∈ w.found) (hy : y ∈ next x) : ∃ r ∈ roots, TransGen (Next next) r y := by
  rcases hx with hx | hx
  · exact ⟨x, hx, .single hy⟩
  · obtain ⟨r, hr, hrx⟩ := h.sound x hx
    exact ⟨r, hr, hrx.tail hy⟩

omit [DecidableEq α] in
/-- With nothing left on the list, everything the roots reach is found. -/
theorem Inv.eq_of_nil {found : Finset α} (h : Inv next roots ⟨found, []⟩) (x : α) :
    x ∈ found ↔ ∃ r ∈ roots, TransGen (Next next) r x := by
  refine ⟨h.sound x, ?_⟩
  rintro ⟨r, hr, hrx⟩
  have hstep {a b : α} (ha : a ∈ roots ∨ a ∈ found) (hab : b ∈ next a) : b ∈ found :=
    (h.closed a ha).elim (fun hnil => by cases hnil) fun hsucc => hsucc b hab
  induction hrx with
  | single hrx => exact hstep (.inl hr) hrx
  | tail _ hbc ih => exact hstep (.inr ih) hbc

variable (hpush : ∀ x todo, (push x todo).Perm (x :: todo))
include hpush

/-- One turn of the loop. -/
theorem Inv.step {found : Finset α} {x : α} {todo : List α}
    (h : Inv next roots ⟨found, x :: todo⟩) :
    Inv next roots (noteAll push ⟨found, todo⟩ (next x)) := by
  have hx := h.todo x List.mem_cons_self
  have hfound {y : α} : y ∈ (noteAll push ⟨found, todo⟩ (next x)).found ↔
      y ∈ found ∨ y ∈ next x := by
    rw [found_noteAll, Finset.mem_union, List.mem_toFinset]
  constructor
  · intro y hy
    rcases (mem_todo_noteAll hpush).mp hy with hy | hy
    · exact (h.todo y (List.mem_cons_of_mem x hy)).imp_right fun hf => hfound.mpr (.inl hf)
    · exact .inr (hfound.mpr (.inr hy.1))
  · intro y hy
    rcases hfound.mp hy with hy | hy
    · exact h.sound y hy
    · exact h.reached hx hy
  · intro y hy
    by_cases hyx : y = x
    · subst hyx
      exact .inr fun z hz => hfound.mpr (.inr hz)
    by_cases hold : y ∈ roots ∨ y ∈ found
    · rcases h.closed y hold with htodo | hall
      · have htodo := (List.mem_cons.mp htodo).resolve_left hyx
        exact .inl ((mem_todo_noteAll hpush).mpr (.inl htodo))
      · exact .inr fun z hz => hfound.mpr (.inl (hall z hz))
    · -- found in this turn, so it has just joined the list
      rw [not_or] at hold
      have hnew := (hfound.mp (hy.resolve_left hold.1)).resolve_left hold.2
      exact .inl ((mem_todo_noteAll hpush).mpr (.inr ⟨hnew, hold.2⟩))

/-- **The loop returns what the roots reach.** -/
theorem Inv.drain {fuel : Nat} {w : Worklist α} (h : Inv next roots w) {all : Finset α}
    (hall : ∀ x, ∀ y ∈ next x, y ∈ all) (hsub : w.found ⊆ all)
    (hfuel : w.todo.length + (all.card - w.found.card) ≤ fuel) :
    ∃ out, drain push next fuel w = some out ∧
      ∀ x, x ∈ out ↔ ∃ r ∈ roots, TransGen (Next next) r x := by
  induction fuel generalizing w with
  | zero =>
    obtain ⟨found, todo⟩ := w
    cases todo with
    | nil => exact ⟨found, by simp [Worklist.drain], h.eq_of_nil⟩
    | cons x todo =>
      change (x :: todo).length + _ ≤ 0 at hfuel
      simp at hfuel
  | succ fuel ih =>
    obtain ⟨found, todo⟩ := w
    cases todo with
    | nil => exact ⟨found, by simp [Worklist.drain], h.eq_of_nil⟩
    | cons x todo =>
      have hsub' : (noteAll push ⟨found, todo⟩ (next x)).found ⊆ all := by
        rw [found_noteAll]
        refine Finset.union_subset hsub fun y hy => hall x y ?_
        rwa [List.mem_toFinset] at hy
      refine ih (h.step hpush) hsub' ?_
      have hlen := length_todo_noteAll hpush ⟨found, todo⟩ (next x)
      have hcard := Finset.card_le_card hsub'
      have hgrow : found.card ≤ (noteAll push ⟨found, todo⟩ (next x)).found.card := by
        rw [found_noteAll]
        exact Finset.card_le_card Finset.subset_union_left
      change (x :: todo).length + (all.card - found.card) ≤ fuel + 1 at hfuel
      rw [List.length_cons] at hfuel
      dsimp only at hlen
      omega

end Drain

section Results

variable {next} {all : Finset α} (hall : ∀ x, ∀ y ∈ next x, y ∈ all)
include hall

/-- **A search from a stack of roots.** -/
theorem search_eq {fuel : Nat} {roots : List α} (hfuel : roots.length + all.card ≤ fuel) :
    ∃ out, search next fuel roots = some out ∧
      ∀ x, x ∈ out ↔ ∃ r ∈ roots, TransGen (Next next) r x := by
  have hinv : Inv next {r | r ∈ roots} ⟨∅, roots⟩ := by
    refine ⟨fun x hx => .inl hx, fun x hx => ?_, fun x hx => .inl ?_⟩
    · cases hx
    · exact hx.resolve_right (Finset.notMem_empty x)
  exact hinv.drain (fun _ _ => .refl _) hall (Finset.empty_subset all) (by simpa using hfuel)

/-- **A recursive query.** Its first part gives the successors of some roots. -/
theorem recursiveUnion_eq {fuel : Nat} (hfuel : all.card ≤ fuel) {first : List α} (roots : Set α)
    (hfirst : ∀ y, y ∈ first ↔ ∃ r ∈ roots, y ∈ next r) :
    ∃ out, recursiveUnion next fuel first = some out ∧
      ∀ x, x ∈ out ↔ ∃ r ∈ roots, TransGen (Next next) r x := by
  have hpush (x : α) (todo : List α) : (todo ++ [x]).Perm (x :: todo) :=
    List.perm_append_singleton x todo
  unfold recursiveUnion
  generalize hw : noteAll (fun x todo => todo ++ [x]) (⟨∅, []⟩ : Worklist α) first = w
  have hfound : w.found = first.toFinset := by
    rw [← hw, found_noteAll, Finset.empty_union]
  have hmem (y : α) : y ∈ w.found ↔ ∃ r ∈ roots, y ∈ next r := by
    rw [hfound, List.mem_toFinset, hfirst]
  have htodo (y : α) : y ∈ w.todo ↔ y ∈ w.found := by
    rw [← hw, mem_todo_noteAll hpush, found_noteAll]
    simp
  have hinv : Inv next roots w := by
    constructor
    · exact fun x hx => .inr ((htodo x).mp hx)
    · intro x hx
      obtain ⟨r, hr, hrx⟩ := (hmem x).mp hx
      exact ⟨r, hr, .single hrx⟩
    · rintro x (hx | hx)
      · exact .inr fun y hy => (hmem y).mpr ⟨x, hx, hy⟩
      · exact .inl ((htodo x).mpr hx)
  have hsub : w.found ⊆ all := by
    intro y hy
    obtain ⟨r, _, hry⟩ := (hmem y).mp hy
    exact hall r y hry
  refine hinv.drain hpush hall hsub ?_
  have hlen := length_todo_noteAll hpush (⟨∅, []⟩ : Worklist α) first
  have hcard := Finset.card_le_card hsub
  rw [hw] at hlen
  simp only [Finset.card_empty, List.length_nil] at hlen
  omega

end Results

end Worklist

end NexusFlow.Lib
