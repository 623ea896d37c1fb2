import Mathlib.Algebra.BigOperators.Group.Finset.Basic
import Mathlib.Data.Finset.Dedup
import Mathlib.Data.List.Nodup
import Mathlib.Logic.Relation
import Mathlib.Tactic.SplitIfs

/-!
# Visiting a graph

The loop that takes an element off a list, passes it by if it has been visited, and otherwise notes
it and puts its successors on the list. `push` is where they join: behind the others for a queue, in
front for a stack.

**Main result**: `visit_eq`. With a turn of fuel for each element on the list and each edge, the loop
returns what the starts reach, each element once, whatever the order.
-/

namespace NexusFlow.Lib

open Relation

variable {α : Type*} [DecidableEq α]

/-- Visit what is on the list; `out` has been visited. `none` when the fuel does not last. -/
def visit (push : List α → List α → List α) (next : α → List α) :
    Nat → List α → List α → Option (List α)
  | _, out, [] => some out
  | 0, _, _ :: _ => none
  | fuel + 1, out, x :: todo =>
    if x ∈ out then visit push next fuel out todo
    else visit push next fuel (out ++ [x]) (push todo (next x))

namespace Visit

/-- `y` is a successor of `x`. -/
def Next (next : α → List α) (x y : α) : Prop := y ∈ next x

/-- **The invariant of the loop**: what it holds is reached from a start, every start has been visited
or is on the list, and so is every successor of what has been visited. -/
structure Inv (next : α → List α) (roots : Set α) (out todo : List α) : Prop where
  nodup : out.Nodup
  reached : ∀ x, x ∈ out ∨ x ∈ todo → ∃ r ∈ roots, ReflTransGen (Next next) r x
  starts : ∀ r ∈ roots, r ∈ out ∨ r ∈ todo
  closed : ∀ x ∈ out, ∀ y ∈ next x, y ∈ out ∨ y ∈ todo

/-- How many edges leave what has not been visited. -/
def ahead (next : α → List α) (support : Finset α) (out : List α) : Nat :=
  ∑ x ∈ support.filter (· ∉ out), (next x).length

variable {push : List α → List α → List α} {next : α → List α} {roots : Set α}
  {support : Finset α} {out todo : List α} {x : α}

omit [DecidableEq α] in
theorem Inv.start (next : α → List α) (todo : List α) : Inv next {r | r ∈ todo} [] todo where
  nodup := List.nodup_nil
  reached x hx := ⟨x, hx.resolve_left (by simp), .refl⟩
  starts _ hr := .inr hr
  closed x hx := by cases hx

omit [DecidableEq α] in
/-- An element visited before is passed by. -/
theorem Inv.skip (h : Inv next roots out (x :: todo)) (hx : x ∈ out) :
    Inv next roots out todo := by
  have hkeep {y : α} (hy : y ∈ out ∨ y ∈ x :: todo) : y ∈ out ∨ y ∈ todo := by
    rcases hy with hy | hy
    · exact .inl hy
    · rcases List.mem_cons.mp hy with rfl | hy
      · exact .inl hx
      · exact .inr hy
  exact ⟨h.nodup, fun y hy => h.reached y (hy.imp_right (List.mem_cons_of_mem x)),
    fun r hr => hkeep (h.starts r hr), fun y hy z hz => hkeep (h.closed y hy z hz)⟩

omit [DecidableEq α] in
/-- An element is visited, and its successors join the list. -/
theorem Inv.expand (hpush : ∀ todo new, (push todo new).Perm (new ++ todo))
    (h : Inv next roots out (x :: todo)) (hx : x ∉ out) :
    Inv next roots (out ++ [x]) (push todo (next x)) := by
  have hkeep {y : α} (hy : y ∈ out ∨ y ∈ x :: todo) :
      y ∈ out ++ [x] ∨ y ∈ push todo (next x) := by
    rw [(hpush todo (next x)).mem_iff, List.mem_append, List.mem_append, List.mem_singleton]
    rcases hy with hy | hy
    · exact .inl (.inl hy)
    · exact (List.mem_cons.mp hy).imp .inr .inr
  constructor
  · rw [List.nodup_append]
    refine ⟨h.nodup, List.nodup_singleton x, ?_⟩
    rintro y hy z hz rfl
    rw [List.mem_singleton] at hz
    exact hx (hz ▸ hy)
  · intro y hy
    rw [(hpush todo (next x)).mem_iff, List.mem_append, List.mem_append, List.mem_singleton] at hy
    rcases hy with (hy | rfl) | hy | hy
    · exact h.reached y (.inl hy)
    · exact h.reached y (.inr List.mem_cons_self)
    · obtain ⟨r, hr, hrx⟩ := h.reached x (.inr List.mem_cons_self)
      exact ⟨r, hr, hrx.tail hy⟩
    · exact h.reached y (.inr (List.mem_cons_of_mem x hy))
  · exact fun r hr => hkeep (h.starts r hr)
  · intro y hy z hz
    rcases List.mem_append.mp hy with hy | hy
    · exact hkeep (h.closed y hy z hz)
    · rw [List.mem_singleton] at hy
      subst hy
      exact .inr ((hpush todo (next y)).mem_iff.mpr (List.mem_append_left todo hz))

omit [DecidableEq α] in
/-- With nothing left on the list, exactly what the starts reach has been visited. -/
theorem Inv.mem_iff (h : Inv next roots out []) (x : α) :
    x ∈ out ↔ ∃ r ∈ roots, ReflTransGen (Next next) r x := by
  constructor
  · exact fun hx => h.reached x (.inl hx)
  · rintro ⟨r, hr, hrx⟩
    induction hrx with
    | refl => exact (h.starts r hr).resolve_right (by simp)
    | tail _ hbc ih => exact (h.closed _ ih _ hbc).resolve_right (by simp)

/-- Visiting an element takes its edges off what is ahead. -/
theorem ahead_concat (hsupport : ∀ x ∉ support, next x = []) (hx : x ∉ out) :
    ahead next support (out ++ [x]) + (next x).length = ahead next support out := by
  unfold ahead
  by_cases hmem : x ∈ support
  · have hsplit : support.filter (· ∉ out) = insert x (support.filter (· ∉ out ++ [x])) := by
      ext y
      simp only [Finset.mem_insert, Finset.mem_filter, List.mem_append, List.mem_singleton]
      by_cases hy : y = x
      · subst hy
        simp [hmem, hx]
      · simp [hy]
    rw [hsplit, Finset.sum_insert (by simp), add_comm]
  · have hsame : support.filter (· ∉ out ++ [x]) = support.filter (· ∉ out) := by
      refine Finset.filter_congr fun y hy => ?_
      have hne : y ≠ x := fun h => hmem (h ▸ hy)
      simp [hne]
    rw [hsame, hsupport x hmem, List.length_nil, add_zero]

/-- **The loop returns what the starts reach.** Every turn takes one off the list, or follows the
edges of an element for the first time. -/
theorem Inv.visit (hpush : ∀ todo new, (push todo new).Perm (new ++ todo))
    (hsupport : ∀ x ∉ support, next x = []) (h : Inv next roots out todo) {fuel : Nat}
    (hfuel : todo.length + ahead next support out ≤ fuel) :
    ∃ all, visit push next fuel out todo = some all ∧ all.Nodup ∧
      ∀ x, x ∈ all ↔ ∃ r ∈ roots, ReflTransGen (Next next) r x := by
  induction fuel generalizing out todo with
  | zero =>
    cases todo with
    | nil => exact ⟨out, rfl, h.nodup, h.mem_iff⟩
    | cons x todo =>
      rw [List.length_cons] at hfuel
      omega
  | succ fuel ih =>
    cases todo with
    | nil => exact ⟨out, rfl, h.nodup, h.mem_iff⟩
    | cons x todo =>
      rw [List.length_cons] at hfuel
      rw [Lib.visit]
      split_ifs with hx
      · exact ih (h.skip hx) (by omega)
      · refine ih (h.expand hpush hx) ?_
        have hahead := ahead_concat hsupport hx
        rw [(hpush todo (next x)).length_eq, List.length_append]
        omega

end Visit

section Results

variable {push : List α → List α → List α} {next : α → List α}

/-- More fuel changes nothing once the loop returns. -/
theorem visit_mono {fuel fuel' : Nat} {out todo all : List α}
    (h : visit push next fuel out todo = some all) (hle : fuel ≤ fuel') :
    visit push next fuel' out todo = some all := by
  induction fuel generalizing fuel' out todo with
  | zero =>
    cases todo with
    | nil =>
      cases fuel' <;> exact h
    | cons x todo => cases h
  | succ fuel ih =>
    obtain ⟨more, rfl⟩ : ∃ more, fuel' = more + 1 := ⟨fuel' - 1, by omega⟩
    cases todo with
    | nil => exact h
    | cons x todo =>
      rw [visit] at h ⊢
      split_ifs at h ⊢ with hx
      · exact ih h (by omega)
      · exact ih h (by omega)

/-- **Visiting from several starts.** -/
theorem visit_eq (hpush : ∀ todo new, (push todo new).Perm (new ++ todo)) {support : Finset α}
    (hsupport : ∀ x ∉ support, next x = []) (roots : List α) :
    ∃ all : List α, (∀ fuel, roots.length + ∑ x ∈ support, (next x).length ≤ fuel →
        visit push next fuel [] roots = some all) ∧ all.Nodup ∧
      ∀ x, x ∈ all ↔ ∃ r ∈ roots, ReflTransGen (Visit.Next next) r x := by
  have hahead : roots.length + Visit.ahead next support [] ≤
      roots.length + ∑ x ∈ support, (next x).length := by simp [Visit.ahead]
  obtain ⟨all, hall, hnodup, hmem⟩ :=
    (Visit.Inv.start next roots).visit hpush hsupport hahead
  exact ⟨all, fun _ hle => visit_mono hall hle, hnodup, hmem⟩

end Results

/-! ## Lists of edges -/

/-- The second ends of the edges that start at `x`, in their order. -/
def kids (edges : List (α × α)) (x : α) : List α := (edges.filter fun e => e.1 = x).map Prod.snd

theorem mem_kids {edges : List (α × α)} {x y : α} : y ∈ kids edges x ↔ (x, y) ∈ edges := by
  unfold kids
  rw [List.mem_map]
  constructor
  · rintro ⟨⟨a, b⟩, he, rfl⟩
    rw [List.mem_filter, decide_eq_true_eq] at he
    obtain ⟨he, rfl⟩ := he
    exact he
  · intro he
    exact ⟨(x, y), by simp [he], rfl⟩

theorem kids_eq_nil {edges : List (α × α)} {x : α} (h : x ∉ (edges.map Prod.fst).toFinset) :
    kids edges x = [] := by
  rw [List.eq_nil_iff_forall_not_mem]
  intro y hy
  refine h (List.mem_toFinset.mpr ?_)
  exact List.mem_map_of_mem (f := Prod.fst) (mem_kids.mp hy)

/-- Each edge leaves one element. -/
theorem sum_length_kids (edges : List (α × α)) :
    ∑ x ∈ (edges.map Prod.fst).toFinset, (kids edges x).length = edges.length := by
  have hcount (x : α) : (kids edges x).length = (edges.map Prod.fst).count x := by
    unfold kids
    rw [List.length_map, List.count, List.countP_map, List.countP_eq_length_filter]
    rfl
  calc ∑ x ∈ (edges.map Prod.fst).toFinset, (kids edges x).length
      = ∑ x ∈ (edges.map Prod.fst).toFinset, (edges.map Prod.fst).count x :=
        Finset.sum_congr rfl fun x _ => hcount x
    _ = (edges.map Prod.fst).length := List.sum_toFinset_count_eq_length _
    _ = edges.length := List.length_map _

end NexusFlow.Lib
