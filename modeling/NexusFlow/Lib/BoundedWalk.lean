import Mathlib.Data.List.Flatten
import Mathlib.Data.List.Nodup
import Mathlib.Data.List.Perm.Subperm
import Mathlib.Logic.Relation

/-!
# Walks of bounded depth

A recursive query that follows the edges of a graph and keeps every row it meets does not end on a
cycle unless it counts its depth. `walk` is the query with the usual bound: a row is extended while
its depth is at most the number of edges.

**Main result**: `mem_walk_iff`, the bound loses nothing. Where one node leads to another, some trail
does so without taking an edge twice (`Trail.nodup`), and such a trail is no longer than the table.
-/

namespace NexusFlow.Lib.BoundedWalk

open Relation

variable {α : Type*} [DecidableEq α]

/-- The rows `(start, node)` at each depth, the edges themselves first. -/
def level (edges : List (α × α)) : Nat → List (α × α)
  | 0 => edges
  | k + 1 => (level edges k).flatMap fun w =>
      (edges.filter fun e => e.1 = w.2).map fun e => (w.1, e.2)

/-- The rows at every depth, as far as the bound lets them be extended. -/
def walk (edges : List (α × α)) : List (α × α) :=
  (List.range (edges.length + 1)).flatMap (level edges)

/-- There is an edge from `a` to `b`. -/
def Edge (edges : List (α × α)) (a b : α) : Prop := (a, b) ∈ edges

/-- The edges lead from `a` to `b`, one after the other. -/
def Trail (edges : List (α × α)) : List (α × α) → α → α → Prop
  | [], a, b => a = b
  | e :: es, a, b => e ∈ edges ∧ e.1 = a ∧ Trail edges es e.2 b

section Trails

variable {edges : List (α × α)}

omit [DecidableEq α] in
theorem trail_append {es fs : List (α × α)} {a c : α} :
    Trail edges (es ++ fs) a c ↔ ∃ b, Trail edges es a b ∧ Trail edges fs b c := by
  induction es generalizing a with
  | nil => simp [Trail]
  | cons e es ih =>
    simp only [List.cons_append, Trail, ih]
    constructor
    · rintro ⟨hmem, ha, b, hes, hfs⟩
      exact ⟨b, ⟨hmem, ha, hes⟩, hfs⟩
    · rintro ⟨b, ⟨hmem, ha, hes⟩, hfs⟩
      exact ⟨hmem, ha, b, hes, hfs⟩

omit [DecidableEq α] in
theorem Trail.mem {es : List (α × α)} {a b : α} (h : Trail edges es a b) :
    ∀ e ∈ es, e ∈ edges := by
  induction es generalizing a with
  | nil => simp
  | cons e es ih =>
    intro f hf
    rcases List.mem_cons.mp hf with rfl | hf
    · exact h.1
    · exact ih h.2.2 f hf

omit [DecidableEq α] in
theorem Trail.transGen {es : List (α × α)} {a b : α} (h : Trail edges es a b) (hne : es ≠ []) :
    TransGen (Edge edges) a b := by
  induction es generalizing a with
  | nil => exact absurd rfl hne
  | cons e es ih =>
    obtain ⟨hmem, rfl, hes⟩ := h
    cases es with
    | nil =>
      cases hes
      exact .single hmem
    | cons f es => exact .head hmem (ih hes (by simp))

omit [DecidableEq α] in
theorem exists_trail {a b : α} (h : TransGen (Edge edges) a b) :
    ∃ e es, Trail edges (e :: es) a b := by
  induction h using TransGen.head_induction_on with
  | single hab => exact ⟨(_, b), [], hab, rfl, rfl⟩
  | head hac _ ih =>
    obtain ⟨e, es, hes⟩ := ih
    exact ⟨_, e :: es, hac, rfl, hes⟩

/-- **Where there is a trail, there is one between the same ends that takes no edge twice.** -/
theorem Trail.nodup {e : α × α} {es : List (α × α)} {a b : α} (h : Trail edges (e :: es) a b) :
    ∃ fs, (e :: fs).Nodup ∧ Trail edges (e :: fs) a b := by
  induction es generalizing a e with
  | nil => exact ⟨[], List.nodup_singleton e, h⟩
  | cons f es ih =>
    obtain ⟨hmem, ha, hes⟩ := h
    obtain ⟨fs, hnd, hfs⟩ := ih hes
    by_cases he : e ∈ f :: fs
    · -- the way from the first `e` to the next one is left out
      obtain ⟨before, after, hsplit⟩ := List.append_of_mem he
      rw [hsplit] at hnd hfs
      obtain ⟨c, _, hafter⟩ := trail_append.mp hfs
      exact ⟨after, hnd.of_append_right, hmem, ha, hafter.2.2⟩
    · exact ⟨f :: fs, List.nodup_cons.mpr ⟨he, hnd⟩, hmem, ha, hfs⟩

/-- The rows at a depth are the ends of the trails of that many edges. -/
theorem mem_level_iff {k : Nat} {a b : α} :
    (a, b) ∈ level edges k ↔ ∃ es, es.length = k + 1 ∧ Trail edges es a b := by
  induction k generalizing b with
  | zero =>
    constructor
    · exact fun h => ⟨[(a, b)], rfl, h, rfl, rfl⟩
    · rintro ⟨es, hlen, h⟩
      obtain ⟨e, rfl⟩ := List.length_eq_one_iff.mp hlen
      obtain ⟨hmem, rfl, rfl⟩ := h
      exact hmem
  | succ k ih =>
    simp only [level, List.mem_flatMap, List.mem_map, List.mem_filter, decide_eq_true_eq]
    constructor
    · rintro ⟨⟨c, d⟩, hw, e, ⟨he, hed⟩, heq⟩
      cases heq
      obtain ⟨es, hlen, hes⟩ := ih.mp hw
      exact ⟨es ++ [e], by simp [hlen], trail_append.mpr ⟨d, hes, he, hed, rfl⟩⟩
    · rintro ⟨es, hlen, hes⟩
      have hne : es ≠ [] := by
        rintro rfl
        simp at hlen
      rw [← List.dropLast_append_getLast hne] at hes
      obtain ⟨d, hinit, he, hed, rfl⟩ := trail_append.mp hes
      refine ⟨(a, d), ih.mpr ⟨es.dropLast, by simp [hlen], hinit⟩, _, ⟨he, hed⟩, rfl⟩

/-- **The bound loses nothing.** -/
theorem mem_walk_iff {a b : α} : (a, b) ∈ walk edges ↔ TransGen (Edge edges) a b := by
  simp only [walk, List.mem_flatMap, List.mem_range, mem_level_iff]
  constructor
  · rintro ⟨k, _, es, hlen, hes⟩
    refine hes.transGen ?_
    rintro rfl
    simp at hlen
  · intro h
    obtain ⟨e, es, hes⟩ := exists_trail h
    obtain ⟨fs, hnd, hfs⟩ := hes.nodup
    have hle : (e :: fs).length ≤ edges.length := (hnd.subperm hfs.mem).length_le
    refine ⟨fs.length, ?_, e :: fs, rfl, hfs⟩
    rw [List.length_cons] at hle
    omega

end Trails

end NexusFlow.Lib.BoundedWalk
