import Mathlib.Algebra.BigOperators.Fin
import Mathlib.Data.Finset.Basic
import Mathlib.Data.Fintype.Basic
import Mathlib.Data.List.FinRange
import Mathlib.Logic.Relation

/-!
# The nodes on a cycle

Tarjan's strongly connected components with the recursion written out as a loop over frames, as a
program writes it that must not overflow its stack. A graph is a number of nodes `n` and the list of
each node's successors; `cyclicNodes` collects the components of more than one node and the nodes
with an edge to themselves.

* The state is the arrays of the program and its two stacks. `popComponent` is partial, since the
  loop pops until it meets the node it closes and a program asserts that it does.
* `State.work` counts the turns left, so `loop` runs with as much fuel as it can need.
* `Inv` is the invariant. Its two halves are the usual ones: a node on the stack is reached from
  every open node below it (`reach`), and an open node's low number covers each edge back into the
  stack that the nodes above it have walked (`low_covers`).

Here the walk itself and the turns that reach a node or look at one. `TarjanRun.lean` has the turns
that close a node, and the result: the walk returns, and its nodes are those on a cycle.
-/

namespace NexusFlow.Lib.Tarjan

open Relation

variable {n : Nat}

/-! ## The algorithm -/

/-- The variables of the walk. A node that has no index has not been reached. -/
structure State (n : Nat) where
  index : Fin n → Option Nat
  low : Fin n → Nat
  onStack : Fin n → Bool
  /-- The nodes whose component is not settled, the last one first. -/
  stack : List (Fin n)
  next : Nat
  /-- The open nodes and how many of their successors each has walked, the last one first. -/
  frames : List (Fin n × Nat)
  cyclic : Finset (Fin n)

/-- Nothing reached. -/
def State.init (n : Nat) : State n := ⟨fun _ => none, fun _ => 0, fun _ => false, [], 0, [], ∅⟩

/-- Reach a node: number it, put it on the stack and open it. -/
def State.enter (s : State n) (w : Fin n) : State n where
  index := Function.update s.index w (some s.next)
  low := Function.update s.low w s.next
  onStack := Function.update s.onStack w true
  stack := w :: s.stack
  next := s.next + 1
  frames := (w, 0) :: s.frames
  cyclic := s.cyclic

/-- Pop the stack down to `v`: the popped nodes and the rest. `none` when `v` is not on it. -/
def popComponent (v : Fin n) : List (Fin n) → Option (List (Fin n) × List (Fin n))
  | [] => none
  | w :: stack =>
    if w = v then some ([w], stack)
    else (popComponent v stack).map fun p => (w :: p.1, p.2)

section Walk

variable (succ : Fin n → List (Fin n))

/-- The open node `v` looks at its next successor `w`. -/
def State.look (s : State n) (v w : Fin n) : State n :=
  match s.index w with
  | none => s.enter w
  | some i =>
    if s.onStack w then { s with low := Function.update s.low v (min (s.low v) i) } else s

/-- Hand the low number of a node that closes to the node below it. -/
def State.handDown (s : State n) (v : Fin n) : State n :=
  match s.frames with
  | [] => s
  | (parent, _) :: _ =>
    { s with low := Function.update s.low parent (min (s.low parent) (s.low v)) }

/-- Settle the component of `v` when `v` is its first node. -/
def State.settle (s : State n) (v : Fin n) : Option (State n) :=
  if s.index v = some (s.low v) then
    (popComponent v s.stack).map fun p =>
      { s with
        stack := p.2
        onStack := fun w => s.onStack w && !p.1.contains w
        cyclic := if 1 < p.1.length ∨ v ∈ succ v then s.cyclic ∪ p.1.toFinset else s.cyclic }
  else some s

/-- One turn of the loop. -/
def State.step (s : State n) : Option (State n) :=
  match s.frames with
  | [] => some s
  | (v, walked) :: rest =>
    match (succ v)[walked]? with
    | some w => some (State.look { s with frames := (v, walked + 1) :: rest } v w)
    | none => ({ s with frames := rest } : State n).handDown v |>.settle succ v

/-- The turns left: one for each successor not walked and one for each node not closed. -/
def State.work (s : State n) : Nat :=
  (∑ v, if s.index v = none then (succ v).length + 1 else 0) +
    (s.frames.map fun f => (succ f.1).length - f.2 + 1).sum

/-- The loop, until no node is open. -/
def State.loop : Nat → State n → Option (State n)
  | 0, s => some s
  | fuel + 1, s =>
    match s.frames with
    | [] => some s
    | _ :: _ => (s.step succ).bind (State.loop fuel)

/-- Walk from a root, unless it has been reached. -/
def State.walk (s : State n) (root : Fin n) : Option (State n) :=
  if s.index root = none then State.loop succ ((s.enter root).work succ) (s.enter root) else some s

/-- Walk from every node in turn: the nodes on a cycle. -/
def cyclicNodes : Option (Finset (Fin n)) :=
  ((List.finRange n).foldlM (State.walk succ) (State.init n)).map State.cyclic

end Walk

/-! ## The graph -/

section Graph

variable (succ : Fin n → List (Fin n))

/-- `w` is a successor of `v`. -/
def Edge (v w : Fin n) : Prop := w ∈ succ v

/-- `w` can be reached from `v`. -/
abbrev Reach : Fin n → Fin n → Prop := ReflTransGen (Edge succ)

/-- `v` lies on a cycle. -/
def OnCycle (v : Fin n) : Prop := TransGen (Edge succ) v v

end Graph

/-! ## The invariant -/

/-- The number of a node that has one. -/
def State.idx (s : State n) (v : Fin n) : Nat := (s.index v).getD 0

/-- The open nodes. -/
def State.opened (s : State n) : List (Fin n) := s.frames.map Prod.fst

/-- The node was reached and its component is settled. -/
def State.Done (s : State n) (v : Fin n) : Prop := (s.index v).isSome = true ∧ v ∉ s.stack

/-- The successors of `u` that have been walked: all of them, unless `u` is open. -/
def walkedIn (succ : Fin n → List (Fin n)) (frames : List (Fin n × Nat)) (u : Fin n) :
    List (Fin n) :=
  match frames.lookup u with
  | some k => (succ u).take k
  | none => succ u

/-- `g` is the last node opened at or before `u` was reached. -/
def State.Owns (s : State n) (g u : Fin n) : Prop :=
  g ∈ s.opened ∧ s.idx g ≤ s.idx u ∧ ∀ f ∈ s.opened, s.idx f ≤ s.idx u → s.idx f ≤ s.idx g

/-- **The invariant of the walk.** -/
structure Inv (succ : Fin n → List (Fin n)) (s : State n) : Prop where
  index_lt : ∀ v i, s.index v = some i → i < s.next
  reached : ∀ v ∈ s.stack, (s.index v).isSome = true
  sorted : s.stack.Pairwise fun a b => s.idx b < s.idx a
  on : ∀ v, s.onStack v = true ↔ v ∈ s.stack
  opened : s.opened.Sublist s.stack
  walked : ∀ u, (s.index u).isSome = true → ∀ w ∈ walkedIn succ s.frames u,
    (s.index w).isSome = true
  done : ∀ v, s.Done v → ∀ w ∈ succ v, w ∉ s.stack
  owned : ∀ u ∈ s.stack, ∃ f ∈ s.opened, s.idx f ≤ s.idx u
  reach : ∀ f ∈ s.opened, ∀ u ∈ s.stack, s.idx f ≤ s.idx u → Reach succ f u
  low_le : ∀ f ∈ s.opened, s.low f ≤ s.idx f
  low_reached : ∀ f ∈ s.opened, ∃ x ∈ s.stack, Reach succ f x ∧ s.idx x = s.low f
  low_covers : ∀ g, ∀ u ∈ s.stack, s.Owns g u → ∀ w ∈ walkedIn succ s.frames u, w ∈ s.stack →
    s.low g ≤ s.idx w
  back : ∀ u ∈ s.stack, u ∉ s.opened → ∃ x ∈ s.stack, s.idx x < s.idx u ∧ Reach succ u x
  cyclic : ∀ v, v ∈ s.cyclic ↔ s.Done v ∧ OnCycle succ v

section Facts

variable {succ : Fin n → List (Fin n)} {s : State n}

theorem index_eq_of_isSome {v : Fin n} (h : (s.index v).isSome = true) :
    s.index v = some (s.idx v) := by
  obtain ⟨i, hi⟩ := Option.isSome_iff_exists.mp h
  simp [State.idx, hi]

theorem Inv.idx_lt (hs : Inv succ s) {v : Fin n} (h : v ∈ s.stack) : s.idx v < s.next :=
  hs.index_lt v _ (index_eq_of_isSome (hs.reached v h))

/-- Numbers tell the nodes of the stack apart. -/
theorem Inv.idx_injective (hs : Inv succ s) {a b : Fin n} (ha : a ∈ s.stack) (hb : b ∈ s.stack)
    (h : s.idx a = s.idx b) : a = b := by
  have hnd : (s.stack.map s.idx).Nodup := by
    rw [List.Nodup, List.pairwise_map]
    exact hs.sorted.imp fun h => h.ne'
  exact List.inj_on_of_nodup_map hnd ha hb h

theorem Inv.mem_stack (hs : Inv succ s) {f : Fin n} (h : f ∈ s.opened) : f ∈ s.stack :=
  hs.opened.subset h

theorem walkedIn_of_notMem {frames : List (Fin n × Nat)} {u : Fin n}
    (h : u ∉ frames.map Prod.fst) : walkedIn succ frames u = succ u := by
  unfold walkedIn
  rw [List.lookup_eq_none_iff.mpr]
  intro p hp
  have hne : u ≠ p.1 := by
    rintro rfl
    exact h (List.mem_map_of_mem hp)
  simpa using hne

theorem walkedIn_cons_self (v : Fin n) (k : Nat) (rest : List (Fin n × Nat)) :
    walkedIn succ ((v, k) :: rest) v = (succ v).take k := by
  simp [walkedIn]

theorem walkedIn_cons_of_ne {u v : Fin n} (h : u ≠ v) (k : Nat) (rest : List (Fin n × Nat)) :
    walkedIn succ ((v, k) :: rest) u = walkedIn succ rest u := by
  simp [walkedIn, List.lookup_cons, beq_eq_false_iff_ne.mpr h]

/-- A done node only reaches done nodes. -/
theorem Inv.done_reach (hs : Inv succ s) {a b : Fin n} (ha : s.Done a) (h : Reach succ a b) :
    s.Done b := by
  induction h with
  | refl => exact ha
  | @tail b c _ hedge ih =>
    have hb : b ∉ s.opened := fun h => ih.2 (hs.mem_stack h)
    refine ⟨hs.walked b ih.1 c ?_, hs.done b ih c hedge⟩
    rw [walkedIn_of_notMem hb]
    exact hedge

end Facts

/-! ## Reaching a node -/

section Enter

variable {succ : Fin n → List (Fin n)} {s : State n} {w : Fin n}

theorem idx_enter_self (s : State n) (w : Fin n) : (s.enter w).idx w = s.next := by
  simp [State.idx, State.enter]

theorem idx_enter_of_ne {v : Fin n} (h : v ≠ w) : (s.enter w).idx v = s.idx v := by
  simp [State.idx, State.enter, h]

theorem isSome_enter {v : Fin n} :
    ((s.enter w).index v).isSome = true ↔ v = w ∨ (s.index v).isSome = true := by
  by_cases h : v = w
  · simp [State.enter, h]
  · simp [State.enter, h]

theorem low_enter_self (s : State n) (w : Fin n) : (s.enter w).low w = s.next := by
  simp [State.enter]

theorem low_enter_of_ne {v : Fin n} (h : v ≠ w) : (s.enter w).low v = s.low v := by
  simp [State.enter, h]

/-- **Reaching a node keeps the invariant**: the open nodes reach it, and of their successors only
it has been walked since. -/
theorem Inv.enter (hs : Inv succ s) (hw : s.index w = none) {frames : List (Fin n × Nat)}
    (hnodes : frames.map Prod.fst = s.opened)
    (hwalk : ∀ u x, x ∈ walkedIn succ frames u → x = w ∨ x ∈ walkedIn succ s.frames u)
    (hreach : ∀ f ∈ s.opened, Reach succ f w) :
    Inv succ (({ s with frames := frames } : State n).enter w) := by
  have hwstack : w ∉ s.stack := by
    intro h
    have := hs.reached w h
    rw [hw] at this
    cases this
  have hne : ∀ {u}, u ∈ s.stack → u ≠ w := fun hu h => hwstack (h ▸ hu)
  have hneO : ∀ {u}, u ∈ s.opened → u ≠ w := fun hu => hne (hs.mem_stack hu)
  generalize ht : ({ s with frames := frames } : State n) = t
  have hidx : t.idx = s.idx := by rw [← ht]; rfl
  have hidxw : (t.enter w).idx w = s.next := by rw [idx_enter_self, ← ht]
  have hidxs : ∀ {u}, u ≠ w → (t.enter w).idx u = s.idx u := by
    intro u hu
    rw [idx_enter_of_ne hu, hidx]
  have hstack : (t.enter w).stack = w :: s.stack := by rw [← ht]; rfl
  have hopened : (t.enter w).opened = w :: s.opened := by
    rw [← hnodes, ← ht]
    rfl
  have hsome : ∀ {v}, ((t.enter w).index v).isSome = true ↔ v = w ∨ (s.index v).isSome = true := by
    intro v
    rw [isSome_enter, ← ht]
  have hwalked : ∀ u x, x ∈ walkedIn succ (t.enter w).frames u → u ≠ w ∧
      (x = w ∨ x ∈ walkedIn succ s.frames u) := by
    intro u x hx
    have hframes : (t.enter w).frames = (w, 0) :: frames := by rw [← ht]; rfl
    rw [hframes] at hx
    by_cases hu : u = w
    · subst hu
      rw [walkedIn_cons_self, List.take_zero] at hx
      cases hx
    · rw [walkedIn_cons_of_ne hu] at hx
      exact ⟨hu, hwalk u x hx⟩
  exact {
    index_lt := by
      intro v i hv
      have hnext : (t.enter w).next = s.next + 1 := by rw [← ht]; rfl
      rw [hnext]
      by_cases h : v = w
      · subst h
        have hi := index_eq_of_isSome (s := t.enter v) (v := v) (by rw [hv]; rfl)
        rw [hidxw, hv] at hi
        cases hi
        omega
      · have hi : s.index v = some i := by
          rw [← hv, ← ht]
          simp [State.enter, h]
        have := hs.index_lt v i hi
        omega
    reached := by
      intro v hv
      rw [hstack, List.mem_cons] at hv
      exact hsome.mpr (hv.imp_right (hs.reached v))
    sorted := by
      rw [hstack, List.pairwise_cons]
      constructor
      · intro b hb
        rw [hidxw, hidxs (hne hb)]
        exact hs.idx_lt hb
      · refine hs.sorted.imp_of_mem fun ha hb h => ?_
        rw [hidxs (hne ha), hidxs (hne hb)]
        exact h
    on := by
      intro v
      rw [hstack, List.mem_cons, ← hs.on v, ← ht]
      by_cases h : v = w <;> simp [State.enter, h]
    opened := by
      rw [hopened, hstack]
      exact hs.opened.cons_cons w
    walked := by
      intro u hu x hx
      obtain ⟨hne, hx⟩ := hwalked u x hx
      have hus := (hsome.mp hu).resolve_left hne
      exact hsome.mpr (hx.imp_right (hs.walked u hus x))
    done := by
      intro v hv x hx
      have hv2 : v ≠ w ∧ v ∉ s.stack := by
        have := hv.2
        rwa [hstack, List.mem_cons, not_or] at this
      have hvd : s.Done v := ⟨(hsome.mp hv.1).resolve_left hv2.1, hv2.2⟩
      have hxd := hs.done_reach hvd (.single hx)
      rw [hstack, List.mem_cons, not_or]
      refine ⟨?_, hxd.2⟩
      rintro rfl
      have := hxd.1
      rw [hw] at this
      cases this
    owned := by
      intro u hu
      rw [hstack, List.mem_cons] at hu
      rcases hu with rfl | hu
      · exact ⟨u, by rw [hopened]; exact List.mem_cons_self, le_rfl⟩
      · obtain ⟨f, hf, hle⟩ := hs.owned u hu
        refine ⟨f, by rw [hopened]; exact List.mem_cons_of_mem w hf, ?_⟩
        rw [hidxs (hneO hf), hidxs (hne hu)]
        exact hle
    reach := by
      intro f hf u hu hle
      rw [hopened, List.mem_cons] at hf
      rw [hstack, List.mem_cons] at hu
      rcases hu with rfl | hu
      · rcases hf with rfl | hf
        · exact .refl
        · exact hreach f hf
      · rcases hf with rfl | hf
        · rw [hidxw, hidxs (hne hu)] at hle
          have := hs.idx_lt hu
          omega
        · rw [hidxs (hneO hf), hidxs (hne hu)] at hle
          exact hs.reach f hf u hu hle
    low_le := by
      intro f hf
      rw [hopened, List.mem_cons] at hf
      rcases hf with rfl | hf
      · rw [low_enter_self, idx_enter_self]
      · rw [low_enter_of_ne (hneO hf), hidxs (hneO hf), ← ht]
        exact hs.low_le f hf
    low_reached := by
      intro f hf
      rw [hopened, List.mem_cons] at hf
      rcases hf with rfl | hf
      · refine ⟨f, by rw [hstack]; exact List.mem_cons_self, .refl, ?_⟩
        rw [low_enter_self, idx_enter_self]
      · obtain ⟨x, hx, hr, he⟩ := hs.low_reached f hf
        refine ⟨x, by rw [hstack]; exact List.mem_cons_of_mem w hx, hr, ?_⟩
        rw [low_enter_of_ne (hneO hf), hidxs (hne hx), ← ht]
        exact he
    low_covers := by
      rintro g u hu ⟨hg, hle, hmax⟩ x hx hxs
      obtain ⟨huw, hx⟩ := hwalked u x hx
      rw [hstack, List.mem_cons] at hu hxs
      replace hu := hu.resolve_left huw
      rw [hopened, List.mem_cons] at hg
      replace hg : g ∈ s.opened := by
        refine hg.resolve_left fun hgw => ?_
        rw [hgw, hidxw, hidxs huw] at hle
        have := hs.idx_lt hu
        omega
      rw [low_enter_of_ne (hneO hg), show t.low g = s.low g by rw [← ht]]
      have hlow := hs.low_le g hg
      by_cases hxw : x = w
      · subst hxw
        rw [hidxw]
        have := hs.idx_lt (hs.mem_stack hg)
        omega
      · have hxs := hxs.resolve_left hxw
        rw [hidxs hxw]
        rw [hidxs (hneO hg), hidxs huw] at hle
        refine hs.low_covers g u hu ⟨hg, hle, fun f hf hfu => ?_⟩ x (hx.resolve_left hxw) hxs
        have := hmax f (by rw [hopened]; exact List.mem_cons_of_mem w hf)
        rw [hidxs (hneO hf), hidxs huw, hidxs (hneO hg)] at this
        exact this hfu
    back := by
      intro u hu hnot
      rw [hopened, List.mem_cons, not_or] at hnot
      rw [hstack, List.mem_cons] at hu
      obtain ⟨x, hx, hlt, hr⟩ := hs.back u (hu.resolve_left hnot.1) hnot.2
      refine ⟨x, by rw [hstack]; exact List.mem_cons_of_mem w hx, ?_, hr⟩
      rw [hidxs (hne hx), hidxs hnot.1]
      exact hlt
    cyclic := by
      intro v
      have hcyc : (t.enter w).cyclic = s.cyclic := by rw [← ht]; rfl
      rw [hcyc, hs.cyclic v]
      unfold State.Done
      rw [hsome, hstack, List.mem_cons, not_or]
      by_cases h : v = w
      · subst h
        simp [hw]
      · simp [h] }

end Enter

/-! ## Looking at a successor -/

section Look

variable {succ : Fin n → List (Fin n)} {s : State n} {v w : Fin n} {k : Nat}
  {rest : List (Fin n × Nat)}

/-- No open node was reached after the last one. -/
theorem Inv.idx_le_top (hs : Inv succ s) (hf : s.frames = (v, k) :: rest) :
    ∀ f ∈ s.opened, s.idx f ≤ s.idx v := by
  have hopened : s.opened = v :: rest.map Prod.fst := by
    unfold State.opened
    rw [hf]
    rfl
  have hsorted := hs.sorted.sublist hs.opened
  rw [hopened, List.pairwise_cons] at hsorted
  rw [hopened]
  intro f hmem
  rcases List.mem_cons.mp hmem with rfl | hmem
  · exact le_rfl
  · exact (hsorted.1 f hmem).le

/-- New frames for the same open nodes, and new low numbers. -/
theorem Inv.relabel (hs : Inv succ s) {frames : List (Fin n × Nat)} {low : Fin n → Nat}
    (hnodes : frames.map Prod.fst = s.opened)
    (hwalked : ∀ u, (s.index u).isSome = true → ∀ x ∈ walkedIn succ frames u,
      (s.index x).isSome = true)
    (hle : ∀ f ∈ s.opened, low f ≤ s.idx f)
    (hreached : ∀ f ∈ s.opened, ∃ x ∈ s.stack, Reach succ f x ∧ s.idx x = low f)
    (hcovers : ∀ g, ∀ u ∈ s.stack, s.Owns g u → ∀ x ∈ walkedIn succ frames u, x ∈ s.stack →
      low g ≤ s.idx x) :
    Inv succ { s with frames := frames, low := low } := by
  have hopened : ({ s with frames := frames, low := low } : State n).opened = s.opened := hnodes
  have howns (g u : Fin n) :
      ({ s with frames := frames, low := low } : State n).Owns g u ↔ s.Owns g u := by
    unfold State.Owns
    rw [hopened]
    rfl
  exact {
    index_lt := hs.index_lt
    reached := hs.reached
    sorted := hs.sorted
    on := hs.on
    opened := by rw [hopened]; exact hs.opened
    walked := hwalked
    done := hs.done
    owned := by rw [hopened]; exact hs.owned
    reach := by rw [hopened]; exact hs.reach
    low_le := by rw [hopened]; exact hle
    low_reached := by rw [hopened]; exact hreached
    low_covers := fun g u hu hg => hcovers g u hu ((howns g u).mp hg)
    back := by rw [hopened]; exact hs.back
    cyclic := hs.cyclic }

/-- **Looking at the next successor keeps the invariant.** -/
theorem Inv.look (hs : Inv succ s) (hf : s.frames = (v, k) :: rest)
    (hw : (succ v)[k]? = some w) :
    Inv succ (({ s with frames := (v, k + 1) :: rest } : State n).look v w) := by
  have hnodes : ((v, k + 1) :: rest).map Prod.fst = s.opened := by
    unfold State.opened
    rw [hf]
    rfl
  have hv : v ∈ s.opened := by
    rw [← hnodes]
    exact List.mem_cons_self
  have hedge : Edge succ v w := List.mem_of_getElem? hw
  have hwalk : ∀ u x, x ∈ walkedIn succ ((v, k + 1) :: rest) u →
      (u = v ∧ x = w) ∨ x ∈ walkedIn succ s.frames u := by
    intro u x hx
    rw [hf]
    by_cases hu : u = v
    · subst hu
      rw [walkedIn_cons_self, List.take_add_one, hw, List.mem_append] at hx
      rw [walkedIn_cons_self]
      exact hx.symm.imp_left fun h => ⟨rfl, by simpa using h⟩
    · rw [walkedIn_cons_of_ne hu] at hx ⊢
      exact .inr hx
  have hreach : ∀ f ∈ s.opened, Reach succ f w := fun f hmem =>
    (hs.reach f hmem v (hs.mem_stack hv) (hs.idx_le_top hf f hmem)).tail hedge
  -- the last open node owns itself, so it alone answers for its own successors
  have howns : ∀ g, s.Owns g v → g = v := by
    intro g hg
    refine hs.idx_injective (hs.mem_stack hg.1) (hs.mem_stack hv) (le_antisymm hg.2.1 ?_)
    exact hg.2.2 v hv le_rfl
  unfold State.look
  dsimp only
  cases hi : s.index w with
  | none =>
    exact hs.enter hi hnodes (fun u x hx => (hwalk u x hx).imp_left And.right) hreach
  | some i =>
    have hidx : s.idx w = i := by simp [State.idx, hi]
    have hvis : ∀ u, (s.index u).isSome = true → ∀ x ∈ walkedIn succ ((v, k + 1) :: rest) u,
        (s.index x).isSome = true := by
      intro u hu x hx
      rcases hwalk u x hx with ⟨_, rfl⟩ | hx
      · rw [hi]
        rfl
      · exact hs.walked u hu x hx
    dsimp only
    split_ifs with hon
    · have hws : w ∈ s.stack := (hs.on w).mp hon
      have hlowle (f : Fin n) : Function.update s.low v (min (s.low v) i) f ≤ s.low f := by
        by_cases h : f = v
        · subst h
          simp
        · simp [h]
      refine hs.relabel hnodes hvis (fun f hmem => (hlowle f).trans (hs.low_le f hmem)) ?_ ?_
      · intro f hmem
        obtain ⟨x, hx, hr, he⟩ := hs.low_reached f hmem
        by_cases h : f = v
        · subst h
          rw [Function.update_self]
          rcases le_total (s.low f) i with hle | hle
          · exact ⟨x, hx, hr, by rw [min_eq_left hle]; exact he⟩
          · exact ⟨w, hws, hreach f hmem, by rw [min_eq_right hle]; exact hidx⟩
        · rw [Function.update_of_ne h]
          exact ⟨x, hx, hr, he⟩
      · intro g u hu hg x hx hxs
        rcases hwalk u x hx with ⟨rfl, rfl⟩ | hx
        · rw [howns g hg, Function.update_self, hidx]
          exact min_le_right _ _
        · exact (hlowle g).trans (hs.low_covers g u hu hg x hx hxs)
    · have hws : w ∉ s.stack := fun h => hon ((hs.on w).mpr h)
      refine hs.relabel hnodes hvis hs.low_le hs.low_reached ?_
      intro g u hu hg x hx hxs
      rcases hwalk u x hx with ⟨rfl, rfl⟩ | hx
      · exact absurd hxs hws
      · exact hs.low_covers g u hu hg x hx hxs

end Look

end NexusFlow.Lib.Tarjan
