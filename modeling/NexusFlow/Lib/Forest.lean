import Mathlib.Data.List.Chain
import Mathlib.Data.List.MinMax
import Mathlib.Data.List.Nodup
import Mathlib.Data.List.Perm.Subperm
import Mathlib.Logic.Relation
import Mathlib.Order.Lattice
import Mathlib.Tactic.SplitIfs

/-!
# Forests whose parents may form cycles

Every node names at most one parent, which nothing keeps from being unknown, the node itself, or one
of its descendants. A **root** is where walking up comes to an end: a node without a parent, or the
least node of a cycle.

* `climb` walks up, and stops where it comes back to a node of its path. With a turn of fuel for
  each node that has a parent, and two more, it returns a root (`climb_isSome`, `climb_isRoot`).
* `IsRoot.unique`: a node has at most one root.
-/

namespace NexusFlow.Lib.Forest

open Relation

/-! ## Ways up -/

section Ways

variable {α : Type*}

/-- `b` is the parent of `a`. -/
def Up (parent : α → Option α) (a b : α) : Prop := parent a = some b

/-- The path leads from `t` to the node the walk stands at, and meets no node twice. -/
structure Walked (parent : α → Option α) (t : α) (path : List α) (cur : α) : Prop where
  chain : (path ++ [cur]).IsChain (Up parent)
  nodup : path.Nodup
  reached : ReflTransGen (Up parent) t cur

variable {parent : α → Option α} {a b c t : α}

theorem up_unique : Relator.RightUnique (Up parent) :=
  fun _ _ _ h h' => Option.some.inj (h.symm.trans h')

/-- A way from a node on a cycle leads back to it. -/
theorem back_of_cycle (hcycle : TransGen (Up parent) a a) (h : ReflTransGen (Up parent) a b) :
    ReflTransGen (Up parent) b a := by
  induction h with
  | refl => exact .refl
  | @tail b c _ hbc ih =>
    have hb : TransGen (Up parent) b a := by
      rcases ReflTransGen.cases_head ih with rfl | ⟨d, hbd, hda⟩
      · exact hcycle
      · exact .head' hbd hda
    obtain ⟨d, hbd, hda⟩ := TransGen.head'_iff.mp hb
    rwa [up_unique hbc hbd]

theorem Walked.start (parent : α → Option α) (t : α) : Walked parent t [] t :=
  ⟨List.isChain_singleton t, List.nodup_nil, .refl⟩

theorem Walked.step {path : List α} {cur up : α} (h : Walked parent t path cur)
    (hnew : cur ∉ path) (hup : parent cur = some up) : Walked parent t (path ++ [cur]) up := by
  refine ⟨?_, ?_, h.reached.tail hup⟩
  · rw [List.isChain_append]
    refine ⟨h.chain, List.isChain_singleton up, ?_⟩
    intro x hx y hy
    rw [List.getLast?_concat, Option.mem_some_iff] at hx
    rw [List.head?_cons, Option.mem_some_iff] at hy
    subst hx hy
    exact hup
  · rw [List.nodup_append]
    refine ⟨h.nodup, List.nodup_singleton cur, ?_⟩
    rintro x hx y hy rfl
    rw [List.mem_singleton] at hy
    exact hnew (hy ▸ hx)

/-- The nodes walked since `c`, where the walk is at `c` again, are closed under the parent. -/
theorem closed_of_chain {rest : List α} (h : (rest ++ [c]).IsChain (Up parent)) (hc : c ∈ rest)
    (ha : a ∈ rest) (hab : Up parent a b) : b ∈ rest := by
  obtain ⟨before, after, rfl⟩ := List.append_of_mem ha
  rw [List.append_assoc, List.cons_append, List.isChain_append] at h
  have htail := h.2.1
  cases after with
  | nil =>
    have hac : Up parent a c := by simpa using htail
    rwa [up_unique hab hac]
  | cons d after =>
    rw [List.cons_append, List.isChain_cons_cons] at htail
    rw [up_unique hab htail.1]
    simp

/-- A chain leads from its first node to each one further on. -/
theorem transGen_of_chain {rest : List α} (h : (a :: rest).IsChain (Up parent)) (hb : b ∈ rest) :
    TransGen (Up parent) a b := by
  have hpairs := List.isChain_iff_pairwise.mp
    (List.IsChain.imp (fun _ _ hxy => TransGen.single hxy) h)
  exact (List.pairwise_cons.mp hpairs).1 b hb

end Ways

/-! ## Roots -/

section Roots

variable {α : Type*} [LinearOrder α]

/-- Walking up from `t` comes to its end at `r`. -/
structure IsRoot (parent : α → Option α) (t r : α) : Prop where
  reached : ReflTransGen (Up parent) t r
  ends : parent r = none ∨
    (TransGen (Up parent) r r ∧ ∀ x, ReflTransGen (Up parent) r x → r ≤ x)

/-- Walk up from `cur`; `path` has been walked. On coming back to a node of the path the answer is
the least node of the cycle, which is the rest of the path from that node. -/
def climb (parent : α → Option α) : Nat → List α → α → Option α
  | 0, _, _ => none
  | fuel + 1, path, cur =>
    if cur ∈ path then some ((path.drop (path.idxOf cur)).min?.getD cur)
    else match parent cur with
      | some up => climb parent fuel (path ++ [cur]) up
      | none => some cur

variable {parent : α → Option α} {a b r r' t : α}

/-- A root is its own root. -/
theorem IsRoot.self (h : IsRoot parent t r) : IsRoot parent r r := ⟨.refl, h.ends⟩

/-- What leads to a root has that root. -/
theorem IsRoot.below (h : IsRoot parent r r) (ht : ReflTransGen (Up parent) t r) :
    IsRoot parent t r := ⟨ht, h.ends⟩

/-- A root that has a parent is the least of what it leads to. -/
theorem IsRoot.le_of_up (h : IsRoot parent t r) (hup : Up parent r a)
    (hb : ReflTransGen (Up parent) r b) : r ≤ b := by
  rcases h.ends with hnone | ⟨_, hleast⟩
  · rw [Up, hnone] at hup
    cases hup
  · exact hleast b hb

/-- Of two roots where one leads to the other, both are the same. -/
theorem IsRoot.eq_of_reaches (h : IsRoot parent t r) (h' : IsRoot parent t r')
    (hreach : ReflTransGen (Up parent) r r') : r = r' := by
  rcases ReflTransGen.cases_head hreach with heq | ⟨x, hx, _⟩
  · exact heq
  have hcycle : TransGen (Up parent) r r := by
    rcases h.ends with hnone | ⟨hcycle, _⟩
    · rw [Up, hnone] at hx
      cases hx
    · exact hcycle
  have hback := back_of_cycle hcycle hreach
  rcases ReflTransGen.cases_head hback with heq | ⟨y, hy, _⟩
  · exact heq.symm
  · exact le_antisymm (h.le_of_up hx hreach) (h'.le_of_up hy hback)

/-- **A node has at most one root.** -/
theorem IsRoot.unique (h : IsRoot parent t r) (h' : IsRoot parent t r') : r = r' := by
  rcases ReflTransGen.total_of_right_unique up_unique h.reached h'.reached with hreach | hreach
  · exact h.eq_of_reaches h' hreach
  · exact (h'.eq_of_reaches h hreach).symm

/-- Where the walk comes back to a node of its path, the least node of the cycle is a root. -/
theorem Walked.isRoot_of_mem {path : List α} {cur : α} (h : Walked parent t path cur)
    (hmem : cur ∈ path) :
    IsRoot parent t ((path.drop (path.idxOf cur)).min?.getD cur) := by
  obtain ⟨rest, hrest⟩ : ∃ rest, path.drop (path.idxOf cur) = cur :: rest := by
    have hlt := List.idxOf_lt_length_of_mem hmem
    refine ⟨path.drop (path.idxOf cur + 1), ?_⟩
    rw [List.drop_eq_getElem_cons hlt, List.getElem_idxOf hlt]
  have hchain : ((cur :: rest) ++ [cur]).IsChain (Up parent) := by
    have hsplit := List.take_append_drop (path.idxOf cur) path
    have hall := h.chain
    rw [← hsplit, hrest, List.append_assoc, List.isChain_append] at hall
    exact hall.2.1
  have hcycle : TransGen (Up parent) cur cur :=
    transGen_of_chain (by simpa using hchain)
      (List.mem_append_right rest (List.mem_singleton_self cur))
  have hreach : ∀ x ∈ cur :: rest, ReflTransGen (Up parent) cur x := by
    intro x hx
    rcases List.mem_cons.mp hx with rfl | hx
    · exact .refl
    · exact (transGen_of_chain (by simpa using hchain)
        (List.mem_append_left [cur] hx)).to_reflTransGen
  rw [hrest]
  obtain ⟨least, hleast⟩ : ∃ least, (cur :: rest).min? = some least :=
    Option.isSome_iff_exists.mp (List.isSome_min?_of_mem List.mem_cons_self)
  obtain ⟨hin, hle⟩ := List.min?_eq_some_iff.mp hleast
  have hto := hreach least hin
  rw [hleast, Option.getD_some]
  refine ⟨h.reached.trans hto, .inr ⟨?_, ?_⟩⟩
  · exact (TransGen.trans_right (back_of_cycle hcycle hto) hcycle).trans_left hto
  · intro x hx
    refine hle x ?_
    induction hx with
    | refl => exact hin
    | tail _ hab ih => exact closed_of_chain hchain List.mem_cons_self ih hab

/-- **The climb returns a root**, where it returns. -/
theorem climb_isRoot {fuel : Nat} {path : List α} {cur : α} (h : Walked parent t path cur)
    (hr : climb parent fuel path cur = some r) : IsRoot parent t r := by
  induction fuel generalizing path cur with
  | zero => cases hr
  | succ fuel ih =>
    rw [climb] at hr
    split_ifs at hr with hmem
    · cases hr
      exact h.isRoot_of_mem hmem
    · cases hup : parent cur with
      | none =>
        rw [hup] at hr
        cases hr
        exact ⟨h.reached, .inl hup⟩
      | some up =>
        rw [hup] at hr
        exact ih (h.step hmem hup) hr

/-- **The climb returns** with a turn of fuel for each node that has a parent, and two more. -/
theorem climb_isSome {nodes : List α} (hnodes : ∀ x y, parent x = some y → x ∈ nodes)
    {fuel : Nat} {path : List α} {cur : α} (hpath : path.Nodup) (hsub : path ⊆ nodes)
    (hfuel : nodes.length + 2 ≤ fuel + path.length) : (climb parent fuel path cur).isSome := by
  induction fuel generalizing path cur with
  | zero =>
    have := (hpath.subperm hsub).length_le
    omega
  | succ fuel ih =>
    rw [climb]
    split_ifs with hmem
    · rfl
    cases hup : parent cur with
    | none => rfl
    | some up =>
      refine ih ?_ ?_ ?_
      · rw [List.nodup_append]
        refine ⟨hpath, List.nodup_singleton cur, ?_⟩
        rintro x hx y hy rfl
        rw [List.mem_singleton] at hy
        exact hmem (hy ▸ hx)
      · intro x hx
        rcases List.mem_append.mp hx with hx | hx
        · exact hsub hx
        · rw [List.mem_singleton] at hx
          exact hnodes x up (hx ▸ hup)
      · rw [List.length_append, List.length_singleton]
        omega

end Roots

end NexusFlow.Lib.Forest
