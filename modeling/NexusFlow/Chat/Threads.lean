import NexusFlow.Lib.Forest
import NexusFlow.Lib.Visit
import Mathlib.Order.Lattice
import Mathlib.Data.String.Basic
import Mathlib.Data.List.Sort

/-!
# Operations

An operation is the thread tree under a root (`crates/chat/src/store.rs`, `thread_root`). Its
identity is what walking up from one of its threads comes to; its extent is what going down from the
root finds. The parent edges are signed ops of any workspace and arrive in any order: they may name
threads that are not here, the thread itself, or close a cycle.

**Main result**: `operations_partition`, walking up and going down agree, so the operations are a
partition of the threads.
-/

namespace NexusFlow.Chat

open Relation NexusFlow.Lib NexusFlow.Lib.Forest

/-- A row of `threads`, as far as the tree walks read it. -/
structure ThreadRow where
  threadId : String
  parent : Option String
  channelId : Option String

/-- A row of `border_threads`, as far as the tree walks read it. -/
structure BorderThread where
  threadId : String
  direction : String

/-- The two tables the walks read; `thread_id` is the primary key of `threads`. -/
structure ThreadsView where
  threads : List ThreadRow
  border : List BorderThread
  key : (threads.map ThreadRow.threadId).Nodup

namespace ThreadsView

/-- `PARENT_WITHIN_THE_BORDER`: a thread that came in across the border has no parent here. -/
def parentWithinTheBorder (v : ThreadsView) (row : ThreadRow) : Option String :=
  if v.border.any fun b => b.threadId = row.threadId && b.direction = "in" then none else row.parent

/-- `thread_parent`, a read by key. -/
def threadParent (v : ThreadsView) (threadId : String) : Option String :=
  (v.threads.find? fun row => row.threadId = threadId).bind v.parentWithinTheBorder

/-- `thread_edges`, a read of the whole table in the order of its ids. -/
def threadEdges (v : ThreadsView) : List (String × Option String × Option String) :=
  (v.threads.mergeSort fun a b => a.threadId ≤ b.threadId).map fun row =>
    (row.threadId, v.parentWithinTheBorder row, row.channelId)

/-- `thread_root`, with fuel for its loop. -/
def threadRoot (v : ThreadsView) (fuel : Nat) (threadId : String) : Option String :=
  climb v.threadParent fuel [] threadId

/-- The child index `thread_subtrees` builds: each parent with its child, in the order read. -/
def childEdges (v : ThreadsView) : List (String × String) :=
  v.threadEdges.filterMap fun e => e.2.1.map fun parent => (parent, e.1)

/-- `thread_subtrees`, with fuel for its loop. -/
def threadSubtrees (v : ThreadsView) (fuel : Nat) (roots : List String) : Option (List String) :=
  if roots.isEmpty then some []
  else visit (· ++ ·) (kids v.childEdges) fuel [] roots

/-- `thread_subtree`. -/
def threadSubtree (v : ThreadsView) (fuel : Nat) (root : String) : Option (List String) :=
  v.threadSubtrees fuel [root]

/-! ## One relation, two reads -/

variable {v : ThreadsView}

/-- The point read finds the row of the id. -/
theorem threadParent_eq_some {t parent : String} : v.threadParent t = some parent ↔
    ∃ row ∈ v.threads, row.threadId = t ∧ v.parentWithinTheBorder row = some parent := by
  unfold threadParent
  rw [Option.bind_eq_some_iff]
  constructor
  · rintro ⟨row, hfind, hparent⟩
    exact ⟨row, List.mem_of_find?_eq_some hfind, by simpa using List.find?_some hfind, hparent⟩
  · rintro ⟨row, hrow, rfl, hparent⟩
    cases hfind : v.threads.find? fun other => other.threadId = row.threadId with
    | none =>
      have := List.find?_eq_none.mp hfind row hrow
      simp at this
    | some other =>
      have hid : other.threadId = row.threadId := by simpa using List.find?_some hfind
      have hsame := List.inj_on_of_nodup_map v.key (List.mem_of_find?_eq_some hfind) hrow hid
      exact ⟨other, rfl, hsame ▸ hparent⟩

theorem mem_threadEdges {t : String} {parent channel : Option String} :
    (t, parent, channel) ∈ v.threadEdges ↔ ∃ row ∈ v.threads,
      row.threadId = t ∧ v.parentWithinTheBorder row = parent ∧ row.channelId = channel := by
  unfold threadEdges
  rw [List.mem_map]
  simp only [List.mem_mergeSort, Prod.mk.injEq]

/-- **The child index is the parent relation the other way round.** -/
theorem mem_childEdges {t parent : String} :
    (parent, t) ∈ v.childEdges ↔ v.threadParent t = some parent := by
  unfold childEdges
  rw [List.mem_filterMap, threadParent_eq_some]
  constructor
  · rintro ⟨⟨id, up, channel⟩, hmem, heq⟩
    obtain ⟨row, hrow, hid, hup, _⟩ := mem_threadEdges.mp hmem
    obtain ⟨parent', rfl, hpair⟩ := Option.map_eq_some_iff.mp heq
    cases hpair
    exact ⟨row, hrow, hid, hup⟩
  · rintro ⟨row, hrow, rfl, hup⟩
    refine ⟨(row.threadId, some parent, row.channelId), ?_, rfl⟩
    exact mem_threadEdges.mpr ⟨row, hrow, rfl, hup, rfl⟩

/-- Going down from a thread reaches what walks up to it. -/
theorem down_iff_up {t r : String} : ReflTransGen (Visit.Next (kids v.childEdges)) r t ↔
    ReflTransGen (Up v.threadParent) t r := by
  rw [← reflTransGen_swap]
  have hrel : Function.swap (Visit.Next (kids v.childEdges)) = Up v.threadParent := by
    funext a b
    exact propext (mem_kids.trans mem_childEdges)
  rw [hrel]

theorem length_childEdges_le : v.childEdges.length ≤ v.threads.length := by
  unfold childEdges
  refine (List.length_filterMap_le _ _).trans (le_of_eq ?_)
  unfold threadEdges
  rw [List.length_map, List.length_mergeSort]

/-! ## The two walks -/

/-- **Walking up ends**, and at the root of the thread. -/
theorem threadRoot_eq (v : ThreadsView) (t : String) :
    ∃ r, Forest.IsRoot v.threadParent t r ∧
      ∀ fuel, v.threads.length + 2 ≤ fuel → v.threadRoot fuel t = some r := by
  have hret (fuel : Nat) (hfuel : v.threads.length + 2 ≤ fuel) :
      ∃ r, v.threadRoot fuel t = some r ∧ Forest.IsRoot v.threadParent t r := by
    have hnodes (x y : String) (hxy : v.threadParent x = some y) :
        x ∈ v.threads.map ThreadRow.threadId := by
      obtain ⟨row, hrow, rfl, _⟩ := threadParent_eq_some.mp hxy
      exact List.mem_map_of_mem hrow
    have hsome : (climb v.threadParent fuel [] t).isSome :=
      climb_isSome hnodes List.nodup_nil (List.nil_subset _) (by simpa using hfuel)
    obtain ⟨r, hr⟩ := Option.isSome_iff_exists.mp hsome
    exact ⟨r, hr, climb_isRoot (.start _ t) hr⟩
  obtain ⟨r, _, hroot⟩ := hret _ le_rfl
  refine ⟨r, hroot, fun fuel hfuel => ?_⟩
  obtain ⟨r', hr', hroot'⟩ := hret fuel hfuel
  rw [hr', hroot.unique hroot']

/-- **Going down ends**, with each thread below a start once. -/
theorem threadSubtrees_eq (v : ThreadsView) (roots : List String) :
    ∃ out, (∀ fuel, roots.length + v.threads.length ≤ fuel →
        v.threadSubtrees fuel roots = some out) ∧ out.Nodup ∧
      ∀ t, t ∈ out ↔ ∃ r ∈ roots, ReflTransGen (Up v.threadParent) t r := by
  unfold threadSubtrees
  cases roots with
  | nil => exact ⟨[], fun _ _ => rfl, List.nodup_nil, by simp⟩
  | cons root roots =>
    have hlen := v.length_childEdges_le
    have hpush (todo new : List String) : (todo ++ new).Perm (new ++ todo) :=
      List.perm_append_comm
    have hkids (x : String) (hx : x ∉ (v.childEdges.map Prod.fst).toFinset) :
        kids v.childEdges x = [] := kids_eq_nil hx
    obtain ⟨out, hout, hnodup, hmem⟩ := visit_eq hpush hkids (root :: roots)
    rw [sum_length_kids] at hout
    refine ⟨out, fun fuel hfuel => hout fuel (by omega), hnodup, fun t => ?_⟩
    rw [hmem]
    simp only [down_iff_up]

/-- **Operations partition the threads.** Whatever the two tables hold, both walks end. The root of
a root is itself; a thread is in the subtree of a root exactly if that is its root; no two roots
share a thread, and each thread is in the subtree of its root. -/
theorem operations_partition (v : ThreadsView) :
    ∃ (root : String → String) (subtree : String → List String),
      (∀ t fuel, v.threads.length + 2 ≤ fuel → v.threadRoot fuel t = some (root t)) ∧
      (∀ r fuel, v.threads.length + 1 ≤ fuel → v.threadSubtree fuel r = some (subtree r)) ∧
      (∀ roots, ∃ out, (∀ fuel, roots.length + v.threads.length ≤ fuel →
          v.threadSubtrees fuel roots = some out) ∧
        out.Nodup ∧ ∀ t, t ∈ out ↔ ∃ r ∈ roots, t ∈ subtree r) ∧
      (∀ t, root (root t) = root t) ∧
      (∀ t r, root r = r → (t ∈ subtree r ↔ root t = r)) ∧
      (∀ r s, root r = r → root s = s → r ≠ s → (subtree r).Disjoint (subtree s)) ∧
      ∀ t, t ∈ subtree (root t) := by
  choose root hroot hclimb using v.threadRoot_eq
  choose subtrees hspread hnodup hmem using v.threadSubtrees_eq
  have hmem' (t r : String) : t ∈ subtrees [r] ↔ ReflTransGen (Up v.threadParent) t r := by
    rw [hmem]
    simp
  have hidem (t : String) : root (root t) = root t := (hroot (root t)).unique (hroot t).self
  have hiff (t r : String) (hr : root r = r) : t ∈ subtrees [r] ↔ root t = r := by
    rw [hmem']
    constructor
    · intro hup
      have hself := hroot r
      rw [hr] at hself
      exact (hroot t).unique (hself.below hup)
    · rintro rfl
      exact (hroot t).reached
  refine ⟨root, fun r => subtrees [r], hclimb, ?_, ?_, hidem, hiff, ?_, ?_⟩
  · intro r fuel hfuel
    exact hspread [r] fuel (by rw [List.length_singleton]; omega)
  · intro roots
    refine ⟨subtrees roots, hspread roots, hnodup roots, fun t => ?_⟩
    rw [hmem]
    simp only [hmem']
  · intro r s hr hs hne t ht hts
    exact hne (((hiff t r hr).mp ht).symm.trans ((hiff t s hs).mp hts))
  · exact fun t => (hiff t (root t) (hidem t)).mpr rfl

end ThreadsView

end NexusFlow.Chat
