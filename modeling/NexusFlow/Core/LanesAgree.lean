import NexusFlow.Core.Derive

/-!
# The two derivations agree

The lanes of `graph::Board` over the selection of `graph::select` are the lanes of `derive`, on every
content of the views and at every instant. One side walks indices and worklists over the active
tickets and the edges that touch one, the other runs bounded and recursive queries over every row.

Both are read down to the same relations of the views: `DepStep`, a dependency between active
tickets, and `ChildStep`, an active child of anything. A ticket is on a cycle when `DepStep` leads
from it back to it, and suppressed when `ChildStep` leads to it from a gating one.

**Main result**: `lanes_agree`.
-/

namespace NexusFlow.Core

open Relation NexusFlow.Foundation NexusFlow.Lib

namespace BoardViews

/-! ## What the queries say -/

section Queries

variable {v : BoardViews}

theorem mem_active {x : String} :
    x ∈ v.active ↔ ∃ i ∈ v.items, i.isActive = true ∧ i.id = x := by
  simp [active, and_assoc]

theorem item_eq {i j : ItemRow} (hi : i ∈ v.items) (hj : j ∈ v.items) (h : i.id = j.id) : i = j :=
  List.inj_on_of_nodup_map v.ids hi hj h

theorem id_mem_active {i : ItemRow} (hi : i ∈ v.items) : i.id ∈ v.active ↔ i.isActive = true := by
  rw [mem_active]
  constructor
  · rintro ⟨j, hj, hact, hid⟩
    rwa [item_eq hi hj hid.symm]
  · exact fun h => ⟨i, hi, h, rfl⟩

/-- The view has an edge. -/
def HasEdge (v : BoardViews) (kind : EdgeKind) (x y : String) : Prop :=
  ⟨x, y, kind.asStr⟩ ∈ v.edges

/-- A dependency between active tickets. -/
def DepStep (v : BoardViews) (x y : String) : Prop :=
  x ∈ v.active ∧ y ∈ v.active ∧ v.HasEdge .dep x y

/-- `c` is an active child of `p`. -/
def ChildStep (v : BoardViews) (p c : String) : Prop := c ∈ v.active ∧ v.HasEdge .parent c p

theorem edge_depEdges : BoundedWalk.Edge v.depEdges = v.DepStep := by
  funext x y
  simp only [BoundedWalk.Edge, depEdges, DepStep, HasEdge, EdgeKind.asStr, List.mem_map,
    List.mem_filter, Bool.and_eq_true, beq_iff_eq, List.contains_iff_mem, eq_iff_iff]
  constructor
  · rintro ⟨⟨f, t, k⟩, ⟨hmem, ⟨hk, hf⟩, ht⟩, heq⟩
    cases heq
    cases hk
    exact ⟨hf, ht, hmem⟩
  · rintro ⟨hf, ht, hmem⟩
    exact ⟨_, ⟨hmem, ⟨rfl, hf⟩, ht⟩, rfl⟩

theorem mem_cyclic {x : String} : x ∈ v.cyclic ↔ TransGen v.DepStep x x := by
  rw [← edge_depEdges, ← BoundedWalk.mem_walk_iff]
  simp only [cyclic, List.mem_dedup, List.mem_map, List.mem_filter, beq_iff_eq]
  constructor
  · rintro ⟨⟨a, b⟩, ⟨hmem, hba⟩, hax⟩
    cases hba
    cases hax
    exact hmem
  · exact fun h => ⟨(x, x), ⟨h, rfl⟩, rfl⟩

/-- An `EXISTS` over the edges that leave an id. -/
theorem any_edges_from (kind : EdgeKind) {x : String} {p : String → Bool} :
    (v.edges.any fun e => e.fromId == x && e.kind == kind.asStr && p e.toId) = true ↔
      ∃ y, v.HasEdge kind x y ∧ p y = true := by
  simp only [List.any_eq_true, Bool.and_eq_true, beq_iff_eq]
  constructor
  · rintro ⟨⟨f, t, k⟩, hmem, ⟨rfl, rfl⟩, hp⟩
    exact ⟨t, hmem, hp⟩
  · rintro ⟨y, hmem, hp⟩
    exact ⟨_, hmem, ⟨rfl, rfl⟩, hp⟩

theorem hasActiveDep_iff {x : String} :
    v.hasActiveDep x = true ↔ ∃ y ∈ v.active, v.HasEdge .dep x y := by
  refine (any_edges_from .dep).trans ?_
  simp only [List.contains_iff_mem, and_comm]

theorem isMasked_iff {x : String} :
    v.isMasked x = true ↔
      (∃ y, v.HasEdge .parent x y) ∧ ∀ y, v.HasEdge .parent x y → y ∉ v.active := by
  have hany : (v.edges.any fun pe => pe.fromId == x && pe.kind == "parent") = true ↔
      ∃ y, v.HasEdge .parent x y := by
    simpa [EdgeKind.asStr] using any_edges_from .parent (v := v) (x := x) (p := fun _ => true)
  have hact : (v.edges.any fun pe =>
      pe.fromId == x && pe.kind == "parent" && v.active.contains pe.toId) = true ↔
      ∃ y, v.HasEdge .parent x y ∧ y ∈ v.active := by
    simpa [EdgeKind.asStr] using any_edges_from .parent (v := v) (x := x) (p := v.active.contains)
  rw [isMasked, Bool.and_eq_true, Bool.not_eq_true', ← Bool.not_eq_true, hany, hact]
  push Not
  rfl

theorem mem_blockedGating {i : ItemRow} (hi : i ∈ v.items) :
    i.id ∈ v.blockedGating ↔
      (isOpen i && (v.cyclic.contains i.id || v.hasActiveDep i.id)) = true := by
  simp only [blockedGating, List.mem_map, List.mem_filter]
  constructor
  · rintro ⟨j, ⟨hj, hp⟩, hid⟩
    rwa [item_eq hi hj hid.symm]
  · exact fun h => ⟨i, ⟨hi, h⟩, rfl⟩

theorem mem_childrenOf {gates : String → Bool} {c : String} :
    c ∈ v.childrenOf gates ↔ ∃ p, gates p = true ∧ v.ChildStep p c := by
  simp only [childrenOf, ChildStep, HasEdge, EdgeKind.asStr, List.mem_map, List.mem_filter,
    Bool.and_eq_true, beq_iff_eq, List.contains_iff_mem]
  constructor
  · rintro ⟨⟨f, t, k⟩, ⟨hmem, ⟨rfl, hf⟩, hp⟩, rfl⟩
    exact ⟨t, hp, hf, hmem⟩
  · rintro ⟨p, hp, hf, hmem⟩
    exact ⟨_, ⟨hmem, ⟨rfl, hf⟩, hp⟩, rfl⟩

/-- **The recursive queries end** with the active descendants of the gating ids. -/
theorem exists_under (v : BoardViews) (gates : String → Bool) :
    ∃ out, v.under gates = some out ∧
      ∀ x, x ∈ out ↔ ∃ r, gates r = true ∧ TransGen v.ChildStep r x := by
  have hnext (p c : String) : c ∈ v.childrenOf (fun q => q == p) ↔ v.ChildStep p c := by
    simp [mem_childrenOf]
  have hrel : Worklist.Next (fun id => v.childrenOf fun p => p == id) = v.ChildStep := by
    funext p c
    exact propext (hnext p c)
  have hall : ∀ p, ∀ c ∈ v.childrenOf (fun q => q == p), c ∈ v.active.toFinset :=
    fun p c hc => List.mem_toFinset.mpr ((hnext p c).mp hc).1
  have hfirst (c : String) : c ∈ v.childrenOf gates ↔
      ∃ r ∈ {r | gates r = true}, c ∈ v.childrenOf fun q => q == r := by
    rw [mem_childrenOf]
    exact exists_congr fun p => and_congr_right fun _ => (hnext p c).symm
  obtain ⟨out, hout, hmem⟩ :=
    Worklist.recursiveUnion_eq hall (List.toFinset_card_le v.active) _ hfirst
  refine ⟨out, hout, fun x => ?_⟩
  rw [hmem x, hrel]
  rfl

theorem under_eq {gates : String → Bool} {out : Finset String}
    (h : ∀ x, x ∈ out ↔ ∃ r, gates r = true ∧ TransGen v.ChildStep r x) :
    v.under gates = some out := by
  obtain ⟨out', hout', hmem⟩ := v.exists_under gates
  rw [hout', Option.some_inj]
  ext x
  rw [hmem x, h x]

theorem mem_active_of_transGen {p c : String} (h : TransGen v.ChildStep p c) : c ∈ v.active := by
  cases h with
  | single h => exact h.1
  | tail _ h => exact h.1

end Queries

/-- The writes read the same edges: `targets_of` lists the ends of the view's edges. -/
theorem mem_targetsOf_iff {db : Db} {x y : String} {kind : EdgeKind} :
    y ∈ targetsOf x kind db ↔ (ofDb db).HasEdge kind x y := by
  simp only [targetsOf, HasEdge, ofDb, presentEdges, List.mem_insertionSort, List.mem_dedup,
    List.mem_filterMap, List.mem_filter, Bool.and_eq_true, beq_iff_eq]
  constructor
  · rintro ⟨row, ⟨hrow, ⟨hfrom, hkind⟩, hlive⟩, hto⟩
    exact ⟨row, ⟨hrow, hlive⟩, by simp [hfrom, hkind, cellText_iff.mp hto, cellText]⟩
  · rintro ⟨row, ⟨hrow, hlive⟩, h⟩
    simp only [bind, Option.bind_eq_some_iff, pure, Option.some_inj, EdgeRow.mk.injEq] at h
    obtain ⟨f, hf, t, ht, k, hk, rfl, rfl, rfl⟩ := h
    exact ⟨row, ⟨hrow, ⟨cellText_iff.mp hf, cellText_iff.mp hk⟩, hlive⟩, ht⟩

end BoardViews

/-! ## What the selection keeps -/

namespace Graph

variable {v : BoardViews}

theorem ids_selectTickets : (selectTickets v).map Ticket.id = v.active := by
  rw [selectTickets, List.map_map]
  rfl

theorem mem_tickets_select {t : Ticket} :
    t ∈ (select v).tickets ↔ ∃ i ∈ v.items, i.isActive = true ∧ ticketOf i = t := by
  have hnd : ((selectTickets v).map Ticket.id).Nodup := by
    rw [ids_selectTickets]
    exact v.ids.sublist (List.filter_sublist.map ItemRow.id)
  rw [select, Board.tickets_new, mem_collectTickets hnd]
  simp [selectTickets, and_assoc]

theorem active_select {x : String} : (select v).active x = true ↔ x ∈ v.active := by
  simp only [Board.active_iff, Board.ids, List.mem_map, mem_tickets_select,
    BoardViews.mem_active]
  constructor
  · rintro ⟨t, ⟨i, hi, hact, rfl⟩, rfl⟩
    exact ⟨i, hi, hact, rfl⟩
  · rintro ⟨i, hi, hact, rfl⟩
    exact ⟨ticketOf i, ⟨i, hi, hact, rfl⟩, rfl⟩

theorem parse_eq_some {s : String} {kind : EdgeKind} (h : EdgeKind.parse s = some kind) :
    kind.asStr = s := by
  simpa using List.find?_some h

/-- The edges of one kind that reach the board. -/
theorem mem_selectEdges {kind : EdgeKind} (hkind : kind = .dep ∨ kind = .parent) {x y : String} :
    (⟨x, y, kind⟩ : Edge) ∈ selectEdges v ↔
      v.HasEdge kind x y ∧ (x ∈ v.active ∨ y ∈ v.active) := by
  rw [selectEdges, ids_selectTickets]
  simp only [List.mem_filterMap, List.mem_filter, Bool.or_eq_true, beq_iff_eq,
    List.contains_iff_mem, Option.map_eq_some_iff, BoardViews.HasEdge]
  constructor
  · rintro ⟨⟨f, t, k⟩, ⟨⟨hmem, _⟩, hact⟩, kind', hparse, heq⟩
    cases heq
    rw [parse_eq_some hparse]
    exact ⟨hmem, hact⟩
  · rintro ⟨hmem, hact⟩
    refine ⟨_, ⟨⟨hmem, ?_⟩, hact⟩, kind, EdgeKind.parse_asStr kind, rfl⟩
    rcases hkind with rfl | rfl
    · exact .inl rfl
    · exact .inr rfl

theorem mem_deps_select {x y : String} :
    y ∈ (select v).deps x ↔ v.HasEdge .dep x y ∧ (x ∈ v.active ∨ y ∈ v.active) := by
  rw [select, Board.mem_deps_new]
  exact mem_selectEdges (.inl rfl)

theorem mem_parents_select {x y : String} :
    y ∈ (select v).parents x ↔ v.HasEdge .parent x y ∧ (x ∈ v.active ∨ y ∈ v.active) := by
  rw [select, Board.mem_parents_new]
  exact mem_selectEdges (.inr rfl)

theorem mem_children_select {x y : String} :
    y ∈ (select v).children x ↔ v.HasEdge .parent y x ∧ (y ∈ v.active ∨ x ∈ v.active) := by
  rw [select, Board.mem_children_new]
  exact mem_selectEdges (.inr rfl)

theorem mem_activeDeps_select {x y : String} :
    y ∈ (select v).activeDeps x ↔ y ∈ v.active ∧ v.HasEdge .dep x y := by
  rw [Board.mem_activeDeps, mem_deps_select, active_select]
  tauto

theorem dependsOn_select : (select v).DependsOn = v.DepStep := by
  funext x y
  rw [Board.DependsOn, active_select, mem_activeDeps_select]
  rfl

theorem hasChild_select : (select v).HasChild = v.ChildStep := by
  funext p c
  rw [Board.HasChild, mem_children_select, active_select, BoardViews.ChildStep, eq_iff_iff]
  tauto

theorem held_select {x : String} : (select v).held x = v.hasActiveDep x := by
  have hne : (select v).held x = true ↔ ∃ y, y ∈ (select v).activeDeps x := by
    rw [Board.held, List.isSome_head?, ← List.isEmpty_eq_false_iff,
      List.isEmpty_eq_false_iff_exists_mem]
  rw [Bool.eq_iff_iff, hne, BoardViews.hasActiveDep_iff]
  exact exists_congr fun y => mem_activeDeps_select

/-! ## Lists in the order of ids -/

section Sorted

open BoardViews

/-- Two lists in strict order of some name with the same members. -/
theorem eq_of_name_lt {α : Type} (name : α → String) {l m : List α}
    (hl : l.Pairwise fun a b => name a < name b) (hm : m.Pairwise fun a b => name a < name b)
    (h : ∀ x, x ∈ l ↔ x ∈ m) : l = m := by
  have : Std.Irrefl fun a b : α => name a < name b := ⟨fun a => lt_irrefl (name a)⟩
  have : Std.Antisymm fun a b : α => name a < name b := ⟨fun _ _ hab hba => absurd hab hba.asymm⟩
  exact hl.eq_of_mem_iff hm h

/-- `ORDER BY id` over rows of different ids. -/
theorem pairwise_insertionSort {α : Type} (name : α → String) {l : List α}
    (hnd : (l.map name).Nodup) :
    (l.insertionSort fun a b => name a ≤ name b).Pairwise fun a b => name a < name b := by
  have : Std.Total fun a b : α => name a ≤ name b := ⟨fun a b => le_total (name a) (name b)⟩
  have : IsTrans α fun a b => name a ≤ name b := ⟨fun _ _ _ => le_trans⟩
  have hle := List.pairwise_insertionSort (fun a b : α => name a ≤ name b) l
  have hne : ((l.insertionSort fun a b => name a ≤ name b).map name).Nodup :=
    ((List.perm_insertionSort _ l).map name).nodup_iff.mpr hnd
  rw [List.Nodup, List.pairwise_map] at hne
  exact (hle.and hne).imp fun h => lt_of_le_of_ne h.1 h.2

theorem orderById_eq {v : BoardViews} {p : ItemRow → Bool} {m : List String}
    (hm : m.Pairwise (· < ·))
    (h : ∀ x, x ∈ m ↔ ∃ i ∈ v.items, p i = true ∧ i.id = x) :
    orderById ((v.items.filter p).map ItemRow.id) = m := by
  have hnd : (((v.items.filter p).map ItemRow.id).map id).Nodup := by
    rw [List.map_id]
    exact v.ids.sublist (List.filter_sublist.map ItemRow.id)
  refine eq_of_name_lt id (pairwise_insertionSort id hnd) hm fun x => ?_
  rw [orderById, List.mem_insertionSort, h x]
  simp [and_assoc]

/-- The first of a sorted set that passes a test is the smallest that does. -/
theorem find?_sort_eq_min? {s : Finset String} {p : String → Bool} {l : List String}
    (h : ∀ x, x ∈ l ↔ x ∈ s ∧ p x = true) : s.sort.find? p = l.min? := by
  cases hmin : l.min? with
  | none =>
    rw [List.min?_eq_none_iff] at hmin
    rw [List.find?_eq_none]
    intro x hx hp
    have := (h x).mpr ⟨(Finset.mem_sort _).mp hx, hp⟩
    rw [hmin] at this
    cases this
  | some m =>
    obtain ⟨hml, hle⟩ := List.min?_eq_some_iff.mp hmin
    obtain ⟨hms, hpm⟩ := (h m).mp hml
    have hfound : (s.sort.find? p).isSome = true := by
      rw [List.find?_isSome]
      exact ⟨m, (Finset.mem_sort _).mpr hms, hpm⟩
    obtain ⟨a, ha⟩ := Option.isSome_iff_exists.mp hfound
    obtain ⟨hpa, before, after, hsplit, hbefore⟩ := List.find?_eq_some_iff_append.mp ha
    have hma : m ≤ a := by
      refine hle a ((h a).mpr ⟨?_, hpa⟩)
      rw [← Finset.mem_sort (· ≤ ·), hsplit]
      simp
    -- `m` passes, so it is not among the ones before `a`
    have ham : a ≤ m := by
      have hsorted := s.pairwise_sort (· ≤ ·)
      have hmem := (Finset.mem_sort (· ≤ ·)).mpr hms
      rw [hsplit, List.pairwise_append, List.pairwise_cons] at hsorted
      rw [hsplit, List.mem_append, List.mem_cons] at hmem
      rcases hmem with hmem | rfl | hmem
      · have := hbefore m hmem
        rw [hpm] at this
        cases this
      · exact le_rfl
      · exact hsorted.2.1.1 m hmem
    rw [ha, le_antisymm ham hma]

end Sorted

/-! ## One item, one ticket -/

section Items

open BoardViews

/-- A list of tickets picked by a test is the list of items picked by the same test. -/
theorem orderById_filter_eq {p : ItemRow → Bool} {q : Ticket → Bool}
    (hpq : ∀ i ∈ v.items, p i = (i.isActive && q (ticketOf i))) :
    orderById ((v.items.filter p).map ItemRow.id) =
      ((select v).tickets.filter q).map Ticket.id := by
  refine orderById_eq ?_ fun x => ?_
  · rw [List.pairwise_map]
    exact (select v).byId.sublist List.filter_sublist
  · simp only [List.mem_map, List.mem_filter, mem_tickets_select]
    constructor
    · rintro ⟨t, ⟨⟨i, hi, hact, rfl⟩, hq⟩, rfl⟩
      exact ⟨i, hi, by rw [hpq i hi, hact, hq]; rfl, rfl⟩
    · rintro ⟨i, hi, hp, rfl⟩
      rw [hpq i hi, Bool.and_eq_true] at hp
      exact ⟨ticketOf i, ⟨⟨i, hi, hp.1, rfl⟩, hp.2⟩, rfl⟩

/-- The set of such tickets, listed. -/
theorem sort_toFinset_filter (b : Board) (q : Ticket → Bool) :
    ((b.tickets.filter q).map Ticket.id).toFinset.sort = (b.tickets.filter q).map Ticket.id := by
  have hlt : ((b.tickets.filter q).map Ticket.id).Pairwise (· < ·) := by
    rw [List.pairwise_map]
    exact b.byId.sublist List.filter_sublist
  exact (List.toFinset_sort _ (hlt.imp fun h => h.ne)).mpr (hlt.imp fun h => h.le)

/-- An item is open when its ticket is active and not in progress. -/
theorem isOpen_eq (i : ItemRow) : isOpen i = (i.isActive && !(ticketOf i).inProgress) := by
  unfold isOpen ItemRow.isActive ticketOf
  by_cases hopen : i.status = some "open"
  · simp [hopen]
  · by_cases hprog : i.status = some "in_progress" <;> simp [hopen, hprog]

theorem isLive_inProgress_eq (i : ItemRow) :
    (i.isLive && i.status == some "in_progress") = (i.isActive && (ticketOf i).inProgress) := by
  unfold ItemRow.isActive ticketOf
  by_cases hprog : i.status = some "in_progress"
  · simp [hprog]
  · simp [beq_eq_false_iff_ne.mpr hprog]

theorem deferredAt_ticketOf (now : String) (i : ItemRow) :
    Board.deferredAt now (ticketOf i) = isDeferred now i := rfl

theorem all_le_eq (now : String) (i : ItemRow) :
    (i.deferUntil.all fun d => decide (d ≤ now)) = !isDeferred now i := by
  unfold isDeferred
  cases i.deferUntil with
  | none => rfl
  | some d => simp [← not_lt]

/-- The closed-mask, on a row whose ticket is active. -/
theorem rests_ticketOf {i : ItemRow} (hi : i ∈ v.items) (hact : i.isActive = true) :
    (select v).rests (ticketOf i) =
      !((i.status.any fun s => s != "open") || !v.isMasked i.id) := by
  have hin : i.id ∈ v.active := (id_mem_active hi).mpr hact
  have hparents (y : String) : y ∈ (select v).parents i.id ↔ v.HasEdge .parent i.id y := by
    rw [mem_parents_select]
    exact and_iff_left (.inl hin)
  have hmask : (decide ((select v).parents i.id).Nonempty &&
      ((select v).parents i.id).sort.all fun p => !(select v).active p) = v.isMasked i.id := by
    rw [Bool.eq_iff_iff, isMasked_iff, Bool.and_eq_true, decide_eq_true_eq, List.all_eq_true]
    simp only [Finset.Nonempty, Finset.mem_sort, hparents, Bool.not_eq_true',
      ← Bool.not_eq_true, active_select]
  have hstatus : (i.status.any fun s => s != "open") = (ticketOf i).inProgress := by
    unfold ItemRow.isActive at hact
    simp only [Bool.and_eq_true, List.contains_iff_mem, List.mem_cons, List.not_mem_nil,
      or_false] at hact
    rcases hact.2 with h | h <;> simp [ticketOf, h]
  change (!(ticketOf i).inProgress && (decide ((select v).parents i.id).Nonempty &&
    ((select v).parents i.id).sort.all fun p => !(select v).active p)) = _
  rw [hmask, hstatus, Bool.not_or, Bool.not_not]

end Items

/-! ## The lanes -/

section Lanes

open BoardViews

variable {now : String} {cyclic : Finset String}

/-- The blocked lane gates as the blocked half does. -/
theorem blockedIds_select (hc : ∀ x, x ∈ cyclic ↔ x ∈ v.cyclic) :
    ((select v).blockedIds cyclic).sort = Derive.blocked v := by
  rw [Board.blockedIds, sort_toFinset_filter, Derive.blocked]
  refine (orderById_filter_eq fun i _ => ?_).symm
  have hcyc : v.cyclic.contains i.id = decide ((ticketOf i).id ∈ cyclic) := by
    rw [Bool.eq_iff_iff, List.contains_iff_mem, decide_eq_true_eq]
    exact (hc i.id).symm
  rw [isOpen_eq, hcyc, held_select, Bool.and_assoc]
  rfl

theorem mem_blockedIds (hc : ∀ x, x ∈ cyclic ↔ x ∈ v.cyclic) {x : String} :
    x ∈ (select v).blockedIds cyclic ↔ x ∈ v.blockedGating := by
  rw [← Finset.mem_sort (· ≤ ·), blockedIds_select hc, Derive.blocked, orderById,
    List.mem_insertionSort]
  rfl

/-- The deferred lane. -/
theorem deferredIds_select (hc : ∀ x, x ∈ cyclic ↔ x ∈ v.cyclic) :
    ((select v).deferredIds now ((select v).blockedIds cyclic)).sort = Derive.deferred v now := by
  rw [Board.deferredIds, sort_toFinset_filter, Derive.deferred]
  refine (orderById_filter_eq fun i hi => ?_).symm
  have hsome : (i.deferUntil.isSome && isDeferred now i) = isDeferred now i := by
    unfold isDeferred
    cases i.deferUntil <;> simp
  rw [← Bool.and_assoc (i.isActive), ← isOpen_eq, deferredAt_ticketOf]
  cases hopen : isOpen i with
  | false => simp
  | true =>
    have hblocked : decide ((ticketOf i).id ∈ (select v).blockedIds cyclic) =
        (v.cyclic.contains i.id || v.hasActiveDep i.id) := by
      rw [Bool.eq_iff_iff, decide_eq_true_eq, mem_blockedIds hc]
      change i.id ∈ _ ↔ _
      rw [mem_blockedGating hi, hopen]
      rfl
    rw [hblocked, Bool.and_assoc _ i.deferUntil.isSome, hsome]
    cases v.cyclic.contains i.id <;> cases isDeferred now i <;> simp

theorem mem_deferredIds (hc : ∀ x, x ∈ cyclic ↔ x ∈ v.cyclic) {x : String} :
    x ∈ (select v).deferredIds now ((select v).blockedIds cyclic) ↔ x ∈ v.deferredGating now := by
  rw [← Finset.mem_sort (· ≤ ·), deferredIds_select hc, Derive.deferred, orderById,
    List.mem_insertionSort, deferredGating]
  simp only [List.mem_map, List.mem_filter]
  refine exists_congr fun i => and_congr_left fun _ => and_congr_right fun _ => ?_
  unfold isDeferred
  cases i.deferUntil with
  | none => simp
  | some d => simp only [Option.isSome_some, Bool.and_true, Bool.and_eq_true]; tauto

/-- The sets the loops of the board return are those of the queries. -/
structure Derived (v : BoardViews) (now : String) (cyclic underBlocked underDeferred :
    Finset String) : Prop where
  cyclic : ∀ x, x ∈ cyclic ↔ x ∈ v.cyclic
  blocked : v.under v.blockedGating.contains = some underBlocked
  deferred : v.under (v.deferredGating now).contains = some underDeferred
  suppressed : v.suppressed now = some (underBlocked ∪ underDeferred)
  activeBlocked : ∀ x ∈ underBlocked, x ∈ v.active
  activeDeferred : ∀ x ∈ underDeferred, x ∈ v.active

variable {underBlocked underDeferred : Finset String}

/-- **Both walks find the same tickets**, on cycles and under the gating ones. -/
theorem exists_derived (v : BoardViews) (now : String) :
    ∃ cyclic underBlocked underDeferred, Derived v now cyclic underBlocked underDeferred ∧
      (select v).lanes now =
        some ((select v).assemble now cyclic underBlocked underDeferred) := by
  obtain ⟨cyclic, underBlocked, underDeferred, hcyclic, hub, hud, hlanes⟩ :=
    (select v).exists_lanes now
  have hc (x : String) : x ∈ cyclic ↔ x ∈ v.cyclic := by
    rw [hcyclic x, dependsOn_select, mem_cyclic]
  have hblocked (x : String) : x ∈ underBlocked ↔
      ∃ r, v.blockedGating.contains r = true ∧ TransGen v.ChildStep r x := by
    simp only [hub x, mem_blockedIds hc, hasChild_select, List.contains_iff_mem]
  have hdeferred (x : String) : x ∈ underDeferred ↔
      ∃ r, (v.deferredGating now).contains r = true ∧ TransGen v.ChildStep r x := by
    simp only [hud x, mem_deferredIds hc, hasChild_select, List.contains_iff_mem]
  refine ⟨cyclic, underBlocked, underDeferred, ⟨hc, under_eq hblocked, under_eq hdeferred, ?_,
    ?_, ?_⟩, hlanes⟩
  · refine under_eq fun x => ?_
    simp only [Finset.mem_union, hblocked x, hdeferred x, Bool.or_eq_true, or_and_right, exists_or]
  · intro x hx
    obtain ⟨r, _, hr⟩ := (hblocked x).mp hx
    exact mem_active_of_transGen hr
  · intro x hx
    obtain ⟨r, _, hr⟩ := (hdeferred x).mp hx
    exact mem_active_of_transGen hr

/-- A set of active tickets, listed. -/
theorem orderById_active {s : Finset String} (hs : ∀ x ∈ s, x ∈ v.active) {p : ItemRow → Bool}
    (hp : ∀ i, p i = (decide (i.id ∈ s) && i.isActive)) :
    orderById ((v.items.filter p).map ItemRow.id) = s.sort := by
  refine orderById_eq s.sortedLT_sort.pairwise fun x => ?_
  rw [Finset.mem_sort]
  constructor
  · intro hx
    obtain ⟨i, hi, hact, rfl⟩ := mem_active.mp (hs x hx)
    exact ⟨i, hi, by simp [hp, hx, hact], rfl⟩
  · rintro ⟨i, _, hpi, rfl⟩
    rw [hp, Bool.and_eq_true, decide_eq_true_eq] at hpi
    exact hpi.1

theorem Derived.suppressedByBlocked (h : Derived v now cyclic underBlocked underDeferred) :
    Derive.suppressedByBlocked v = some underBlocked.sort := by
  simp only [Derive.suppressedByBlocked, h.blocked, bind, Option.bind, pure, Option.some_inj]
  exact orderById_active h.activeBlocked fun _ => rfl

theorem Derived.suppressedByDeferredOnly (h : Derived v now cyclic underBlocked underDeferred) :
    Derive.suppressedByDeferredOnly v now = some (underDeferred \ underBlocked).sort := by
  simp only [Derive.suppressedByDeferredOnly, h.blocked, h.deferred, bind, Option.bind, pure,
    Option.some_inj]
  refine orderById_active (fun x hx => ?_) fun i => ?_
  · exact h.activeDeferred x (Finset.mem_sdiff.mp hx).1
  · simp [Finset.mem_sdiff]

/-- **The two actionability filters agree** on an active ticket. -/
theorem Derived.isActionable (h : Derived v now cyclic underBlocked underDeferred) {i : ItemRow}
    (hi : i ∈ v.items) (hact : i.isActive = true) :
    (select v).isActionable now cyclic underBlocked underDeferred (ticketOf i) =
      v.isActionable now (underBlocked ∪ underDeferred) i := by
  have hlive : i.isLive = true := by
    rw [ItemRow.isActive, Bool.and_eq_true] at hact
    exact hact.1
  have hcyc : decide ((ticketOf i).id ∈ cyclic) = v.cyclic.contains i.id := by
    rw [Bool.eq_iff_iff, List.contains_iff_mem, decide_eq_true_eq]
    exact h.cyclic i.id
  have hsup : decide (i.id ∈ underBlocked ∪ underDeferred) =
      (decide ((ticketOf i).id ∈ underBlocked) || decide ((ticketOf i).id ∈ underDeferred)) := by
    rw [Bool.eq_iff_iff, Bool.or_eq_true, decide_eq_true_eq, decide_eq_true_eq, decide_eq_true_eq]
    exact Finset.mem_union
  rw [Board.isActionable, BoardViews.isActionable, rests_ticketOf hi hact, hcyc, hsup,
    held_select, deferredAt_ticketOf, all_le_eq, hlive, Bool.not_not, Bool.not_or, Bool.true_and]
  change (!v.cyclic.contains i.id && !v.hasActiveDep i.id && _ && _ && _ && _) = _
  ac_rfl

/-- The two lists of actionable work, by status. -/
theorem Derived.actionable (h : Derived v now cyclic underBlocked underDeferred) (status : String)
    {q : Ticket → Bool} (hq : ∀ i : ItemRow, (i.isLive && i.status == some status) =
      (i.isActive && q (ticketOf i))) :
    Derive.actionable v now status = some
      ((((select v).actionable now cyclic underBlocked underDeferred).filter q).map Ticket.id) := by
  simp only [Derive.actionable, h.suppressed, bind, Option.bind, pure, Option.some_inj,
    Board.actionable, actionableItems, List.filter_filter]
  refine orderById_filter_eq fun i hi => ?_
  have hlive : v.isActionable now (underBlocked ∪ underDeferred) i =
      (i.isLive && v.isActionable now (underBlocked ∪ underDeferred) i) := by
    unfold BoardViews.isActionable
    cases i.isLive <;> simp
  rw [hlive, ← Bool.and_assoc, Bool.and_comm (i.status == _), hq, Bool.and_assoc]
  cases hact : i.isActive with
  | false => rfl
  | true => rw [h.isActionable hi hact]

/-! ## The candidates -/

/-- `BTreeMap::get`, then a test. -/
theorem any_find?_iff {tickets : List Ticket} (hby : ById tickets) {p : String}
    {q : Ticket → Bool} :
    (tickets.find? fun u => u.id == p).any q = true ↔ ∃ u ∈ tickets, u.id = p ∧ q u = true := by
  constructor
  · cases hfind : tickets.find? fun u => u.id == p with
    | none => simp
    | some u =>
      intro hq
      exact ⟨u, List.mem_of_find?_eq_some hfind, by simpa using List.find?_some hfind, hq⟩
  · rintro ⟨u, hu, rfl, hq⟩
    have hfind : (tickets.find? fun w => w.id == u.id) = some u := by
      obtain ⟨w, hw⟩ := Option.isSome_iff_exists.mp
        (List.find?_isSome.mpr ⟨u, hu, beq_self_eq_true u.id⟩ :
          (tickets.find? fun w => w.id == u.id).isSome = true)
      have hnd : (tickets.map Ticket.id).Nodup := by
        rw [List.Nodup, List.pairwise_map]
        exact hby.imp fun h => h.ne
      have hid : w.id = u.id := by simpa using List.find?_some hw
      rw [hw, List.inj_on_of_nodup_map hnd (List.mem_of_find?_eq_some hw) hu hid]
    rw [hfind]
    exact hq

/-- An actionable in-progress ticket is an actionable in-progress item. -/
theorem Derived.header_iff (h : Derived v now cyclic underBlocked underDeferred) {p : String} :
    (((select v).actionable now cyclic underBlocked underDeferred).find? fun u => u.id == p).any
        Ticket.inProgress = true ↔
      ∃ i ∈ v.actionableItems now (underBlocked ∪ underDeferred),
        i.status = some "in_progress" ∧ i.id = p := by
  rw [Board.actionable, any_find?_iff ((select v).byId.sublist List.filter_sublist)]
  simp only [actionableItems, List.mem_filter, mem_tickets_select]
  constructor
  · rintro ⟨t, ⟨⟨i, hi, hact, rfl⟩, hq⟩, rfl, hprog⟩
    rw [h.isActionable hi hact] at hq
    exact ⟨i, ⟨hi, hq⟩, by simpa [ticketOf] using hprog, rfl⟩
  · rintro ⟨i, ⟨hi, hq⟩, hstatus, rfl⟩
    have hact : i.isActive = true := by
      have hlive : i.isLive = true := by
        simp only [BoardViews.isActionable, Bool.and_eq_true] at hq
        exact hq.1.1.1.1.1
      simp [ItemRow.isActive, hlive, hstatus]
    rw [← h.isActionable hi hact] at hq
    exact ⟨ticketOf i, ⟨⟨i, hi, hact, rfl⟩, hq⟩, rfl, by simp [ticketOf, hstatus]⟩

theorem finishable_eq (x : String) :
    (v.edges.any fun c => c.toId == x && c.kind == "parent" && v.active.contains c.fromId) =
      ((select v).children x).sort.any (select v).active := by
  rw [Bool.eq_iff_iff]
  simp only [List.any_eq_true, Bool.and_eq_true, beq_iff_eq, List.contains_iff_mem,
    Finset.mem_sort, mem_children_select, active_select]
  constructor
  · rintro ⟨⟨f, t, k⟩, hmem, ⟨rfl, rfl⟩, hf⟩
    exact ⟨f, ⟨hmem, .inl hf⟩, hf⟩
  · rintro ⟨c, ⟨hmem, _⟩, hc⟩
    exact ⟨_, hmem, ⟨rfl, rfl⟩, hc⟩

theorem Derived.promoter_eq (h : Derived v now cyclic underBlocked underDeferred) {i : ItemRow}
    (hi : i ∈ v.items) (hact : i.isActive = true) :
    (((select v).parents i.id).sort.find? fun p =>
        (((select v).actionable now cyclic underBlocked underDeferred).find? fun u =>
          u.id == p).any Ticket.inProgress) =
      Derive.minPromoter v (v.actionableItems now (underBlocked ∪ underDeferred)) i.id := by
  have hin : i.id ∈ v.active := (id_mem_active hi).mpr hact
  refine find?_sort_eq_min? fun p => ?_
  rw [h.header_iff, mem_parents_select]
  simp only [List.mem_map, List.mem_filter, Bool.and_eq_true, beq_iff_eq, List.contains_iff_mem]
  constructor
  · rintro ⟨⟨f, t, k⟩, ⟨hmem, ⟨rfl, rfl⟩, j, ⟨hj, hstatus⟩, rfl⟩, rfl⟩
    exact ⟨⟨hmem, .inl hin⟩, j, hj, hstatus, rfl⟩
  · rintro ⟨⟨hmem, _⟩, j, hj, hstatus, rfl⟩
    exact ⟨_, ⟨hmem, ⟨rfl, rfl⟩, j, ⟨hj, hstatus⟩, rfl⟩, rfl⟩

/-- The row of `next_candidates`, with its status read as `Candidate` holds it. -/
def candidateOf (c : Derive.NextCandidate) : Candidate :=
  ⟨c.id, c.status == "in_progress", c.finishable, c.promoter⟩

theorem Derived.candidate_eq (h : Derived v now cyclic underBlocked underDeferred) {i : ItemRow}
    (hi : i ∈ v.items) (hact : i.isActive = true) :
    (select v).candidate ((select v).actionable now cyclic underBlocked underDeferred)
        (ticketOf i) =
      candidateOf (Derive.nextCandidate v
        (v.actionableItems now (underBlocked ∪ underDeferred)) i) := by
  have hstatus : i.status = some "open" ∨ i.status = some "in_progress" := by
    unfold ItemRow.isActive at hact
    simpa using (Bool.and_eq_true_iff.mp hact).2
  have hpromoter := h.promoter_eq hi hact
  unfold Board.candidate candidateOf Derive.nextCandidate
  rw [finishable_eq i.id, ← hpromoter]
  rcases hstatus with hs | hs <;> simp [ticketOf, hs]

/-- The candidates are the rows of `next_candidates`. -/
theorem Derived.nextCandidates (h : Derived v now cyclic underBlocked underDeferred) :
    ∃ rows, Derive.nextCandidates v now = some rows ∧
      ((select v).actionable now cyclic underBlocked underDeferred).map
          ((select v).candidate ((select v).actionable now cyclic underBlocked underDeferred)) =
        rows.map candidateOf := by
  refine ⟨_, by simp only [Derive.nextCandidates, h.suppressed, bind, Option.bind, pure]; rfl, ?_⟩
  refine eq_of_name_lt Candidate.id ?_ ?_ fun c => ?_
  · rw [List.pairwise_map]
    exact (select v).byId.sublist List.filter_sublist
  · rw [List.pairwise_map]
    refine pairwise_insertionSort Derive.NextCandidate.id ?_
    rw [List.map_map]
    exact v.ids.sublist ((List.filter_sublist.trans List.filter_sublist).map ItemRow.id)
  · simp only [List.mem_map, List.mem_insertionSort]
    constructor
    · rintro ⟨t, ht, rfl⟩
      obtain ⟨htickets, hq⟩ := List.mem_filter.mp ht
      obtain ⟨i, hi, hact, rfl⟩ := mem_tickets_select.mp htickets
      refine ⟨_, ⟨i, List.mem_filter.mpr ⟨List.mem_filter.mpr ⟨hi, ?_⟩, ?_⟩, rfl⟩,
        (h.candidate_eq hi hact).symm⟩
      · rw [← h.isActionable hi hact]
        exact hq
      · exact (Bool.and_eq_true_iff.mp hact).2
    · rintro ⟨row, ⟨i, hmem, rfl⟩, rfl⟩
      obtain ⟨hmem, hstatus⟩ := List.mem_filter.mp hmem
      obtain ⟨hi, hq⟩ := List.mem_filter.mp hmem
      have hlive : i.isLive = true := by
        simp only [BoardViews.isActionable, Bool.and_eq_true] at hq
        exact hq.1.1.1.1.1
      have hact : i.isActive = true := Bool.and_eq_true_iff.mpr ⟨hlive, hstatus⟩
      refine ⟨ticketOf i, List.mem_filter.mpr ⟨mem_tickets_select.mpr ⟨i, hi, hact, rfl⟩, ?_⟩,
        h.candidate_eq hi hact⟩
      rw [h.isActionable hi hact]
      exact hq

/-- The ids of the candidates, by lane. -/
theorem ids_candidates (b : Board) (actionable tickets : List Ticket) (q : Bool → Bool) :
    ((tickets.map (b.candidate actionable)).filter fun c => q c.inProgress).map Candidate.id =
      (tickets.filter fun t => q t.inProgress).map Ticket.id := by
  rw [List.filter_map, List.map_map]
  rfl

/-- **The relational and the in-memory derivation agree** on every content of the views and at every
instant. -/
theorem lanes_agree (v : BoardViews) (now : String) :
    ∃ lanes rows, (select v).lanes now = some lanes ∧
      Derive.ready v now = some lanes.ready ∧
      Derive.inProgress v now = some lanes.inProgress ∧
      Derive.deferred v now = lanes.deferred ∧
      Derive.blocked v = lanes.blocked ∧
      Derive.suppressedByBlocked v = some lanes.suppressedByBlocked ∧
      Derive.suppressedByDeferredOnly v now = some lanes.suppressedByDeferredOnly ∧
      Derive.nextCandidates v now = some rows ∧ lanes.candidates = rows.map candidateOf := by
  obtain ⟨cyclic, underBlocked, underDeferred, h, hlanes⟩ := exists_derived v now
  obtain ⟨rows, hrows, hcandidates⟩ := h.nextCandidates
  refine ⟨_, rows, hlanes, ?_, ?_, (deferredIds_select h.cyclic).symm,
    (blockedIds_select h.cyclic).symm, h.suppressedByBlocked, h.suppressedByDeferredOnly, hrows,
    hcandidates⟩
  · rw [Derive.ready, h.actionable "open" (q := fun t => !t.inProgress) isOpen_eq]
    exact congrArg some (ids_candidates (select v) _ _ not).symm
  · rw [Derive.inProgress, h.actionable "in_progress" isLive_inProgress_eq]
    exact congrArg some (ids_candidates (select v) _ _ id).symm

end Lanes

end Graph

end NexusFlow.Core
