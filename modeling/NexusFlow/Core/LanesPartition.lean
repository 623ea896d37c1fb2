import NexusFlow.Core.LanesAgree

/-!
# The lanes partition the open work

What `Board::lanes` derives at one instant (`crates/core/src/graph.rs:205-317`), whatever the board.
An open ticket is blocked, deferred or ready, or it is at rest: under a blocked or a deferred
ancestor, or with parents none of which is active. A candidate is under no such ancestor, and its
promoter is a candidate too, so a cluster has its header.
-/

namespace NexusFlow.Core.Graph

open Relation

/-- Where an open ticket stands. -/
inductive OpenLane
  | blocked
  | deferred
  | ready
  | rest
  deriving DecidableEq, Repr

/-- The ticket is under a blocked or a deferred ancestor. -/
def Lanes.Suppresses (lanes : Lanes) (id : String) : Prop :=
  id ∈ lanes.suppressedByBlocked ∨ id ∈ lanes.suppressedByDeferredOnly

/-- The ticket heads a cluster: claimed work that an active child keeps from being finished. -/
def Lanes.Header (lanes : Lanes) (id : String) : Prop :=
  ∃ c ∈ lanes.candidates, c.id = id ∧ c.inProgress = true ∧ c.finishable = false

namespace Board

/-- The ticket has parents, and none of them is active. -/
def Orphaned (b : Board) (id : String) : Prop :=
  (b.parents id).Nonempty ∧ ∀ p ∈ b.parents id, b.active p = false

/-- The ticket stands in the lane. At rest are the ones no list of lanes has. -/
def Stands (b : Board) (lanes : Lanes) (id : String) : OpenLane → Prop
  | .blocked => id ∈ lanes.blocked
  | .deferred => id ∈ lanes.deferred
  | .ready => id ∈ lanes.ready
  | .rest => id ∉ lanes.blocked ∧ id ∉ lanes.deferred ∧ (lanes.Suppresses id ∨ b.Orphaned id)

/-- **What the lanes of a board are.** -/
structure Partition (b : Board) (lanes : Lanes) : Prop where
  stands : ∀ t ∈ b.tickets, t.inProgress = false → ∃! lane, b.Stands lanes t.id lane
  opened : ∀ id, id ∈ lanes.blocked ∨ id ∈ lanes.deferred ∨ id ∈ lanes.ready →
    ∃ t ∈ b.tickets, t.id = id ∧ t.inProgress = false
  byBlocked : ∀ id, id ∈ lanes.suppressedByBlocked ↔ ∃ r ∈ lanes.blocked, TransGen b.HasChild r id
  byDeferred : ∀ id, id ∈ lanes.suppressedByDeferredOnly ↔
    id ∉ lanes.suppressedByBlocked ∧ ∃ r ∈ lanes.deferred, TransGen b.HasChild r id
  disjoint : ∀ id, ¬ (id ∈ lanes.suppressedByBlocked ∧ id ∈ lanes.suppressedByDeferredOnly)
  unsuppressed : ∀ c ∈ lanes.candidates, ¬ lanes.Suppresses c.id
  promoter : ∀ c ∈ lanes.candidates, ∀ p, c.promoter = some p →
    p ∈ b.parents c.id ∧ lanes.Header p ∧ ∀ q ∈ b.parents c.id, lanes.Header q → p ≤ q

section Members

variable {b : Board} {now : String} {cyclic underBlocked underDeferred : Finset String} {t : Ticket}

/-- A ticket is known by its id. -/
theorem id_mem_filter (ht : t ∈ b.tickets) (q : Ticket → Bool) :
    t.id ∈ (b.tickets.filter q).map Ticket.id ↔ q t = true := by
  constructor
  · intro h
    obtain ⟨u, hu, hid⟩ := List.mem_map.mp h
    obtain ⟨hu, hq⟩ := List.mem_filter.mp hu
    rwa [← List.inj_on_of_nodup_map b.nodup_ids hu ht hid]
  · exact fun hq => List.mem_map_of_mem (List.mem_filter.mpr ⟨ht, hq⟩)

theorem id_mem_blockedIds (ht : t ∈ b.tickets) :
    t.id ∈ b.blockedIds cyclic ↔
      t.inProgress = false ∧ (t.id ∈ cyclic ∨ b.held t.id = true) := by
  rw [blockedIds, List.mem_toFinset, id_mem_filter ht]
  simp

theorem id_mem_deferredIds (ht : t ∈ b.tickets) {blocked : Finset String} :
    t.id ∈ b.deferredIds now blocked ↔
      t.inProgress = false ∧ t.id ∉ blocked ∧ deferredAt now t = true := by
  rw [deferredIds, List.mem_toFinset, id_mem_filter ht]
  simp

theorem rests_iff (hopen : t.inProgress = false) : b.rests t = true ↔ b.Orphaned t.id := by
  simp [rests, Orphaned, hopen]

theorem isActionable_iff : b.isActionable now cyclic underBlocked underDeferred t = true ↔
    ¬ (t.id ∈ cyclic ∨ b.held t.id = true) ∧ deferredAt now t = false ∧
      ¬ (t.id ∈ underBlocked ∨ t.id ∈ underDeferred) ∧ b.rests t = false := by
  simp [isActionable, and_assoc]

/-- The tickets of the filtered candidates. -/
theorem mem_ids_candidates {actionable tickets : List Ticket} {q : Bool → Bool} {id : String} :
    id ∈ ((tickets.map (b.candidate actionable)).filter fun c => q c.inProgress).map
        Candidate.id ↔
      ∃ t ∈ tickets, t.id = id ∧ q t.inProgress = true := by
  simp only [List.mem_map, List.mem_filter]
  constructor
  · rintro ⟨c, ⟨⟨t, ht, rfl⟩, hq⟩, rfl⟩
    exact ⟨t, ht, rfl, hq⟩
  · rintro ⟨t, ht, rfl, hq⟩
    exact ⟨_, ⟨⟨t, ht, rfl⟩, hq⟩, rfl⟩

theorem mem_ready {id : String} :
    id ∈ (b.assemble now cyclic underBlocked underDeferred).ready ↔
      ∃ t ∈ b.actionable now cyclic underBlocked underDeferred, t.id = id ∧
        t.inProgress = false := by
  refine (mem_ids_candidates (q := fun inProgress => !inProgress)).trans ?_
  simp

/-- An open ticket is ready when it is actionable. -/
theorem id_mem_ready (ht : t ∈ b.tickets) (hopen : t.inProgress = false) :
    t.id ∈ (b.assemble now cyclic underBlocked underDeferred).ready ↔
      b.isActionable now cyclic underBlocked underDeferred t = true := by
  rw [mem_ready]
  constructor
  · rintro ⟨u, hu, hid, _⟩
    obtain ⟨hu, hq⟩ := List.mem_filter.mp hu
    rwa [← List.inj_on_of_nodup_map b.nodup_ids hu ht hid]
  · exact fun hq => ⟨t, List.mem_filter.mpr ⟨ht, hq⟩, rfl, hopen⟩

theorem mem_blocked {id : String} :
    id ∈ (b.assemble now cyclic underBlocked underDeferred).blocked ↔ id ∈ b.blockedIds cyclic := by
  unfold assemble
  simp only [Finset.mem_sort]

theorem mem_deferred {id : String} :
    id ∈ (b.assemble now cyclic underBlocked underDeferred).deferred ↔
      id ∈ b.deferredIds now (b.blockedIds cyclic) := by
  unfold assemble
  simp only [Finset.mem_sort]

theorem suppresses_assemble {id : String} :
    (b.assemble now cyclic underBlocked underDeferred).Suppresses id ↔
      id ∈ underBlocked ∨ id ∈ underDeferred := by
  unfold Lanes.Suppresses assemble
  simp only [Finset.mem_sort, Finset.mem_sdiff]
  tauto

end Members

section Assembled

variable {b : Board} {now : String} {cyclic underBlocked underDeferred : Finset String}

/-- **An open ticket stands in exactly one lane.** -/
theorem exists_unique_lane {t : Ticket} (ht : t ∈ b.tickets) (hopen : t.inProgress = false) :
    ∃! lane, b.Stands (b.assemble now cyclic underBlocked underDeferred) t.id lane := by
  have hblocked : b.Stands (b.assemble now cyclic underBlocked underDeferred) t.id .blocked ↔
      (t.id ∈ cyclic ∨ b.held t.id = true) := by
    refine mem_blocked.trans ?_
    rw [id_mem_blockedIds ht]
    exact and_iff_right hopen
  have hdeferred : b.Stands (b.assemble now cyclic underBlocked underDeferred) t.id .deferred ↔
      ¬ (t.id ∈ cyclic ∨ b.held t.id = true) ∧ deferredAt now t = true := by
    refine mem_deferred.trans ?_
    rw [id_mem_deferredIds ht, id_mem_blockedIds ht, and_iff_right hopen, and_iff_right hopen]
  have hready : b.Stands (b.assemble now cyclic underBlocked underDeferred) t.id .ready ↔
      ¬ (t.id ∈ cyclic ∨ b.held t.id = true) ∧ deferredAt now t = false ∧
        ¬ ((t.id ∈ underBlocked ∨ t.id ∈ underDeferred) ∨ b.Orphaned t.id) := by
    refine (id_mem_ready ht hopen).trans (isActionable_iff.trans ?_)
    rw [← rests_iff hopen, not_or (p := _ ∨ _), Bool.not_eq_true (b.rests t)]
  have hrest : b.Stands (b.assemble now cyclic underBlocked underDeferred) t.id .rest ↔
      ¬ (t.id ∈ cyclic ∨ b.held t.id = true) ∧ deferredAt now t = false ∧
        ((t.id ∈ underBlocked ∨ t.id ∈ underDeferred) ∨ b.Orphaned t.id) := by
    have hunfold : b.Stands (b.assemble now cyclic underBlocked underDeferred) t.id .rest ↔
        ¬ b.Stands (b.assemble now cyclic underBlocked underDeferred) t.id .blocked ∧
        ¬ b.Stands (b.assemble now cyclic underBlocked underDeferred) t.id .deferred ∧
        ((b.assemble now cyclic underBlocked underDeferred).Suppresses t.id ∨ b.Orphaned t.id) :=
      Iff.rfl
    rw [hunfold, hblocked, hdeferred, suppresses_assemble]
    refine and_congr_right fun hfree => ?_
    rw [and_iff_right hfree, Bool.not_eq_true]
  generalize (b.assemble now cyclic underBlocked underDeferred) = lanes at *
  generalize (t.id ∈ cyclic ∨ b.held t.id = true) = held at *
  generalize ((t.id ∈ underBlocked ∨ t.id ∈ underDeferred) ∨ b.Orphaned t.id) = resting at *
  have hunique : ∀ lane, b.Stands lanes t.id lane →
      (∀ other, b.Stands lanes t.id other → other = lane) →
        ∃! lane, b.Stands lanes t.id lane := fun lane h hother => ⟨lane, h, hother⟩
  by_cases hheld : held
  · refine hunique .blocked (hblocked.mpr hheld) fun other h => ?_
    cases other with
    | blocked => rfl
    | deferred => exact absurd hheld (hdeferred.mp h).1
    | ready => exact absurd hheld (hready.mp h).1
    | rest => exact absurd hheld (hrest.mp h).1
  · cases hdefer : deferredAt now t with
    | true =>
      rw [hdefer] at hdeferred hready hrest
      refine hunique .deferred (hdeferred.mpr ⟨hheld, rfl⟩) fun other h => ?_
      cases other with
      | blocked => exact absurd (hblocked.mp h) hheld
      | deferred => rfl
      | ready => exact absurd (hready.mp h).2.1 (by simp)
      | rest => exact absurd (hrest.mp h).2.1 (by simp)
    | false =>
      rw [hdefer] at hdeferred hready hrest
      by_cases hresting : resting
      · refine hunique .rest (hrest.mpr ⟨hheld, rfl, hresting⟩) fun other h => ?_
        cases other with
        | blocked => exact absurd (hblocked.mp h) hheld
        | deferred => exact absurd (hdeferred.mp h).2 (by simp)
        | ready => exact absurd hresting (hready.mp h).2.2
        | rest => rfl
      · refine hunique .ready (hready.mpr ⟨hheld, rfl, hresting⟩) fun other h => ?_
        cases other with
        | blocked => exact absurd (hblocked.mp h) hheld
        | deferred => exact absurd (hdeferred.mp h).2 (by simp)
        | ready => rfl
        | rest => exact absurd (hrest.mp h).2.2 hresting

/-- A candidate's promoter is the smallest header among its parents. -/
theorem promoter_candidate
    (hchildren : ∀ x y, y ∈ b.parents x ↔ x ∈ b.children y)
    {c : Candidate} (hc : c ∈ (b.assemble now cyclic underBlocked underDeferred).candidates)
    {p : String} (hp : c.promoter = some p) :
    p ∈ b.parents c.id ∧ (b.assemble now cyclic underBlocked underDeferred).Header p ∧
      ∀ q ∈ b.parents c.id,
        (b.assemble now cyclic underBlocked underDeferred).Header q → p ≤ q := by
  obtain ⟨t, ht, rfl⟩ := List.mem_map.mp hc
  set actionable := b.actionable now cyclic underBlocked underDeferred with hact
  have hby : ById actionable := b.byId.sublist List.filter_sublist
  have hactive : b.active t.id = true :=
    active_iff.mpr (List.mem_map_of_mem (List.mem_of_mem_filter ht))
  -- the test that finds the promoter
  have htest (q : String) : (actionable.find? fun u => u.id == q).any Ticket.inProgress = true ↔
      ∃ u ∈ actionable, u.id = q ∧ u.inProgress = true := any_find?_iff hby
  have hfind : (b.parents t.id).sort.find? (fun q =>
      (actionable.find? fun u => u.id == q).any Ticket.inProgress) = some p := by
    unfold candidate at hp
    dsimp only at hp
    split_ifs at hp
    exact hp
  obtain ⟨hpass, before, after, hsplit, hbefore⟩ := List.find?_eq_some_iff_append.mp hfind
  have hmem : p ∈ b.parents t.id := by
    rw [← Finset.mem_sort (· ≤ ·), hsplit]
    simp
  refine ⟨hmem, ?_, fun q hq hheader => ?_⟩
  · obtain ⟨u, hu, hid, hprogress⟩ := (htest p).mp hpass
    refine ⟨b.candidate actionable u, List.mem_map_of_mem hu, hid, hprogress, ?_⟩
    unfold candidate
    rw [Bool.not_eq_false', List.any_eq_true]
    refine ⟨t.id, (Finset.mem_sort _).mpr ?_, hactive⟩
    rw [hid]
    exact (hchildren _ _).mp hmem
  · obtain ⟨c, hc, hid, hprogress, _⟩ := hheader
    obtain ⟨u, hu, rfl⟩ := List.mem_map.mp hc
    have hq' : q ∈ (b.parents t.id).sort := (Finset.mem_sort (· ≤ ·)).mpr hq
    have hsorted := (b.parents t.id).pairwise_sort (· ≤ ·)
    rw [hsplit, List.pairwise_append, List.pairwise_cons] at hsorted
    rw [hsplit, List.mem_append, List.mem_cons] at hq'
    rcases hq' with hq' | rfl | hq'
    · have hfails := hbefore q hq'
      rw [(htest q).mpr ⟨u, hu, hid, hprogress⟩] at hfails
      cases hfails
    · exact le_rfl
    · exact hsorted.2.1.1 q hq'

end Assembled

/-- On a board made from edges the children are the parents' counterpart. -/
theorem mem_parents_iff_mem_children (tickets : List Ticket) (edges : List Edge) (x y : String) :
    y ∈ (new tickets edges).parents x ↔ x ∈ (new tickets edges).children y := by
  rw [mem_parents_new, mem_children_new]

/-- **The lanes partition the open work**, on every board and at every instant. -/
theorem lanes_partition (tickets : List Ticket) (edges : List Edge) (now : String) :
    ∃ lanes, (new tickets edges).lanes now = some lanes ∧ (new tickets edges).Partition lanes := by
  have hchildren := mem_parents_iff_mem_children tickets edges
  generalize new tickets edges = b at hchildren
  obtain ⟨cyclic, underBlocked, underDeferred, hc, hub, hud, hlanes⟩ := b.exists_lanes now
  refine ⟨_, hlanes, ?_⟩
  have hsuppressed : ∀ id,
      id ∈ (b.assemble now cyclic underBlocked underDeferred).suppressedByBlocked ↔ id ∈ underBlocked := fun id => Finset.mem_sort _
  exact {
    stands := fun t ht hopen => exists_unique_lane ht hopen
    opened := by
      have hids : ∀ {q : Ticket → Bool} {id : String}, id ∈ (b.tickets.filter q).map Ticket.id →
          (∀ t, q t = true → t.inProgress = false) →
            ∃ t ∈ b.tickets, t.id = id ∧ t.inProgress = false := by
        intro q id h hq
        obtain ⟨t, ht, hid⟩ := List.mem_map.mp h
        obtain ⟨ht, hpass⟩ := List.mem_filter.mp ht
        exact ⟨t, ht, hid, hq t hpass⟩
      rintro id (h | h | h)
      · refine hids (List.mem_toFinset.mp (mem_blocked.mp h)) fun t ht => ?_
        rw [Bool.and_eq_true, Bool.not_eq_true'] at ht
        exact ht.1
      · refine hids (List.mem_toFinset.mp (mem_deferred.mp h)) fun t ht => ?_
        rw [Bool.and_eq_true, Bool.not_eq_true'] at ht
        exact ht.1
      · obtain ⟨t, ht, hid, hopen⟩ := mem_ready.mp h
        exact ⟨t, List.mem_of_mem_filter ht, hid, hopen⟩
    byBlocked := by
      intro id
      rw [hsuppressed, hub id]
      exact exists_congr fun r => and_congr_left fun _ => mem_blocked.symm
    byDeferred := by
      intro id
      rw [hsuppressed]
      refine (Finset.mem_sort _).trans (Finset.mem_sdiff.trans ?_)
      rw [hud id, and_comm]
      refine and_congr_right fun _ => ?_
      exact exists_congr fun r => and_congr_left fun _ => mem_deferred.symm
    disjoint := fun id h =>
      (Finset.mem_sdiff.mp ((Finset.mem_sort _).mp h.2)).2 ((hsuppressed id).mp h.1)
    unsuppressed := by
      intro c hc hsup
      obtain ⟨t, ht, rfl⟩ := List.mem_map.mp hc
      exact (isActionable_iff.mp (List.mem_filter.mp ht).2).2.2.1 (suppresses_assemble.mp hsup)
    promoter := fun c hc p hp => promoter_candidate hchildren hc hp }

end Board

end NexusFlow.Core.Graph
