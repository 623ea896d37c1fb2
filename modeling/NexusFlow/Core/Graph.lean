import Mathlib.Data.Finset.Sort
import Mathlib.Data.String.Basic
import NexusFlow.Core.Model
import NexusFlow.Lib.TarjanRun
import NexusFlow.Lib.Worklist

/-!
# The board's graph in memory

Model of `crates/core/src/graph.rs:24-317`: the lanes and the tier signals over the active tickets
and the edges that touch one. `select`, which reads the two from the views, is in `Derive.lean`.

* `Board.tickets` is the `BTreeMap`, its values in key order; that they are sorted is a field, so
  two tickets of one id cannot be on a board.
* `deps`, `parents` and `children` are maps of sets. An id no edge names has the empty set, which no
  reader tells from a missing entry. A set is iterated in order (`Finset.sort`).
* `cyclic` and `descendants` loop, `cyclic` over the successors as indices. They run on fuel, and
  `cyclic` asserts that the stack it pops is not empty: `none` is a loop that did not end or an
  assertion that failed. `exists_cyclic` and `exists_descendants` say that neither happens and what
  the loops return; `exists_lanes` reads every lane off the two.
-/

namespace NexusFlow.Core.Graph

open Relation NexusFlow.Lib

/-- An active ticket: what the derivation reads of it. -/
structure Ticket where
  id : String
  inProgress : Bool
  deferUntil : Option String
  deriving DecidableEq, Repr

/-- A present edge. A `dep` points at its blocker, a `parent` edge at the parent. -/
structure Edge where
  fromId : String
  toId : String
  kind : EdgeKind
  deriving DecidableEq, Repr

/-- One `next` candidate with its tier signals. -/
structure Candidate where
  id : String
  inProgress : Bool
  finishable : Bool
  promoter : Option String
  deriving DecidableEq, Repr

/-- Everything the lanes need. -/
structure Lanes where
  ready : List String
  inProgress : List String
  deferred : List String
  blocked : List String
  suppressedByBlocked : List String
  suppressedByDeferredOnly : List String
  candidates : List Candidate
  deriving DecidableEq, Repr

/-! ## Tickets by id -/

/-- `BTreeMap::insert`: a ticket of the same id is replaced. -/
def insertTicket (t : Ticket) : List Ticket → List Ticket
  | [] => [t]
  | u :: us =>
    if t.id < u.id then t :: u :: us
    else if t.id = u.id then t :: us
    else u :: insertTicket t us

/-- The tickets are in the order of their ids, and no id comes twice. -/
def ById (tickets : List Ticket) : Prop := tickets.Pairwise fun a b => a.id < b.id

/-- `collect`. -/
def collectTickets (tickets : List Ticket) : List Ticket :=
  tickets.foldl (fun map t => insertTicket t map) []

theorem mem_insertTicket {t x : Ticket} {us : List Ticket} (hus : ById us) :
    x ∈ insertTicket t us ↔ x = t ∨ (x ∈ us ∧ x.id ≠ t.id) := by
  induction us with
  | nil => simp [insertTicket]
  | cons u us ih =>
    have hhead := (List.pairwise_cons.mp hus).1
    unfold insertTicket
    split_ifs with hlt heq
    · have hne : ∀ y ∈ u :: us, y.id ≠ t.id := by
        intro y hy
        rcases List.mem_cons.mp hy with rfl | hy
        · exact hlt.ne'
        · exact (hlt.trans (hhead y hy)).ne'
      rw [List.mem_cons]
      exact or_congr_right ⟨fun h => ⟨h, hne x h⟩, And.left⟩
    · have hne : ∀ y ∈ us, y.id ≠ t.id := fun y hy => heq ▸ (hhead y hy).ne'
      rw [List.mem_cons, List.mem_cons]
      refine or_congr_right ⟨fun h => ⟨.inr h, hne x h⟩, ?_⟩
      rintro ⟨rfl | h, hid⟩
      · exact absurd heq.symm hid
      · exact h
    · rw [List.mem_cons, List.mem_cons, ih (List.pairwise_cons.mp hus).2]
      constructor
      · rintro (rfl | rfl | h)
        · exact .inr ⟨.inl rfl, Ne.symm heq⟩
        · exact .inl rfl
        · exact .inr ⟨.inr h.1, h.2⟩
      · rintro (rfl | ⟨rfl | h, hid⟩)
        · exact .inr (.inl rfl)
        · exact .inl rfl
        · exact .inr (.inr ⟨h, hid⟩)

theorem ById.insertTicket {us : List Ticket} (hus : ById us) (t : Ticket) :
    ById (insertTicket t us) := by
  induction us with
  | nil => exact List.pairwise_singleton _ t
  | cons u us ih =>
    obtain ⟨hhead, htail⟩ := List.pairwise_cons.mp hus
    unfold Graph.insertTicket
    split_ifs with hlt heq
    · refine List.pairwise_cons.mpr ⟨fun y hy => ?_, hus⟩
      rcases List.mem_cons.mp hy with rfl | hy
      · exact hlt
      · exact hlt.trans (hhead y hy)
    · exact List.pairwise_cons.mpr ⟨fun y hy => heq ▸ hhead y hy, htail⟩
    · refine List.pairwise_cons.mpr ⟨fun y hy => ?_, ih htail⟩
      rcases (mem_insertTicket htail).mp hy with rfl | hy
      · exact lt_of_le_of_ne (not_lt.mp hlt) (Ne.symm heq)
      · exact hhead y hy.1

theorem byId_collectTickets (tickets : List Ticket) : ById (collectTickets tickets) := by
  have hfold : ∀ (map : List Ticket), ById map →
      ById (tickets.foldl (fun map t => insertTicket t map) map) := by
    induction tickets with
    | nil => exact fun _ h => h
    | cons t ts ih => exact fun map h => ih _ (h.insertTicket t)
  exact hfold [] .nil

/-- Tickets of different ids are all kept. -/
theorem mem_collectTickets {tickets : List Ticket} (hnd : (tickets.map Ticket.id).Nodup)
    {x : Ticket} : x ∈ collectTickets tickets ↔ x ∈ tickets := by
  have hfold : ∀ (map : List Ticket), ById map → (∀ t ∈ tickets, ∀ u ∈ map, u.id ≠ t.id) →
      (x ∈ tickets.foldl (fun map t => insertTicket t map) map ↔ x ∈ map ∨ x ∈ tickets) := by
    induction tickets with
    | nil => simp
    | cons t ts ih =>
      intro map hmap hnew
      rw [List.map_cons, List.nodup_cons] at hnd
      have hnew' : ∀ u ∈ ts, ∀ y ∈ insertTicket t map, y.id ≠ u.id := by
        intro u hu y hy
        rcases (mem_insertTicket hmap).mp hy with rfl | hy
        · exact fun heq => hnd.1 (List.mem_map.mpr ⟨u, hu, heq.symm⟩)
        · exact hnew u (List.mem_cons_of_mem t hu) y hy.1
      have hold : x ∈ map → x.id ≠ t.id := hnew t List.mem_cons_self x
      rw [List.foldl_cons, ih hnd.2 _ (hmap.insertTicket t) hnew', mem_insertTicket hmap,
        List.mem_cons]
      tauto
  rw [collectTickets, hfold [] .nil (fun _ _ _ h => by cases h)]
  simp

/-! ## The board -/

/-- The active tickets and their edges. -/
structure Board where
  tickets : List Ticket
  byId : ById tickets
  /-- The `dep` targets of each ticket. -/
  deps : String → Finset String
  /-- The `parent` targets of each child. -/
  parents : String → Finset String
  /-- The children of each parent. -/
  children : String → Finset String

namespace Board

/-- `entry(key).or_default().insert(value)`. -/
def addTo (map : String → Finset String) (key value : String) : String → Finset String :=
  Function.update map key (insert value (map key))

/-- One edge of `Board::new`. -/
def addEdge (b : Board) (e : Edge) : Board :=
  match e.kind with
  | .dep => { b with deps := addTo b.deps e.fromId e.toId }
  | .parent =>
    { b with
      children := addTo b.children e.toId e.fromId
      parents := addTo b.parents e.fromId e.toId }
  | .contributesTo | .mentions => b

/-- `Board::new`. -/
def new (tickets : List Ticket) (edges : List Edge) : Board :=
  edges.foldl addEdge
    ⟨collectTickets tickets, byId_collectTickets tickets, fun _ => ∅, fun _ => ∅, fun _ => ∅⟩

/-- `active`. -/
def active (b : Board) (id : String) : Bool := b.tickets.any fun t => t.id == id

/-- `active_deps`. -/
def activeDeps (b : Board) (id : String) : List String := (b.deps id).sort.filter b.active

/-- The ids of the tickets, in order. -/
def ids (b : Board) : List String := b.tickets.map Ticket.id

theorem active_iff {b : Board} {id : String} : b.active id = true ↔ id ∈ b.ids := by
  simp [active, ids]

theorem mem_activeDeps {b : Board} {id dep : String} :
    dep ∈ b.activeDeps id ↔ dep ∈ b.deps id ∧ b.active dep = true := by
  simp [activeDeps]

/-- The successors of the ticket at an index, as indices. -/
def succ (b : Board) (v : Fin b.ids.length) : List (Fin b.ids.length) :=
  (b.activeDeps b.ids[v]).attach.map fun t =>
    ⟨b.ids.idxOf t.1, List.idxOf_lt_length_of_mem (active_iff.mp (mem_activeDeps.mp t.2).2)⟩

/-- `cyclic`: the active tickets on a `dep` cycle of active tickets. -/
def cyclic (b : Board) : Option (Finset String) :=
  (Tarjan.cyclicNodes b.succ).map fun nodes => nodes.image fun v => b.ids[v]

/-- The active children of a parent, in order. -/
def activeChildren (b : Board) (id : String) : List String :=
  (b.children id).sort.filter b.active

/-- `descendants`: every active descendant of `roots`, down the parent edges through active
tickets. The stack starts with the last root on top. -/
def descendants (b : Board) (roots : Finset String) : Option (Finset String) :=
  Worklist.search b.activeChildren (roots.card + b.tickets.length) roots.sort.reverse

/-! ## The lanes -/

/-- `held`. -/
def held (b : Board) (id : String) : Bool := (b.activeDeps id).head?.isSome

/-- `deferred_at`. -/
def deferredAt (now : String) (t : Ticket) : Bool := t.deferUntil.any fun d => decide (now < d)

/-- `blocked`, as a set. -/
def blockedIds (b : Board) (cyclic : Finset String) : Finset String :=
  ((b.tickets.filter fun t => !t.inProgress && (decide (t.id ∈ cyclic) || b.held t.id)).map
    Ticket.id).toFinset

/-- `deferred`, as a set. -/
def deferredIds (b : Board) (now : String) (blocked : Finset String) : Finset String :=
  ((b.tickets.filter fun t => !t.inProgress && (!decide (t.id ∈ blocked) && deferredAt now t)).map
    Ticket.id).toFinset

/-- closed-mask: an open ticket all of whose parents are not active rests. -/
def rests (b : Board) (t : Ticket) : Bool :=
  !t.inProgress && (decide ((b.parents t.id).Nonempty) &&
    (b.parents t.id).sort.all fun p => !b.active p)

/-- The filter of `actionable`. -/
def isActionable (b : Board) (now : String) (cyclic underBlocked underDeferred : Finset String)
    (t : Ticket) : Bool :=
  !decide (t.id ∈ cyclic) && !b.held t.id && !deferredAt now t &&
    !decide (t.id ∈ underBlocked) && !decide (t.id ∈ underDeferred) && !b.rests t

/-- `actionable`. -/
def actionable (b : Board) (now : String) (cyclic underBlocked underDeferred : Finset String) :
    List Ticket :=
  b.tickets.filter (b.isActionable now cyclic underBlocked underDeferred)

/-- The candidate of an actionable ticket. -/
def candidate (b : Board) (actionable : List Ticket) (t : Ticket) : Candidate where
  id := t.id
  inProgress := t.inProgress
  finishable := !(b.children t.id).sort.any b.active
  promoter :=
    if t.inProgress then none
    else (b.parents t.id).sort.find? fun p =>
      (actionable.find? fun u => u.id == p).any Ticket.inProgress

/-- The lanes, once the loops have returned. -/
def assemble (b : Board) (now : String) (cyclic underBlocked underDeferred : Finset String) :
    Lanes :=
  let blocked := b.blockedIds cyclic
  let actionable := b.actionable now cyclic underBlocked underDeferred
  let candidates := actionable.map (b.candidate actionable)
  { ready := (candidates.filter fun c => !c.inProgress).map Candidate.id
    inProgress := (candidates.filter Candidate.inProgress).map Candidate.id
    deferred := (b.deferredIds now blocked).sort
    blocked := blocked.sort
    suppressedByBlocked := underBlocked.sort
    suppressedByDeferredOnly := (underDeferred \ underBlocked).sort
    candidates := candidates }

/-- `Board::lanes`: derive every lane at `now`. -/
def lanes (b : Board) (now : String) : Option Lanes := do
  let cyclic ← b.cyclic
  let blocked := b.blockedIds cyclic
  let underBlocked ← b.descendants blocked
  let underDeferred ← b.descendants (b.deferredIds now blocked)
  return b.assemble now cyclic underBlocked underDeferred

/-! ## What `new` reads -/

theorem mem_addTo {map : String → Finset String} {key value x y : String} :
    y ∈ addTo map key value x ↔ y ∈ map x ∨ (x = key ∧ y = value) := by
  unfold addTo
  by_cases h : x = key
  · subst h
    simp [or_comm]
  · simp [h]

/-- The sets after a run of edges. -/
theorem mem_foldl_addEdge (edges : List Edge) (b : Board) (x y : String) :
    (y ∈ (edges.foldl addEdge b).deps x ↔ y ∈ b.deps x ∨ ⟨x, y, .dep⟩ ∈ edges) ∧
    (y ∈ (edges.foldl addEdge b).parents x ↔ y ∈ b.parents x ∨ ⟨x, y, .parent⟩ ∈ edges) ∧
    (y ∈ (edges.foldl addEdge b).children x ↔ y ∈ b.children x ∨ ⟨y, x, .parent⟩ ∈ edges) ∧
    (edges.foldl addEdge b).tickets = b.tickets := by
  induction edges generalizing b with
  | nil => simp
  | cons e edges ih =>
    obtain ⟨hdeps, hparents, hchildren, htickets⟩ := ih (b.addEdge e)
    rw [List.foldl_cons, hdeps, hparents, hchildren, htickets]
    obtain ⟨f, t, kind⟩ := e
    cases kind <;> simp [addEdge, mem_addTo, or_assoc, and_comm]

section New

variable {tickets : List Ticket} {edges : List Edge} {x y : String}

theorem mem_deps_new : y ∈ (new tickets edges).deps x ↔ ⟨x, y, .dep⟩ ∈ edges := by
  rw [new, (mem_foldl_addEdge edges _ x y).1]
  simp

theorem mem_parents_new : y ∈ (new tickets edges).parents x ↔ ⟨x, y, .parent⟩ ∈ edges := by
  rw [new, (mem_foldl_addEdge edges _ x y).2.1]
  simp

theorem mem_children_new : y ∈ (new tickets edges).children x ↔ ⟨y, x, .parent⟩ ∈ edges := by
  rw [new, (mem_foldl_addEdge edges _ x y).2.2.1]
  simp

theorem tickets_new : (new tickets edges).tickets = collectTickets tickets :=
  (mem_foldl_addEdge edges _ "" "").2.2.2

end New

/-! ## Cycles and descendants -/

/-- One dependency between active tickets. -/
def DependsOn (b : Board) (x y : String) : Prop := b.active x = true ∧ y ∈ b.activeDeps x

/-- `c` is an active child of `p`. -/
def HasChild (b : Board) (p c : String) : Prop := c ∈ b.children p ∧ b.active c = true

theorem nodup_ids (b : Board) : b.ids.Nodup := by
  rw [List.Nodup, ids, List.pairwise_map]
  exact b.byId.imp fun h => h.ne

theorem edge_succ_iff {b : Board} {v w : Fin b.ids.length} :
    Tarjan.Edge b.succ v w ↔ b.DependsOn b.ids[v] b.ids[w] := by
  have hact : b.active b.ids[v] = true := active_iff.mpr (List.getElem_mem _)
  simp only [Tarjan.Edge, succ, DependsOn, hact, true_and, List.mem_map, List.mem_attach,
    Subtype.exists]
  constructor
  · rintro ⟨t, ht, rfl⟩
    have hlt := List.idxOf_lt_length_of_mem (active_iff.mp (mem_activeDeps.mp ht).2)
    have hget : b.ids.get ⟨b.ids.idxOf t, hlt⟩ = t := List.getElem_idxOf hlt
    change b.ids.get ⟨b.ids.idxOf t, hlt⟩ ∈ _
    rw [hget]
    exact ht
  · intro h
    exact ⟨_, h, Fin.ext (b.nodup_ids.idxOf_getElem w.1 w.2)⟩

/-- A path of dependencies is a path of indices. -/
theorem transGen_dependsOn {b : Board} {v : Fin b.ids.length} {y : String}
    (h : TransGen b.DependsOn b.ids[v] y) :
    ∃ w : Fin b.ids.length, b.ids[w] = y ∧ TransGen (Tarjan.Edge b.succ) v w := by
  have hidx {x z : String} (hxz : b.DependsOn x z) : ∃ w : Fin b.ids.length, b.ids[w] = z := by
    obtain ⟨i, hi, heq⟩ := List.mem_iff_getElem.mp (active_iff.mp (mem_activeDeps.mp hxz.2).2)
    exact ⟨⟨i, hi⟩, heq⟩
  induction h with
  | single hstep =>
    obtain ⟨w, rfl⟩ := hidx hstep
    exact ⟨w, rfl, .single (edge_succ_iff.mpr hstep)⟩
  | tail _ hstep ih =>
    obtain ⟨u, rfl, hu⟩ := ih
    obtain ⟨w, rfl⟩ := hidx hstep
    exact ⟨w, rfl, hu.tail (edge_succ_iff.mpr hstep)⟩

/-- **The walk returns the tickets on a cycle**, and pops no empty stack. -/
theorem exists_cyclic (b : Board) :
    ∃ cyclic, b.cyclic = some cyclic ∧ ∀ x, x ∈ cyclic ↔ TransGen b.DependsOn x x := by
  obtain ⟨nodes, hnodes, hmem⟩ := Tarjan.cyclicNodes_eq b.succ
  refine ⟨nodes.image fun v => b.ids[v], by rw [Board.cyclic, hnodes, Option.map_some], fun x => ?_⟩
  rw [Finset.mem_image]
  constructor
  · rintro ⟨v, hv, rfl⟩
    exact ((hmem v).mp hv).lift (fun v => b.ids[v]) fun _ _ => edge_succ_iff.mp
  · intro h
    obtain ⟨y, hxy, _⟩ := TransGen.head'_iff.mp h
    obtain ⟨i, hi, rfl⟩ := List.mem_iff_getElem.mp (active_iff.mp hxy.1)
    obtain ⟨w, hw, hcyc⟩ := transGen_dependsOn (b := b) (v := ⟨i, hi⟩) h
    have hwv : w = ⟨i, hi⟩ := Fin.ext ((b.nodup_ids.getElem_inj_iff).mp hw)
    rw [hwv] at hcyc
    exact ⟨⟨i, hi⟩, (hmem _).mpr hcyc, rfl⟩

/-- **The walk finds exactly the cyclic tickets.** From every state it goes through with a ticket
open, the next turn does not fail and leaves fewer turns, so that the loop ends with no ticket
open. -/
theorem cyclic_finds_cycles (b : Board) :
    (∃ cyclic, b.cyclic = some cyclic ∧ ∀ t, t ∈ cyclic ↔ b.active t = true ∧
      TransGen (fun x y => b.active x = true ∧ b.active y = true ∧ y ∈ b.deps x) t t) ∧
    ∀ s, Tarjan.Reached b.succ s → s.frames ≠ [] →
      (∃ s', s.step b.succ = some s' ∧ s'.work b.succ < s.work b.succ) ∧
      ∃ s', Tarjan.State.loop b.succ (s.work b.succ) s = some s' ∧ s'.frames = [] := by
  constructor
  · obtain ⟨cyclic, hcyclic, hmem⟩ := b.exists_cyclic
    refine ⟨cyclic, hcyclic, fun t => ?_⟩
    have hedge : b.DependsOn = fun x y => b.active x = true ∧ b.active y = true ∧ y ∈ b.deps x := by
      funext x y
      rw [DependsOn, mem_activeDeps, and_comm (a := y ∈ b.deps x)]
    rw [hmem t, hedge]
    refine ⟨fun h => ⟨?_, h⟩, And.right⟩
    obtain ⟨y, hty, _⟩ := TransGen.head'_iff.mp h
    exact hty.1
  · intro s hs hne
    obtain ⟨t, ht, _, hlt, _⟩ := hs.inv.step hne
    obtain ⟨s', hs', _, hframes, _⟩ := hs.inv.loop le_rfl
    exact ⟨⟨t, ht, hlt⟩, s', hs', hframes⟩

theorem next_activeChildren {b : Board} : Worklist.Next b.activeChildren = b.HasChild := by
  funext p c
  simp [Worklist.Next, activeChildren, HasChild]

/-- **The worklist returns the active descendants.** -/
theorem exists_descendants (b : Board) (roots : Finset String) :
    ∃ out, b.descendants roots = some out ∧
      ∀ x, x ∈ out ↔ ∃ r ∈ roots, TransGen b.HasChild r x := by
  have hall : ∀ p, ∀ c ∈ b.activeChildren p, c ∈ b.ids.toFinset := by
    intro p c hc
    rw [List.mem_toFinset, ← active_iff]
    exact (List.mem_filter.mp hc).2
  have hfuel : roots.sort.reverse.length + b.ids.toFinset.card ≤
      roots.card + b.tickets.length := by
    rw [List.length_reverse, Finset.length_sort]
    refine Nat.add_le_add_left ((List.toFinset_card_le b.ids).trans ?_) _
    rw [ids, List.length_map]
  obtain ⟨out, hout, hmem⟩ := Worklist.search_eq hall hfuel
  refine ⟨out, hout, fun x => ?_⟩
  rw [hmem x, next_activeChildren]
  simp

/-- **The lanes are derived on every board**, from the tickets on a cycle and the descendants of the
blocked and of the deferred ones. -/
theorem exists_lanes (b : Board) (now : String) :
    ∃ cyclic underBlocked underDeferred,
      (∀ x, x ∈ cyclic ↔ TransGen b.DependsOn x x) ∧
      (∀ x, x ∈ underBlocked ↔ ∃ r ∈ b.blockedIds cyclic, TransGen b.HasChild r x) ∧
      (∀ x, x ∈ underDeferred ↔
        ∃ r ∈ b.deferredIds now (b.blockedIds cyclic), TransGen b.HasChild r x) ∧
      b.lanes now = some (b.assemble now cyclic underBlocked underDeferred) := by
  obtain ⟨cyclic, hcyclic, hc⟩ := b.exists_cyclic
  obtain ⟨underBlocked, hblocked, hub⟩ := b.exists_descendants (b.blockedIds cyclic)
  obtain ⟨underDeferred, hdeferred, hud⟩ :=
    b.exists_descendants (b.deferredIds now (b.blockedIds cyclic))
  refine ⟨cyclic, underBlocked, underDeferred, hc, hub, hud, ?_⟩
  simp [lanes, hcyclic, hblocked, hdeferred]

end Board

end NexusFlow.Core.Graph
