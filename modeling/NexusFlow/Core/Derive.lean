import NexusFlow.Core.Graph
import NexusFlow.Core.Store
import NexusFlow.Lib.BoundedWalk

/-!
# The lanes as queries

Model of `crates/core/src/derive.rs:74-379` and of `graph::select`: the same lanes read off the
`items` table and the `present_edges` view with SQL.

* A query is a filter over the rows, each common table expression a definition. A condition that a
  `NULL` makes `NULL` does not hold, so `defer_until > ?1` is `Option.any` and `status<>'open'` asks
  for a status.
* `walk` is the recursive query with a depth (`UNION ALL`), `suppressed` and its halves are the ones
  that drop the rows they have (`UNION`): `Worklist.recursiveUnion` on as much fuel as there are
  active ids, `none` if that did not last.
* `id` is the primary key of `items`, which is the field `BoardViews.ids`. `BoardViews.ofDb` reads
  the two off the tables a store folds its ops into.
-/

namespace NexusFlow.Core

open NexusFlow.Foundation NexusFlow.Lib

/-- What the queries read of an `items` row. -/
structure ItemRow where
  id : String
  status : Option String
  deferUntil : Option String
  deleted : Option String
  archived : Option String
  deriving DecidableEq, Repr

/-- A row of `present_edges`. -/
structure EdgeRow where
  fromId : String
  toId : String
  kind : String
  deriving DecidableEq, Repr

/-- The content of the item and present-edge views. -/
structure BoardViews where
  items : List ItemRow
  edges : List EdgeRow
  ids : (items.map ItemRow.id).Nodup

/-- `ACTIVE_SQL` without its last condition: not deleted, not archived. -/
def ItemRow.isLive (i : ItemRow) : Bool := i.deleted.getD "0" != "1" && i.archived.isNone

/-- `ACTIVE_SQL`. -/
def ItemRow.isActive (i : ItemRow) : Bool :=
  i.isLive && [some "open", some "in_progress"].contains i.status

namespace BoardViews

/-! ## The views of a store -/

/-- A row of `items`, under its primary key. -/
def itemOf (e : Entry) : Option ItemRow :=
  if e.table = "items" then
    match e.key with
    | [("id", .text id)] => some {
        id := id
        status := cellText (e.row "status")
        deferUntil := cellText (e.row "defer_until")
        deleted := cellText (e.row "deleted")
        archived := cellText (e.row "archived") }
    | _ => none
  else none

/-- The view `present_edges`: the adds no remove names. -/
def presentEdges (db : Db) : List EdgeRow :=
  let removed := (db.scan "edge_removes").filterMap fun row => cellText (row "tag")
  let present := (db.scan "edge_adds").filter fun row =>
    !removed.any fun tag => row "tag" == .text tag
  (present.filterMap fun row => do
    return ⟨← cellText (row "from_id"), ← cellText (row "to_id"), ← cellText (row "kind")⟩).dedup

theorem itemOf_eq_some {e : Entry} {i : ItemRow} (h : itemOf e = some i) :
    e.table = "items" ∧ e.key = [("id", .text i.id)] := by
  unfold itemOf at h
  split_ifs at h with ht
  split at h
  · next hk =>
    cases h
    exact ⟨ht, hk⟩
  · cases h

/-- The views of a store. -/
def ofDb (db : Db) : BoardViews where
  items := db.rows.filterMap itemOf
  edges := presentEdges db
  ids := by
    have hnd := db.nodup
    rw [List.Nodup, List.pairwise_map] at hnd ⊢
    rw [List.pairwise_filterMap]
    refine hnd.imp fun hne i hi j hj hij => hne ?_
    obtain ⟨hti, hki⟩ := itemOf_eq_some hi
    obtain ⟨htj, hkj⟩ := itemOf_eq_some hj
    rw [hti, htj, hki, hkj, hij]

/-! ## Active tickets and cycles -/

/-- `active(id)`. -/
def active (v : BoardViews) : List String := (v.items.filter ItemRow.isActive).map ItemRow.id

/-- `edges(f, t)`: the dependencies between active tickets. -/
def depEdges (v : BoardViews) : List (String × String) :=
  (v.edges.filter fun e =>
    e.kind == "dep" && v.active.contains e.fromId && v.active.contains e.toId).map
    fun e => (e.fromId, e.toId)

/-- `cyclic(id)`: `SELECT DISTINCT start FROM walk WHERE node = start`. -/
def cyclic (v : BoardViews) : List String :=
  (((BoundedWalk.walk v.depEdges).filter fun w => w.2 == w.1).map Prod.fst).dedup

/-- `EXISTS (SELECT 1 FROM present_edges d WHERE d.from_id=i.id AND d.kind='dep' AND d.to_id IN
(SELECT id FROM active))`. -/
def hasActiveDep (v : BoardViews) (id : String) : Bool :=
  v.edges.any fun d => d.fromId == id && d.kind == "dep" && v.active.contains d.toId

/-! ## Gating and suppression -/

/-- The rows both gating queries start from: live and open. -/
def isOpen (i : ItemRow) : Bool := i.isLive && i.status == some "open"

/-- `i.defer_until > ?1`. -/
def isDeferred (now : String) (i : ItemRow) : Bool := i.deferUntil.any fun d => decide (now < d)

/-- `blocked_gating(id)`. -/
def blockedGating (v : BoardViews) : List String :=
  (v.items.filter fun i =>
    isOpen i && (v.cyclic.contains i.id || v.hasActiveDep i.id)).map ItemRow.id

/-- `deferred_gating(id)`. -/
def deferredGating (v : BoardViews) (now : String) : List String :=
  (v.items.filter fun i =>
    isOpen i && isDeferred now i && !v.cyclic.contains i.id && !v.hasActiveDep i.id).map ItemRow.id

/-- The active children of the ids that `gates` picks, one row for each edge. -/
def childrenOf (v : BoardViews) (gates : String → Bool) : List String :=
  (v.edges.filter fun e =>
    e.kind == "parent" && v.active.contains e.fromId && gates e.toId).map EdgeRow.fromId

/-- The recursive queries down the parent edges: `sb` and `sd` from one half of the gating set,
`suppressed` from both. -/
def under (v : BoardViews) (gates : String → Bool) : Option (Finset String) :=
  Worklist.recursiveUnion (fun id => v.childrenOf fun p => p == id) v.active.length
    (v.childrenOf gates)

/-- `suppressed(id)`. -/
def suppressed (v : BoardViews) (now : String) : Option (Finset String) :=
  v.under fun p => v.blockedGating.contains p || (v.deferredGating now).contains p

/-! ## Actionable items -/

/-- The closed-mask: the item has a parent and no active one. -/
def isMasked (v : BoardViews) (id : String) : Bool :=
  (v.edges.any fun pe => pe.fromId == id && pe.kind == "parent") &&
    !v.edges.any fun pe => pe.fromId == id && pe.kind == "parent" && v.active.contains pe.toId

/-- The filter of `actionable_items`. -/
def isActionable (v : BoardViews) (now : String) (suppressed : Finset String) (i : ItemRow) :
    Bool :=
  i.isLive && !v.cyclic.contains i.id && !decide (i.id ∈ suppressed) &&
    (i.deferUntil.all fun d => decide (d ≤ now)) &&
    ((i.status.any fun s => s != "open") || !v.isMasked i.id) && !v.hasActiveDep i.id

/-- `actionable_items(id, status)`, once `suppressed` has returned. -/
def actionableItems (v : BoardViews) (now : String) (suppressed : Finset String) : List ItemRow :=
  v.items.filter (v.isActionable now suppressed)

/-- `ORDER BY id`. -/
def orderById (ids : List String) : List String := ids.insertionSort (· ≤ ·)

end BoardViews

namespace Derive

variable (v : BoardViews) (now : String)

open BoardViews

/-- `actionable`. -/
def actionable (status : String) : Option (List String) := do
  let suppressed ← v.suppressed now
  return orderById (((v.actionableItems now suppressed).filter fun i =>
    i.status == some status).map ItemRow.id)

/-- `derive::ready`. -/
def ready : Option (List String) := actionable v now "open"

/-- `derive::in_progress`. -/
def inProgress : Option (List String) := actionable v now "in_progress"

/-- `derive::deferred`. -/
def deferred : List String :=
  orderById ((v.items.filter fun i =>
    isOpen i && !v.cyclic.contains i.id && i.deferUntil.isSome && isDeferred now i &&
      !v.hasActiveDep i.id).map ItemRow.id)

/-- `derive::blocked`. -/
def blocked : List String :=
  orderById ((v.items.filter fun i =>
    isOpen i && (v.cyclic.contains i.id || v.hasActiveDep i.id)).map ItemRow.id)

/-- `derive::suppressed_by_blocked`. -/
def suppressedByBlocked : Option (List String) := do
  let sb ← v.under v.blockedGating.contains
  return orderById ((v.items.filter fun i => decide (i.id ∈ sb) && i.isActive).map ItemRow.id)

/-- `derive::suppressed_by_deferred_only`. -/
def suppressedByDeferredOnly : Option (List String) := do
  let sb ← v.under v.blockedGating.contains
  let sd ← v.under (v.deferredGating now).contains
  return orderById ((v.items.filter fun i =>
    decide (i.id ∈ sd) && !decide (i.id ∈ sb) && i.isActive).map ItemRow.id)

/-- The row `next_candidates` returns. -/
structure NextCandidate where
  id : String
  status : String
  finishable : Bool
  promoter : Option String
  deriving DecidableEq, Repr

/-- `SELECT MIN(e.to_id) …`: the smallest actionable in-progress parent. -/
def minPromoter (actionableItems : List ItemRow) (id : String) : Option String :=
  let headers := (actionableItems.filter fun i => i.status == some "in_progress").map ItemRow.id
  ((v.edges.filter fun e =>
    e.kind == "parent" && e.fromId == id && headers.contains e.toId).map EdgeRow.toId).min?

/-- The row of an actionable item. -/
def nextCandidate (actionableItems : List ItemRow) (a : ItemRow) : NextCandidate where
  id := a.id
  status := a.status.getD ""
  finishable := !v.edges.any fun c =>
    c.toId == a.id && c.kind == "parent" && v.active.contains c.fromId
  promoter := if a.status = some "open" then minPromoter v actionableItems a.id else none

/-- `derive::next_candidates`. -/
def nextCandidates : Option (List NextCandidate) := do
  let suppressed ← v.suppressed now
  let items := v.actionableItems now suppressed
  let rows := (items.filter fun a => [some "open", some "in_progress"].contains a.status).map
    (nextCandidate v items)
  return rows.insertionSort fun a b => a.id ≤ b.id

end Derive

namespace Graph

/-- The ticket of an active row. -/
def ticketOf (i : ItemRow) : Ticket := ⟨i.id, i.status == some "in_progress", i.deferUntil⟩

/-- The first statement of `graph::select`: the active tickets. -/
def selectTickets (v : BoardViews) : List Ticket := (v.items.filter ItemRow.isActive).map ticketOf

/-- The second: the present edges of the two kinds that touch an active ticket. -/
def selectEdges (v : BoardViews) : List Edge :=
  let active := (selectTickets v).map Ticket.id
  ((v.edges.filter fun e => e.kind == "dep" || e.kind == "parent").filter fun e =>
      active.contains e.fromId || active.contains e.toId).filterMap fun e =>
    (EdgeKind.parse e.kind).map fun kind => ⟨e.fromId, e.toId, kind⟩

/-- `graph::select`. -/
def select (v : BoardViews) : Board := Board.new (selectTickets v) (selectEdges v)

end Graph

end NexusFlow.Core
