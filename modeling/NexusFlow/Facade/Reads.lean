import NexusFlow.Core.TagTables
import NexusFlow.Facade.Plugin
import NexusFlow.Lib.Fallible

/-!
# What a facade write reads

Model of the reads of `crates/core/src/store.rs:606-760,1601-1718` a write makes, of the walks over
them (`crates/facade/src/write.rs:104-168,719-752,1500-1555`) and of the ids it mints
(`crates/core/src/id.rs`).

A walk that the source bounds by the set of what it has seen runs on fuel, which the caller gives
(`Env.fuel`): `none` is a walk that has not ended. What is proved of a call is proved for any fuel.
-/

namespace NexusFlow.Facade

open NexusFlow.Core NexusFlow.Foundation NexusFlow.Lib

/-- `ItemRow`, the materialized record. -/
structure ItemRow where
  id : String
  itemType : Option String
  title : Option String
  completionCriterion : Option String
  description : Option String
  design : Option String
  status : Option String
  priority : Option String
  due : Option String
  deferUntil : Option String
  assignee : Option String
  belongsTo : Option String
  closingComment : Option String
  deleted : Option String
  archived : Option String
  closedAt : Option String
  deriving DecidableEq, Repr

/-- `(COALESCE(lamport, -1), COALESCE(site, -1), to_id)`. -/
def parentRank (row : Row) : ℤ ×ₗ ℤ ×ₗ String :=
  toLex ((row "lamport").int?.getD (-1), toLex ((row "site").int?.getD (-1),
    (cellText (row "to_id")).getD ""))

/-- The view `present_parent`, for one child: its present parent edge of the highest rank. -/
def presentParent (db : Db) (child : String) : Option String :=
  let present := (db.scan "edge_adds").filter fun row =>
    row "from_id" == .text child && row "kind" == .text EdgeKind.parent.asStr &&
      !(removedTags "edge_removes" db).any fun tag => row "tag" == .text tag
  ((present.find? fun a => !present.any fun b => decide (parentRank a < parentRank b)).bind
    fun row => cellText (row "to_id"))

/-- `get_item`. -/
def getItem (db : Db) (id : String) : Option ItemRow :=
  (db.get "items" (itemKey id)).map fun row => {
    id := id
    itemType := cellText (row "type")
    title := cellText (row "title")
    completionCriterion := cellText (row "completion_criterion")
    description := cellText (row "description")
    design := cellText (row "design")
    status := cellText (row "status")
    priority := cellText (row "priority")
    due := cellText (row "due")
    deferUntil := cellText (row "defer_until")
    assignee := cellText (row "assignee")
    belongsTo := presentParent db id
    closingComment := cellText (row "closing_comment")
    deleted := cellText (row "deleted")
    archived := cellText (row "archived")
    closedAt := cellText (row "closed_at") }

/-! ## `present_parent`, joined -/

/-- The rows of `edge_adds` that hold a live parent edge. -/
def liveParents (db : Db) : List Row :=
  (db.scan "edge_adds").filter fun row => row "kind" == .text EdgeKind.parent.asStr &&
    !(removedTags "edge_removes" db).any fun tag => row "tag" == .text tag

/-- Those that no live parent edge of the same child outranks. -/
def highestParents (db : Db) : List Row :=
  (liveParents db).filter fun a => !(liveParents db).any fun b =>
    b "from_id" == a "from_id" && decide (parentRank a < parentRank b)

/-- The text of a `NOT NULL` column. -/
def columnText (row : Row) (column : String) : String := (cellText (row column)).getD ""

/-- The view `present_parent`: child and parent. -/
def presentParentRows (db : Db) : List (String × String) :=
  (highestParents db).map fun row => (columnText row "from_id", columnText row "to_id")

/-- The parents the view gives a child. -/
def parentsIn (db : Db) (child : String) : List String :=
  ((presentParentRows db).filter fun e => e.1 == child).map Prod.snd

/-- What a left join on the child yields: a row for each parent, or one without. -/
def joinedParents (db : Db) (child : String) : List (Option String) :=
  if (parentsIn db child).isEmpty then [none] else (parentsIn db child).map some

/-- The rows of `items LEFT JOIN present_parent` with the id. -/
def itemRows (db : Db) (id : String) : List ItemRow :=
  (getItem db id).toList.flatMap fun item =>
    (joinedParents db id).map fun parent => { item with belongsTo := parent }

/-- The ids of `items`, in order. -/
def itemIds (db : Db) : List String :=
  ((db.scan "items").filterMap fun row => cellText (row "id")).insertionSort (· ≤ ·)

/-- `list_items`. -/
def listItems (db : Db) : List ItemRow := (itemIds db).flatMap (itemRows db)

/-! ## Live items and their relations -/

/-- The row is not a tombstone. -/
def ItemRow.isLive (i : ItemRow) : Bool := i.deleted != some "1"

/-- `get_item(…)?.filter(…)`: a live item. -/
def liveItem (db : Db) (id : String) : Option ItemRow := (getItem db id).filter ItemRow.isLive

/-- `parents_of`. -/
def parentsOf (db : Db) (child : String) : List String := targetsOf child .parent db

/-- `deps_of`. -/
def depsOf (db : Db) (id : String) : List String := targetsOf id .dep db

/-- `children_of`: sorted. -/
def childrenOf (db : Db) (parent : String) : List String :=
  ((BoardViews.presentEdges db).filterMap fun e =>
    if e.toId = parent ∧ e.kind = EdgeKind.parent.asStr then some e.fromId else none).insertionSort
      (· ≤ ·)

/-! ## Walks -/

section Walks

variable {α : Type} [DecidableEq α]

/-- `reaches`: a stack, its last element first here, and the set of what was taken off it. -/
def reaches (next : α → List α) (target : α) : Nat → List α → List α → Option Bool
  | _, [], _ => some false
  | 0, _ :: _, _ => none
  | fuel + 1, node :: stack, seen =>
    if node = target then some true
    else if seen.contains node then reaches next target fuel stack seen
    else reaches next target fuel ((next node).reverse ++ stack) (node :: seen)

/-- `longest_chain`: the items on the longest chain from `id`, with what has been worked out so
far. -/
def longestChain (next : α → List α) : Nat → List α → List (α × Nat) → α →
    Option (Nat × List (α × Nat))
  | fuel, onStack, memo, id =>
    match memo.lookup id with
    | some h => some (h, memo)
    | none =>
      if onStack.contains id then some (0, memo)
      else match fuel with
        | 0 => none
        | fuel + 1 => do
          let (tallestChild, memo) ← (next id).foldlM
            (fun acc n => do
              let (h, memo) ← longestChain next fuel (id :: onStack) acc.2 n
              pure (max acc.1 h, memo)) (0, memo)
          pure (1 + tallestChild, (id, 1 + tallestChild) :: memo)

/-- The walk of `live_descendants`: each element's children in turn, each noted when it is first
met. -/
def descend (children : α → List α) : Nat → List α → List α → List α → Option (List α)
  | _, [], _, out => some out
  | 0, _ :: _, _, _ => none
  | fuel + 1, parent :: frontier, seen, out =>
    let found := ((children parent).dedup).filter fun c => !seen.contains c
    descend children fuel (found.reverse ++ frontier) (found ++ seen) (out ++ found)

end Walks

/-- `depth_above`. -/
def depthAbove (fuel : Nat) (db : Db) (id : String) : Option Nat :=
  (longestChain (parentsOf db) fuel [] [] id).map Prod.fst

/-- `height_below`. -/
def heightBelow (fuel : Nat) (db : Db) (id : String) : Option Nat :=
  (longestChain (childrenOf db) fuel [] [] id).map Prod.fst

/-- `live_descendants`. -/
def liveDescendants (fuel : Nat) (db : Db) (root : String) : Option (List ItemRow) :=
  let live := (listItems db).filter ItemRow.isLive
  let children := fun parent => (live.filter fun i => i.belongsTo == some parent).map ItemRow.id
  (descend children fuel [root] [root] []).map fun ids =>
    ids.filterMap fun id => live.find? fun i => i.id == id

/-- `live_ancestors`: up the present parents, to the first that is missing, deleted or seen. -/
def liveAncestors (db : Db) : Nat → List String → Option String → Option (List ItemRow)
  | _, _, none => some []
  | 0, _, some _ => none
  | fuel + 1, seen, some pid =>
    if seen.contains pid then some []
    else match liveItem db pid with
      | none => some []
      | some parent => do
        return parent :: (← liveAncestors db fuel (pid :: seen) parent.belongsTo)

/-! ## Ids -/

/-- `MINT_ATTEMPTS`. -/
def mintAttempts : Nat := 64

/-- `ReplicaIds::mint_unique`: the first of 64 candidates that is free; `suffixes` are the random
ones. -/
def mintUnique (pre : String) (suffixes : Nat → String) (isTaken : String → Bool) : Option String :=
  ((List.range mintAttempts).map fun n => s!"{pre}.{suffixes n}").find? fun id => !isTaken id

/-- `ReplicaIds::nth_id`: four digits, zero-padded. -/
def nthId (pre : String) (n : Nat) : String :=
  s!"{pre}." ++ String.ofList (List.replicate (4 - (toString n).length) '0') ++ toString n

/-- `ReplicaIds::mint_sequential`. -/
def mintSequential (pre : String) (isTaken : String → Bool) : Option String :=
  (((List.range 9999).map fun n => nthId pre (n + 1)).find? fun id => !isTaken id)

/-! ## The write seam's monad -/

/-- A write verb. -/
abbrev Verb (α : Type) : Type := Fallible Store NxfError α

/-- What a call runs with: the date library, the fuel of its walks, whether ids are deterministic,
and the random suffixes it draws. -/
structure Env where
  calendar : Calendar
  fuel : Nat
  deterministicIds : Bool
  suffixes : Nat → String

namespace Verb

open Fallible

/-- A read. -/
def look {α : Type} (query : Db → α) : Verb α := gets fun s => query s.file.views

/-- A read whose walk has ended. -/
def walk {α : Type} (query : Db → Option α) : Verb α := do
  match ← look query with
  | some a => pure a
  | none => unreachable

/-- A store write. -/
def write {α : Type} (m : Write α) : Verb α := lift m

/-- A check of the views. -/
def checked {α : Type} (query : Db → Result α) : Verb α := do
  ofExcept (← look query)

end Verb

end NexusFlow.Facade
