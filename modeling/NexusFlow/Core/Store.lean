import Mathlib.Data.String.Basic
import Mathlib.Logic.Relation
import NexusFlow.Core.TaskFold

/-!
# flow's store: opening and local writes

Model of `crates/core/src/store.rs:122-600,889-1110,1224-1250,1675-1778`: how flow binds its views
to the shared log, and every local write. A write is a series of `emit_task` calls, each its own
transaction, between reads of the views.

`Write` is Rust's `&mut self` with panics: the state stays where it was when an `assert!` fails, so
what was emitted before it is in the log. `Emitting` is the rule all writes obey (`emitting_run`):
whatever a local write does, it moves the store along emits only.

Opening migrates legacy `belongs_to` ops; a fresh log holds none, so `openInMemory` leaves that step
out.
-/

namespace NexusFlow.Core

open NexusFlow.Foundation

/-- `FLOW_VIEWS`. -/
def flowViews : String := "flow"

/-- `Store::open_in_memory`: the substrate with flow's reducer, bound to flow's views. -/
def openInMemory (site : Int) (key : ReplicaKey) (ulids : Nat → String) : Option Store :=
  (((Store.openInMemory site key ulids).registerReducer taskReducer).refoldIfBehind
    flowViews).toOption

/-- A flow store just opened on a fresh file. -/
def freshStore (site : Int) (key : ReplicaKey) (ulids : Nat → String) : Store where
  handle := ⟨site, 0, "", [taskReducer], some flowViews, key, ulids, 0⟩
  file := { File.fresh with
    watermarks := Function.update (fun _ => none) flowViews (some ⟨0, 3, 0⟩)
    trustedKeys := [key.keyId] }

theorem openInMemory_eq (site : Int) (key : ReplicaKey) (ulids : Nat → String) :
    openInMemory site key ulids = some (freshStore site key ulids) := rfl

/-! ## The write monad -/

/-- A computation on the store that may panic. -/
def Write (α : Type) : Type := Store → Option α × Store

instance : Monad Write where
  pure a := fun s => (some a, s)
  bind m k := fun s => match m s with
    | (some a, s) => k a s
    | (none, s) => (none, s)

/-- `assert!`. -/
def assert (b : Bool) : Write Unit := fun s => (if b then some () else none, s)

/-- A read of the views. -/
def read {α : Type} (query : Db → α) : Write α := fun s => (some (query s.file.views), s)

/-- `emit_task`: one local op of the `task` domain; the op id. -/
def emitTask (targetKind targetId field opType : String) (value : Option String)
    (author : String) : Write String := fun s =>
  match s.emit ⟨domainTask, targetKind, .given targetId, field, opType, value, author⟩ with
  | some (opId, s) => (some opId, s)
  | none => (none, s)

/-! ## Reads a write makes -/

/-- The text a cell holds. -/
def cellText : Cell → Option String
  | .text s => some s
  | _ => none

theorem cellText_iff {c : Cell} {s : String} : cellText c = some s ↔ c = .text s := by
  cases c <;> simp [cellText]

/-- `SELECT tag FROM … WHERE <p> AND NOT EXISTS (SELECT 1 FROM <removes> …)`. The query names no
order; the rows come as they were inserted. -/
def liveTags (adds removes : String) (p : Row → Bool) (db : Db) : List String :=
  let removed := (db.scan removes).filterMap fun row => cellText (row "tag")
  ((db.scan adds).filter p).filterMap (fun row => cellText (row "tag"))
    |>.filter fun tag => !removed.contains tag

/-- `live_entry_tags`. -/
def liveEntryTags (itemId field : String) (value : Option String) (db : Db) : List String :=
  let rows := (db.scan "field_entries").filter fun row =>
    row "item_id" == .text itemId && row "field" == .text field &&
      (match value with
        | none => true
        | some v => row "value" == .text v) &&
      row "value" != .null && (row "removed" == .null || row "removed" == .int 0)
  ((rows.filterMap fun row => cellText (row "tag")).insertionSort (· ≤ ·)).filter
    fun tag => !hasChar sep tag

/-- The key of an item's row. -/
def itemKey (id : String) : Cells := [("id", .text id)]

/-- `targets_of`: the present endpoints, sorted. -/
def targetsOf (fromId : String) (kind : EdgeKind) (db : Db) : List String :=
  let removed := (db.scan "edge_removes").filterMap fun row => cellText (row "tag")
  let present := (db.scan "edge_adds").filter fun row =>
    row "from_id" == .text fromId && row "kind" == .text kind.asStr &&
      !removed.any fun tag => row "tag" == .text tag
  ((present.filterMap fun row => cellText (row "to_id")).dedup).insertionSort (· ≤ ·)

/-! ## Local writes -/

/-- `edge_target`. -/
def edgeTarget (fromId toId : String) (kind : EdgeKind) : Write String := do
  assert (!hasChar sep fromId && !hasChar sep toId)
  pure (joinChar sep [fromId, toId, kind.asStr])

/-- `label_target`. -/
def labelTarget (itemId label : String) : Write String := do
  assert (!hasChar sep itemId && !hasChar sep label)
  pure (joinChar sep [itemId, label])

/-- `thread_link_target`. -/
def threadLinkTarget (threadId itemId : String) (relation : LinkRelation) (weight : LinkWeight) :
    Write String := do
  assert (!hasChar sep threadId && !hasChar sep itemId)
  pure (joinChar sep [threadId, itemId, relation.asStr, weight.asStr])

/-- `create_item`. -/
def createItem (id ty title author : String) : Write Unit := do
  assert (!hasChar sep id)
  let _ ← emitTask "item" id "type" "set" (some ty) author
  let _ ← emitTask "item" id "title" "set" (some title) author
  let _ ← emitTask "item" id "status" "set" (some Status.open.asStr) author

/-- `set_field_merge`. -/
def setFieldMerge (id field : String) (value : Option String) (author : String)
    (strategy : MergeStrategy) : Write Unit := do
  assert (itemLwwFields.contains field)
  let _ ← emitTask "item" id field strategy.itemSetOpType value author

/-- `set_custom_field_merge`. -/
def setCustomFieldMerge (id field : String) (value : Option String) (author : String)
    (strategy : MergeStrategy) : Write Unit := do
  let _ ← emitTask "field" id field strategy.itemSetOpType value author

/-- `add_field_entry`. -/
def addFieldEntry (itemId field value : String) (label : Option String) (author : String) :
    Write String := do
  assert (value != "" && !hasChar sep value && match label with
    | some l => l != "" && !hasChar sep l
    | none => true)
  emitTask "field" itemId field "add" (some (entryValue value label)) author

/-- `emit_entry_removes`: one remove op per `MAX_ENTRY_TAGS` tags. -/
def emitEntryRemoves (itemId field : String) (tags : List String) (author : String) : Write Unit :=
  (tags.toChunks maxEntryTags).forM fun chunk => do
    let _ ← emitTask "field" itemId field "remove" (some (joinChar sep chunk)) author

/-- `remove_field_entry`. -/
def removeFieldEntry (itemId field value author : String) : Write Unit := do
  let tags ← read (liveEntryTags itemId field (some value))
  emitEntryRemoves itemId field tags author

/-- `clear_field_entries`. -/
def clearFieldEntries (itemId field author : String) : Write Unit := do
  let tags ← read (liveEntryTags itemId field none)
  emitEntryRemoves itemId field tags author

/-- `delete_item`. -/
def deleteItem (id author : String) : Write Unit := do
  let _ ← emitTask "item" id "deleted" "set" (some "1") author

/-- `add_edge`. -/
def addEdge (fromId toId : String) (kind : EdgeKind) (author : String) : Write Unit := do
  let target ← edgeTarget fromId toId kind
  let _ ← emitTask "edge" target "present" "add" none author

/-- `remove_edge`: tombstone every live add tag of the element. -/
def removeEdge (fromId toId : String) (kind : EdgeKind) (author : String) : Write Unit := do
  let tags ← read (liveTags "edge_adds" "edge_removes" fun row =>
    row "from_id" == .text fromId && row "to_id" == .text toId && row "kind" == .text kind.asStr)
  if tags.isEmpty then pure ()
  else
    let target ← edgeTarget fromId toId kind
    let _ ← emitTask "edge" target "present" "remove" (some (joinChar sep tags)) author

/-- `add_thread_link`. -/
def addThreadLink (threadId itemId : String) (relation : LinkRelation) (weight : LinkWeight)
    (author : String) : Write Unit := do
  let target ← threadLinkTarget threadId itemId relation weight
  let _ ← emitTask "thread_link" target "present" "add" none author

/-- `remove_thread_link`: keyed on the pair alone. -/
def removeThreadLink (threadId itemId author : String) : Write Unit := do
  let tags ← read (liveTags "thread_link_adds" "thread_link_removes" fun row =>
    row "thread_id" == .text threadId && row "item_id" == .text itemId)
  if tags.isEmpty then pure ()
  else
    let target ← threadLinkTarget threadId itemId .workedOn .bearing
    let _ ← emitTask "thread_link" target "present" "remove" (some (joinChar sep tags)) author

/-- `add_label`. -/
def addLabel (itemId label author : String) : Write Unit := do
  let target ← labelTarget itemId label
  let _ ← emitTask "label" target "present" "add" none author

/-- `remove_label`. -/
def removeLabel (itemId label author : String) : Write Unit := do
  let tags ← read (liveTags "label_adds" "label_removes" fun row =>
    row "item_id" == .text itemId && row "label" == .text label)
  if tags.isEmpty then pure ()
  else
    let target ← labelTarget itemId label
    let _ ← emitTask "label" target "present" "remove" (some (joinChar sep tags)) author

/-- `clear_parent`. -/
def clearParent (child author : String) : Write Unit := do
  let parents ← read (targetsOf child .parent)
  parents.forM fun parent => removeEdge child parent .parent author

/-- `set_parent`. -/
def setParent (child parent author : String) : Write Unit := do
  clearParent child author
  addEdge child parent .parent author

/-- `add_note`. -/
def addNote (itemId body author : String) : Write String :=
  emitTask "note" itemId "body" "note_add" (some body) author

/-- `redact_note`. -/
def redactNote (noteId author : String) : Write Unit := do
  let _ ← emitTask "note" noteId "deleted" "set" (some "1") author

/-- `append_chunk`. -/
def appendChunk (itemId field payload author : String) : Write String :=
  emitTask "chunk" itemId field "append" (some payload) author

/-- `supersede_chunks`. -/
def supersedeChunks (itemId field : String) (replaced : List String) (payload author : String) :
    Write String := do
  assert (!replaced.isEmpty && replaced.all isValidChunkId)
  emitTask "chunk" itemId field "supersede" (some (supersedeValue replaced payload)) author

/-- `set_wall_clock`. -/
def setWallClock (now : String) : Write Unit := fun s =>
  (some (), { s with handle := { s.handle with wallClock := now } })

/-- The local writes of a flow store. -/
inductive LocalWrite
  | createItem (id ty title author : String)
  | setField (id field : String) (value : Option String) (author : String) (m : MergeStrategy)
  | setCustomField (id field : String) (value : Option String) (author : String)
      (m : MergeStrategy)
  | addFieldEntry (itemId field value : String) (label : Option String) (author : String)
  | removeFieldEntry (itemId field value author : String)
  | clearFieldEntries (itemId field author : String)
  | deleteItem (id author : String)
  | addEdge (fromId toId : String) (kind : EdgeKind) (author : String)
  | removeEdge (fromId toId : String) (kind : EdgeKind) (author : String)
  | addThreadLink (threadId itemId : String) (relation : LinkRelation) (weight : LinkWeight)
      (author : String)
  | removeThreadLink (threadId itemId author : String)
  | addLabel (itemId label author : String)
  | removeLabel (itemId label author : String)
  | setParent (child parent author : String)
  | clearParent (child author : String)
  | addNote (itemId body author : String)
  | redactNote (noteId author : String)
  | appendChunk (itemId field payload author : String)
  | supersedeChunks (itemId field : String) (replaced : List String) (payload author : String)
  | setWallClock (now : String)

/-- The store after a local write; where the write panics, what it did until then. -/
def LocalWrite.run : LocalWrite → Store → Store
  | .createItem id ty title author, s => (Core.createItem id ty title author s).2
  | .setField id field value author m, s => (setFieldMerge id field value author m s).2
  | .setCustomField id field value author m, s => (setCustomFieldMerge id field value author m s).2
  | .addFieldEntry itemId field value label author, s =>
    (Core.addFieldEntry itemId field value label author s).2
  | .removeFieldEntry itemId field value author, s =>
    (Core.removeFieldEntry itemId field value author s).2
  | .clearFieldEntries itemId field author, s => (Core.clearFieldEntries itemId field author s).2
  | .deleteItem id author, s => (Core.deleteItem id author s).2
  | .addEdge fromId toId kind author, s => (Core.addEdge fromId toId kind author s).2
  | .removeEdge fromId toId kind author, s => (Core.removeEdge fromId toId kind author s).2
  | .addThreadLink threadId itemId relation weight author, s =>
    (Core.addThreadLink threadId itemId relation weight author s).2
  | .removeThreadLink threadId itemId author, s => (Core.removeThreadLink threadId itemId author s).2
  | .addLabel itemId label author, s => (Core.addLabel itemId label author s).2
  | .removeLabel itemId label author, s => (Core.removeLabel itemId label author s).2
  | .setParent child parent author, s => (Core.setParent child parent author s).2
  | .clearParent child author, s => (Core.clearParent child author s).2
  | .addNote itemId body author, s => (Core.addNote itemId body author s).2
  | .redactNote noteId author, s => (Core.redactNote noteId author s).2
  | .appendChunk itemId field payload author, s => (Core.appendChunk itemId field payload author s).2
  | .supersedeChunks itemId field replaced payload author, s =>
    (Core.supersedeChunks itemId field replaced payload author s).2
  | .setWallClock now, s => (Core.setWallClock now s).2

/-! ## A local write is a series of emits -/

/-- One emit, or a new wall clock: what a local write is made of. -/
inductive LocalStep : Store → Store → Prop
  | emit {s s' : Store} {d : Draft} {opId : String} (h : s.emit d = some (opId, s')) :
    LocalStep s s'
  | wallClock {s : Store} (now : String) :
    LocalStep s { s with handle := { s.handle with wallClock := now } }

/-- The write moves the store along local steps only. -/
def Emitting {α : Type} (m : Write α) : Prop :=
  ∀ s, Relation.ReflTransGen LocalStep s (m s).2

namespace Emitting

variable {α β : Type}

theorem pure (a : α) : Emitting (Pure.pure a : Write α) := fun _ => .refl

theorem bind {m : Write α} {k : α → Write β} (hm : Emitting m) (hk : ∀ a, Emitting (k a)) :
    Emitting (m >>= k) := by
  intro s
  have h := hm s
  change Relation.ReflTransGen LocalStep s (match m s with
    | (some a, s) => k a s
    | (none, s) => (none, s)).2
  cases hs : m s with
  | mk o s' =>
    rw [hs] at h
    cases o with
    | none => exact h
    | some a => exact h.trans (hk a s')

theorem assert (b : Bool) : Emitting (Core.assert b) := fun _ => .refl

theorem read (query : Db → α) : Emitting (Core.read query) := fun _ => .refl

theorem emitTask {targetKind targetId field opType : String} {value : Option String}
    {author : String} : Emitting (Core.emitTask targetKind targetId field opType value author) := by
  intro s
  unfold Core.emitTask
  split
  · next opId s' h => exact .single (.emit h)
  · exact .refl

theorem ite {c : Prop} [Decidable c] {m n : Write α} (hm : Emitting m) (hn : Emitting n) :
    Emitting (if c then m else n) := by
  split
  · exact hm
  · exact hn

theorem emitTask_ {targetKind targetId field opType : String} {value : Option String}
    {author : String} : Emitting (do
      let _ ← Core.emitTask targetKind targetId field opType value author) :=
  bind emitTask fun _ => pure PUnit.unit

theorem forM {l : List β} {k : β → Write PUnit} (hk : ∀ b, Emitting (k b)) :
    Emitting (l.forM k) := by
  induction l with
  | nil => exact pure PUnit.unit
  | cons b l ih => exact bind (hk b) fun _ => ih

end Emitting

theorem emitting_edgeTarget (fromId toId : String) (kind : EdgeKind) :
    Emitting (edgeTarget fromId toId kind) :=
  .bind (.assert _) fun _ => .pure _

theorem emitting_labelTarget (itemId label : String) : Emitting (labelTarget itemId label) :=
  .bind (.assert _) fun _ => .pure _

theorem emitting_threadLinkTarget (threadId itemId : String) (relation : LinkRelation)
    (weight : LinkWeight) : Emitting (threadLinkTarget threadId itemId relation weight) :=
  .bind (.assert _) fun _ => .pure _

theorem emitting_addEdge (fromId toId : String) (kind : EdgeKind) (author : String) :
    Emitting (addEdge fromId toId kind author) :=
  .bind (emitting_edgeTarget fromId toId kind) fun _ => .emitTask_

theorem emitting_removeEdge (fromId toId : String) (kind : EdgeKind) (author : String) :
    Emitting (removeEdge fromId toId kind author) :=
  .bind (.read _) fun _ => .ite (.pure _) <|
    .bind (emitting_edgeTarget fromId toId kind) fun _ => .emitTask_

theorem emitting_clearParent (child author : String) : Emitting (clearParent child author) :=
  .bind (.read _) fun _ => .forM fun parent => emitting_removeEdge child parent .parent author

theorem emitting_emitEntryRemoves (itemId field : String) (tags : List String) (author : String) :
    Emitting (emitEntryRemoves itemId field tags author) :=
  .forM fun _ => .emitTask_

/-- **Every local write is a series of emits.** -/
theorem emitting_run (w : LocalWrite) (s : Store) :
    Relation.ReflTransGen LocalStep s (w.run s) := by
  cases w with
  | createItem id ty title author =>
    have h : Emitting (createItem id ty title author) :=
      .bind (.assert _) fun _ => .bind .emitTask fun _ => .bind .emitTask fun _ =>
        .emitTask_
    exact h s
  | setField id field value author m =>
    have h : Emitting (setFieldMerge id field value author m) :=
      .bind (.assert _) fun _ => .emitTask_
    exact h s
  | setCustomField id field value author m => exact Emitting.emitTask_ s
  | addFieldEntry itemId field value label author =>
    have h : Emitting (addFieldEntry itemId field value label author) :=
      .bind (.assert _) fun _ => .emitTask
    exact h s
  | removeFieldEntry itemId field value author =>
    have h : Emitting (removeFieldEntry itemId field value author) :=
      .bind (.read _) fun tags => emitting_emitEntryRemoves itemId field tags author
    exact h s
  | clearFieldEntries itemId field author =>
    have h : Emitting (clearFieldEntries itemId field author) :=
      .bind (.read _) fun tags => emitting_emitEntryRemoves itemId field tags author
    exact h s
  | deleteItem id author => exact Emitting.emitTask_ s
  | addEdge fromId toId kind author => exact emitting_addEdge fromId toId kind author s
  | removeEdge fromId toId kind author => exact emitting_removeEdge fromId toId kind author s
  | addThreadLink threadId itemId relation weight author =>
    have h : Emitting (addThreadLink threadId itemId relation weight author) :=
      .bind (emitting_threadLinkTarget threadId itemId relation weight) fun _ => .emitTask_
    exact h s
  | removeThreadLink threadId itemId author =>
    have h : Emitting (removeThreadLink threadId itemId author) :=
      .bind (.read _) fun _ => .ite (.pure _) <|
        .bind (emitting_threadLinkTarget threadId itemId .workedOn .bearing) fun _ => .emitTask_
    exact h s
  | addLabel itemId label author =>
    have h : Emitting (addLabel itemId label author) :=
      .bind (emitting_labelTarget itemId label) fun _ => .emitTask_
    exact h s
  | removeLabel itemId label author =>
    have h : Emitting (removeLabel itemId label author) :=
      .bind (.read _) fun _ => .ite (.pure _) <|
        .bind (emitting_labelTarget itemId label) fun _ => .emitTask_
    exact h s
  | setParent child parent author =>
    have h : Emitting (setParent child parent author) :=
      .bind (emitting_clearParent child author) fun _ =>
        emitting_addEdge child parent .parent author
    exact h s
  | clearParent child author => exact emitting_clearParent child author s
  | addNote itemId body author => exact Emitting.emitTask s
  | redactNote noteId author => exact Emitting.emitTask_ s
  | appendChunk itemId field payload author => exact Emitting.emitTask s
  | supersedeChunks itemId field replaced payload author =>
    have h : Emitting (supersedeChunks itemId field replaced payload author) :=
      .bind (.assert _) fun _ => .emitTask
    exact h s
  | setWallClock now => exact .single (.wallClock now)

end NexusFlow.Core
