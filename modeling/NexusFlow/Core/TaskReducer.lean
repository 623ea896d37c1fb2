import NexusFlow.Core.Model
import NexusFlow.Foundation.Op

/-!
# flow's task reducer

Model of `crates/core/src/task_reducer.rs` and of the view tables' `DEFAULT`s
(`crates/core/src/schema.rs:63-245`): what an op of the `task` domain does to the fourteen view
tables, as a list of described changes.

Nine shapes fold: an item field `set`, a custom field `set`, a list entry add and remove, edge,
label and thread-link adds with their removes, notes and their redaction, chunk appends and
supersedes. An op of any other shape is stored and not folded.
-/

namespace NexusFlow.Core

open NexusFlow.Foundation

/-! ## The tables -/

/-- `ITEM_LWW_FIELDS`: the registers of an `items` row. -/
def itemLwwFields : List String :=
  ["type", "title", "completion_criterion", "description", "design", "status", "priority", "due",
    "defer_until", "assignee", "closing_comment", "deleted", "archived", "closed_at"]

/-- The `DEFAULT`s of `try_apply_flow_views`: a register of `items` and of `custom_fields` starts at
version `(0, 0)`, one of `item_timestamps` at `NULL`. -/
def flowDdl : Ddl := fun table column =>
  let zero := match table with
    | "items" => column == "_placeholder" ||
        itemLwwFields.any fun f => column == f ++ "_v" || column == f ++ "_site"
    | "custom_fields" => column == "value_v" || column == "value_site"
    | "field_entries" => column == "removed"
    | _ => false
  if zero then .int 0 else .null

/-! ## Shapes -/

namespace TaskReducer

/-- `parse_edge`: `from␟to␟kind`. -/
def parseEdge (op : Op) : Option (String × String × String) :=
  match splitChar sep op.targetId with
  | [fromId, toId, kind] => if (EdgeKind.parse kind).isSome then some (fromId, toId, kind) else none
  | _ => none

/-- `parse_label`: `item␟label`. -/
def parseLabel (op : Op) : Option (String × String) :=
  match splitChar sep op.targetId with
  | [itemId, label] => if label != "" then some (itemId, label) else none
  | _ => none

/-- `parse_thread_link`: `thread␟item␟relation␟weight`. -/
def parseThreadLink (op : Op) : Option (String × String × String × String) :=
  match splitChar sep op.targetId with
  | [threadId, itemId, relation, weight] =>
    if threadId != "" && itemId != "" && (LinkRelation.parse relation).isSome &&
        (LinkWeight.parse weight).isSome then some (threadId, itemId, relation, weight)
    else none
  | _ => none

/-- `entry_place_ok`. -/
def entryPlaceOk (op : Op) : Bool :=
  op.targetId != "" && decide (op.targetId.utf8ByteSize ≤ maxChunkIdBytes) &&
    !hasChar sep op.targetId && isValidChunkField op.field

/-- `parse_entry_add`: an entry's value and label. -/
def parseEntryAdd (op : Op) : Option (String × Option String) := do
  let raw ← op.value
  if !entryPlaceOk op || decide (maxFieldEntryBytes < raw.utf8ByteSize) || op.opId == "" ||
      decide (maxChunkIdBytes < op.opId.utf8ByteSize) || hasChar sep op.opId then none
  else parseEntryValue raw

/-- `parse_entry_remove`: the add tags a remove tombstones. -/
def parseEntryRemove (op : Op) : Option (List String) := do
  let raw ← op.value
  if !entryPlaceOk op then none
  else
    let tags := splitChar sep raw
    if decide (tags.length ≤ maxEntryTags) &&
        tags.all fun t => t != "" && decide (t.utf8ByteSize ≤ maxChunkIdBytes) then some tags
    else none

/-- `parse_chunk`: the replaced ids and the payload. -/
def parseChunk (op : Op) : Option (List String × String) := do
  let value ← op.value
  if op.targetId == "" || decide (maxChunkIdBytes < op.targetId.utf8ByteSize) ||
      hasChar sep op.targetId || decide (maxChunkIdBytes < op.opId.utf8ByteSize) ||
      !isValidChunkField op.field || decide (maxChunkBytes < value.utf8ByteSize) then none
  else match op.opType with
    | "append" => some ([], value)
    | "supersede" => do
      let (ids, payload) ← splitOnce chunkPayloadSep value
      let ids := splitChar sep ids
      if decide (ids.length ≤ maxSuperseded) && ids.all isValidChunkId then some (ids, payload)
      else none
    | _ => none

/-! ## Changes -/

/-- `item_lww`: one register of the item's row. `is_foldable` vetted the field, so the whitelisted
column is the op's field. -/
def itemLww (op : Op) : Change :=
  .register "items" [("id", .text op.targetId)] [(op.field, .ofOption op.value)]
    (op.field ++ "_v", op.field ++ "_site") op.version .higher

/-- `item_changes`: both strategies fold as a register. -/
def itemChanges (op : Op) : MergeStrategy → List Change
  | .lww | .crdtText => [itemLww op]

/-- `field_change`. -/
def fieldChange (op : Op) : Change :=
  .register "custom_fields" [("item_id", .text op.targetId), ("field", .text op.field)]
    [("value", .ofOption op.value)] ("value_v", "value_site") op.version .higher

/-- `entry_add`: one row per add op; a label-less entry writes no `label`. -/
def entryAdd (op : Op) : List Change :=
  match parseEntryAdd op with
  | none => []
  | some (value, label) =>
    let row := [("value", .text value), ("lamport", .int op.lamport), ("site", .int op.site)] ++
      match label with
        | some label => [("label", Cell.text label)]
        | none => []
    [.put "field_entries"
      [("item_id", .text op.targetId), ("field", .text op.field), ("tag", .text op.opId)] row]

/-- `entry_remove`: each observed add's row gets `removed = 1`, its own cell only. -/
def entryRemove (op : Op) : List Change :=
  match parseEntryRemove op with
  | none => []
  | some tags => tags.map fun tag =>
    .put "field_entries"
      [("item_id", .text op.targetId), ("field", .text op.field), ("tag", .text tag)]
      [("removed", .int 1)]

/-- `timestamp_changes`: the item's creation and last change. -/
def timestampChanges (op : Op) : List Change :=
  [.register "item_timestamps" [("item_id", .text op.targetId)]
      [("created_at", .text op.wallClock)] ("created_v", "created_site") op.version .lower,
    .register "item_timestamps" [("item_id", .text op.targetId)]
      [("updated_at", .text op.wallClock)] ("updated_v", "updated_site") op.version .higher]

/-- `edge_add`. -/
def edgeAdd (op : Op) : List Change :=
  match parseEdge op with
  | none => []
  | some (fromId, toId, kind) =>
    [.put "edge_adds" [("tag", .text op.opId)]
      [("from_id", .text fromId), ("to_id", .text toId), ("kind", .text kind),
        ("lamport", .int op.lamport), ("site", .int op.site)]]

/-- `tombstones`: each tag an observed remove names, a grow-only row of `table`. -/
def tombstones (op : Op) (table : String) : List Change :=
  match op.value with
  | none => []
  | some tags => ((splitChar sep tags).filter fun t => t != "").map fun tag =>
    .put table [("tag", .text tag)] []

/-- `label_add`. -/
def labelAdd (op : Op) : List Change :=
  match parseLabel op with
  | none => []
  | some (itemId, label) =>
    [.put "label_adds" [("tag", .text op.opId)]
      [("item_id", .text itemId), ("label", .text label)]]

/-- `thread_link_add`. -/
def threadLinkAdd (op : Op) : List Change :=
  match parseThreadLink op with
  | none => []
  | some (threadId, itemId, relation, weight) =>
    [.put "thread_link_adds" [("tag", .text op.opId)]
      [("thread_id", .text threadId), ("item_id", .text itemId), ("relation", .text relation),
        ("weight", .text weight), ("lamport", .int op.lamport), ("site", .int op.site)]]

/-- `note_add`. -/
def noteAdd (op : Op) : Change :=
  .put "notes" [("id", .text op.opId)]
    [("item_id", .text op.targetId), ("author", .text op.author), ("body", .ofOption op.value),
      ("lamport", .int op.lamport), ("site", .int op.site), ("created_at", .text op.wallClock)]

/-- `chunk_changes`: the chunk joins the grow set, the replaced ids the grow-only replaced set. -/
def chunkChanges (op : Op) : List Change :=
  match parseChunk op with
  | none => []
  | some (replaced, payload) =>
    .put "chunks"
      [("item_id", .text op.targetId), ("field", .text op.field), ("id", .text op.opId)]
      [("author", .text op.author), ("body", .text payload), ("lamport", .int op.lamport),
        ("site", .int op.site), ("created_at", .text op.wallClock)] ::
    replaced.map fun id =>
      .put "chunk_superseded"
        [("item_id", .text op.targetId), ("field", .text op.field), ("chunk_id", .text id)] []

/-- `note_redact`. -/
def noteRedact (op : Op) : Change := .put "note_tombstones" [("note_id", .text op.targetId)] []

/-! ## The reducer -/

/-- `TaskReducer::is_foldable`. -/
def isFoldable (op : Op) : Bool :=
  if op.targetKind = "item" then
    (MergeStrategy.fromItemSetOpType op.opType).isSome && itemLwwFields.contains op.field
  else if op.targetKind = "field" then
    match op.opType with
    | "add" => (parseEntryAdd op).isSome
    | "remove" => (parseEntryRemove op).isSome
    | set => (MergeStrategy.fromItemSetOpType set).isSome && op.targetId != "" && op.field != ""
  else match op.targetKind, op.opType with
    | "edge", "add" | "edge", "remove" => (parseEdge op).isSome
    | "label", "add" | "label", "remove" => (parseLabel op).isSome
    | "thread_link", "add" => (parseThreadLink op).isSome
    | "thread_link", "remove" => true
    | "note", "note_add" => true
    | "note", "set" => op.field == "deleted"
    | "chunk", "append" | "chunk", "supersede" => (parseChunk op).isSome
    | _, _ => false

/-- The part of `changes` that depends on the kind. An op that is not foldable never gets here. -/
def kindChanges (op : Op) : List Change :=
  if op.targetKind = "item" then
    match MergeStrategy.fromItemSetOpType op.opType with
    | some strategy => itemChanges op strategy
    | none => []
  else if op.targetKind = "field" then
    match op.opType with
    | "add" => entryAdd op
    | "remove" => entryRemove op
    | _ => [fieldChange op]
  else match op.targetKind, op.opType with
    | "edge", "add" => edgeAdd op
    | "edge", "remove" => tombstones op "edge_removes"
    | "label", "add" => labelAdd op
    | "label", "remove" => tombstones op "label_removes"
    | "thread_link", "add" => threadLinkAdd op
    | "thread_link", "remove" => tombstones op "thread_link_removes"
    | "note", "note_add" => [noteAdd op]
    | "note", "set" => [noteRedact op]
    | "chunk", _ => chunkChanges op
    | _, _ => []

/-- The ops whose target is an item date it. -/
def datesItem (op : Op) : Bool :=
  op.targetKind == "item" || op.targetKind == "field" ||
    (op.targetKind == "note" && op.opType == "note_add")

/-- `TaskReducer::changes`. -/
def changes (op : Op) : List Change :=
  kindChanges op ++ if datesItem op then timestampChanges op else []

/-- `TaskReducer::view_tables`. -/
def viewTables : List String :=
  ["items", "edge_adds", "edge_removes", "label_adds", "label_removes", "notes", "note_tombstones",
    "chunks", "chunk_superseded", "custom_fields", "field_entries", "thread_link_adds",
    "thread_link_removes", "item_timestamps"]

end TaskReducer

/-- `TaskReducer`. -/
def taskReducer : Reducer where
  domain := domainTask
  isFoldable := TaskReducer.isFoldable
  changes := TaskReducer.changes
  foldRevision := 3
  viewTables := TaskReducer.viewTables
  ddl := flowDdl

end NexusFlow.Core
