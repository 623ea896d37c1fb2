import Mathlib.Data.String.Basic
import NexusFlow.Core.Store
import NexusFlow.Foundation.Rename

/-!
# The prefix remap

Model of `Store::remap_prefix` (`crates/core/src/store.rs:729-887`), of the free-text engine it calls
(`crates/core/src/rewrite.rs`) and of `is_valid_prefix` (`id.rs:22`): when the registry gives a
replica another prefix, every id `old.suffix` becomes `new.suffix` in the log, and the views are folded
again from the rewritten ops.

The export stands outside the transaction: `remapTxn` takes the exported list and the file it finds,
which another process may have written to in between. `remapPrefix` is the call with nobody writing
in between.
-/

namespace NexusFlow.Core

open NexusFlow.Foundation TaskReducer

/-- `is_valid_prefix`. -/
def isValidPrefix (s : String) : Bool :=
  decide (s.utf8ByteSize = 4) && s.toList.all isAsciiAlphanumeric

/-! ## The id map -/

/-- The map from old ids to new ones. -/
abbrev IdMap := List (String × String)

namespace IdMap

/-- An exact lookup; an id the map does not hold stays as it is. -/
def get (m : IdMap) (id : String) : String := (m.lookup id).getD id

/-- `map.entry(id).or_insert(new)`. -/
def orInsert (m : IdMap) (id new : String) : IdMap :=
  if (m.lookup id).isSome then m else m ++ [(id, new)]

/-- The new form of an item op's target id, when its prefix is `pOld`. -/
def entry (pOld pNew : String) (op : Op) : Option String :=
  if op.targetKind = "item" then
    match splitOnce '.' op.targetId with
    | some (pre, suffix) => if pre = pOld then some (pNew ++ ("." ++ suffix)) else none
    | none => none
  else none

/-- The map `remap_prefix` builds from the export. -/
def ofOps (pOld pNew : String) (ops : List Op) : IdMap :=
  ops.foldl (fun m op => match entry pOld pNew op with
    | some new => m.orInsert op.targetId new
    | none => m) []

/-- The keys, longest first, then in order. -/
def sortedKeys (m : IdMap) : List String :=
  (m.map Prod.fst).insertionSort fun a b =>
    b.utf8ByteSize < a.utf8ByteSize ∨ (b.utf8ByteSize = a.utf8ByteSize ∧ a ≤ b)

end IdMap

/-! ## Free text -/

/-- The key matches here, up to a boundary. -/
def refMatches (text : List Char) (key : String) : Bool :=
  key.toList.isPrefixOf text &&
    !((text.drop key.toList.length).head?.any isAsciiAlphanumeric)

/-- The scan of `rewrite_refs`, behind the character `before`; `skip` characters of the text belong
to a match already written out. -/
def rewriteFrom (m : IdMap) (keys : List String) : Option Char → Nat → List Char → List Char
  | _, _, [] => []
  | _, skip + 1, c :: text => rewriteFrom m keys (some c) skip text
  | before, 0, c :: text =>
    match if before.any isAsciiAlphanumeric then none
        else keys.find? (refMatches (c :: text)) with
    | some key =>
      (m.get key).toList ++ rewriteFrom m keys (some c) (key.toList.length - 1) text
    | none => c :: rewriteFrom m keys (some c) 0 text

/-- `rewrite_refs`. -/
def rewriteRefs (m : IdMap) (text : String) : String :=
  if m.isEmpty then text else String.ofList (rewriteFrom m m.sortedKeys none 0 text.toList)

example : rewriteRefs [("aaaa.0001", "kp3z.0001")] "see (aaaa.0001). not aaaa.00012" =
    "see (kp3z.0001). not aaaa.00012" := by decide

/-! ## Ops -/

/-- `FREETEXT_FIELDS`. -/
def freetextFields : List String :=
  ["title", "completion_criterion", "description", "design", "closing_comment"]

/-- `remap_target`. -/
def remapTarget (m : IdMap) (op : Op) : String :=
  if op.targetKind = "edge" then
    match splitChar sep op.targetId with
    | [fromId, toId, kind] => joinChar sep [m.get fromId, m.get toId, kind]
    | _ => op.targetId
  else if op.targetKind = "label" then
    match splitChar sep op.targetId with
    | [itemId, label] => joinChar sep [m.get itemId, label]
    | _ => op.targetId
  else if op.targetKind = "thread_link" then
    match splitChar sep op.targetId with
    | [threadId, itemId, relation, weight] =>
      joinChar sep [threadId, m.get itemId, relation, weight]
    | _ => op.targetId
  else m.get op.targetId

/-- `remap_value`. -/
def remapValue (m : IdMap) (op : Op) : Option String :=
  op.value.map fun value =>
    if op.targetKind = "item" ∧ op.field = "belongs_to" then m.get value
    else if op.targetKind = "item" ∧ op.field ∈ freetextFields then rewriteRefs m value
    else if op.targetKind = "note" ∧ op.field = "body" then rewriteRefs m value
    else if op.targetKind = "field" ∧ startsWith "set" op.opType = true then m.get value
    else if op.targetKind = "field" ∧ op.opType = "add" then
      match parseEntryValue value with
      | some (v, label) => entryValue (m.get v) label
      | none => value
    else value

/-- The rewritten op. -/
def remapOp (m : IdMap) (op : Op) : Op :=
  { op with targetId := remapTarget m op, value := remapValue m op }

/-! ## The transaction -/

/-- The row of a rewritten op: `UPDATE ops SET target_id, value`, then `reseal`, which signs this
replica's own ops again and judges every other one again. -/
def remapRow (key : ReplicaKey) (m : IdMap) (exported : List Op) (row : LogRow) : LogRow :=
  match exported.find? fun o => o.opId == row.op.opId with
  | none => row
  | some orig =>
    let new := remapOp m orig
    if orig.targetId = new.targetId ∧ orig.value = new.value then row
    else
      let op := { row.op with targetId := new.targetId, value := new.value }
      match row.provenance with
      | .own =>
        let sealed := key.seal new
        ⟨{ op with keyId := sealed.keyId, sig := sealed.sig }, .own⟩
      | _ => ⟨op, .ofReceived key new⟩

/-- The fold of the remap: the bound and the shape are asked, the domain is not. -/
def remapFold (db : Db) (op : Op) : Db :=
  if op.lamportInBound && isFoldable op then applySqlite flowDdl db (changes op) else db

/-- The transaction: rewrite the exported ops in the log, clear flow's views, fold the rewritten
export. -/
def remapTxn (key : ReplicaKey) (m : IdMap) (exported : List Op) (f : File) : File :=
  { f with
    ops := f.ops.map (remapRow key m exported)
    views := (exported.map (remapOp m)).foldl remapFold (f.views.clear viewTables) }

/-- `remap_prefix`, with nobody writing in between. -/
def remapPrefix (s : Store) (pOld pNew : String) : Except NeedsHistory Store :=
  let ops := s.file.exportOps
  let m := IdMap.ofOps pOld pNew ops
  if m.isEmpty then .ok s
  else match s.file.logBase with
    | some base => .error (.remap pOld pNew base.relayPosition)
    | none => .ok { s with file := remapTxn s.handle.key m ops s.file }

end NexusFlow.Core
