import NexusFlow.Hosted.Board
import NexusFlow.Hosted.Plan

/-!
# Folding an op into the hosted table

Model of `Folder` (`crates/fold-ddb/src/fold.rs:140-370`): an op's changes become writes, an op the
table cannot hold is refused before it writes anything, and the indexes follow the rows.

A table state is reached by batches that may die at any request (`Reached`). The invariant that
carries the results is `Weighed`: with the index attributes its cells call for, no item row passes
the limit, whatever index attributes it has at the moment.
-/

namespace NexusFlow.Hosted

open NexusFlow.Foundation NexusFlow.Core NexusFlow.Chat NexusFlow.Memory NexusFlow.Lib

/-! ## One op -/

/-- `Refusal`: an op the table could not hold, and why. -/
structure Refusal where
  opId : String
  reason : String
  deriving DecidableEq, Repr

/-- `Folded`: what `fold` did with an op. -/
inductive Folded
  | folded
  | notFolded
  | refused (r : Refusal)
  deriving DecidableEq, Repr

section Folder

variable (json : Envelopes) (stream : String)

/-- `Folder::changes`, over the platform's reducers. -/
def platformChanges (op : Op) : List Change :=
  match folderFor (platformReducers json) op with
  | some r => r.changes op
  | none => []

/-- The checks of an op's keys, types and writes; the reason it is refused for. -/
def sizeRefusal (changes : List Change) (writes : List Write) : Option String :=
  match (writes.map Write.sk ++ derivedKeys changes).find? fun k => maxKeyBytes < k.utf8ByteSize with
  | some key =>
    some ("a key of " ++ toString key.utf8ByteSize ++ " bytes, past the " ++ toString maxKeyBytes ++
      " a sort key may have")
  | none =>
    match (typedPartitions stream changes).find? fun p => maxPartitionBytes < p.utf8ByteSize with
    | some p =>
      some ("a type whose `typed` index partition has " ++ toString p.utf8ByteSize ++
        " bytes, past the " ++ toString maxPartitionBytes ++ " a partition key may have")
    | none =>
      (writes.find? fun w => maxItemBytes < w.bytes).map fun w =>
        "a row of " ++ toString w.bytes ++ " bytes, past the " ++ toString maxItemBytes ++
          " an item may have"

/-- The row a write to this key starts from when there is none. -/
def freshRow (key : String) : Row :=
  (KeyMap.empty.insert Attr.pk (.text stream)).insert Attr.sk (.text key)

/-- The row a write is weighed on, read once. -/
def weighedRow (rows : KeyMap String Row) (key : String) : Requests Row :=
  match rows.get key with
  | some row => pure row
  | none => do
    let stored ← request (.get key)
    pure (stored.getD (freshRow stream key))

/-- One turn of the loop of `item_bytes`: every write counts as applied. -/
def weighWrite (rows : KeyMap String Row) (w : Write) : Requests (KeyMap String Row) := do
  let row ← weighedRow stream rows w.sk
  pure (rows.insert w.sk (MemTable.update row w))

/-- The loop of `item_bytes`. -/
def weighWrites (rows : KeyMap String Row) : List Write → Requests (KeyMap String Row)
  | [] => pure rows
  | w :: writes => do
    let rows ← weighWrite stream rows w
    weighWrites rows writes

/-- `item_bytes`: what each item row the writes touch would weigh after them, with the index
attributes it would then carry. -/
def itemBytes (writes : List Write) : Requests (List (String × Nat)) := do
  let rows ← weighWrites stream KeyMap.empty (writes.filter fun w => isItemKey w.sk)
  pure (rows.entries.map fun e =>
    let id := (e.2.text "id").getD ""
    (id, indexedBytes stream id e.2))

/-- How far an op gets before its first write. -/
inductive Checked
  | notFolded
  | refused (r : Refusal)
  | fits (changes : List Change) (writes : List Write)

/-- `fold`, up to its first write. -/
def check (op : Op) : Requests (Except LayoutError Checked) :=
  let changes := platformChanges json op
  if changes.isEmpty then pure (.ok .notFolded)
  else match changes.mapM (plan platformLayout) with
    | .error e => pure (.error e)
    | .ok writes =>
      match sizeRefusal stream changes writes with
      | some reason => pure (.ok (.refused ⟨op.opId, reason⟩))
      | none => do
        let weighed ← itemBytes stream writes
        pure (.ok (match weighed.find? fun x => maxItemBytes < x.2 with
          | some (id, bytes) => .refused ⟨op.opId, "item " ++ id ++ " would weigh " ++
              toString bytes ++ " bytes with its index attributes, past the " ++
              toString maxItemBytes ++ " an item may have"⟩
          | none => .fits changes writes))

/-- The writes of an op, one after another; the rows that did not fit. -/
def writeAll (writes : List Write) : Requests (List String) :=
  Prog.collect (fun w => do
    let outcome ← request (.write w)
    pure (if outcome = .tooLarge then [w.sk] else [])) writes

/-- `fold`, from its first write on. -/
def carryOut (op : Op) (changes : List Change) (writes : List Write) : Requests Folded := do
  let tooLarge ← writeAll writes
  let unwritten ← after stream changes
  let tooLarge := tooLarge ++ unwritten
  pure (if tooLarge.isEmpty then .folded
    else .refused ⟨op.opId, "rows that would outgrow " ++ toString maxItemBytes ++
      " bytes kept their state: " ++ ", ".intercalate tooLarge⟩)

/-- `Folder::fold`. -/
def fold (op : Op) : Requests (Except LayoutError Folded) := do
  match ← check json stream op with
  | .error e => pure (.error e)
  | .ok .notFolded => pure (.ok .notFolded)
  | .ok (.refused r) => pure (.ok (.refused r))
  | .ok (.fits changes writes) => do
    let result ← carryOut stream op changes writes
    pure (.ok result)

/-! ## Batches -/

/-- `Folder::revisions`. -/
def revisions : KeyMap String Int :=
  ((platformReducers json).foldl (fun m r => m.insert r.domain r.foldRevision)
    KeyMap.empty).insert indexDomain indexRevision

/-- The write of `advance`: the watermark moves forward only. -/
def watermarkWrite (through : Int) : Write where
  sk := watermarkKey
  set := ("folded_through", .int through) ::
    (revisions json).entries.map fun e => ("revision_" ++ e.1, .int e.2)
  remove := []
  condition := some (.any [.rowAbsent, .beats ["folded_through"] [through] .higher])

/-- The loop of `fold_batch`. -/
def foldOps : List Op → Requests (Except LayoutError (List Refusal))
  | [] => pure (.ok [])
  | op :: ops => do
    match ← fold json stream op with
    | .error e => pure (.error e)
    | .ok result => do
      let rest ← foldOps ops
      pure (rest.map fun refused => match result with
        | .refused r => r :: refused
        | _ => refused)

/-- `Folder::fold_batch`: the ops, each with its relay position, then the watermark. -/
def foldBatch (ops : List (Int × Op)) : Requests (Except LayoutError (List Refusal)) := do
  match ← foldOps json stream (ops.map Prod.snd) with
  | .error e => pure (.error e)
  | .ok refused => do
    match (ops.map Prod.fst).max? with
    | none => pure (.ok refused)
    | some through => do
      let _ ← request (.write (watermarkWrite json through))
      pure (.ok refused)

/-- **The table states folds reach**: batches, each to its end or dead at some request. -/
inductive Reached : MemTable → Prop
  | empty : Reached ⟨stream, KeyMap.empty⟩
  | batch {t : MemTable} (ops : List (Int × Op)) (n : ℕ) (h : Reached t) :
    Reached (Prog.runFor MemTable.answer n (foldBatch json stream ops) t)

end Folder

end NexusFlow.Hosted
