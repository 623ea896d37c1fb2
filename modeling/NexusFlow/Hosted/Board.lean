import NexusFlow.Hosted.Keys

/-!
# The indexes beside the rows

Model of `crates/fold-ddb/src/board.rs:90-795`: what the fold keeps next to the rows a reducer
describes. Index attributes on the item rows and the edge adds, an adjacency entry under each end of
an edge, an entry under its ticket for each label, thread link and `contributes_to` edge, and the
reverse-reference pairs of custom values. `after` brings all of them up to date with one op's changes.

A `BTreeSet` of texts is `sortedSet` of the texts that went in.
-/

namespace NexusFlow.Hosted

open NexusFlow.Foundation NexusFlow.Core NexusFlow.Lib

/-! ## Reading a change -/

/-- A text cell under that name. -/
def textOf (cells : Cells) (column : String) : Option String :=
  cells.findSome? fun c => match c.2 with
    | .text v => if c.1 = column then some v else none
    | _ => none

/-- `key_text`. -/
def keyText (c : Change) (column : String) : Option String := textOf c.key column

/-- `effect_text`. -/
def effectText (c : Change) (column : String) : Option String := textOf c.effect.cells column

/-- What a `BTreeSet` of these texts iterates over. -/
def sortedSet (l : List String) : List String := l.dedup.insertionSort (· ≤ ·)

/-- `item_key`. -/
def itemKey (id : String) : String := expectKey (rowKey "items" [("id", .text id)])

/-- `tag_key`. -/
def tagKey (table tag : String) : String := expectKey (rowKey table [("tag", .text tag)])

/-- `REMOVED`. -/
def removedAttr : String := "removed"

/-- A cell an entry copies: none where the row has none. -/
def copied (row : Row) (columns : List String) : Cells :=
  columns.filterMap fun column => match row.get column with
    | none | some .null => none
    | some cell => some (column, cell)

/-! ## Entries under a ticket -/

/-- `Owned`: an OR-set whose adds get an entry under their ticket. -/
structure Owned where
  adds : String
  removes : String
  owner : String
  only : Option (String × String)
  key : String → String → String
  copies : List String

/-- `LABELS`. -/
def labels : Owned where
  adds := "label_adds"
  removes := "label_removes"
  owner := "item_id"
  only := none
  key := labelAdjacencyKey
  copies := ["label"]

/-- `LINKS`. -/
def links : Owned where
  adds := "thread_link_adds"
  removes := "thread_link_removes"
  owner := "item_id"
  only := none
  key := linkAdjacencyKey
  copies := ["thread_id", "weight", "lamport", "site"]

/-- `CONTRIBUTES`: a ticket's outgoing `contributes_to` edges. -/
def contributes : Owned where
  adds := "edge_adds"
  removes := "edge_removes"
  owner := "from_id"
  only := some ("kind", "contributes_to")
  key := contributesAdjacencyKey
  copies := ["to_id"]

/-- `OWNED`. -/
def allOwned : List Owned := [labels, links, contributes]

/-- `Owned::files`: whether an add with these cells gets an entry. -/
def Owned.files (owned : Owned) (cell : String → Option String) : Bool :=
  match owned.only with
  | none => true
  | some (column, value) => cell column == some value

/-- `owned_write`. -/
def ownedWrite (owned : Owned) (add : Row) (tag : String) (removed : Bool) : Option Write :=
  if owned.files add.text then
    (add.text owned.owner).map fun item => .put (owned.key item tag)
      (("tag", .text tag) :: copied add owned.copies ++
        [(removedAttr, .int (if removed then 1 else 0))])
  else none

/-- `refresh_owned_add`: an add the OR-set does not file costs no read of its remove. -/
def refreshOwnedAdd (owned : Owned) (add : Row) (tag : String) : Requests Unit :=
  if owned.files add.text then do
    let remove ← request (.get (tagKey owned.removes tag))
    match ownedWrite owned add tag remove.isSome with
    | none => pure ()
    | some w => do
      let _ ← request (.write w)
      pure ()
  else pure ()

/-- `refresh_owned`: nothing while the add has not been folded. -/
def refreshOwned (owned : Owned) (tag : String) : Requests Unit := do
  match ← request (.get (tagKey owned.adds tag)) with
  | none => pure ()
  | some add => refreshOwnedAdd owned add tag

/-- `owned_entry_key`: the key of the entry an add files under its ticket. -/
def ownedEntryKey (c : Change) : Option String := do
  let owned ← allOwned.find? fun o => o.adds == c.table
  if owned.files (effectText c) then
    return owned.key (← effectText c owned.owner) (← keyText c "tag")
  else none

/-! ## Index attributes of an item -/

/-- `is_active`: whether a stored item row is an active ticket. -/
def isActive (row : Row) : Bool :=
  row.text "deleted" != some "1" && (row.text "archived").isNone &&
    (row.text "status" == some "open" || row.text "status" == some "in_progress")

/-- `typed`: the type a stored item row is listed under. -/
def typed (row : Row) : Option String :=
  if row.text "deleted" == some "1" then none else row.text "type"

/-- `typed_partitions`. -/
def typedPartitions (stream : String) (changes : List Change) : List String :=
  (changes.filter fun c => c.table == "items").filterMap fun c =>
    (effectText c "type").map (typedPartition stream)

/-- `Dated`: a lane of the `dated` index. -/
inductive Dated
  | closed
  | archived
  deriving DecidableEq, Repr

/-- `Dated::partition`. -/
def Dated.partition (stream : String) : Dated → String
  | .closed => stream ++ "#closed"
  | .archived => stream ++ "#archived"

/-- `lane`: the `dated` lane of a stored item row, and the instant it sorts by. -/
def lane (row : Row) : Option (Dated × String) :=
  let instant (v : Option String) := (v.filter fun v => v != "").getD "0"
  if row.text "deleted" == some "1" then none
  else match row.text "archived" with
    | some archived => some (.archived, instant (some archived))
    | none =>
      if row.text "status" == some "closed" then some (.closed, instant (row.text "closed_at"))
      else none

/-- `dated_key`: the instant, then the id. One too long for an index key sorts as `"0"`. -/
def datedKey (instant id : String) : String :=
  let key := instant ++ (String.singleton sep ++ id)
  if key.utf8ByteSize ≤ maxKeyBytes then key else "0" ++ (String.singleton sep ++ id)

/-- The attributes an item row is indexed by. -/
def indexNames : List String := [Attr.active, Attr.typed, Attr.dated, Attr.datedAt]

/-- `index_attributes`: what a stored item row carries by these rules. -/
def indexAttributes (stream id : String) (row : Row) : Cells :=
  (if isActive row then [(Attr.active, .text stream)] else []) ++
  (match typed row with
    | some ty => [(Attr.typed, .text (typedPartition stream ty))]
    | none => []) ++
  match lane row with
    | some (l, instant) =>
      [(Attr.dated, .text (l.partition stream)), (Attr.datedAt, .text (datedKey instant id))]
    | none => []

/-- What these attributes weigh. -/
def cellsBytes (cells : Cells) : Nat := (cells.map fun c => attributeBytes c.1 c.2).sum

/-- `indexed_bytes`: what an item row weighs with the index attributes its cells call for instead of
the ones it has. -/
def indexedBytes (stream id : String) (row : Row) : Nat :=
  cellsBytes (row.entries.filter fun c => !indexNames.contains c.1) +
    cellsBytes (indexAttributes stream id row)

/-! ## Edges -/

/-- Whether an end is an active ticket; `known` is a ticket whose activity the caller knows ahead of
its stored flag. -/
def endActive (known : Option (String × Bool)) (endId : String) : Requests Bool :=
  match known.filter fun k => k.1 == endId with
  | some (_, active) => pure active
  | none => do
    let row ← request (.get (itemKey endId))
    pure (row.any fun r => r.contains Attr.active)

/-- Whether one of the ends is; the first that is ends the loop. -/
def anyActive (known : Option (String × Bool)) : List String → Requests Bool
  | [] => pure false
  | endId :: ends => do
    let active ← endActive known endId
    if active then pure true else anyActive known ends

/-- The ends a stored edge add names. -/
def edgeEnds (edge : Row) : List String := [edge.text "from_id", edge.text "to_id"].filterMap id

/-- Whether the edge's kind is on the `active` index. -/
def flaggedKind (edge : Row) : Bool :=
  match (edge.text "kind").bind EdgeKind.parse with
  | some .dep | some .parent => true
  | _ => false

/-- Whether an edge of such a kind is present; `removed` is whether its remove is folded, when the
caller has read it. -/
def edgePresent (tag : String) (edge : Row) (removed : Option Bool) : Requests Bool :=
  if flaggedKind edge then
    match removed with
    | some removed => pure !removed
    | none => do
      let remove ← request (.get (tagKey "edge_removes" tag))
      pure remove.isNone
  else pure false

/-- `flag_edge`: an edge that is not present has no end to ask for. -/
def flagEdge (stream tag : String) (edge : Row) (removed : Option Bool)
    (known : Option (String × Bool)) : Requests Unit := do
  let present ← edgePresent tag edge removed
  let flag ← anyActive known (if present then edgeEnds edge else [])
  if flag == edge.contains Attr.active then pure ()
  else do
    let key := tagKey "edge_adds" tag
    let _ ← request (.write (if flag then ⟨key, [(Attr.active, .text stream)], [], some .rowPresent⟩
      else ⟨key, [], [Attr.active], some .rowPresent⟩))
    pure ()

/-- `write_adjacency`: one entry under each end. -/
def writeAdjacency (tag : String) (edge : Row) (removed : Bool) : Requests Unit :=
  let set : Cells := ("tag", .text tag) ::
    copied edge ["from_id", "to_id", "kind", "lamport", "site"] ++
      [(removedAttr, .int (if removed then 1 else 0))]
  Prog.each (fun endId => do
    let _ ← request (.write (.put (adjacencyKey endId tag) set))
    pure ()) (sortedSet (edgeEnds edge))

/-- `link_edge`: nothing while the add has not been folded. -/
def linkEdge (stream tag : String) : Requests Unit := do
  match ← request (.get (tagKey "edge_adds" tag)) with
  | none => pure ()
  | some edge => do
    let remove ← request (.get (tagKey "edge_removes" tag))
    writeAdjacency tag edge remove.isSome
    flagEdge stream tag edge (some remove.isSome) none

/-- The flag of one edge touching the ticket whose activity flipped. -/
def refreshTouching (stream id : String) (active : Bool) (entry : Row) : Requests Unit :=
  match entry.text "tag" with
  | none => pure ()
  | some tag => do
    match ← request (.get (tagKey "edge_adds" tag)) with
    | none => pure ()
    | some edge => flagEdge stream tag edge none (some (id, active))

/-- What one block of `refresh_item` sets and removes: the attributes as they are wanted, or, where
they are not wanted, none of these names. -/
def moved (names : List String) (wanted : Option Cells) (same : Bool) : Cells × List String :=
  if same then ([], [])
  else match wanted with
    | some cells => (cells, [])
    | none => ([], names)

/-- The block of the `active` index. -/
def activeUpdate (stream : String) (row : Row) : Cells × List String :=
  moved [Attr.active] (if isActive row then some [(Attr.active, .text stream)] else none)
    (isActive row == row.contains Attr.active)

/-- The block of the `typed` index. -/
def typedUpdate (stream : String) (row : Row) : Cells × List String :=
  let now := (typed row).map (typedPartition stream)
  moved [Attr.typed] (now.map fun p => [(Attr.typed, .text p)]) (now == row.text Attr.typed)

/-- The block of the `dated` index. -/
def datedUpdate (stream id : String) (row : Row) : Cells × List String :=
  let now := (lane row).map fun l => (l.1.partition stream, datedKey l.2 id)
  let was := match row.get Attr.dated, row.get Attr.datedAt with
    | some (.text p), some (.text instant) => some (p, instant)
    | _, _ => none
  moved [Attr.dated, Attr.datedAt]
    (now.map fun d => [(Attr.dated, .text d.1), (Attr.datedAt, .text d.2)]) (now == was)

/-- The write of an item's index attributes. -/
def indexWrite (stream id : String) (row : Row) : Write where
  sk := itemKey id
  set := (activeUpdate stream row).1 ++ (typedUpdate stream row).1 ++ (datedUpdate stream id row).1
  remove := (activeUpdate stream row).2 ++ (typedUpdate stream row).2 ++
    (datedUpdate stream id row).2
  condition := some .rowPresent

/-- The fan-out of a ticket whose activity flipped: the flag of every edge touching it. -/
def refreshEdges (stream id : String) (row : Row) : Requests Unit :=
  if isActive row == row.contains Attr.active then pure ()
  else do
    let entries ← request (.queryPrefix (adjacencyPrefix id))
    Prog.each (refreshTouching stream id (isActive row)) entries

/-- `refresh_item`: the edges go first, told the ticket's new activity, and the ticket's own flag
after. -/
def refreshItem (stream id : String) : Requests (Option Outcome) := do
  match ← request (.get (itemKey id)) with
  | none => pure none
  | some row => do
    refreshEdges stream id row
    let w := indexWrite stream id row
    if w.set.isEmpty && w.remove.isEmpty then pure none
    else do
      let outcome ← request (.write w)
      pure (some outcome)

/-! ## Reverse references -/

/-- `c.is_ascii_whitespace()`. -/
def isAsciiWhitespace (c : Char) : Bool :=
  [' ', '\t', '\n', '\r', Char.ofNat 12].contains c

/-- `is_valid_ref_value`. -/
def isValidRefValue (v : String) : Bool :=
  v != "" && decide (v.utf8ByteSize ≤ maxChunkIdBytes) && hasChar '.' v &&
    !v.toList.any fun c => isAsciiWhitespace c || c == sep || c == chunkPayloadSep

/-- `ref_place_ok`. -/
def refPlaceOk (source field value : String) : Bool :=
  source != "" && decide (source.utf8ByteSize ≤ maxChunkIdBytes) && !hasChar sep source &&
    isValidChunkField field && isValidRefValue value

/-- `ref_cells`. -/
def refCells (source field value : String) : Cells :=
  [("target_id", .text value), ("field", .text field), ("source_id", .text source)]

/-- `present_entry`: the value of a stored list entry no remove observed. -/
def presentEntry (row : Row) : Option String :=
  let removed := match row.get removedAttr with
    | some (.int v) => v != 0
    | _ => false
  if !removed && (row.text "tag").isSome then row.text "value" else none

/-- `link_ref`: the hint, then its mirror; the keys of the rows that did not fit. -/
def linkRef (source field value : String) : Requests (List String) := do
  let cells := refCells source field value
  let hint := refAdjacencyKey value field source
  let outcome ← request (.write (.put hint cells))
  if outcome = .tooLarge then pure [hint]
  else do
    let mirror := refSourceKey source field value
    let outcome ← request (.write (.put mirror cells))
    pure (if outcome = .tooLarge then [mirror] else [])

/-- `unlink_ref`. -/
def unlinkRef (source field value : String) : Requests Unit := do
  request (.delete (refAdjacencyKey value field source))
  request (.delete (refSourceKey source field value))

/-- The values the rows of a place warrant a hint for. -/
def wantedRefs (item field : String) (register : Option Row) (entries : List Row) : List String :=
  let held := (register.bind fun row => row.text "value").toList ++
    (entries.filter fun row =>
      row.text "item_id" == some item && row.text "field" == some field).filterMap presentEntry
  sortedSet (held.filter fun v => refPlaceOk item field v)

/-- `reconcile_refs`: the hints of one place, made what its rows warrant. -/
def reconcileRefs (item field : String) (touched : Bool) : Requests (List String) := do
  let mirrors ← request (.queryPrefix (refSourcePrefix item field))
  let hinted := sortedSet (mirrors.filterMap fun row => row.text "target_id")
  if hinted.isEmpty && !touched then pure []
  else do
    let register ← request (.get (placeKeys item field).1)
    let entries ← request (.queryPrefix (placeKeys item field).2)
    let wanted := wantedRefs item field register entries
    let unwritten ← Prog.collect (linkRef item field) (wanted.filter fun v => v ∉ hinted)
    Prog.each (unlinkRef item field) (hinted.filter fun v => v ∉ wanted)
    pure unwritten

/-! ## After an op -/

/-- The keys a change on these tables names, each once. -/
def touchedKeys (table column : String) (changes : List Change) : List String :=
  sortedSet ((changes.filter fun c => c.table == table).filterMap fun c => keyText c column)

/-- The tag of an add or a remove of the OR-set that may have an entry. -/
def Owned.tagOf (owned : Owned) (c : Change) : Option String :=
  if c.table = owned.removes ∨ (c.table = owned.adds ∧ owned.files (effectText c) = true) then
    keyText c "tag"
  else none

/-- The entries under tickets the changes touch, in the order of the OR-sets. -/
def ownedTags (changes : List Change) : List (Owned × String) :=
  allOwned.flatMap fun owned =>
    (sortedSet (changes.filterMap owned.tagOf)).map fun tag => (owned, tag)

/-- A place a custom value lives at, and whether the change carries a value the reference rule admits
there. -/
def placeOf (c : Change) : Option ((String × String) × Bool) :=
  if c.table = "custom_fields" ∨ c.table = "field_entries" then do
    let item ← keyText c "item_id"
    let field ← keyText c "field"
    return ((item, field), (effectText c "value").any fun v => refPlaceOk item field v)
  else none

/-- The places the changes touch, in order. -/
def places (changes : List Change) : List ((String × String) × Bool) :=
  let touched := changes.filterMap placeOf
  ((touched.map Prod.fst).dedup.insertionSort fun a b =>
      a.1 < b.1 ∨ (a.1 = b.1 ∧ a.2 ≤ b.2)).map fun place =>
    (place, touched.any fun t => t.1 == place && t.2)

/-- `after`: the indexes after one op's changes were carried out; what could not be written, each
said in words. -/
def after (stream : String) (changes : List Change) : Requests (List String) := do
  let items ← Prog.collect (fun id => do
      let outcome ← refreshItem stream id
      pure (if outcome = some .tooLarge then ["the index attributes of item " ++ id] else []))
    (touchedKeys "items" "id" changes)
  Prog.each (linkEdge stream) (touchedKeys "edge_adds" "tag" changes)
  Prog.each (linkEdge stream) (touchedKeys "edge_removes" "tag" changes)
  Prog.each (fun t => refreshOwned t.1 t.2) (ownedTags changes)
  let refs ← Prog.collect (fun place => do
      let keys ← reconcileRefs place.1.1 place.1.2 place.2
      pure (keys.map fun key => "the reverse-reference row " ++ key))
    (places changes)
  pure (items ++ refs)

/-- `derived_keys`: the keys of the entries the changes would be filed under. -/
def derivedKeys (changes : List Change) : List String :=
  ((changes.filter fun c => c.table == "edge_adds").flatMap fun c =>
    ([effectText c "from_id", effectText c "to_id"].filterMap id).map fun endId =>
      adjacencyKey endId ((keyText c "tag").getD "")) ++
  changes.filterMap ownedEntryKey

end NexusFlow.Hosted
