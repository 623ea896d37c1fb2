import NexusFlow.Facade.Reads

/-!
# The write layer

Model of `crates/facade/src/write.rs`: every verb that changes a store, its checks in the order the
source makes them, and the store writes it is made of. Nothing is written before the last check.

The clock of a write is its argument `now`; who writes is `actor`. A reading that fails (a database
error) is not modelled.
-/

namespace NexusFlow.Facade

open NexusFlow.Core NexusFlow.Foundation NexusFlow.Lib Fallible Verb

/-! ## Shared helpers -/

/-- `store.set_field`. -/
def setField (id field : String) (value : Option String) (author : String) : Verb Unit :=
  write (setFieldMerge id field value author .lww)

/-- A field that is set only where the condition holds. -/
def setWhen (c : Bool) (id field : String) (value : Option String) (author : String) :
    Verb Unit :=
  if c then setField id field value author else pure ()

/-- `require_item`. -/
def requireItem (id : String) : Verb ItemRow := do
  orThrow (← look (liveItem · id)) (.notFound s!"no item '{id}'")

/-- `require_live`. -/
def requireLive (id role : String) : Verb Unit := do
  ensure (← look (liveItem · id)).isSome (.notFound s!"{role} '{id}' does not exist")

/-- `stamp_now`. -/
def stampNow (env : Env) (now : String) : Verb Unit := do
  let _ ← ofExcept (Validate.isoDate env.calendar now)
  write (setWallClock now)

/-- `read_back`. -/
def readBack (id : String) : Verb ItemRow := do
  orThrow (← look (getItem · id)) (.io s!"item '{id}' could not be read back")

/-- `matrix_error`. -/
def matrixError (m : RelationshipMatrix) (childId parentId parentType childType : String) :
    MatrixViolation → NxfError
  | .pair =>
    let allowed := m.allowedParents childType
    if allowed.isEmpty then
      let reason := if m.isType childType then
          s!"a '{childType}' is a top-level type and cannot have a parent"
        else s!"'{childType}' is not a type the active plugin declares, so it cannot be parented here"
      .validation s!"'{childId}' cannot be parented under '{parentId}': {reason}"
    else .validation (s!"a '{childType}' may not have a '{parentType}' parent; " ++
      "allowed parent types: " ++ ", ".intercalate allowed)
  | .cardinality => .validation (s!"'{childId}' already has the maximum " ++
      s!"{(m.parentLimit childType).getD 0} parent(s) allowed for a '{childType}'")
  | .depth => .validation (s!"parenting '{childId}' under '{parentId}' would exceed the maximum " ++
      s!"hierarchy depth of {m.maxDepth.getD 0}")

/-- `validate_parent`, its refusal spelled out. -/
def validateEdge (m : RelationshipMatrix) (childId parentId parentType childType : String)
    (existing depth : Nat) : Result ParentWriteMode :=
  match m.validateParent parentType childType existing depth with
  | .ok mode => .ok mode
  | .error v => .error (matrixError m childId parentId parentType childType v)

/-- The depth through a candidate edge: only worked out where the matrix caps it. -/
def depthThrough (env : Env) (m : RelationshipMatrix) (childId parentId : String) : Verb Nat :=
  if m.maxDepth.isSome then do
    let above ← walk (depthAbove env.fuel · parentId)
    let below ← walk (heightBelow env.fuel · childId)
    pure (above + below)
  else pure 0

/-- `check_parent`. -/
def checkParent (env : Env) (m : RelationshipMatrix) (childId childType parentId : String) :
    Verb ParentWriteMode := do
  ensure (parentId != childId) (.validation s!"an item cannot be its own parent ('{childId}')")
  let parent ← orThrow (← look (liveItem · parentId))
    (.notFound s!"parent '{parentId}' does not exist")
  let cyclic ← walk fun db => reaches (parentsOf db) childId env.fuel [parentId] []
  ensure (!cyclic) (.cycle s!"'{childId}' → '{parentId}' would create a parent cycle")
  let parentType := parent.itemType.getD ""
  let existing ← look fun db => ((parentsOf db childId).filter (· != parentId)).length
  let depth ← depthThrough env m childId parentId
  ofExcept (validateEdge m childId parentId parentType childType existing depth)

/-- The type of an item, `""` where it has none. -/
def typeOf (db : Db) (id : String) : String := ((getItem db id).bind ItemRow.itemType).getD ""

/-- One edge of `revalidate_type_change`; an edge whose other end has an undeclared type is
skipped. -/
def revalidateEdge (m : RelationshipMatrix) (childId parentId parentType childType other : String)
    (parents : Nat) : Result Unit :=
  if m.isType other then do
    let _ ← validateEdge m childId parentId parentType childType (parents - 1) 0
  else pure ()

/-- `revalidate_type_change`. -/
def revalidateTypeChange (m : RelationshipMatrix) (id newType : String) (db : Db) :
    Result Unit := do
  let parents := parentsOf db id
  parents.forM fun parentId =>
    revalidateEdge m id parentId (typeOf db parentId) newType (typeOf db parentId) parents.length
  (childrenOf db id).forM fun childId =>
    revalidateEdge m childId id newType (typeOf db childId) (typeOf db childId)
      (parentsOf db childId).length

/-- `write_parent`. -/
def writeParent (mode : ParentWriteMode) (childId parentId actor : String) : Verb Unit :=
  match mode with
  | .replace => write (setParent childId parentId actor)
  | .add => write (addEdge childId parentId .parent actor)

/-! ## Custom fields -/

/-- `CustomWrite`. -/
inductive CustomWrite
  | set (name value : String) (strategy : Core.MergeStrategy)
  | clearList (name : String)
  deriving DecidableEq, Repr

namespace CustomWrite

/-- `CustomWrite::name`. -/
def name : CustomWrite → String
  | set name _ _ => name
  | clearList name => name

/-- `CustomWrite::apply`. -/
def apply (id actor : String) : CustomWrite → Verb Unit
  | set name value strategy => write (setCustomFieldMerge id name (some value) actor strategy)
  | clearList name => write (clearFieldEntries id name actor)

end CustomWrite

/-- `custom_merge_strategy`. -/
def customMergeStrategy : MergeStrategy → Verb Core.MergeStrategy
  | .lww => pure .lww
  | .crdtText => pure .crdtText
  | .orSet => unreachable

/-- `applicable_decl`. -/
def applicableDecl (decl : FieldDecl) (itemType name : String) : Result Unit :=
  require (decl.appliesTo itemType) (.validation
    (s!"custom field '{name}' does not apply to type '{itemType}'; it applies to " ++
      debugList decl.on))

/-- `is_valid_ref_value`. -/
def isValidRefValue (v : String) : Bool :=
  v != "" && decide (v.utf8ByteSize ≤ maxChunkIdBytes) && hasChar '.' v &&
    !v.toList.any fun c => [' ', '\t', '\n', '\u000c', '\r', sep, chunkPayloadSep].contains c

/-- `typed_custom_value`. -/
def typedCustomValue (cal : Calendar) (decl : FieldDecl) (name : String) (itemId : Option String)
    (value : String) (db : Db) : Result String :=
  match decl.fieldType with
  | .date => Validate.isoDate cal value
  | .datetime => (Validate.datetime cal value).mapError fun e =>
      .validation s!"custom field '{name}': {e.msg}"
  | .enum => do
    require (decl.values.contains value) (.validation
      (s!"'{value}' is not a valid '{name}' value; expected one of " ++ debugList decl.values))
    pure value
  | .text | .longtext => .ok value
  | .ref => do
    require (isValidRefValue value) (.validation
      (s!"custom field '{name}': a ref is a full item id '<prefix>.<suffix>' " ++
        s!"(got '{value}')"))
    match liveItem db value with
    | none => .error (.notFound s!"custom field '{name}': no item '{value}'")
    | some target => do
      let ty := target.itemType.getD ""
      require (decl.targets.contains ty) (.validation
        (s!"custom field '{name}': '{value}' is a {ty}; it accepts " ++
          ", ".intercalate decl.targets))
      require (itemId != some value) (.validation
        s!"custom field '{name}': an item cannot reference itself")
      pure value

/-- `prepare_custom_set`. -/
def prepareCustomSet (env : Env) (decl : FieldDecl) (itemType : String) (itemId : Option String)
    (name value : String) : Verb CustomWrite := do
  ofExcept (applicableDecl decl itemType name)
  if decl.list then
    ensure (value == "") (.validation
      (s!"custom field '{name}' is a list — add an entry with `nxf entry add <id> {name} " ++
        "<value> [--label <label>]` (MCP flow_entry_add) and remove one with `nxf entry " ++
        s!"remove`; `--set {name}=` (empty) clears it"))
    pure (.clearList name)
  else
    let canonical ← checked fun db =>
      if value = "" then .ok "" else typedCustomValue env.calendar decl name itemId value db
    let strategy ← customMergeStrategy decl.merge
    pure (.set name canonical strategy)

/-- `prepare_custom_sets`. -/
def prepareCustomSets (env : Env) (cfg : PluginConfig) (itemType : String) (itemId : Option String)
    (pairs : List (String × String)) : Verb (List CustomWrite) :=
  pairs.mapM fun pair => do
    let decl ← orThrow (cfg.fields.get pair.1) (.validation
      (s!"'{pair.1}' is not a declared custom field of the active plugin (declared: " ++
        debugList cfg.customFieldNames ++ "); canonical fields have their own create flags"))
    prepareCustomSet env decl itemType itemId pair.1 pair.2

/-- `normalize_field`. -/
def normalizeField (field : String) : String :=
  if field = "defer" then "defer_until" else if field = "parent" then "belongs_to" else field

/-- One `field=value`, split at the first `=`, the field's alias resolved. -/
def splitPair (raw : String) : Result (String × String) :=
  match splitOnce '=' raw with
  | some (field, value) => .ok (normalizeField field, value)
  | none => .error (.validation s!"expected field=value, got '{raw}'")

/-- `split_custom_pairs`. -/
def splitCustomPairs (raw : List String) : Result (List (String × String)) := raw.mapM splitPair

/-- `check_required_custom_fields`. -/
def checkRequiredCustomFields (cfg : PluginConfig) (itemType : String) (supplied : List String) :
    Result Unit :=
  cfg.fields.entries.forM fun e =>
    require (!(e.2.required && e.2.appliesTo itemType && !supplied.contains e.1)) (.validation
      s!"custom field '{e.1}' is required for type '{itemType}' but was not set")

/-! ## create -/

/-- `NewItem`. -/
structure NewItem where
  description : String
  priority : String
  design : Option String
  dod : Option String
  due : Option String
  defer : Option String
  parent : Option String
  dependsOn : List String
  custom : List String
  deriving DecidableEq, Repr

/-- An optional date, checked. -/
def optionalDate (cal : Calendar) (value : Option String) : Result (Option String) :=
  match value with
  | some v => (Validate.isoDate cal v).map some
  | none => .ok none

/-- A field that is set only if it was given. -/
def setIfGiven (id field : String) (value : Option String) (actor : String) : Verb Unit :=
  match value with
  | some v => setField id field (some v) actor
  | none => pure ()

/-- Mint an id no item has. -/
def mintId (env : Env) (pre : String) : Verb String := do
  let minted ← look fun db =>
    let isTaken := fun id => (getItem db id).isSome
    if env.deterministicIds then mintSequential pre isTaken
    else mintUnique pre env.suffixes isTaken
  orThrow minted
    (.io "could not mint a unique id; the replica's suffix space may be exhausted")

/-- The check of a parent that may not be given. -/
def checkOptionalParent (env : Env) (m : RelationshipMatrix) (id itemType : String)
    (parent : Option String) : Verb (Option (String × ParentWriteMode)) :=
  match parent with
  | some parent => do return some (parent, ← checkParent env m id itemType parent)
  | none => pure none

/-- The write of a parent that was checked. -/
def writeOptionalParent (id actor : String) (parent : Option (String × ParentWriteMode)) :
    Verb Unit :=
  match parent with
  | some (parent, mode) => writeParent mode id parent actor
  | none => pure ()

/-- `create`. -/
def create (env : Env) (cfg : PluginConfig) (pre now actor ty title : String) (new : NewItem) :
    Verb ItemRow := do
  let actor ← ofExcept (Validate.actor actor)
  let itemType ← ofExcept (cfg.resolveItemType ty)
  let priority ← ofExcept (cfg.resolvePriority new.priority)
  let due ← ofExcept (optionalDate env.calendar new.due)
  let defer ← ofExcept (optionalDate env.calendar new.defer)
  let customPairs ← ofExcept (splitCustomPairs new.custom)
  let customWrites ← prepareCustomSets env cfg itemType none customPairs
  ofExcept (checkRequiredCustomFields cfg itemType (customWrites.map CustomWrite.name))
  new.dependsOn.forM fun dep => requireLive dep "dependency"
  let id ← mintId env pre
  let parent ← checkOptionalParent env cfg.types id itemType new.parent
  stampNow env now
  write (createItem id itemType title actor)
  setField id "description" (some new.description) actor
  setField id "priority" (some priority) actor
  setIfGiven id "design" new.design actor
  setIfGiven id "completion_criterion" new.dod actor
  setIfGiven id "due" due actor
  setIfGiven id "defer_until" defer actor
  writeOptionalParent id actor parent
  new.dependsOn.forM fun dep => write (addEdge id dep .dep actor)
  customWrites.forM fun w => w.apply id actor
  readBack id

/-! ## update -/

/-- `UPDATABLE_FIELDS`. -/
def updatableFields : List String :=
  ["type", "title", "completion_criterion", "description", "design", "status", "priority", "due",
    "defer_until", "assignee", "belongs_to", "closing_comment"]

/-- `CLEARABLE_ON_EMPTY`. -/
def clearableOnEmpty : List String := ["due", "defer_until", "assignee"]

/-- `prepare_set`: the value to store. -/
def prepareSet (cal : Calendar) (cfg : PluginConfig) (field value : String) : Result String := do
  let custom := cfg.customFieldNames
  let customHint := if custom.isEmpty then "" else "; custom fields: " ++ debugList custom
  require (updatableFields.contains field) (.validation
    (s!"field '{field}' is not updatable; settable fields: " ++ debugList updatableFields ++
      " (aliases: parent→belongs_to, defer→defer_until)" ++ customHint))
  if field = "status" then do
    require (cfg.statuses.contains value) (.validation
      (s!"unknown status '{value}'; expected one of " ++ debugList cfg.statuses.keys))
    pure value
  else if field = "priority" then cfg.resolvePriority value
  else if field = "due" ∨ field = "defer_until" then Validate.isoDate cal value
  else if field = "type" then .error (.validation
    "type is changed via the retype path (resolve + edge re-validation), not a generic set")
  else pure value

/-- What the loop of `update` has gathered. -/
structure ParsedSets where
  parsed : List (String × Option String)
  typeWrite : Option String
  belongsToWrite : Option String
  rawCustom : List (String × String)
  deriving DecidableEq, Repr

/-- One turn of the loop of `update`. -/
def parseSet (cal : Calendar) (cfg : PluginConfig) (acc : ParsedSets) (raw : String) :
    Result ParsedSets := do
  let (field, value) ← splitPair raw
  if field = "type" then do
    let ty ← cfg.resolveItemType value
    pure { acc with typeWrite := some ty }
  else if cfg.fields.contains field then
    pure { acc with rawCustom := acc.rawCustom ++ [(field, value)] }
  else if value = "" ∧ clearableOnEmpty.contains field then
    pure { acc with parsed := acc.parsed ++ [(field, none)] }
  else do
    let value ← prepareSet cal cfg field value
    if field = "belongs_to" then pure { acc with belongsToWrite := some value }
    else pure { acc with parsed := acc.parsed ++ [(field, some value)] }

/-- The loop of `update`. -/
def parseSets (cal : Calendar) (cfg : PluginConfig) (sets : List String) : Result ParsedSets :=
  sets.foldlM (parseSet cal cfg) ⟨[], none, none, []⟩

/-- The status a batch names, as `update` looks for it: the first one. -/
def ParsedSets.newStatus (p : ParsedSets) : Option String :=
  (p.parsed.find? fun set => set.1 == "status").bind Prod.snd

/-- The type ops and edge checks of a retype. -/
def checkRetype (m : RelationshipMatrix) (id : String) (typeWrite : Option String) : Verb Unit :=
  match typeWrite with
  | some newType => checked (revalidateTypeChange m id newType)
  | none => pure ()

/-- `closed_at` kept in sync with the status, as `update` does it. -/
def syncClosedAt (id now actor : String) (wasClosedAt : Option String)
    (newStatus : Option String) : Verb Unit :=
  match newStatus with
  | some status =>
    if status = "closed" then setField id "closed_at" (some now) actor
    else setWhen wasClosedAt.isSome id "closed_at" none actor
  | none => pure ()

/-- `update`. -/
def update (env : Env) (cfg : PluginConfig) (now actor id : String) (sets : List String) :
    Verb ItemRow := do
  let actor ← ofExcept (Validate.actor actor)
  let item ← requireItem id
  let currentType := item.itemType.getD ""
  let p ← ofExcept (parseSets env.calendar cfg sets)
  let effectiveType := p.typeWrite.getD currentType
  let customWrites ← prepareCustomSets env cfg effectiveType (some id) p.rawCustom
  checkRetype cfg.types id p.typeWrite
  let parent ← checkOptionalParent env cfg.types id effectiveType p.belongsToWrite
  stampNow env now
  setIfGiven id "type" p.typeWrite actor
  p.parsed.forM fun set => setField id set.1 set.2 actor
  customWrites.forM fun w => w.apply id actor
  writeOptionalParent id actor parent
  syncClosedAt id now actor item.closedAt p.newStatus
  readBack id

/-! ## claim, close -/

/-- The loop of `claim_up`: a stack, its last element first here. -/
def claimUp (actor : String) : Nat → List String → List String → Verb Unit
  | _, [], _ => pure ()
  | 0, _ :: _, _ => unreachable
  | fuel + 1, pid :: frontier, seen =>
    if seen.contains pid then claimUp actor fuel frontier seen
    else do
      let parent ← look (liveItem · pid)
      match parent with
      | none => claimUp actor fuel frontier (pid :: seen)
      | some parent =>
        setWhen (parent.status == some "open") pid "status" (some "in_progress") actor
        let parents ← look (parentsOf · pid)
        claimUp actor fuel (parents.reverse ++ frontier) (pid :: seen)

/-- `claim`. -/
def claim (env : Env) (now actor id : String) (assignee : Option String) : Verb ItemRow := do
  let actor ← ofExcept (Validate.actor actor)
  let item ← requireItem id
  stampNow env now
  setField id "status" (some "in_progress") actor
  setIfGiven id "assignee" assignee actor
  setWhen item.closedAt.isSome id "closed_at" none actor
  let parents ← look (parentsOf · id)
  claimUp actor env.fuel parents.reverse [id]
  readBack id

/-- `close`. -/
def close (env : Env) (now actor id : String) (reason : Option String) : Verb ItemRow := do
  let actor ← ofExcept (Validate.actor actor)
  let reason ← orThrow reason (.validation
    "close requires a reason: pass a closing comment (closing is final)")
  let _ ← requireItem id
  stampNow env now
  setField id "status" (some "closed") actor
  setField id "closing_comment" (some reason) actor
  setField id "closed_at" (some now) actor
  readBack id

/-! ## Edges -/

/-- What the edge verbs share: who writes, both ends, then the write. -/
def edgeVerb (env : Env) (now actor fromId toId : String) (w : String → Write Unit) :
    Verb Unit := do
  let actor ← ofExcept (Validate.actor actor)
  let _ ← requireItem fromId
  let _ ← requireItem toId
  stampNow env now
  write (w actor)

/-- A new dependency would close a cycle. -/
def closesCycle (env : Env) (fromId toId : String) : Verb Bool :=
  if fromId = toId then pure true
  else walk fun db => reaches (depsOf db) fromId env.fuel [toId] []

/-- `dep_add`. -/
def depAdd (env : Env) (now actor fromId toId : String) : Verb Unit := do
  let actor ← ofExcept (Validate.actor actor)
  let _ ← requireItem fromId
  let _ ← requireItem toId
  let closes ← closesCycle env fromId toId
  ensure (!closes) (.cycle s!"'{fromId}' -> '{toId}' would create a dependency cycle")
  stampNow env now
  write (addEdge fromId toId .dep actor)

/-- `dep_remove`. -/
def depRemove (env : Env) (now actor fromId toId : String) : Verb Unit :=
  edgeVerb env now actor fromId toId (removeEdge fromId toId .dep)

/-- `mention_add`. -/
def mentionAdd (env : Env) (now actor fromId toId : String) : Verb Unit :=
  edgeVerb env now actor fromId toId (addEdge fromId toId .mentions)

/-- `mention_remove`. -/
def mentionRemove (env : Env) (now actor fromId toId : String) : Verb Unit :=
  edgeVerb env now actor fromId toId (removeEdge fromId toId .mentions)

/-- `contributes_add`. -/
def contributesAdd (env : Env) (now actor fromId toId : String) : Verb Unit :=
  edgeVerb env now actor fromId toId (addEdge fromId toId .contributesTo)

/-- `contributes_remove`. -/
def contributesRemove (env : Env) (now actor fromId toId : String) : Verb Unit :=
  edgeVerb env now actor fromId toId (removeEdge fromId toId .contributesTo)

/-! ## Labels, thread links, notes, chunks, entries -/

/-- What the label verbs share. -/
def labelVerb (env : Env) (now actor id label : String) (w : String → String → Write Unit) :
    Verb Unit := do
  let actor ← ofExcept (Validate.actor actor)
  let _ ← requireItem id
  let label ← ofExcept (Validate.label label)
  stampNow env now
  write (w label actor)

/-- `label_add`. -/
def labelAdd (env : Env) (now actor id label : String) : Verb Unit :=
  labelVerb env now actor id label (addLabel id)

/-- `label_remove`. -/
def labelRemove (env : Env) (now actor id label : String) : Verb Unit :=
  labelVerb env now actor id label (removeLabel id)

/-- What the thread-link verbs share. -/
def threadLinkVerb (env : Env) (now actor thread item : String)
    (w : String → String → Write Unit) : Verb Unit := do
  let actor ← ofExcept (Validate.actor actor)
  let _ ← requireItem item
  let thread ← ofExcept (Validate.threadId thread)
  stampNow env now
  write (w thread actor)

/-- `thread_link_add`. -/
def threadLinkAdd (env : Env) (now actor thread item : String) (relation : LinkRelation)
    (weight : LinkWeight) : Verb Unit :=
  threadLinkVerb env now actor thread item fun thread => addThreadLink thread item relation weight

/-- `thread_link_remove`. -/
def threadLinkRemove (env : Env) (now actor thread item : String) : Verb Unit :=
  threadLinkVerb env now actor thread item fun thread => removeThreadLink thread item

/-- `require_list_field`: the declaration of a list field, and the item's type. -/
def requireListField (cfg : PluginConfig) (id field : String) : Verb (FieldDecl × String) := do
  let item ← requireItem id
  match cfg.fields.get field with
  | some decl =>
    ensure decl.list (.validation
      (s!"custom field '{field}' holds a single value, not a list — set it with " ++
        s!"`--set {field}=<value>`"))
    pure (decl, item.itemType.getD "")
  | none =>
    let lists := (cfg.fields.entries.filter fun e => e.2.list).map Prod.fst
    throw (.validation
      (s!"'{field}' is not a list field of the active plugin (list fields: " ++
        debugList lists ++ ")"))

/-- `entry_text`. -/
def entryText (field value : String) : Result String := do
  let trimmed := trimSpace value
  require (trimmed != "") (.validation s!"an entry of '{field}' must not be blank")
  require (!hasChar sep trimmed) (.validation
    s!"an entry of '{field}' must not contain the U+001F control character")
  pure trimmed

/-- An optional label, checked. -/
def optionalLabel (label : Option String) : Result (Option String) :=
  match label with
  | some l => (Validate.label l).map some
  | none => .ok none

/-- `entry_add`. -/
def entryAdd (env : Env) (cfg : PluginConfig) (now actor id field value : String)
    (label : Option String) : Verb FieldEntry := do
  let actor ← ofExcept (Validate.actor actor)
  let (decl, itemType) ← requireListField cfg id field
  ofExcept (applicableDecl decl itemType field)
  let text ← ofExcept (entryText field value)
  let value ← checked (typedCustomValue env.calendar decl field (some id) text)
  let label ← ofExcept (optionalLabel label)
  let size := (entryValue value label).utf8ByteSize
  ensure (decide (size ≤ maxFieldEntryBytes)) (.validation
    (s!"an entry of '{field}' is {size} bytes with its label; the limit is " ++
      toString maxFieldEntryBytes))
  stampNow env now
  let _ ← write (addFieldEntry id field value label actor)
  pure ⟨value, label⟩

/-- The removal of an entry under the text as given, where that is not the stored form. -/
def removeAsGiven (id field value text actor : String) : Verb Unit :=
  if value ≠ text then write (removeFieldEntry id field text actor) else pure ()

/-- `entry_remove`. -/
def entryRemove (env : Env) (cfg : PluginConfig) (now actor id field value : String) :
    Verb String := do
  let actor ← ofExcept (Validate.actor actor)
  let (decl, _) ← requireListField cfg id field
  let text ← ofExcept (entryText field value)
  let value := if decl.fieldType = .datetime then
      ((Validate.datetime env.calendar text).toOption).getD text
    else text
  stampNow env now
  write (removeFieldEntry id field value actor)
  removeAsGiven id field value text actor
  pure value

/-- `note_add`. -/
def noteAdd (env : Env) (now actor id text : String) : Verb String := do
  let actor ← ofExcept (Validate.actor actor)
  let _ ← requireItem id
  stampNow env now
  write (addNote id text actor)

/-- `validate::chunk_field`. -/
def chunkField (field : String) : Result Unit :=
  require (isValidChunkField field) (.validation
    s!"'{field}' is not a chunk field: 1 to 64 ASCII letters, digits, '_', '-' or '.'")

/-- `validate::chunk_size`. -/
def chunkSize (bytes : Nat) : Result Unit :=
  require (decide (bytes ≤ maxChunkBytes)) (.validation
    (s!"a chunk op carries at most {maxChunkBytes} bytes, this one {bytes}: split the chunk, or " ++
      "supersede fewer chunks at once"))

/-- `validate::chunk_item`. -/
def chunkItem (id : String) : Result Unit :=
  require (decide (id.utf8ByteSize ≤ maxChunkIdBytes)) (.validation
    s!"an item id carries chunks only up to {maxChunkIdBytes} bytes")

/-- `validate::chunk_ids`. -/
def chunkIds (ids : List String) : Result Unit := do
  require (!ids.isEmpty) (.validation "a supersede must name at least one chunk it replaces")
  require (decide (ids.length ≤ maxSuperseded)) (.validation
    (s!"a supersede replaces at most {maxSuperseded} chunks, this one {ids.length}: " ++
      "supersede in rounds"))
  match ids.find? fun id => !isValidChunkId id with
  | some bad => .error (.validation
      (s!"'{escapeDebug bad}' is not a chunk id: it must be 1 to {maxChunkIdBytes} bytes and " ++
        "free of U+001E and U+001F"))
  | none => pure ()

/-- `chunk_append`. -/
def chunkAppend (env : Env) (now actor id field payload : String) : Verb String := do
  let actor ← ofExcept (Validate.actor actor)
  ofExcept (chunkField field)
  ofExcept (chunkSize payload.utf8ByteSize)
  ofExcept (chunkItem id)
  let _ ← requireItem id
  stampNow env now
  write (appendChunk id field payload actor)

/-- `chunk_supersede`. -/
def chunkSupersede (env : Env) (now actor id field : String) (replaced : List String)
    (payload : String) : Verb String := do
  let actor ← ofExcept (Validate.actor actor)
  ofExcept (chunkField field)
  ofExcept (chunkIds replaced)
  ofExcept (chunkSize (supersedeValue replaced payload).utf8ByteSize)
  ofExcept (chunkItem id)
  let _ ← requireItem id
  stampNow env now
  write (supersedeChunks id field replaced payload actor)

/-! ## archive, unarchive -/

/-- `ArchiveReason`. -/
inductive ArchiveReason
  | notFound
  | notClosed
  | hasOpenDescendants
  | notArchived
  deriving DecidableEq, Repr

/-- `RootOutcome`: no reason is success. -/
structure RootOutcome where
  id : String
  reason : Option ArchiveReason
  deriving DecidableEq, Repr

/-- `BatchResult`. -/
structure BatchResult where
  outcomes : List RootOutcome
  affected : List String
  deriving DecidableEq, Repr

/-- `closed_for_archive`. -/
def closedForArchive (item : ItemRow) : Bool := item.status == some "closed" || item.archived.isSome

/-- Set or clear `archived` on each item of a cascade; the ids. -/
def stampArchived (value : Option String) (actor : String) (items : List ItemRow) :
    Verb (List String) :=
  items.mapM fun item => do
    setField item.id "archived" value actor
    pure item.id

/-- One root of `archive`: why it fails, or the ids it put away. -/
def archiveRoot (env : Env) (now actor id : String) :
    Verb (Except ArchiveReason (List String)) := do
  match ← look (liveItem · id) with
  | none => pure (.error .notFound)
  | some root =>
    if !closedForArchive root then pure (.error .notClosed)
    else do
      let descendants ← walk (liveDescendants env.fuel · id)
      if !descendants.all closedForArchive then pure (.error .hasOpenDescendants)
      else do
        let ids ← stampArchived (some now) actor
          ((root :: descendants).filter fun i => i.archived.isNone)
        pure (.ok ids)

/-- One root of `unarchive`. -/
def unarchiveRoot (env : Env) (actor id : String) : Verb (Except ArchiveReason (List String)) := do
  match ← look (liveItem · id) with
  | none => pure (.error .notFound)
  | some item =>
    if item.archived.isNone then pure (.error .notArchived)
    else do
      let ancestors ← walk fun db => liveAncestors db env.fuel [item.id] item.belongsTo
      let ids ← stampArchived none actor ((item :: ancestors).filter fun i => i.archived.isSome)
      pure (.ok ids)

/-- The batch `archive` and `unarchive` share: each root on its own. -/
def archiveBatch (env : Env) (now actor : String) (ids : List String)
    (root : String → String → Verb (Except ArchiveReason (List String))) : Verb BatchResult := do
  let actor ← ofExcept (Validate.actor actor)
  stampNow env now
  let results ← ids.mapM fun id => do
    return (id, ← root actor id)
  let affected := results.flatMap fun r => r.2.toOption.getD []
  pure {
    outcomes := results.map fun r => ⟨r.1, match r.2 with
      | .ok _ => none
      | .error reason => some reason⟩
    affected := affected.dedup.insertionSort (· ≤ ·) }

/-- `archive`. -/
def archive (env : Env) (now actor : String) (ids : List String) : Verb BatchResult :=
  archiveBatch env now actor ids fun actor id => archiveRoot env now actor id

/-- `unarchive`. -/
def unarchive (env : Env) (now actor : String) (ids : List String) : Verb BatchResult :=
  archiveBatch env now actor ids fun actor id => unarchiveRoot env actor id

/-! ## The verbs -/

/-- A call of the write layer. -/
inductive Call
  | create (pre now actor ty title : String) (new : NewItem)
  | update (now actor id : String) (sets : List String)
  | claim (now actor id : String) (assignee : Option String)
  | close (now actor id : String) (reason : Option String)
  | depAdd (now actor fromId toId : String)
  | depRemove (now actor fromId toId : String)
  | mentionAdd (now actor fromId toId : String)
  | mentionRemove (now actor fromId toId : String)
  | contributesAdd (now actor fromId toId : String)
  | contributesRemove (now actor fromId toId : String)
  | labelAdd (now actor id label : String)
  | labelRemove (now actor id label : String)
  | entryAdd (now actor id field value : String) (label : Option String)
  | entryRemove (now actor id field value : String)
  | threadLinkAdd (now actor thread item : String) (relation : LinkRelation) (weight : LinkWeight)
  | threadLinkRemove (now actor thread item : String)
  | archive (now actor : String) (ids : List String)
  | unarchive (now actor : String) (ids : List String)
  | noteAdd (now actor id text : String)
  | chunkAppend (now actor id field payload : String)
  | chunkSupersede (now actor id field : String) (replaced : List String) (payload : String)

/-- What a call does to the store; what it returns is dropped. -/
def Call.run (env : Env) (cfg : PluginConfig) : Call → Verb Unit
  | create pre now actor ty title new => do
    let _ ← Facade.create env cfg pre now actor ty title new
  | update now actor id sets => do let _ ← Facade.update env cfg now actor id sets
  | claim now actor id assignee => do let _ ← Facade.claim env now actor id assignee
  | close now actor id reason => do let _ ← Facade.close env now actor id reason
  | depAdd now actor fromId toId => Facade.depAdd env now actor fromId toId
  | depRemove now actor fromId toId => Facade.depRemove env now actor fromId toId
  | mentionAdd now actor fromId toId => Facade.mentionAdd env now actor fromId toId
  | mentionRemove now actor fromId toId => Facade.mentionRemove env now actor fromId toId
  | contributesAdd now actor fromId toId => Facade.contributesAdd env now actor fromId toId
  | contributesRemove now actor fromId toId => Facade.contributesRemove env now actor fromId toId
  | labelAdd now actor id label => Facade.labelAdd env now actor id label
  | labelRemove now actor id label => Facade.labelRemove env now actor id label
  | entryAdd now actor id field value label => do
    let _ ← Facade.entryAdd env cfg now actor id field value label
  | entryRemove now actor id field value => do
    let _ ← Facade.entryRemove env cfg now actor id field value
  | threadLinkAdd now actor thread item relation weight =>
    Facade.threadLinkAdd env now actor thread item relation weight
  | threadLinkRemove now actor thread item => Facade.threadLinkRemove env now actor thread item
  | archive now actor ids => do let _ ← Facade.archive env now actor ids
  | unarchive now actor ids => do let _ ← Facade.unarchive env now actor ids
  | noteAdd now actor id text => do let _ ← Facade.noteAdd env now actor id text
  | chunkAppend now actor id field payload => do
    let _ ← Facade.chunkAppend env now actor id field payload
  | chunkSupersede now actor id field replaced payload => do
    let _ ← Facade.chunkSupersede env now actor id field replaced payload

end NexusFlow.Facade
