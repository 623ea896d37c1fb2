import NexusFlow.Foundation.Text

/-!
# flow's vocabulary

Model of `crates/core/src/model.rs`: the fixed token sets (`Status`, `EdgeKind`, `LinkRelation`,
`LinkWeight`, `MergeStrategy`), the limits that decide which ops fold, and the two value codecs, of
a list-field entry and of a chunk supersede. `as_str` and `parse` are read off one table each.
-/

namespace NexusFlow.Core

open NexusFlow.Foundation

/-! ## Token sets -/

/-- Canonical core lifecycle. -/
inductive Status
  | «open»
  | inProgress
  | closed
  deriving DecidableEq, Repr

/-- `Status::as_str`. -/
def Status.asStr : Status → String
  | .open => "open"
  | .inProgress => "in_progress"
  | .closed => "closed"

/-- Typed n:m edges. -/
inductive EdgeKind
  | dep
  | contributesTo
  | mentions
  | parent
  deriving DecidableEq, Repr

/-- `EdgeKind::as_str`. -/
def EdgeKind.asStr : EdgeKind → String
  | .dep => "dep"
  | .contributesTo => "contributes_to"
  | .mentions => "mentions"
  | .parent => "parent"

/-- `EdgeKind::parse`. -/
def EdgeKind.parse (s : String) : Option EdgeKind :=
  [EdgeKind.dep, .contributesTo, .mentions, .parent].find? fun k => k.asStr == s

/-- What a thread's link to an item consists in. -/
inductive LinkRelation
  | workedOn
  | cited
  deriving DecidableEq, Repr

/-- `LinkRelation::as_str`. -/
def LinkRelation.asStr : LinkRelation → String
  | .workedOn => "worked_on"
  | .cited => "cited"

/-- `LinkRelation::parse`. -/
def LinkRelation.parse (s : String) : Option LinkRelation :=
  [LinkRelation.workedOn, .cited].find? fun r => r.asStr == s

/-- How much a thread is about the item it links to. -/
inductive LinkWeight
  | bearing
  | passing
  deriving DecidableEq, Repr

/-- `LinkWeight::as_str`. -/
def LinkWeight.asStr : LinkWeight → String
  | .bearing => "bearing"
  | .passing => "passing"

/-- `LinkWeight::parse`. -/
def LinkWeight.parse (s : String) : Option LinkWeight :=
  [LinkWeight.bearing, .passing].find? fun w => w.asStr == s

/-- Per-field merge strategy, riding the op's `op_type`. -/
inductive MergeStrategy
  | lww
  | crdtText
  deriving DecidableEq, Repr

/-- `MergeStrategy::as_str`. -/
def MergeStrategy.asStr : MergeStrategy → String
  | .lww => "lww"
  | .crdtText => "crdt-text"

/-- `MergeStrategy::parse`. -/
def MergeStrategy.parse (s : String) : Option MergeStrategy :=
  [MergeStrategy.lww, .crdtText].find? fun m => m.asStr == s

/-- `MergeStrategy::item_set_op_type`. -/
def MergeStrategy.itemSetOpType : MergeStrategy → String
  | .lww => "set"
  | .crdtText => "set:crdt-text"

/-- `MergeStrategy::from_item_set_op_type`: the bare `set`, or `set:` and a strategy's name. -/
def MergeStrategy.fromItemSetOpType (opType : String) : Option MergeStrategy :=
  if opType = "set" then some .lww else (stripPrefix "set:" opType).bind MergeStrategy.parse

theorem EdgeKind.parse_asStr (k : EdgeKind) : EdgeKind.parse k.asStr = some k := by
  cases k <;> decide

theorem LinkRelation.parse_asStr (r : LinkRelation) : LinkRelation.parse r.asStr = some r := by
  cases r <;> decide

theorem LinkWeight.parse_asStr (w : LinkWeight) : LinkWeight.parse w.asStr = some w := by
  cases w <;> decide

theorem MergeStrategy.fromItemSetOpType_itemSetOpType (m : MergeStrategy) :
    MergeStrategy.fromItemSetOpType m.itemSetOpType = some m := by
  cases m <;> decide

/-! ## Limits -/

/-- flow's domain. -/
def domainTask : String := "task"

/-- `MAX_CHUNK_BYTES`. -/
def maxChunkBytes : Nat := 300 * 1024

/-- `MAX_CHUNK_ID_BYTES`. -/
def maxChunkIdBytes : Nat := 128

/-- `MAX_SUPERSEDED`. -/
def maxSuperseded : Nat := 1024

/-- `MAX_FIELD_ENTRY_BYTES`. -/
def maxFieldEntryBytes : Nat := 16 * 1024

/-- `MAX_ENTRY_TAGS`. -/
def maxEntryTags : Nat := 1024

/-- `SEP` and `ENTRY_SEP`, U+001F: inside composite ids, and between the tags of a remove. -/
def sep : Char := '\u001f'

/-- `CHUNK_PAYLOAD_SEP`, U+001E: ends a supersede's list of replaced ids. -/
def chunkPayloadSep : Char := '\u001e'

/-- `is_valid_chunk_field`. -/
def isValidChunkField (field : String) : Bool :=
  decide (1 ≤ field.utf8ByteSize) && decide (field.utf8ByteSize ≤ 64) &&
    field.toList.all fun c => isAsciiAlphanumeric c || c == '_' || c == '-' || c == '.'

/-- `is_valid_chunk_id`. -/
def isValidChunkId (id : String) : Bool :=
  id != "" && decide (id.utf8ByteSize ≤ maxChunkIdBytes) && !hasChar sep id &&
    !hasChar chunkPayloadSep id

/-! ## Value codecs -/

/-- `supersede_value`. -/
def supersedeValue (replaced : List String) (payload : String) : String :=
  joinChar sep replaced ++ (String.singleton chunkPayloadSep ++ payload)

/-- `entry_value`. -/
def entryValue (value : String) : Option String → String
  | some label => value ++ (String.singleton sep ++ label)
  | none => value

/-- `parse_entry_value`: `None` for an empty value, an empty label, or a second separator. -/
def parseEntryValue (raw : String) : Option (String × Option String) :=
  let (value, label) := match splitOnce sep raw with
    | some (value, label) => (value, some label)
    | none => (raw, none)
  let labelOk := match label with
    | some l => l != "" && !hasChar sep l
    | none => true
  if value != "" && labelOk then some (value, label) else none

theorem parseEntryValue_eq_some {raw v : String} {label : Option String}
    (h : parseEntryValue raw = some (v, label)) : raw = entryValue v label ∧ v ≠ "" ∧
      hasChar sep v = false ∧ ∀ l, label = some l → l ≠ "" ∧ hasChar sep l = false := by
  unfold parseEntryValue at h
  cases hs : splitOnce sep raw with
  | none =>
    simp only [hs, Bool.and_true, bne_iff_ne, ne_eq] at h
    split_ifs at h with hv
    cases h
    exact ⟨rfl, hv, splitOnce_eq_none hs, fun l hl => by cases hl⟩
  | some p =>
    obtain ⟨a, b⟩ := p
    simp only [hs, Bool.and_eq_true, bne_iff_ne, ne_eq, Bool.not_eq_true'] at h
    split_ifs at h with hv
    cases h
    obtain ⟨hraw, ha⟩ := splitOnce_eq_some hs
    refine ⟨hraw, hv.1, ha, fun l hl => ?_⟩
    cases hl
    exact hv.2

theorem parseEntryValue_entryValue {v : String} {label : Option String} (hv : v ≠ "")
    (hs : hasChar sep v = false) (hl : ∀ l, label = some l → l ≠ "" ∧ hasChar sep l = false) :
    parseEntryValue (entryValue v label) = some (v, label) := by
  unfold parseEntryValue
  cases label with
  | none =>
    have hsplit : splitOnce sep v = none := by
      cases hp : splitOnce sep v with
      | none => rfl
      | some p =>
        obtain ⟨hraw, _⟩ := splitOnce_eq_some (a := p.1) (b := p.2) hp
        rw [hasChar_eq_false_iff, hraw] at hs
        simp at hs
    simp [entryValue, hsplit, hv]
  | some l =>
    obtain ⟨hne, hsl⟩ := hl l rfl
    simp [entryValue, splitOnce_append hs, hv, hne, hsl]

end NexusFlow.Core
