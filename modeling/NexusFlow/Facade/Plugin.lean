import NexusFlow.Facade.Matrix
import NexusFlow.Foundation.Op
import NexusFlow.Foundation.Text

/-!
# Errors, inputs and the plugin's configuration

Model of `crates/foundation/src/error.rs`, of the checks of `crates/facade/src/validate.rs` and of
what the write layer reads of a plugin (`crates/facade/src/plugin/mod.rs:80-160,640-770`).

Dates are parsed by a library: `Calendar` is what it answers. Text in an error is spelled as the
source spells it; `debugStr` is Rust's `{:?}`, with the short escapes only.
-/

namespace NexusFlow.Facade

open NexusFlow.Foundation NexusFlow.Lib

/-! ## Errors -/

/-- `ErrorKind`, the kinds the write layer raises. -/
inductive ErrorKind
  | notFound
  | validation
  | cycle
  | io
  deriving DecidableEq, Repr

/-- `NxfError`. -/
structure NxfError where
  kind : ErrorKind
  msg : String
  deriving DecidableEq, Repr

namespace NxfError

/-- `NxfError::not_found`. -/
def notFound (msg : String) : NxfError := ⟨.notFound, msg⟩

/-- `NxfError::validation`. -/
def validation (msg : String) : NxfError := ⟨.validation, msg⟩

/-- `NxfError::cycle`. -/
def cycle (msg : String) : NxfError := ⟨.cycle, msg⟩

/-- `NxfError::io`. -/
def io (msg : String) : NxfError := ⟨.io, msg⟩

end NxfError

/-- `Result<T>`. -/
abbrev Result (α : Type) : Type := Except NxfError α

/-- A check. -/
def require (b : Bool) (e : NxfError) : Result Unit := if b then .ok () else .error e

/-- Behind a check that was passed. -/
theorem require_bind {α : Type} {b : Bool} {e : NxfError} {k : Unit → Result α} {v : α}
    (h : (require b e >>= k) = .ok v) : b = true ∧ k () = .ok v := by
  cases b with
  | true => exact ⟨rfl, h⟩
  | false => cases h

/-- `str::escape_debug`, of printable text. -/
def escapeDebug (s : String) : String :=
  String.join (s.toList.map fun c =>
    if c = '"' then "\\\"" else if c = '\\' then "\\\\" else if c = '\n' then "\\n"
    else if c = '\t' then "\\t" else if c = '\r' then "\\r" else String.singleton c)

/-- `{:?}` of a string. -/
def debugStr (s : String) : String := "\"" ++ escapeDebug s ++ "\""

/-- `{:?}` of a list of strings. -/
def debugList (l : List String) : String := "[" ++ ", ".intercalate (l.map debugStr) ++ "]"

/-! ## Checks of inputs -/

/-- `str::trim`. -/
def trimSpace (s : String) : String :=
  String.ofList ((s.toList.dropWhile isWhitespace).reverse.dropWhile isWhitespace).reverse

/-- What the date library answers. -/
structure Calendar where
  /-- The text is a calendar date or an RFC 3339 timestamp. -/
  parses : String → Bool
  /-- The instant of an RFC 3339 timestamp with an offset, in UTC at whole seconds. -/
  utc : String → Option String

namespace Validate

/-- `validate::actor`, the foundation's `validate_author`. -/
def actor (value : String) : Result String :=
  let trimmed := trimSpace value
  if isAttributable trimmed then .ok trimmed
  else .error (.validation "an actor must not be blank — every op records who wrote it")

/-- `validate::iso_date`. -/
def isoDate (cal : Calendar) (value : String) : Result String :=
  if cal.parses value then .ok value
  else .error (.validation
    s!"'{value}' is not an ISO-8601 date (YYYY-MM-DD) or RFC3339 timestamp")

/-- `validate::datetime`. -/
def datetime (cal : Calendar) (value : String) : Result String :=
  let value := trimSpace value
  match cal.utc value with
  | some stored => .ok stored
  | none => .error (.validation (s!"'{value}' is not an RFC 3339 date-time with a time zone " ++
      "(e.g. 2026-10-12T08:30:00Z or 2026-10-12T10:30:00+02:00)"))

/-- What `validate::label` and `validate::thread_id` share. -/
def separatorFree (what value : String) : Result String :=
  let trimmed := trimSpace value
  if trimmed = "" then .error (.validation s!"a {what} must not be blank")
  else if hasChar '\u001f' trimmed then
    .error (.validation s!"a {what} must not contain the U+001F control character")
  else .ok trimmed

/-- `validate::label`. -/
def label (value : String) : Result String := separatorFree "label" value

/-- `validate::thread_id`. -/
def threadId (value : String) : Result String := separatorFree "thread id" value

theorem actor_ok {value a : String} (h : actor value = .ok a) : isAttributable a = true := by
  unfold actor at h
  dsimp only at h
  split_ifs at h with ha
  cases h
  exact ha

theorem separatorFree_ok {what value v : String} (h : separatorFree what value = .ok v) :
    v ≠ "" ∧ hasChar '\u001f' v = false := by
  unfold separatorFree at h
  dsimp only at h
  split_ifs at h with hv hs
  cases h
  exact ⟨hv, by simpa using hs⟩

end Validate

/-! ## The plugin -/

/-- `FieldType`: the type of a custom field. -/
inductive FieldType
  | text
  | longtext
  | date
  | datetime
  | «enum»
  | ref
  deriving DecidableEq, Repr

/-- The plugin's `MergeStrategy`. -/
inductive MergeStrategy
  | lww
  | orSet
  | crdtText
  deriving DecidableEq, Repr

/-- `FieldDecl`: the declaration of one custom field. -/
structure FieldDecl where
  fieldType : FieldType
  values : List String
  on : List String
  required : Bool
  merge : MergeStrategy
  list : Bool
  targets : List String
  deriving DecidableEq

/-- The field applies to items of the type: `on` empty is every type. -/
def FieldDecl.appliesTo (decl : FieldDecl) (itemType : String) : Bool :=
  decl.on.isEmpty || decl.on.contains itemType

/-- What the write layer reads of a `PluginConfig`. -/
structure PluginConfig where
  /-- `priority.labels`, highest first. -/
  priorityLabels : List String
  types : RelationshipMatrix
  /-- `vocabulary.status`. -/
  statuses : KeyMap String String
  /-- `vocabulary.types`: canonical type to label. -/
  typeLabels : KeyMap String String
  fields : KeyMap String FieldDecl

namespace PluginConfig

variable (cfg : PluginConfig)

/-- `Priority::ordinal`. -/
def ordinal (label : String) : Option Nat := cfg.priorityLabels.findIdx? (· == label)

/-- `custom_field_names`. -/
def customFieldNames : List String := cfg.fields.keys.insertionSort (· ≤ ·)

/-- `resolve_item_type`: a declared type, or the display label of one. -/
def resolveItemType (ty : String) : Result String :=
  if cfg.types.isType ty then .ok ty
  else
    let unknown : Result String := .error (.validation
      (s!"unknown type '{ty}'; expected one of the active plugin's types (" ++
        ", ".intercalate (cfg.types.list.sort (· ≤ ·)) ++ ")"))
    match cfg.typeLabels.entries.find? fun e => e.2 == ty with
    | some e => if cfg.types.isType e.1 then .ok e.1 else unknown
    | none => unknown

/-- `str::parse::<usize>`: decimal digits, with an optional `+`. -/
def parseUsize (s : String) : Option Nat :=
  match s.toList with
  | '+' :: digits => if digits.isEmpty then none else digitsToNat digits
  | digits => if digits.isEmpty then none else digitsToNat digits
where
  digitsToNat (digits : List Char) : Option Nat :=
    if digits.all Char.isDigit then
      let n := digits.foldl (fun n c => 10 * n + (c.toNat - '0'.toNat)) 0
      if n < 2 ^ 64 then some n else none
    else none

/-- `resolve_priority`: a label, or the ordinal of one. -/
def resolvePriority (value : String) : Result String :=
  let unknown : Result String := .error (.validation
    (s!"unknown priority '{value}'; expected a label (" ++ ", ".intercalate cfg.priorityLabels ++
      s!") or its ordinal key (0..{cfg.priorityLabels.length - 1})"))
  match cfg.ordinal value with
  | some i => .ok (toString i)
  | none =>
    match parseUsize value with
    | some i => if i < cfg.priorityLabels.length then .ok (toString i) else unknown
    | none => unknown

theorem resolveItemType_ok {ty t : String} (h : cfg.resolveItemType ty = .ok t) :
    t ∈ cfg.types.list := by
  unfold resolveItemType at h
  split_ifs at h with hty
  · cases h
    simpa [RelationshipMatrix.isType] using hty
  · dsimp only at h
    split at h
    · split_ifs at h with he
      cases h
      simpa [RelationshipMatrix.isType] using he
    · cases h

end PluginConfig

end NexusFlow.Facade
