import NexusFlow.Foundation.Canonical
import NexusFlow.Lib.Json

/-!
# The wire envelope

Model of `crates/sync/src/wire.rs:45-257`: the envelope an op travels in, its own copy of the
canonical bytes, and the two conversions. The signature pair of an op travels in the passthrough.

The spelling `serde_json` gives a value that is no text is a parameter; an op wrapped here carries
texts only.
-/

namespace NexusFlow.Sync

open NexusFlow.Foundation NexusFlow.Lib

/-! ## The passthrough -/

/-- A `BTreeMap` of the fields a build does not know. -/
abbrev Extra := { m : Members // SortedKeys m }

namespace Extra

/-- `BTreeMap::insert`. -/
def insert (extra : Extra) (e : String × Json) : Extra :=
  ⟨insertKey e.1 e.2 extra.1, extra.2.insertKey e.1 e.2⟩

/-- `Iterator::collect` into the map. -/
def collect (entries : List (String × Json)) : Extra := entries.foldl insert ⟨[], .nil⟩

/-- The map without the key. -/
def erase (extra : Extra) (name : String) : Extra :=
  ⟨extra.1.filter fun e => e.1 != name, extra.2.filter _⟩

theorem lookup_insert (extra : Extra) (e : String × Json) (k : String) :
    (extra.insert e).1.lookup k = if k = e.1 then some e.2 else extra.1.lookup k :=
  lookup_insertKey k e.1 e.2 extra.1

theorem lookup_erase_of_ne (extra : Extra) {name k : String} (h : k ≠ name) :
    (extra.erase name).1.lookup k = extra.1.lookup k := by
  obtain ⟨m, hm⟩ := extra
  change (m.filter fun e => e.1 != name).lookup k = m.lookup k
  clear hm
  induction m with
  | nil => rfl
  | cons e m ih =>
    obtain ⟨key, v⟩ := e
    by_cases he : key = name
    · have hk : k ≠ key := fun heq => h (heq.trans he)
      rw [lookup_cons_of_ne hk, ← ih, List.filter_cons_of_neg (by simp [he])]
    · rw [List.filter_cons_of_pos (by simp [he]), List.lookup_cons, List.lookup_cons, ih]

end Extra

/-- `ENVELOPE_VERSION`. -/
def envelopeVersion : UInt16 := 1

/-- `KEY_ID_FIELD`. -/
def keyIdField : String := "key_id"

/-- `SIG_FIELD`. -/
def sigField : String := "sig"

/-! ## The envelope -/

/-- One op on the wire. -/
structure WireOp where
  envelopeVersion : UInt16
  opId : String
  lamport : Int
  site : Int
  domain : String
  targetKind : String
  targetId : String
  field : String
  opType : String
  value : Option String
  author : String
  wallClock : String
  extra : Extra

namespace WireOp

/-- `CANONICAL_FORM`, as the wire's own crate spells it. -/
def canonicalForm : List UInt8 := "nxs-op/2".toUTF8.toList

/-- `fn field` in `canonical_bytes`: what is appended to the output. -/
def putField (out bytes : List UInt8) : List UInt8 := out ++ beBytes bytes.length ++ bytes

/-- `WireOp::canonical_bytes`: the second copy of the encoding, written field by field. -/
def canonicalBytes (w : WireOp) : List UInt8 :=
  let out := canonicalForm
  let out := putField out w.opId.toUTF8.toList
  let out := putField out (beBytesInt w.lamport)
  let out := putField out (beBytesInt w.site)
  let out := putField out w.domain.toUTF8.toList
  let out := putField out w.targetKind.toUTF8.toList
  let out := putField out w.targetId.toUTF8.toList
  let out := putField out w.field.toUTF8.toList
  let out := putField out w.opType.toUTF8.toList
  let out := match w.value with
    | none => out ++ [0]
    | some v => putField (out ++ [1]) v.toUTF8.toList
  let out := putField out w.author.toUTF8.toList
  putField out w.wallClock.toUTF8.toList

/-- `From<&Op> for WireOp`: the signature pair goes into the passthrough. -/
def ofOp (op : Op) : WireOp where
  envelopeVersion := Sync.envelopeVersion
  opId := op.opId
  lamport := op.lamport
  site := op.site
  domain := op.domain
  targetKind := op.targetKind
  targetId := op.targetId
  field := op.field
  opType := op.opType
  value := op.value
  author := op.author
  wallClock := op.wallClock
  extra := .collect ([(keyIdField, op.keyId), (sigField, op.sig)].filterMap fun e =>
    e.2.map fun v => (e.1, Json.str v))

end WireOp

section FromWire

-- `Value::to_string`: the spelling of a JSON value
variable (spelling : Json → String)

/-- `take_signature_part`: one half of the signature pair, and the passthrough without it. -/
def takeSignaturePart (extra : Extra) (name : String) : Option String × Extra :=
  ((extra.1.lookup name).map fun v =>
    match v with
    | .str s => s
    | other => spelling other, extra.erase name)

/-- `From<WireOp> for Op`. -/
def opOfWire (w : WireOp) : Op :=
  let (keyId, extra) := takeSignaturePart spelling w.extra keyIdField
  let (sig, _) := takeSignaturePart spelling extra sigField
  { opId := w.opId
    lamport := w.lamport
    site := w.site
    domain := w.domain
    targetKind := w.targetKind
    targetId := w.targetId
    field := w.field
    opType := w.opType
    value := w.value
    author := w.author
    wallClock := w.wallClock
    keyId := keyId
    sig := sig }

end FromWire

/-! ## The two copies agree -/

theorem putField_eq (out bytes : List UInt8) :
    WireOp.putField out bytes = out ++ canonicalField bytes := List.append_assoc _ _ _

/-- **The wire signs the same bytes**, in whatever envelope version and passthrough. -/
theorem canonicalBytes_wrapped (op : Op) (version : UInt16) (extra : Extra) :
    { WireOp.ofOp op with envelopeVersion := version, extra := extra }.canonicalBytes =
      op.canonicalBytes := by
  obtain ⟨⟩ := op
  unfold WireOp.canonicalBytes Op.canonicalBytes WireOp.ofOp
  rename_i value _ _ _ _
  cases value <;> simp only [putField_eq, List.append_assoc] <;> rfl

/-! ## The signature pair rides along -/

/-- What is found under the names of the pair. -/
theorem lookup_pair (keyId sig : Option String) :
    let extra := Extra.collect ([(keyIdField, keyId), (sigField, sig)].filterMap fun e =>
      e.2.map fun v => (e.1, Json.str v))
    extra.1.lookup keyIdField = keyId.map Json.str ∧
      extra.1.lookup sigField = sig.map Json.str := by
  have hne : keyIdField ≠ sigField := by decide
  cases keyId with
  | none => cases sig <;> exact ⟨rfl, rfl⟩
  | some k =>
    cases sig with
    | none => exact ⟨rfl, rfl⟩
    | some v =>
      constructor
      · refine (Extra.lookup_insert _ (sigField, .str v) keyIdField).trans ?_
        rw [if_neg hne]
        rfl
      · refine (Extra.lookup_insert _ (sigField, .str v) sigField).trans ?_
        rw [if_pos rfl]
        rfl

/-- A part that went in as a text comes out as it was. -/
theorem takeSignaturePart_fst (spelling : Json → String) {extra : Extra} {name : String}
    {part : Option String} (h : extra.1.lookup name = part.map Json.str) :
    (takeSignaturePart spelling extra name).1 = part := by
  unfold takeSignaturePart
  rw [h]
  cases part <;> rfl

/-- **An op comes back from the wire as it went.** -/
theorem opOfWire_ofOp (spelling : Json → String) (op : Op) :
    opOfWire spelling (WireOp.ofOp op) = op := by
  obtain ⟨hkey, hsig⟩ := lookup_pair op.keyId op.sig
  have hsig' := (Extra.lookup_erase_of_ne _ (by decide : sigField ≠ keyIdField)).trans hsig
  have hk := takeSignaturePart_fst spelling hkey
  have hs := takeSignaturePart_fst spelling hsig'
  obtain ⟨⟩ := op
  unfold opOfWire WireOp.ofOp
  dsimp only at hk hs ⊢
  congr 1

/-- **The signed bytes name one op, on both sides of the wire.** -/
theorem signed_bytes_name_one_op (spelling : Json → String) :
    (∀ a b : Op, a.Fits → b.Fits → (a.canonicalBytes = b.canonicalBytes ↔ a.SignsLike b)) ∧
    (∀ (op : Op) (version : UInt16) (extra : Extra),
      { WireOp.ofOp op with envelopeVersion := version, extra := extra }.canonicalBytes =
        op.canonicalBytes) ∧
    ∀ op : Op, opOfWire spelling (WireOp.ofOp op) = op :=
  ⟨fun _ _ => Op.canonicalBytes_inj, canonicalBytes_wrapped, opOfWire_ofOp spelling⟩

/-- A signed op that clears a field. -/
def clearing : Op where
  opId := "op-1"
  lamport := 7
  site := -3
  domain := "task"
  targetKind := "item"
  targetId := "a.b"
  field := "assignee"
  opType := "set"
  value := none
  author := "ada"
  wallClock := ""
  keyId := some "ed25519:AA"
  sig := some "AA"

/-- An op that sets the field to the empty text has other signed bytes. -/
theorem signed_bytes_name_one_op_clearing :
    clearing.canonicalBytes ≠ { clearing with value := some "" }.canonicalBytes := by
  have hi : IsI64 7 ∧ IsI64 (-3) := by
    unfold IsI64 i64Max
    decide
  have htexts : ∀ s ∈ ["op-1", "task", "item", "a.b", "assignee", "set", "ada", ""],
      s.utf8ByteSize < 2 ^ 64 := by decide
  intro h
  have hlike := ((signed_bytes_name_one_op fun _ => "").1 clearing
    { clearing with value := some "" }
    { lamport := hi.1, site := hi.2, texts := htexts, value := by rintro s ⟨⟩ }
    { lamport := hi.1, site := hi.2, texts := htexts, value := by rintro s ⟨⟩; decide }).mp h
  exact absurd hlike.value (by decide)

end NexusFlow.Sync
