import Mathlib.Data.List.Basic
import NexusFlow.Foundation.Change

/-!
# The op, its signed bytes, and the reducer seam

Model of `crates/foundation/src/model.rs` (the op, its Lamport bounds, who may be named as its
author), of the verdict on a received op (`signing.rs:264-295`) and of `reducer.rs` (what a product
registers to have its domain's ops folded).

Lamport numbers and sites are `Int`; where the code's `i64` can overflow (`tick`, the jump of
`first_free_coordinate`, both in `Store.lean`) the bound `i64Max` is checked. Ed25519 itself is not
part of the repository: a `ReplicaKey` carries the signing function and the check as functions of
the canonical bytes.
-/

namespace NexusFlow.Foundation

/-! ## The op -/

/-- `MAX_LAMPORT`: the highest Lamport number an op may carry and still fold. -/
def maxLamport : Int := 2 ^ 62

/-- `CLOCK_CEILING`: the highest number a received op moves a clock to. -/
def clockCeiling : Int := 2 ^ 61

/-- `i64::MAX`. -/
def i64Max : Int := 2 ^ 63 - 1

/-- One operation in the log. -/
structure Op where
  opId : String
  lamport : Int
  site : Int
  domain : String
  targetKind : String
  targetId : String
  field : String
  opType : String
  value : Option String
  author : String
  wallClock : String
  keyId : Option String
  sig : Option String
  deriving DecidableEq, Repr

namespace Op

/-- The op's place in the CRDT order. -/
def coordinate (op : Op) : Int × Int := (op.lamport, op.site)

/-- `fn version`: the coordinate, as the version its registers compare on. -/
def version (op : Op) : Version := ⟨op.lamport, op.site⟩

/-- `Op::owns_target`: the target id is `pre` followed by the op's own id. -/
def ownsTarget (op : Op) (pre : String) : Bool := op.targetId == pre ++ op.opId

/-- `Op::lamport_in_bound`: only the top is bounded. -/
def lamportInBound (op : Op) : Bool := decide (op.lamport ≤ maxLamport)

end Op

/-! ## Canonical bytes -/

/-- The tag in front of the canonical bytes, `nxs-op/2`. -/
def canonicalForm : List UInt8 := "nxs-op/2".toUTF8.toList

/-- `u64::to_be_bytes`. -/
def beBytes (n : Nat) : List UInt8 :=
  [56, 48, 40, 32, 24, 16, 8, 0].map fun shift => UInt8.ofNat (n / 2 ^ shift)

/-- `i64::to_be_bytes`: two's complement. -/
def beBytesInt (i : Int) : List UInt8 := beBytes (i % 2 ^ 64).toNat

/-- One length-prefixed field. -/
def canonicalField (bytes : List UInt8) : List UInt8 := beBytes bytes.length ++ bytes

/-- `Op::canonical_bytes`: every field but the signature pair, in declaration order, each
length-prefixed; `value` behind a presence byte. -/
def Op.canonicalBytes (op : Op) : List UInt8 :=
  canonicalForm ++ canonicalField op.opId.toUTF8.toList ++ canonicalField (beBytesInt op.lamport) ++
    canonicalField (beBytesInt op.site) ++ canonicalField op.domain.toUTF8.toList ++
    canonicalField op.targetKind.toUTF8.toList ++ canonicalField op.targetId.toUTF8.toList ++
    canonicalField op.field.toUTF8.toList ++ canonicalField op.opType.toUTF8.toList ++
    (match op.value with
      | none => [0]
      | some v => 1 :: canonicalField v.toUTF8.toList) ++
    canonicalField op.author.toUTF8.toList ++ canonicalField op.wallClock.toUTF8.toList

/-! ## Attribution -/

/-- `char::is_whitespace`, the Unicode `White_Space` property. -/
def isWhitespace (c : Char) : Bool :=
  let n := c.toNat
  (0x9 ≤ n && n ≤ 0xD) || n == 0x20 || n == 0x85 || n == 0xA0 || n == 0x1680 ||
    (0x2000 ≤ n && n ≤ 0x200A) || n == 0x2028 || n == 0x2029 || n == 0x202F || n == 0x205F ||
    n == 0x3000

/-- `char::is_control`, the Unicode category `Cc`. -/
def isControl (c : Char) : Bool :=
  let n := c.toNat
  n ≤ 0x1F || (0x7F ≤ n && n ≤ 0x9F)

/-- `is_invisible`: whitespace, a control, or a format character. -/
def isInvisible (c : Char) : Bool :=
  let n := c.toNat
  isWhitespace c || isControl c || n == 0xAD || n == 0x61C || n == 0x180E ||
    (0x200B ≤ n && n ≤ 0x200F) || (0x202A ≤ n && n ≤ 0x202E) || (0x2060 ≤ n && n ≤ 0x2064) ||
    (0x2066 ≤ n && n ≤ 0x2069) || n == 0xFEFF

/-- `is_attributable`: the author names somebody. -/
def isAttributable (author : String) : Bool := author.toList.any fun c => !isInvisible c

/-! ## Signing -/

/-- What a replica knows about where an op came from. -/
inductive Provenance
  | own
  | verified
  | invalid
  | unsigned
  deriving DecidableEq, Repr

/-- A replica's signing key: its id, the signature it makes over canonical bytes, and the check of
anybody's signature (`signing::verify`). -/
structure ReplicaKey where
  keyId : String
  sign : List UInt8 → String
  verify : String → String → List UInt8 → Bool

/-- `ReplicaKey::seal`. -/
def ReplicaKey.seal (key : ReplicaKey) (op : Op) : Op :=
  { op with keyId := some key.keyId, sig := some (key.sign op.canonicalBytes) }

/-- A key for concrete runs: its signatures are empty and no signature verifies. -/
def silentKey : ReplicaKey := ⟨"ed25519:AA", fun _ => "", fun _ _ _ => false⟩

/-- `Provenance::of_received`: the verdict on a received op, from the op alone. -/
def Provenance.ofReceived (key : ReplicaKey) (op : Op) : Provenance :=
  match op.keyId, op.sig with
  | none, none => .unsigned
  | some keyId, some sig => if key.verify keyId sig op.canonicalBytes then .verified else .invalid
  | _, _ => .invalid

theorem Provenance.ofReceived_ne_own (key : ReplicaKey) (op : Op) :
    Provenance.ofReceived key op ≠ .own := by
  unfold ofReceived
  split
  · decide
  · split_ifs <;> decide
  · decide

/-! ## Reducers -/

/-- `trait Reducer`, with the `DEFAULT`s of its view tables. `changes` is asked only for ops that
`isFoldable`. -/
structure Reducer where
  domain : String
  isFoldable : Op → Bool
  changes : Op → List Change
  foldRevision : Int
  viewTables : List String
  ddl : Ddl

/-- `folder_for`: the reducer of the op's domain, when it folds this shape and the op's Lamport
number is in bound. -/
def folderFor (reducers : List Reducer) (op : Op) : Option Reducer :=
  if op.lamportInBound then
    (reducers.find? fun r => r.domain == op.domain).filter fun r => r.isFoldable op
  else none

namespace Reducer

/-- The ops this reducer folds, when it is the registered one. -/
def folds (r : Reducer) (op : Op) : Bool :=
  op.lamportInBound && r.domain == op.domain && r.isFoldable op

/-- The changes folding `op` makes: none when the reducer does not fold it. -/
def changesOf (r : Reducer) (op : Op) : List Change := if r.folds op then r.changes op else []

theorem folderFor_singleton (r : Reducer) (op : Op) :
    folderFor [r] op = if r.folds op then some r else none := by
  unfold folderFor folds
  cases op.lamportInBound <;> cases hd : r.domain == op.domain <;> cases hf : r.isFoldable op <;>
    simp [hd, hf]

end Reducer

end NexusFlow.Foundation
