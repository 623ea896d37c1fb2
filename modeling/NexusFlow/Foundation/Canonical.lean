import NexusFlow.Foundation.Op
import NexusFlow.Lib.PrefixCode

/-!
# The canonical bytes name one op

`Op::canonical_bytes` (`crates/foundation/src/model.rs:104-145`) writes each field behind its length
and the value behind a presence byte. Read from the left, the bytes give the fields back: two ops of
the same bytes agree in every field a signature covers (`Op.canonicalBytes_inj`).
-/

namespace NexusFlow.Foundation

open NexusFlow.Lib

/-! ## Numbers -/

/-- One byte read after the bytes before it. -/
theorem beByte_step (n shift : Nat) :
    n / 2 ^ (shift + 8) * 256 + (UInt8.ofNat (n / 2 ^ shift)).toNat = n / 2 ^ shift := by
  rw [UInt8.toNat_ofNat', pow_add, ← Nat.div_div_eq_div_mul]
  exact Nat.div_add_mod' _ _

/-- `u64::from_be_bytes`. -/
def ofBeBytes (bytes : List UInt8) : Nat := bytes.foldl (fun n b => n * 256 + b.toNat) 0

/-- Reading the bytes of a `u64` gives it back. -/
theorem ofBeBytes_beBytes {n : Nat} (hn : n < 2 ^ 64) : ofBeBytes (beBytes n) = n := by
  have hfirst := beByte_step n 56
  rw [Nat.div_eq_of_lt (show n < 2 ^ (56 + 8) from hn)] at hfirst
  unfold ofBeBytes beBytes
  simp only [List.map_cons, List.map_nil, List.foldl_cons, List.foldl_nil]
  rw [hfirst, beByte_step n 48, beByte_step n 40, beByte_step n 32, beByte_step n 24,
    beByte_step n 16, beByte_step n 8]
  exact (beByte_step n 0).trans (by rw [pow_zero, Nat.div_one])

theorem cancels_beBytes : Cancels beBytes fun n => n < 2 ^ 64 :=
  .of_width (n := 8) (fun _ => rfl) fun a b ha hb h => by
    rw [← ofBeBytes_beBytes ha, h, ofBeBytes_beBytes hb]

/-- The range of an `i64`. -/
def IsI64 (i : Int) : Prop := -2 ^ 63 ≤ i ∧ i ≤ i64Max

/-- Two's complement tells the `i64`s apart. -/
theorem beBytesInt_inj {i j : Int} (hi : IsI64 i) (hj : IsI64 j) (h : beBytesInt i = beBytesInt j) :
    i = j := by
  have hread := congrArg ofBeBytes h
  unfold beBytesInt at hread
  rw [ofBeBytes_beBytes (by omega), ofBeBytes_beBytes (by omega)] at hread
  obtain ⟨hil, hiu⟩ := hi
  obtain ⟨hjl, hju⟩ := hj
  unfold i64Max at hiu hju
  omega

/-! ## Texts -/

theorem toList_loop (bs : ByteArray) (i : Nat) (r : List UInt8) :
    ByteArray.toList.loop bs i r = r.reverse ++ bs.data.toList.drop i := by
  fun_induction ByteArray.toList.loop bs i r with
  | case1 i r hlt ih =>
    have hlt' : i < bs.data.toList.length := hlt
    have hget : bs.get! i = bs.data.toList[i] := by
      simp [ByteArray.get!, getElem!_pos bs.data i hlt]
    rw [ih, List.reverse_cons, List.append_assoc, List.drop_eq_getElem_cons hlt', hget]
    rfl
  | case2 i r hge =>
    have hge' : bs.data.toList.length ≤ i := Nat.not_lt.mp hge
    rw [List.drop_eq_nil_of_le hge', List.append_nil]

theorem toList_eq_data (bs : ByteArray) : bs.toList = bs.data.toList := toList_loop bs 0 []

/-- The UTF-8 bytes tell the texts apart. -/
theorem utf8_inj {a b : String} (h : a.toUTF8.toList = b.toUTF8.toList) : a = b := by
  rw [toList_eq_data, toList_eq_data, Array.toList_inj] at h
  exact String.toByteArray_inj.mp (ByteArray.ext h)

theorem length_utf8 (a : String) : a.toUTF8.toList.length = a.utf8ByteSize := by
  rw [toList_eq_data]
  exact String.size_toByteArray

/-! ## Fields -/

theorem cancels_field : Cancels canonicalField fun bytes => bytes.length < 2 ^ 64 :=
  cancels_beBytes.lengthPrefixed

theorem cancels_text :
    Cancels (fun s : String => canonicalField s.toUTF8.toList) fun s => s.utf8ByteSize < 2 ^ 64 :=
  cancels_field.comap (fun s hs => (length_utf8 s).symm ▸ hs) fun _ _ _ _ h => utf8_inj h

theorem cancels_number : Cancels (fun i : Int => canonicalField (beBytesInt i)) IsI64 :=
  cancels_field.comap (fun _ _ => by simp [beBytesInt, beBytes]) fun _ _ => beBytesInt_inj

theorem cancels_value :
    Cancels (fun o : Option String =>
        o.elim [0] fun s => (1 : UInt8) :: canonicalField s.toUTF8.toList)
      fun o => ∀ s, o = some s → s.utf8ByteSize < 2 ^ 64 :=
  cancels_text.optional (by decide)

/-! ## Ops -/

namespace Op

/-- The op as its types bound it: numbers that are `i64`s, and no text of `2^64` bytes. -/
structure Fits (op : Op) : Prop where
  lamport : IsI64 op.lamport
  site : IsI64 op.site
  texts : ∀ s ∈ [op.opId, op.domain, op.targetKind, op.targetId, op.field, op.opType, op.author,
    op.wallClock], s.utf8ByteSize < 2 ^ 64
  value : ∀ s, op.value = some s → s.utf8ByteSize < 2 ^ 64

/-- The ops agree in every field but the signature pair. -/
structure SignsLike (a b : Op) : Prop where
  opId : a.opId = b.opId
  lamport : a.lamport = b.lamport
  site : a.site = b.site
  domain : a.domain = b.domain
  targetKind : a.targetKind = b.targetKind
  targetId : a.targetId = b.targetId
  field : a.field = b.field
  opType : a.opType = b.opType
  value : a.value = b.value
  author : a.author = b.author
  wallClock : a.wallClock = b.wallClock

/-- The canonical bytes, one field after the other. -/
theorem canonicalBytes_eq (op : Op) : op.canonicalBytes = canonicalForm ++
    (canonicalField op.opId.toUTF8.toList ++ (canonicalField (beBytesInt op.lamport) ++
    (canonicalField (beBytesInt op.site) ++ (canonicalField op.domain.toUTF8.toList ++
    (canonicalField op.targetKind.toUTF8.toList ++ (canonicalField op.targetId.toUTF8.toList ++
    (canonicalField op.field.toUTF8.toList ++ (canonicalField op.opType.toUTF8.toList ++
    ((op.value.elim [0] fun s => 1 :: canonicalField s.toUTF8.toList) ++
    (canonicalField op.author.toUTF8.toList ++
      (canonicalField op.wallClock.toUTF8.toList ++ []))))))))))) := by
  unfold canonicalBytes
  simp only [List.append_assoc, List.append_nil]
  cases op.value <;> rfl

/-- **The canonical bytes name one op**: the fields are read off from the left. -/
theorem canonicalBytes_inj {a b : Op} (ha : a.Fits) (hb : b.Fits) :
    a.canonicalBytes = b.canonicalBytes ↔ a.SignsLike b := by
  constructor
  · intro h
    have hat := ha.texts
    have hbt := hb.texts
    simp only [List.forall_mem_cons] at hat hbt
    obtain ⟨ha1, ha2, ha3, ha4, ha5, ha6, ha7, ha8, _⟩ := hat
    obtain ⟨hb1, hb2, hb3, hb4, hb5, hb6, hb7, hb8, _⟩ := hbt
    rw [canonicalBytes_eq, canonicalBytes_eq] at h
    have h := List.append_cancel_left h
    obtain ⟨opId, h⟩ := cancels_text _ _ _ _ ha1 hb1 h
    obtain ⟨lamport, h⟩ := cancels_number _ _ _ _ ha.lamport hb.lamport h
    obtain ⟨site, h⟩ := cancels_number _ _ _ _ ha.site hb.site h
    obtain ⟨domain, h⟩ := cancels_text _ _ _ _ ha2 hb2 h
    obtain ⟨targetKind, h⟩ := cancels_text _ _ _ _ ha3 hb3 h
    obtain ⟨targetId, h⟩ := cancels_text _ _ _ _ ha4 hb4 h
    obtain ⟨field, h⟩ := cancels_text _ _ _ _ ha5 hb5 h
    obtain ⟨opType, h⟩ := cancels_text _ _ _ _ ha6 hb6 h
    obtain ⟨value, h⟩ := cancels_value _ _ _ _ ha.value hb.value h
    obtain ⟨author, h⟩ := cancels_text _ _ _ _ ha7 hb7 h
    obtain ⟨wallClock, _⟩ := cancels_text _ _ _ _ ha8 hb8 h
    exact {
      opId := opId, lamport := lamport, site := site, domain := domain, targetKind := targetKind
      targetId := targetId, field := field, opType := opType, value := value, author := author
      wallClock := wallClock }
  · intro h
    unfold canonicalBytes
    rw [h.opId, h.lamport, h.site, h.domain, h.targetKind, h.targetId, h.field, h.opType, h.value,
      h.author, h.wallClock]

end Op

end NexusFlow.Foundation
