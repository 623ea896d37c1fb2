import NexusFlow.Core.TaskReducer

/-!
# The value codecs of chunks and list entries

What a chunk op and a list-entry op carry in `value`, and what the reducer reads back
(`crates/core/src/task_reducer.rs:123-171,335-363`, `crates/core/src/model.rs:279-343`).

Two separators serve four layouts. No id, value or label a layout joins may hold its separator, so
each reading gives back what was written: `chunk_and_entry_codecs`. The payload of a supersede is
behind the first U+001E, and may hold either.
-/

namespace NexusFlow.Core

open NexusFlow.Foundation

/-! ## Joined ids -/

/-- A character is in the joined pieces when it is in a piece, unless it joins them. -/
theorem hasChar_joinChar {c d : Char} (hne : c ≠ d) {pieces : List String}
    (h : ∀ p ∈ pieces, hasChar c p = false) : hasChar c (joinChar d pieces) = false := by
  rw [hasChar_eq_false_iff, joinChar, String.toList_ofList]
  induction pieces with
  | nil => exact List.not_mem_nil
  | cons p pieces ih =>
    have hp : c ∉ p.toList := hasChar_eq_false_iff.mp (h p List.mem_cons_self)
    cases pieces with
    | nil =>
      rw [List.map_singleton, List.intercalate_singleton]
      exact hp
    | cons q pieces =>
      rw [List.map_cons, List.map_cons, List.intercalate_cons_cons, ← List.map_cons,
        List.mem_append, List.mem_append, List.mem_singleton]
      rintro ((hc | hc) | hc)
      · exact hp hc
      · exact hne hc
      · exact ih (fun x hx => h x (List.mem_cons_of_mem p hx)) hc

theorem isValidChunkId_iff {id : String} : isValidChunkId id = true ↔
    id ≠ "" ∧ id.utf8ByteSize ≤ maxChunkIdBytes ∧ hasChar sep id = false ∧
      hasChar chunkPayloadSep id = false := by
  simp [isValidChunkId, and_assoc]

/-- **A supersede value splits at its payload**, whatever the payload holds. -/
theorem splitOnce_supersedeValue {ids : List String} (hids : ∀ id ∈ ids, isValidChunkId id = true)
    (payload : String) :
    splitOnce chunkPayloadSep (supersedeValue ids payload) = some (joinChar sep ids, payload) :=
  splitOnce_append (hasChar_joinChar (by decide) fun id hid =>
    (isValidChunkId_iff.mp (hids id hid)).2.2.2) payload

namespace TaskReducer

/-! ## Chunks -/

/-- What `parse_chunk` asks of a chunk op besides its value. -/
def chunkPlaceOk (op : Op) : Bool :=
  op.targetId != "" && decide (op.targetId.utf8ByteSize ≤ maxChunkIdBytes) &&
    !hasChar sep op.targetId && decide (op.opId.utf8ByteSize ≤ maxChunkIdBytes) &&
    isValidChunkField op.field

/-- The ids and the payload a supersede names are read back. -/
theorem parseChunk_supersedeValue {op : Op} {ids : List String} {payload : String}
    (ht : op.opType = "supersede") (hv : op.value = some (supersedeValue ids payload))
    (hne : ids ≠ []) (hlen : ids.length ≤ maxSuperseded)
    (hids : ∀ id ∈ ids, isValidChunkId id = true)
    (hsize : (supersedeValue ids payload).utf8ByteSize ≤ maxChunkBytes) :
    parseChunk op = if chunkPlaceOk op then some (ids, payload) else none := by
  have hsplit : splitChar sep (joinChar sep ids) = ids :=
    splitChar_joinChar hne fun id hid => (isValidChunkId_iff.mp (hids id hid)).2.2.1
  have hall : ids.all isValidChunkId = true := List.all_eq_true.mpr hids
  have hguard : (op.targetId == "" || decide (maxChunkIdBytes < op.targetId.utf8ByteSize) ||
      hasChar sep op.targetId || decide (maxChunkIdBytes < op.opId.utf8ByteSize) ||
      !isValidChunkField op.field ||
      decide (maxChunkBytes < (supersedeValue ids payload).utf8ByteSize)) = !chunkPlaceOk op := by
    rw [decide_eq_false (not_lt.mpr hsize), Bool.or_false, chunkPlaceOk]
    simp only [Bool.not_and, Bool.not_not, bne, ← decide_not, not_le]
  unfold parseChunk
  rw [hv, ht]
  change (if _ then none else _) = _
  rw [hguard]
  cases hok : chunkPlaceOk op with
  | false => rfl
  | true =>
    change ((splitOnce chunkPayloadSep (supersedeValue ids payload)).bind fun p =>
      if decide ((splitChar sep p.1).length ≤ maxSuperseded) &&
        (splitChar sep p.1).all isValidChunkId then some (splitChar sep p.1, p.2) else none) =
      some (ids, payload)
    rw [splitOnce_supersedeValue hids, Option.bind_some, hsplit, hall, decide_eq_true hlen]
    rfl

/-! ## List entries -/

/-- An add that folds has an id a remove can name. -/
theorem opId_of_parseEntryAdd {add : Op} (h : (parseEntryAdd add).isSome = true) :
    add.opId ≠ "" ∧ add.opId.utf8ByteSize ≤ maxChunkIdBytes ∧ hasChar sep add.opId = false := by
  obtain ⟨r, hr⟩ := Option.isSome_iff_exists.mp h
  obtain ⟨raw, _, hr⟩ := Option.bind_eq_some_iff.mp hr
  split_ifs at hr with hguard
  simp only [Bool.or_eq_true, decide_eq_true_eq, not_or, not_lt, beq_iff_eq,
    Bool.not_eq_true] at hguard
  exact ⟨hguard.1.1.2, hguard.1.2, hguard.2⟩

/-- The joined tags of adds that fold are read back. -/
theorem parseEntryRemove_joinChar {adds : List Op} {op : Op} (hne : adds ≠ [])
    (hlen : adds.length ≤ maxEntryTags) (hadds : ∀ add ∈ adds, (parseEntryAdd add).isSome = true)
    (hv : op.value = some (joinChar sep (adds.map Op.opId))) :
    parseEntryRemove op = if entryPlaceOk op then some (adds.map Op.opId) else none := by
  have htags : ∀ tag ∈ adds.map Op.opId,
      tag ≠ "" ∧ tag.utf8ByteSize ≤ maxChunkIdBytes ∧ hasChar sep tag = false := by
    intro tag htag
    obtain ⟨add, hadd, rfl⟩ := List.mem_map.mp htag
    exact opId_of_parseEntryAdd (hadds add hadd)
  have hsplit : splitChar sep (joinChar sep (adds.map Op.opId)) = adds.map Op.opId :=
    splitChar_joinChar (by simpa using hne) fun tag htag => (htags tag htag).2.2
  have hall : ((adds.map Op.opId).all fun t => t != "" &&
      decide (t.utf8ByteSize ≤ maxChunkIdBytes)) = true := by
    rw [List.all_eq_true]
    intro tag htag
    obtain ⟨hnonempty, hbytes, _⟩ := htags tag htag
    simp [hnonempty, hbytes]
  have hcount : decide ((adds.map Op.opId).length ≤ maxEntryTags) = true := by
    rw [List.length_map]
    exact decide_eq_true hlen
  unfold parseEntryRemove
  rw [hv]
  cases hok : entryPlaceOk op with
  | false =>
    simp only [Option.bind_eq_bind, Option.bind_some]
    rfl
  | true =>
    simp only [Option.bind_eq_bind, Option.bind_some, hsplit, hcount, hall]
    rfl

/-! ## The codecs -/

/-- **The codecs invert.** A supersede op of valid ids gives back its ids and its payload, an entry
value its value and label, and the remove of folded adds their op ids, wherever the place of the op
folds; and every entry value that is read is the one that is written. -/
theorem chunk_and_entry_codecs :
    (∀ (op : Op) (ids : List String) (payload : String), op.opType = "supersede" →
      op.value = some (supersedeValue ids payload) → ids ≠ [] → ids.length ≤ maxSuperseded →
      (∀ id ∈ ids, isValidChunkId id = true) →
      (supersedeValue ids payload).utf8ByteSize ≤ maxChunkBytes →
      parseChunk op = if chunkPlaceOk op then some (ids, payload) else none) ∧
    (∀ (value : String) (label : Option String), value ≠ "" → hasChar sep value = false →
      (∀ l, label = some l → l ≠ "" ∧ hasChar sep l = false) →
      parseEntryValue (entryValue value label) = some (value, label)) ∧
    (∀ (raw value : String) (label : Option String), parseEntryValue raw = some (value, label) →
      entryValue value label = raw) ∧
    (∀ (adds : List Op) (op : Op), adds ≠ [] → adds.length ≤ maxEntryTags →
      (∀ add ∈ adds, (parseEntryAdd add).isSome = true) →
      op.value = some (joinChar sep (adds.map Op.opId)) →
      parseEntryRemove op = if entryPlaceOk op then some (adds.map Op.opId) else none) :=
  ⟨fun _ _ _ ht hv hne hlen hids hsize => parseChunk_supersedeValue ht hv hne hlen hids hsize,
    fun _ _ hv hs hl => parseEntryValue_entryValue hv hs hl,
    fun _ _ _ h => (parseEntryValue_eq_some h).1.symm,
    fun _ _ hne hlen hadds hv => parseEntryRemove_joinChar hne hlen hadds hv⟩

/-- A supersede of two chunks, its payload full of separators. -/
def superseding : Op where
  opId := "op-3"
  lamport := 3
  site := 1
  domain := "task"
  targetKind := "chunk"
  targetId := "a.p1"
  field := "log"
  opType := "supersede"
  value := some (supersedeValue ["op-1", "op-2"] "x\u001ey\u001fz")
  author := "ada"
  wallClock := ""
  keyId := none
  sig := none

/-- The add of one entry of a list, with a label. -/
def entryAdding : Op :=
  { superseding with
    opId := "op-4", targetKind := "item", opType := "add", field := "links"
    value := some (entryValue "https://a" (some "A")) }

/-- The remove of that entry. -/
def entryRemoving : Op :=
  { entryAdding with opId := "op-5", opType := "remove", value := some (joinChar sep ["op-4"]) }

theorem chunk_and_entry_codecs_superseding :
    parseChunk superseding = some (["op-1", "op-2"], "x\u001ey\u001fz") ∧
      parseEntryValue (entryValue "https://a" (some "A")) = some ("https://a", some "A") ∧
      entryValue "https://a" (some "A") = "https://a\u001fA" ∧
      parseEntryRemove entryRemoving = some ["op-4"] := by
  refine ⟨?_, ?_, ?_, ?_⟩
  · have h := chunk_and_entry_codecs.1 superseding ["op-1", "op-2"] "x\u001ey\u001fz" rfl rfl
      (by decide) (by decide) (by decide) (by decide)
    have hok : chunkPlaceOk superseding = true := by decide
    rw [h, hok]
    rfl
  · refine chunk_and_entry_codecs.2.1 _ _ (by decide) (by decide) fun l hl => ?_
    rw [← Option.some.inj hl]
    exact ⟨by decide, by decide⟩
  · exact chunk_and_entry_codecs.2.2.1 _ _ _ (by decide)
  · have hadds : ∀ add ∈ [entryAdding], (parseEntryAdd add).isSome = true := by decide
    have h := chunk_and_entry_codecs.2.2.2 [entryAdding] entryRemoving (by decide) (by decide)
      hadds rfl
    have hok : entryPlaceOk entryRemoving = true := by decide
    rw [h, hok]
    rfl

end TaskReducer

end NexusFlow.Core
