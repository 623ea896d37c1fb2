import NexusFlow.Core.Remap
import NexusFlow.Core.TaskReducer

/-!
# What a remap makes of an op

`remap_target` and `remap_value` rewrite an op shape by shape. Here they meet the reducer: a rewritten
op parses to the renamed parse, folds where the op did (`isFoldable_remapOp`) and makes the changes of
the op with their cells renamed (`changes_remapOp`).

`renameId` says what a remap is to do to one id, `remapCells` what that makes of a row: the columns
that hold an item's id (`itemIdColumns`), and the ids cited in free text. The id map the code builds
is `renameId` (`IdMap.get_ofOps`). A prefix of four letters for another keeps an id's length, its
separators and whether it is empty, which is all the parsers look at.

A redaction's target is a note's id, and `remap_target` looks it up among the item ids all the same.
`changes_remapOp` asks that no redaction names one (`RedactsItem`).
-/

namespace NexusFlow.Core

open NexusFlow.Foundation TaskReducer

/-! ## Local ids -/

/-- The id carries this prefix. -/
def CarriesPrefix (pre id : String) : Prop := (splitOnce '.' id).map Prod.fst = some pre

instance (pre id : String) : Decidable (CarriesPrefix pre id) :=
  inferInstanceAs (Decidable (_ = some pre))

/-- The id is an item of the log. -/
def IsItemOf (ops : List Op) (id : String) : Prop :=
  ∃ op ∈ ops, op.targetKind = "item" ∧ op.targetId = id

instance (ops : List Op) (id : String) : Decidable (IsItemOf ops id) :=
  inferInstanceAs (Decidable (∃ op ∈ ops, _))

/-- `old.suffix` with the new prefix. -/
def swapPrefix (pOld pNew id : String) : Option String :=
  match splitOnce '.' id with
  | some (pre, suffix) => if pre = pOld then some (pNew ++ ("." ++ suffix)) else none
  | none => none

/-- What a remap is to do to an id: `old.suffix` becomes `new.suffix` where it is an item of the
log. -/
def renameId (pOld pNew : String) (ops : List Op) (id : String) : String :=
  if IsItemOf ops id then (swapPrefix pOld pNew id).getD id else id

theorem isItemOf_cons {op : Op} {ops : List Op} {id : String} :
    IsItemOf (op :: ops) id ↔ (op.targetKind = "item" ∧ op.targetId = id) ∨ IsItemOf ops id := by
  simp [IsItemOf]

namespace IdMap

variable {pOld pNew : String} {ops : List Op}

theorem lookup_orInsert (m : IdMap) (k new id : String) :
    (m.orInsert k new).lookup id = (m.lookup id).or (if id = k then some new else none) := by
  unfold orInsert
  by_cases hk : (m.lookup k).isSome = true
  · rw [if_pos hk]
    by_cases hid : id = k
    · subst hid
      obtain ⟨v, hv⟩ := Option.isSome_iff_exists.mp hk
      rw [hv, Option.some_or]
    · rw [if_neg hid, Option.or_none]
  · rw [if_neg hk, List.lookup_append]
    congr 1
    by_cases hid : id = k
    · simp [hid]
    · simp [List.lookup_cons, hid, beq_eq_false_iff_ne.mpr hid]

/-- The entry an op makes for an id. -/
theorem entry_eq (op : Op) (id : String) (m : IdMap) :
    ((match entry pOld pNew op with
      | some new => m.orInsert op.targetId new
      | none => m) : IdMap).lookup id =
      (m.lookup id).or (if op.targetKind = "item" ∧ op.targetId = id then swapPrefix pOld pNew id
        else none) := by
  by_cases hkind : op.targetKind = "item"
  · have he : entry pOld pNew op = swapPrefix pOld pNew op.targetId := if_pos hkind
    rw [he]
    cases hs : swapPrefix pOld pNew op.targetId with
    | none =>
      by_cases hid : op.targetId = id
      · subst hid
        simp [hs]
      · simp [hid]
    | some new =>
      dsimp only
      rw [lookup_orInsert]
      congr 1
      by_cases hid : op.targetId = id
      · subst hid
        simp [hkind, hs]
      · rw [if_neg (Ne.symm hid), if_neg fun h => hid h.2]
  · have he : entry pOld pNew op = none := if_neg hkind
    simp [he, hkind]

/-- The map holds the local ids. -/
theorem lookup_ofOps (pOld pNew : String) (ops : List Op) (id : String) :
    (ofOps pOld pNew ops).lookup id =
      if IsItemOf ops id then swapPrefix pOld pNew id else none := by
  have h (m : IdMap) : (ops.foldl (fun m op => match entry pOld pNew op with
      | some new => m.orInsert op.targetId new
      | none => m) m).lookup id = (m.lookup id).or
        (if IsItemOf ops id then swapPrefix pOld pNew id else none) := by
    induction ops generalizing m with
    | nil => simp [IsItemOf]
    | cons op ops ih =>
      rw [List.foldl_cons, ih, entry_eq, Option.or_assoc]
      congr 1
      by_cases h1 : op.targetKind = "item" ∧ op.targetId = id <;>
        by_cases h2 : IsItemOf ops id <;> simp [isItemOf_cons, h1, h2]
  exact h []

/-- **The map is the renaming of the local ids.** -/
theorem get_ofOps (pOld pNew : String) (ops : List Op) (id : String) :
    (ofOps pOld pNew ops).get id = renameId pOld pNew ops id := by
  unfold get renameId
  rw [lookup_ofOps]
  split_ifs <;> rfl

theorem swapPrefix_of_isEmpty (h : (ofOps pOld pNew ops).isEmpty = true) {id : String}
    (hid : IsItemOf ops id) : swapPrefix pOld pNew id = none := by
  have hl := lookup_ofOps pOld pNew ops id
  rw [List.isEmpty_iff.mp h, if_pos hid] at hl
  exact hl.symm

theorem isEmpty_ofOps (h : ∀ op ∈ ops, op.targetKind = "item" →
    swapPrefix pOld pNew op.targetId = none) : (ofOps pOld pNew ops).isEmpty = true := by
  have hstep : ∀ op ∈ ops, entry pOld pNew op = none := by
    intro op hop
    by_cases hkind : op.targetKind = "item"
    · exact (if_pos hkind).trans (h op hop hkind)
    · exact if_neg hkind
  unfold ofOps
  refine List.foldlRecOn (motive := fun m : IdMap => m.isEmpty = true) _ _ rfl fun m hm op hop => ?_
  rw [hstep op hop]
  exact hm

end IdMap

/-! ## What a prefix swap keeps -/

section Prefixes

variable {pOld pNew : String} {ops : List Op} {id : String}

theorem isValidPrefix_notMem {p : String} (hp : isValidPrefix p = true) {c : Char}
    (hc : isAsciiAlphanumeric c = false) : hasChar c p = false := by
  unfold isValidPrefix at hp
  rw [Bool.and_eq_true, List.all_eq_true] at hp
  rw [hasChar_eq_false_iff]
  intro hmem
  rw [hp.2 c hmem] at hc
  cases hc

theorem isValidPrefix_size {p : String} (hp : isValidPrefix p = true) : p.utf8ByteSize = 4 := by
  unfold isValidPrefix at hp
  rw [Bool.and_eq_true, decide_eq_true_eq] at hp
  exact hp.1

/-- An id is swapped when it is `old.suffix`. -/
theorem swapPrefix_eq_some {new : String} (h : swapPrefix pOld pNew id = some new) :
    ∃ suffix, id = pOld ++ ("." ++ suffix) ∧ new = pNew ++ ("." ++ suffix) ∧
      CarriesPrefix pOld id := by
  unfold swapPrefix at h
  cases hs : splitOnce '.' id with
  | none =>
    rw [hs] at h
    cases h
  | some p =>
    obtain ⟨pre, suffix⟩ := p
    rw [hs] at h
    dsimp only at h
    split_ifs at h with hpre
    cases h
    subst hpre
    exact ⟨suffix, (splitOnce_eq_some hs).1, rfl, by rw [CarriesPrefix, hs]; rfl⟩

theorem carriesPrefix_append (hp : isValidPrefix pNew = true) (suffix : String) :
    CarriesPrefix pNew (pNew ++ ("." ++ suffix)) := by
  have h := splitOnce_append (isValidPrefix_notMem hp (c := '.') (by decide)) suffix
  unfold CarriesPrefix
  rw [show ("." : String) = String.singleton '.' from rfl, h]
  rfl

/-- **A renamed id** is the id, or it went from `old.suffix` to `new.suffix`. -/
theorem renameId_cases (pOld pNew : String) (ops : List Op) (id : String) :
    renameId pOld pNew ops id = id ∨
    ∃ suffix, id = pOld ++ ("." ++ suffix) ∧
      renameId pOld pNew ops id = pNew ++ ("." ++ suffix) := by
  unfold renameId
  split_ifs with h
  · cases hs : swapPrefix pOld pNew id with
    | none => exact .inl rfl
    | some new =>
      obtain ⟨suffix, hid, hnew, _⟩ := swapPrefix_eq_some hs
      exact .inr ⟨suffix, hid, hnew⟩
  · exact .inl rfl

theorem utf8ByteSize_renameId (ho : isValidPrefix pOld = true) (hn : isValidPrefix pNew = true)
    (ops : List Op) (id : String) :
    (renameId pOld pNew ops id).utf8ByteSize = id.utf8ByteSize := by
  rcases renameId_cases pOld pNew ops id with h | ⟨suffix, hid, h⟩
  · rw [h]
  · rw [h, hid]
    simp only [String.utf8ByteSize_append, isValidPrefix_size ho, isValidPrefix_size hn]

theorem renameId_eq_empty_iff (ho : isValidPrefix pOld = true) (hn : isValidPrefix pNew = true)
    (ops : List Op) (id : String) : renameId pOld pNew ops id = "" ↔ id = "" := by
  rw [← String.utf8ByteSize_eq_zero_iff, utf8ByteSize_renameId ho hn,
    String.utf8ByteSize_eq_zero_iff]

theorem hasChar_renameId (ho : isValidPrefix pOld = true) (hn : isValidPrefix pNew = true)
    (ops : List Op) {c : Char} (hc : isAsciiAlphanumeric c = false) (id : String) :
    hasChar c (renameId pOld pNew ops id) = hasChar c id := by
  rcases renameId_cases pOld pNew ops id with h | ⟨suffix, hid, h⟩
  · rw [h]
  · rw [h, hid, hasChar_append, hasChar_append c pOld, isValidPrefix_notMem ho hc,
      isValidPrefix_notMem hn hc]

/-- **Ids that do not carry the new prefix stay apart.** -/
theorem renameId_injective (hn : isValidPrefix pNew = true) {a b : String}
    (ha : ¬ CarriesPrefix pNew a) (hb : ¬ CarriesPrefix pNew b)
    (h : renameId pOld pNew ops a = renameId pOld pNew ops b) : a = b := by
  rcases renameId_cases pOld pNew ops a with h₁ | ⟨s, has, h₁⟩ <;>
    rcases renameId_cases pOld pNew ops b with h₂ | ⟨t, hbt, h₂⟩ <;> rw [h₁, h₂] at h
  · exact h
  · exact absurd (h ▸ carriesPrefix_append hn t) ha
  · exact absurd (h ▸ carriesPrefix_append hn s) hb
  · rw [has, hbt, String.append_right_inj pNew |>.mp h]

end Prefixes

/-! ## The renaming of the rows -/

/-- The columns of a view table that hold an item's id. -/
def itemIdColumns : String → List String
  | "items" => ["id"]
  | "edge_adds" => ["from_id", "to_id"]
  | "label_adds" | "thread_link_adds" | "notes" | "chunks" | "chunk_superseded"
  | "item_timestamps" => ["item_id"]
  | "custom_fields" | "field_entries" => ["item_id", "value"]
  | _ => []

/-- The row is a note whose op wrote the field `body`. -/
def isNoteBody (ops : List Op) (key : Cells) : Bool :=
  ops.any fun op => op.field == "body" && key == [("id", .text op.opId)]

/-- **The renaming**: item ids where a column holds one, and the ids cited in free text. -/
def remapCells (pOld pNew : String) (ops : List Op) : CellMap := fun table key column text =>
  if column ∈ itemIdColumns table then renameId pOld pNew ops text
  else if table = "items" ∧ column ∈ freetextFields ∨
      table = "notes" ∧ column = "body" ∧ isNoteBody ops key = true then
    rewriteRefs (IdMap.ofOps pOld pNew ops) text
  else text

/-! ## Parsing a rewritten op -/

section Rewritten

variable {pOld pNew : String} {ops : List Op}

/-- `remap_target` on the pieces of a composite id. -/
def remapPieces (ren : String → String) (kind : String) (pieces : List String) : List String :=
  match kind, pieces with
  | "edge", [fromId, toId, kind] => [ren fromId, ren toId, kind]
  | "label", [itemId, label] => [ren itemId, label]
  | "thread_link", [threadId, itemId, relation, weight] => [threadId, ren itemId, relation, weight]
  | _, pieces => pieces

theorem remapPieces_edge (ren : String → String) (a b k : String) :
    remapPieces ren "edge" [a, b, k] = [ren a, ren b, k] := rfl

theorem remapPieces_label (ren : String → String) (a l : String) :
    remapPieces ren "label" [a, l] = [ren a, l] := rfl

theorem remapPieces_threadLink (ren : String → String) (t a r w : String) :
    remapPieces ren "thread_link" [t, a, r, w] = [t, ren a, r, w] := rfl

@[simp] theorem remapOp_targetKind (m : IdMap) (op : Op) :
    (remapOp m op).targetKind = op.targetKind := rfl

@[simp] theorem remapOp_opType (m : IdMap) (op : Op) : (remapOp m op).opType = op.opType := rfl

theorem remapTarget_of_kind {m : IdMap} {op : Op}
    (h : op.targetKind ∉ ["edge", "label", "thread_link"]) :
    remapTarget m op = m.get op.targetId := by
  simp only [List.mem_cons, List.not_mem_nil, or_false, not_or] at h
  unfold remapTarget
  rw [if_neg h.1, if_neg h.2.1, if_neg h.2.2]

theorem remapOp_target {op : Op} (h : op.targetKind ∉ ["edge", "label", "thread_link"]) :
    (remapOp (IdMap.ofOps pOld pNew ops) op).targetId = renameId pOld pNew ops op.targetId := by
  rw [← IdMap.get_ofOps]
  exact remapTarget_of_kind h

variable (ho : isValidPrefix pOld = true) (hn : isValidPrefix pNew = true)

include ho hn

/-- The separator is in a renamed id where it was in the id. -/
theorem hasChar_get (c : Char) (hc : isAsciiAlphanumeric c = false) (id : String) :
    hasChar c ((IdMap.ofOps pOld pNew ops).get id) = hasChar c id := by
  rw [IdMap.get_ofOps, hasChar_renameId ho hn ops hc]

theorem get_eq_empty_iff (id : String) : (IdMap.ofOps pOld pNew ops).get id = "" ↔ id = "" := by
  rw [IdMap.get_ofOps, renameId_eq_empty_iff ho hn]

theorem size_get (id : String) :
    ((IdMap.ofOps pOld pNew ops).get id).utf8ByteSize = id.utf8ByteSize := by
  rw [IdMap.get_ofOps, utf8ByteSize_renameId ho hn]

/-- A rewritten composite id splits into the rewritten pieces. -/
theorem splitChar_remapTarget (ops : List Op) {op : Op} (hk : op.targetKind ∈ ["edge", "label", "thread_link"]) :
    splitChar sep (remapOp (IdMap.ofOps pOld pNew ops) op).targetId =
      remapPieces (renameId pOld pNew ops) op.targetKind (splitChar sep op.targetId) := by
  have hmem : ∀ p ∈ splitChar sep op.targetId, hasChar sep p = false :=
    fun p hp => hasChar_of_mem_splitChar hp
  have hget : (IdMap.ofOps pOld pNew ops).get = renameId pOld pNew ops := funext fun id =>
    IdMap.get_ofOps pOld pNew ops id
  have hsep : ∀ id, hasChar sep (renameId pOld pNew ops id) = hasChar sep id :=
    hasChar_renameId ho hn ops (by decide)
  simp only [List.mem_cons, List.not_mem_nil, or_false] at hk
  change splitChar sep (remapTarget (IdMap.ofOps pOld pNew ops) op) = _
  unfold remapTarget
  generalize hl : splitChar sep op.targetId = l at hmem
  rcases hk with hk | hk | hk <;> simp only [hk, hget, String.reduceEq, if_true, if_false]
  · match l with
    | [a, b, k] => exact splitChar_joinChar (by simp) (by simpa [hsep] using hmem)
    | [] | [_] | [_, _] | _ :: _ :: _ :: _ :: _ => exact hl
  · match l with
    | [a, label] => exact splitChar_joinChar (by simp) (by simpa [hsep] using hmem)
    | [] | [_] | _ :: _ :: _ :: _ => exact hl
  · match l with
    | [t, a, r, w] => exact splitChar_joinChar (by simp) (by simpa [hsep] using hmem)
    | [] | [_] | [_, _] | [_, _, _] | _ :: _ :: _ :: _ :: _ :: _ => exact hl

theorem parseEdge_remapOp {op : Op} (hk : op.targetKind = "edge") :
    parseEdge (remapOp (IdMap.ofOps pOld pNew ops) op) = (parseEdge op).map fun (a, b, k) =>
      (renameId pOld pNew ops a, renameId pOld pNew ops b, k) := by
  have hkind : op.targetKind ∈ ["edge", "label", "thread_link"] := by simp [hk]
  have htarget := splitChar_remapTarget ho hn ops hkind
  unfold parseEdge
  rw [htarget, hk]
  match splitChar sep op.targetId with
  | [a, b, k] => cases h : (EdgeKind.parse k).isSome <;> simp [remapPieces_edge, h]
  | [] | [_] | [_, _] | _ :: _ :: _ :: _ :: _ => rfl

theorem parseLabel_remapOp {op : Op} (hk : op.targetKind = "label") :
    parseLabel (remapOp (IdMap.ofOps pOld pNew ops) op) = (parseLabel op).map fun (a, l) =>
      (renameId pOld pNew ops a, l) := by
  have hkind : op.targetKind ∈ ["edge", "label", "thread_link"] := by simp [hk]
  have htarget := splitChar_remapTarget ho hn ops hkind
  unfold parseLabel
  rw [htarget, hk]
  match splitChar sep op.targetId with
  | [a, l] => cases h : l != "" <;> simp [remapPieces_label, h]
  | [] | [_] | _ :: _ :: _ :: _ => rfl

theorem parseThreadLink_remapOp {op : Op} (hk : op.targetKind = "thread_link") :
    parseThreadLink (remapOp (IdMap.ofOps pOld pNew ops) op) =
      (parseThreadLink op).map fun (t, a, r, w) => (t, renameId pOld pNew ops a, r, w) := by
  have hkind : op.targetKind ∈ ["edge", "label", "thread_link"] := by simp [hk]
  have htarget := splitChar_remapTarget ho hn ops hkind
  have hempty (a : String) : (renameId pOld pNew ops a != "") = (a != "") := by
    rw [Bool.eq_iff_iff, bne_iff_ne, bne_iff_ne, not_iff_not, renameId_eq_empty_iff ho hn ops a]
  unfold parseThreadLink
  rw [htarget, hk]
  match splitChar sep op.targetId with
  | [t, a, r, w] =>
    simp only [remapPieces_threadLink, hempty]
    split_ifs <;> rfl
  | [] | [_] | [_, _] | [_, _, _] | _ :: _ :: _ :: _ :: _ :: _ => rfl

theorem entryPlaceOk_remapOp {op : Op} (hk : op.targetKind = "field") :
    entryPlaceOk (remapOp (IdMap.ofOps pOld pNew ops) op) = entryPlaceOk op := by
  have hne : (renameId pOld pNew ops op.targetId != "") = (op.targetId != "") := by
    rw [Bool.eq_iff_iff, bne_iff_ne, bne_iff_ne, not_iff_not, renameId_eq_empty_iff ho hn]
  unfold entryPlaceOk
  rw [remapOp_target (by simp [hk]), hne, utf8ByteSize_renameId ho hn,
    hasChar_renameId ho hn ops (by decide)]
  rfl

theorem parseEntryAdd_remapOp {op : Op} (hk : op.targetKind = "field") (ht : op.opType = "add") :
    parseEntryAdd (remapOp (IdMap.ofOps pOld pNew ops) op) =
      (parseEntryAdd op).map fun (v, label) => (renameId pOld pNew ops v, label) := by
  have hset : startsWith "set" "add" = false := by decide
  unfold parseEntryAdd
  rw [entryPlaceOk_remapOp ho hn hk]
  cases hv : op.value with
  | none => simp [remapOp, remapValue, hv]
  | some raw =>
    cases hp : parseEntryValue raw with
    | none =>
      have hval : (remapOp (IdMap.ofOps pOld pNew ops) op).value = some raw := by
        simp [remapOp, remapValue, hv, hk, ht, hset, hp]
      simp only [hval, Option.bind_eq_bind, Option.bind_some, hp]
      simp [remapOp]
    | some p =>
      obtain ⟨v, label⟩ := p
      obtain ⟨rfl, hv0, hvs, hl⟩ := parseEntryValue_eq_some hp
      have hval : (remapOp (IdMap.ofOps pOld pNew ops) op).value =
          some (entryValue (renameId pOld pNew ops v) label) := by
        simp [remapOp, remapValue, hv, hk, ht, hset, hp, IdMap.get_ofOps]
      have hsize : (entryValue (renameId pOld pNew ops v) label).utf8ByteSize =
          (entryValue v label).utf8ByteSize := by
        cases label <;> simp [entryValue, utf8ByteSize_renameId ho hn]
      have hparse : parseEntryValue (entryValue (renameId pOld pNew ops v) label) =
          some (renameId pOld pNew ops v, label) :=
        parseEntryValue_entryValue (mt (renameId_eq_empty_iff ho hn ops v).mp hv0)
          (by rw [hasChar_renameId ho hn ops (by decide), hvs]) hl
      simp only [hval, Option.bind_eq_bind, Option.bind_some, hp, hparse, hsize]
      rw [apply_ite (Option.map _)]
      rfl

theorem parseEntryRemove_remapOp {op : Op} (hk : op.targetKind = "field")
    (ht : op.opType = "remove") :
    parseEntryRemove (remapOp (IdMap.ofOps pOld pNew ops) op) = parseEntryRemove op := by
  have hset : startsWith "set" "remove" = false := by decide
  have hval : (remapOp (IdMap.ofOps pOld pNew ops) op).value = op.value := by
    simp [remapOp, remapValue, hk, ht, hset]
  unfold parseEntryRemove
  rw [entryPlaceOk_remapOp ho hn hk, hval]

theorem parseChunk_remapOp {op : Op} (hk : op.targetKind = "chunk") :
    parseChunk (remapOp (IdMap.ofOps pOld pNew ops) op) = parseChunk op := by
  have hval : (remapOp (IdMap.ofOps pOld pNew ops) op).value = op.value := by
    simp [remapOp, remapValue, hk]
  have hne : (renameId pOld pNew ops op.targetId == "") = (op.targetId == "") := by
    rw [Bool.eq_iff_iff, beq_iff_eq, beq_iff_eq, renameId_eq_empty_iff ho hn]
  unfold parseChunk
  rw [hval, remapOp_target (by simp [hk]), hne, utf8ByteSize_renameId ho hn,
    hasChar_renameId ho hn ops (by decide)]
  rfl

/-- **A rewritten op folds where the op did.** -/
theorem isFoldable_remapOp (op : Op) :
    isFoldable (remapOp (IdMap.ofOps pOld pNew ops) op) = isFoldable op := by
  unfold isFoldable
  by_cases h1 : op.targetKind = "item"
  · rw [if_pos (by exact h1), if_pos h1]
    rfl
  rw [if_neg (by exact h1), if_neg h1]
  by_cases h2 : op.targetKind = "field"
  · rw [if_pos (by exact h2), if_pos h2]
    simp only [remapOp_opType]
    split
    · next ht => rw [parseEntryAdd_remapOp ho hn h2 ht, Option.isSome_map]
    · next ht => rw [parseEntryRemove_remapOp ho hn h2 ht]
    · have hne : (renameId pOld pNew ops op.targetId != "") = (op.targetId != "") := by
        rw [Bool.eq_iff_iff, bne_iff_ne, bne_iff_ne, not_iff_not, renameId_eq_empty_iff ho hn]
      rw [remapOp_target (by simp [h2]), hne]
      rfl
  · rw [if_neg (by exact h2), if_neg h2]
    simp only [remapOp_targetKind, remapOp_opType]
    split
    · next hk _ => rw [parseEdge_remapOp ho hn hk, Option.isSome_map]
    · next hk _ => rw [parseEdge_remapOp ho hn hk, Option.isSome_map]
    · next hk _ => rw [parseLabel_remapOp ho hn hk, Option.isSome_map]
    · next hk _ => rw [parseLabel_remapOp ho hn hk, Option.isSome_map]
    · next hk _ => rw [parseThreadLink_remapOp ho hn hk, Option.isSome_map]
    · rfl
    · rfl
    · rfl
    · next hk _ => rw [parseChunk_remapOp ho hn hk]
    · next hk _ => rw [parseChunk_remapOp ho hn hk]
    · rfl

end Rewritten

/-! ## The changes of a rewritten op -/

theorem ofOption_map (f : String → String) (o : Option String) :
    Cell.ofOption (o.map f) = (Cell.ofOption o).rename f := by
  cases o <;> rfl

theorem startsWith_set_of_isSome {opType : String}
    (h : (MergeStrategy.fromItemSetOpType opType).isSome = true) :
    startsWith "set" opType = true := by
  unfold MergeStrategy.fromItemSetOpType at h
  split_ifs at h with hset
  · rw [hset]
    decide
  · obtain ⟨s, hs⟩ := Option.isSome_iff_exists.mp h
    obtain ⟨rest, hrest, _⟩ := Option.bind_eq_some_iff.mp hs
    unfold stripPrefix at hrest
    split_ifs at hrest with hpre
    unfold startsWith at hpre ⊢
    rw [List.isPrefixOf_iff_prefix] at hpre ⊢
    exact List.IsPrefix.trans (by decide) hpre

section Changes

variable {pOld pNew : String} {ops : List Op}

theorem itemLww_remapOp {op : Op} (hk : op.targetKind = "item") (hf : op.field ∈ itemLwwFields) :
    itemLww (remapOp (IdMap.ofOps pOld pNew ops) op) =
      (remapCells pOld pNew ops).change (itemLww op) := by
  have hid : op.field ≠ "id" ∧ op.field ≠ "belongs_to" := by
    have h : ∀ f ∈ itemLwwFields, f ≠ "id" ∧ f ≠ "belongs_to" := by decide
    exact h _ hf
  have hvalue : (Cell.ofOption (remapOp (IdMap.ofOps pOld pNew ops) op).value) =
      (Cell.ofOption op.value).rename
        (remapCells pOld pNew ops "items" [("id", .text op.targetId)] op.field) := by
    rw [← ofOption_map]
    congr 1
    refine congrArg (Option.map · op.value) (funext fun text => ?_)
    simp [remapCells, itemIdColumns, hk, hid]
  unfold itemLww
  rw [hvalue, remapOp_target (by simp [hk])]
  rfl

theorem fieldChange_remapOp {op : Op} (hk : op.targetKind = "field")
    (ht : startsWith "set" op.opType = true) :
    fieldChange (remapOp (IdMap.ofOps pOld pNew ops) op) =
      (remapCells pOld pNew ops).change (fieldChange op) := by
  have hvalue : (Cell.ofOption (remapOp (IdMap.ofOps pOld pNew ops) op).value) =
      (Cell.ofOption op.value).rename (renameId pOld pNew ops) := by
    rw [← ofOption_map]
    congr 1
    refine congrArg (Option.map · op.value) (funext fun text => ?_)
    simp [hk, ht, IdMap.get_ofOps]
  unfold fieldChange
  rw [hvalue, remapOp_target (by simp [hk])]
  rfl

theorem timestampChanges_remapOp {op : Op} (hk : op.targetKind ∉ ["edge", "label", "thread_link"]) :
    timestampChanges (remapOp (IdMap.ofOps pOld pNew ops) op) =
      (timestampChanges op).map (remapCells pOld pNew ops).change := by
  unfold timestampChanges
  rw [remapOp_target hk]
  rfl

theorem tombstones_remapOp {op : Op} (hk : op.targetKind ∈ ["edge", "label", "thread_link"])
    {table : String} (ht : table ∈ ["edge_removes", "label_removes", "thread_link_removes"]) :
    tombstones (remapOp (IdMap.ofOps pOld pNew ops) op) table =
      (tombstones op table).map (remapCells pOld pNew ops).change := by
  have hvalue : (remapOp (IdMap.ofOps pOld pNew ops) op).value = op.value := by
    simp only [List.mem_cons, List.not_mem_nil, or_false] at hk
    rcases hk with hk | hk | hk <;> simp [remapOp, remapValue, hk]
  unfold tombstones
  rw [hvalue]
  cases op.value with
  | none => rfl
  | some tags =>
    simp only [List.map_map]
    refine List.map_congr_left fun tag _ => ?_
    simp only [List.mem_cons, List.not_mem_nil, or_false] at ht
    rcases ht with rfl | rfl | rfl <;> rfl

theorem noteAdd_remapOp {op : Op} (hk : op.targetKind = "note") (hop : op ∈ ops)
    (hnd : (ops.map Op.opId).Nodup) :
    noteAdd (remapOp (IdMap.ofOps pOld pNew ops) op) =
      (remapCells pOld pNew ops).change (noteAdd op) := by
  have hbody : isNoteBody ops [("id", .text op.opId)] = (op.field == "body") := by
    rw [Bool.eq_iff_iff, isNoteBody, List.any_eq_true]
    constructor
    · rintro ⟨o, ho, h⟩
      simp only [Bool.and_eq_true, beq_iff_eq, List.cons.injEq, Prod.mk.injEq, Cell.text.injEq,
        true_and, and_true] at h
      rw [List.inj_on_of_nodup_map hnd hop ho h.2]
      exact beq_iff_eq.mpr h.1
    · intro h
      exact ⟨op, hop, by simpa using h⟩
  have hvalue : (Cell.ofOption (remapOp (IdMap.ofOps pOld pNew ops) op).value) =
      (Cell.ofOption op.value).rename
        (remapCells pOld pNew ops "notes" [("id", .text op.opId)] "body") := by
    rw [← ofOption_map]
    congr 1
    refine congrArg (Option.map · op.value) (funext fun text => ?_)
    simp [remapCells, itemIdColumns, hk, hbody]
  unfold noteAdd
  rw [hvalue, remapOp_target (by simp [hk])]
  rfl

/-- A redaction keeps its note, when the note's id is no local item id. -/
theorem noteRedact_remapOp {op : Op} (hk : op.targetKind = "note")
    (h : renameId pOld pNew ops op.targetId = op.targetId) :
    noteRedact (remapOp (IdMap.ofOps pOld pNew ops) op) =
      (remapCells pOld pNew ops).change (noteRedact op) := by
  unfold noteRedact
  rw [remapOp_target (by simp [hk]), h]
  rfl

variable (ho : isValidPrefix pOld = true) (hn : isValidPrefix pNew = true)

include ho hn

theorem edgeAdd_remapOp {op : Op} (hk : op.targetKind = "edge") :
    edgeAdd (remapOp (IdMap.ofOps pOld pNew ops) op) =
      (edgeAdd op).map (remapCells pOld pNew ops).change := by
  unfold edgeAdd
  rw [parseEdge_remapOp ho hn hk]
  cases parseEdge op <;> rfl

theorem labelAdd_remapOp {op : Op} (hk : op.targetKind = "label") :
    labelAdd (remapOp (IdMap.ofOps pOld pNew ops) op) =
      (labelAdd op).map (remapCells pOld pNew ops).change := by
  unfold labelAdd
  rw [parseLabel_remapOp ho hn hk]
  cases parseLabel op <;> rfl

theorem threadLinkAdd_remapOp {op : Op} (hk : op.targetKind = "thread_link") :
    threadLinkAdd (remapOp (IdMap.ofOps pOld pNew ops) op) =
      (threadLinkAdd op).map (remapCells pOld pNew ops).change := by
  unfold threadLinkAdd
  rw [parseThreadLink_remapOp ho hn hk]
  cases parseThreadLink op <;> rfl

theorem entryAdd_remapOp {op : Op} (hk : op.targetKind = "field") (ht : op.opType = "add") :
    entryAdd (remapOp (IdMap.ofOps pOld pNew ops) op) =
      (entryAdd op).map (remapCells pOld pNew ops).change := by
  unfold entryAdd
  rw [parseEntryAdd_remapOp ho hn hk ht, remapOp_target (by simp [hk])]
  rcases parseEntryAdd op with _ | ⟨v, _ | label⟩ <;> rfl

theorem entryRemove_remapOp {op : Op} (hk : op.targetKind = "field") (ht : op.opType = "remove") :
    entryRemove (remapOp (IdMap.ofOps pOld pNew ops) op) =
      (entryRemove op).map (remapCells pOld pNew ops).change := by
  unfold entryRemove
  rw [parseEntryRemove_remapOp ho hn hk ht, remapOp_target (by simp [hk])]
  cases parseEntryRemove op with
  | none => rfl
  | some tags =>
    simp only [List.map_map]
    rfl

theorem chunkChanges_remapOp {op : Op} (hk : op.targetKind = "chunk") :
    chunkChanges (remapOp (IdMap.ofOps pOld pNew ops) op) =
      (chunkChanges op).map (remapCells pOld pNew ops).change := by
  unfold chunkChanges
  rw [parseChunk_remapOp ho hn hk, remapOp_target (by simp [hk])]
  rcases parseChunk op with _ | ⟨replaced, payload⟩
  · rfl
  · simp only [List.map_cons, List.map_map]
    rfl

end Changes

/-! ## All changes at once -/

/-- A redaction that names a local item id instead of a note's. -/
def RedactsItem (pOld : String) (ops : List Op) (op : Op) : Prop :=
  op.targetKind = "note" ∧ op.opType = "set" ∧ IsItemOf ops op.targetId ∧
    CarriesPrefix pOld op.targetId

instance (pOld : String) (ops : List Op) (op : Op) : Decidable (RedactsItem pOld ops op) :=
  inferInstanceAs (Decidable (_ ∧ _ ∧ _ ∧ _))

section Fold

variable {pOld pNew : String} {ops : List Op}

theorem renameId_of_not_redactsItem {op : Op} (h : ¬ RedactsItem pOld ops op)
    (hk : op.targetKind = "note") (ht : op.opType = "set") :
    renameId pOld pNew ops op.targetId = op.targetId := by
  unfold renameId
  split_ifs with hitem
  · cases hs : swapPrefix pOld pNew op.targetId with
    | none => rfl
    | some new =>
      obtain ⟨_, _, _, hc⟩ := swapPrefix_eq_some hs
      exact absurd ⟨hk, ht, hitem, hc⟩ h
  · rfl

/-- **A rewritten op makes the renamed changes.** -/
theorem changes_remapOp (ho : isValidPrefix pOld = true) (hn : isValidPrefix pNew = true)
    (hnd : (ops.map Op.opId).Nodup) {op : Op} (hop : op ∈ ops) (hf : isFoldable op = true)
    (hred : ¬ RedactsItem pOld ops op) :
    changes (remapOp (IdMap.ofOps pOld pNew ops) op) =
      (changes op).map (remapCells pOld pNew ops).change := by
  have hkind : kindChanges (remapOp (IdMap.ofOps pOld pNew ops) op) =
      (kindChanges op).map (remapCells pOld pNew ops).change := by
    unfold isFoldable at hf
    unfold kindChanges
    by_cases h1 : op.targetKind = "item"
    · rw [if_pos h1, Bool.and_eq_true] at hf
      rw [if_pos (by exact h1), if_pos h1, remapOp_opType]
      have hlww : itemLww (remapOp (IdMap.ofOps pOld pNew ops) op) =
          (remapCells pOld pNew ops).change (itemLww op) :=
        itemLww_remapOp h1 (List.contains_iff_mem.mp hf.2)
      cases MergeStrategy.fromItemSetOpType op.opType with
      | none => rfl
      | some strategy => cases strategy <;> exact congrArg (fun c => [c]) hlww
    rw [if_neg (by exact h1), if_neg h1]
    by_cases h2 : op.targetKind = "field"
    · rw [if_neg h1, if_pos h2] at hf
      rw [if_pos (by exact h2), if_pos h2]
      simp only [remapOp_opType]
      split
      · next ht => exact entryAdd_remapOp ho hn h2 ht
      · next ht => exact entryRemove_remapOp ho hn h2 ht
      · next hadd hremove =>
        have hset : startsWith "set" op.opType = true := by
          split at hf
          · next ht => exact absurd ht hadd
          · next ht => exact absurd ht hremove
          · simp only [Bool.and_eq_true] at hf
            exact startsWith_set_of_isSome hf.1.1
        rw [fieldChange_remapOp h2 hset]
        rfl
    · rw [if_neg (by exact h2), if_neg h2]
      simp only [remapOp_targetKind, remapOp_opType]
      have hcomp (kind : String) (h : kind ∈ ["edge", "label", "thread_link"])
          (hk : op.targetKind = kind) : op.targetKind ∈ ["edge", "label", "thread_link"] := hk ▸ h
      split
      · next hk _ => exact edgeAdd_remapOp ho hn hk
      · next hk _ => exact tombstones_remapOp (hcomp _ (by decide) hk) (by decide)
      · next hk _ => exact labelAdd_remapOp ho hn hk
      · next hk _ => exact tombstones_remapOp (hcomp _ (by decide) hk) (by decide)
      · next hk _ => exact threadLinkAdd_remapOp ho hn hk
      · next hk _ => exact tombstones_remapOp (hcomp _ (by decide) hk) (by decide)
      · next hk _ => exact congrArg (fun c => [c]) (noteAdd_remapOp hk hop hnd)
      · next hk ht =>
        exact congrArg (fun c => [c])
          (noteRedact_remapOp hk (renameId_of_not_redactsItem hred hk ht))
      · next hk => exact chunkChanges_remapOp ho hn hk
      · rfl
  unfold changes
  rw [hkind, List.map_append]
  congr 1
  change (if datesItem op = true then _ else _) = _
  split_ifs with hd
  · refine timestampChanges_remapOp fun hmem => ?_
    unfold datesItem at hd
    simp only [List.mem_cons, List.not_mem_nil, or_false] at hmem
    rcases hmem with h | h | h <;> simp [h] at hd
  · rfl

end Fold

end NexusFlow.Core
