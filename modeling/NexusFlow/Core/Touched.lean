import NexusFlow.Core.NextCache
import NexusFlow.Core.TagTables

/-!
# What the touched set covers

A cached page is served while no item on it is among `items_touched_since` its watermark
(`crates/core/src/next_cache.rs:133-175`). That set is read off the targets of the logged ops, while
the rows an item's record is read from change through what the ops carry: a remove tombstones the
tags in its value (`crates/core/src/task_reducer.rs:274-286`).

* `InRecord`: the rows of the views an item's record is read from.
* `Reaches`: what one change of a folded op has to do with the op's target. Only the tombstones of
  a tag set land elsewhere than at the target.
* `itemsTouchedSince_covers_iff`: the touched set covers every changed record exactly when each
  remove names, in its own target, the items of the adds whose tags it is the first to name.
* `touched_misses_mismatched_remove`: a received remove of a thread link whose target names another
  item.
-/

namespace NexusFlow.Core

open NexusFlow.Foundation TaskReducer

/-! ## The rows of a record -/

/-- The columns of a tag set's adds that hold an item. -/
def TagSet.itemColumns (S : TagSet) : List String :=
  if S.kind = "edge" then ["from_id", "to_id"] else ["item_id"]

/-- The row of the add with this tag is about the item. -/
def TagSet.Owns (S : TagSet) (v : View) (item tag : String) : Prop :=
  ∃ row, v S.adds [("tag", .text tag)] = some row ∧ ∃ col ∈ S.itemColumns, row col = .text item

/-- The tables of the tag sets. -/
def tagTables : List String :=
  ["edge_adds", "edge_removes", "label_adds", "label_removes", "thread_link_adds",
    "thread_link_removes"]

/-- The tables whose rows are filed under the item they belong to. -/
def placeTables : List String :=
  ["item_timestamps", "custom_fields", "field_entries", "chunks", "chunk_superseded"]

/-- **The rows an item's record is read from**: its cells and instants, its custom fields, list
entries and chunks, its notes and their redactions, the labels, thread links and edges it is named
in, and their tombstones. -/
inductive InRecord (v : View) (item : String) : String → Cells → Prop
  | cells : InRecord v item "items" [("id", .text item)]
  | placed {t : String} {k : Cells} (ht : t ∈ placeTables)
      (hk : k.head? = some ("item_id", .text item)) : InRecord v item t k
  | note {k : Cells} {row : Row} (hrow : v "notes" k = some row)
      (hitem : row "item_id" = .text item) : InRecord v item "notes" k
  | redaction {n : String} {row : Row} (hrow : v "notes" [("id", .text n)] = some row)
      (hitem : row "item_id" = .text item) :
      InRecord v item "note_tombstones" [("note_id", .text n)]
  | added {S : TagSet} {tag : String} (hS : S ∈ tagSets) (hown : S.Owns v item tag) :
      InRecord v item S.adds [("tag", .text tag)]
  | removed {S : TagSet} {tag : String} (hS : S ∈ tagSets) (hown : S.Owns v item tag) :
      InRecord v item S.removes [("tag", .text tag)]

/-- A row of the item's record, as it was or as it is, changed. -/
def RecordChanged (v v' : View) (item : String) : Prop :=
  ∃ t k, (InRecord v item t k ∨ InRecord v' item t k) ∧ v t k ≠ v' t k

/-- `SELECT item_id FROM notes WHERE id = ?1`. -/
def noteItemOf (v : View) (n : String) : Option String :=
  (v "notes" [("id", .text n)]).bind fun row => cellText (row "item_id")

/-- `items_touched_since`, over the rows the log folds to. -/
def touchedSince (log : List Op) (watermark : ℕ) : List String :=
  itemsTouchedSince (noteItemOf (rowsOf log)) log watermark

/-- Every item whose record changed since the watermark is in the touched set. -/
def Covered (log : List Op) (watermark : ℕ) : Prop :=
  ∀ item, RecordChanged (rowsOf (log.take watermark)) (rowsOf log) item →
    item ∈ touchedSince log watermark

/-- The items the target of an op names, no note looked up. -/
def targetItems (op : Op) : List String := touches (fun _ => none) op

/-! ## What a change has to do with its op's target -/

/-- Where a change of a folded op lands: under the item the op targets, at a note, or in the tables
of a tag set. -/
inductive Reaches (op : Op) (c : Change) : Prop
  | cells (hself : ∀ noteItem, touches noteItem op = [op.targetId]) (ht : c.table = "items")
      (hk : c.key = [("id", .text op.targetId)])
  | placed (hself : ∀ noteItem, touches noteItem op = [op.targetId]) (ht : c.table ∈ placeTables)
      (hk : c.key.head? = some ("item_id", .text op.targetId))
  | note (hself : ∀ noteItem, touches noteItem op = [op.targetId]) (hc : c = noteAdd op)
  | redaction (htouch : ∀ noteItem, touches noteItem op = (noteItem op.targetId).toList)
      (hc : c = noteRedact op)
  | tagged (ht : c.table ∈ tagTables)

theorem touches_self {op : Op} (hd : op.targetKind = "item" ∨ op.targetKind = "field" ∨
      op.targetKind = "chunk") (noteItem : String → Option String) :
    touches noteItem op = [op.targetId] := by
  unfold touches
  rw [if_pos hd]

theorem touches_noteAdd {op : Op} (hk : op.targetKind = "note") (ho : op.opType = "note_add")
    (noteItem : String → Option String) : touches noteItem op = [op.targetId] := by
  simp [touches, hk, ho]

theorem touches_noteSet {op : Op} (hk : op.targetKind = "note") (ho : op.opType = "set")
    (noteItem : String → Option String) :
    touches noteItem op = (noteItem op.targetId).toList := by
  simp [touches, hk, ho]

theorem tables_apart : ∀ t ∈ placeTables, t ∉ tagTables := by decide

/-- A change of a tag set lands in the set's tables. -/
theorem reaches_of_mem_tagChanges {S : TagSet} (hS : S ∈ tagSets) {op : Op} {c : Change}
    (hc : c ∈ S.changes op) : Reaches op c := by
  have hsub : ∀ T ∈ tagSets, T.adds ∈ tagTables ∧ T.removes ∈ tagTables := by
    simp [tagSets, tagTables, edgeTags, labelTags, linkTags]
  refine .tagged ?_
  rcases ((S.mem_changes hS).mp hc).2 with ⟨_, ht, _⟩ | ⟨_, ht, _⟩
  · rw [ht]
    exact (hsub S hS).1
  · rw [ht]
    exact (hsub S hS).2

/-- The changes that depend on the kind: one `cases` for each arm of `changes`. -/
theorem reaches_of_mem_kindChanges {op : Op} {c : Change} (hc : c ∈ kindChanges op) :
    Reaches op c := by
  unfold kindChanges at hc
  split_ifs at hc with hitem hfield
  · -- an item's cell
    split at hc
    · next strategy _ =>
      have : itemChanges op strategy = [itemLww op] := by cases strategy <;> rfl
      rw [this, List.mem_singleton] at hc
      subst hc
      exact .cells (touches_self (.inl hitem)) rfl rfl
    · cases hc
  · -- a custom field or an entry of a list field
    have hself (noteItem : String → Option String) : touches noteItem op = [op.targetId] :=
      touches_self (.inr (.inl hfield)) noteItem
    split at hc
    · unfold entryAdd at hc
      split at hc
      · cases hc
      · rw [List.mem_singleton] at hc
        subst hc
        exact .placed hself (by decide : "field_entries" ∈ placeTables) rfl
    · unfold entryRemove at hc
      split at hc
      · cases hc
      · obtain ⟨tag, _, rfl⟩ := List.mem_map.mp hc
        exact .placed hself (by decide : "field_entries" ∈ placeTables) rfl
    · rw [List.mem_singleton] at hc
      subst hc
      exact .placed hself (by decide : "custom_fields" ∈ placeTables) rfl
  · have hedge : edgeTags ∈ tagSets := by simp [tagSets]
    have hlabel : labelTags ∈ tagSets := by simp [tagSets]
    have hlink : linkTags ∈ tagSets := by simp [tagSets]
    split at hc
    · next hk ho =>
      have hc : c ∈ edgeTags.changes op := by simpa [TagSet.changes, edgeTags, hk, ho]
      exact reaches_of_mem_tagChanges hedge hc
    · next hk ho =>
      have hc : c ∈ edgeTags.changes op := by simpa [TagSet.changes, edgeTags, hk, ho]
      exact reaches_of_mem_tagChanges hedge hc
    · next hk ho =>
      have hc : c ∈ labelTags.changes op := by simpa [TagSet.changes, labelTags, hk, ho]
      exact reaches_of_mem_tagChanges hlabel hc
    · next hk ho =>
      have hc : c ∈ labelTags.changes op := by simpa [TagSet.changes, labelTags, hk, ho]
      exact reaches_of_mem_tagChanges hlabel hc
    · next hk ho =>
      have hc : c ∈ linkTags.changes op := by simpa [TagSet.changes, linkTags, hk, ho]
      exact reaches_of_mem_tagChanges hlink hc
    · next hk ho =>
      have hc : c ∈ linkTags.changes op := by simpa [TagSet.changes, linkTags, hk, ho]
      exact reaches_of_mem_tagChanges hlink hc
    · next hk ho =>
      exact .note (touches_noteAdd hk ho) (List.mem_singleton.mp hc)
    · next hk ho => exact .redaction (touches_noteSet hk ho) (List.mem_singleton.mp hc)
    · next hk =>
      have hself (noteItem : String → Option String) : touches noteItem op = [op.targetId] :=
        touches_self (.inr (.inr hk)) noteItem
      unfold chunkChanges at hc
      split at hc
      · cases hc
      · rcases List.mem_cons.mp hc with rfl | hc
        · exact .placed hself (by decide : "chunks" ∈ placeTables) rfl
        · obtain ⟨id, _, rfl⟩ := List.mem_map.mp hc
          exact .placed hself (by decide : "chunk_superseded" ∈ placeTables) rfl
    · cases hc

theorem touches_of_datesItem {op : Op} (hd : datesItem op = true)
    (noteItem : String → Option String) : touches noteItem op = [op.targetId] := by
  unfold datesItem at hd
  simp only [Bool.or_eq_true, Bool.and_eq_true, beq_iff_eq] at hd
  rcases hd with (hk | hk) | ⟨hk, ho⟩
  · exact touches_self (.inl hk) noteItem
  · exact touches_self (.inr (.inl hk)) noteItem
  · exact touches_noteAdd hk ho noteItem

/-- **Where the changes of a folded op land.** -/
theorem reaches_of_mem_changesOf {op : Op} {c : Change} (hc : c ∈ taskReducer.changesOf op) :
    Reaches op c := by
  have hc : c ∈ changes op := by
    have hf := folds_of_mem_changesOf hc
    unfold Reducer.changesOf at hc
    rwa [if_pos hf] at hc
  unfold changes at hc
  rcases List.mem_append.mp hc with hc | hc
  · exact reaches_of_mem_kindChanges hc
  · split_ifs at hc with hd
    · have hself := fun noteItem => touches_of_datesItem hd noteItem
      have ht : "item_timestamps" ∈ placeTables := by decide
      rcases List.mem_pair.mp hc with rfl | rfl
      · exact .placed hself ht rfl
      · exact .placed hself ht rfl
    · cases hc

theorem domain_of_folds {op : Op} (hf : taskReducer.folds op = true) : op.domain = domainTask := by
  unfold Reducer.folds at hf
  simp only [Bool.and_eq_true, beq_iff_eq] at hf
  exact hf.1.2.symm

namespace Reaches

variable {op : Op} {c : Change}

theorem of_items (h : Reaches op c) (ht : c.table = "items") :
    (∀ noteItem, touches noteItem op = [op.targetId]) ∧ c.key = [("id", .text op.targetId)] := by
  cases h with
  | cells hself _ hk => exact ⟨hself, hk⟩
  | _ => simp_all [placeTables, tagTables, noteAdd, noteRedact, Change.put]

theorem of_placed (h : Reaches op c) (ht : c.table ∈ placeTables) :
    (∀ noteItem, touches noteItem op = [op.targetId]) ∧
      c.key.head? = some ("item_id", .text op.targetId) := by
  cases h with
  | placed hself _ hk => exact ⟨hself, hk⟩
  | tagged ht' => exact absurd ht' (tables_apart _ ht)
  | _ => simp_all [placeTables, noteAdd, noteRedact, Change.put]

theorem of_notes (h : Reaches op c) (ht : c.table = "notes") :
    (∀ noteItem, touches noteItem op = [op.targetId]) ∧ c = noteAdd op := by
  cases h with
  | note hself hc => exact ⟨hself, hc⟩
  | _ => simp_all [placeTables, tagTables, noteRedact, Change.put]

theorem of_tombstones (h : Reaches op c) (ht : c.table = "note_tombstones") :
    (∀ noteItem, touches noteItem op = (noteItem op.targetId).toList) ∧ c = noteRedact op := by
  cases h with
  | redaction htouch hc => exact ⟨htouch, hc⟩
  | _ => simp_all [placeTables, tagTables, noteAdd, Change.put]

end Reaches

/-! ## The rows that name an item -/

section Rows

variable {ops ops' : List Op} {item : String}

/-- The row of an add holds the items its op's target names. -/
theorem mem_targetItems_iff_row {S : TagSet} (hS : S ∈ tagSets) {a : Op} {c : Change}
    (hk : a.targetKind = S.kind) (hc : c ∈ S.add a) :
    item ∈ targetItems a ↔ ∃ col ∈ S.itemColumns, insertedRow flowDdl c col = .text item := by
  simp only [tagSets, List.mem_cons, List.not_mem_nil, or_false] at hS
  rcases hS with rfl | rfl | rfl
  · change a.targetKind = "edge" at hk
    change c ∈ edgeAdd a at hc
    change _ ↔ ∃ col ∈ ["from_id", "to_id"], _
    unfold edgeAdd at hc
    split at hc
    · cases hc
    · next fromId toId kind hp =>
      unfold parseEdge at hp
      split at hp
      · next f t k hparts =>
        split_ifs at hp
        cases hp
        rw [List.mem_singleton] at hc
        have hf : insertedRow flowDdl c "from_id" = .text fromId := by rw [hc]; rfl
        have ht : insertedRow flowDdl c "to_id" = .text toId := by rw [hc]; rfl
        simp [targetItems, touches, hk, hparts, hf, ht, eq_comm]
      · cases hp
  · change a.targetKind = "label" at hk
    change c ∈ labelAdd a at hc
    change _ ↔ ∃ col ∈ ["item_id"], _
    unfold labelAdd at hc
    split at hc
    · cases hc
    · next itemId label hp =>
      unfold parseLabel at hp
      split at hp
      · next i l hparts =>
        split_ifs at hp
        cases hp
        rw [List.mem_singleton] at hc
        have hi : insertedRow flowDdl c "item_id" = .text itemId := by rw [hc]; rfl
        simp [targetItems, touches, hk, hparts, hi, eq_comm]
      · cases hp
  · change a.targetKind = "thread_link" at hk
    change c ∈ threadLinkAdd a at hc
    change _ ↔ ∃ col ∈ ["item_id"], _
    unfold threadLinkAdd at hc
    split at hc
    · cases hc
    · next threadId itemId relation weight hp =>
      unfold parseThreadLink at hp
      split at hp
      · next th i r w hparts =>
        split_ifs at hp
        cases hp
        rw [List.mem_singleton] at hc
        have hi : insertedRow flowDdl c "item_id" = .text itemId := by rw [hc]; rfl
        simp [targetItems, touches, hk, hparts, hi, eq_comm]
      · cases hp

/-- A folded add describes its row. -/
theorem exists_mem_add {S : TagSet} (hS : S ∈ tagSets) {a : Op}
    (hf : foldedAs S.kind "add" a = true) : ∃ c, c ∈ S.add a := by
  obtain ⟨hfolds, hk, ho⟩ := foldedAs_iff.mp hf
  have hfoldable : isFoldable a = true := by
    unfold Reducer.folds at hfolds
    exact (Bool.and_eq_true _ _ ▸ hfolds).2
  simp only [tagSets, List.mem_cons, List.not_mem_nil, or_false] at hS
  rcases hS with rfl | rfl | rfl
  · change a.targetKind = "edge" at hk
    have hp : (parseEdge a).isSome = true := by simpa [isFoldable, hk, ho] using hfoldable
    obtain ⟨⟨_, _, _⟩, hp⟩ := Option.isSome_iff_exists.mp hp
    change ∃ c, c ∈ edgeAdd a
    unfold edgeAdd
    rw [hp]
    exact ⟨_, List.mem_singleton_self _⟩
  · change a.targetKind = "label" at hk
    have hp : (parseLabel a).isSome = true := by simpa [isFoldable, hk, ho] using hfoldable
    obtain ⟨⟨_, _⟩, hp⟩ := Option.isSome_iff_exists.mp hp
    change ∃ c, c ∈ labelAdd a
    unfold labelAdd
    rw [hp]
    exact ⟨_, List.mem_singleton_self _⟩
  · change a.targetKind = "thread_link" at hk
    have hp : (parseThreadLink a).isSome = true := by simpa [isFoldable, hk, ho] using hfoldable
    obtain ⟨⟨_, _, _, _⟩, hp⟩ := Option.isSome_iff_exists.mp hp
    change ∃ c, c ∈ threadLinkAdd a
    unfold threadLinkAdd
    rw [hp]
    exact ⟨_, List.mem_singleton_self _⟩

/-- **The adds about an item** are those whose target names it. -/
theorem owns_iff {S : TagSet} (hS : S ∈ tagSets) (hid : IdsNameOps ops) {tag : String} :
    S.Owns (rowsOf ops) item tag ↔
      ∃ a ∈ ops, foldedAs S.kind "add" a = true ∧ a.opId = tag ∧ item ∈ targetItems a := by
  constructor
  · rintro ⟨row, hrow, hcol⟩
    obtain ⟨a, ha, hf, c, hc, hk, rfl⟩ := (S.rowsOf_adds hS hid).mp hrow
    refine ⟨a, ha, hf, ?_, (mem_targetItems_iff_row hS (foldedAs_iff.mp hf).2.1 hc).mpr hcol⟩
    obtain ⟨_, cells, rfl⟩ := S.add_eq hS hc
    simpa [Change.put] using hk
  · rintro ⟨a, ha, hf, rfl, hitem⟩
    obtain ⟨c, hc⟩ := exists_mem_add hS hf
    have hk : c.key = [("tag", .text a.opId)] := by
      obtain ⟨_, cells, h⟩ := S.add_eq hS hc
      rw [h]
      rfl
    exact ⟨_, (S.rowsOf_adds hS hid).mpr ⟨a, ha, hf, c, hc, hk, rfl⟩,
      (mem_targetItems_iff_row hS (foldedAs_iff.mp hf).2.1 hc).mp hitem⟩

/-- A row of `notes` is one note's add, and holds the item it targets. -/
theorem note_of_row (hid : IdsNameOps ops) {k : Cells} {row : Row}
    (h : rowsOf ops "notes" k = some row) :
    ∃ a ∈ ops, noteAdd a ∈ taskReducer.changesOf a ∧ k = [("id", .text a.opId)] ∧
      row "item_id" = .text a.targetId := by
  obtain ⟨c, hc⟩ := isSome_rowsOf_iff.mp (by rw [h]; rfl)
  obtain ⟨a, ha, hca, ht, hk⟩ := mem_changesAt.mp hc
  obtain ⟨_, rfl⟩ := (reaches_of_mem_changesOf hca).of_notes ht
  have hone : ∀ d ∈ changesAt ops "notes" k, d = noteAdd a := by
    intro d hd
    obtain ⟨b, hb, hdb, htb, hkb⟩ := mem_changesAt.mp hd
    obtain ⟨_, rfl⟩ := (reaches_of_mem_changesOf hdb).of_notes htb
    have hab : b.opId = a.opId := by
      simpa [noteAdd, Change.put] using hkb.trans hk.symm
    rw [hid b hb a ha (folds_of_mem_changesOf hdb) (folds_of_mem_changesOf hca) hab]
  refine ⟨a, ha, hca, hk.symm, ?_⟩
  have hput : ∀ d ∈ changesAt ops "notes" k, ∃ cells, d.effect = .put cells := by
    intro d hd
    rw [hone d hd]
    exact ⟨_, rfl⟩
  rcases rowsOf_column hput h "item_id" with ⟨d, hd, hx⟩ | ⟨hnone, _⟩
  · rw [hone d hd] at hx
    exact (Option.some.inj hx).symm
  · exact absurd (hnone _ hc) (by simp [noteAdd, Change.put, Effect.writes, Effect.cells])

/-- Rows stay. -/
theorem isSome_rowsOf_mono (hsub : ops ⊆ ops') {t : String} {k : Cells}
    (h : (rowsOf ops t k).isSome = true) : (rowsOf ops' t k).isSome = true := by
  obtain ⟨c, hc⟩ := isSome_rowsOf_iff.mp h
  obtain ⟨op, hop, hc⟩ := mem_changesAt.mp hc
  exact isSome_rowsOf_iff.mpr ⟨c, mem_changesAt.mpr ⟨op, hsub hop, hc⟩⟩

/-- A note stays with its item. -/
theorem note_row_mono (hid : IdsNameOps ops') (hsub : ops ⊆ ops') {k : Cells} {row : Row}
    (h : rowsOf ops "notes" k = some row) (hitem : row "item_id" = .text item) :
    ∃ row', rowsOf ops' "notes" k = some row' ∧ row' "item_id" = .text item := by
  have hid' : IdsNameOps ops := fun a ha b hb => hid a (hsub ha) b (hsub hb)
  obtain ⟨a, ha, hca, rfl, hrow⟩ := note_of_row hid' h
  obtain ⟨row', h'⟩ := Option.isSome_iff_exists.mp (isSome_rowsOf_mono hsub (by rw [h]; rfl))
  obtain ⟨b, hb, hcb, hk, hrow'⟩ := note_of_row hid h'
  have hab : a.opId = b.opId := by simpa using hk
  have := hid a (hsub ha) b hb (folds_of_mem_changesOf hca) (folds_of_mem_changesOf hcb) hab
  subst this
  exact ⟨row', h', by rw [hrow', ← hitem, hrow]⟩

/-- What is part of a record stays part of it. -/
theorem InRecord.mono (hid : IdsNameOps ops') (hsub : ops ⊆ ops') {t : String} {k : Cells}
    (h : InRecord (rowsOf ops) item t k) : InRecord (rowsOf ops') item t k := by
  have hid' : IdsNameOps ops := fun a ha b hb => hid a (hsub ha) b (hsub hb)
  have hown : ∀ {S : TagSet} {tag : String}, S ∈ tagSets → S.Owns (rowsOf ops) item tag →
      S.Owns (rowsOf ops') item tag := by
    intro S tag hS hown
    obtain ⟨a, ha, hf⟩ := (owns_iff hS hid').mp hown
    exact (owns_iff hS hid).mpr ⟨a, hsub ha, hf⟩
  cases h with
  | cells => exact .cells
  | placed ht hk => exact .placed ht hk
  | note hrow hitem =>
    obtain ⟨row', h, hx⟩ := note_row_mono hid hsub hrow hitem
    exact .note h hx
  | redaction hrow hitem =>
    obtain ⟨row', h, hx⟩ := note_row_mono hid hsub hrow hitem
    exact .redaction h hx
  | added hS h => exact .added hS (hown hS h)
  | removed hS h => exact .removed hS (hown hS h)

/-- A row an op does not reach is the same after it. -/
theorem exists_change_of_ne {before after : List Op} {t : String} {k : Cells}
    (h : rowsOf before t k ≠ rowsOf (before ++ after) t k) :
    ∃ op ∈ after, ∃ c ∈ taskReducer.changesOf op, c.table = t ∧ c.key = k := by
  by_contra hno
  have hnil : changesAt after t k = [] := by
    refine List.eq_nil_iff_forall_not_mem.mpr fun c hc => hno ?_
    obtain ⟨op, hop, hc, ht, hk⟩ := mem_changesAt.mp hc
    exact ⟨op, hop, c, hc, ht, hk⟩
  refine h ?_
  rw [rowsOf_eq, rowsOf_eq]
  change (changesAt before t k).foldl _ none = (changesAt (before ++ after) t k).foldl _ none
  have happ : changesAt (before ++ after) t k = changesAt before t k ++ changesAt after t k :=
    List.flatMap_append
  rw [happ, hnil, List.append_nil]

end Rows

/-! ## What is covered -/

/-- No remove past the watermark is the first to name the tag of an older add about an item that no
op past the watermark targets. -/
def RemovesTargeted (log : List Op) (watermark : ℕ) : Prop :=
  ∀ S ∈ tagSets, ∀ r ∈ log.drop watermark, foldedAs S.kind "remove" r = true →
    ∀ tag ∈ named r, ¬ S.Removed (log.take watermark) tag →
    ∀ a ∈ log.take watermark, foldedAs S.kind "add" a = true → a.opId = tag →
    ∀ item ∈ targetItems a, ∃ op ∈ log.drop watermark, op.domain = domainTask ∧
      item ∈ touches (noteItemOf (rowsOf log)) op

/-- **Each remove names its items**: where it is the first to name an earlier add's tag, its own
target names the items of that add. -/
def RemovesNameItems (log : List Op) : Prop :=
  ∀ earlier r later, log = earlier ++ r :: later → ∀ S ∈ tagSets,
    foldedAs S.kind "remove" r = true → ∀ tag ∈ named r, ¬ S.Removed earlier tag →
    ∀ a ∈ earlier, foldedAs S.kind "add" a = true → a.opId = tag →
    ∀ item ∈ targetItems a, item ∈ targetItems r

/-- The empty id has no row: it is no item's, and `items_touched_since` drops it. -/
def NoEmptyItem (log : List Op) : Prop :=
  ∀ t k, InRecord (rowsOf log) "" t k → rowsOf log t k = none

section Covered

variable {log : List Op} {watermark : ℕ} {item : String}

theorem mem_touchedSince : item ∈ touchedSince log watermark ↔ item ≠ "" ∧
    ∃ op ∈ log.drop watermark, op.domain = domainTask ∧
      item ∈ touches (noteItemOf (rowsOf log)) op := by
  unfold touchedSince itemsTouchedSince
  simp only [List.mem_filter, List.mem_flatMap, beq_iff_eq, decide_eq_true_eq, and_assoc]
  exact and_comm

/-- Outside the notes an op's target names its items by itself. -/
theorem touches_eq_targetItems {S : TagSet} (hS : S ∈ tagSets) {op : Op}
    (hk : op.targetKind = S.kind) (noteItem : String → Option String) :
    touches noteItem op = targetItems op := by
  have hnote : op.targetKind ≠ "note" := by
    have h : ∀ T ∈ tagSets, T.kind ≠ "note" := by
      simp [tagSets, edgeTags, labelTags, linkTags]
    rw [hk]
    exact h S hS
  unfold targetItems touches
  simp only [hnote, if_false]

/-- A tag's first tombstone changes the records its add is part of. -/
theorem recordChanged_of_remove (hid : IdsNameOps log) {S : TagSet} (hS : S ∈ tagSets) {r a : Op}
    (hr : r ∈ log.drop watermark) (hfr : foldedAs S.kind "remove" r = true)
    (htag : a.opId ∈ named r) (hnew : ¬ S.Removed (log.take watermark) a.opId)
    (ha : a ∈ log) (hfa : foldedAs S.kind "add" a = true) (hitem : item ∈ targetItems a) :
    RecordChanged (rowsOf (log.take watermark)) (rowsOf log) item := by
  refine ⟨S.removes, [("tag", .text a.opId)],
    .inr (.removed hS ((owns_iff hS hid).mpr ⟨a, ha, hfa, rfl, hitem⟩)), fun heq => hnew ?_⟩
  have hrem : S.Removed log a.opId := ⟨r, List.mem_of_mem_drop hr, hfr, htag⟩
  have hsome := isSome_rowsOf_iff.mpr
    ⟨_, (TagSet.mem_changesAt_removes (k := [("tag", .text a.opId)]) hS).mpr ⟨_, hrem, rfl, rfl⟩⟩
  rw [← heq] at hsome
  obtain ⟨c, hc⟩ := isSome_rowsOf_iff.mp hsome
  obtain ⟨tag, hrem, rfl, hk⟩ := (TagSet.mem_changesAt_removes hS).mp hc
  have : tag = a.opId := by simpa [Change.put] using hk
  rwa [this] at hrem

/-- The rows of a table of removes hold nothing but their tag. -/
theorem removes_row_eq {S : TagSet} (hS : S ∈ tagSets) {ops ops' : List Op} {k : Cells}
    (h : (rowsOf ops S.removes k).isSome = true) (h' : (rowsOf ops' S.removes k).isSome = true) :
    rowsOf ops S.removes k = rowsOf ops' S.removes k := by
  have hrow : ∀ {l : List Op} {row : Row}, rowsOf l S.removes k = some row →
      row = seedRow flowDdl S.removes k := by
    intro l row hl
    have hput : ∀ c ∈ changesAt l S.removes k, c.effect = .put [] := by
      intro c hc
      obtain ⟨_, _, rfl, _⟩ := (TagSet.mem_changesAt_removes hS).mp hc
      rfl
    funext col
    rcases rowsOf_column (fun c hc => ⟨[], hput c hc⟩) hl col with ⟨c, hc, hx⟩ | ⟨_, hseed⟩
    · rw [hput c hc] at hx
      cases hx
    · exact hseed
  obtain ⟨row, hl⟩ := Option.isSome_iff_exists.mp h
  obtain ⟨row', hl'⟩ := Option.isSome_iff_exists.mp h'
  rw [hl, hl', hrow hl, hrow hl']

/-- The note's item, looked up. -/
theorem noteItemOf_eq {v : View} {n : String} {row : Row}
    (hrow : v "notes" [("id", .text n)] = some row) (hitem : row "item_id" = .text item) :
    noteItemOf v n = some item := by
  unfold noteItemOf
  rw [hrow, Option.bind_some, hitem]
  rfl

/-- **A changed row and the target of the op that changed it.** Away from the tombstones of the tag
sets, an op past the watermark targets the item whose record it changes. -/
theorem targeted_of_recordChanged (hid : IdsNameOps log) (hrem : RemovesTargeted log watermark)
    (h : RecordChanged (rowsOf (log.take watermark)) (rowsOf log) item) :
    ∃ op ∈ log.drop watermark, op.domain = domainTask ∧
      item ∈ touches (noteItemOf (rowsOf log)) op := by
  obtain ⟨t, k, hin, hne⟩ := h
  have hin : InRecord (rowsOf log) item t k :=
    hin.elim (InRecord.mono hid (List.take_subset watermark log)) id
  have hchange : rowsOf (log.take watermark) t k ≠
      rowsOf (log.take watermark ++ log.drop watermark) t k := by
    rwa [List.take_append_drop]
  obtain ⟨op, hop, c, hc, ht, hk⟩ := exists_change_of_ne hchange
  have hreach := reaches_of_mem_changesOf hc
  have hdomain := domain_of_folds (folds_of_mem_changesOf hc)
  cases hin with
  | cells =>
    obtain ⟨hself, hkey⟩ := hreach.of_items ht
    have : op.targetId = item := by simpa using hkey.symm.trans hk
    exact ⟨op, hop, hdomain, by rw [hself, this]; exact List.mem_singleton_self _⟩
  | placed htab hhead =>
    obtain ⟨hself, hkey⟩ := hreach.of_placed (ht ▸ htab)
    have : op.targetId = item := by simpa [hk, hhead] using hkey.symm
    exact ⟨op, hop, hdomain, by rw [hself, this]; exact List.mem_singleton_self _⟩
  | note hrow hitem =>
    obtain ⟨hself, rfl⟩ := hreach.of_notes ht
    obtain ⟨a, ha, hca, rfl, hrow'⟩ := note_of_row hid hrow
    have hopId : op.opId = a.opId := by simpa [noteAdd, Change.put] using hk
    have hsame : op = a := hid op (List.mem_of_mem_drop hop) a ha
      (folds_of_mem_changesOf hc) (folds_of_mem_changesOf hca) hopId
    have : op.targetId = item := by simpa [hsame] using hrow'.symm.trans hitem
    exact ⟨op, hop, hdomain, by rw [hself, this]; exact List.mem_singleton_self _⟩
  | @redaction n _ hrow hitem =>
    obtain ⟨htouch, rfl⟩ := hreach.of_tombstones ht
    have hn : op.targetId = n := by simpa [noteRedact, Change.put] using hk
    refine ⟨op, hop, hdomain, ?_⟩
    rw [htouch, hn, noteItemOf_eq hrow hitem]
    exact List.mem_singleton_self _
  | added hS hown =>
    obtain ⟨a, ha, hfa, rfl, hitem⟩ := (owns_iff hS hid).mp hown
    obtain ⟨hfop, hcop⟩ := (TagSet.mem_changesOf_adds hS ht).mp hc
    have hopId : op.opId = a.opId := by
      obtain ⟨_, cells, rfl⟩ := TagSet.add_eq hS hcop
      simpa [Change.put] using hk
    have hsame : op = a := hid op (List.mem_of_mem_drop hop) a ha
      (foldedAs_iff.mp hfop).1 (foldedAs_iff.mp hfa).1 hopId
    refine ⟨op, hop, hdomain, ?_⟩
    rwa [touches_eq_targetItems hS (foldedAs_iff.mp hfop).2.1, hsame]
  | @removed S _ hS hown =>
    obtain ⟨a, ha, hfa, rfl, hitem⟩ := (owns_iff hS hid).mp hown
    obtain ⟨hfop, hcop⟩ := (TagSet.mem_changesOf_removes hS ht).mp hc
    have htag : a.opId ∈ named op := by
      rw [tombstones_eq] at hcop
      obtain ⟨tag, htag, rfl⟩ := List.mem_map.mp hcop
      have : tag = a.opId := by simpa [Change.put] using hk
      rwa [this] at htag
    -- a tombstone that stood at the watermark would leave the row as it was
    have hnew : ¬ S.Removed (log.take watermark) a.opId := by
      intro hold
      have hsome := isSome_rowsOf_iff.mpr ⟨_, (TagSet.mem_changesAt_removes hS).mpr
        ⟨a.opId, hold, rfl, rfl⟩⟩
      exact hne (removes_row_eq hS hsome
        (isSome_rowsOf_mono (List.take_subset watermark log) hsome))
    rw [← List.take_append_drop watermark log] at ha
    rcases List.mem_append.mp ha with ha | ha
    · exact hrem S hS op hop hfop _ htag hnew a ha hfa rfl item hitem
    · refine ⟨a, ha, domain_of_folds (foldedAs_iff.mp hfa).1, ?_⟩
      rwa [touches_eq_targetItems hS (foldedAs_iff.mp hfa).2.1]

/-- **One log and one watermark.** -/
theorem covered_iff (hid : IdsNameOps log) : Covered log watermark ↔
    ¬ RecordChanged (rowsOf (log.take watermark)) (rowsOf log) "" ∧
      RemovesTargeted log watermark := by
  constructor
  · intro h
    refine ⟨fun hempty => (mem_touchedSince.mp (h "" hempty)).1 rfl, ?_⟩
    intro S hS r hr hfr tag htag hnew a ha hfa haid item hitem
    subst haid
    exact (mem_touchedSince.mp (h item (recordChanged_of_remove hid hS hr hfr htag hnew
      (List.mem_of_mem_take ha) hfa hitem))).2
  · rintro ⟨hempty, hrem⟩ item hchanged
    refine mem_touchedSince.mpr ⟨?_, targeted_of_recordChanged hid hrem hchanged⟩
    rintro rfl
    exact hempty hchanged

/-- The first op of a list that removes the tag. -/
theorem exists_first_remove {S : TagSet} {tag : String} {ops : List Op}
    (h : ∃ r ∈ ops, foldedAs S.kind "remove" r = true ∧ tag ∈ named r) :
    ∃ before r after, ops = before ++ r :: after ∧ foldedAs S.kind "remove" r = true ∧
      tag ∈ named r ∧ ¬ S.Removed before tag := by
  obtain ⟨r, hr, hfr, htag⟩ := h
  have hsome : (ops.find? fun r => foldedAs S.kind "remove" r && decide (tag ∈ named r)).isSome :=
    List.find?_isSome.mpr ⟨r, hr, by simp [hfr, htag]⟩
  obtain ⟨r, hfind⟩ := Option.isSome_iff_exists.mp hsome
  obtain ⟨hr, before, after, heq, hnone⟩ := List.find?_eq_some_iff_append.mp hfind
  simp only [Bool.and_eq_true, decide_eq_true_eq] at hr
  refine ⟨before, r, after, heq, hr.1, hr.2, ?_⟩
  rintro ⟨r', hr', hfr', htag'⟩
  simpa [hfr', htag'] using hnone r' hr'

/-- Where every remove names its items, they are targeted since any watermark. -/
theorem removesTargeted_of_nameItems (h : RemovesNameItems log) (n : ℕ) :
    RemovesTargeted (log.take n) watermark := by
  intro S hS r hr hfr tag htag hnew a ha hfa haid item hitem
  obtain ⟨before, r', after, heq, hfr', htag', hfirst⟩ :=
    exists_first_remove ⟨r, hr, hfr, htag⟩
  have hlog : log = ((log.take n).take watermark ++ before) ++ r' :: (after ++ log.drop n) := by
    calc log = log.take n ++ log.drop n := (List.take_append_drop n log).symm
      _ = ((log.take n).take watermark ++ (log.take n).drop watermark) ++ log.drop n := by
        rw [List.take_append_drop watermark]
      _ = _ := by
        rw [heq]
        simp only [List.append_assoc, List.cons_append]
  have hnew' : ¬ S.Removed ((log.take n).take watermark ++ before) tag := by
    rintro ⟨q, hq, hfq, htagq⟩
    rcases List.mem_append.mp hq with hq | hq
    · exact hnew ⟨q, hq, hfq, htagq⟩
    · exact hfirst ⟨q, hq, hfq, htagq⟩
  have hnamed := h _ r' _ hlog S hS hfr' tag htag' hnew' a (List.mem_append_left _ ha) hfa haid
    item hitem
  refine ⟨r', by rw [heq]; simp, domain_of_folds (foldedAs_iff.mp hfr').1, ?_⟩
  rwa [touches_eq_targetItems hS (foldedAs_iff.mp hfr').2.1]

/-- A log without a row for the empty id never changed one. -/
theorem not_recordChanged_empty (hid : IdsNameOps log) (h : NoEmptyItem log) (n : ℕ) :
    ¬ RecordChanged (rowsOf ((log.take n).take watermark)) (rowsOf (log.take n)) "" := by
  have hsub : log.take n ⊆ log := List.take_subset n log
  have hsub' : (log.take n).take watermark ⊆ log :=
    fun op hop => hsub (List.mem_of_mem_take hop)
  rintro ⟨t, k, hin, hne⟩
  have hnone : rowsOf log t k = none :=
    h t k (hin.elim (InRecord.mono hid hsub') (InRecord.mono hid hsub))
  have hgone : ∀ ops : List Op, ops ⊆ log → rowsOf ops t k = none := by
    intro ops hops
    by_contra hsome
    have := isSome_rowsOf_mono hops (Option.isSome_iff_ne_none.mpr hsome)
    rw [hnone] at this
    cases this
  exact hne (by rw [hgone _ hsub', hgone _ hsub])

/-- **Every moment of a history.** -/
theorem covered_always_iff (hid : IdsNameOps log) :
    (∀ n w, Covered (log.take n) w) ↔ NoEmptyItem log ∧ RemovesNameItems log := by
  have hidn : ∀ n, IdsNameOps (log.take n) := fun n a ha b hb =>
    hid a (List.mem_of_mem_take ha) b (List.mem_of_mem_take hb)
  constructor
  · intro h
    constructor
    · intro t k hin
      by_contra hne
      have hc := h log.length 0
      rw [List.take_length] at hc
      refine ((covered_iff hid).mp hc).1 ⟨t, k, .inr hin, fun heq => hne ?_⟩
      rw [← heq]
      rfl
    · rintro earlier r later rfl S hS hfr tag htag hnew a ha hfa haid item hitem
      have hc := h (earlier.length + 1) earlier.length
      have htake : (earlier ++ r :: later).take (earlier.length + 1) = earlier ++ [r] := by
        rw [List.take_append, List.take_of_length_le (Nat.le_succ _), Nat.add_sub_cancel_left]
        rfl
      have hrem := ((covered_iff (hidn _)).mp hc).2
      unfold RemovesTargeted at hrem
      rw [htake, List.take_left, List.drop_left] at hrem
      obtain ⟨op, hop, _, hx⟩ := hrem S hS r (List.mem_singleton_self r) hfr tag htag hnew a ha hfa
        haid item hitem
      rw [List.mem_singleton] at hop
      subst hop
      rwa [touches_eq_targetItems hS (foldedAs_iff.mp hfr).2.1] at hx
  · rintro ⟨hempty, hnames⟩ n w
    exact (covered_iff (hidn n)).mpr
      ⟨not_recordChanged_empty hid hempty n, removesTargeted_of_nameItems hnames n⟩

/-- **The touched set covers every change, except where a remove names foreign tags.** For one log
and watermark, the record of an item changes without the item being touched only where a remove is
the first to name the tag of an older add about it, and nothing past the watermark targets it (or
under the empty id, which is no item's). Along a whole history this never happens exactly when each
remove names, in its own target, the items of the adds whose tags it is the first to name. -/
theorem itemsTouchedSince_covers_iff (hid : (log.map Op.opId).Nodup) :
    (∀ w, Covered log w ↔ ¬ RecordChanged (rowsOf (log.take w)) (rowsOf log) "" ∧
      RemovesTargeted log w) ∧
    ((∀ n w, Covered (log.take n) w) ↔ NoEmptyItem log ∧ RemovesNameItems log) :=
  ⟨fun _ => covered_iff (idsNameOps_of_nodup hid), covered_always_iff (idsNameOps_of_nodup hid)⟩

end Covered

/-! ## A remove whose target names another item -/

/-- A received thread-link add: thread `t-1` and item `aaaa.1`. -/
def linkAdd : Op :=
  ⟨"01A", 1, 7, domainTask, "thread_link",
    joinChar sep ["t-1", "aaaa.1", "worked_on", "bearing"], "", "add", none, "alice", "", none,
    none⟩

/-- A received remove of that add's tag; its target names item `aaaa.2`. -/
def linkRemoveElsewhere : Op :=
  ⟨"01B", 2, 7, domainTask, "thread_link", joinChar sep ["t-1", "aaaa.2"], "", "remove",
    some "01A", "bob", "", none, none⟩

/-- At the head of the log nothing has changed. -/
theorem covered_at_head : Covered [linkAdd, linkRemoveElsewhere] 2 := by
  refine ((itemsTouchedSince_covers_iff (by decide)).1 2).mpr ⟨?_, ?_⟩
  · rintro ⟨t, k, _, hne⟩
    exact hne rfl
  · intro S _ r hr
    cases hr

/-- **A change no one notices**: the link of item `aaaa.1` is gone, and a page that holds the item
is served as before. -/
theorem touched_misses_mismatched_remove :
    ([linkAdd, linkRemoveElsewhere].map Op.opId).Nodup ∧
      RecordChanged (rowsOf [linkAdd]) (rowsOf [linkAdd, linkRemoveElsewhere]) "aaaa.1" ∧
      touchedSince [linkAdd, linkRemoveElsewhere] 1 = ["aaaa.2"] ∧
      ¬ Covered [linkAdd, linkRemoveElsewhere] 1 := by
  have hid : IdsNameOps [linkAdd, linkRemoveElsewhere] := idsNameOps_of_nodup (by decide)
  have hlink : linkTags ∈ tagSets := by simp [tagSets]
  have hfacts : foldedAs "thread_link" "remove" linkRemoveElsewhere = true ∧
      "01A" ∈ named linkRemoveElsewhere ∧ foldedAs "thread_link" "remove" linkAdd = false ∧
      foldedAs "thread_link" "add" linkAdd = true ∧ "aaaa.1" ∈ targetItems linkAdd ∧
      touchedSince [linkAdd, linkRemoveElsewhere] 1 = ["aaaa.2"] := by
    decide
  obtain ⟨hremove, htag, hnot, hadd, hitem, htouched⟩ := hfacts
  have hchanged : RecordChanged (rowsOf [linkAdd]) (rowsOf [linkAdd, linkRemoveElsewhere])
      "aaaa.1" := by
    change RecordChanged (rowsOf ([linkAdd, linkRemoveElsewhere].take 1)) _ _
    refine recordChanged_of_remove hid hlink (r := linkRemoveElsewhere) (a := linkAdd)
      (List.mem_singleton_self _) hremove htag ?_ (List.mem_cons_self ..) hadd hitem
    rintro ⟨r, hr, hfr, _⟩
    rw [List.mem_singleton.mp hr] at hfr
    exact Bool.false_ne_true (hnot.symm.trans hfr)
  refine ⟨by decide, hchanged, htouched, fun h => ?_⟩
  have hmem := h "aaaa.1" hchanged
  rw [htouched, List.mem_singleton] at hmem
  exact absurd hmem (by decide)

end NexusFlow.Core
