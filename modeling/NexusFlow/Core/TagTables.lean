import NexusFlow.Core.ArrivalOrder
import NexusFlow.Core.Derive

/-!
# The tables of flow's observed-remove sets

Model of the views over the four observed-remove sets: edges, labels and thread links, each kept in
two tables of tags (`crates/core/src/task_reducer.rs:157-318`, `crates/core/src/schema.rs:188-275`),
and the entries of a list field, kept in one table with a cell for the tombstone
(`crates/core/src/model.rs:354-404`, `crates/core/src/store.rs:488-595`).

What the tables hold is read off the ops folded into them, in whatever order and however often:
`TagSet.mem_present_rows` and `mem_liveEntries`. The one condition is that an op id names one op
(`IdsNameOps`).
-/

namespace NexusFlow.Core

open NexusFlow.Foundation Relation TaskReducer

/-! ## The present views -/

/-- The tags an observed remove names. -/
def named (op : Op) : List String :=
  match op.value with
  | none => []
  | some tags => (splitChar sep tags).filter fun t => t != ""

/-- The tags a table of removes holds. -/
def removedTags (table : String) (db : Db) : List String :=
  (db.scan table).filterMap fun row => cellText (row "tag")

/-- The view `present_labels`: item and label of the adds no remove names. -/
def presentLabels (db : Db) : List (String × String) :=
  let present := (db.scan "label_adds").filter fun row =>
    !(removedTags "label_removes" db).any fun tag => row "tag" == .text tag
  (present.filterMap fun row => do
    return (← cellText (row "item_id"), ← cellText (row "label"))).dedup

/-- A row of `present_thread_links`. -/
structure ThreadLinkRow where
  threadId : String
  itemId : String
  relation : String
  weight : String
  deriving DecidableEq, Repr

/-- `(COALESCE(lamport, -1), COALESCE(site, -1), tag)`. -/
def addRank (row : Row) : ℤ ×ₗ ℤ ×ₗ String :=
  toLex ((row "lamport").int?.getD (-1), toLex ((row "site").int?.getD (-1),
    (cellText (row "tag")).getD ""))

/-- The view `present_thread_links`: of the adds of one pair no remove names, the highest. -/
def presentThreadLinks (db : Db) : List ThreadLinkRow :=
  let present := (db.scan "thread_link_adds").filter fun row =>
    !(removedTags "thread_link_removes" db).any fun tag => row "tag" == .text tag
  let winners := present.filter fun a => !present.any fun b =>
    b "thread_id" == a "thread_id" && b "item_id" == a "item_id" &&
      decide (addRank a < addRank b)
  winners.filterMap fun row => do
    return ⟨← cellText (row "thread_id"), ← cellText (row "item_id"), ← cellText (row "relation"),
      ← cellText (row "weight")⟩

/-- `EntryAdd`: one present add of a list entry. -/
structure EntryAdd where
  value : String
  label : Option String
  lamport : Int
  site : Int
  tag : String

/-- `(add.lamport, add.site, add.tag)`. -/
def EntryAdd.coordinate (add : EntryAdd) : ℤ ×ₗ ℤ ×ₗ String :=
  toLex (add.lamport, toLex (add.site, add.tag))

/-- `FieldEntry`. -/
structure FieldEntry where
  value : String
  label : Option String
  deriving DecidableEq, Repr

/-- What `present_entries` keeps for one value: its first add, its latest one, and that one's
label. -/
structure ValueEntry where
  value : String
  first : ℤ ×ₗ ℤ ×ₗ String
  latest : ℤ ×ₗ ℤ ×ₗ String
  label : Option String

/-- One turn of the loop of `present_entries`; `by_value` is ordered by value. -/
def recordAdd (add : EntryAdd) : List ValueEntry → List ValueEntry
  | [] => [⟨add.value, add.coordinate, add.coordinate, add.label⟩]
  | e :: byValue =>
    if add.value = e.value then
      ⟨e.value, if add.coordinate < e.first then add.coordinate else e.first,
        if e.latest < add.coordinate then add.coordinate else e.latest,
        if e.latest < add.coordinate then add.label else e.label⟩ :: byValue
    else if add.value < e.value then
      ⟨add.value, add.coordinate, add.coordinate, add.label⟩ :: e :: byValue
    else e :: recordAdd add byValue

/-- `present_entries`: one entry per value, in the order of the first adds. -/
def presentEntries (adds : List EntryAdd) : List FieldEntry :=
  ((adds.foldl (fun byValue add => recordAdd add byValue) []).insertionSort
    fun a b => a.first ≤ b.first).map fun e => ⟨e.value, e.label⟩

/-- One field of `field_entries_of`. -/
def fieldEntriesOf (itemId field : String) (db : Db) : List FieldEntry :=
  let rows := (db.scan "field_entries").filter fun row =>
    row "item_id" == .text itemId && row "field" == .text field && row "value" != .null &&
      (row "removed" == .null || row "removed" == .int 0)
  presentEntries (rows.filterMap fun row => do
    return {
      value := ← cellText (row "value")
      label := cellText (row "label")
      lamport := (row "lamport").int?.getD (-1)
      site := (row "site").int?.getD (-1)
      tag := (cellText (row "tag")).getD "" })

/-! ## Tag sets -/

/-- One of the observed-remove sets kept in two tables: the kind of its ops, the tables, and the rows
an add describes. -/
structure TagSet where
  kind : String
  adds : String
  removes : String
  add : Op → List Change

/-- Edges, by `(from, to, kind)`. -/
def edgeTags : TagSet := ⟨"edge", "edge_adds", "edge_removes", edgeAdd⟩

/-- Labels, by `(item, label)`. -/
def labelTags : TagSet := ⟨"label", "label_adds", "label_removes", labelAdd⟩

/-- Thread links, by `(thread, item)`. -/
def linkTags : TagSet := ⟨"thread_link", "thread_link_adds", "thread_link_removes", threadLinkAdd⟩

/-- The three sets. -/
def tagSets : List TagSet := [edgeTags, labelTags, linkTags]

/-- A folded op of the kind and the type. -/
def foldedAs (kind opType : String) (op : Op) : Bool :=
  taskReducer.folds op && op.targetKind == kind && op.opType == opType

theorem foldedAs_iff {kind opType : String} {op : Op} :
    foldedAs kind opType op = true ↔
      taskReducer.folds op = true ∧ op.targetKind = kind ∧ op.opType = opType := by
  simp [foldedAs, and_assoc]

/-! ## What an op does to the seven tables -/

/-- The changes an op of a tag set makes. -/
def TagSet.changes (S : TagSet) (op : Op) : List Change :=
  if op.targetKind = S.kind then
    if op.opType = "add" then S.add op
    else if op.opType = "remove" then tombstones op S.removes
    else []
  else []

/-- The changes an op on a list field's entries makes. -/
def entryChanges (op : Op) : List Change :=
  if op.targetKind = "field" then
    if op.opType = "add" then entryAdd op
    else if op.opType = "remove" then entryRemove op
    else []
  else []

/-- The tables of the four sets. -/
def setTables : List String :=
  ["edge_adds", "edge_removes", "label_adds", "label_removes", "thread_link_adds",
    "thread_link_removes", "field_entries"]

theorem table_chunkChanges {op : Op} {c : Change} (hc : c ∈ chunkChanges op) :
    c.table ∉ setTables := by
  unfold chunkChanges at hc
  split at hc
  · cases hc
  · rcases List.mem_cons.mp hc with rfl | hc
    · exact (by decide : "chunks" ∉ setTables)
    · obtain ⟨id, _, rfl⟩ := List.mem_map.mp hc
      exact (by decide : "chunk_superseded" ∉ setTables)

theorem table_timestampChanges {op : Op} {c : Change} (hc : c ∈ timestampChanges op) :
    c.table ∉ setTables := by
  rcases List.mem_pair.mp hc with rfl | rfl <;>
    exact (by decide : "item_timestamps" ∉ setTables)

theorem mem_kindChanges_iff {op : Op} {c : Change} (ht : c.table ∈ setTables) :
    c ∈ kindChanges op ↔ (∃ S ∈ tagSets, c ∈ S.changes op) ∨ c ∈ entryChanges op := by
  by_cases hitem : op.targetKind = "item"
  · have hreg : c ∉ kindChanges op := by
      unfold kindChanges
      rw [if_pos hitem]
      intro h
      split at h
      · next strategy _ =>
        have : itemChanges op strategy = [itemLww op] := by cases strategy <;> rfl
        rw [this, List.mem_singleton] at h
        subst h
        exact absurd ht (by decide : "items" ∉ setTables)
      · cases h
    simp [hreg, TagSet.changes, entryChanges, tagSets, edgeTags, labelTags, linkTags, hitem]
  by_cases hfield : op.targetKind = "field"
  · have hcustom : c ≠ fieldChange op := by
      rintro rfl
      exact absurd ht (by decide : "custom_fields" ∉ setTables)
    have htag : ¬ ∃ S ∈ tagSets, c ∈ S.changes op := by
      simp [TagSet.changes, tagSets, edgeTags, labelTags, linkTags, hfield]
    unfold kindChanges entryChanges
    rw [if_neg hitem, if_pos hfield, if_pos hfield, or_iff_right htag]
    split <;> simp_all
  have hnote : c ≠ noteAdd op := by
    rintro rfl
    exact absurd ht (by decide : "notes" ∉ setTables)
  have hredact : c ≠ noteRedact op := by
    rintro rfl
    exact absurd ht (by decide : "note_tombstones" ∉ setTables)
  have hchunk : c ∉ chunkChanges op := fun h => table_chunkChanges h ht
  simp only [kindChanges, hitem, hfield, if_false, entryChanges]
  simp only [TagSet.changes, tagSets, edgeTags, labelTags, linkTags]
  split <;> simp_all

/-- **What an op does to the tables of the four sets.** -/
theorem mem_changesOf_iff {op : Op} {c : Change} (ht : c.table ∈ setTables) :
    c ∈ taskReducer.changesOf op ↔ taskReducer.folds op = true ∧
      ((∃ S ∈ tagSets, c ∈ S.changes op) ∨ c ∈ entryChanges op) := by
  have hch : c ∈ changes op ↔ (∃ S ∈ tagSets, c ∈ S.changes op) ∨ c ∈ entryChanges op := by
    rw [← mem_kindChanges_iff ht]
    unfold changes
    rw [List.mem_append, or_iff_left]
    intro h
    split_ifs at h
    · exact table_timestampChanges h ht
    · cases h
  unfold Reducer.changesOf
  split_ifs with hf
  · exact hch.trans (by simp [hf])
  · simp [hf]

theorem tombstones_eq (op : Op) (table : String) :
    tombstones op table = (named op).map fun tag => .put table [("tag", .text tag)] [] := by
  unfold tombstones named
  cases op.value with
  | none => rfl
  | some tags => rfl

/-- The row an add describes: its tag is the op id. -/
theorem TagSet.add_eq {S : TagSet} (hS : S ∈ tagSets) {op : Op} {c : Change} (hc : c ∈ S.add op) :
    S.add op = [c] ∧ ∃ cells, c = .put S.adds [("tag", .text op.opId)] cells := by
  simp only [tagSets, List.mem_cons, List.not_mem_nil, or_false] at hS
  rcases hS with rfl | rfl | rfl
  · change c ∈ edgeAdd op at hc
    change edgeAdd op = [c] ∧ _
    unfold edgeAdd at hc ⊢
    split at hc
    · cases hc
    · rw [List.mem_singleton] at hc
      exact ⟨by rw [hc], _, hc⟩
  · change c ∈ labelAdd op at hc
    change labelAdd op = [c] ∧ _
    unfold labelAdd at hc ⊢
    split at hc
    · cases hc
    · rw [List.mem_singleton] at hc
      exact ⟨by rw [hc], _, hc⟩
  · change c ∈ threadLinkAdd op at hc
    change threadLinkAdd op = [c] ∧ _
    unfold threadLinkAdd at hc ⊢
    split at hc
    · cases hc
    · rw [List.mem_singleton] at hc
      exact ⟨by rw [hc], _, hc⟩

/-- The changes of a tag set land in its two tables. -/
theorem TagSet.mem_changes {S : TagSet} (hS : S ∈ tagSets) {op : Op} {c : Change} :
    c ∈ S.changes op ↔ op.targetKind = S.kind ∧
      ((op.opType = "add" ∧ c.table = S.adds ∧ c ∈ S.add op) ∨
        (op.opType = "remove" ∧ c.table = S.removes ∧ c ∈ tombstones op S.removes)) := by
  have hadd : c ∈ S.add op → c.table = S.adds := fun hc => by
    obtain ⟨_, cells, h⟩ := S.add_eq hS hc
    rw [h]
    rfl
  have htomb : c ∈ tombstones op S.removes → c.table = S.removes := fun hc => by
    rw [tombstones_eq] at hc
    obtain ⟨tag, _, rfl⟩ := List.mem_map.mp hc
    rfl
  unfold TagSet.changes
  split_ifs with h1 h2 h3
  · simpa [h1, h2] using hadd
  · simpa [h1, h3] using htomb
  · simp [h2, h3]
  · simp [h1]

theorem mem_entryChanges {op : Op} {c : Change} :
    c ∈ entryChanges op ↔ op.targetKind = "field" ∧
      ((op.opType = "add" ∧ c ∈ entryAdd op) ∨ (op.opType = "remove" ∧ c ∈ entryRemove op)) := by
  unfold entryChanges
  split_ifs with h1 h2 h3 <;> simp_all

theorem table_of_mem_entryChanges {op : Op} {c : Change} (hc : c ∈ entryChanges op) :
    c.table = "field_entries" := by
  rcases (mem_entryChanges.mp hc).2 with ⟨_, hc⟩ | ⟨_, hc⟩
  · unfold entryAdd at hc
    split at hc
    · cases hc
    · rw [List.mem_singleton.mp hc]
      rfl
  · unfold entryRemove at hc
    split at hc
    · cases hc
    · obtain ⟨tag, _, rfl⟩ := List.mem_map.mp hc
      rfl

/-- The six tables of the tag sets are distinct, and none holds list entries. -/
theorem TagSet.tables_ne {S T : TagSet} (hS : S ∈ tagSets) (hT : T ∈ tagSets) :
    S.adds ≠ T.removes ∧ (S.adds = T.adds → S = T) ∧ (S.removes = T.removes → S = T) ∧
      S.adds ≠ "field_entries" ∧ S.removes ≠ "field_entries" ∧ S.adds ∈ setTables ∧
      S.removes ∈ setTables := by
  simp only [tagSets, List.mem_cons, List.not_mem_nil, or_false] at hS hT
  rcases hS with rfl | rfl | rfl <;> rcases hT with rfl | rfl | rfl <;>
    simp [edgeTags, labelTags, linkTags, setTables]

/-- The changes to a tag set's adds. -/
theorem TagSet.mem_changesOf_adds {S : TagSet} (hS : S ∈ tagSets) {op : Op} {c : Change}
    (ht : c.table = S.adds) :
    c ∈ taskReducer.changesOf op ↔ foldedAs S.kind "add" op = true ∧ c ∈ S.add op := by
  have hne := S.tables_ne hS hS
  rw [mem_changesOf_iff (ht ▸ hne.2.2.2.2.2.1), foldedAs_iff]
  constructor
  · rintro ⟨hf, ⟨T, hT, hc⟩ | hc⟩
    · obtain ⟨hk, ⟨ho, htab, hc⟩ | ⟨_, htab, _⟩⟩ := (T.mem_changes hT).mp hc
      · have hST := (S.tables_ne hS hT).2.1 (ht.symm.trans htab)
        subst hST
        exact ⟨⟨hf, hk, ho⟩, hc⟩
      · exact absurd (ht.symm.trans htab) (S.tables_ne hS hT).1
    · exact absurd (ht.symm.trans (table_of_mem_entryChanges hc)) hne.2.2.2.1
  · rintro ⟨⟨hf, hk, ho⟩, hc⟩
    exact ⟨hf, .inl ⟨S, hS, (S.mem_changes hS).mpr ⟨hk, .inl ⟨ho, ht, hc⟩⟩⟩⟩

/-- The changes to a tag set's removes. -/
theorem TagSet.mem_changesOf_removes {S : TagSet} (hS : S ∈ tagSets) {op : Op} {c : Change}
    (ht : c.table = S.removes) :
    c ∈ taskReducer.changesOf op ↔
      foldedAs S.kind "remove" op = true ∧ c ∈ tombstones op S.removes := by
  have hne := S.tables_ne hS hS
  rw [mem_changesOf_iff (ht ▸ hne.2.2.2.2.2.2), foldedAs_iff]
  constructor
  · rintro ⟨hf, ⟨T, hT, hc⟩ | hc⟩
    · obtain ⟨hk, ⟨_, htab, _⟩ | ⟨ho, htab, hc⟩⟩ := (T.mem_changes hT).mp hc
      · exact absurd (htab.symm.trans ht) (T.tables_ne hT hS).1
      · have hST := (S.tables_ne hS hT).2.2.1 (ht.symm.trans htab)
        subst hST
        exact ⟨⟨hf, hk, ho⟩, hc⟩
    · exact absurd (ht.symm.trans (table_of_mem_entryChanges hc)) hne.2.2.2.2.1
  · rintro ⟨⟨hf, hk, ho⟩, hc⟩
    exact ⟨hf, .inl ⟨S, hS, (S.mem_changes hS).mpr ⟨hk, .inr ⟨ho, ht, hc⟩⟩⟩⟩

theorem mem_changesOf_entries {op : Op} {c : Change} (ht : c.table = "field_entries") :
    c ∈ taskReducer.changesOf op ↔
      (foldedAs "field" "add" op = true ∧ c ∈ entryAdd op) ∨
        (foldedAs "field" "remove" op = true ∧ c ∈ entryRemove op) := by
  rw [mem_changesOf_iff (by rw [ht]; decide), foldedAs_iff, foldedAs_iff]
  have hno : ¬ ∃ S ∈ tagSets, c ∈ S.changes op := by
    rintro ⟨S, hS, hc⟩
    have hne := S.tables_ne hS hS
    obtain ⟨_, ⟨_, htab, _⟩ | ⟨_, htab, _⟩⟩ := (S.mem_changes hS).mp hc
    · exact hne.2.2.2.1 (htab.symm.trans ht)
    · exact hne.2.2.2.2.1 (htab.symm.trans ht)
  rw [or_iff_right hno, mem_entryChanges]
  tauto

/-! ## The rows of a fold -/

/-- An op id names one op, among those that fold. -/
def IdsNameOps (ops : List Op) : Prop :=
  ∀ a ∈ ops, ∀ b ∈ ops, taskReducer.folds a = true → taskReducer.folds b = true →
    a.opId = b.opId → a = b

theorem idsNameOps_of_nodup {ops : List Op} (h : (ops.map Op.opId).Nodup) : IdsNameOps ops :=
  fun _ ha _ hb _ _ hab => List.inj_on_of_nodup_map h ha hb hab

/-- The changes that name one row. -/
def changesAt (ops : List Op) (t : String) (k : Cells) : List Change :=
  ops.flatMap fun op => (taskReducer.changesOf op).filter fun c => c.table = t ∧ c.key = k

theorem mem_changesAt {ops : List Op} {t : String} {k : Cells} {c : Change} :
    c ∈ changesAt ops t k ↔
      ∃ op ∈ ops, c ∈ taskReducer.changesOf op ∧ c.table = t ∧ c.key = k := by
  simp [changesAt, List.mem_flatMap, List.mem_filter]

theorem isSome_rowsOf_iff {ops : List Op} {t : String} {k : Cells} :
    (rowsOf ops t k).isSome = true ↔ ∃ c, c ∈ changesAt ops t k := by
  rw [rowsOf_eq]
  change ((changesAt ops t k).foldl _ none).isSome = true ↔ _
  rcases List.eq_nil_or_concat (changesAt ops t k) with h | ⟨cs, c, h⟩
  · simp [h]
  · rw [h, List.concat_eq_append, List.foldl_append]
    simp only [List.foldl_cons, List.foldl_nil, Option.isSome_some, true_iff]
    exact ⟨c, by simp⟩

/-- A column of a row that only puts name, read off the puts. -/
theorem rowsOf_column {ops : List Op} {t : String} {k : Cells} {row : Row}
    (hput : ∀ c ∈ changesAt ops t k, ∃ cells, c.effect = .put cells)
    (h : rowsOf ops t k = some row) (col : String) :
    (∃ c ∈ changesAt ops t k, c.effect.writes.lookup col = some (row col)) ∨
      ((∀ c ∈ changesAt ops t k, c.effect.writes.lookup col = none) ∧
        row col = seedRow flowDdl t k col) := by
  rw [rowsOf_eq] at h
  refine foldl_put_column (fun c hc => ?_) h col
  obtain ⟨op, _, hop, ht, hk⟩ := mem_changesAt.mp hc
  exact ⟨ht, hk, (taskChange_of_mem_changesOf hop).wf, hput c hc⟩

namespace TagSet

variable {S : TagSet} {ops : List Op}

/-- Some folded remove names the tag. -/
def Removed (S : TagSet) (ops : List Op) (tag : String) : Prop :=
  ∃ r ∈ ops, foldedAs S.kind "remove" r = true ∧ tag ∈ named r

theorem mem_changesAt_adds (hS : S ∈ tagSets) {k : Cells} {c : Change} :
    c ∈ changesAt ops S.adds k ↔
      ∃ a ∈ ops, foldedAs S.kind "add" a = true ∧ c ∈ S.add a ∧ c.key = k := by
  rw [mem_changesAt]
  refine exists_congr fun a => and_congr_right fun _ => ?_
  constructor
  · rintro ⟨hc, ht, hk⟩
    obtain ⟨hf, hc⟩ := (S.mem_changesOf_adds hS ht).mp hc
    exact ⟨hf, hc, hk⟩
  · rintro ⟨hf, hc, hk⟩
    have ht : c.table = S.adds := by
      obtain ⟨_, cells, h⟩ := S.add_eq hS hc
      rw [h]
      rfl
    exact ⟨(S.mem_changesOf_adds hS ht).mpr ⟨hf, hc⟩, ht, hk⟩

theorem mem_changesAt_removes (hS : S ∈ tagSets) {k : Cells} {c : Change} :
    c ∈ changesAt ops S.removes k ↔
      ∃ tag, S.Removed ops tag ∧ c = .put S.removes [("tag", .text tag)] [] ∧ c.key = k := by
  rw [mem_changesAt]
  constructor
  · rintro ⟨r, hr, hc, ht, hk⟩
    obtain ⟨hf, hc⟩ := (S.mem_changesOf_removes hS ht).mp hc
    rw [tombstones_eq] at hc
    obtain ⟨tag, htag, rfl⟩ := List.mem_map.mp hc
    exact ⟨tag, ⟨r, hr, hf, htag⟩, rfl, hk⟩
  · rintro ⟨tag, ⟨r, hr, hf, htag⟩, rfl, hk⟩
    refine ⟨r, hr, (S.mem_changesOf_removes hS rfl).mpr ⟨hf, ?_⟩, rfl, hk⟩
    rw [tombstones_eq]
    exact List.mem_map_of_mem htag

/-- **A row of the adds is one folded add.** -/
theorem rowsOf_adds (hS : S ∈ tagSets) (hid : IdsNameOps ops) {k : Cells} {row : Row} :
    rowsOf ops S.adds k = some row ↔
      ∃ a ∈ ops, foldedAs S.kind "add" a = true ∧
        ∃ c ∈ S.add a, c.key = k ∧ row = insertedRow flowDdl c := by
  have hone : ∀ c ∈ changesAt ops S.adds k, ∀ d ∈ changesAt ops S.adds k, c = d := by
    intro c hc d hd
    obtain ⟨a, ha, hfa, hca, hka⟩ := (mem_changesAt_adds hS).mp hc
    obtain ⟨b, hb, hfb, hdb, hkb⟩ := (mem_changesAt_adds hS).mp hd
    obtain ⟨haeq, _, hc'⟩ := S.add_eq hS hca
    obtain ⟨hbeq, _, hd'⟩ := S.add_eq hS hdb
    have hab : a = b := by
      refine hid a ha b hb (foldedAs_iff.mp hfa).1 (foldedAs_iff.mp hfb).1 ?_
      rw [hc'] at hka
      rw [hd'] at hkb
      simpa [Change.put] using hka.trans hkb.symm
    subst hab
    exact List.singleton_injective (haeq.symm.trans hbeq)
  have hrow : ∀ row, rowsOf ops S.adds k = some row → ∀ c ∈ changesAt ops S.adds k,
      row = insertedRow flowDdl c := by
    intro row h c hc
    obtain ⟨op, _, hop, ht, hk⟩ := mem_changesAt.mp hc
    funext col
    rw [insertedRow_eq (taskChange_of_mem_changesOf hop).wf, ht, hk, assign]
    have hput : ∀ d ∈ changesAt ops S.adds k, ∃ cells, d.effect = .put cells := by
      intro d hd
      obtain ⟨b, _, _, hdb, _⟩ := (mem_changesAt_adds hS).mp hd
      obtain ⟨_, cells, h⟩ := S.add_eq hS hdb
      exact ⟨cells, by rw [h]; rfl⟩
    rcases rowsOf_column hput h col with ⟨d, hd, hx⟩ | ⟨hnone, hseed⟩
    · rw [hone c hc d hd, hx, Option.getD_some]
    · rw [hnone c hc, hseed, Option.getD_none]
  constructor
  · intro h
    obtain ⟨c, hc⟩ := isSome_rowsOf_iff.mp (by rw [h]; rfl)
    obtain ⟨a, ha, hf, hca, hk⟩ := (mem_changesAt_adds hS).mp hc
    exact ⟨a, ha, hf, c, hca, hk, hrow row h c hc⟩
  · rintro ⟨a, ha, hf, c, hca, hk, rfl⟩
    have hc : c ∈ changesAt ops S.adds k := (mem_changesAt_adds hS).mpr ⟨a, ha, hf, hca, hk⟩
    obtain ⟨row, h⟩ := Option.isSome_iff_exists.mp (isSome_rowsOf_iff.mpr ⟨c, hc⟩)
    rw [h, hrow row h c hc]

/-- A row of the removes carries its tag. -/
theorem rowsOf_removes (hS : S ∈ tagSets) {tag : String} :
    (∃ k row, rowsOf ops S.removes k = some row ∧ cellText (row "tag") = some tag) ↔
      S.Removed ops tag := by
  have hput : ∀ k, ∀ c ∈ changesAt ops S.removes k, c.effect = .put [] := by
    intro k c hc
    obtain ⟨_, _, rfl, _⟩ := (mem_changesAt_removes hS).mp hc
    rfl
  have hcol : ∀ k row, rowsOf ops S.removes k = some row →
      row "tag" = seedRow flowDdl S.removes k "tag" := by
    intro k row h
    rcases rowsOf_column (fun c hc => ⟨[], hput k c hc⟩) h "tag" with ⟨c, hc, hx⟩ | ⟨_, hseed⟩
    · rw [hput k c hc] at hx
      cases hx
    · exact hseed
  constructor
  · rintro ⟨k, row, h, htag⟩
    obtain ⟨c, hc⟩ := isSome_rowsOf_iff.mp (by rw [h]; rfl)
    obtain ⟨t, ht, rfl, rfl⟩ := (mem_changesAt_removes hS).mp hc
    rw [hcol _ row h] at htag
    cases htag
    exact ht
  · intro h
    have hc := (mem_changesAt_removes (k := [("tag", .text tag)]) hS).mpr ⟨tag, h, rfl, rfl⟩
    obtain ⟨row, hrow⟩ := Option.isSome_iff_exists.mp (isSome_rowsOf_iff.mpr ⟨_, hc⟩)
    exact ⟨_, row, hrow, by rw [hcol _ row hrow]; rfl⟩

end TagSet

/-! ## The queries over the rows -/

/-- flow's tables show the ops. -/
def Shows (db : Db) (ops : List Op) : Prop := ∀ t ∈ viewTables, ∀ k, db.get t k = rowsOf ops t k

theorem Shows.scan {ops : List Op} {db : Db} (hdb : Shows db ops) {t : String} (ht : t ∈ setTables)
    {row : Row} : row ∈ db.scan t ↔ ∃ k, rowsOf ops t k = some row := by
  have hsub : ∀ t ∈ setTables, t ∈ viewTables := by decide
  rw [Db.mem_scan_iff]
  exact exists_congr fun k => by rw [hdb t (hsub t ht) k]

namespace TagSet

variable {S : TagSet} {ops : List Op} {db : Db}

theorem mem_removedTags (hS : S ∈ tagSets) (hdb : Shows db ops) {tag : String} :
    tag ∈ removedTags S.removes db ↔ S.Removed ops tag := by
  have htab : S.removes ∈ setTables := (S.tables_ne hS hS).2.2.2.2.2.2
  rw [← S.rowsOf_removes hS, removedTags, List.mem_filterMap]
  constructor
  · rintro ⟨row, hrow, ht⟩
    obtain ⟨k, hk⟩ := (hdb.scan htab).mp hrow
    exact ⟨k, row, hk, ht⟩
  · rintro ⟨k, row, hk, ht⟩
    exact ⟨row, (hdb.scan htab).mpr ⟨k, hk⟩, ht⟩

theorem mem_scan_adds (hS : S ∈ tagSets) (hid : IdsNameOps ops) (hdb : Shows db ops)
    {row : Row} : row ∈ db.scan S.adds ↔ ∃ a ∈ ops, foldedAs S.kind "add" a = true ∧
      ∃ c ∈ S.add a, row = insertedRow flowDdl c := by
  rw [hdb.scan (S.tables_ne hS hS).2.2.2.2.2.1]
  constructor
  · rintro ⟨k, hk⟩
    obtain ⟨a, ha, hf, c, hc, _, hrow⟩ := (S.rowsOf_adds hS hid).mp hk
    exact ⟨a, ha, hf, c, hc, hrow⟩
  · rintro ⟨a, ha, hf, c, hc, hrow⟩
    exact ⟨c.key, (S.rowsOf_adds hS hid).mpr ⟨a, ha, hf, c, hc, rfl, hrow⟩⟩

theorem tag_insertedRow (hS : S ∈ tagSets) {a : Op} {c : Change} (hc : c ∈ S.add a) :
    insertedRow flowDdl c "tag" = .text a.opId := by
  obtain ⟨_, cells, rfl⟩ := S.add_eq hS hc
  rfl

/-- The rows of the adds no remove names. -/
theorem mem_present_rows (hS : S ∈ tagSets) (hid : IdsNameOps ops) (hdb : Shows db ops)
    {row : Row} : row ∈ (db.scan S.adds).filter (fun row =>
        !(removedTags S.removes db).any fun tag => row "tag" == .text tag) ↔
      ∃ a ∈ ops, foldedAs S.kind "add" a = true ∧ ¬ S.Removed ops a.opId ∧
        ∃ c ∈ S.add a, row = insertedRow flowDdl c := by
  rw [List.mem_filter, S.mem_scan_adds hS hid hdb]
  have hlive : ∀ a c, c ∈ S.add a →
      ((!(removedTags S.removes db).any fun tag => insertedRow flowDdl c "tag" == .text tag) = true ↔
        ¬ S.Removed ops a.opId) := by
    intro a c hc
    rw [S.tag_insertedRow hS hc, Bool.not_eq_true', List.any_eq_false,
      ← S.mem_removedTags hS hdb]
    simp only [beq_iff_eq, Cell.text.injEq]
    exact ⟨fun h hmem => h _ hmem rfl, fun h t ht heq => h (heq ▸ ht)⟩
  constructor
  · rintro ⟨⟨a, ha, hf, c, hc, rfl⟩, h⟩
    exact ⟨a, ha, hf, (hlive a c hc).mp h, c, hc, rfl⟩
  · rintro ⟨a, ha, hf, h, c, hc, rfl⟩
    exact ⟨⟨a, ha, hf, c, hc, rfl⟩, (hlive a c hc).mpr h⟩

theorem mem_liveTags (hS : S ∈ tagSets) (hid : IdsNameOps ops) (hdb : Shows db ops)
    {p : Row → Bool} {tag : String} : tag ∈ liveTags S.adds S.removes p db ↔
      ∃ a ∈ ops, foldedAs S.kind "add" a = true ∧ a.opId = tag ∧ ¬ S.Removed ops tag ∧
        ∃ c ∈ S.add a, p (insertedRow flowDdl c) = true := by
  have hrem : tag ∈ removedTags S.removes db ↔ S.Removed ops tag := S.mem_removedTags hS hdb
  rw [removedTags, List.mem_filterMap] at hrem
  unfold liveTags
  simp only [List.mem_filter, List.mem_filterMap, Bool.not_eq_true', List.contains_eq_mem,
    decide_eq_false_iff_not, S.mem_scan_adds hS hid hdb, hrem]
  constructor
  · rintro ⟨⟨row, ⟨⟨a, ha, hf, c, hc, rfl⟩, hp⟩, ht⟩, hlive⟩
    rw [S.tag_insertedRow hS hc] at ht
    exact ⟨a, ha, hf, Option.some.inj ht, hlive, c, hc, hp⟩
  · rintro ⟨a, ha, hf, rfl, hlive, c, hc, hp⟩
    refine ⟨⟨_, ⟨⟨a, ha, hf, c, hc, rfl⟩, hp⟩, ?_⟩, hlive⟩
    rw [S.tag_insertedRow hS hc]
    rfl

end TagSet

/-! ## List entries -/

/-- The key of one add of a list entry. -/
def entryKey (itemId field tag : String) : Cells :=
  [("item_id", .text itemId), ("field", .text field), ("tag", .text tag)]

/-- Some folded remove on the field names the tag. -/
def EntryRemoved (ops : List Op) (itemId field tag : String) : Prop :=
  ∃ r ∈ ops, foldedAs "field" "remove" r = true ∧ r.targetId = itemId ∧ r.field = field ∧
    tag ∈ named r

theorem mem_entryAdd {a : Op} {c : Change} (hc : c ∈ entryAdd a) :
    ∃ v label, parseEntryAdd a = some (v, label) ∧ c.table = "field_entries" ∧
      c.key = entryKey a.targetId a.field a.opId ∧
      (∃ cells, c.effect = .put cells) ∧ c.effect.writes.lookup "value" = some (.text v) ∧
      c.effect.writes.lookup "removed" = none ∧ c.effect.writes.lookup "item_id" = none ∧
      c.effect.writes.lookup "field" = none ∧ c.effect.writes.lookup "tag" = none := by
  unfold entryAdd at hc
  split at hc
  · cases hc
  · next v label h =>
    rw [List.mem_singleton.mp hc]
    refine ⟨v, label, h, rfl, rfl, ⟨_, rfl⟩, ?_⟩
    cases label <;> exact ⟨rfl, rfl, rfl, rfl, rfl⟩

theorem exists_entryAdd {a : Op} (hf : foldedAs "field" "add" a = true) :
    ∃ c, c ∈ entryAdd a := by
  obtain ⟨hfolds, hkind, htype⟩ := foldedAs_iff.mp hf
  have hfoldable : isFoldable a = true := by
    unfold Reducer.folds at hfolds
    exact (Bool.and_eq_true _ _ ▸ hfolds).2
  have hparse : (parseEntryAdd a).isSome = true := by
    unfold isFoldable at hfoldable
    simpa [hkind, htype] using hfoldable
  obtain ⟨⟨v, label⟩, hp⟩ := Option.isSome_iff_exists.mp hparse
  unfold entryAdd
  rw [hp]
  exact ⟨_, List.mem_singleton_self _⟩

/-- A folded remove of list entries writes one cell for each tag it names. -/
theorem mem_entryRemove {r : Op} {c : Change} (hf : foldedAs "field" "remove" r = true) :
    c ∈ entryRemove r ↔ ∃ tag ∈ named r,
      c = .put "field_entries" (entryKey r.targetId r.field tag) [("removed", .int 1)] := by
  obtain ⟨hfolds, hkind, htype⟩ := foldedAs_iff.mp hf
  have hfoldable : isFoldable r = true := by
    unfold Reducer.folds at hfolds
    exact (Bool.and_eq_true _ _ ▸ hfolds).2
  have hparse : (parseEntryRemove r).isSome = true := by
    unfold isFoldable at hfoldable
    simpa [hkind, htype] using hfoldable
  obtain ⟨tags, hp⟩ := Option.isSome_iff_exists.mp hparse
  have hnamed : named r = tags := by
    unfold parseEntryRemove at hp
    obtain ⟨raw, hraw, hp⟩ := Option.bind_eq_some_iff.mp hp
    dsimp only at hp
    split_ifs at hp with h1 h2
    cases hp
    simp only [Bool.and_eq_true, List.all_eq_true] at h2
    simp only [named, hraw]
    exact List.filter_eq_self.mpr fun t ht => (h2.2 t ht).1
  unfold entryRemove
  rw [hp, hnamed, List.mem_map]
  exact exists_congr fun tag => and_congr_right fun _ => eq_comm

section Entries

variable {ops : List Op} {db : Db}

theorem mem_changesAt_entries {k : Cells} {c : Change} :
    c ∈ changesAt ops "field_entries" k ↔
      (∃ a ∈ ops, foldedAs "field" "add" a = true ∧ c ∈ entryAdd a ∧ c.key = k) ∨
      ∃ i f tag, EntryRemoved ops i f tag ∧ k = entryKey i f tag ∧
        c = .put "field_entries" k [("removed", .int 1)] := by
  rw [mem_changesAt]
  constructor
  · rintro ⟨op, hop, hc, ht, hk⟩
    rcases (mem_changesOf_entries ht).mp hc with ⟨hf, hc⟩ | ⟨hf, hc⟩
    · exact .inl ⟨op, hop, hf, hc, hk⟩
    · obtain ⟨tag, htag, rfl⟩ := (mem_entryRemove hf).mp hc
      subst hk
      exact .inr ⟨op.targetId, op.field, tag, ⟨op, hop, hf, rfl, rfl, htag⟩, rfl, rfl⟩
  · rintro (⟨a, ha, hf, hc, hk⟩ | ⟨i, f, tag, ⟨r, hr, hf, rfl, rfl, htag⟩, rfl, rfl⟩)
    · obtain ⟨_, _, _, ht, _⟩ := mem_entryAdd hc
      exact ⟨a, ha, (mem_changesOf_entries ht).mpr (.inl ⟨hf, hc⟩), ht, hk⟩
    · refine ⟨r, hr, (mem_changesOf_entries rfl).mpr (.inr ⟨hf, ?_⟩), rfl, rfl⟩
      exact (mem_entryRemove hf).mpr ⟨tag, htag, rfl⟩

theorem put_changesAt_entries {k : Cells} :
    ∀ c ∈ changesAt ops "field_entries" k, ∃ cells, c.effect = .put cells := by
  intro c hc
  rcases mem_changesAt_entries.mp hc with ⟨a, _, _, hca, _⟩ | ⟨_, _, _, _, _, rfl⟩
  · obtain ⟨_, _, _, _, _, hput, _⟩ := mem_entryAdd hca
    exact hput
  · exact ⟨_, rfl⟩

/-- A row of `field_entries` holds its key. -/
theorem rowsOf_entries_key {k : Cells} {row : Row} (h : rowsOf ops "field_entries" k = some row) :
    ∃ i f t, k = entryKey i f t ∧ row "item_id" = .text i ∧ row "field" = .text f ∧
      row "tag" = .text t := by
  obtain ⟨c, hc⟩ := isSome_rowsOf_iff.mp (by rw [h]; rfl)
  have hkey : ∃ i f t, k = entryKey i f t := by
    rcases mem_changesAt_entries.mp hc with ⟨a, _, _, hca, rfl⟩ | ⟨i, f, t, _, hk, _⟩
    · obtain ⟨_, _, _, _, hk, _⟩ := mem_entryAdd hca
      exact ⟨_, _, _, hk⟩
    · exact ⟨i, f, t, hk⟩
  have hseed : ∀ col, (∀ c ∈ changesAt ops "field_entries" k,
      c.effect.writes.lookup col = none) → row col = seedRow flowDdl "field_entries" k col := by
    intro col hnone
    rcases rowsOf_column put_changesAt_entries h col with ⟨d, hd, hx⟩ | ⟨_, hs⟩
    · rw [hnone d hd] at hx
      cases hx
    · exact hs
  have hnone : ∀ c ∈ changesAt ops "field_entries" k, c.effect.writes.lookup "item_id" = none ∧
      c.effect.writes.lookup "field" = none ∧ c.effect.writes.lookup "tag" = none := by
    intro d hd
    rcases mem_changesAt_entries.mp hd with ⟨a, _, _, hda, _⟩ | ⟨_, _, _, _, _, rfl⟩
    · obtain ⟨_, _, _, _, _, _, _, _, hcols⟩ := mem_entryAdd hda
      exact hcols
    · exact ⟨rfl, rfl, rfl⟩
  obtain ⟨i, f, t, rfl⟩ := hkey
  refine ⟨i, f, t, rfl, ?_, ?_, ?_⟩
  · rw [hseed "item_id" fun d hd => (hnone d hd).1]
    rfl
  · rw [hseed "field" fun d hd => (hnone d hd).2.1]
    rfl
  · rw [hseed "tag" fun d hd => (hnone d hd).2.2]
    rfl

/-- The tombstone cell of a row says whether a remove named it. -/
theorem rowsOf_entries_removed {i f t : String} {row : Row}
    (h : rowsOf ops "field_entries" (entryKey i f t) = some row) :
    (row "removed" = .null ∨ row "removed" = .int 0) ↔ ¬ EntryRemoved ops i f t := by
  rcases rowsOf_column put_changesAt_entries h "removed" with ⟨c, hc, hx⟩ | ⟨hnone, hseed⟩
  · rcases mem_changesAt_entries.mp hc with ⟨a, _, _, hca, _⟩ | ⟨i', f', t', hr, hk, rfl⟩
    · obtain ⟨_, _, _, _, _, _, _, hrem, _⟩ := mem_entryAdd hca
      rw [hrem] at hx
      cases hx
    · obtain ⟨rfl, rfl, rfl⟩ : i = i' ∧ f = f' ∧ t = t' := by simpa [entryKey] using hk
      rw [← Option.some.inj hx]
      simp [hr]
  · have h0 : row "removed" = .int 0 := hseed
    refine iff_of_true (.inr h0) fun hr => ?_
    have hc := (@mem_changesAt_entries ops _ _).mpr (.inr ⟨i, f, t, hr, rfl, rfl⟩)
    cases hnone _ hc

/-- The value cell of a row is the value of the add it belongs to. -/
theorem rowsOf_entries_value (hid : IdsNameOps ops) {i f t v : String} {row : Row}
    (h : rowsOf ops "field_entries" (entryKey i f t) = some row) :
    row "value" = .text v ↔ ∃ a ∈ ops, foldedAs "field" "add" a = true ∧ a.targetId = i ∧
      a.field = f ∧ a.opId = t ∧ ∃ label, parseEntryAdd a = some (v, label) := by
  have hadd : ∀ c ∈ changesAt ops "field_entries" (entryKey i f t), ∀ x,
      c.effect.writes.lookup "value" = some x → ∃ a ∈ ops, foldedAs "field" "add" a = true ∧
        a.targetId = i ∧ a.field = f ∧ a.opId = t ∧ ∃ w label,
          parseEntryAdd a = some (w, label) ∧ x = .text w := by
    intro c hc x hx
    rcases mem_changesAt_entries.mp hc with ⟨a, ha, hf, hca, hk⟩ | ⟨_, _, _, _, _, rfl⟩
    · obtain ⟨w, label, hp, _, hk', _, hval, _⟩ := mem_entryAdd hca
      obtain ⟨h1, h2, h3⟩ : a.targetId = i ∧ a.field = f ∧ a.opId = t := by
        simpa [entryKey] using hk'.symm.trans hk
      exact ⟨a, ha, hf, h1, h2, h3, w, label, hp, Option.some.inj (hx.symm.trans hval)⟩
    · cases hx
  constructor
  · intro hv
    rcases rowsOf_column put_changesAt_entries h "value" with ⟨c, hc, hx⟩ | ⟨_, hseed⟩
    · obtain ⟨a, ha, hf, h1, h2, h3, w, label, hp, hw⟩ := hadd c hc _ hx
      rw [hv] at hw
      cases hw
      exact ⟨a, ha, hf, h1, h2, h3, label, hp⟩
    · rw [hv] at hseed
      cases hseed
  · rintro ⟨a, ha, hf, h1, h2, h3, label, hp⟩
    obtain ⟨c, hca⟩ := exists_entryAdd hf
    obtain ⟨w, label', hp', _, hk, _, hval, _⟩ := mem_entryAdd hca
    have hc : c ∈ changesAt ops "field_entries" (entryKey i f t) := by
      refine mem_changesAt_entries.mpr (.inl ⟨a, ha, hf, hca, ?_⟩)
      rw [hk, h1, h2, h3]
    rcases rowsOf_column put_changesAt_entries h "value" with ⟨d, hd, hx⟩ | ⟨hnone, _⟩
    · obtain ⟨b, hb, hfb, _, _, h3', w', _, hpb, hw⟩ := hadd d hd _ hx
      have hab := hid a ha b hb (foldedAs_iff.mp hf).1 (foldedAs_iff.mp hfb).1 (h3.trans h3'.symm)
      subst hab
      rw [hp] at hpb
      cases hpb
      exact hw
    · rw [hnone c hc] at hval
      cases hval

/-- **The live rows of a list field** are the folded adds no folded remove of the field names. -/
theorem mem_liveEntries (hid : IdsNameOps ops) (hdb : Shows db ops) {i f v t : String} :
    (∃ row ∈ db.scan "field_entries", row "item_id" = .text i ∧ row "field" = .text f ∧
        row "tag" = .text t ∧ row "value" = .text v ∧
        (row "removed" = .null ∨ row "removed" = .int 0)) ↔
      ∃ a ∈ ops, foldedAs "field" "add" a = true ∧ a.targetId = i ∧ a.field = f ∧ a.opId = t ∧
        (∃ label, parseEntryAdd a = some (v, label)) ∧ ¬ EntryRemoved ops i f t := by
  constructor
  · rintro ⟨row, hrow, hi, hf, ht, hv, hrem⟩
    obtain ⟨k, h⟩ := (hdb.scan (by decide)).mp hrow
    obtain ⟨i', f', t', rfl, hi', hf', ht'⟩ := rowsOf_entries_key h
    obtain rfl : i' = i := by simpa using hi'.symm.trans hi
    obtain rfl : f' = f := by simpa using hf'.symm.trans hf
    obtain rfl : t' = t := by simpa using ht'.symm.trans ht
    obtain ⟨a, ha, hfa, h1, h2, h3, hp⟩ := (rowsOf_entries_value hid h).mp hv
    exact ⟨a, ha, hfa, h1, h2, h3, hp, (rowsOf_entries_removed h).mp hrem⟩
  · rintro ⟨a, ha, hf, h1, h2, h3, hp, hrem⟩
    obtain ⟨c, hca⟩ := exists_entryAdd hf
    obtain ⟨_, _, _, _, hk, _⟩ := mem_entryAdd hca
    have hc := (@mem_changesAt_entries ops _ _).mpr (.inl ⟨a, ha, hf, hca, rfl⟩)
    obtain ⟨row, h⟩ := Option.isSome_iff_exists.mp (isSome_rowsOf_iff.mpr ⟨c, hc⟩)
    rw [hk, h1, h2, h3] at h
    obtain ⟨i', f', t', hkey, hi', hf', ht'⟩ := rowsOf_entries_key h
    obtain ⟨rfl, rfl, rfl⟩ : i = i' ∧ f = f' ∧ t = t' := by simpa [entryKey] using hkey
    exact ⟨row, (hdb.scan (by decide)).mpr ⟨_, h⟩, hi', hf', ht',
      (rowsOf_entries_value hid h).mpr ⟨a, ha, hf, h1, h2, h3, hp⟩,
      (rowsOf_entries_removed h).mpr hrem⟩

end Entries

end NexusFlow.Core
