import NexusFlow.Chat.MessageReducer
import NexusFlow.Core.TaskReducer
import NexusFlow.Memory.FactReducer

/-!
# Where a folded row lives in the table

Model of `crates/fold-ddb/src/layout.rs` and of the platform's reducers (`fold.rs:80-99`): the sort
key of a view row, the keys of the entries the fold keeps beside the rows, and the tables' columns
and `DEFAULT`s, which the code reads off the local schema.

`textKey_inj`: two rows of the view tables never share a sort key.
-/

namespace NexusFlow.Hosted

open NexusFlow.Foundation NexusFlow.Core NexusFlow.Chat NexusFlow.Memory

/-! ## Names the table reserves -/

/-- `PK`: the table's partition key. -/
def Attr.pk : String := "stream_id"

/-- `SK`: the table's sort key. -/
def Attr.sk : String := "sk"

/-- `ACTIVE`: the partition key of the `active` index. -/
def Attr.active : String := "nxf_active"

/-- `DATED`: the partition key of the `dated` index. -/
def Attr.dated : String := "nxf_dated"

/-- `DATED_AT`: the sort key of the `dated` index. -/
def Attr.datedAt : String := "nxf_dated_at"

/-- `TYPED`: the partition key of the `typed` index. -/
def Attr.typed : String := "nxf_typed"

/-- `RESERVED`: attribute names no view column may take. -/
def reserved : List String :=
  [Attr.pk, Attr.sk, Attr.active, Attr.dated, Attr.datedAt, Attr.typed]

/-- `MAX_KEY_BYTES`. -/
def maxKeyBytes : Nat := 1024

/-- `MAX_PARTITION_BYTES`. -/
def maxPartitionBytes : Nat := 2048

/-- `MAX_ITEM_BYTES`. -/
def maxItemBytes : Nat := 400 * 1024

/-- `WATERMARK_KEY`. -/
def watermarkKey : String := ".meta#watermark"

/-! ## Keys -/

/-- `LayoutError`: a row has no place in the layout. -/
inductive LayoutError
  | unknownTable (table : String)
  | unknownColumn (table column : String)
  | reservedColumn (table column : String)
  | nullKey (table column : String)
  deriving DecidableEq, Repr

/-- `s.replace(c, text)`. -/
def replaceChar (c : Char) (text s : String) : String :=
  String.ofList (s.toList.flatMap fun d => if d = c then text.toList else [d])

/-- `escape`: no value reaches into the next key cell. -/
def escape (v : String) : String := replaceChar '#' "%23" (replaceChar '%' "%25" v)

/-- `table_prefix`. -/
def tablePrefix (table : String) : String := table ++ "#"

/-- One cell of a key. SQLite's `TEXT` affinity stores an integer key as its decimal text: the same
row. -/
def keyPiece (table : String) (cell : String × Cell) : Except LayoutError String :=
  match cell.2 with
  | .text v => .ok (escape v)
  | .int v => .ok (toString v)
  | .null => .error (.nullKey table cell.1)

/-- `row_key`: the sort key of a row of `table` with these key cells. -/
def rowKey (table : String) (key : Cells) : Except LayoutError String :=
  (key.mapM (keyPiece table)).map fun pieces => tablePrefix table ++ joinChar '#' pieces

/-- The sort key of a row whose key cells are these texts. -/
def textKey (table : String) (values : List String) : String :=
  tablePrefix table ++ joinChar '#' (values.map escape)

/-- `typed_partition`. -/
def typedPartition (stream itemType : String) : String := stream ++ "#" ++ escape itemType

/-- `adjacency_prefix`. -/
def adjacencyPrefix (item : String) : String := ".adj#" ++ escape item ++ "#"

/-- `adjacency_key`: edge `tag` touches ticket `item`. -/
def adjacencyKey (item tag : String) : String := adjacencyPrefix item ++ escape tag

/-- `label_adjacency_prefix`. -/
def labelAdjacencyPrefix (item : String) : String := ".ladj#" ++ escape item ++ "#"

/-- `label_adjacency_key`: label add `tag` is on ticket `item`. -/
def labelAdjacencyKey (item tag : String) : String := labelAdjacencyPrefix item ++ escape tag

/-- `link_adjacency_prefix`. -/
def linkAdjacencyPrefix (item : String) : String := ".tadj#" ++ escape item ++ "#"

/-- `link_adjacency_key`: thread link add `tag` is on ticket `item`. -/
def linkAdjacencyKey (item tag : String) : String := linkAdjacencyPrefix item ++ escape tag

/-- `contributes_adjacency_prefix`. -/
def contributesAdjacencyPrefix (item : String) : String := ".cadj#" ++ escape item ++ "#"

/-- `contributes_adjacency_key`: `contributes_to` edge add `tag` leaves ticket `item`. -/
def contributesAdjacencyKey (item tag : String) : String :=
  contributesAdjacencyPrefix item ++ escape tag

/-- `ref_adjacency_prefix`. -/
def refAdjacencyPrefix (value field : String) : String :=
  ".radj#" ++ escape value ++ "#" ++ escape field ++ "#"

/-- `ref_adjacency_key`: item `source`'s custom field `field` holds `value`. -/
def refAdjacencyKey (value field source : String) : String :=
  refAdjacencyPrefix value field ++ escape source

/-- `ref_source_prefix`. -/
def refSourcePrefix (source field : String) : String :=
  ".rsrc#" ++ escape source ++ "#" ++ escape field ++ "#"

/-- `ref_source_key`: the mirror of a reverse-reference hint. -/
def refSourceKey (source field value : String) : String :=
  refSourcePrefix source field ++ escape value

/-! ## Tables -/

/-- `TableLayout`. -/
structure TableLayout where
  key : List String
  columns : List String
  /-- `default_of`: what a column reads as in a row that never wrote it. -/
  defaultOf : String → Cell

/-- `Layout`: every view table a fold writes, by name. -/
structure Layout where
  tables : List (String × TableLayout)

/-- `Layout::table`. -/
def Layout.table (l : Layout) (name : String) : Except LayoutError TableLayout :=
  match l.tables.lookup name with
  | some t => .ok t
  | none => .error (.unknownTable name)

/-- A column with the two columns of its version. -/
def versioned (fields : List String) : List String :=
  fields.flatMap fun f => [f, f ++ "_v", f ++ "_site"]

/-- The view tables of `try_apply_flow_views`: name, key columns, other columns. -/
def flowTables : List (String × List String × List String) :=
  [("items", ["id"], versioned itemLwwFields ++ ["_placeholder"]),
    ("edge_adds", ["tag"], ["from_id", "to_id", "kind", "lamport", "site"]),
    ("edge_removes", ["tag"], []),
    ("label_adds", ["tag"], ["item_id", "label"]),
    ("label_removes", ["tag"], []),
    ("notes", ["id"], ["item_id", "author", "body", "lamport", "site", "created_at"]),
    ("note_tombstones", ["note_id"], []),
    ("chunks", ["item_id", "field", "id"], ["author", "body", "lamport", "site", "created_at"]),
    ("chunk_superseded", ["item_id", "field", "chunk_id"], []),
    ("custom_fields", ["item_id", "field"], ["value", "value_v", "value_site"]),
    ("field_entries", ["item_id", "field", "tag"], ["value", "label", "lamport", "site", "removed"]),
    ("thread_link_adds", ["tag"],
      ["thread_id", "item_id", "relation", "weight", "lamport", "site"]),
    ("thread_link_removes", ["tag"], []),
    ("item_timestamps", ["item_id"],
      ["created_at", "created_v", "created_site", "updated_at", "updated_v", "updated_site"])]

/-- The view tables of `try_apply_chat_views`. -/
def chatTables : List (String × List String × List String) :=
  [("messages", ["message_id"],
      ["origin", "channel_id", "sender", "kind", "priority", "disposition", "thread_id", "refs",
        "body", "created", "lamport", "site", "claim"]),
    ("channels", ["channel_id"], versioned channelFields),
    ("membership_adds", ["tag"], ["channel_id", "handle", "lamport", "site"]),
    ("membership_removes", ["tag"], []),
    ("profiles", ["handle"], versioned profileFields),
    ("threads", ["thread_id"],
      ["origin", "channel_id", "opener", "created", "parent", "root_v", "root_site", "root_claim"] ++
        versioned threadFields)]

/-- The view table of `try_apply_memory_views`. -/
def memoryTables : List (String × List String × List String) :=
  [("memories", ["key"],
      ["body", "author", "updated", "active", "v", "site", "created_v", "created_site"] ++
        versioned registers)]

/-- `Layout::platform`. -/
def platformLayout : Layout where
  tables :=
    let read (ddl : Ddl) (t : String × List String × List String) :=
      (t.1, (⟨t.2.1, t.2.1 ++ t.2.2, ddl t.1⟩ : TableLayout))
    flowTables.map (read flowDdl) ++ chatTables.map (read chatDdl) ++ memoryTables.map (read memoryDdl)

/-- `platform_reducers`. -/
def platformReducers (json : Envelopes) : List Reducer :=
  [taskReducer, messageReducer json, factReducer]

/-- `platform_view_tables`. -/
def platformViewTables : List String :=
  TaskReducer.viewTables ++ MessageReducer.viewTables ++ FactReducer.viewTables

/-- `INDEX_REVISION`: the revision of the rules the fold keeps its entries by. -/
def indexRevision : Int := 4

/-- `INDEX_DOMAIN`. -/
def indexDomain : String := "index"

/-- The layout holds exactly the reducers' view tables. -/
theorem platformLayout_tables : platformLayout.tables.map Prod.fst = platformViewTables := by
  decide

/-! ## No two rows share a key -/

/-- What an escaped text holds for one character. -/
def escapeChar (d : Char) : List Char :=
  if d = '%' then ['%', '2', '5'] else if d = '#' then ['%', '2', '3'] else [d]

theorem escape_toList (v : String) : (escape v).toList = v.toList.flatMap escapeChar := by
  have h25 : "%25".toList = ['%', '2', '5'] := by decide
  have h23 : "%23".toList = ['%', '2', '3'] := by decide
  simp only [escape, replaceChar, String.toList_ofList, h25, h23, List.flatMap_assoc]
  congr 1
  funext d
  unfold escapeChar
  by_cases hp : d = '%'
  · subst hp
    decide
  · by_cases hh : d = '#'
    · subst hh
      decide
    · simp [hp, hh]

theorem hasChar_escape (v : String) : hasChar '#' (escape v) = false := by
  rw [hasChar_eq_false_iff, escape_toList, List.mem_flatMap]
  rintro ⟨d, -, hd⟩
  unfold escapeChar at hd
  split_ifs at hd with hp hh
  · exact absurd hd (by decide)
  · exact absurd hd (by decide)
  · exact hh (List.mem_singleton.mp hd).symm

theorem escapeChar_ne_nil (d : Char) : escapeChar d ≠ [] := by
  unfold escapeChar
  split_ifs <;> simp

/-- An escaped character can be read back off the front. -/
theorem escapeChar_append_inj {d d' : Char} {l l' : List Char}
    (h : escapeChar d ++ l = escapeChar d' ++ l') : d = d' ∧ l = l' := by
  unfold escapeChar at h
  by_cases hp : d = '%' <;> by_cases hp' : d' = '%' <;> by_cases hh : d = '#' <;>
    by_cases hh' : d' = '#' <;> simp_all [eq_comm]

theorem flatMap_escapeChar_inj : ∀ {l l' : List Char},
    l.flatMap escapeChar = l'.flatMap escapeChar → l = l'
  | [], [], _ => rfl
  | [], d :: l', h => by
    rw [List.flatMap_nil, List.flatMap_cons] at h
    exact absurd (List.append_eq_nil_iff.mp h.symm).1 (escapeChar_ne_nil d)
  | d :: l, [], h => by
    rw [List.flatMap_nil, List.flatMap_cons] at h
    exact absurd (List.append_eq_nil_iff.mp h).1 (escapeChar_ne_nil d)
  | d :: l, d' :: l', h => by
    rw [List.flatMap_cons, List.flatMap_cons] at h
    obtain ⟨rfl, hrest⟩ := escapeChar_append_inj h
    rw [flatMap_escapeChar_inj hrest]

theorem escape_inj {v v' : String} (h : escape v = escape v') : v = v' := by
  have hchars := congrArg String.toList h
  rw [escape_toList, escape_toList] at hchars
  exact String.toList_injective (flatMap_escapeChar_inj hchars)

/-- The text keys are the escaped cells behind the table's name, split at `#`. -/
theorem textKey_eq (table : String) {values : List String} (hne : values ≠ []) :
    textKey table values = joinChar '#' (table :: values.map escape) := by
  unfold textKey tablePrefix joinChar
  cases values with
  | nil => exact absurd rfl hne
  | cons v vs =>
    refine String.toList_injective ?_
    simp [List.intercalate, String.toList_append]

/-- **No two rows share a key.** -/
theorem textKey_inj {t t' : String} {vs vs' : List String} (ht : hasChar '#' t = false)
    (ht' : hasChar '#' t' = false) (hne : vs ≠ []) (hne' : vs' ≠ [])
    (h : textKey t vs = textKey t' vs') : t = t' ∧ vs = vs' := by
  rw [textKey_eq t hne, textKey_eq t' hne'] at h
  have hfree : ∀ {t : String} {vs : List String}, hasChar '#' t = false →
      ∀ p ∈ t :: vs.map escape, hasChar '#' p = false := by
    intro t vs ht p hp
    rcases List.mem_cons.mp hp with rfl | hp
    · exact ht
    · obtain ⟨v, -, rfl⟩ := List.mem_map.mp hp
      exact hasChar_escape v
  have hsplit := congrArg (splitChar '#') h
  rw [splitChar_joinChar (List.cons_ne_nil _ _) (hfree ht),
    splitChar_joinChar (List.cons_ne_nil _ _) (hfree ht')] at hsplit
  obtain ⟨rfl, hvs⟩ := List.cons_eq_cons.mp hsplit
  exact ⟨rfl, List.map_injective_iff.mpr (fun _ _ => escape_inj) hvs⟩

end NexusFlow.Hosted
