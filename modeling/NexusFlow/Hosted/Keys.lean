import NexusFlow.Hosted.Table

/-!
# What a sort key names

The eight key families of the hosted table (`crates/fold-ddb/src/layout.rs:50-162`) and the prefixes
its queries ask for, those of `chunks.rs:21-30` and `board.rs:429-440` included.

Every key is a name and escaped cells, joined at `#`; a view table's name does not start with a dot
and the names of the fold's own entries do. So a key gives back its family and its cells
(`StreamKey.sk_inj`), and a prefix that ends in `#` selects the keys that begin with its cells
(`startsWith_joined`), never those whose cell is only a longer text.
-/

namespace NexusFlow.Hosted

open NexusFlow.Foundation

/-! ## Joined cells and prefixes -/

theorem joinChar_append {c : Char} {a b : List String} (ha : a ≠ []) (hb : b ≠ []) :
    joinChar c (a ++ b) = joinChar c a ++ String.singleton c ++ joinChar c b := by
  refine String.toList_injective ?_
  simp only [joinChar, String.toList_ofList, String.toList_append, String.toList_singleton,
    List.map_append]
  induction a with
  | nil => exact absurd rfl ha
  | cons x a ih =>
    cases a with
    | nil =>
      rw [List.map_singleton, List.singleton_append,
        List.intercalate_cons_of_ne_nil (by simpa using hb), List.intercalate_singleton]
    | cons y a =>
      have hrest := ih (List.cons_ne_nil y a)
      rw [List.map_cons, List.cons_append, List.intercalate_cons_of_ne_nil (by simp), hrest,
        List.intercalate_cons_of_ne_nil (by simp)]
      simp only [List.append_assoc]

/-- **A prefix of whole cells** selects the keys that begin with these cells and go on. -/
theorem startsWith_joined {lead cells : List String} (hlead : lead ≠ []) (hcells : cells ≠ [])
    (hleadFree : ∀ p ∈ lead, hasChar '#' p = false) (hfree : ∀ p ∈ cells, hasChar '#' p = false) :
    startsWith (joinChar '#' lead ++ "#") (joinChar '#' cells) = true ↔
      ∃ more, more ≠ [] ∧ cells = lead ++ more := by
  unfold startsWith
  rw [List.isPrefixOf_iff_prefix]
  constructor
  · rintro ⟨rest, hrest⟩
    have hpieces : splitChar '#' (String.ofList rest) ≠ [] := by
      simp [splitChar, List.splitOn_ne_nil]
    refine ⟨splitChar '#' (String.ofList rest), hpieces, ?_⟩
    have hjoin : joinChar '#' cells =
        joinChar '#' (lead ++ splitChar '#' (String.ofList rest)) := by
      rw [joinChar_append hlead hpieces, joinChar_splitChar]
      refine String.toList_injective ?_
      rw [← hrest, String.toList_append, String.toList_append, String.toList_append,
        String.toList_singleton, String.toList_ofList, String.toList_ofList]
    have hsplit := congrArg (splitChar '#') hjoin
    have hpiecesFree : ∀ p ∈ lead ++ splitChar '#' (String.ofList rest), hasChar '#' p = false := by
      intro p hp
      rcases List.mem_append.mp hp with hp | hp
      · exact hleadFree p hp
      · exact hasChar_of_mem_splitChar hp
    rwa [splitChar_joinChar hcells hfree,
      splitChar_joinChar (List.append_ne_nil_of_left_ne_nil hlead _) hpiecesFree] at hsplit
  · rintro ⟨more, hmore, rfl⟩
    rw [joinChar_append hlead hmore, String.toList_append, String.toList_append,
      String.toList_append]
    exact List.prefix_append _ _

/-! ## Row keys of text cells -/

/-- The key cells of a row, all texts. -/
def textCells (columns values : List String) : Cells := columns.zip (values.map Cell.text)

theorem rowKey_textCells (table : String) {columns values : List String}
    (hlen : columns.length = values.length) :
    rowKey table (textCells columns values) = .ok (textKey table values) := by
  have hpieces : (textCells columns values).mapM (keyPiece table) = .ok (values.map escape) := by
    unfold textCells
    induction values generalizing columns with
    | nil =>
      rw [List.length_eq_zero_iff.mp hlen]
      rfl
    | cons v values ih =>
      obtain ⟨c, columns, rfl⟩ := List.exists_cons_of_length_eq_add_one hlen
      rw [List.map_cons, List.zip_cons_cons, List.mapM_cons, ih (Nat.succ.inj hlen)]
      rfl
  unfold rowKey
  rw [hpieces]
  rfl

/-- `row_key(…).expect("a text key")`. -/
def expectKey (key : Except LayoutError String) : String := key.toOption.getD ""

/-- `field_prefix` of `chunks.rs`: the rows of one item's chunk field. -/
def fieldPrefix (table item field : String) : String :=
  expectKey (rowKey table [("item_id", .text item), ("field", .text field)]) ++ "#"

/-- `place_keys`: the `custom_fields` row of a place, and the prefix of its `field_entries` rows. -/
def placeKeys (item field : String) : String × String :=
  let cells : Cells := [("item_id", .text item), ("field", .text field)]
  (expectKey (rowKey "custom_fields" cells), expectKey (rowKey "field_entries" cells) ++ "#")

/-- The prefix of `custom` and `custom_lists` in `records.rs`: an item's rows of the table, whatever
the field. -/
def itemRowsPrefix (table item : String) : String :=
  expectKey (rowKey table [("item_id", .text item)]) ++ "#"

/-! ## The key families -/

/-- The adjacency entries of a ticket. -/
inductive Adjacency
  | edges
  | labels
  | links
  | contributes
  deriving DecidableEq, Repr

/-- The key of the kind's entry. -/
def Adjacency.key : Adjacency → String → String → String
  | edges => adjacencyKey
  | labels => labelAdjacencyKey
  | links => linkAdjacencyKey
  | contributes => contributesAdjacencyKey

/-- The prefix of the kind's entries of one item. -/
def Adjacency.keyPrefix : Adjacency → String → String
  | edges => adjacencyPrefix
  | labels => labelAdjacencyPrefix
  | links => linkAdjacencyPrefix
  | contributes => contributesAdjacencyPrefix

/-- What stands before the first `#`. -/
def Adjacency.name : Adjacency → String
  | edges => ".adj"
  | labels => ".ladj"
  | links => ".tadj"
  | contributes => ".cadj"

theorem Adjacency.name_spec (kind : Adjacency) :
    hasChar '#' kind.name = false ∧ startsWith "." kind.name = true := by
  cases kind <;> decide

theorem Adjacency.name_inj {a b : Adjacency} (h : a.name = b.name) : a = b := by
  cases a <;> cases b <;> first | rfl | exact absurd h (by decide)

/-- A reverse-reference hint, or its mirror. -/
inductive Reference
  | hint
  | mirror
  deriving DecidableEq, Repr

/-- The key of the kind's entry: value, field and source of a hint, source, field and value of a
mirror. -/
def Reference.key : Reference → String → String → String → String
  | hint => refAdjacencyKey
  | mirror => refSourceKey

/-- The prefix of the kind's entries of one value, or of one place. -/
def Reference.keyPrefix : Reference → String → String → String
  | hint => refAdjacencyPrefix
  | mirror => refSourcePrefix

/-- What stands before the first `#`. -/
def Reference.name : Reference → String
  | hint => ".radj"
  | mirror => ".rsrc"

theorem Reference.name_spec (kind : Reference) :
    hasChar '#' kind.name = false ∧ startsWith "." kind.name = true := by
  cases kind <;> decide

theorem Adjacency.name_ne (a : Adjacency) (b : Reference) : a.name ≠ b.name := by
  cases a <;> cases b <;> decide

theorem Reference.name_inj {a b : Reference} (h : a.name = b.name) : a = b := by
  cases a <;> cases b <;> first | rfl | exact absurd h (by decide)

/-- What a sort key of a stream's partition names. -/
inductive StreamKey
  | row (table : String) (values : List String)
  | watermark
  | adjacency (kind : Adjacency) (item tag : String)
  | reference (kind : Reference) (first field last : String)
  deriving DecidableEq, Repr

namespace StreamKey

/-- The sort key. -/
def sk : StreamKey → String
  | row table values => textKey table values
  | watermark => watermarkKey
  | adjacency kind item tag => kind.key item tag
  | reference kind first field last => kind.key first field last

/-- A row of the platform's view tables has a value for each key column. -/
def Valid : StreamKey → Prop
  | row table values => ∃ t, (table, t) ∈ platformLayout.tables ∧ values.length = t.key.length
  | _ => True

/-- What stands before the first `#`. -/
def name : StreamKey → String
  | row table _ => table
  | watermark => ".meta"
  | adjacency kind _ _ => kind.name
  | reference kind _ _ _ => kind.name

/-- What stands behind it. -/
def cells : StreamKey → List String
  | row _ values => values
  | watermark => ["watermark"]
  | adjacency _ item tag => [item, tag]
  | reference _ first field last => [first, field, last]

/-- The key is one of a view row. -/
def isRow : StreamKey → Bool
  | row _ _ => true
  | _ => false

/-! ### A key is a name and escaped cells -/

/-- The names of the platform's tables hold no `#` and start with no dot, each has a key, and the
tables that are read by item and field have three key columns. -/
theorem platform_names : ∀ e ∈ platformLayout.tables,
    hasChar '#' e.1 = false ∧ startsWith "." e.1 = false ∧ e.2.key ≠ [] ∧
      (e.1 ∈ ["chunks", "chunk_superseded", "field_entries"] → e.2.key.length = 3) := by
  decide

theorem sk_eq (k : StreamKey) : k.sk = textKey k.name k.cells := by
  cases k with
  | row table values => rfl
  | watermark => decide
  | adjacency kind item tag =>
    refine String.toList_injective ?_
    cases kind <;>
      simp [sk, name, cells, Adjacency.key, Adjacency.name, textKey, tablePrefix, joinChar,
        adjacencyKey, adjacencyPrefix, labelAdjacencyKey, labelAdjacencyPrefix, linkAdjacencyKey,
        linkAdjacencyPrefix, contributesAdjacencyKey, contributesAdjacencyPrefix]
  | reference kind first field last =>
    refine String.toList_injective ?_
    cases kind <;>
      simp [sk, name, cells, Reference.key, Reference.name, textKey, tablePrefix, joinChar,
        refAdjacencyKey, refAdjacencyPrefix, refSourceKey, refSourcePrefix]

theorem hasChar_name {k : StreamKey} (h : k.Valid) : hasChar '#' k.name = false := by
  cases k with
  | row table values =>
    obtain ⟨t, ht, _⟩ := h
    exact (platform_names _ ht).1
  | watermark => decide
  | adjacency kind item tag => exact kind.name_spec.1
  | reference kind first field last => exact kind.name_spec.1

theorem cells_ne_nil {k : StreamKey} (h : k.Valid) : k.cells ≠ [] := by
  cases k with
  | row table values =>
    obtain ⟨t, ht, hlen⟩ := h
    intro hnil
    rw [show values = [] from hnil, List.length_nil] at hlen
    exact (platform_names _ ht).2.2.1 (List.length_eq_zero_iff.mp hlen.symm)
  | watermark => exact List.cons_ne_nil _ _
  | adjacency kind item tag => exact List.cons_ne_nil _ _
  | reference kind first field last => exact List.cons_ne_nil _ _

/-- The fold's own entries are the keys that start with a dot. -/
theorem startsWith_name {k : StreamKey} (h : k.Valid) : startsWith "." k.name = !k.isRow := by
  cases k with
  | row table values =>
    obtain ⟨t, ht, _⟩ := h
    exact (platform_names _ ht).2.1
  | watermark => decide
  | adjacency kind item tag => exact kind.name_spec.2
  | reference kind first field last => exact kind.name_spec.2

/-- The name tells the family. -/
theorem eq_of_name {k k' : StreamKey} (h : k.Valid) (h' : k'.Valid) (hname : k.name = k'.name)
    (hcells : k.cells = k'.cells) : k = k' := by
  have hrow := startsWith_name h
  rw [hname, startsWith_name h', Bool.not_inj_iff] at hrow
  cases k with
  | row table values =>
    cases k' with
    | row table' values' => rw [show table = table' from hname, show values = values' from hcells]
    | watermark => cases hrow
    | adjacency kind item tag => cases hrow
    | reference kind first field last => cases hrow
  | watermark =>
    cases k' with
    | row table' values' => cases hrow
    | watermark => rfl
    | adjacency kind item tag => cases hcells
    | reference kind first field last => cases hcells
  | adjacency kind item tag =>
    cases k' with
    | row table' values' => cases hrow
    | watermark => cases hcells
    | adjacency kind' item' tag' =>
      obtain ⟨rfl, rfl⟩ : item = item' ∧ tag = tag' := by simpa [cells] using hcells
      rw [Adjacency.name_inj hname]
    | reference kind' first field last => cases hcells
  | reference kind first field last =>
    cases k' with
    | row table' values' => cases hrow
    | watermark => cases hcells
    | adjacency kind' item tag => cases hcells
    | reference kind' first' field' last' =>
      obtain ⟨rfl, rfl, rfl⟩ : first = first' ∧ field = field' ∧ last = last' := by
        simpa [cells] using hcells
      rw [Reference.name_inj hname]

/-- **A sort key names one entry of one family.** -/
theorem sk_inj {k k' : StreamKey} (h : k.Valid) (h' : k'.Valid) (heq : k.sk = k'.sk) : k = k' := by
  rw [sk_eq, sk_eq] at heq
  obtain ⟨hname, hcells⟩ :=
    textKey_inj (hasChar_name h) (hasChar_name h') (cells_ne_nil h) (cells_ne_nil h') heq
  exact eq_of_name h h' hname hcells

/-! ### Queries -/

/-- **A prefix of whole cells selects the keys of that name that begin with these cells.** -/
theorem startsWith_sk {k : StreamKey} (h : k.Valid) {table : String} {lead : List String}
    (htable : hasChar '#' table = false) (hlead : lead ≠ []) :
    startsWith (textKey table lead ++ "#") k.sk = true ↔
      k.name = table ∧ ∃ more, more ≠ [] ∧ k.cells = lead ++ more := by
  have hfree : ∀ {t : String} {vs : List String}, hasChar '#' t = false →
      ∀ p ∈ t :: vs.map escape, hasChar '#' p = false := by
    intro t vs ht p hp
    rcases List.mem_cons.mp hp with rfl | hp
    · exact ht
    · obtain ⟨v, -, rfl⟩ := List.mem_map.mp hp
      exact hasChar_escape v
  rw [sk_eq, textKey_eq _ hlead, textKey_eq _ (cells_ne_nil h),
    startsWith_joined (List.cons_ne_nil _ _) (List.cons_ne_nil _ _) (hfree htable)
      (hfree (hasChar_name h))]
  constructor
  · rintro ⟨more, hmore, heq⟩
    rw [List.cons_append] at heq
    obtain ⟨hname, hcells⟩ := List.cons.inj heq
    obtain ⟨pre, post, hsplit, hpre, hpost⟩ := List.map_eq_append_iff.mp hcells
    obtain rfl := List.map_injective_iff.mpr (fun _ _ => escape_inj) hpre
    refine ⟨hname, post, fun hnil => hmore ?_, hsplit⟩
    rw [← hpost, hnil, List.map_nil]
  · rintro ⟨hname, more, hmore, hcells⟩
    refine ⟨more.map escape, by simpa using hmore, ?_⟩
    rw [hname, hcells, List.map_append, List.cons_append]

theorem startsWith_adjacency {k : StreamKey} (h : k.Valid) (kind : Adjacency) (item : String) :
    startsWith (kind.keyPrefix item) k.sk = true ↔ ∃ tag, k = adjacency kind item tag := by
  have hstart : kind.keyPrefix item = textKey kind.name [item] ++ "#" := by
    refine String.toList_injective ?_
    cases kind <;>
      simp [Adjacency.keyPrefix, Adjacency.name, textKey, tablePrefix, joinChar, adjacencyPrefix,
        labelAdjacencyPrefix, linkAdjacencyPrefix, contributesAdjacencyPrefix]
  rw [hstart, startsWith_sk h kind.name_spec.1 (List.cons_ne_nil _ _)]
  constructor
  · rintro ⟨hname, more, hmore, hcells⟩
    cases k with
    | row table values =>
      have hrow := startsWith_name h
      rw [hname, kind.name_spec.2] at hrow
      cases hrow
    | watermark => exact absurd (List.cons.inj hcells).2.symm hmore
    | adjacency kind' item' tag =>
      obtain ⟨rfl, _⟩ := List.cons.inj hcells
      exact ⟨tag, by rw [Adjacency.name_inj hname]⟩
    | reference kind' first field last => exact absurd hname.symm (kind.name_ne kind')
  · rintro ⟨tag, rfl⟩
    exact ⟨rfl, [tag], List.cons_ne_nil _ _, rfl⟩

theorem startsWith_reference {k : StreamKey} (h : k.Valid) (kind : Reference)
    (first field : String) :
    startsWith (kind.keyPrefix first field) k.sk = true ↔
      ∃ last, k = reference kind first field last := by
  have hstart : kind.keyPrefix first field = textKey kind.name [first, field] ++ "#" := by
    refine String.toList_injective ?_
    cases kind <;>
      simp [Reference.keyPrefix, Reference.name, textKey, tablePrefix, joinChar,
        refAdjacencyPrefix, refSourcePrefix]
  rw [hstart, startsWith_sk h kind.name_spec.1 (List.cons_ne_nil _ _)]
  constructor
  · rintro ⟨hname, more, hmore, hcells⟩
    cases k with
    | row table values =>
      have hrow := startsWith_name h
      rw [hname, kind.name_spec.2] at hrow
      cases hrow
    | watermark => cases (List.cons.inj hcells).2
    | adjacency kind' item tag =>
      exact absurd (List.cons.inj (List.cons.inj hcells).2).2.symm hmore
    | reference kind' first' field' last =>
      obtain ⟨hfirst, hrest⟩ := List.cons.inj hcells
      obtain ⟨hfield, _⟩ := List.cons.inj hrest
      exact ⟨last, by rw [Reference.name_inj hname, hfirst, hfield]⟩
  · rintro ⟨last, rfl⟩
    exact ⟨rfl, [last], List.cons_ne_nil _ _, rfl⟩

/-- A key with a table's name is a row's. -/
theorem eq_row_of_name {k : StreamKey} (h : k.Valid) {e : String × TableLayout}
    (he : e ∈ platformLayout.tables) (hname : k.name = e.1) : k = row e.1 k.cells := by
  have hrow := startsWith_name h
  rw [hname, (platform_names e he).2.1] at hrow
  cases k with
  | row table values => rw [show table = e.1 from hname]; rfl
  | watermark => cases hrow
  | adjacency kind item tag => cases hrow
  | reference kind first field last => cases hrow

theorem startsWith_row {k : StreamKey} (h : k.Valid) {e : String × TableLayout}
    (he : e ∈ platformLayout.tables) {lead : List String} (hlead : lead ≠ []) :
    startsWith (textKey e.1 lead ++ "#") k.sk = true ↔
      ∃ more, more ≠ [] ∧ k = row e.1 (lead ++ more) := by
  rw [startsWith_sk h (platform_names e he).1 hlead]
  constructor
  · rintro ⟨hname, more, hmore, hcells⟩
    exact ⟨more, hmore, hcells ▸ eq_row_of_name h he hname⟩
  · rintro ⟨more, hmore, rfl⟩
    exact ⟨rfl, more, hmore, rfl⟩

theorem startsWith_tablePrefix {k : StreamKey} (h : k.Valid) {e : String × TableLayout}
    (he : e ∈ platformLayout.tables) :
    startsWith (tablePrefix e.1) k.sk = true ↔ ∃ values, k = row e.1 values := by
  have hstart : tablePrefix e.1 = joinChar '#' [e.1] ++ "#" := by
    refine String.toList_injective ?_
    simp [tablePrefix, joinChar]
  have hfree : ∀ p ∈ k.name :: k.cells.map escape, hasChar '#' p = false := by
    intro p hp
    rcases List.mem_cons.mp hp with rfl | hp
    · exact hasChar_name h
    · obtain ⟨v, -, rfl⟩ := List.mem_map.mp hp
      exact hasChar_escape v
  have htable : ∀ p ∈ [e.1], hasChar '#' p = false := fun p hp => by
    rw [List.mem_singleton.mp hp]
    exact (platform_names e he).1
  rw [hstart, sk_eq, textKey_eq _ (cells_ne_nil h),
    startsWith_joined (List.cons_ne_nil _ _) (List.cons_ne_nil _ _) htable hfree]
  constructor
  · rintro ⟨more, _, heq⟩
    exact ⟨_, eq_row_of_name h he (List.cons.inj heq).1⟩
  · rintro ⟨values, rfl⟩
    exact ⟨values.map escape, by simpa using (show values ≠ [] from cells_ne_nil h), rfl⟩

/-- The rows of one place of a table that is keyed by item, field and one more cell. -/
theorem startsWith_place {k : StreamKey} (h : k.Valid) {table : String}
    (htable : table ∈ ["chunks", "chunk_superseded", "field_entries"]) (item field : String) :
    startsWith (textKey table [item, field] ++ "#") k.sk = true ↔
      ∃ last, k = row table [item, field, last] := by
  obtain ⟨e, he, rfl⟩ : ∃ e ∈ platformLayout.tables, e.1 = table := by
    have hnames : ∀ table ∈ ["chunks", "chunk_superseded", "field_entries"],
        table ∈ platformLayout.tables.map Prod.fst := by
      rw [platformLayout_tables]
      decide
    exact List.mem_map.mp (hnames table htable)
  rw [startsWith_row h he (List.cons_ne_nil _ _)]
  constructor
  · rintro ⟨more, _, rfl⟩
    obtain ⟨t, ht, hlen⟩ := h
    rw [(platform_names _ ht).2.2.2 htable] at hlen
    obtain ⟨last, rfl⟩ := List.length_eq_one_iff.mp (show more.length = 1 by simpa using hlen)
    exact ⟨last, rfl⟩
  · rintro ⟨last, rfl⟩
    exact ⟨[last], List.cons_ne_nil _ _, rfl⟩

end StreamKey

/-! ## The `typed` index -/

/-- **A partition of the `typed` index names one stream and one type.** -/
theorem typedPartition_inj {stream itemType stream' itemType' : String}
    (h : typedPartition stream itemType = typedPartition stream' itemType') :
    stream = stream' ∧ itemType = itemType' := by
  have hpieces : ∀ s : String, splitChar '#' s ≠ [] := by simp [splitChar, List.splitOn_ne_nil]
  have hjoined : ∀ s t : String,
      typedPartition s t = joinChar '#' (splitChar '#' s ++ [escape t]) := by
    intro s t
    rw [joinChar_append (hpieces s) (List.cons_ne_nil _ _), joinChar_splitChar]
    refine String.toList_injective ?_
    simp [typedPartition, joinChar]
  have hfree : ∀ s t : String, ∀ p ∈ splitChar '#' s ++ [escape t], hasChar '#' p = false := by
    intro s t p hp
    rcases List.mem_append.mp hp with hp | hp
    · exact hasChar_of_mem_splitChar hp
    · rw [List.mem_singleton.mp hp]
      exact hasChar_escape t
  rw [hjoined, hjoined] at h
  have hsplit := congrArg (splitChar '#') h
  rw [splitChar_joinChar (by simp) (hfree _ _), splitChar_joinChar (by simp) (hfree _ _)] at hsplit
  obtain ⟨hstream, htype⟩ := List.append_inj' hsplit (Eq.refl 1)
  refine ⟨?_, escape_inj (List.cons.inj htype).1⟩
  rw [← joinChar_splitChar '#' stream, hstream, joinChar_splitChar]

/-! ## The layout -/

/-- What the queries on the families' prefixes select. -/
structure StreamKey.Selected (k : StreamKey) : Prop where
  adjacency : ∀ (kind : Adjacency) (item : String),
    startsWith (kind.keyPrefix item) k.sk = true ↔ ∃ tag, k = .adjacency kind item tag
  reference : ∀ (kind : Reference) (first field : String),
    startsWith (kind.keyPrefix first field) k.sk = true ↔
      ∃ last, k = .reference kind first field last
  table : ∀ e ∈ platformLayout.tables,
    (startsWith (tablePrefix e.1) k.sk = true ↔ ∃ values, k = .row e.1 values)
  itemRows : ∀ e ∈ platformLayout.tables, ∀ item,
    (startsWith (itemRowsPrefix e.1 item) k.sk = true ↔
      ∃ more, more ≠ [] ∧ k = .row e.1 (item :: more))
  chunks : ∀ item field, startsWith (fieldPrefix "chunks" item field) k.sk = true ↔
    ∃ id, k = .row "chunks" [item, field, id]
  superseded : ∀ item field, startsWith (fieldPrefix "chunk_superseded" item field) k.sk = true ↔
    ∃ id, k = .row "chunk_superseded" [item, field, id]
  entries : ∀ item field, startsWith (placeKeys item field).2 k.sk = true ↔
    ∃ tag, k = .row "field_entries" [item, field, tag]

/-- **Sort keys name exactly their rows.** Rows of text cells have the keys of `StreamKey.row`, and
these tell table and cells apart; no key is of two families; a query on a family's prefix selects
the keys built from what the prefix was built from; and a typed partition names stream and type. -/
theorem sort_keys_name_rows :
    (∀ e ∈ platformLayout.tables, ∀ values : List String, values.length = e.2.key.length →
      rowKey e.1 (textCells e.2.key values) = .ok (StreamKey.row e.1 values).sk) ∧
    (∀ e ∈ platformLayout.tables, ∀ e' ∈ platformLayout.tables, ∀ values values' : List String,
      values.length = e.2.key.length → values'.length = e'.2.key.length →
      rowKey e.1 (textCells e.2.key values) = rowKey e'.1 (textCells e'.2.key values') →
      e.1 = e'.1 ∧ values = values') ∧
    (∀ k k' : StreamKey, k.Valid → k'.Valid → k.sk = k'.sk → k = k') ∧
    (∀ k : StreamKey, k.Valid → k.Selected) ∧
    ∀ stream itemType stream' itemType' : String,
      typedPartition stream itemType = typedPartition stream' itemType' →
      stream = stream' ∧ itemType = itemType' := by
  refine ⟨fun e _ values hlen => rowKey_textCells e.1 hlen.symm, ?_,
    fun k k' h h' => StreamKey.sk_inj h h', fun k h => ?_, fun _ _ _ _ => typedPartition_inj⟩
  · intro e he e' he' values values' hlen hlen' heq
    rw [rowKey_textCells e.1 hlen.symm, rowKey_textCells e'.1 hlen'.symm, Except.ok.injEq] at heq
    have hrow : StreamKey.row e.1 values = .row e'.1 values' :=
      StreamKey.sk_inj ⟨e.2, he, hlen⟩ ⟨e'.2, he', hlen'⟩ heq
    exact StreamKey.row.inj hrow
  · have hplace : ∀ table item field : String,
        fieldPrefix table item field = textKey table [item, field] ++ "#" := fun _ _ _ => rfl
    exact {
      adjacency := StreamKey.startsWith_adjacency h
      reference := StreamKey.startsWith_reference h
      table := fun e he => StreamKey.startsWith_tablePrefix h he
      itemRows := fun e he item => by
        rw [show itemRowsPrefix e.1 item = textKey e.1 [item] ++ "#" from rfl]
        exact StreamKey.startsWith_row h he (List.cons_ne_nil item [])
      chunks := fun item field => by
        rw [hplace]
        exact StreamKey.startsWith_place h (by decide) item field
      superseded := fun item field => by
        rw [hplace]
        exact StreamKey.startsWith_place h (by decide) item field
      entries := fun item field => by
        rw [show (placeKeys item field).2 = textKey "field_entries" [item, field] ++ "#" from rfl]
        exact StreamKey.startsWith_place h (by decide) item field }

end NexusFlow.Hosted
