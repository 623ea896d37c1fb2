import Mathlib.Data.List.Find
import NexusFlow.Core.Sheet
import NexusFlow.Facade.Reads

/-!
# The present parent

The view `present_parent` (`crates/core/src/schema.rs:274-295`) row by row, and `list_items` and
`get_items` (`crates/core/src/store.rs:644-727`), which join it.

Of the live parent adds of a child the view keeps those that none outranks, by
`(lamport, site, to_id)`. A log may hold two adds of one coordinate, and when both name one parent
they have one rank: the view then has the child twice, and so have the reads that join it. The
sibling view `present_thread_links` has the tag as its third key.

* `presentParent_eq_head`: `get_item` reads the first row of the join.
* `one_parent_iff`: in every state a run reaches, the view has one row a child and the reads one row
  an item exactly when no child's highest live parent adds are tied, and no item is asked for in two
  chunks of a `get_items` call.
* `present_parent_twice`: two adds of one foreign site on one coordinate, and the item comes twice.
-/

namespace NexusFlow.Facade

open NexusFlow.Core NexusFlow.Foundation Relation TaskReducer

/-! ## The reads -/

/-- The items of one `IN (…)`. The source names no order. -/
def getChunk (db : Db) (chunk : List String) : List ItemRow :=
  ((itemIds db).filter fun id => chunk.contains id).flatMap (itemRows db)

/-- `get_items`. -/
def getItems (db : Db) (ids : List String) : List ItemRow := (ids.toChunks 500).flatMap (getChunk db)

/-! ## What is expected of them -/

/-- One current parent a child, and each item once. -/
structure OneParent (db : Db) (ids : List String) : Prop where
  unique : ∀ child, (parentsIn db child).length ≤ 1
  present : ∀ child, parentsIn db child ≠ [] ↔ ∃ parent, edgeSet.present db (child, parent, .parent)
  among : ∀ child, ∀ parent ∈ parentsIn db child, edgeSet.present db (child, parent, .parent)
  listed : ((listItems db).map ItemRow.id).Nodup
  gotten : ((getItems db ids).map ItemRow.id).Nodup

/-- A live add of a parent of the child. -/
def ParentAdd (ops : List Op) (child parent : String) (a : Op) : Prop :=
  a ∈ ops ∧ edgeSet.adds (child, parent, .parent) a ∧ ¬ edgeTags.Removed ops a.opId

/-- `(lamport, site, to_id)` of an add. -/
def opRank (parent : String) (a : Op) : ℤ ×ₗ ℤ ×ₗ String := toLex (a.lamport, toLex (a.site, parent))

/-- Two live adds of one parent share a coordinate, and no live add of a parent of the child ranks
above them. -/
def TiedParents (ops : List Op) (child : String) : Prop :=
  ∃ parent a b, ParentAdd ops child parent a ∧ ParentAdd ops child parent b ∧ a.opId ≠ b.opId ∧
    a.coordinate = b.coordinate ∧
    ∀ other x, ParentAdd ops child other x → ¬ opRank parent a < opRank other x

/-- No item is asked for in two chunks. -/
def AskedOnce (db : Db) (ids : List String) : Prop :=
  (ids.toChunks 500).Pairwise fun c d => ∀ id ∈ itemIds db, id ∈ c → id ∉ d

/-! ## The live parent adds -/

/-- The row of `edge_adds` a parent add leaves. -/
def parentRow (child parent : String) (a : Op) : Row :=
  insertedRow flowDdl (.put "edge_adds" [("tag", .text a.opId)]
    [("from_id", .text child), ("to_id", .text parent), ("kind", .text EdgeKind.parent.asStr),
      ("lamport", .int a.lamport), ("site", .int a.site)])

/-- The row is the child's, and none of the child's live rows outranks it. -/
def isHighest (db : Db) (child : String) (a : Row) : Bool :=
  a "from_id" == .text child && !(liveParents db).any fun b =>
    b "from_id" == .text child && decide (parentRank a < parentRank b)

theorem presentParent_eq (db : Db) (child : String) : presentParent db child =
    ((liveParents db).find? (isHighest db child)).bind fun row => cellText (row "to_id") := by
  have hpresent : ((db.scan "edge_adds").filter fun row =>
      row "from_id" == .text child && row "kind" == .text EdgeKind.parent.asStr &&
        !(removedTags "edge_removes" db).any fun tag => row "tag" == .text tag) =
      (liveParents db).filter fun row => row "from_id" == .text child := by
    rw [liveParents, List.filter_filter]
    simp only [Bool.and_assoc]
  unfold presentParent
  rw [hpresent]
  simp only [List.find?_filter, List.any_filter]
  congr 2
  funext a
  rw [Bool.eq_iff_iff]
  simp [isHighest]

theorem length_le_one_iff {α : Type} {l : List α} (h : l.Nodup) :
    l.length ≤ 1 ↔ ∀ x ∈ l, ∀ y ∈ l, x = y := by
  constructor
  · intro hl x hx y hy
    obtain ⟨z, rfl⟩ := List.length_eq_one_iff.mp (le_antisymm hl (List.length_pos_of_mem hx))
    rw [List.mem_singleton.mp hx, List.mem_singleton.mp hy]
  · intro hone
    by_contra hlen
    obtain ⟨x, y, rest, rfl⟩ : ∃ x y rest, l = x :: y :: rest := by
      rcases l with _ | ⟨x, _ | ⟨y, rest⟩⟩
      · simp at hlen
      · simp at hlen
      · exact ⟨x, y, rest, rfl⟩
    have heq := hone x (by simp) y (by simp)
    exact (List.nodup_cons.mp h).1 (by simp [heq])

section Rows

variable {ops : List Op} {db : Db} (hid : IdsNameOps ops) (hdb : Shows db ops)
include hid hdb

/-- **The live parent rows are the live parent adds.** -/
theorem mem_liveParents {row : Row} : row ∈ liveParents db ↔
    ∃ child parent a, ParentAdd ops child parent a ∧ row = parentRow child parent a := by
  have hS : edgeTags ∈ tagSets := by simp [tagSets]
  have hsplit : row ∈ liveParents db ↔
      row ∈ presentRows edgeTags db ∧ row "kind" = .text EdgeKind.parent.asStr := by
    simp only [liveParents, presentRows, edgeTags, List.mem_filter, Bool.and_eq_true, beq_iff_eq]
    tauto
  rw [hsplit, presentRows, edgeTags.mem_present_rows hS hid hdb]
  constructor
  · rintro ⟨⟨a, ha, hf, hr, c, hc, rfl⟩, hk⟩
    change c ∈ edgeAdd a at hc
    unfold edgeAdd at hc
    cases hp : parseEdge a with
    | none => simp [hp] at hc
    | some e =>
      obtain ⟨f, t, k⟩ := e
      rw [hp] at hc
      obtain rfl := List.mem_singleton.mp hc
      have hk : k = EdgeKind.parent.asStr := by
        simpa [insertedRow, assign, Change.put, Effect.cells, List.lookup_cons] using hk
      subst hk
      exact ⟨f, t, a, ⟨ha, ⟨hf, hp⟩, hr⟩, rfl⟩
  · rintro ⟨child, parent, a, ⟨ha, ⟨hf, hp⟩, hr⟩, rfl⟩
    refine ⟨⟨a, ha, hf, hr, _, ?_, rfl⟩, rfl⟩
    change _ ∈ edgeAdd a
    unfold edgeAdd
    rw [hp]
    exact List.mem_singleton_self _

theorem mem_highestParents {row : Row} : row ∈ highestParents db ↔
    ∃ child parent a, ParentAdd ops child parent a ∧ row = parentRow child parent a ∧
      ∀ other x, ParentAdd ops child other x → ¬ opRank parent a < opRank other x := by
  rw [highestParents, List.mem_filter, mem_liveParents hid hdb]
  have hmax : ∀ child parent a, ((!(liveParents db).any fun b =>
      b "from_id" == parentRow child parent a "from_id" &&
        decide (parentRank (parentRow child parent a) < parentRank b)) = true ↔
      ∀ other x, ParentAdd ops child other x → ¬ opRank parent a < opRank other x) := by
    intro child parent a
    rw [Bool.not_eq_true', List.any_eq_false]
    constructor
    · intro h other x hx hlt
      refine h _ ((mem_liveParents hid hdb).mpr ⟨child, other, x, hx, rfl⟩) ?_
      simp only [Bool.and_eq_true, beq_iff_eq, decide_eq_true_eq]
      exact ⟨rfl, hlt⟩
    · intro h b hb hbeats
      obtain ⟨child', other, x, hx, rfl⟩ := (mem_liveParents hid hdb).mp hb
      simp only [Bool.and_eq_true, beq_iff_eq, decide_eq_true_eq] at hbeats
      cases hbeats.1
      exact h other x hx hbeats.2
  constructor
  · rintro ⟨⟨child, parent, a, ha, rfl⟩, h⟩
    exact ⟨child, parent, a, ha, rfl, (hmax child parent a).mp h⟩
  · rintro ⟨child, parent, a, ha, rfl, h⟩
    exact ⟨⟨child, parent, a, ha, rfl⟩, (hmax child parent a).mpr h⟩

/-- A parent the view gives a child is that of an add none outranks. -/
theorem mem_parentsIn {child parent : String} : parent ∈ parentsIn db child ↔
    ∃ a, ParentAdd ops child parent a ∧
      ∀ other x, ParentAdd ops child other x → ¬ opRank parent a < opRank other x := by
  simp only [parentsIn, presentParentRows, List.mem_map, List.mem_filter, beq_iff_eq]
  constructor
  · rintro ⟨e, ⟨⟨row, hrow, rfl⟩, rfl⟩, rfl⟩
    obtain ⟨child, parent, a, ha, rfl, h⟩ := (mem_highestParents hid hdb).mp hrow
    exact ⟨a, ha, h⟩
  · rintro ⟨a, ha, h⟩
    exact ⟨(child, parent), ⟨⟨_, (mem_highestParents hid hdb).mpr ⟨child, parent, a, ha, rfl, h⟩,
      rfl⟩, rfl⟩, rfl⟩

/-- `get_item` reads the first row of the join. -/
theorem presentParent_eq_head (child : String) :
    presentParent db child = (parentsIn db child).head? := by
  have hrow : ∀ row ∈ liveParents db, ∃ c p, row "from_id" = .text c ∧ row "to_id" = .text p := by
    intro row h
    obtain ⟨c, p, a, _, rfl⟩ := (mem_liveParents hid hdb).mp h
    exact ⟨c, p, rfl, rfl⟩
  have hhead : (parentsIn db child).head? =
      ((liveParents db).find? (isHighest db child)).map fun row => columnText row "to_id" := by
    unfold parentsIn presentParentRows highestParents
    simp only [List.head?_map, List.head?_filter, List.find?_map, List.find?_filter,
      Option.map_map]
    congr 1
    refine List.find?_congr fun a ha => ?_
    obtain ⟨c, p, hc, hp⟩ := hrow a ha
    by_cases h : c = child
    · subst h
      rw [Bool.eq_iff_iff]
      simp [isHighest, columnText, hc, cellText]
    · simp [isHighest, columnText, hc, cellText, h]
  rw [hhead, presentParent_eq]
  cases hf : (liveParents db).find? (isHighest db child) with
  | none => rfl
  | some a =>
    obtain ⟨c, p, _, hp⟩ := hrow a (List.mem_of_find?_eq_some hf)
    simp [columnText, hp, cellText]

/-- The rows of `edge_adds` are told apart by their tags. -/
theorem nodup_highestParents : (highestParents db).Nodup := by
  have hS : edgeTags ∈ tagSets := by simp [tagSets]
  have hscan : ((db.scan "edge_adds").map fun row => [("tag", row "tag")]).Nodup := by
    refine Db.nodup_scan fun k row hrow => ?_
    rw [hdb "edge_adds" (by decide) k] at hrow
    obtain ⟨a, _, _, c, hc, rfl, rfl⟩ := (edgeTags.rowsOf_adds hS hid).mp hrow
    obtain ⟨_, cells, rfl⟩ := edgeTags.add_eq hS hc
    rfl
  exact (List.Nodup.of_map _ hscan).sublist (List.filter_sublist.trans List.filter_sublist)

/-- **A child has one row exactly when its highest adds are not tied.** -/
theorem parentsIn_le_one (child : String) :
    (parentsIn db child).length ≤ 1 ↔ ¬ TiedParents ops child := by
  have hlen : (parentsIn db child).length =
      ((highestParents db).filter fun row => columnText row "from_id" == child).length := by
    simp [parentsIn, presentParentRows, List.filter_map, Function.comp_def]
  have hmem : ∀ row, row ∈ (highestParents db).filter (fun row => columnText row "from_id" == child) ↔
      ∃ parent a, ParentAdd ops child parent a ∧ row = parentRow child parent a ∧
        ∀ other x, ParentAdd ops child other x → ¬ opRank parent a < opRank other x := by
    intro row
    rw [List.mem_filter, mem_highestParents hid hdb]
    constructor
    · rintro ⟨⟨child', parent, a, ha, rfl, h⟩, hchild⟩
      cases eq_of_beq hchild
      exact ⟨parent, a, ha, rfl, h⟩
    · rintro ⟨parent, a, ha, rfl, h⟩
      exact ⟨⟨child, parent, a, ha, rfl, h⟩, beq_iff_eq.mpr rfl⟩
  rw [hlen, length_le_one_iff ((nodup_highestParents hid hdb).filter _)]
  constructor
  · rintro hone ⟨parent, a, b, ha, hb, hne, hcoord, hmax⟩
    have hrank : opRank parent a = opRank parent b := by
      obtain ⟨hl, hs⟩ := Prod.ext_iff.mp hcoord
      change a.lamport = b.lamport at hl
      change a.site = b.site at hs
      rw [opRank, opRank, hl, hs]
    have heq := hone _ ((hmem _).mpr ⟨parent, a, ha, rfl, hmax⟩) _
      ((hmem _).mpr ⟨parent, b, hb, rfl, by rwa [← hrank]⟩)
    exact hne (Cell.text.inj (congrFun heq "tag"))
  · intro hfree x hx y hy
    obtain ⟨p, a, ha, rfl, hmaxa⟩ := (hmem x).mp hx
    obtain ⟨q, b, hb, rfl, hmaxb⟩ := (hmem y).mp hy
    -- neither outranks the other, so lamport, site and parent agree
    have hrank : opRank p a = opRank q b :=
      le_antisymm (not_lt.mp (hmaxb p a ha)) (not_lt.mp (hmaxa q b hb))
    have hfst := congrArg (fun r => (ofLex r).1) hrank
    have hsnd := congrArg (fun r => (ofLex (ofLex r).2).1) hrank
    obtain rfl : p = q := congrArg (fun r => (ofLex (ofLex r).2).2) hrank
    by_cases htag : a.opId = b.opId
    · rw [hid a ha.1 b hb.1 (foldedAs_iff.mp ha.2.1.1).1 (foldedAs_iff.mp hb.2.1.1).1 htag]
    · exact absurd ⟨p, a, b, ha, hb, htag, Prod.ext hfst hsnd, hmaxa⟩ hfree

theorem present_of_parentAdd {child parent : String} {a : Op} (ha : ParentAdd ops child parent a) :
    edgeSet.present db (child, parent, .parent) :=
  (edge_present_iff hid hdb _).mpr ⟨a.opId, a, ha.1, ha.2.1, rfl,
    fun r hr hrem hn => ha.2.2 ⟨r, hr, hrem, hn⟩⟩

/-- The view has a row for the child exactly when a parent edge of it is present. -/
theorem parentsIn_ne_nil (child : String) : parentsIn db child ≠ [] ↔
    ∃ parent, edgeSet.present db (child, parent, .parent) := by
  constructor
  · intro h
    obtain ⟨parent, hp⟩ := List.exists_mem_of_ne_nil _ h
    obtain ⟨a, ha, _⟩ := (mem_parentsIn hid hdb).mp hp
    exact ⟨parent, present_of_parentAdd hid hdb ha⟩
  · rintro ⟨parent, hp⟩
    obtain ⟨tag, a, ha, hadds, rfl, hlive⟩ := (edge_present_iff hid hdb _).mp hp
    have hadd : ParentAdd ops child parent a :=
      ⟨ha, hadds, fun ⟨r, hr, hrem, hn⟩ => hlive r hr hrem hn⟩
    obtain ⟨row, hrow, hchild, hmax⟩ := exists_highest parentRank
      (p := fun row => row "from_id" == .text child)
      ⟨_, (mem_liveParents hid hdb).mpr ⟨child, parent, a, hadd, rfl⟩, beq_iff_eq.mpr rfl⟩
    obtain ⟨child', other, x, hx, rfl⟩ := (mem_liveParents hid hdb).mp hrow
    obtain rfl : child' = child := Cell.text.inj (eq_of_beq hchild)
    refine List.ne_nil_of_mem (a := other) ((mem_parentsIn hid hdb).mpr ⟨x, hx, fun q y hy => ?_⟩)
    exact hmax _ ((mem_liveParents hid hdb).mpr ⟨_, q, y, hy, rfl⟩) (beq_iff_eq.mpr rfl)

end Rows

/-! ## The items -/

section Items

variable {ops : List Op} {db : Db} (hdb : Shows db ops)
include hdb

/-- A row of `items` carries its key. -/
theorem items_key {k : Cells} {row : Row} (h : db.get "items" k = some row) :
    ∃ id, k = itemKey id ∧ row "id" = .text id := by
  rw [hdb "items" (by decide) k] at h
  by_cases hk : ∃ id, k = [("id", .text id)]
  · obtain ⟨id, rfl⟩ := hk
    rw [rowsOf_items] at h
    have hcol : ∀ f ∈ itemLwwFields, "id" ∉ regColumns f := by decide
    rw [itemStep_frame itemOps_field (fun op hop => (mem_itemOps.mp hop).2.2) hcol h]
    exact ⟨id, rfl, rfl⟩
  · rw [rowsOf_items_other ops fun id hid => hk ⟨id, hid⟩] at h
    cases h

theorem mem_itemIds {id : String} : id ∈ itemIds db ↔ ∃ item, getItem db id = some item := by
  rw [itemIds, List.mem_insertionSort, List.mem_filterMap]
  constructor
  · rintro ⟨row, hrow, hid⟩
    obtain ⟨k, hk⟩ := Db.mem_scan_iff.mp hrow
    obtain ⟨id', rfl, hrowid⟩ := items_key hdb hk
    obtain rfl : id' = id := by simpa [hrowid, cellText] using hid
    exact ⟨_, by rw [getItem, hk]; rfl⟩
  · rintro ⟨item, hitem⟩
    obtain ⟨row, hrow, _⟩ := Option.map_eq_some_iff.mp hitem
    obtain ⟨id', hk, hid⟩ := items_key hdb hrow
    obtain rfl := itemKey_inj.mp hk
    exact ⟨row, Db.mem_scan_iff.mpr ⟨_, hrow⟩, by rw [hid]; rfl⟩

theorem nodup_itemIds : (itemIds db).Nodup := by
  refine (List.perm_insertionSort _ _).nodup_iff.mpr ?_
  have hscan : ((db.scan "items").map fun row => [("id", row "id")]).Nodup := by
    refine Db.nodup_scan fun k row hrow => ?_
    obtain ⟨id, rfl, hid⟩ := items_key hdb hrow
    rw [hid]
    rfl
  rw [List.Nodup, List.pairwise_map] at hscan
  refine List.Pairwise.filterMap _ (fun row row' hne id hid id' hid' heq => hne ?_) hscan
  rw [cellText_iff.mp hid, cellText_iff.mp hid', heq]

/-- The rows of an item stand under its id, one for each parent the view gives it. -/
theorem ids_itemRows {id : String} (h : id ∈ itemIds db) :
    (itemRows db id).map ItemRow.id = List.replicate (max 1 (parentsIn db id).length) id := by
  obtain ⟨item, hitem⟩ := (mem_itemIds hdb).mp h
  have hid : item.id = id := by
    obtain ⟨row, _, rfl⟩ := Option.map_eq_some_iff.mp hitem
    rfl
  have hjoin : (joinedParents db id).length = max 1 (parentsIn db id).length := by
    unfold joinedParents
    cases parentsIn db id <;> simp
  rw [itemRows, hitem, ← hjoin]
  simp only [Option.toList_some, List.flatMap_cons, List.flatMap_nil, List.append_nil, List.map_map]
  rw [List.eq_replicate_iff]
  refine ⟨by simp, fun x hx => ?_⟩
  obtain ⟨_, _, rfl⟩ := List.mem_map.mp hx
  exact hid

/-- With one parent a child, ids list once. -/
theorem ids_flatMap_itemRows (hone : ∀ child, (parentsIn db child).length ≤ 1) {ids : List String}
    (h : ∀ id ∈ ids, id ∈ itemIds db) : (ids.flatMap (itemRows db)).map ItemRow.id = ids := by
  induction ids with
  | nil => rfl
  | cons id ids ih =>
    rw [List.flatMap_cons, List.map_append, ids_itemRows hdb (h id List.mem_cons_self),
      max_eq_left (hone id), ih fun x hx => h x (List.mem_cons_of_mem id hx)]
    rfl

/-- With one parent a child, `get_items` repeats an item exactly when two chunks ask for it. -/
theorem nodup_getItems (hone : ∀ child, (parentsIn db child).length ≤ 1) (ids : List String) :
    ((getItems db ids).map ItemRow.id).Nodup ↔ AskedOnce db ids := by
  have hchunk : ∀ chunk, (getChunk db chunk).map ItemRow.id =
      (itemIds db).filter fun id => chunk.contains id := fun chunk =>
    ids_flatMap_itemRows hdb hone fun id hid => (List.mem_filter.mp hid).1
  rw [getItems, List.map_flatMap, List.nodup_flatMap]
  simp only [hchunk]
  constructor
  · rintro ⟨_, hdisj⟩
    refine hdisj.imp fun h id hid hc hd => h (a := id) ?_ ?_
    · exact List.mem_filter.mpr ⟨hid, by simpa using hc⟩
    · exact List.mem_filter.mpr ⟨hid, by simpa using hd⟩
  · intro h
    refine ⟨fun _ _ => (nodup_itemIds hdb).filter _, h.imp fun h id hc hd => ?_⟩
    obtain ⟨hid, hc⟩ := List.mem_filter.mp hc
    exact h id hid (by simpa using hc) (by simpa using (List.mem_filter.mp hd).2)

end Items

/-! ## Every log -/

/-- **One current parent a child**, in every state a run of local writes and received ops reaches and
for every `get_items` call: exactly when no child's highest live adds of one parent share a
coordinate, and no item is asked for in two chunks. -/
theorem one_parent_iff {site : Int} {key : ReplicaKey} {ulids : Nat → String} {s₀ s : Store}
    (h₀ : openInMemory site key ulids = some s₀) (h : ReflTransGen TaskStep s₀ s)
    (ids : List String) : OneParent s.file.views ids ↔
      (∀ child, ¬ TiedParents s.file.log child) ∧ AskedOnce s.file.views ids := by
  rw [openInMemory_eq] at h₀
  cases h₀
  have hs := (foldInv_freshStore site key ulids).toLogInv.run h
  have hid : IdsNameOps s.file.log := idsNameOps_of_nodup hs.nodup
  have hdb : Shows s.file.views s.file.log := hs.shows
  constructor
  · intro hone
    exact ⟨fun child => (parentsIn_le_one hid hdb child).mp (hone.unique child),
      (nodup_getItems hdb hone.unique ids).mp hone.gotten⟩
  · rintro ⟨hfree, hasked⟩
    have hone : ∀ child, (parentsIn s.file.views child).length ≤ 1 := fun child =>
      (parentsIn_le_one hid hdb child).mpr (hfree child)
    refine ⟨hone, parentsIn_ne_nil hid hdb, fun child parent hp => ?_, ?_, ?_⟩
    · obtain ⟨a, ha, _⟩ := (mem_parentsIn hid hdb).mp hp
      exact present_of_parentAdd hid hdb ha
    · rw [listItems, ids_flatMap_itemRows hdb hone fun _ hid => hid]
      exact nodup_itemIds hdb
    · exact (nodup_getItems hdb hone ids).mpr hasked

/-- A parent add received at coordinate `(5, 7)`. -/
def parentAtFive (opId : String) : Op :=
  ⟨opId, 5, 7, domainTask, "edge", joinChar sep ["aaaa.1", "aaaa.2", "parent"], "present", "add",
    none, "alice", "", none, none⟩

/-- The child's row, and two parent adds of one foreign site on one coordinate. -/
def tiedStore : Store :=
  ((freshStore 1 silentKey toString).apply
    [titleAtFive "01A" "first", parentAtFive "01B", parentAtFive "01C"]).2

/-- The child has its parent twice, and both reads return the item twice. -/
theorem present_parent_twice :
    (∃ s₀, openInMemory 1 silentKey toString = some s₀ ∧ ReflTransGen TaskStep s₀ tiedStore) ∧
      parentsIn tiedStore.file.views "aaaa.1" = ["aaaa.2", "aaaa.2"] ∧
      (listItems tiedStore.file.views).map ItemRow.id = ["aaaa.1", "aaaa.1"] ∧
      (getItems tiedStore.file.views ["aaaa.1"]).map ItemRow.id = ["aaaa.1", "aaaa.1"] ∧
      ¬ OneParent tiedStore.file.views ["aaaa.1"] := by
  have htwice : parentsIn tiedStore.file.views "aaaa.1" = ["aaaa.2", "aaaa.2"] := by decide
  refine ⟨⟨_, openInMemory_eq 1 silentKey toString, .single (.received _)⟩, htwice,
    by decide, by decide, fun h => ?_⟩
  have hone := h.unique "aaaa.1"
  rw [htwice] at hone
  exact absurd hone (by decide)

/-- The second add one Lamport number later. -/
def laterStore : Store :=
  ((freshStore 1 silentKey toString).apply
    [titleAtFive "01A" "first", parentAtFive "01B", { parentAtFive "01C" with lamport := 6 }]).2

/-- Then the child has its parent once, and the reads return the item once. -/
theorem one_parent_later : OneParent laterStore.file.views ["aaaa.1"] := by
  refine (one_parent_iff (openInMemory_eq 1 silentKey toString) (.single (.received _)) _).mpr
    ⟨fun child => ?_, List.pairwise_singleton _ _⟩
  have hapart : ∀ a ∈ laterStore.file.log, ∀ b ∈ laterStore.file.log,
      foldedAs "edge" "add" a = true → foldedAs "edge" "add" b = true →
        a.coordinate = b.coordinate → a.opId = b.opId := by decide
  rintro ⟨parent, a, b, ⟨ha, hadda, _⟩, ⟨hb, haddb, _⟩, hne, hcoord, _⟩
  exact hne (hapart a ha b hb hadda.1 haddb.1 hcoord)

end NexusFlow.Facade
