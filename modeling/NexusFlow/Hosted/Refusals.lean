import NexusFlow.Core.ArrivalOrder
import NexusFlow.Hosted.Fold
import NexusFlow.Hosted.IndexAttributes
import NexusFlow.Lib.Fallible

/-!
# A refused op leaves the stream untouched

An op is refused before its first write when a key, a partition, a write or an item row would pass
its limit (`crates/fold-ddb/src/fold.rs:201-323`). What is weighed is the item row as if the write
applied, with the index attributes its cells then call for.

* `Weighed`: no item row passes the limit with these attributes, in any state folds reach.
* `wp_refreshItem`: in such a state the write of the index attributes is never refused.
* `fold_refuses_or_indexes`: a refused op changes no row; after any other one each item row it was
  about carries its index attributes, and none of their writes was refused.
-/

namespace NexusFlow.Hosted

open NexusFlow.Foundation NexusFlow.Core NexusFlow.Chat NexusFlow.Memory NexusFlow.Lib

/-! ## Requests that leave the item rows alone -/

/-- A request that writes or deletes no item row. -/
def Off : Call → Prop
  | .write w => isItemKey w.sk = false
  | .delete key => isItemKey key = false
  | _ => True

/-- The item rows are the same. -/
def SameItems (t t' : MemTable) : Prop :=
  t'.stream = t.stream ∧ ∀ key, isItemKey key = true → t'.rows.get key = t.rows.get key

theorem SameItems.refl (t : MemTable) : SameItems t t := ⟨rfl, fun _ _ => rfl⟩

theorem SameItems.trans {a b c : MemTable} (hab : SameItems a b) (hbc : SameItems b c) :
    SameItems a c :=
  ⟨hbc.1.trans hab.1, fun key hkey => (hbc.2 key hkey).trans (hab.2 key hkey)⟩

/-- **One write**: kept, refused, or applied. -/
theorem write_cases (t : MemTable) (w : Write) : t.write w = (.kept, t) ∨
    (t.write w = (.tooLarge, t) ∧
      maxItemBytes < MemTable.rowBytes (MemTable.update (t.rowAt w.sk) w)) ∨
    t.write w = (.written,
      ⟨t.stream, t.rows.insert w.sk (MemTable.update (t.rowAt w.sk) w)⟩) := by
  unfold MemTable.write
  split_ifs with hkept hlarge
  · exact .inl rfl
  · exact .inr (.inl ⟨rfl, hlarge⟩)
  · exact .inr (.inr rfl)

theorem sameItems_of_off {e : Call} (he : Off e) {t t' : MemTable} {r : Reply e}
    (h : t.answer e = (r, t')) : SameItems t t' := by
  cases e with
  | get key =>
    cases h
    exact .refl t
  | queryPrefix pre =>
    cases h
    exact .refl t
  | queryActive =>
    cases h
    exact .refl t
  | delete key =>
    cases h
    refine ⟨rfl, fun k hk => ?_⟩
    have hne : k ≠ key := by
      rintro rfl
      rw [he] at hk
      cases hk
    change (t.rows.erase key).get k = t.rows.get k
    rw [KeyMap.get_erase, if_neg hne]
  | write w =>
    have ht' : t' = (t.write w).2 := (congrArg Prod.snd h).symm
    rw [ht']
    rcases write_cases t w with hw | ⟨hw, _⟩ | hw
    · rw [hw]
      exact .refl t
    · rw [hw]
      exact .refl t
    · rw [hw]
      refine ⟨rfl, fun k hk => ?_⟩
      have hne : k ≠ w.sk := by
        rintro rfl
        rw [he] at hk
        cases hk
      change (t.rows.insert w.sk _).get k = t.rows.get k
      rw [KeyMap.get_insert, if_neg hne]

/-! ## The keys beside the rows -/

theorem isItemKey_append {name rest : String} {c : Char} {cs : List Char}
    (hname : name.toList = c :: cs) (hc : c ≠ 'i') : isItemKey (name ++ rest) = false := by
  have hlist : (name ++ rest).toList = c :: (cs ++ rest.toList) := by
    rw [String.toList_append, hname, List.cons_append]
  exact isItemKey_eq_false hlist hc

/-- No entry of the fold's own is an item row. -/
theorem isItemKey_entries (a b c : String) : isItemKey (adjacencyKey a b) = false ∧
    isItemKey (refAdjacencyKey a b c) = false ∧ isItemKey (refSourceKey a b c) = false ∧
    ∀ owned ∈ allOwned, isItemKey (owned.key a b) = false := by
  have hdot : ∀ {name rest : String} {cs : List Char}, name.toList = '.' :: cs →
      isItemKey (name ++ rest) = false := fun h => isItemKey_append h (by decide)
  refine ⟨?_, ?_, ?_, ?_⟩
  · unfold adjacencyKey adjacencyPrefix
    rw [String.append_assoc, String.append_assoc]
    exact hdot rfl
  · unfold refAdjacencyKey refAdjacencyPrefix
    rw [String.append_assoc, String.append_assoc, String.append_assoc, String.append_assoc]
    exact hdot rfl
  · unfold refSourceKey refSourcePrefix
    rw [String.append_assoc, String.append_assoc, String.append_assoc, String.append_assoc]
    exact hdot rfl
  · intro owned howned
    simp only [allOwned, List.mem_cons, List.not_mem_nil, or_false] at howned
    rcases howned with rfl | rfl | rfl
    · change isItemKey (labelAdjacencyKey a b) = false
      unfold labelAdjacencyKey labelAdjacencyPrefix
      rw [String.append_assoc, String.append_assoc]
      exact hdot rfl
    · change isItemKey (linkAdjacencyKey a b) = false
      unfold linkAdjacencyKey linkAdjacencyPrefix
      rw [String.append_assoc, String.append_assoc]
      exact hdot rfl
    · change isItemKey (contributesAdjacencyKey a b) = false
      unfold contributesAdjacencyKey contributesAdjacencyPrefix
      rw [String.append_assoc, String.append_assoc]
      exact hdot rfl

theorem isItemKey_edge (tag : String) : isItemKey (tagKey "edge_adds" tag) = false := by
  have hkey : rowKey "edge_adds" [("tag", .text tag)] = .ok (tagKey "edge_adds" tag) := by
    unfold tagKey
    rw [rowKey_text]
    rfl
  rw [Bool.eq_false_iff]
  intro h
  exact absurd ((isItemKey_rowKey (by decide) hkey).mp h) (by decide)

/-! ## The programs of `after` that leave the item rows alone -/

section Programs

variable {stream : String}

theorem off_anyActive (known : Option (String × Bool)) (ends : List String) :
    (anyActive known ends).Calls Off := by
  induction ends with
  | nil => trivial
  | cons endId ends ih =>
    refine Prog.calls_bind ?_ fun active => ?_
    · unfold endActive
      cases known.filter fun k => k.1 == endId with
      | some k => trivial
      | none => exact Prog.calls_perform trivial fun _ => trivial
    · cases active with
      | true => trivial
      | false => exact ih

theorem off_flagEdge (tag : String) (edge : Row) (removed : Option Bool)
    (known : Option (String × Bool)) : (flagEdge stream tag edge removed known).Calls Off := by
  refine Prog.calls_bind ?_ fun present => Prog.calls_bind (off_anyActive known _) fun flag => ?_
  · unfold edgePresent
    split_ifs
    · cases removed with
      | some removed => trivial
      | none => exact Prog.calls_perform trivial fun _ => trivial
    · trivial
  · have hflag : Off (.write (if flag then
        ⟨tagKey "edge_adds" tag, [(Attr.active, .text stream)], [], some .rowPresent⟩
        else ⟨tagKey "edge_adds" tag, [], [Attr.active], some .rowPresent⟩)) := by
      cases flag <;> exact isItemKey_edge tag
    cases flag == edge.contains Attr.active with
    | true => trivial
    | false => exact Prog.calls_perform hflag fun _ => trivial

theorem off_linkEdge (tag : String) : (linkEdge stream tag).Calls Off := by
  refine Prog.calls_perform trivial fun add => ?_
  cases add with
  | none => trivial
  | some edge =>
    refine Prog.calls_perform trivial fun remove => Prog.calls_bind ?_ fun _ => off_flagEdge ..
    exact Prog.calls_each fun endId _ =>
      Prog.calls_perform (isItemKey_entries endId tag "").1 fun _ => trivial

theorem off_refreshTouching (id : String) (active : Bool) (entry : Row) :
    (refreshTouching stream id active entry).Calls Off := by
  unfold refreshTouching
  cases entry.text "tag" with
  | none => trivial
  | some tag =>
    refine Prog.calls_perform trivial fun add => ?_
    cases add with
    | none => trivial
    | some edge => exact off_flagEdge ..

theorem off_refreshOwned {owned : Owned} (howned : owned ∈ allOwned) (tag : String) :
    (refreshOwned owned tag).Calls Off := by
  refine Prog.calls_perform trivial fun add => ?_
  cases add with
  | none => trivial
  | some add =>
    change (refreshOwnedAdd owned add tag).Calls Off
    unfold refreshOwnedAdd
    split_ifs
    · refine Prog.calls_perform trivial fun remove => ?_
      cases hw : ownedWrite owned add tag remove.isSome with
      | none => trivial
      | some w =>
        refine Prog.calls_perform ?_ fun _ => trivial
        unfold ownedWrite at hw
        rw [if_pos ‹_›] at hw
        obtain ⟨item, _, rfl⟩ := Option.map_eq_some_iff.mp hw
        exact (isItemKey_entries item tag "").2.2.2 owned howned
    · trivial

theorem off_linkRef (source field value : String) : (linkRef source field value).Calls Off := by
  refine Prog.calls_perform (isItemKey_entries value field source).2.1 fun outcome => ?_
  split_ifs
  · trivial
  · exact Prog.calls_perform (isItemKey_entries source field value).2.2.1 fun _ => trivial

theorem off_unlinkRef (source field value : String) : (unlinkRef source field value).Calls Off :=
  Prog.calls_perform (isItemKey_entries value field source).2.1 fun _ =>
    ⟨(isItemKey_entries source field value).2.2.1, fun _ => trivial⟩

theorem off_reconcileRefs (item field : String) (touched : Bool) :
    (reconcileRefs item field touched).Calls Off := by
  refine Prog.calls_perform trivial fun mirrors => ?_
  dsimp only
  split_ifs
  · trivial
  · refine Prog.calls_perform trivial fun register => Prog.calls_perform trivial fun entries => ?_
    refine Prog.calls_bind (Prog.calls_collect fun v _ => off_linkRef item field v) fun _ => ?_
    exact Prog.calls_bind (Prog.calls_each fun v _ => off_unlinkRef item field v) fun _ => trivial

end Programs

/-- A request that changes nothing. -/
def Looks : Call → Prop
  | .write _ | .delete _ => False
  | _ => True

theorem answer_of_looks {e : Call} (he : Looks e) (t : MemTable) : (t.answer e).2 = t := by
  cases e with
  | write w => cases he
  | delete key => cases he
  | _ => rfl

/-! ## The invariant -/

/-- **No item row passes the limit** with the index attributes its cells call for, and the ones it
has are the fold's own. -/
structure Weighed (stream : String) (t : MemTable) : Prop where
  stream_eq : t.stream = stream
  item : ∀ key row, isItemKey key = true → t.rows.get key = some row →
    ∃ id, key = itemKey id ∧ row.text "id" = some id ∧ Shaped stream row ∧
      indexedBytes stream id row ≤ maxItemBytes

/-- The write of an item's index attributes fits. -/
def Fits : Call → MemTable → Prop
  | .write w, t => isItemKey w.sk = true → w.condition = some .rowPresent →
      (t.write w).1 ≠ .tooLarge
  | _, _ => True

/-- One fold alone at the table. -/
abbrev alone (stream : String) : Prog.Discipline Call Reply MemTable :=
  Prog.atMachine MemTable.answer fun e t => Weighed stream t ∧ Fits e t

section Invariant

variable {stream : String} {t t' : MemTable}

theorem Weighed.of_sameItems (h : Weighed stream t) (hs : SameItems t t') : Weighed stream t' := by
  refine ⟨hs.1.trans h.stream_eq, fun key row hkey hrow => ?_⟩
  rw [hs.2 key hkey] at hrow
  exact h.item key row hkey hrow

theorem fits_of_off {e : Call} (he : Off e) : Fits e t := by
  cases e with
  | write w =>
    intro hkey
    rw [he] at hkey
    cases hkey
  | _ => trivial

/-- A program that leaves the item rows alone. -/
theorem wp_off {α : Type} {p : Requests α} (hp : p.Calls Off) (ht : Weighed stream t) :
    p.wp (alone stream) (fun _ t' => Weighed stream t' ∧ SameItems t t') t := by
  refine Prog.wp_of_calls (P := Off) (Q := fun t' => Weighed stream t' ∧ SameItems t t')
    ?_ ?_ ?_ hp ⟨ht, .refl t⟩
  · rintro a b rfl h
    exact h
  · intro e a he h
    exact ⟨h.1, fits_of_off he⟩
  · intro e a r b he h hpost
    have hab : SameItems a b := sameItems_of_off he hpost
    exact ⟨h.1.of_sameItems hab, h.2.trans hab⟩

/-- A write of a row that weighs no more than the limit. -/
theorem weighed_insert (ht : Weighed stream t) {id : String} {row : Row}
    (hid : row.text "id" = some id) (hshaped : Shaped stream row)
    (hbytes : indexedBytes stream id row ≤ maxItemBytes) :
    Weighed stream ⟨t.stream, t.rows.insert (itemKey id) row⟩ := by
  refine ⟨ht.stream_eq, fun key row' hkey hrow => ?_⟩
  rw [KeyMap.get_insert] at hrow
  split_ifs at hrow with heq
  · cases hrow
    exact ⟨id, heq, hid, hshaped, hbytes⟩
  · exact ht.item key row' hkey hrow

/-- **`refresh_item`**: the write of the index attributes is never refused, and leaves the row with
exactly the attributes its cells call for. -/
theorem wp_refreshItem (ht : Weighed stream t) (id : String) :
    (refreshItem stream id).wp (alone stream) (fun outcome t' => Weighed stream t' ∧
      outcome ≠ some .tooLarge ∧
      (∀ row, t'.rows.get (itemKey id) = some row → Indexed stream id row) ∧
      ∀ key, isItemKey key = true → key ≠ itemKey id → t'.rows.get key = t.rows.get key) t := by
  refine Prog.wp_atMachine ⟨ht, trivial⟩ ?_
  rw [show t.answer (.get (itemKey id)) = (t.rows.get (itemKey id), t) from rfl]
  cases hrow : t.rows.get (itemKey id) with
  | none =>
    refine Prog.wp_atMachine_pure ⟨ht, by simp, fun row h => ?_, fun _ _ _ => rfl⟩
    rw [hrow] at h
    cases h
  | some row =>
    obtain ⟨id', hkey, hid, hshaped, hbytes⟩ :=
      ht.item _ row (isItemKey_itemKey id) hrow
    obtain rfl := itemKey_inj hkey
    have hedges : (refreshEdges stream id row).Calls Off := by
      unfold refreshEdges
      split_ifs
      · trivial
      · exact Prog.calls_perform trivial fun entries =>
          Prog.calls_each fun entry _ => off_refreshTouching id _ entry
    refine Prog.wp_bind Prog.atMachine_rely (Prog.wp_mono ?_ (wp_off hedges ht))
    rintro _ t₁ ⟨ht₁, hsame⟩
    have hrow₁ : t₁.rows.get (itemKey id) = some row :=
      (hsame.2 _ (isItemKey_itemKey id)).trans hrow
    have hattr := @indexUpdate_get stream id _ hshaped
    have hother := fun a (ha : a ∉ indexNames) => get_indexWrite_other stream id row ha
    dsimp only
    split_ifs with hempty
    · -- nothing to write: the row carries its attributes already
      refine Prog.wp_atMachine_pure ⟨ht₁, by simp, fun row' hrow' => ?_,
        fun key hk _ => hsame.2 key hk⟩
      rw [hrow₁] at hrow'
      cases hrow'
      simp only [Bool.and_eq_true, List.isEmpty_iff] at hempty
      intro a ha
      rw [← hattr a ha, get_update, hempty.1, hempty.2]
      rfl
    · -- the row there fits with its new attributes, so the write is applied
      have hwrite : t₁.write (indexWrite stream id row) = (.written,
          ⟨t₁.stream, t₁.rows.insert (itemKey id)
            (MemTable.update row (indexWrite stream id row))⟩) := by
        have hat : t₁.rowAt (itemKey id) = row := by
          unfold MemTable.rowAt
          rw [hrow₁, Option.getD_some]
        have hfits : ¬ maxItemBytes < MemTable.rowBytes
            (MemTable.update row (indexWrite stream id row)) := by
          rw [rowBytes_eq hother hattr]
          exact not_lt.mpr hbytes
        unfold MemTable.write
        rw [show (indexWrite stream id row).sk = itemKey id from rfl,
          show (indexWrite stream id row).condition = some .rowPresent from rfl, hrow₁, hat,
          if_neg (by simp [Cond.holds]), if_neg hfits]
      refine Prog.wp_atMachine ⟨ht₁, fun _ _ => by rw [hwrite]; simp⟩ ?_
      rw [show t₁.answer (.write (indexWrite stream id row)) =
        t₁.write (indexWrite stream id row) from rfl, hwrite]
      have hshaped' := shaped_of_attributes hattr
      have hcongr : ∀ a ∉ indexNames, row.get a =
          (MemTable.update row (indexWrite stream id row)).get a := fun a ha => (hother a ha).symm
      refine Prog.wp_atMachine_pure ⟨?_, by simp, fun row' hrow' => ?_, fun key hk hne => ?_⟩
      · refine weighed_insert ht₁ ?_ hshaped' ?_
        · rw [← hid]
          exact text_congr (hother "id" (by decide))
        · rwa [← indexedBytes_congr hcongr]
      · change (t₁.rows.insert (itemKey id) _).get (itemKey id) = some row' at hrow'
        rw [KeyMap.get_insert, if_pos rfl] at hrow'
        cases hrow'
        intro a ha
        rw [hattr a ha, indexAttributes_congr hcongr]
      · change (t₁.rows.insert (itemKey id) _).get key = _
        rw [KeyMap.get_insert, if_neg hne]
        exact hsame.2 key hk

/-- The item rows of an op, one after another. -/
theorem wp_refreshItems (ht : Weighed stream t) (ids : List String) :
    (Prog.collect (fun id => do
      let outcome ← refreshItem stream id
      pure (if outcome = some .tooLarge then ["the index attributes of item " ++ id] else []))
      ids : Requests (List String)).wp (alone stream) (fun unwritten t' => Weighed stream t' ∧
        unwritten = [] ∧
        (∀ id ∈ ids, ∀ row, t'.rows.get (itemKey id) = some row → Indexed stream id row) ∧
        ∀ key, isItemKey key = true → key ∉ ids.map itemKey →
          t'.rows.get key = t.rows.get key) t := by
  induction ids generalizing t with
  | nil => exact Prog.wp_atMachine_pure ⟨ht, rfl, by simp, fun _ _ _ => rfl⟩
  | cons id ids ih =>
    refine Prog.wp_bind Prog.atMachine_rely (Prog.wp_bind Prog.atMachine_rely
      (Prog.wp_mono ?_ (wp_refreshItem ht id)))
    rintro outcome t₁ ⟨ht₁, hfit, hindexed, hsame⟩
    rw [if_neg hfit]
    refine Prog.wp_atMachine_pure ?_
    refine Prog.wp_bind Prog.atMachine_rely (Prog.wp_mono ?_ (ih ht₁))
    rintro unwritten t₂ ⟨ht₂, rfl, hrest, hsame₂⟩
    refine Prog.wp_atMachine_pure ⟨ht₂, rfl, fun j hj row hrow => ?_, fun key hkey hno => ?_⟩
    · by_cases hmem : j ∈ ids
      · exact hrest j hmem row hrow
      · obtain rfl : j = id := by simpa [hmem] using hj
        have hno : itemKey j ∉ ids.map itemKey := by
          intro hmap
          obtain ⟨k, hk, hkey⟩ := List.mem_map.mp hmap
          exact hmem (itemKey_inj hkey ▸ hk)
        rw [hsame₂ _ (isItemKey_itemKey j) hno] at hrow
        exact hindexed row hrow
    · rw [List.map_cons, List.mem_cons, not_or] at hno
      rw [hsame₂ key hkey hno.2, hsame key hkey hno.1]

/-- **`after`**: each item row of the op ends with exactly its index attributes. -/
theorem wp_after (ht : Weighed stream t) (changes : List Change) :
    (after stream changes).wp (alone stream) (fun _ t' => Weighed stream t' ∧
      ∀ id ∈ touchedKeys "items" "id" changes, ∀ row, t'.rows.get (itemKey id) = some row →
        Indexed stream id row) t := by
  refine Prog.wp_bind Prog.atMachine_rely (Prog.wp_mono ?_ (wp_refreshItems ht _))
  rintro _ t₁ ⟨ht₁, -, hindexed, -⟩
  have hrest : ∀ items : List String, (do
      Prog.each (linkEdge stream) (touchedKeys "edge_adds" "tag" changes)
      Prog.each (linkEdge stream) (touchedKeys "edge_removes" "tag" changes)
      Prog.each (fun t => refreshOwned t.1 t.2) (ownedTags changes)
      let refs ← Prog.collect (fun place => do
          let keys ← reconcileRefs place.1.1 place.1.2 place.2
          pure (keys.map fun key => "the reverse-reference row " ++ key))
        (places changes)
      pure (items ++ refs) : Requests (List String)).Calls Off := by
    intro items
    refine Prog.calls_bind (Prog.calls_each fun tag _ => off_linkEdge tag) fun _ => ?_
    refine Prog.calls_bind (Prog.calls_each fun tag _ => off_linkEdge tag) fun _ => ?_
    refine Prog.calls_bind (Prog.calls_each fun e he => ?_) fun _ => ?_
    · obtain ⟨owned, howned, he⟩ := List.mem_flatMap.mp he
      obtain ⟨tag, _, rfl⟩ := List.mem_map.mp he
      exact off_refreshOwned howned tag
    · refine Prog.calls_bind (Prog.calls_collect fun place _ => ?_) fun _ => trivial
      exact Prog.calls_bind (off_reconcileRefs ..) fun _ => trivial
  refine Prog.wp_mono ?_ (wp_off (hrest _) ht₁)
  rintro _ t₂ ⟨ht₂, hsame⟩
  refine ⟨ht₂, fun id hid row hrow => ?_⟩
  rw [hsame.2 _ (isItemKey_itemKey id)] at hrow
  exact hindexed id hid row hrow

end Invariant

/-! ## The item write of an op -/

/-- An op makes one change to an item row, its register, or none. -/
theorem platformChanges_items (json : Envelopes) (op : Op) :
    (∀ c ∈ platformChanges json op, c.table ≠ "items") ∨
      op.field ∈ itemLwwFields ∧ ∃ rest, platformChanges json op = TaskReducer.itemLww op :: rest ∧
        ∀ c ∈ rest, c.table ≠ "items" := by
  unfold platformChanges
  cases hr : folderFor (platformReducers json) op with
  | none => exact .inl (by simp)
  | some r =>
    unfold folderFor at hr
    split_ifs at hr with hbound
    obtain ⟨hfind, hfoldable⟩ := Option.filter_eq_some_iff.mp hr
    have hdomain := List.find?_some hfind
    have hmem : r ∈ [taskReducer, messageReducer json, factReducer] := List.mem_of_find?_eq_some hfind
    simp only [List.mem_cons, List.not_mem_nil, or_false] at hmem
    rcases hmem with rfl | rfl | rfl
    · have hfolds : taskReducer.folds op = true := by
        unfold Reducer.folds
        rw [hbound, hdomain, hfoldable]
        rfl
      have hchanges : taskReducer.changes op = taskReducer.changesOf op := by
        unfold Reducer.changesOf
        rw [if_pos hfolds]
      change (∀ c ∈ taskReducer.changes op, _) ∨ _ ∧ ∃ rest, taskReducer.changes op = _ ∧ _
      rw [hchanges]
      by_cases hw : writesItem op = true
      · refine .inr ⟨writesItem_field hw, _, changesOf_of_writesItem hw, fun c hc => ?_⟩
        rcases List.mem_pair.mp hc with rfl | rfl <;>
          exact (by decide : "item_timestamps" ≠ "items")
      · refine .inl fun c hc ht => hw ?_
        obtain ⟨hkind, _, _⟩ := (taskChange_of_mem_changesOf hc).of_items ht
        simp [writesItem, hfolds, hkind]
    · refine .inl fun c hc ht => ?_
      have := MessageReducer.table_mem_viewTables json hc
      rw [ht] at this
      exact absurd this (by decide)
    · refine .inl fun c hc => ?_
      change c ∈ FactReducer.changes op at hc
      have hmemory : c.table = "memories" := by
        simp only [FactReducer.changes, List.mem_cons, List.not_mem_nil, or_false] at hc
        rcases hc with rfl | rfl | rfl
        · rfl
        · rfl
        · unfold FactReducer.registerOf
          split_ifs <;> rfl
      rw [hmemory]
      decide

section ItemWrite

variable {stream : String} {op : Op} {w : Write} {t : MemTable}

/-- The write of an item's register: its row and its condition. -/
theorem item_plan (h : plan platformLayout (TaskReducer.itemLww op) = .ok w) :
    w.sk = itemKey op.targetId ∧ w.condition ≠ some .rowPresent := by
  obtain ⟨table, _, _, hsk, _, _, hcond⟩ := plan_ok h
  change rowKey "items" [("id", .text op.targetId)] = _ at hsk
  rw [rowKey_item] at hsk
  refine ⟨(Except.ok.inj hsk).symm, ?_⟩
  rw [hcond]
  exact fun heq => by cases heq

/-- It names the item in the row. -/
theorem item_plan_id (hf : op.field ∈ itemLwwFields)
    (h : plan platformLayout (TaskReducer.itemLww op) = .ok w) (row : Row) :
    (MemTable.update row w).text "id" = some op.targetId := by
  obtain ⟨table, _, _, _, hset, hremove, _⟩ := plan_ok h
  have hwf : (("id" :: (TaskReducer.itemLww op).effect.writes.map Prod.fst)).Nodup :=
    itemLww_wf hf
  have hno : "id" ∉ (TaskReducer.itemLww op).effect.writes.map Prod.fst := (List.nodup_cons.mp hwf).1
  have hcells : (TaskReducer.itemLww op).key ++ (TaskReducer.itemLww op).effect.writes =
      ("id", Cell.text op.targetId) :: (TaskReducer.itemLww op).effect.writes := rfl
  have hnot : "id" ∉ w.remove := by
    rw [hremove, hcells]
    unfold nullAsAbsent
    intro hmem
    obtain ⟨c, hc, hid⟩ := List.mem_map.mp hmem
    obtain ⟨hc, hnull⟩ := List.mem_filter.mp hc
    rcases List.mem_cons.mp hc with rfl | hc
    · cases hnull
    · exact hno (hid ▸ List.mem_map_of_mem hc)
  have hlookup : w.set.reverse.lookup "id" = some (.text op.targetId) := by
    have hnodup : (w.set.map Prod.fst).Nodup := by
      rw [hset, hcells]
      exact hwf.sublist (List.filter_sublist.map _)
    rw [← KeyMap.lookup_perm hnodup w.set.reverse_perm.symm, hset, hcells]
    unfold nullAsAbsent
    rw [List.filter_cons_of_pos rfl]
    rfl
  unfold Row.text
  rw [get_update, if_neg hnot, hlookup]
  rfl

theorem shaped_rowAt (ht : Weighed stream t) {key : String} (hkey : isItemKey key = true) :
    Shaped stream (t.rowAt key) := by
  unfold MemTable.rowAt
  cases hrow : t.rows.get key with
  | some row =>
    obtain ⟨_, _, _, hshaped, _⟩ := ht.item key row hkey hrow
    exact hshaped
  | none =>
    have hnone : ∀ a ∈ indexNames, ((KeyMap.empty.insert Attr.pk (.text t.stream)).insert Attr.sk
        (.text key) : Row).get a = none := by
      have hapart : ∀ a ∈ indexNames, a ≠ Attr.pk ∧ a ≠ Attr.sk := by decide
      intro a ha
      obtain ⟨hpk, hsk⟩ := hapart a ha
      rw [KeyMap.get_insert, if_neg hsk, KeyMap.get_insert, if_neg hpk, KeyMap.get_empty]
    rw [Option.getD_none]
    refine ⟨.inl (hnone _ (by decide)), ?_, .inl ⟨hnone _ (by decide), hnone _ (by decide)⟩⟩
    unfold Row.text
    rw [hnone _ (by decide)]
    rfl

/-- The item write of an op keeps the invariant, whether its condition keeps it or not: it was
weighed as if it applied. -/
theorem weighed_item_write (ht : Weighed stream t) (hf : op.field ∈ itemLwwFields)
    (h : plan platformLayout (TaskReducer.itemLww op) = .ok w)
    (hbytes : indexedBytes stream op.targetId (MemTable.update (t.rowAt w.sk) w) ≤ maxItemBytes) :
    Weighed stream (t.write w).2 := by
  rcases write_cases t w with hw | ⟨hw, _⟩ | hw
  · rw [hw]
    exact ht
  · rw [hw]
    exact ht
  · rw [hw]
    have hsk := (item_plan h).1
    have hkey : isItemKey w.sk = true := hsk ▸ isItemKey_itemKey _
    have hshaped := shaped_rowAt ht hkey
    -- no change of the reducers names an index attribute
    have hsame : ∀ a ∈ indexNames, (MemTable.update (t.rowAt w.sk) w).get a =
        (t.rowAt w.sk).get a := by
      have hreserved : ∀ a ∈ indexNames, a ∈ reserved := by decide
      intro a ha
      obtain ⟨hset, hremove⟩ := plan_reserved h (hreserved a ha)
      exact get_update_of_notMem hset hremove
    have hshaped' : Shaped stream (MemTable.update (t.rowAt w.sk) w) := by
      refine ⟨?_, ?_, ?_⟩
      · rw [hsame _ (by decide)]
        exact hshaped.active
      · rw [hsame _ (by decide), text_congr (hsame Attr.typed (by decide))]
        exact hshaped.typed
      · rw [hsame _ (by decide), hsame _ (by decide)]
        exact hshaped.dated
    have := weighed_insert ht (item_plan_id hf h _) hshaped' hbytes
    rwa [← hsk] at this

end ItemWrite

/-! ## The writes of an op -/

section Op

variable {json : Envelopes} {stream : String} {op : Op} {t : MemTable} {changes : List Change}
  {writes : List Write}

/-- The writes of an op: at most one is to an item row, the register of the item it is about. -/
theorem writes_cases (hc : changes = platformChanges json op)
    (hw : changes.mapM (plan platformLayout) = .ok writes) :
    (∀ w ∈ writes, isItemKey w.sk = false) ∨
      op.field ∈ itemLwwFields ∧ ∃ w rest, writes = w :: rest ∧
        plan platformLayout (TaskReducer.itemLww op) = .ok w ∧
        ∀ w' ∈ rest, isItemKey w'.sk = false := by
  have hoff : ∀ {cs : List Change} {ws : List Write},
      List.Forall₂ (fun c w => plan platformLayout c = .ok w) cs ws →
      (∀ c ∈ cs, c.table ≠ "items") → ∀ w ∈ ws, isItemKey w.sk = false := by
    intro cs ws h hcs
    induction h with
    | nil => simp
    | @cons c w cs ws hplan _ ih =>
      obtain ⟨hne, hcs⟩ := List.forall_mem_cons.mp hcs
      refine List.forall_mem_cons.mpr ⟨?_, ih hcs⟩
      rw [Bool.eq_false_iff]
      exact fun hkey => hne ((isItemKey_plan hplan).mp hkey)
  have hall := mapM_ok hw
  rcases platformChanges_items json op with hnone | ⟨hf, rest, hrest, hno⟩
  · exact .inl (hoff hall (hc ▸ hnone))
  · rw [hc, hrest] at hall
    cases hall with
    | cons hplan hall => exact .inr ⟨hf, _, _, rfl, hplan, hoff hall hno⟩

theorem calls_writeAll (h : ∀ w ∈ writes, isItemKey w.sk = false) :
    (writeAll writes).Calls Off :=
  Prog.calls_collect fun w hw => Prog.calls_perform (h w hw) fun _ => trivial

/-- The rows an op's item writes are weighed as, once its `item_bytes` has been read. -/
theorem itemBytes_run {w : Write} {rest : List Write} (ht : t.stream = stream)
    (hw : isItemKey w.sk = true) (hrest : ∀ w' ∈ rest, isItemKey w'.sk = false) :
    ((itemBytes stream (w :: rest)).run t).1 =
      [(((MemTable.update (t.rowAt w.sk) w).text "id").getD "",
        indexedBytes stream (((MemTable.update (t.rowAt w.sk) w).text "id").getD "")
          (MemTable.update (t.rowAt w.sk) w))] := by
  have hfilter : (w :: rest).filter (fun w => isItemKey w.sk) = [w] := by
    have hnone : rest.filter (fun w => isItemKey w.sk) = [] :=
      List.filter_eq_nil_iff.mpr fun w' hw' => by simp [hrest w' hw']
    rw [List.filter_cons_of_pos (p := fun w : Write => isItemKey w.sk) hw, hnone]
  have hrow : (t.rows.get w.sk).getD (freshRow stream w.sk) = t.rowAt w.sk := by
    unfold MemTable.rowAt freshRow
    rw [ht]
  unfold itemBytes
  rw [hfilter, ← hrow]
  rfl

theorem calls_weighWrites (rows : KeyMap String Row) (ws : List Write) :
    (weighWrites stream rows ws).Calls Looks := by
  induction ws generalizing rows with
  | nil => trivial
  | cons w ws ih =>
    refine Prog.calls_bind (Prog.calls_bind ?_ fun _ => trivial) fun rows => ih rows
    unfold weighedRow
    cases rows.get w.sk with
    | some row => trivial
    | none => exact Prog.calls_perform trivial fun _ => trivial

/-- The checks of an op write nothing. -/
theorem calls_check (json : Envelopes) (stream : String) (op : Op) :
    (check json stream op).Calls Looks := by
  unfold check
  dsimp only
  split_ifs
  · trivial
  · cases (platformChanges json op).mapM (plan platformLayout) with
    | error e => trivial
    | ok writes =>
      dsimp only
      cases sizeRefusal stream (platformChanges json op) writes with
      | some reason => trivial
      | none =>
        refine Prog.calls_bind (Prog.calls_bind (calls_weighWrites ..) fun _ => trivial) fun _ => ?_
        trivial

/-- **An op that passes its checks**: its changes are planned as these writes, and each item row
they touch fits with its index attributes. -/
theorem check_fits (h : ((check json stream op).run t).1 = .ok (.fits changes writes)) :
    changes = platformChanges json op ∧ changes.mapM (plan platformLayout) = .ok writes ∧
      ∀ x ∈ ((itemBytes stream writes).run t).1, x.2 ≤ maxItemBytes := by
  unfold check at h
  dsimp only at h
  split_ifs at h with hempty
  · cases h
  · cases hplan : (platformChanges json op).mapM (plan platformLayout) with
    | error e =>
      rw [hplan] at h
      cases h
    | ok ws =>
      rw [hplan] at h
      dsimp only at h
      cases hsize : sizeRefusal stream (platformChanges json op) ws with
      | some reason =>
        rw [hsize] at h
        cases h
      | none =>
        rw [hsize] at h
        dsimp only at h
        rw [Requests.run, Prog.runAt_bind] at h
        cases hfind : ((itemBytes stream ws).run t).1.find? fun x => maxItemBytes < x.2 with
        | some x =>
          have h := Except.ok.inj h
          rw [hfind] at h
          cases h
        | none =>
          have h := Except.ok.inj h
          rw [hfind] at h
          cases h
          refine ⟨rfl, hplan, fun x hx => ?_⟩
          have := List.find?_eq_none.mp hfind x hx
          simpa using this

/-- **The writes of an op** keep the invariant, and none is of index attributes. -/
theorem wp_writeAll (ht : Weighed stream t) (hc : changes = platformChanges json op)
    (hw : changes.mapM (plan platformLayout) = .ok writes)
    (hweighed : ∀ x ∈ ((itemBytes stream writes).run t).1, x.2 ≤ maxItemBytes) :
    (writeAll writes).wp (alone stream) (fun _ t' => Weighed stream t') t := by
  rcases writes_cases hc hw with hoff | ⟨hf, w, rest, rfl, hplan, hoff⟩
  · exact Prog.wp_mono (fun _ _ h => h.1) (wp_off (calls_writeAll hoff) ht)
  · obtain ⟨hsk, hcond⟩ := item_plan hplan
    have hkey : isItemKey w.sk = true := hsk ▸ isItemKey_itemKey _
    have hbytes : indexedBytes stream op.targetId (MemTable.update (t.rowAt w.sk) w) ≤
        maxItemBytes := by
      rw [itemBytes_run ht.stream_eq hkey hoff, item_plan_id hf hplan] at hweighed
      exact hweighed _ (List.mem_singleton_self _)
    refine Prog.wp_bind Prog.atMachine_rely (Prog.wp_atMachine ⟨ht, fun _ h => absurd h hcond⟩ ?_)
    refine Prog.wp_atMachine_pure ?_
    refine Prog.wp_bind Prog.atMachine_rely ?_
    refine Prog.wp_mono ?_ (wp_off (calls_writeAll hoff) (weighed_item_write ht hf hplan hbytes))
    exact fun _ t' h => Prog.wp_atMachine_pure h.1

/-- **An op that passed its checks**, from its first write on. -/
theorem wp_carryOut (ht : Weighed stream t)
    (h : ((check json stream op).run t).1 = .ok (.fits changes writes)) :
    (carryOut stream op changes writes).wp (alone stream) (fun _ t' => Weighed stream t' ∧
      ∀ id ∈ touchedKeys "items" "id" changes, ∀ row, t'.rows.get (itemKey id) = some row →
        Indexed stream id row) t := by
  obtain ⟨hc, hw, hweighed⟩ := check_fits h
  refine Prog.wp_bind Prog.atMachine_rely (Prog.wp_mono ?_ (wp_writeAll ht hc hw hweighed))
  intro _ t₁ ht₁
  refine Prog.wp_bind Prog.atMachine_rely (Prog.wp_mono ?_ (wp_after ht₁ changes))
  exact fun _ t₂ h => Prog.wp_atMachine_pure h

/-- A fold, after its checks. -/
theorem wp_fold_of {pre : Call → MemTable → Prop} {Q : Except LayoutError Folded → MemTable → Prop}
    (hpre : ∀ e, Looks e → pre e t)
    (hstop : ∀ {x}, ((check json stream op).run t).1 = x →
      ((∃ e, x = .error e) ∨ x = .ok .notFolded ∨ ∃ r, x = .ok (.refused r)) → ∀ y, Q y t)
    (hgo : ∀ changes writes, ((check json stream op).run t).1 = .ok (.fits changes writes) →
      (carryOut stream op changes writes).wp (Prog.atMachine MemTable.answer pre)
        (fun result t' => Q (.ok result) t') t) :
    (fold json stream op).wp (Prog.atMachine MemTable.answer pre) Q t := by
  refine Prog.wp_bind Prog.atMachine_rely (Prog.wp_reads (fun e he => answer_of_looks he t)
    (calls_check json stream op) hpre ?_)
  cases hx : (Prog.runAt MemTable.answer (check json stream op) t).1 with
  | error e => exact Prog.wp_atMachine_pure (hstop hx (.inl ⟨e, rfl⟩) _)
  | ok checked =>
    cases checked with
    | notFolded => exact Prog.wp_atMachine_pure (hstop hx (.inr (.inl rfl)) _)
    | refused r => exact Prog.wp_atMachine_pure (hstop hx (.inr (.inr ⟨r, rfl⟩)) _)
    | fits changes writes =>
      refine Prog.wp_bind Prog.atMachine_rely (Prog.wp_mono ?_ (hgo changes writes hx))
      exact fun _ _ h => Prog.wp_atMachine_pure h

/-! ## Batches -/

theorem fits_of_looks {e : Call} (he : Looks e) : Fits e t := by
  cases e with
  | write w => cases he
  | _ => trivial

/-- **A fold** keeps the invariant. -/
theorem wp_fold (ht : Weighed stream t) :
    (fold json stream op).wp (alone stream) (fun _ t' => Weighed stream t') t := by
  refine wp_fold_of (fun e he => ⟨ht, fits_of_looks he⟩) (fun _ _ _ => ht) fun changes writes h => ?_
  exact Prog.wp_mono (fun _ _ h => h.1) (wp_carryOut ht h)

theorem wp_foldOps (ht : Weighed stream t) (ops : List Op) :
    (foldOps json stream ops).wp (alone stream) (fun _ t' => Weighed stream t') t := by
  induction ops generalizing t with
  | nil => exact Prog.wp_atMachine_pure ht
  | cons op ops ih =>
    refine Prog.wp_bind Prog.atMachine_rely (Prog.wp_mono ?_ (wp_fold ht))
    intro result t₁ ht₁
    cases result with
    | error e => exact Prog.wp_atMachine_pure ht₁
    | ok result =>
      refine Prog.wp_bind Prog.atMachine_rely (Prog.wp_mono ?_ (ih ht₁))
      exact fun _ t₂ ht₂ => Prog.wp_atMachine_pure ht₂

/-- **A batch** keeps the invariant. -/
theorem wp_foldBatch (ht : Weighed stream t) (ops : List (Int × Op)) :
    (foldBatch json stream ops).wp (alone stream) (fun _ t' => Weighed stream t') t := by
  refine Prog.wp_bind Prog.atMachine_rely (Prog.wp_mono ?_ (wp_foldOps ht _))
  intro result t₁ ht₁
  cases result with
  | error e => exact Prog.wp_atMachine_pure ht₁
  | ok refused =>
    dsimp only
    cases (ops.map Prod.fst).max? with
    | none => exact Prog.wp_atMachine_pure ht₁
    | some through =>
      have hoff : isItemKey (watermarkWrite json through).sk = false :=
        @isItemKey_eq_false watermarkKey '.' _ rfl (by decide)
      refine Prog.wp_mono (fun _ _ h => h.1) (wp_off (Prog.calls_perform hoff fun _ => ?_) ht₁)
      trivial

/-- **Every state folds reach** has its item rows within the limit. -/
theorem weighed_of_reached (h : Reached json stream t) : Weighed stream t := by
  induction h with
  | empty => exact ⟨rfl, fun key row _ hrow => by cases hrow⟩
  | batch ops n _ ih => exact Prog.runFor_wp (wp_foldBatch ih ops) (fun _ _ h => h.1) n

/-- **A refused op changes no row; an applied one leaves its item rows indexed.** The state is one
that folds reach, batches that died on the way included. Refused before its first write, an op
leaves the table as it was, wherever its fold dies. Past its checks, the writes of index attributes
are never refused, and each item row the op is about ends with exactly its index attributes. -/
theorem fold_refuses_or_indexes (ht : Reached json stream t) (op : Op) :
    (∀ r, ((check json stream op).run t).1 = .ok (.refused r) →
      (fold json stream op).run t = (.ok (.refused r), t) ∧
      ∀ n, Prog.runFor MemTable.answer n (fold json stream op) t = t) ∧
    ∀ changes writes, ((check json stream op).run t).1 = .ok (.fits changes writes) →
      (∀ w reply, ⟨.write w, reply⟩ ∈ Prog.exchanges MemTable.answer (fold json stream op) t →
        isItemKey w.sk = true → w.condition = some .rowPresent → reply ≠ .tooLarge) ∧
      ∀ id ∈ touchedKeys "items" "id" changes, ∀ row,
        ((fold json stream op).run t).2.rows.get (itemKey id) = some row →
        Indexed stream id row := by
  have hweighed := weighed_of_reached ht
  constructor
  · intro r hr
    have hstay : ∀ n, Prog.runFor MemTable.answer n (fold json stream op) t = t := by
      have hwp : (fold json stream op).wp (Prog.atMachine MemTable.answer fun _ s => s = t)
          (fun _ s => s = t) t := by
        refine wp_fold_of (fun _ _ => rfl) (fun _ _ _ => rfl) fun changes writes h => ?_
        rw [hr] at h
        cases h
      exact Prog.runFor_wp hwp fun _ _ h => h
    refine ⟨?_, hstay⟩
    have hsame : (Prog.runAt MemTable.answer (check json stream op) t).2 = t :=
      Prog.runAt_reads (fun e he => answer_of_looks he t) (calls_check json stream op)
    have hr : (Prog.runAt MemTable.answer (check json stream op) t).1 = .ok (.refused r) := hr
    unfold Requests.run fold
    rw [Prog.runAt_bind, hsame, hr]
    rfl
  · intro changes writes hfits
    have hgo : (fold json stream op).wp (alone stream) (fun _ t' =>
        ∀ id ∈ touchedKeys "items" "id" changes, ∀ row, t'.rows.get (itemKey id) = some row →
          Indexed stream id row) t := by
      refine wp_fold_of (fun e he => ⟨hweighed, fits_of_looks he⟩) (fun hx hstop => ?_)
        fun changes' writes' h => ?_
      · rw [hfits] at hx
        rcases hstop with ⟨e, rfl⟩ | rfl | ⟨r, rfl⟩ <;> cases hx
      · rw [hfits] at h
        cases h
        exact Prog.wp_mono (fun _ _ h => h.2) (wp_carryOut hweighed hfits)
    refine ⟨fun w reply hmem hkey hcond => ?_, Prog.runAt_wp hgo⟩
    obtain ⟨s, ⟨_, hfit⟩, hreply⟩ := Prog.exchanges_wp hgo hmem
    rw [show reply = (s.write w).1 from hreply]
    exact hfit hkey hcond

end Op

/-- An op that opens an item of an empty stream: its row ends indexed. -/
theorem opened_item_indexed :
    let json : Envelopes := ⟨fun _ => none, fun _ => none⟩
    let op : Op := ⟨"op-1", 1, 1, "task", "item", "i-1", "status", "set", some "open", "ada",
      "2026-01-01T00:00:00Z", none, none⟩
    let t : MemTable := ⟨"s", KeyMap.empty⟩
    ∃ changes writes, ((check json "s" op).run t).1 = .ok (.fits changes writes) ∧
      (∀ w reply, ⟨.write w, reply⟩ ∈ Prog.exchanges MemTable.answer (fold json "s" op) t →
        isItemKey w.sk = true → w.condition = some .rowPresent → reply ≠ .tooLarge) ∧
      ∀ id ∈ touchedKeys "items" "id" changes, ∀ row,
        ((fold json "s" op).run t).2.rows.get (itemKey id) = some row → Indexed "s" id row :=
  ⟨_, _, rfl, (fold_refuses_or_indexes .empty _).2 _ _ rfl⟩

end NexusFlow.Hosted
