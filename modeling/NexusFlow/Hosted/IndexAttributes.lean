import NexusFlow.Foundation.View
import NexusFlow.Hosted.Board

/-!
# The index attributes of an item row

What `refresh_item` writes (`crates/fold-ddb/src/board.rs:620-685`), against what is weighed ahead of
it (`board.rs:314-347`).

* `rowBytes_eq`: a row whose index attributes are those its cells call for weighs `indexed_bytes`.
* `indexUpdate_get`: the write of `refresh_item` leaves exactly these attributes, whatever attributes
  of the fold's own the row had.
* `indexedBytes_congr`: the weight does not depend on the index attributes a row has.
-/

namespace NexusFlow.Hosted

open NexusFlow.Foundation NexusFlow.Core NexusFlow.Lib

/-! ## What a row reads after a write -/

theorem get_update (row : Row) (w : Write) (a : String) : (MemTable.update row w).get a =
    if a ∈ w.remove then none else (w.set.reverse.lookup a).or (row.get a) := by
  unfold MemTable.update
  rw [KeyMap.get_foldl_erase, KeyMap.get_foldl_insert]

theorem get_update_of_notMem {row : Row} {w : Write} {a : String} (hset : a ∉ w.set.map Prod.fst)
    (hremove : a ∉ w.remove) : (MemTable.update row w).get a = row.get a := by
  have hnone : w.set.reverse.lookup a = none := by
    rw [lookup_eq_none_iff, List.map_reverse, List.mem_reverse]
    exact hset
  rw [get_update, if_neg hremove, hnone, Option.none_or]

/-- A text cell is read through the attribute. -/
theorem text_congr {row row' : Row} {a : String} (h : row.get a = row'.get a) :
    row.text a = row'.text a := by
  unfold Row.text
  rw [h]

/-! ## What index attributes weigh -/

/-- What an item's index attributes are read from. -/
theorem indexAttributes_congr {stream id : String} {row row' : Row}
    (h : ∀ a ∉ indexNames, row.get a = row'.get a) :
    indexAttributes stream id row = indexAttributes stream id row' := by
  have hcells : ∀ a ∈ ["deleted", "archived", "status", "type", "closed_at"],
      row.text a = row'.text a := by
    have hapart : ∀ a ∈ ["deleted", "archived", "status", "type", "closed_at"], a ∉ indexNames := by
      decide
    exact fun a ha => text_congr (h a (hapart a ha))
  simp only [List.forall_mem_cons, List.not_mem_nil, false_imp_iff, implies_true, and_true]
    at hcells
  obtain ⟨hdeleted, harchived, hstatus, htype, hclosed⟩ := hcells
  unfold indexAttributes isActive typed lane
  rw [hdeleted, harchived, hstatus, htype, hclosed]

theorem names_indexAttributes (stream id : String) (row : Row) :
    ((indexAttributes stream id row).map Prod.fst).Nodup ∧
      ∀ a ∈ (indexAttributes stream id row).map Prod.fst, a ∈ indexNames := by
  have hall : ∀ active typed dated : Bool,
      (((if active then [Attr.active] else []) ++ (if typed then [Attr.typed] else []) ++
        if dated then [Attr.dated, Attr.datedAt] else []).Nodup) ∧
      ∀ a ∈ (if active then [Attr.active] else []) ++ (if typed then [Attr.typed] else []) ++
        (if dated then [Attr.dated, Attr.datedAt] else []), a ∈ indexNames := by
    decide
  have hnames : (indexAttributes stream id row).map Prod.fst =
      (if isActive row then [Attr.active] else []) ++
      (if (typed row).isSome then [Attr.typed] else []) ++
      if (lane row).isSome then [Attr.dated, Attr.datedAt] else [] := by
    unfold indexAttributes
    rw [List.map_append, List.map_append]
    congr 1
    · congr 1
      · cases isActive row <;> rfl
      · cases typed row <;> rfl
    · cases lane row <;> rfl
  rw [hnames]
  exact hall _ _ _

theorem cellsBytes_perm {l l' : Cells} (h : l.Perm l') : cellsBytes l = cellsBytes l' :=
  (h.map _).sum_nat

/-- The entries under some names, told by what is looked up there. -/
theorem filter_entries_perm {m m' : Row} {p : String → Bool}
    (h : ∀ a, p a = true → m.get a = m'.get a) :
    (m.entries.filter fun c => p c.1).Perm (m'.entries.filter fun c => p c.1) := by
  refine (List.perm_ext_iff_of_nodup (m.nodup.of_map.filter _) (m'.nodup.of_map.filter _)).mpr
    fun e => ?_
  rw [List.mem_filter, List.mem_filter, KeyMap.mem_entries_iff m, KeyMap.mem_entries_iff m']
  refine and_congr_left fun hp => ?_
  rw [h e.1 hp]

/-- A row whose index attributes are these weighs its own cells and them. -/
theorem rowBytes_eq {row row' : Row} {stream id : String}
    (hown : ∀ a ∉ indexNames, row'.get a = row.get a)
    (hindex : ∀ a ∈ indexNames, row'.get a = (indexAttributes stream id row).lookup a) :
    MemTable.rowBytes row' = indexedBytes stream id row := by
  obtain ⟨hnodup, hnames⟩ := names_indexAttributes stream id row
  have hsplit : MemTable.rowBytes row' =
      cellsBytes (row'.entries.filter fun c => !indexNames.contains c.1) +
        cellsBytes (row'.entries.filter fun c => indexNames.contains c.1) := by
    unfold MemTable.rowBytes
    have hperm := (List.filter_append_perm (fun c : String × Cell => indexNames.contains c.1)
      row'.entries).symm
    rw [(hperm.map _).sum_nat, List.map_append, List.sum_append, Nat.add_comm]
    rfl
  have hother : (row'.entries.filter fun c => !indexNames.contains c.1).Perm
      (row.entries.filter fun c => !indexNames.contains c.1) :=
    filter_entries_perm (p := fun a => !indexNames.contains a) fun a ha =>
      hown a (by simpa using ha)
  have hattr : (row'.entries.filter fun c => indexNames.contains c.1).Perm
      (indexAttributes stream id row) := by
    refine (List.perm_ext_iff_of_nodup (row'.nodup.of_map.filter _) hnodup.of_map).mpr fun e => ?_
    have hmem := KeyMap.mem_entries_iff ⟨indexAttributes stream id row, hnodup⟩ e.1 e.2
    rw [List.mem_filter, KeyMap.mem_entries_iff row']
    constructor
    · rintro ⟨hget, hin⟩
      rw [hindex e.1 (by simpa using hin)] at hget
      exact hmem.mpr hget
    · intro he
      have hin := hnames e.1 (List.mem_map_of_mem he)
      exact ⟨by rw [hindex e.1 hin]; exact hmem.mp he, by simpa using hin⟩
  rw [hsplit, cellsBytes_perm hother, cellsBytes_perm hattr]
  rfl

/-! ## What `refresh_item` leaves -/

/-- The index attributes of an item row as the fold writes them, up to date or not: each text, and
the two of the `dated` index together. -/
structure Shaped (stream : String) (row : Row) : Prop where
  active : row.get Attr.active = none ∨ row.get Attr.active = some (.text stream)
  typed : row.get Attr.typed = (row.text Attr.typed).map .text
  dated : (row.get Attr.dated = none ∧ row.get Attr.datedAt = none) ∨
    ∃ p instant, row.get Attr.dated = some (.text p) ∧ row.get Attr.datedAt = some (.text instant)

/-- The row carries exactly its index attributes. -/
def Indexed (stream id : String) (row : Row) : Prop :=
  ∀ a ∈ indexNames, row.get a = (indexAttributes stream id row).lookup a

/-- A block sets, removes and wants its own names only. -/
theorem moved_apart {names : List String} {wanted : Option Cells} {same : Bool}
    (hwanted : ∀ cells ∈ wanted, ∀ a ∈ cells.map Prod.fst, a ∈ names) {a : String}
    (ha : a ∉ names) : (moved names wanted same).1.reverse.lookup a = none ∧
      a ∉ (moved names wanted same).2 ∧ (wanted.getD []).lookup a = none := by
  have hnone : ∀ cells ∈ wanted, cells.reverse.lookup a = none ∧ cells.lookup a = none := by
    intro cells hcells
    have hno : a ∉ cells.map Prod.fst := fun hmem => ha (hwanted cells hcells a hmem)
    refine ⟨?_, lookup_eq_none_iff.mpr hno⟩
    rw [lookup_eq_none_iff, List.map_reverse, List.mem_reverse]
    exact hno
  unfold moved
  cases wanted with
  | none =>
    split_ifs
    · exact ⟨rfl, List.not_mem_nil, rfl⟩
    · exact ⟨rfl, ha, rfl⟩
  | some cells =>
    obtain ⟨hrev, hlookup⟩ := hnone cells rfl
    split_ifs
    · exact ⟨rfl, List.not_mem_nil, hlookup⟩
    · exact ⟨hrev, List.not_mem_nil, hlookup⟩

/-- What a block leaves at its own names. -/
theorem get_moved {row : Row} {names : List String} {wanted : Option Cells} {same : Bool}
    (hwanted : ∀ cells ∈ wanted, cells.map Prod.fst = names ∧ (cells.map Prod.fst).Nodup)
    (hsame : same = true → ∀ a ∈ names, row.get a = (wanted.getD []).lookup a) {a : String}
    (ha : a ∈ names) :
    (if a ∈ (moved names wanted same).2 then none
      else ((moved names wanted same).1.reverse.lookup a).or (row.get a)) =
      (wanted.getD []).lookup a := by
  unfold moved
  split_ifs with hs hmem hmem
  · cases hmem
  · simpa using hsame hs a ha
  · cases wanted with
    | none => rfl
    | some cells => cases hmem
  · cases wanted with
    | none => exact absurd ha hmem
    | some cells =>
      obtain ⟨hnames, hnodup⟩ := hwanted cells rfl
      have hrev : cells.reverse.lookup a = cells.lookup a :=
        (KeyMap.lookup_perm hnodup cells.reverse_perm.symm a).symm
      have hsome : (cells.lookup a).isSome = true := lookup_isSome_iff.mpr (hnames ▸ ha)
      obtain ⟨v, hv⟩ := Option.isSome_iff_exists.mp hsome
      rw [hrev, hv, Option.some_or, Option.getD_some, hv]

/-- The index attributes, block by block. -/
theorem indexAttributes_eq (stream id : String) (row : Row) : indexAttributes stream id row =
    (if isActive row then some [(Attr.active, .text stream)] else none).getD [] ++
    (((typed row).map (typedPartition stream)).map fun p => [(Attr.typed, Cell.text p)]).getD [] ++
    ((((lane row).map fun l => (l.1.partition stream, datedKey l.2 id)).map fun d =>
      [(Attr.dated, Cell.text d.1), (Attr.datedAt, .text d.2)]).getD []) := by
  unfold indexAttributes
  cases isActive row <;> cases typed row <;> cases lane row <;> rfl

/-- The names of the three blocks are apart. -/
theorem names_apart : Attr.active ∉ [Attr.typed] ∧ Attr.active ∉ [Attr.dated, Attr.datedAt] ∧
    Attr.typed ∉ [Attr.active] ∧ Attr.typed ∉ [Attr.dated, Attr.datedAt] ∧
    ∀ a ∈ [Attr.dated, Attr.datedAt], a ∉ [Attr.active] ∧ a ∉ [Attr.typed] := by
  decide

theorem activeUpdate_apart (stream : String) (row : Row) {a : String} (ha : a ∉ [Attr.active]) :
    (activeUpdate stream row).1.reverse.lookup a = none ∧ a ∉ (activeUpdate stream row).2 ∧
      ((if isActive row then some [(Attr.active, Cell.text stream)] else none).getD []).lookup a =
        none := by
  refine moved_apart (fun cells hcells b hb => ?_) ha
  split_ifs at hcells <;> cases hcells
  exact hb

theorem typedUpdate_apart (stream : String) (row : Row) {a : String} (ha : a ∉ [Attr.typed]) :
    (typedUpdate stream row).1.reverse.lookup a = none ∧ a ∉ (typedUpdate stream row).2 ∧
      ((((typed row).map (typedPartition stream)).map fun p =>
        [(Attr.typed, Cell.text p)]).getD []).lookup a = none := by
  refine moved_apart (fun cells hcells b hb => ?_) ha
  obtain ⟨p, _, rfl⟩ := Option.map_eq_some_iff.mp hcells
  exact hb

theorem datedUpdate_apart (stream id : String) (row : Row) {a : String}
    (ha : a ∉ [Attr.dated, Attr.datedAt]) :
    (datedUpdate stream id row).1.reverse.lookup a = none ∧ a ∉ (datedUpdate stream id row).2 ∧
      ((((lane row).map fun l => (l.1.partition stream, datedKey l.2 id)).map fun d =>
        [(Attr.dated, Cell.text d.1), (Attr.datedAt, .text d.2)]).getD []).lookup a = none := by
  refine moved_apart (fun cells hcells b hb => ?_) ha
  obtain ⟨d, _, rfl⟩ := Option.map_eq_some_iff.mp hcells
  exact hb

/-- The three blocks of the write, one after another. -/
theorem get_indexWrite (stream id : String) (row : Row) (a : String) :
    (MemTable.update row (indexWrite stream id row)).get a =
      if (a ∈ (activeUpdate stream row).2 ∨ a ∈ (typedUpdate stream row).2) ∨
          a ∈ (datedUpdate stream id row).2 then none
      else ((datedUpdate stream id row).1.reverse.lookup a).or
        (((typedUpdate stream row).1.reverse.lookup a).or
          (((activeUpdate stream row).1.reverse.lookup a).or (row.get a))) := by
  rw [get_update]
  simp only [indexWrite, List.mem_append, List.reverse_append, List.lookup_append,
    Option.or_assoc]

/-- The write leaves every other cell alone. -/
theorem get_indexWrite_other (stream id : String) (row : Row) {a : String}
    (ha : a ∉ indexNames) : (MemTable.update row (indexWrite stream id row)).get a = row.get a := by
  simp only [indexNames, List.mem_cons, List.not_mem_nil, or_false, not_or] at ha
  obtain ⟨hA, hT, hD, hDA⟩ := ha
  obtain ⟨ha1, ha2, _⟩ := activeUpdate_apart stream row (a := a) (by simpa using hA)
  obtain ⟨ht1, ht2, _⟩ := typedUpdate_apart stream row (a := a) (by simpa using hT)
  obtain ⟨hd1, hd2, _⟩ := datedUpdate_apart stream id row (a := a) (by simp [hD, hDA])
  simp only [get_indexWrite, ha1, ha2, ht1, ht2, hd1, hd2, or_false, if_false, Option.none_or]

/-- **After `refresh_item`'s write** the row has the index attributes its cells call for. -/
theorem indexUpdate_get {stream id : String} {row : Row} (h : Shaped stream row) :
    ∀ a ∈ indexNames, (MemTable.update row (indexWrite stream id row)).get a =
      (indexAttributes stream id row).lookup a := by
  have hactive : ∀ a ∈ [Attr.active],
      (if a ∈ (activeUpdate stream row).2 then none
        else ((activeUpdate stream row).1.reverse.lookup a).or (row.get a)) =
      ((if isActive row then some [(Attr.active, .text stream)] else none).getD []).lookup a := by
    refine fun a ha => get_moved (fun cells hcells => ?_) (fun hsame b hb => ?_) ha
    · split_ifs at hcells
      · cases hcells
        exact ⟨rfl, List.nodup_singleton _⟩
      · cases hcells
    · rw [List.mem_singleton.mp hb]
      have hcontains : isActive row = row.contains Attr.active := by simpa using hsame
      unfold KeyMap.contains at hcontains
      rcases h.active with hnone | hsome
      · rw [hnone] at hcontains ⊢
        rw [hcontains]
        rfl
      · rw [hsome] at hcontains ⊢
        rw [hcontains]
        rfl
  have htyped : ∀ a ∈ [Attr.typed],
      (if a ∈ (typedUpdate stream row).2 then none
        else ((typedUpdate stream row).1.reverse.lookup a).or (row.get a)) =
      ((((typed row).map (typedPartition stream)).map fun p =>
        [(Attr.typed, Cell.text p)]).getD []).lookup a := by
    refine fun a ha => get_moved (fun cells hcells => ?_) (fun hsame b hb => ?_) ha
    · obtain ⟨p, _, rfl⟩ := Option.map_eq_some_iff.mp hcells
      exact ⟨rfl, List.nodup_singleton _⟩
    · rw [List.mem_singleton.mp hb, h.typed, ← (beq_iff_eq.mp hsame : _ = _)]
      cases typed row <;> rfl
  have hdated : ∀ a ∈ [Attr.dated, Attr.datedAt],
      (if a ∈ (datedUpdate stream id row).2 then none
        else ((datedUpdate stream id row).1.reverse.lookup a).or (row.get a)) =
      ((((lane row).map fun l => (l.1.partition stream, datedKey l.2 id)).map fun d =>
        [(Attr.dated, Cell.text d.1), (Attr.datedAt, .text d.2)]).getD []).lookup a := by
    refine fun a ha => get_moved (fun cells hcells => ?_) (fun hsame b hb => ?_) ha
    · obtain ⟨d, _, rfl⟩ := Option.map_eq_some_iff.mp hcells
      exact ⟨rfl, (by decide : [Attr.dated, Attr.datedAt].Nodup)⟩
    · have hsame := beq_iff_eq.mp hsame
      rcases h.dated with ⟨h1, h2⟩ | ⟨p, instant, h1, h2⟩
      · rw [h1] at hsame
        rw [hsame]
        rcases List.mem_pair.mp hb with rfl | rfl
        · exact h1
        · exact h2
      · rw [h1, h2] at hsame
        rw [hsame]
        rcases List.mem_pair.mp hb with rfl | rfl
        · exact h1
        · exact h2
  obtain ⟨h1, h2, h3, h4, h5⟩ := names_apart
  intro a ha
  rw [get_indexWrite, indexAttributes_eq, List.lookup_append, List.lookup_append]
  rcases List.mem_cons.mp ha with rfl | ha
  · obtain ⟨ht, ht', ht''⟩ := typedUpdate_apart stream row h1
    obtain ⟨hd, hd', hd''⟩ := datedUpdate_apart stream id row h2
    simp only [ht, ht', ht'', hd, hd', hd'', Option.none_or, Option.or_none, or_false]
    exact hactive _ (List.mem_singleton_self _)
  rcases List.mem_cons.mp ha with rfl | ha
  · obtain ⟨hb, hb', hb''⟩ := activeUpdate_apart stream row h3
    obtain ⟨hd, hd', hd''⟩ := datedUpdate_apart stream id row h4
    simp only [hb, hb', hb'', hd, hd', hd'', Option.none_or, Option.or_none, or_false, false_or]
    exact htyped _ (List.mem_singleton_self _)
  · obtain ⟨hna, hnt⟩ := h5 a ha
    obtain ⟨hb, hb', hb''⟩ := activeUpdate_apart stream row hna
    obtain ⟨ht, ht', ht''⟩ := typedUpdate_apart stream row hnt
    simp only [hb, hb', hb'', ht, ht', ht'', Option.none_or, or_false, false_or]
    exact hdated a ha

/-- What index attributes written by the rules look like. -/
theorem shaped_of_attributes {stream id : String} {row row' : Row}
    (h : ∀ a ∈ indexNames, row'.get a = (indexAttributes stream id row).lookup a) :
    Shaped stream row' := by
  have hread : ∀ a ∈ indexNames, row'.get a = _ := fun a ha => by
    rw [h a ha, indexAttributes_eq, List.lookup_append, List.lookup_append]
  simp only [indexNames, List.forall_mem_cons, List.not_mem_nil, false_imp_iff, implies_true,
    and_true] at hread
  obtain ⟨hactive, htyped, hdated, hdatedAt⟩ := hread
  obtain ⟨h1, h2, h3, h4, h5⟩ := names_apart
  obtain ⟨hd1, hd2⟩ := h5 Attr.dated (by decide)
  obtain ⟨ht1, ht2⟩ := h5 Attr.datedAt (by decide)
  rw [(typedUpdate_apart stream row h1).2.2, (datedUpdate_apart stream id row h2).2.2,
    Option.or_none, Option.or_none] at hactive
  rw [(activeUpdate_apart stream row h3).2.2, (datedUpdate_apart stream id row h4).2.2,
    Option.or_none, Option.none_or] at htyped
  rw [(activeUpdate_apart stream row hd1).2.2, (typedUpdate_apart stream row hd2).2.2,
    Option.none_or, Option.none_or] at hdated
  rw [(activeUpdate_apart stream row ht1).2.2, (typedUpdate_apart stream row ht2).2.2,
    Option.none_or, Option.none_or] at hdatedAt
  refine ⟨?_, ?_, ?_⟩
  · rw [hactive]
    cases isActive row with
    | true => exact .inr rfl
    | false => exact .inl rfl
  · unfold Row.text
    rw [htyped]
    cases typed row <;> rfl
  · rw [hdated, hdatedAt]
    cases lane row with
    | none => exact .inl ⟨rfl, rfl⟩
    | some l => exact .inr ⟨_, _, rfl, rfl⟩

/-- What a row weighs with its index attributes does not depend on the ones it has. -/
theorem indexedBytes_congr {stream id : String} {row row' : Row}
    (h : ∀ a ∉ indexNames, row.get a = row'.get a) :
    indexedBytes stream id row = indexedBytes stream id row' := by
  unfold indexedBytes
  rw [indexAttributes_congr h]
  congr 1
  exact cellsBytes_perm (filter_entries_perm (p := fun a => !indexNames.contains a) fun a ha =>
    h a (by simpa using ha))

end NexusFlow.Hosted
