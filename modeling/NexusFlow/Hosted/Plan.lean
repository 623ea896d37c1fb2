import NexusFlow.Core.TaskFold
import NexusFlow.Hosted.Board

/-!
# A change as one conditional write

Model of `plan` (`crates/fold-ddb/src/write.rs:91-196`): the sort key of the row a change names, the
attributes it sets and removes, and the condition under which the write takes effect.

`plan_ok` says what a planned write is, piece by piece; `isItemKey_plan`, which ones go to the row of
an item.
-/

namespace NexusFlow.Hosted

open NexusFlow.Foundation NexusFlow.Core

/-! ## The write -/

/-- Whether a change may set these columns: none the table reserves, all of them the table's. -/
def checkColumns (name : String) (table : TableLayout) : List String → Except LayoutError Unit
  | [] => .ok ()
  | column :: columns =>
    if reserved.contains column then .error (.reservedColumn name column)
    else if !table.columns.contains column then .error (.unknownColumn name column)
    else checkColumns name table columns

/-- Whether an unwritten version loses, as SQLite decides it: a version column a row never wrote
holds the column's `DEFAULT`. -/
def unwrittenWins (table : TableLayout) (version : List (String × Int)) (wins : Wins) : Bool :=
  let defaults := version.map fun c => table.defaultOf c.1
  defaults.any (fun d => d.int?.isNone) ||
    decide (wins.beats (version.map Prod.snd) (defaults.filterMap Cell.int?))

/-- The condition of an effect's write. -/
def planCondition (table : TableLayout) : Effect → Option Cond
  | .ensure _ => some .rowAbsent
  | .put _ => none
  | .register _ version wins =>
    let absent := if unwrittenWins table version wins then version.map fun c => Cond.absent c.1
      else []
    some (.any (.rowAbsent :: absent ++
      [.beats (version.map Prod.fst) (version.map Prod.snd) wins]))

/-- `null_as_absent`: a `NULL` cell whose column defaults to `NULL` is removed. -/
def nullAsAbsent (table : TableLayout) (cells : Cells) : Cells × List String :=
  (cells.filter fun c => !(c.2 == .null && table.defaultOf c.1 == .null),
    (cells.filter fun c => c.2 == .null && table.defaultOf c.1 == .null).map Prod.fst)

/-- `plan`: the write that carries a change out. -/
def plan (layout : Layout) (c : Change) : Except LayoutError Write := do
  let table ← layout.table c.table
  let cells := c.key ++ c.effect.writes
  checkColumns c.table table (cells.map Prod.fst)
  let sk ← rowKey c.table c.key
  let (set, remove) := nullAsAbsent table cells
  return ⟨sk, set, remove, planCondition table c.effect⟩

/-! ## What a planned write is -/

section Planned

variable {layout : Layout} {c : Change} {w : Write}

/-- **A planned write**, piece by piece. -/
theorem plan_ok (h : plan layout c = .ok w) : ∃ table, layout.table c.table = .ok table ∧
    checkColumns c.table table ((c.key ++ c.effect.writes).map Prod.fst) = .ok () ∧
    rowKey c.table c.key = .ok w.sk ∧
    w.set = (nullAsAbsent table (c.key ++ c.effect.writes)).1 ∧
    w.remove = (nullAsAbsent table (c.key ++ c.effect.writes)).2 ∧
    w.condition = planCondition table c.effect := by
  unfold plan at h
  cases ht : layout.table c.table with
  | error e =>
    rw [ht] at h
    cases h
  | ok table =>
    cases hc : checkColumns c.table table ((c.key ++ c.effect.writes).map Prod.fst) with
    | error e =>
      rw [ht] at h
      simp only [bind, Except.bind, hc] at h
      cases h
    | ok u =>
      cases hk : rowKey c.table c.key with
      | error e =>
        rw [ht] at h
        simp only [bind, Except.bind, hc, hk] at h
        cases h
      | ok sk =>
        rw [ht] at h
        simp only [bind, Except.bind, hc, hk, pure, Except.pure] at h
        cases h
        exact ⟨table, rfl, hc, rfl, rfl, rfl, rfl⟩

theorem checkColumns_ok {name : String} {table : TableLayout} {columns : List String}
    (h : checkColumns name table columns = .ok ()) :
    ∀ column ∈ columns, column ∉ reserved ∧ column ∈ table.columns := by
  induction columns with
  | nil => simp
  | cons column columns ih =>
    unfold checkColumns at h
    split_ifs at h with hres hknown
    intro x hx
    rcases List.mem_cons.mp hx with rfl | hx
    · exact ⟨by simpa using hres, by simpa using hknown⟩
    · exact ih h x hx

/-- No planned write names an attribute the table reserves. -/
theorem plan_reserved (h : plan layout c = .ok w) {a : String} (ha : a ∈ reserved) :
    a ∉ w.set.map Prod.fst ∧ a ∉ w.remove := by
  obtain ⟨table, _, hcols, _, hset, hremove, _⟩ := plan_ok h
  have hno : a ∉ (c.key ++ c.effect.writes).map Prod.fst :=
    fun hmem => (checkColumns_ok hcols a hmem).1 ha
  refine ⟨fun hmem => hno ?_, fun hmem => hno ?_⟩
  · rw [hset] at hmem
    exact (List.filter_sublist.map Prod.fst).subset hmem
  · rw [hremove] at hmem
    exact (List.filter_sublist.map Prod.fst).subset hmem

/-- A planned write is to a table of the layout. -/
theorem plan_table (h : plan layout c = .ok w) : c.table ∈ layout.tables.map Prod.fst := by
  obtain ⟨table, ht, _⟩ := plan_ok h
  unfold Layout.table at ht
  split at ht
  · next t hlookup =>
    have := List.lookup_isSome_iff.mp (by rw [hlookup]; rfl : (layout.tables.lookup c.table).isSome)
    obtain ⟨p, hp, hfst⟩ := this
    exact List.mem_map.mpr ⟨p, hp, (beq_iff_eq.mp hfst).symm⟩
  · cases ht

end Planned

/-! ## Keys of item rows -/

/-- Whether a key is of an item row. -/
def isItemKey (key : String) : Bool := startsWith (tablePrefix "items") key

theorem takeWhile_name {name rest : List Char} (h : '#' ∉ name) :
    (name ++ '#' :: rest).takeWhile (· != '#') = name := by
  induction name with
  | nil => rfl
  | cons c name ih =>
    have hc : (c != '#') = true := by
      simp only [List.mem_cons, not_or] at h
      simpa using Ne.symm h.1
    rw [List.cons_append, List.takeWhile_cons, if_pos hc,
      ih fun hmem => h (List.mem_cons_of_mem c hmem)]

/-- A row's key is an item's exactly when its table is `items`. -/
theorem isItemKey_rowKey {name sk : String} {key : Cells} (hname : hasChar '#' name = false)
    (h : rowKey name key = .ok sk) : isItemKey sk = true ↔ name = "items" := by
  unfold rowKey at h
  cases hp : key.mapM (keyPiece name) with
  | error e =>
    rw [hp] at h
    cases h
  | ok pieces =>
    rw [hp] at h
    cases h
    unfold isItemKey startsWith tablePrefix
    rw [List.isPrefixOf_iff_prefix, String.toList_append, String.toList_append,
      String.toList_append]
    constructor
    · rintro ⟨rest, hrest⟩
      have hword := congrArg (List.takeWhile (· != '#')) hrest
      rw [show "#".toList = ['#'] from rfl, List.append_assoc, List.singleton_append,
        List.append_assoc, List.singleton_append, takeWhile_name (by decide),
        takeWhile_name (hasChar_eq_false_iff.mp hname)] at hword
      exact (String.toList_injective hword).symm
    · rintro rfl
      exact List.prefix_append _ _

/-- A key that does not begin with an `i` is no item's. -/
theorem isItemKey_eq_false {key : String} {c : Char} {rest : List Char} (h : key.toList = c :: rest)
    (hc : c ≠ 'i') : isItemKey key = false := by
  unfold isItemKey startsWith
  rw [h, show (tablePrefix "items").toList = 'i' :: "tems#".toList by decide,
    List.isPrefixOf_cons_cons, beq_eq_false_iff_ne.mpr hc.symm, Bool.false_and]

theorem rowKey_text (table column value : String) :
    rowKey table [(column, .text value)] = .ok (textKey table [value]) := by
  have h : [column].length = [value].length := rfl
  exact rowKey_textCells table h

theorem itemKey_eq (id : String) : itemKey id = textKey "items" [id] := by
  unfold itemKey
  rw [rowKey_text]
  rfl

theorem itemKey_inj {id id' : String} (h : itemKey id = itemKey id') : id = id' := by
  rw [itemKey_eq, itemKey_eq] at h
  have hfree : hasChar '#' "items" = false := by decide
  simpa using (textKey_inj hfree hfree (List.cons_ne_nil _ _) (List.cons_ne_nil _ _) h).2

theorem rowKey_item (id : String) : rowKey "items" [("id", .text id)] = .ok (itemKey id) := by
  rw [itemKey_eq, rowKey_text]

theorem isItemKey_itemKey (id : String) : isItemKey (itemKey id) = true :=
  (isItemKey_rowKey (by decide) (rowKey_item id)).mpr rfl

/-- The tables of the platform have plain names. -/
theorem plain_of_mem_tables {t : String} (h : t ∈ platformLayout.tables.map Prod.fst) :
    hasChar '#' t = false := by
  have hall : ∀ t ∈ platformViewTables, hasChar '#' t = false := by decide
  exact hall t (platformLayout_tables ▸ h)

/-- **Only a change of `items` is written to an item row.** -/
theorem isItemKey_plan {c : Change} {w : Write} (h : plan platformLayout c = .ok w) :
    isItemKey w.sk = true ↔ c.table = "items" := by
  obtain ⟨_, _, _, hsk, _⟩ := plan_ok h
  exact isItemKey_rowKey (plain_of_mem_tables (plan_table h)) hsk

end NexusFlow.Hosted
