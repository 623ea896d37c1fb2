import Mathlib.Data.List.Basic
import Mathlib.Data.Prod.Lex
import Mathlib.Order.Lattice
import NexusFlow.Lib.Fold

/-!
# Described changes and the tables they are carried out on

Model of `crates/foundation/src/change.rs`: a reducer maps an op to a list of `Change`s and the
SQLite applier carries them out, one statement per change.

* `Db` is the content of the view tables: one `Entry` per row, in the order the rows were
  inserted, at most one per table and primary key (`Db.nodup`). A row is a function from column
  names to cells; a column the table does not have is never read.
* `Ddl` gives each column its `DEFAULT` (`NULL` where the table's `CREATE TABLE` names none).
  It comes from the product's `schema.rs`.
* `applyOne` is `apply_one` (`change.rs:199-276`): `INSERT … ON CONFLICT(key) DO …`. The name check
  in front of it (`is_identifier`) never fires on the fixed column lists the reducers build from,
  and is left out.

When two changes commute, and when one stays absorbed by another, is the subject of `View.lean`.
-/

namespace NexusFlow.Foundation

open NexusFlow.Lib

/-! ## Cells, effects, changes -/

/-- One cell value. The views hold text and integers only. -/
inductive Cell
  | null
  | text (s : String)
  | int (i : Int)
  deriving DecidableEq, Repr

/-- `impl From<Option<T>> for Cell` at `String`. -/
def Cell.ofOption : Option String → Cell
  | none => .null
  | some s => .text s

/-- The integer a cell holds, if it holds one. -/
def Cell.int? : Cell → Option Int
  | .int i => some i
  | _ => none

/-- A column name and the value written into it. -/
abbrev Cells := List (String × Cell)

/-- An op's coordinate, the version a register compares on. -/
structure Version where
  lamport : Int
  site : Int
  deriving DecidableEq, Repr

/-- Which version keeps a register: the highest, or the lowest. -/
inductive Wins
  | higher
  | lower
  deriving DecidableEq, Repr

/-- What a change does to its row. -/
inductive Effect
  | ensure (cells : Cells)
  | put (cells : Cells)
  | register (cells : Cells) (version : List (String × Int)) (wins : Wins)
  deriving DecidableEq, Repr

/-- The cells an effect writes, its version apart. -/
def Effect.cells : Effect → Cells
  | .ensure cells => cells
  | .put cells => cells
  | .register cells _ _ => cells

/-- The version an effect brings; only a register has one. -/
def Effect.version : Effect → List (String × Int)
  | .register _ version _ => version
  | _ => []

/-- One described change: a row of `table`, named by `key`, and what happens to it. -/
structure Change where
  table : String
  key : Cells
  effect : Effect
  deriving DecidableEq, Repr

namespace Change

/-- `Change::ensure`. -/
def ensure (table : String) (key cells : Cells) : Change := ⟨table, key, .ensure cells⟩

/-- `Change::put`. -/
def put (table : String) (key cells : Cells) : Change := ⟨table, key, .put cells⟩

/-- `Change::register`. -/
def register (table : String) (key cells : Cells) (versionColumns : String × String)
    (version : Version) (wins : Wins) : Change :=
  ⟨table, key, .register cells
    [(versionColumns.1, version.lamport), (versionColumns.2, version.site)] wins⟩

/-- `Change::register_ranked`: the rank decides first, the coordinate only between equal ranks. -/
def registerRanked (table : String) (key cells : Cells) (rank : String × Int)
    (versionColumns : String × String) (version : Version) (wins : Wins) : Change :=
  ⟨table, key, .register cells
    [rank, (versionColumns.1, version.lamport), (versionColumns.2, version.site)] wins⟩

end Change

/-! ## Rows -/

/-- A row: the cell in each column. -/
abbrev Row := String → Cell

/-- The `DEFAULT` of each table's columns. -/
abbrev Ddl := String → String → Cell

/-- `SET c = …` for every cell of the list. -/
def assign (row : Row) (cells : Cells) : Row := fun c => (cells.lookup c).getD (row c)

/-- The version's cells. -/
def versionCells (version : List (String × Int)) : Cells := version.map fun p => (p.1, .int p.2)

/-- The version stored in `row`: `none` when one of its columns is `NULL`, a register nobody
wrote. -/
def storedVersion (row : Row) (names : List String) : Option (List Int) :=
  names.mapM fun c => (row c).int?

/-- `({theirs}) {beats} ({stored})`: SQL compares the row values in order. -/
def Wins.beats (wins : Wins) (theirs stored : List Int) : Prop :=
  match wins with
  | .higher => stored < theirs
  | .lower => theirs < stored

instance (wins : Wins) (theirs stored : List Int) : Decidable (wins.beats theirs stored) := by
  cases wins <;> exact inferInstanceAs (Decidable (_ < _))

/-- The `WHERE` clause of a register's `DO UPDATE`: nobody wrote it, or the new version beats the
stored one. -/
def Writes (row : Row) (version : List (String × Int)) (wins : Wins) : Prop :=
  ∀ stored, storedVersion row (version.map Prod.fst) = some stored →
    wins.beats (version.map Prod.snd) stored

instance (row : Row) (version : List (String × Int)) (wins : Wins) :
    Decidable (Writes row version wins) :=
  match h : storedVersion row (version.map Prod.fst) with
  | none => isTrue fun _ hs => by rw [h] at hs; cases hs
  | some stored =>
    if hb : wins.beats (version.map Prod.snd) stored then
      isTrue fun _ hs => by rw [h] at hs; cases hs; exact hb
    else isFalse fun hw => hb (hw stored h)

/-- The row an `INSERT` makes: the named columns, and the `DEFAULT` everywhere else. -/
def insertedRow (ddl : Ddl) (c : Change) : Row :=
  assign (ddl c.table) (c.key ++ c.effect.cells ++ versionCells c.effect.version)

/-- The row `apply_one`'s statement leaves, given the row that holds the key before it. A `put`
without cells is an `INSERT OR IGNORE`, which is assigning no cell. -/
def rowAfter (ddl : Ddl) (c : Change) : Option Row → Row
  | none => insertedRow ddl c
  | some row =>
    match c.effect with
    | .ensure _ => row
    | .put cells => assign row cells
    | .register cells version wins =>
      if Writes row version wins then assign row (cells ++ versionCells version) else row

/-! ## Tables -/

/-- One row of one table. -/
structure Entry where
  table : String
  key : Cells
  row : Row

/-- The content of the tables: the rows in the order they were inserted, at most one per table and
primary key. -/
structure Db where
  rows : List Entry
  nodup : (rows.map fun e => (e.table, e.key)).Nodup

namespace Db

/-- Tables without rows. -/
def empty : Db := ⟨[], List.nodup_nil⟩

/-- The row `key` of `table`. -/
def get (db : Db) (table : String) (key : Cells) : Option Row :=
  (db.rows.find? fun e => e.table = table ∧ e.key = key).map Entry.row

/-- Every row of `table`, in insertion order. -/
def scan (db : Db) (table : String) : List Row :=
  (db.rows.filter fun e => e.table = table).map Entry.row

/-- Overwrite the row `key` of `table`, or insert it. -/
def put (db : Db) (table : String) (key : Cells) (row : Row) : Db :=
  if h : (table, key) ∈ db.rows.map fun e => (e.table, e.key) then
    ⟨db.rows.map fun e => if e.table = table ∧ e.key = key then { e with row := row } else e, by
      have e : (fun e : Entry => (e.table, e.key)) ∘
          (fun e => if e.table = table ∧ e.key = key then { e with row := row } else e) =
          fun e => (e.table, e.key) := by
        funext e
        simp only [Function.comp_apply]
        split_ifs <;> rfl
      rw [List.map_map, e]
      exact db.nodup⟩
  else
    ⟨db.rows ++ [⟨table, key, row⟩], by
      rw [List.map_append, List.map_singleton]
      exact List.nodup_append.mpr ⟨db.nodup, List.nodup_singleton _, fun a ha b hb => by
        rw [List.mem_singleton.mp hb]
        exact fun hab => h (hab ▸ ha)⟩⟩

/-- `DELETE FROM` each of `tables` (`Reducer::clear_views`). -/
def clear (db : Db) (tables : List String) : Db :=
  ⟨db.rows.filter fun e => e.table ∉ tables,
    db.nodup.sublist (List.filter_sublist.map _)⟩

theorem get_eq_none_iff {db : Db} {t : String} {k : Cells} :
    db.get t k = none ↔ (t, k) ∉ db.rows.map fun e => (e.table, e.key) := by
  simp only [get, Option.map_eq_none_iff, List.find?_eq_none, List.mem_map, Prod.mk.injEq,
    decide_eq_true_eq, not_exists, not_and]

/-- The row a key names, once it has been written. -/
theorem get_put (db : Db) (t t' : String) (k k' : Cells) (row : Row) :
    (db.put t k row).get t' k' = if t' = t ∧ k' = k then some row else db.get t' k' := by
  unfold put
  split_ifs with hmem heq heq
  · obtain ⟨rfl, rfl⟩ := heq
    obtain ⟨e, he, hek⟩ := List.mem_map.mp hmem
    obtain ⟨hte, hke⟩ := Prod.mk.inj hek
    unfold get
    rw [List.find?_map]
    have hp : ((fun e : Entry => decide (e.table = t' ∧ e.key = k')) ∘
        fun e => if e.table = t' ∧ e.key = k' then { e with row := row } else e) =
        fun e => decide (e.table = t' ∧ e.key = k') := by
      funext e
      simp only [Function.comp_apply]
      split_ifs with h <;> simp [h]
    rw [hp]
    cases hf : db.rows.find? fun e => decide (e.table = t' ∧ e.key = k') with
    | none =>
      have := List.find?_eq_none.mp hf e he
      simp [hte, hke] at this
    | some e' =>
      have h' := List.find?_some hf
      simp only [decide_eq_true_eq] at h'
      simp [h']
  · unfold get
    rw [List.find?_map]
    have hp : ((fun e : Entry => decide (e.table = t' ∧ e.key = k')) ∘
        fun e => if e.table = t ∧ e.key = k then { e with row := row } else e) =
        fun e => decide (e.table = t' ∧ e.key = k') := by
      funext e
      simp only [Function.comp_apply]
      split_ifs with h <;> rfl
    rw [hp]
    cases hf : db.rows.find? fun e => decide (e.table = t' ∧ e.key = k') with
    | none => rfl
    | some e' =>
      have h' := List.find?_some hf
      simp only [decide_eq_true_eq] at h'
      have hne : ¬ (e'.table = t ∧ e'.key = k) := by
        rintro ⟨rfl, rfl⟩
        exact heq ⟨h'.1.symm, h'.2.symm⟩
      simp [hne]
  · obtain ⟨rfl, rfl⟩ := heq
    unfold get
    have hnone : db.rows.find? (fun e => decide (e.table = t' ∧ e.key = k')) = none := by
      rw [← Option.map_eq_none_iff (f := Entry.row)]
      exact get_eq_none_iff.mpr hmem
    rw [List.find?_append, hnone]
    simp
  · unfold get
    rw [List.find?_append]
    have hne : ¬ (t = t' ∧ k = k') := fun h => heq ⟨h.1.symm, h.2.symm⟩
    simp [hne]

theorem get_empty (t : String) (k : Cells) : empty.get t k = none := rfl

theorem get_clear (db : Db) (tables : List String) (t : String) (k : Cells) :
    (db.clear tables).get t k = if t ∈ tables then none else db.get t k := by
  unfold get clear
  rw [List.find?_filter]
  split_ifs with h
  · rw [Option.map_eq_none_iff, List.find?_eq_none]
    intro e _
    simp only [decide_not, Bool.not_eq_true', decide_eq_false_iff_not,
      decide_eq_true_eq, not_and]
    rintro he rfl
    exact absurd h he
  · congr 2
    funext e
    by_cases he : e.table = t
    · simp [he, h]
    · simp [he]

/-- A row the tables hold is found under its key. -/
theorem get_of_mem {db : Db} {e : Entry} (he : e ∈ db.rows) : db.get e.table e.key = some e.row := by
  unfold get
  cases hf : db.rows.find? fun e' => decide (e'.table = e.table ∧ e'.key = e.key) with
  | none => simpa using List.find?_eq_none.mp hf e he
  | some e' =>
    have h' := List.find?_some hf
    simp only [decide_eq_true_eq] at h'
    rw [List.inj_on_of_nodup_map db.nodup (List.mem_of_find?_eq_some hf) he (Prod.ext h'.1 h'.2)]
    rfl

/-- A scan finds exactly the rows the keys name. -/
theorem mem_scan_iff {db : Db} {t : String} {row : Row} :
    row ∈ db.scan t ↔ ∃ k, db.get t k = some row := by
  unfold scan
  simp only [List.mem_map, List.mem_filter, decide_eq_true_eq]
  constructor
  · rintro ⟨e, ⟨he, rfl⟩, rfl⟩
    exact ⟨e.key, get_of_mem he⟩
  · rintro ⟨k, hk⟩
    unfold get at hk
    obtain ⟨e, he, rfl⟩ := Option.map_eq_some_iff.mp hk
    have h' := List.find?_some he
    simp only [decide_eq_true_eq] at h'
    exact ⟨e, ⟨List.mem_of_find?_eq_some he, h'.1⟩, rfl⟩

/-- Rows that carry their key are scanned once each. -/
theorem nodup_scan {db : Db} {t : String} {key : Row → Cells}
    (h : ∀ k row, db.get t k = some row → key row = k) : ((db.scan t).map key).Nodup := by
  have hkeys : (db.scan t).map key = (db.rows.filter fun e => e.table = t).map Entry.key := by
    rw [scan, List.map_map]
    refine List.map_congr_left fun e he => ?_
    obtain ⟨he, ht⟩ := List.mem_filter.mp he
    exact h e.key e.row (by rw [← of_decide_eq_true ht]; exact get_of_mem he)
  have hnd : ((db.rows.filter fun e => e.table = t).map fun e => (e.table, e.key)).Nodup :=
    db.nodup.sublist (List.filter_sublist.map _)
  rw [hkeys, List.Nodup, List.pairwise_map]
  rw [List.Nodup, List.pairwise_map] at hnd
  refine hnd.imp_of_mem fun he he' hne heq => hne ?_
  exact Prod.ext ((of_decide_eq_true (List.mem_filter.mp he).2).trans
    (of_decide_eq_true (List.mem_filter.mp he').2).symm) heq

end Db

/-- `apply_one` (`change.rs:199-276`). -/
def applyOne (ddl : Ddl) (db : Db) (c : Change) : Db :=
  db.put c.table c.key (rowAfter ddl c (db.get c.table c.key))

/-- `apply_sqlite`: the changes in order. -/
def applySqlite (ddl : Ddl) (db : Db) (changes : List Change) : Db :=
  changes.foldl (applyOne ddl) db

end NexusFlow.Foundation
