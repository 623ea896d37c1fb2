import NexusFlow.Hosted.Layout
import NexusFlow.Lib.KeyMap
import NexusFlow.Lib.Program

/-!
# The requests a fold makes of its table

Model of `crates/fold-ddb/src/table.rs`, of one write (`write.rs:24-92`) and of the table in memory
(`mem.rs`), which answers as DynamoDB does: a row is its attributes by name, an attribute may be
absent, and a comparison with an absent attribute is false.

A request that fails ends the program that sent it, so a program's requests are answered without an
error here, and a run may stop at any of them.
-/

namespace NexusFlow.Hosted

open NexusFlow.Foundation NexusFlow.Lib

/-- A stored row: its attributes by name. -/
abbrev Row : Type := KeyMap String Cell

/-- `text`: a text cell, `none` when it is absent or `NULL`. -/
def Row.text (row : Row) (column : String) : Option String :=
  match row.get column with
  | some (.text v) => some v
  | _ => none

/-- `int`: an integer cell. -/
def Row.int (row : Row) (column : String) : Option Int :=
  match row.get column with
  | some (.int v) => some v
  | _ => none

/-! ## Writes -/

/-- `Cond`: a condition over the row as stored. -/
inductive Cond
  | rowAbsent
  | rowPresent
  | absent (attr : String)
  | beats (columns : List String) (theirs : List Int) (wins : Wins)
  | any (parts : List Cond)

/-- `Write`: one write to one row. -/
structure Write where
  sk : String
  set : Cells
  remove : List String
  condition : Option Cond

/-- `Write::put`: an unconditional write. -/
def Write.put (sk : String) (set : Cells) : Write := ⟨sk, set, [], none⟩

/-- `attribute_bytes`: what one attribute weighs toward the item limit. -/
def attributeBytes (name : String) (cell : Cell) : Nat :=
  name.utf8ByteSize + match cell with
    | .null => 1
    | .text v => v.utf8ByteSize
    | .int _ => 21

/-- `Write::bytes`. -/
def Write.bytes (w : Write) : Nat :=
  Attr.sk.utf8ByteSize + w.sk.utf8ByteSize + (w.set.map fun c => attributeBytes c.1 c.2).sum

/-- The version stored in `row`, every column of it present. -/
def Row.version (row : Row) (columns : List String) : Option (List Int) := columns.mapM row.int

mutual

/-- `holds`: whether a condition holds over the stored row. -/
def Cond.holds (row : Option Row) : Cond → Bool
  | .rowAbsent => row.isNone
  | .rowPresent => row.isSome
  | .absent attr => row.all fun r => !r.contains attr
  | .beats columns theirs wins =>
    !columns.isEmpty && ((row.bind fun r => r.version columns).any fun stored =>
      decide (wins.beats theirs stored))
  | .any parts => Cond.holdsAny row parts

/-- At least one of them holds. -/
def Cond.holdsAny (row : Option Row) : List Cond → Bool
  | [] => false
  | c :: parts => c.holds row || Cond.holdsAny row parts

end

theorem Cond.holdsAny_eq (row : Option Row) (parts : List Cond) :
    Cond.holdsAny row parts = parts.any (Cond.holds row) := by
  induction parts with
  | nil => rfl
  | cons c parts ih => rw [Cond.holdsAny, List.any_cons, ih]

/-- `Outcome`: what a write did. -/
inductive Outcome
  | written
  | kept
  | tooLarge
  deriving DecidableEq, Repr

/-! ## The table in memory -/

/-- `MemTable`: one stream's partition. -/
structure MemTable where
  stream : String
  rows : KeyMap String Row

namespace MemTable

/-- The row a write starts from: the stored one, or one with its keys. -/
def rowAt (t : MemTable) (key : String) : Row :=
  (t.rows.get key).getD
    ((KeyMap.empty.insert Attr.pk (.text t.stream)).insert Attr.sk (.text key))

/-- What a write makes of a row. -/
def update (row : Row) (w : Write) : Row :=
  w.remove.foldl KeyMap.erase (w.set.foldl (fun r c => r.insert c.1 c.2) row)

/-- What a row weighs. -/
def rowBytes (row : Row) : Nat := (row.entries.map fun c => attributeBytes c.1 c.2).sum

/-- `MemTable::write`. -/
def write (t : MemTable) (w : Write) : Outcome × MemTable :=
  if w.condition.any fun c => !c.holds (t.rows.get w.sk) then (.kept, t)
  else if maxItemBytes < rowBytes (update (t.rowAt w.sk) w) then (.tooLarge, t)
  else (.written, { t with rows := t.rows.insert w.sk (update (t.rowAt w.sk) w) })

/-- `MemTable::delete`. -/
def delete (t : MemTable) (key : String) : MemTable := { t with rows := t.rows.erase key }

/-- `MemTable::query_prefix`: in key order, as the rows are kept. -/
def queryPrefix (t : MemTable) (pre : String) : List Row :=
  (t.rows.entries.filter fun e => startsWith pre e.1).map Prod.snd

/-- `MemTable::query_active`. -/
def queryActive (t : MemTable) : List Row :=
  (t.rows.entries.map Prod.snd).filter fun r => r.get Attr.active == some (.text t.stream)

/-- `MemTable::get_many`, by sort key. -/
def getMany (t : MemTable) (keys : List String) : List (String × Row) :=
  t.rows.entries.filter fun e => keys.contains e.1

end MemTable

/-! ## Programs over the table -/

/-- A request. -/
inductive Call
  | get (key : String)
  | write (w : Write)
  | delete (key : String)
  | queryPrefix (pre : String)
  | queryActive

/-- What each is answered with. -/
abbrev Reply : Call → Type
  | .get _ => Option Row
  | .write _ => Outcome
  | .delete _ => Unit
  | .queryPrefix _ => List Row
  | .queryActive => List Row

/-- A program over the table. -/
abbrev Requests (α : Type) : Type := Prog Call Reply α

/-- One request. -/
def request (c : Call) : Requests (Reply c) := Prog.perform c

/-- The answer of the table in memory, and the table after it. -/
def MemTable.answer (t : MemTable) : (c : Call) → Reply c × MemTable
  | .get key => (t.rows.get key, t)
  | .write w => t.write w
  | .delete key => ((), t.delete key)
  | .queryPrefix pre => (t.queryPrefix pre, t)
  | .queryActive => (t.queryActive, t)

/-- A program run on the table in memory, alone and to its end. -/
abbrev Requests.run {α : Type} (p : Requests α) (t : MemTable) : α × MemTable :=
  Prog.runAt MemTable.answer p t

end NexusFlow.Hosted
