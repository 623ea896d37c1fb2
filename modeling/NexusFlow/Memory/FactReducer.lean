import NexusFlow.Foundation.Op

/-!
# memory's fact reducer

Model of `crates/memory/src/fact_reducer.rs` and of its view's `DEFAULT`s
(`crates/memory/src/schema.rs:46-78`): what an op of the `fact` domain does to `memories`.

Every foldable op makes three changes to one row: it seeds the row, lowers the row's `created_*` to
its own coordinate, and writes the register it is about.
-/

namespace NexusFlow.Memory

open NexusFlow.Foundation

/-- `DOMAIN_FACT`. -/
def domainFact : String := "fact"

/-- `str::parse::<i64>`: decimal digits behind an optional sign, within the type. -/
def parseI64 (s : String) : Option Int :=
  let signed (negative : Bool) (digits : List Char) : Option Int := do
    if digits.isEmpty then none
    let n ← digits.foldlM (fun n c => if c.isDigit then some (10 * n + (c.toNat - 48)) else none) 0
    let value : Int := if negative then -n else n
    if -(i64Max + 1) ≤ value ∧ value ≤ i64Max then some value else none
  match s.toList with
  | '-' :: digits => signed true digits
  | '+' :: digits => signed false digits
  | digits => signed false digits

/-- The registers beside the body, each with its own version columns. -/
def registers : List String := ["category", "scope", "refs", "ordinal", "introduction"]

/-- The `DEFAULT`s of `try_apply_memory_views`. -/
def memoryDdl : Ddl := fun table column =>
  if table = "memories" then
    if column = "category" then .text "unsorted"
    else if column = "scope" then .text "project"
    else if column = "refs" then .text ""
    else if ["active", "v", "site", "created_v", "created_site"].contains column ||
        registers.any fun f => column == f ++ "_v" || column == f ++ "_site" then .int 0
    else .null
  else .null

namespace FactReducer

/-- `register_column`: a register is named as its column is. -/
def registerColumn (field : String) : Option String :=
  if registers.contains field then some field else none

/-- `is_well_formed`: a value the register can hold. -/
def isWellFormed (field : String) (value : Option String) : Bool :=
  match value with
  | none => false
  | some v => field != "ordinal" || (parseI64 v).isSome

/-- `FactReducer::is_foldable`. -/
def isFoldable (op : Op) : Bool :=
  op.targetKind == "fact" &&
    if op.field = "body" then op.opType == "set" || op.opType == "forget"
    else (registerColumn op.field).isSome && op.opType == "set" && isWellFormed op.field op.value

/-- The row of the memory, with what an op that comes first seeds. -/
def ensureRow (op : Op) : Change :=
  .ensure "memories" [("key", .text op.targetId)]
    [("author", .text ""), ("updated", .text ""), ("created_v", .int op.lamport),
      ("created_site", .int op.site)]

/-- The coordinate of the memory's earliest op. -/
def createdAt (op : Op) : Change :=
  .register "memories" [("key", .text op.targetId)] [] ("created_v", "created_site") op.version
    .lower

/-- The register the op writes: the body with all that moves with it, or one column. -/
def registerOf (op : Op) : Change :=
  if op.field = "body" then
    let written : Option String × Int := if op.opType = "set" then (op.value, 1) else (none, 0)
    .register "memories" [("key", .text op.targetId)]
      [("body", .ofOption written.1), ("author", .text op.author), ("updated", .text op.wallClock),
        ("active", .int written.2)] ("v", "site") op.version .higher
  else
    .register "memories" [("key", .text op.targetId)] [(op.field, .ofOption op.value)]
      (op.field ++ "_v", op.field ++ "_site") op.version .higher

/-- `FactReducer::changes`. -/
def changes (op : Op) : List Change := [ensureRow op, createdAt op, registerOf op]

/-- `FactReducer::view_tables`. -/
def viewTables : List String := ["memories"]

end FactReducer

/-- `FactReducer`, at the trait's `fold_revision`. -/
def factReducer : Reducer where
  domain := domainFact
  isFoldable := FactReducer.isFoldable
  changes := FactReducer.changes
  foldRevision := 0
  viewTables := FactReducer.viewTables
  ddl := memoryDdl

end NexusFlow.Memory
