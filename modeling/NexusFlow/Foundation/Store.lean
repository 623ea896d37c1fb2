import Mathlib.Data.List.Sort
import Mathlib.Logic.Function.Basic
import NexusFlow.Foundation.Op
import NexusFlow.Foundation.View

/-!
# The op-log substrate

Model of `crates/foundation/src/store.rs`: the log with its coordinate index, the fold dispatch, the
clock, and the per-product watermark.

* `File` is what the database file holds and every process sees: the `ops` table, the view tables,
  `view_watermarks`, `log_base` and `trusted_keys`. The log is append-only (a trigger refuses every
  `DELETE`), so SQLite's `rowid` of an op is its position in `File.ops`, counted from 1.
* `Handle` is what one open `Store` keeps in memory: its site, its clock, its reducers and the
  product it is bound to. A `Store` is a handle on a file; several handles may share one.
* `ulid::Ulid::new` is the handle's own supply of op ids (`ulids`, of which `minted` have been
  handed out).

A `none` is a panic: a failed `assert!`, an overflowing clock. The `debug_assert!`s on what an emit
folds to are absent from a release build and from here. What a local write cannot get past, the
write lock not taken in time, writes nothing and is not modelled.
-/

namespace NexusFlow.Foundation

/-! ## The file -/

/-- One row of `ops`: the op and this replica's verdict on it. -/
structure LogRow where
  op : Op
  provenance : Provenance
  deriving DecidableEq, Repr

/-- One row of `view_watermarks`. -/
structure Watermark where
  foldedThrough : Nat
  foldRevision : Int
  revisionThrough : Nat
  deriving DecidableEq, Repr

/-- The `log_base` row of a store that started from a based image, the columns the substrate reads
back. -/
structure LogBase where
  relayPosition : Int
  clock : Int
  deriving DecidableEq, Repr

/-- The database file. -/
structure File where
  /-- `ops`, in `rowid` order. -/
  ops : List LogRow
  /-- Whether the index on `(lamport, site)` is `UNIQUE`. -/
  coordinateIndexUnique : Bool
  /-- Every product's view tables. -/
  views : Db
  /-- `view_watermarks`, by `store_id`. -/
  watermarks : String → Option Watermark
  logBase : Option LogBase
  /-- `trusted_keys.key_id`. -/
  trustedKeys : List String

namespace File

/-- A database just created. -/
def fresh : File := ⟨[], true, Db.empty, fun _ => none, none, []⟩

/-- `SELECT 1 FROM ops WHERE op_id = ?1`. -/
def holdsOp (f : File) (opId : String) : Bool := f.ops.any fun r => r.op.opId == opId

/-- `max_op_rowid`: 0 when the log is empty. -/
def maxOpRowid (f : File) : Nat := f.ops.length

/-- `folded_through`. -/
def foldedThrough (f : File) (storeId : String) : Nat :=
  match f.watermarks storeId with
  | some w => w.foldedThrough
  | none => 0

/-- `recorded_revision`. -/
def recordedRevision (f : File) (storeId : String) : Int × Nat :=
  match f.watermarks storeId with
  | some w => (w.foldRevision, w.revisionThrough)
  | none => (0, 0)

/-- The log's rows within `MAX_LAMPORT`. -/
def inBound (f : File) : List LogRow := f.ops.filter fun r => decide (r.op.lamport ≤ maxLamport)

/-- `high_water_mark`'s first term: the highest in-bound number, capped at the ceiling. -/
def receivedMark (f : File) : Int :=
  match (f.inBound.map fun r => r.op.lamport).max? with
  | some m => min m clockCeiling
  | none => 0

/-- Its second term: this replica's own highest in-bound number. -/
def ownMark (f : File) : Int :=
  ((f.inBound.filter fun r => decide (r.provenance = .own)).map fun r => r.op.lamport).max?.getD 0

/-- Its third term: the base's clock floor. -/
def baseMark (f : File) : Int :=
  match f.logBase with
  | some b => b.clock
  | none => 0

/-- `high_water_mark`. -/
def highWaterMark (f : File) : Int := max (max f.receivedMark f.ownMark) f.baseMark

/-- `coordinate_refused`: for a local op, any other op holds the coordinate; for a received one, one
of this replica's own does. -/
def coordinateRefused (f : File) (op : Op) (own : Bool) : Bool :=
  f.ops.any fun r => r.op.lamport == op.lamport && r.op.site == op.site && r.op.opId != op.opId &&
    (own || decide (r.provenance = .own))

/-- `first_free_coordinate`: the end of the run of held numbers on `site` that starts at `taken`,
plus one. `none` where the query answers `NULL`, or a number past `i64`. -/
def firstFreeCoordinate (f : File) (site taken : Int) : Option Int :=
  let runEnds := f.ops.filter fun o => o.op.site == site && decide (taken ≤ o.op.lamport) &&
    !(f.ops.any fun n => n.op.site == site && n.op.lamport == o.op.lamport + 1)
  match (runEnds.map fun r => r.op.lamport).min? with
  | some m => if m + 1 ≤ i64Max then some (m + 1) else none
  | none => none

/-- The log with one more row. -/
def append (f : File) (op : Op) (provenance : Provenance) : File :=
  { f with ops := f.ops ++ [⟨op, provenance⟩] }

/-- `insert_op`: `INSERT OR IGNORE`. `none` when a uniqueness constraint skipped the row. -/
def insertOp (f : File) (op : Op) (provenance : Provenance) : Option File :=
  if f.holdsOp op.opId ||
      (f.coordinateIndexUnique &&
        f.ops.any fun r => r.op.lamport == op.lamport && r.op.site == op.site) then none
  else some (f.append op provenance)

/-- `ORDER BY lamport, site`. -/
def ExportLe (a b : Op) : Prop := a.lamport < b.lamport ∨ (a.lamport = b.lamport ∧ a.site ≤ b.site)

instance : DecidableRel ExportLe := fun _ _ => inferInstanceAs (Decidable (_ ∨ _))

/-- `Store::export`: the log ordered by `(lamport, site, rowid)`. The sort is stable, which is what
the `rowid` in the key says. -/
def exportOps (f : File) : List Op := (f.ops.map LogRow.op).insertionSort ExportLe

/-- `fn fold`: the op's changes, carried out. -/
def fold (f : File) (r : Reducer) (op : Op) : File :=
  { f with views := applySqlite r.ddl f.views (r.changes op) }

/-- `reducer.clear_views` of each reducer. -/
def clearViews (f : File) (reducers : List Reducer) : File :=
  { f with views := f.views.clear (reducers.flatMap Reducer.viewTables) }

end File

/-! ## The handle -/

/-- The in-memory half of a `Store`. -/
structure Handle where
  site : Int
  clock : Int
  wallClock : String
  reducers : List Reducer
  /-- The `store_id` this handle folds for, once bound. -/
  viewsKey : Option String
  key : ReplicaKey
  /-- The op ids `ulid::Ulid::new` hands out, in order. -/
  ulids : Nat → String
  /-- How many of them have been handed out. -/
  minted : Nat

/-- What became of an op. -/
inductive Ingest
  | folded
  | deferred
  | alreadySeen
  | collided
  deriving DecidableEq, Repr

namespace Handle

/-- `Store::fold_revision`: the reducers' revisions added up. -/
def foldRevision (h : Handle) : Int := (h.reducers.map Reducer.foldRevision).sum

/-- `refresh_clock`. -/
def refreshClock (h : Handle) (f : File) : Handle :=
  if h.clock < f.highWaterMark then { h with clock := f.highWaterMark } else h

/-- `tick`: checked, never wrapping. -/
def tick (h : Handle) : Option Handle :=
  if h.clock + 1 ≤ i64Max then some { h with clock := h.clock + 1 } else none

/-- The clock half of `apply`. -/
def observe (h : Handle) (op : Op) : Handle :=
  if op.lamportInBound && decide (h.clock < min op.lamport clockCeiling) then
    { h with clock := min op.lamport clockCeiling }
  else h

/-- `advance_watermark`: after a fold of the whole log. -/
def advanceWatermark (h : Handle) (f : File) (rowid : Nat) : File :=
  match h.viewsKey with
  | none => f
  | some key =>
    let w : Watermark := match f.watermarks key with
      | none => ⟨rowid, h.foldRevision, rowid⟩
      | some w => ⟨max w.foldedThrough rowid, w.foldRevision,
          if w.foldRevision = h.foldRevision then max w.revisionThrough rowid
          else w.revisionThrough⟩
    { f with watermarks := Function.update f.watermarks key (some w) }

/-- `advance_watermark_after`: after one op was taken in at `rowid`. `MIN(rowid)` of a log that is
not empty is 1, and `MAX(rowid) … WHERE rowid < ?2` is `rowid - 1`. -/
def advanceWatermarkAfter (h : Handle) (f : File) (rowid : Nat) : File :=
  match h.viewsKey with
  | none => f
  | some key =>
    let w : Watermark := match f.watermarks key with
      | none => ⟨rowid, h.foldRevision, if rowid = 1 then rowid else 0⟩
      | some w => ⟨max w.foldedThrough rowid, w.foldRevision,
          if w.foldRevision = h.foldRevision ∧ rowid - 1 ≤ w.revisionThrough then
            max w.revisionThrough rowid
          else w.revisionThrough⟩
    { f with watermarks := Function.update f.watermarks key (some w) }

/-- The end of `ingest_in_txn`, once the op's row is in the log: dispatch, fold, watermark. -/
def takeIn (h : Handle) (f : File) (op : Op) : Ingest × File :=
  match folderFor h.reducers op with
  | some r => (.folded, h.advanceWatermarkAfter (f.fold r op) f.maxOpRowid)
  | none => (.deferred, h.advanceWatermarkAfter f f.maxOpRowid)

/-- `ingest_in_txn`. -/
def ingestInTxn (h : Handle) (f : File) (op : Op) (provenance : Provenance) : Ingest × File :=
  let own := decide (provenance = .own)
  if !f.coordinateIndexUnique && f.coordinateRefused op own then (.collided, f)
  else match f.insertOp op provenance with
    | some f' => h.takeIn f' op
    | none =>
      if f.holdsOp op.opId then (.alreadySeen, f)
      else if f.coordinateRefused op own then (.collided, f)
      -- received, on a coordinate only received ops hold: the index loses its uniqueness, and a
      -- degraded index refuses nothing
      else h.takeIn ({ f with coordinateIndexUnique := false }.append op provenance) op

/-- `fold_whole_log`. -/
def foldWholeLog (h : Handle) (f : File) : File :=
  f.exportOps.foldl (fun f op =>
    match folderFor h.reducers op with
    | some r => f.fold r op
    | none => f) f

/-- The check of `bind_views`: this revision cannot vouch for the views. -/
def needsRebuild (h : Handle) (f : File) (storeId : String) : Bool :=
  let (recorded, revisionThrough) := f.recordedRevision storeId
  decide (recorded < h.foldRevision ∨
    (recorded = h.foldRevision ∧ revisionThrough < f.maxOpRowid))

/-- The rebuild of `bind_views`: clear, fold the whole log, stamp the watermark. -/
def rebuild (h : Handle) (f : File) (storeId : String) : File :=
  let f := h.foldWholeLog (f.clearViews h.reducers)
  let boundary := f.maxOpRowid
  let w : Watermark := ⟨boundary, h.foldRevision, boundary⟩
  { f with watermarks := Function.update f.watermarks storeId (some w) }

end Handle

/-! ## The store -/

/-- A handle on a file. -/
structure Store where
  handle : Handle
  file : File

/-- Where a local op's target id comes from. -/
inductive Target
  | given (id : String)
  | owned (pre : String)
  deriving DecidableEq, Repr

/-- The arguments of a local write. -/
structure Draft where
  domain : String
  targetKind : String
  target : Target
  field : String
  opType : String
  value : Option String
  author : String
  deriving DecidableEq, Repr

/-- What a based store refuses: each of these rebuilds the views from a log it does not hold. -/
inductive NeedsHistory
  | rebuild (of : String) (recorded ours base : Int)
  | remap (fromPrefix toPrefix : String) (base : Int)
  deriving DecidableEq, Repr

namespace Store

/-- `open_in_memory`: a fresh file whose trust list seats this replica's key. -/
def openInMemory (site : Int) (key : ReplicaKey) (ulids : Nat → String) : Store where
  handle := ⟨site, 0, "", [], none, key, ulids, 0⟩
  file := { File.fresh with trustedKeys := [key.keyId] }

/-- `register_reducer`. -/
def registerReducer (s : Store) (r : Reducer) : Store :=
  { s with handle := { s.handle with reducers := s.handle.reducers ++ [r] } }

/-- The op a draft becomes, before it has a Lamport number and a signature. -/
def draftOp (h : Handle) (d : Draft) : Op where
  opId := h.ulids h.minted
  lamport := 0
  site := h.site
  domain := d.domain
  targetKind := d.targetKind
  targetId := match d.target with
    | .given id => id
    | .owned pre => pre ++ h.ulids h.minted
  field := d.field
  opType := d.opType
  value := d.value
  author := d.author
  wallClock := h.wallClock
  keyId := none
  sig := none

/-- One turn of the minting loop: tick, seal, ingest. -/
def attempt (s : Store) (op : Op) : Option (Op × Ingest × Store) := do
  let h ← s.handle.tick
  let op := h.key.seal { op with lamport := h.clock }
  let (ingest, f) := h.ingestInTxn s.file op .own
  pure (op, ingest, ⟨h, f⟩)

/-- `build_and_ingest`: refresh the clock, mint, seal and append under one write lock; on a squatted
coordinate jump once past the squatted run. -/
def buildAndIngest (s : Store) (d : Draft) : Option (Op × Ingest × Store) :=
  if isAttributable d.author then do
    let op := draftOp s.handle d
    let h := { s.handle.refreshClock s.file with minted := s.handle.minted + 1 }
    let (op₁, ingest, s₁) ← attempt ⟨h, s.file⟩ op
    if ingest = .collided then
      let free ← s₁.file.firstFreeCoordinate s.handle.site op₁.lamport
      let (op₂, ingest, s₂) ← attempt { s₁ with handle := { s₁.handle with clock := free - 1 } } op
      if ingest = .collided then none else pure (op₂, ingest, s₂)
    else pure (op₁, ingest, s₁)
  else none

/-- `emit`: the op id, and the store after it. -/
def emit (s : Store) (d : Draft) : Option (String × Store) :=
  (s.buildAndIngest d).map fun r => (r.1.opId, r.2.2)

/-- One op of `apply`. -/
def applyOp (s : Store) (op : Op) : Ingest × Store :=
  let h := s.handle.observe op
  let (ingest, f) := h.ingestInTxn s.file op (.ofReceived h.key op)
  (ingest, ⟨h, f⟩)

/-- `apply`: the ops in order; the ones the views did not take in are handed back. -/
def apply (s : Store) : List Op → List Op × Store
  | [] => ([], s)
  | op :: ops =>
    let (ingest, s) := s.applyOp op
    let (deferred, s) := s.apply ops
    (if ingest = .deferred ∨ ingest = .collided then op :: deferred else deferred, s)

/-- `refold`. -/
def refold (s : Store) : Store := { s with file := s.handle.foldWholeLog s.file }

/-- `bind_views`, with nobody writing in between: whether it rebuilt. -/
def bindViews (s : Store) (storeId : String) : Except NeedsHistory (Bool × Store) :=
  let s : Store := { s with handle := { s.handle with viewsKey := some storeId } }
  if s.handle.needsRebuild s.file storeId then
    match s.file.logBase with
    | some base => .error (.rebuild storeId (s.file.recordedRevision storeId).1
        s.handle.foldRevision base.relayPosition)
    | none => .ok (true, { s with file := s.handle.rebuild s.file storeId })
  else .ok (false, s)

/-- `force_refold`, with nobody writing in between. -/
def forceRefold (s : Store) (storeId : String) : Except NeedsHistory Store := do
  let (rebuilt, s) ← s.bindViews storeId
  if rebuilt then pure s
  else
    let s := s.refold
    pure { s with file := s.handle.advanceWatermark s.file s.file.maxOpRowid }

/-- `refold_if_behind`, with nobody writing in between. -/
def refoldIfBehind (s : Store) (storeId : String) : Except NeedsHistory Store := do
  let (rebuilt, s) ← s.bindViews storeId
  if rebuilt then pure s
  else
    let boundary := s.file.maxOpRowid
    if s.file.foldedThrough storeId < boundary then
      let s := s.refold
      pure { s with file := s.handle.advanceWatermark s.file boundary }
    else pure s

end Store

/-! ## Several handles on one file -/

/-- One file and the handles open on it. -/
structure Shared (ι : Type*) where
  file : File
  handles : ι → Handle

namespace Shared

variable {ι : Type*} [DecidableEq ι]

/-- The store one handle is. -/
def store (S : Shared ι) (i : ι) : Store := ⟨S.handles i, S.file⟩

/-- The system after one handle's store moved. -/
def set (S : Shared ι) (i : ι) (s : Store) : Shared ι :=
  ⟨s.file, Function.update S.handles i s.handle⟩

theorem set_self (S : Shared ι) (i : ι) (s : Store) : (S.set i s).handles i = s.handle := by
  simp [set]

theorem set_of_ne (S : Shared ι) {i j : ι} (h : j ≠ i) (s : Store) :
    (S.set i s).handles j = S.handles j := by
  simp [set, h]

end Shared

end NexusFlow.Foundation
