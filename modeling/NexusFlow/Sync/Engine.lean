import NexusFlow.Foundation.Store
import NexusFlow.Lib.NumberedLog
import NexusFlow.Lib.Program

/-!
# The sync engine

Model of `crates/sync/src/engine.rs:570-985` (one anti-entropy pass: push what is new here, pull what
is new there) and of the pass around it, `crates/nxs/src/sync/mod.rs:1146-1260`.

A pass is a program over the calls it makes (`Call`): requests to the relay, reads and writes of the
local store, and writes of `.nxs/sync.toml`. Each of them may fail, and other processes and other
replicas move between two of them. The marks a pass keeps are part of what it returns, on every way
out: `sync` changes them in place, and the pass saves them before it passes an error on.

* A wire op stands for the `Op` it is read as: `Op::from` and `WireOp::from` (`wire.rs:192-257`) are
  inverse to each other on what a log holds, the signature pair included.
* The JSON length of an op (`op_json_len`) is `serde_json`'s and a parameter.
* Rowids and relay positions are the code's `i64`, only compared and copied here.

Left out: `announce`, what an error's text becomes for the caller, and the bearer.
-/

namespace NexusFlow.Sync

open NexusFlow.Foundation NexusFlow.Lib

/-! ## What a pass keeps and says -/

/-- `Watermarks`: how far this replica's rows were pushed and the relay's positions pulled. -/
structure Watermarks where
  pushedThrough : Int
  pulledThrough : Int
  deriving DecidableEq, Repr

/-- `Watermarks::default`, the start position. -/
def Watermarks.start : Watermarks := ⟨0, 0⟩

/-- `TransportError`. -/
structure TransportError where
  text : String
  deriving DecidableEq, Repr

/-- `PUSH_TOO_LARGE`. -/
def pushTooLarge : String := "the relay refused the push body as too large (413)"

/-- `TransportError::is_too_large`. -/
def TransportError.isTooLarge (e : TransportError) : Bool := e.text == pushTooLarge

/-- `SyncOutcome`. -/
structure SyncOutcome where
  pushed : Nat
  pulled : Nat
  pullCeilingHit : Bool
  budgetExhausted : Bool
  pullPages : Nat
  pullEmptyPages : Nat
  signaturesStripped : Nat
  unsignedFromSigners : Nat
  deriving DecidableEq, Repr

/-- `SyncError`. -/
inductive SyncError
  | storage (text : String)
  | transport (text : String)
  | opTooLarge (opId : String) (bytes : Nat) (limit : Option Nat) (outcome : SyncOutcome)
  deriving DecidableEq, Repr

/-- What a pass asks of the world around it. -/
inductive Call
  /-- `register_prefix`: the request. -/
  | register
  /-- `register_prefix`, `adopt_prefix`: rewrite the store and the workspace to a new prefix. -/
  | adopt (newPrefix : String)
  | localOpsSince (after : Int)
  | push (ops : List Op)
  | pull (since : Int) (limit : Nat)
  | downgrades (wires : List Op)
  /-- One op of `Store::apply`, which takes each in a transaction of its own. -/
  | apply (op : Op)
  /-- `save`: the marks, into `sync.toml`. -/
  | save (marks : Watermarks)
  /-- `PassBudget::exhausted`. -/
  | exhausted
  deriving DecidableEq, Repr

/-- What each is answered with. `Store::apply` panics where the storage fails. -/
abbrev Reply : Call → Type
  | .register => Except TransportError (Option String)
  | .adopt _ => Except SyncError Unit
  | .localOpsSince _ => Except SyncError (List (Int × Op))
  | .push _ => Except TransportError Unit
  | .pull _ _ => Except TransportError (List Op × Int)
  | .downgrades _ => Except SyncError (Nat × Nat)
  | .apply _ => Unit
  | .save _ => Except SyncError Unit
  | .exhausted => Bool

/-- A piece of a pass. -/
abbrev Pass (α : Type) : Type := Prog Call Reply α

/-- One call of a pass. -/
def ask (c : Call) : Pass (Reply c) := Prog.perform c

/-! ## The local reads -/

/-- `local_ops_since`: this site's rows after a rowid, in rowid order. -/
def localOpsSince (f : File) (site after : Int) : List (Int × Op) :=
  (numbered (fun n (r : LogRow) => (n, r.op)) f.ops).filter fun e =>
    decide (after < e.1) && e.2.site == site

/-- `carries_a_signature`: any part of the pair. -/
def carriesASignature (w : Op) : Bool := w.keyId.isSome || w.sig.isSome

/-- One turn of `downgrades`, for an op that came without any part of a signature: whether it is a
strip, and whether it is new from a site that signs. -/
def downgrade (f : File) (wires : List Op) (wire : Op) : Bool × Bool :=
  match f.ops.find? fun r => r.op.opId == wire.opId with
  | some held => (held.op.keyId.isSome, false)
  | none => (false,
      (wires.any fun w => carriesASignature w && w.site == wire.site) ||
        f.ops.any fun r => r.op.site == wire.site && r.op.keyId.isSome)

/-- `downgrades`: the strips and the unsigned ops of signing sites on one page. -/
def downgrades (f : File) (wires : List Op) : Nat × Nat :=
  let judged := (wires.filter fun w => !carriesASignature w).map (downgrade f wires)
  (judged.countP Prod.fst, judged.countP Prod.snd)

/-! ## Push -/

/-- What the push half changes in place. -/
structure Pushing where
  marks : Watermarks
  pushed : Nat
  deriving DecidableEq, Repr

/-- The rows of one push request, with their rowids. -/
abbrev Batch : Type := List (Int × Op)

/-- `PUSH_BODY_FRAME`: the bytes around a push body's ops. -/
def pushBodyFrame : Nat := 10

/-- `push_halving_on_413`: push one run, advancing `pushed_through` with every request that lands; a
413 halves the run, and a single op the relay refuses ends it. A run is never empty
(`splitByBodySize_ne_nil`). -/
def pushHalvingOn413 (opJsonLen : Op → Nat) (batch : Batch) (s : Pushing) :
    Pass (Except SyncError (Option (String × Nat)) × Pushing) := do
  match ← ask (.push (batch.map Prod.snd)) with
  | .ok () =>
    let s : Pushing :=
      { marks := { s.marks with
          pushedThrough := (batch.getLast?.map Prod.fst).getD s.marks.pushedThrough }
        pushed := s.pushed + batch.length }
    match ← ask (.save s.marks) with
    | .ok () => pure (.ok none, s)
    | .error e => pure (.error e, s)
  | .error e =>
    if e.isTooLarge then
      if _h : 1 < batch.length then
        let (r, s) ← pushHalvingOn413 opJsonLen (batch.take (batch.length / 2)) s
        match r with
        | .ok none => pushHalvingOn413 opJsonLen (batch.drop (batch.length / 2)) s
        | r => pure (r, s)
      else pure (.ok (batch.head?.map fun e => (e.2.opId, pushBodyFrame + opJsonLen e.2)), s)
    else pure (.error (.transport e.text), s)
termination_by batch.length
decreasing_by
  · rw [List.length_take]
    omega
  · rw [List.length_drop]
    omega

/-- `BodySplit`. -/
structure BodySplit where
  batches : List Batch
  tooLarge : Option (String × Nat)
  deriving DecidableEq, Repr

/-- The loop of `split_by_body_size`: `run` is `page[start..i]`, and `body` its length so far. -/
def splitLoop (opJsonLen : Op → Nat) (ceiling : Nat) : Batch → Nat → Batch → BodySplit
  | run, _, [] => ⟨if run.isEmpty then [] else [run], none⟩
  | run, body, e :: page =>
    let len := opJsonLen e.2
    let alone := pushBodyFrame + len
    if ceiling < alone then ⟨if run.isEmpty then [] else [run], some (e.2.opId, alone)⟩
    else
      let comma := if run.isEmpty then 0 else 1
      if ceiling < body + comma + len then
        let rest := splitLoop opJsonLen ceiling [e] alone page
        ⟨run :: rest.batches, rest.tooLarge⟩
      else splitLoop opJsonLen ceiling (run ++ [e]) (body + comma + len) page

/-- `split_by_body_size`: cut a page into consecutive runs whose bodies stay within the ceiling. -/
def splitByBodySize (opJsonLen : Op → Nat) (page : Batch) (ceiling : Nat) : BodySplit :=
  splitLoop opJsonLen ceiling [] pushBodyFrame page

/-- `slice::chunks`, from a started chunk. -/
def chunksFrom {α : Type} (size : Nat) : List α → List α → List (List α)
  | chunk, [] => if chunk.isEmpty then [] else [chunk]
  | chunk, a :: rest =>
    if size ≤ chunk.length + 1 then (chunk ++ [a]) :: chunksFrom size [] rest
    else chunksFrom size (chunk ++ [a]) rest

/-- `slice::chunks`. -/
def chunks {α : Type} (size : Nat) (l : List α) : List (List α) := chunksFrom size [] l

/-- The inner loop of the push: the requests of one page. -/
def pushBatches (opJsonLen : Op → Nat) :
    List Batch → Pushing → Pass (Except SyncError (Option (String × Nat)) × Pushing)
  | [], s => pure (.ok none, s)
  | batch :: batches, s => do
    let (r, s) ← pushHalvingOn413 opJsonLen batch s
    match r with
    | .ok none => pushBatches opJsonLen batches s
    | r => pure (r, s)

/-- The outer loop, `'pages`: the op that stopped it, with the ceiling where it was this build's. -/
def pushPages (opJsonLen : Op → Nat) (ceiling : Nat) :
    List Batch → Pushing → Pass (Except SyncError (Option (String × Nat × Option Nat)) × Pushing)
  | [], s => pure (.ok none, s)
  | page :: pages, s => do
    let split := splitByBodySize opJsonLen page ceiling
    let (r, s) ← pushBatches opJsonLen split.batches s
    match r with
    | .error e => pure (.error e, s)
    | .ok (some (opId, bytes)) => pure (.ok (some (opId, bytes, none)), s)
    | .ok none =>
      match split.tooLarge with
      | some (opId, bytes) => pure (.ok (some (opId, bytes, some ceiling)), s)
      | none => pushPages opJsonLen ceiling pages s

/-! ## Pull -/

/-- What the pull half changes in place. -/
structure Pulling where
  marks : Watermarks
  pulled : Nat
  pullPages : Nat
  pullEmptyPages : Nat
  pullCeilingHit : Bool
  budgetExhausted : Bool
  signaturesStripped : Nat
  unsignedFromSigners : Nat
  deriving DecidableEq, Repr

/-- The pull half before its first request. -/
def Pulling.from (marks : Watermarks) : Pulling := ⟨marks, 0, 0, 0, false, false, 0, 0⟩

/-- `Store::apply` of a page. -/
def applyAll : List Op → Pass Unit
  | [] => pure ()
  | op :: ops => do
    ask (.apply op)
    applyAll ops

/-- The page of one request: judged by what is held so far, then applied. -/
def takePage (wires : List Op) (s : Pulling) : Pass (Except SyncError Unit × Pulling) :=
  if wires.isEmpty then pure (.ok (), s)
  else do
    let s := { s with pulled := s.pulled + wires.length }
    match ← ask (.downgrades wires) with
    | .error e => pure (.error e, s)
    | .ok (stripped, unsigned) =>
      applyAll wires
      pure (.ok (), { s with
        signaturesStripped := s.signaturesStripped + stripped
        unsignedFromSigners := s.unsignedFromSigners + unsigned })

/-- The pull loop, with `room` pages left under the ceiling after the next one. -/
def pullLoop (pageLimit : Nat) : Nat → Pulling → Pass (Except SyncError Unit × Pulling)
  | room, s => do
    let since := s.marks.pulledThrough
    match ← ask (.pull since pageLimit) with
    | .error e => pure (.error (.transport e.text), s)
    | .ok (wires, next) =>
      -- the mark moves before the page is looked at
      let s := { s with marks := { s.marks with pulledThrough := max next since } }
      let (r, s) ← takePage wires s
      match r with
      | .error e => pure (.error e, s)
      | .ok () =>
        if s.marks.pulledThrough = since then pure (.ok (), s)
        else
          match ← ask (.save s.marks) with
          | .error e => pure (.error e, s)
          | .ok () =>
            let s := { s with
              pullPages := s.pullPages + 1
              pullEmptyPages := s.pullEmptyPages + (if wires.isEmpty then 1 else 0) }
            match room with
            | 0 => pure (.ok (), { s with pullCeilingHit := true })
            | room + 1 =>
              let spent ← ask .exhausted
              if spent = true then pure (.ok (), { s with budgetExhausted := true })
              else pullLoop pageLimit room s

/-! ## The pass -/

/-- The numbers a pass runs with, and the length `serde_json` gives an op. -/
structure PassConfig where
  pageLimit : Nat
  pullPageCeiling : Nat
  pushBodyCeiling : Nat
  opJsonLen : Op → Nat

/-- What the caller of `nxs sync` runs with: `SYNC_PAGE_LIMIT`, `PULL_PAGE_CEILING` and
`MAX_PUSH_BYTES`. -/
def PassConfig.production (opJsonLen : Op → Nat) : PassConfig :=
  ⟨500, 20000, 8 * 1024 * 1024, opJsonLen⟩

/-- The outcome of both halves. -/
def outcomeOf (pushed : Nat) (s : Pulling) : SyncOutcome where
  pushed := pushed
  pulled := s.pulled
  pullCeilingHit := s.pullCeilingHit
  budgetExhausted := s.budgetExhausted
  pullPages := s.pullPages
  pullEmptyPages := s.pullEmptyPages
  signaturesStripped := s.signaturesStripped
  unsignedFromSigners := s.unsignedFromSigners

/-- `sync_with_pull_ceiling` once the local rows are read: the result, and the marks it leaves. -/
def syncRows (c : PassConfig) (rows : Batch) (marks : Watermarks) :
    Pass (Except SyncError SyncOutcome × Watermarks) := do
  let pageLimit := max c.pageLimit 1
  let (r, s) ← pushPages c.opJsonLen c.pushBodyCeiling (chunks pageLimit rows) ⟨marks, 0⟩
  match r with
  | .error e => pure (.error e, s.marks)
  | .ok tooLarge =>
    let (r, p) ← pullLoop pageLimit (c.pullPageCeiling - 1) (.from s.marks)
    match r with
    | .error e => pure (.error e, p.marks)
    | .ok () =>
      match tooLarge with
      | some (opId, bytes, limit) =>
        pure (.error (.opTooLarge opId bytes limit (outcomeOf s.pushed p)), p.marks)
      | none => pure (.ok (outcomeOf s.pushed p), p.marks)

/-- `sync_with_pull_ceiling`. -/
def syncWithPullCeiling (c : PassConfig) (marks : Watermarks) :
    Pass (Except SyncError SyncOutcome × Watermarks) := do
  match ← ask (.localOpsSince marks.pushedThrough) with
  | .error e => pure (.error e, marks)
  | .ok rows => syncRows c rows marks

/-- `sync_checkpointed`, and the save after it: the marks are written before an error is passed
on. -/
def syncAndSave (c : PassConfig) (marks : Watermarks) : Pass (Except SyncError SyncOutcome) := do
  let (result, marks) ← syncWithPullCeiling c marks
  match ← ask (.save marks) with
  | .error e => pure (.error e)
  | .ok () => pure result

/-- `pass`, from the marks it loaded. -/
def pass (c : PassConfig) (marks : Watermarks) : Pass (Except SyncError SyncOutcome) := do
  match ← ask .register with
  | .error e => pure (.error (.transport e.text))
  | .ok none => syncAndSave c marks
  | .ok (some newPrefix) =>
    match ← ask (.adopt newPrefix) with
    | .error e => pure (.error e)
    | .ok () => syncAndSave c marks

end NexusFlow.Sync
