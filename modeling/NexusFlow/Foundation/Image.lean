import Mathlib.Logic.Relation
import NexusFlow.Foundation.Watermark

/-!
# Images

Model of `Store::image`, `Store::load_image` and `Store::write_image`
(`store.rs:1113-1143,1228-1324,1492-1531`) and of the parts of `image.rs` they use: the whole log, the
views of the registered reducers, and how far the store that took the image had folded.

The schema versions are read off the database, which the model does not hold: `image` takes them as
arguments, and `loadImage` takes the answer of `views_cover_every_column`. A based image (one without
its log) is not modelled.

An image records `folded_through`, and the loader writes it back as `folded_through` and as
`revision_through`. So the image is complete exactly as far as `folded_through` is: an ingest raises
it to its own row, over rows a sibling appended and nobody folded.

* `load_image_folds`: along every run in which the bound handle never ingests over foldable rows it
  has not folded, and no op that folds carries a Lamport number below 1, the loaded views are the
  fold of the carried log, at once and after every reopen.
-/

namespace NexusFlow.Foundation

open Relation

/-! ## The image -/

/-- `SCHEMA_VERSION`. -/
def schemaVersion : Int := 9

/-- One table, as an image carries it. -/
structure Table where
  name : String
  rows : List (Cells × Row)

/-- `struct Image`, without a base. The log's rowids are the positions in `ops`. -/
structure Image where
  engine : String
  schemaVersion : Int
  minCompatible : Int
  ops : List Op
  viewsOf : Option String
  foldedThrough : Nat
  foldRevision : Int
  views : List Table

/-- Why an image's views were not taken as they were. -/
inductive RefoldReason
  | noViews
  | otherEngine (writtenBy : String)
  | otherSchema (writtenAt : Int)
  | otherViews
  | otherRevision (writtenAt : Int)
  deriving DecidableEq, Repr

/-- What a load did. -/
inductive Loaded
  | views
  | refolded (reason : RefoldReason)
  deriving DecidableEq, Repr

/-- Why a load wrote nothing. -/
inductive ImageError
  | notEmpty (ops : Nat)
  | tooNew (minCompatible ours : Int)
  | malformed (message : String)
  deriving DecidableEq, Repr

/-- `image::dump` of a view table. -/
def File.dump (f : File) (table : String) : Table :=
  ⟨table, (f.views.rows.filter fun e => e.table = table).map fun e => (e.key, e.row)⟩

/-- `Store::image`: one read transaction. -/
def Store.image (s : Store) (engine : String) (schemaVersion minCompatible : Int) : Image :=
  let views := (s.handle.reducers.flatMap Reducer.viewTables).map s.file.dump
  { engine, schemaVersion, minCompatible
    ops := s.file.log
    viewsOf := s.handle.viewsKey.filter fun _ => !views.isEmpty
    foldedThrough := match s.handle.viewsKey with
      | some key => s.file.foldedThrough key
      | none => 0
    foldRevision := s.handle.foldRevision
    views }

/-! ## Loading -/

/-- `image::typed_log`, from the `n`-th row on: the rows of the model are typed and their rowids
rise, which leaves the op ids to check. -/
def typedLog (n : Nat) (seen : List String) : List Op → Except ImageError Unit
  | [] => .ok ()
  | op :: ops =>
    if op.opId ∈ seen then .error (.malformed s!"op #{n}: op id {op.opId} appears twice")
    else typedLog (n + 1) (op.opId :: seen) ops

/-- `image::insert_view`. -/
def Db.insertView (db : Db) (table : Table) : Db :=
  table.rows.foldl (fun db row => db.put table.name row.1 row.2) db

/-- The verdict of `load_image` on the image's views: `none` to take them. -/
def Handle.refoldReason (h : Handle) (engine : String) (covers : Bool) (image : Image) :
    Option RefoldReason :=
  let ours := h.reducers.flatMap Reducer.viewTables
  let theirs := image.views.map Table.name
  if image.views.isEmpty || image.viewsOf.isNone then some .noViews
  else if image.engine ≠ engine then some (.otherEngine image.engine)
  else if image.schemaVersion ≠ schemaVersion then some (.otherSchema image.schemaVersion)
  else if image.foldRevision ≠ h.foldRevision then some (.otherRevision image.foldRevision)
  else if image.viewsOf ≠ h.viewsKey ∨ ¬ (theirs ⊆ ours ∧ ours ⊆ theirs) ∨ covers = false then
    some .otherViews
  else none

/-- `write_image`: the log under this replica's verdicts, the index in the shape that log calls for,
and, when the views are taken, the views and the watermark. -/
def Handle.writeImage (h : Handle) (f : File) (image : Image) (withViews : Bool) :
    Except ImageError File :=
  if 0 < f.ops.length then .error (.notEmpty f.ops.length)
  else
    let f := { f with
      ops := image.ops.map fun op => ⟨op, .ofReceived h.key op⟩
      coordinateIndexUnique := decide (image.ops.map Op.coordinate).Nodup }
    if withViews then
      let f := { f with views := image.views.foldl Db.insertView f.views }
      match h.viewsKey with
      | some key =>
        let w : Watermark := ⟨image.foldedThrough, h.foldRevision, image.foldedThrough⟩
        .ok { f with watermarks := Function.update f.watermarks key (some w) }
      | none => .ok f
    else .ok f

/-- The clock half of `load_image`. -/
def Handle.observeLog (h : Handle) (ops : List Op) : Handle :=
  match ((ops.map Op.lamport).filter fun l => decide (l ≤ maxLamport)).max? with
  | some highest => { h with clock := max h.clock (min highest clockCeiling) }
  | none => h

/-- `load_image`. -/
def Store.loadImage (s : Store) (engine : String) (covers : Bool) (image : Image) :
    Except ImageError (Loaded × Store) := do
  if schemaVersion < image.minCompatible then
    throw (.tooNew image.minCompatible schemaVersion)
  typedLog 0 [] image.ops
  if 0 < s.file.ops.length then
    throw (.notEmpty s.file.ops.length)
  let reason := s.handle.refoldReason engine covers image
  let f ← s.handle.writeImage s.file image reason.isNone
  let s : Store := ⟨s.handle.observeLog image.ops, f⟩
  match reason with
  | none =>
    match s.handle.viewsKey with
    | some key =>
      -- views that were behind their own log catch up now
      let boundary := s.file.maxOpRowid
      if s.file.foldedThrough key < boundary then
        let s := s.refold
        pure (.views, { s with file := s.handle.advanceWatermark s.file boundary })
      else pure (.views, s)
    | none => pure (.views, s)
  | some reason =>
    let s := s.refold
    pure (.refolded reason, { s with file := s.handle.advanceWatermark s.file s.file.maxOpRowid })

/-! ## Carrying tables -/

theorem Db.get_foldl_put (name : String) (rows : List (Cells × Row)) (db : Db)
    (hnd : (rows.map Prod.fst).Nodup) (t : String) (k : Cells) :
    (rows.foldl (fun db row => db.put name row.1 row.2) db).get t k =
      if t = name then (rows.lookup k).or (db.get t k) else db.get t k := by
  induction rows generalizing db with
  | nil => simp
  | cons p rows ih =>
    obtain ⟨key, row⟩ := p
    obtain ⟨hkey, hnd⟩ := List.nodup_cons.mp hnd
    rw [List.foldl_cons, ih _ hnd, Db.get_put]
    by_cases ht : t = name
    · rw [if_pos ht, if_pos ht, List.lookup_cons]
      by_cases hk : k = key
      · have hnone : rows.lookup k = none := by
          rw [List.lookup_eq_none_iff]
          rintro ⟨k', row'⟩ hp
          rw [hk, bne_iff_ne]
          rintro rfl
          exact hkey (List.mem_map.mpr ⟨_, hp, rfl⟩)
        simp [ht, hk, hk ▸ hnone]
      · simp [hk, beq_eq_false_iff_ne.mpr hk]
    · simp [ht]

theorem File.lookup_dump (f : File) (table : String) (k : Cells) :
    (f.dump table).rows.lookup k = f.views.get table k := by
  unfold File.dump Db.get
  simp only
  induction f.views.rows with
  | nil => rfl
  | cons e rows ih =>
    by_cases ht : e.table = table
    · by_cases hk : e.key = k
      · simp [ht, hk]
      · simp only [List.filter_cons, ht, decide_true, if_true, List.map_cons, List.lookup_cons,
          beq_eq_false_iff_ne.mpr (Ne.symm hk), List.find?_cons, hk, and_false, decide_false]
        exact ih
    · simp only [List.filter_cons, ht, decide_false, List.find?_cons, false_and]
      exact ih

theorem File.dump_nodup (f : File) (table : String) :
    ((f.dump table).rows.map Prod.fst).Nodup := by
  have hnd := f.views.nodup.sublist
    ((List.filter_sublist (p := fun e : Entry => decide (e.table = table))).map _)
  unfold File.dump
  rw [List.map_map]
  refine List.Nodup.of_map (fun key => (table, key)) ?_
  rw [List.map_map]
  refine (List.map_congr_left fun e he => ?_).symm ▸ hnd
  simp only [List.mem_filter, decide_eq_true_eq] at he
  simp [he.2]

/-- Tables carried into a file that has no rows in them come out as they were. -/
theorem get_insertViews (f : File) (tables : List String) (db : Db) (t : String) (k : Cells) :
    ((tables.map f.dump).foldl Db.insertView db).get t k =
      if t ∈ tables then (f.views.get t k).or (db.get t k) else db.get t k := by
  induction tables generalizing db with
  | nil => simp
  | cons table tables ih =>
    rw [List.map_cons, List.foldl_cons, ih]
    unfold Db.insertView
    rw [Db.get_foldl_put _ _ _ (f.dump_nodup table), f.lookup_dump]
    by_cases ht : t = table
    · subst ht
      by_cases hmem : t ∈ tables <;> cases f.views.get t k <;> simp [hmem, File.dump]
    · by_cases hmem : t ∈ tables <;> simp [hmem, ht, File.dump]

/-! ## The runs an image is taken in -/

/-- What a step takes in. -/
inductive LogEvent
  | ingest (op : Op)
  | append (op : Op)
  | reopen

/-- A handle that appends and folds nothing. -/
def Handle.Raw (h : Handle) : Prop := h.reducers = [] ∧ h.viewsKey = none

/-- One step on the file of a bound handle: it writes or receives, a sibling's raw handle does, or
the product is opened again. -/
inductive ImageStep (r : Reducer) (storeId : String) : Store → LogEvent → Store → Prop
  | write {s s' : Store} {d : Draft} {o : Op} {ing : Ingest}
    (h : s.buildAndIngest d = some (o, ing, s')) : ImageStep r storeId s (.ingest o) s'
  | receive {s : Store} (op : Op) : ImageStep r storeId s (.ingest op) (s.applyOp op).2
  | rawWrite {s t : Store} {h : Handle} {d : Draft} {o : Op} {ing : Ingest} (hraw : h.Raw)
    (hw : Store.buildAndIngest ⟨h, s.file⟩ d = some (o, ing, t)) :
    ImageStep r storeId s (.append o) ⟨s.handle, t.file⟩
  | rawReceive {s : Store} {h : Handle} (hraw : h.Raw) (op : Op) :
    ImageStep r storeId s (.append op) ⟨s.handle, (Store.applyOp ⟨h, s.file⟩ op).2.file⟩
  | reopen {s t : Store} {h : Handle} (hr : h.reducers = [r])
    (ho : Store.refoldIfBehind ⟨h, s.file⟩ storeId = .ok t) : ImageStep r storeId s .reopen t

/-- The condition on a step: an op that folds carries a Lamport number of at least 1, and the bound
handle ingests over no foldable row it has not folded. -/
def Caught (r : Reducer) (storeId : String) (s : Store) : LogEvent → Prop
  | .ingest op => (r.folds op = true → 1 ≤ op.lamport) ∧
      ∀ o ∈ s.file.log.drop (s.file.foldedThrough storeId), r.folds o = false
  | .append op => r.folds op = true → 1 ≤ op.lamport
  | .reopen => True

/-- A step that meets the condition. -/
def CaughtStep (r : Reducer) (storeId : String) (s s' : Store) : Prop :=
  ∃ e, ImageStep r storeId s e s' ∧ Caught r storeId s e

/-- A product store just opened on a fresh file. -/
def openFresh (r : Reducer) (storeId : String) (site : Int) (key : ReplicaKey)
    (ulids : Nat → String) : Except NeedsHistory Store :=
  ((Store.openInMemory site key ulids).registerReducer r).refoldIfBehind storeId

/-- In `r`'s tables the two files show the same rows. -/
def SameViews (r : Reducer) (f g : File) : Prop :=
  ∀ t ∈ r.viewTables, ∀ k, f.views.get t k = g.views.get t k

/-- The file with its views cleared and the whole log folded again. -/
def refolded (r : Reducer) (h : Handle) (f : File) : File := h.foldWholeLog (f.clearViews [r])

/-- The product is opened again, any number of times. -/
inductive Reopened (r : Reducer) (storeId : String) : Store → Store → Prop
  | refl (s : Store) : Reopened r storeId s s
  | tail {s t u : Store} {h : Handle} (ht : Reopened r storeId s t) (hr : h.reducers = [r])
    (ho : Store.refoldIfBehind ⟨h, t.file⟩ storeId = .ok u) : Reopened r storeId s u

/-! ## The invariant -/

/-- The views are the fold of the log up to `folded_through`. -/
structure ImageInv (r : Reducer) (storeId : String) (s : Store) : Prop where
  reducers : s.handle.reducers = [r]
  viewsKey : s.handle.viewsKey = some storeId
  noBase : s.file.logBase = none
  nodup : (s.file.log.map Op.opId).Nodup
  lamport : ∀ op ∈ s.file.log, r.folds op = true → 1 ≤ op.lamport
  through : s.file.foldedThrough storeId ≤ s.file.log.length
  views : FoldedBy r s.file (s.file.log.take (s.file.foldedThrough storeId))

section ImageInv

variable {r : Reducer} {storeId : String} {s : Store}

theorem foldedThrough_advanceAfter {h : Handle} (hkey : h.viewsKey = some storeId) (f : File)
    (n : Nat) : (h.advanceWatermarkAfter f n).foldedThrough storeId =
      max (f.foldedThrough storeId) n := by
  simp only [Handle.advanceWatermarkAfter, hkey, File.foldedThrough, Function.update_self]
  cases f.watermarks storeId with
  | none => exact (max_eq_right (Nat.zero_le n)).symm
  | some w => rfl

theorem foldedThrough_advance {h : Handle} (hkey : h.viewsKey = some storeId) (f : File) (n : Nat) :
    (h.advanceWatermark f n).foldedThrough storeId = max (f.foldedThrough storeId) n := by
  simp only [Handle.advanceWatermark, hkey, File.foldedThrough, Function.update_self]
  cases f.watermarks storeId with
  | none => exact (max_eq_right (Nat.zero_le n)).symm
  | some w => rfl

/-- Ops the reducer does not fold leave no trace in the fold. -/
theorem FoldedBy.skip {f : File} {ops skipped : List Op} (h : FoldedBy r f ops)
    (hskip : ∀ op ∈ skipped, r.folds op = false) : FoldedBy r f (ops ++ skipped) := by
  intro t ht k
  rw [List.foldl_append, h t ht k]
  generalize ops.foldl r.foldView (fun _ _ => none) = v
  have hsame : skipped.foldl r.foldView v = v := by
    induction skipped with
    | nil => rfl
    | cons op skipped ih =>
      rw [List.foldl_cons, Reducer.foldView_of_not_folds (hskip op List.mem_cons_self)]
      exact ih fun o ho => hskip o (List.mem_cons_of_mem op ho)
  rw [hsame]

/-- A bound handle that has folded every foldable row ingests the next one. -/
theorem ImageInv.ingest (hs : ImageInv r storeId s) {h : Handle} (hr : h.reducers = [r])
    (hkey : h.viewsKey = some storeId) {op : Op} (p : Provenance)
    (hc : Caught r storeId s (.ingest op)) :
    ImageInv r storeId ⟨h, (s.handle.ingestInTxn s.file op p).2⟩ := by
  obtain ⟨hl, hcaught⟩ := hc
  have hbase : (s.handle.ingestInTxn s.file op p).2.logBase = none := by
    rcases s.handle.ingestInTxn_log s.file op p with he | ⟨_, _, hb, _⟩
    · rw [he]
      exact hs.noBase
    · exact hb.trans hs.noBase
  have hnodup := Handle.ingestInTxn_nodup (h := s.handle) hs.nodup op p
  have hlamport := Handle.ingestInTxn_forall (h := s.handle) hs.lamport hl p
  rcases s.handle.ingestInTxn_cases s.file op p with ⟨he, _⟩ | ⟨he, _⟩ | ⟨u, he, _⟩
  · rw [he]
    exact ⟨hr, hkey, hs.noBase, hs.nodup, hs.lamport, hs.through, hs.views⟩
  · rw [he]
    exact ⟨hr, hkey, hs.noBase, hs.nodup, hs.lamport, hs.through, hs.views⟩
  · rw [he] at hbase hnodup hlamport ⊢
    let f : File := { s.file with coordinateIndexUnique := u }.append op p
    have hlog : (s.handle.takeIn f op).2.log = s.file.log ++ [op] := by
      unfold File.log
      rw [Handle.takeIn_ops]
      simp [f, File.append]
    have hlen : (s.handle.takeIn f op).2.log.length = s.file.log.length + 1 := by simp [hlog]
    have hthrough : (s.handle.takeIn f op).2.foldedThrough storeId = s.file.log.length + 1 := by
      have hw : (s.handle.takeIn f op).2.foldedThrough storeId =
          (s.handle.advanceWatermarkAfter f f.maxOpRowid).foldedThrough storeId := by
        unfold File.foldedThrough
        rw [Handle.takeIn_watermarks]
      have hrow : f.maxOpRowid = s.file.log.length + 1 := by
        simp [f, File.maxOpRowid, File.append, File.log]
      have hle : f.foldedThrough storeId ≤ s.file.log.length := hs.through
      rw [hw, foldedThrough_advanceAfter hs.viewsKey, hrow]
      omega
    refine ⟨hr, hkey, hbase, hnodup, hlamport, (hthrough.trans hlen.symm).le, ?_⟩
    change FoldedBy r (s.handle.takeIn f op).2 _
    rw [hthrough, ← hlen, List.take_length, hlog]
    -- the rows between the mark and the end fold to nothing
    have hall : FoldedBy r s.file s.file.log := by
      have := hs.views.skip hcaught
      rwa [List.take_append_drop] at this
    exact hall.append (Handle.get_takeIn hs.reducers op)

/-- A sibling's raw append leaves the views and the mark where they are. -/
theorem ImageInv.append (hs : ImageInv r storeId s) {h : Handle} (hraw : h.Raw) {op : Op}
    (p : Provenance) (hl : r.folds op = true → 1 ≤ op.lamport) :
    ImageInv r storeId ⟨s.handle, (h.ingestInTxn s.file op p).2⟩ := by
  have hnodup := Handle.ingestInTxn_nodup (h := h) hs.nodup op p
  have hlamport := Handle.ingestInTxn_forall (h := h) hs.lamport hl p
  rcases h.ingestInTxn_cases s.file op p with ⟨he, _⟩ | ⟨he, _⟩ | ⟨u, he, _⟩
  · rw [he]
    exact hs
  · rw [he]
    exact hs
  · rw [he] at hnodup hlamport ⊢
    let f : File := { s.file with coordinateIndexUnique := u }.append op p
    have hfile : (h.takeIn f op).2 = f := h.takeIn_raw hraw.1 hraw.2 f op
    have hlog : f.log = s.file.log ++ [op] := by simp [f, File.append, File.log]
    change ImageInv r storeId ⟨s.handle, (h.takeIn f op).2⟩
    change ((h.takeIn f op).2.log.map Op.opId).Nodup at hnodup
    change ∀ o ∈ (h.takeIn f op).2.log, _ at hlamport
    rw [hfile] at hnodup hlamport ⊢
    have hthrough := hs.through
    refine ⟨hs.reducers, hs.viewsKey, hs.noBase, hnodup, hlamport, ?_, ?_⟩
    · change s.file.foldedThrough storeId ≤ f.log.length
      rw [hlog, List.length_append]
      omega
    · change FoldedBy r f (f.log.take (s.file.foldedThrough storeId))
      rw [hlog, List.take_append_of_le_length hthrough]
      exact hs.views.of_views_eq rfl

/-- A refold, with the watermark advanced to the log's end, catches up with the whole log. -/
theorem ImageInv.catchUp (hr : r.Lawful) (hs : ImageInv r storeId s) {h : Handle}
    (hh : h.reducers = [r]) (hkey : h.viewsKey = some storeId) {f : File}
    (hf : f = h.advanceWatermark (h.foldWholeLog s.file) s.file.maxOpRowid) :
    ImageInv r storeId ⟨h, f⟩ ∧ f.foldedThrough storeId = f.log.length := by
  have hend : s.file.maxOpRowid = s.file.log.length := by simp [File.maxOpRowid, File.log]
  obtain ⟨v, hv⟩ := h.foldWholeLog_eq s.file
  obtain ⟨w, hw⟩ := h.advanceWatermark_eq (h.foldWholeLog s.file) s.file.maxOpRowid
  have hlog : f.log = s.file.log := by
    rw [hf, hw, hv]
    rfl
  have hft : f.foldedThrough storeId = s.file.log.length := by
    rw [hf, foldedThrough_advance hkey, hv, hend]
    exact max_eq_right hs.through
  refine ⟨⟨hh, hkey, ?_, hlog ▸ hs.nodup, hlog ▸ hs.lamport, by rw [hft, hlog], ?_⟩,
    by rw [hft, hlog]⟩
  · rw [hf, hw, hv]
    exact hs.noBase
  · rw [hft, hlog, List.take_length]
    have hviews : FoldedBy r f
        (s.file.log.take (s.file.foldedThrough storeId) ++ s.file.exportOps) := by
      refine hs.views.append ?_
      rw [hf, hw]
      exact Handle.get_foldWholeLog hh
    intro u hu k
    rw [hviews u hu k, List.foldl_append]
    exact congrFun (congrFun (hr.resume hs.nodup hs.lamport _ _) u) k

/-- Opening the product catches up with the whole log. -/
theorem ImageInv.reopen (hr : r.Lawful) (hs : ImageInv r storeId s) {h : Handle} {t : Store}
    (hh : h.reducers = [r]) (ho : Store.refoldIfBehind ⟨h, s.file⟩ storeId = .ok t) :
    ImageInv r storeId t ∧ t.file.foldedThrough storeId = t.file.log.length := by
  obtain ⟨hth, hfile⟩ := Store.refoldIfBehind_cases ho
  have hreducers : t.handle.reducers = [r] := by rw [hth]; exact hh
  have hkey : t.handle.viewsKey = some storeId := by rw [hth]
  rw [← hth] at hfile
  have hend : s.file.maxOpRowid = s.file.log.length := by simp [File.maxOpRowid, File.log]
  rcases hfile with hfile | hfile | ⟨hfile, hle⟩
  · obtain ⟨v, hv⟩ := t.handle.foldWholeLog_eq (s.file.clearViews t.handle.reducers)
    have hlog : t.file.log = s.file.log := by
      rw [hfile, Handle.rebuild, hv]
      rfl
    have hft : t.file.foldedThrough storeId = s.file.log.length := by
      rw [hfile, Handle.rebuild, hv]
      simp only [File.foldedThrough, Function.update_self]
      exact hend
    refine ⟨⟨hreducers, hkey, ?_, hlog ▸ hs.nodup, hlog ▸ hs.lamport, by rw [hft, hlog], ?_⟩,
      by rw [hft, hlog]⟩
    · rw [hfile, Handle.rebuild, hv]
      exact hs.noBase
    · rw [hft, hlog, List.take_length, hfile]
      intro u hu k
      rw [foldedBy_rebuild hreducers storeId u hu k]
      exact congrFun (congrFun (hr.sorted hs.nodup hs.lamport _) u) k
  · exact hs.catchUp hr hreducers hkey hfile
  · have hthrough := hs.through
    rw [hend] at hle
    have hinv : ImageInv r storeId ⟨t.handle, s.file⟩ :=
      ⟨hreducers, hkey, hs.noBase, hs.nodup, hs.lamport, hs.through, hs.views⟩
    rw [← hfile] at hinv hle hthrough
    exact ⟨hinv, le_antisymm hthrough hle⟩

/-- The Lamport number a store without a base mints is at least 1. -/
theorem one_le_minted {s' : Store} {d : Draft} {o : Op} {ing : Ingest} (hb : s.file.logBase = none)
    (h : s.buildAndIngest d = some (o, ing, s')) : 1 ≤ o.lamport := by
  have h0 := File.highWaterMark_nonneg hb
  have hmark := (Store.buildAndIngest_eq_some h).mark
  omega

theorem ImageInv.step (hr : r.Lawful) (hs : ImageInv r storeId s) {s' : Store}
    (h : CaughtStep r storeId s s') : ImageInv r storeId s' := by
  obtain ⟨e, h, hc⟩ := h
  cases h with
  | @write _ d o ing h =>
    rw [(Store.buildAndIngest_eq_some h).store]
    refine hs.ingest ?_ ?_ .own hc
    · exact hs.reducers
    · exact hs.viewsKey
  | receive op =>
    obtain ⟨c, hc'⟩ := s.applyOp_eq op
    rw [hc']
    refine hs.ingest ?_ ?_ _ hc
    · exact hs.reducers
    · exact hs.viewsKey
  | @rawWrite t h d o ing hraw hw =>
    rw [(Store.buildAndIngest_eq_some hw).file]
    exact hs.append hraw .own hc
  | @rawReceive h hraw op =>
    rw [Store.applyOp_file]
    exact hs.append hraw _ hc
  | reopen hh ho => exact (hs.reopen hr hh ho).1

/-- The invariant holds of a product store opened on a fresh file, which holds no op. -/
theorem imageInv_openFresh (hr : r.Lawful) {site : Int} {key : ReplicaKey} {ulids : Nat → String}
    (h : openFresh r storeId site key ulids = .ok s) :
    ImageInv r storeId s ∧ s.file.ops = [] := by
  let s₀ := (Store.openInMemory site key ulids).registerReducer r
  have hinv : ImageInv r storeId ⟨{ s₀.handle with viewsKey := some storeId }, s₀.file⟩ :=
    ⟨rfl, rfl, rfl, List.nodup_nil, fun op hop => (by cases hop), le_rfl, fun _ _ _ => rfl⟩
  have hs := (hinv.reopen hr (h := s₀.handle) rfl h).1
  refine ⟨hs, ?_⟩
  obtain ⟨_, hfile⟩ := Store.refoldIfBehind_cases h
  rcases hfile with hfile | hfile | ⟨hfile, _⟩
  · rw [hfile, Handle.rebuild]
    obtain ⟨v, hv⟩ := Handle.foldWholeLog_eq { s₀.handle with viewsKey := some storeId }
      (s₀.file.clearViews s₀.handle.reducers)
    rw [hv]
    rfl
  · rw [hfile]
    obtain ⟨w, hw⟩ := Handle.advanceWatermark_eq { s₀.handle with viewsKey := some storeId }
      (Handle.foldWholeLog { s₀.handle with viewsKey := some storeId } s₀.file) s₀.file.maxOpRowid
    obtain ⟨v, hv⟩ := Handle.foldWholeLog_eq { s₀.handle with viewsKey := some storeId } s₀.file
    rw [hw, hv]
    rfl
  · rw [hfile]
    rfl

/-! ## What a load leaves behind -/

theorem typedLog_ok (n : Nat) (seen : List String) (ops : List Op)
    (h : (seen ++ ops.map Op.opId).Nodup) : typedLog n seen ops = .ok () := by
  induction ops generalizing n seen with
  | nil => rfl
  | cons op ops ih =>
    rw [List.map_cons, List.nodup_middle] at h
    obtain ⟨hop, h⟩ := List.nodup_cons.mp h
    rw [typedLog, if_neg fun hmem => hop (List.mem_append_left _ hmem)]
    refine ih (n + 1) (op.opId :: seen) ?_
    exact List.nodup_cons.mpr ⟨hop, h⟩

theorem observeLog_eq (h : Handle) (ops : List Op) :
    ∃ c, h.observeLog ops = { h with clock := c } := by
  unfold Handle.observeLog
  split
  · exact ⟨_, rfl⟩
  · exact ⟨h.clock, rfl⟩

/-- The log goes in; with the views, they and their mark come as they were. -/
theorem ImageInv.written (hs : ImageInv r storeId s) {e : Store} (he : ImageInv r storeId e)
    (hempty : e.file.ops = []) {h : Handle} (hh : h.reducers = [r])
    (hkey : h.viewsKey = some storeId) (engine : String) (schema minCompatible : Int)
    (withViews : Bool) :
    ∃ f, e.handle.writeImage e.file (s.image engine schema minCompatible) withViews = .ok f ∧
      f.log = s.file.log ∧ ImageInv r storeId ⟨h, f⟩ := by
  have hlen : ¬ 0 < e.file.ops.length := by rw [hempty]; exact lt_irrefl 0
  have helog : e.file.log = [] := by rw [File.log, hempty]; rfl
  have hnone : ∀ t ∈ r.viewTables, ∀ k, e.file.views.get t k = none := by
    intro t ht k
    have := he.views t ht k
    rwa [helog, List.take_nil] at this
  have hlog : ∀ ops : List Op,
      (ops.map fun op => (⟨op, .ofReceived e.handle.key op⟩ : LogRow)).map LogRow.op = ops := by
    intro ops
    rw [List.map_map]
    exact List.map_id ops
  unfold Handle.writeImage
  rw [if_neg hlen]
  cases withViews with
  | false =>
    have hft : e.file.foldedThrough storeId = 0 := by
      have := he.through
      rw [helog] at this
      exact Nat.le_zero.mp this
    refine ⟨_, rfl, hlog _, hh, hkey, he.noBase, ?_, ?_, ?_, ?_⟩
    · change ((List.map LogRow.op _).map Op.opId).Nodup
      rw [hlog]
      exact hs.nodup
    · change ∀ op ∈ List.map LogRow.op _, _
      rw [hlog]
      exact hs.lamport
    · change e.file.foldedThrough storeId ≤ _
      rw [hft]
      exact Nat.zero_le _
    · change FoldedBy r _ (List.take (e.file.foldedThrough storeId) _)
      rw [hft]
      exact fun t ht k => hnone t ht k
  | true =>
    simp only [he.viewsKey, if_true]
    have hft : (s.image engine schema minCompatible).foldedThrough = s.file.foldedThrough storeId := by
      simp only [Store.image, hs.viewsKey]
    refine ⟨_, rfl, hlog _, hh, hkey, he.noBase, ?_, ?_, ?_, ?_⟩
    · change ((List.map LogRow.op _).map Op.opId).Nodup
      rw [hlog]
      exact hs.nodup
    · change ∀ op ∈ List.map LogRow.op _, _
      rw [hlog]
      exact hs.lamport
    · change _ ≤ (List.map LogRow.op _).length
      rw [hlog]
      simp only [File.foldedThrough, Function.update_self, hft]
      exact hs.through
    · intro t ht k
      change ((s.image engine schema minCompatible).views.foldl Db.insertView e.file.views).get t k =
        (List.foldl r.foldView _ (List.take _ (List.map LogRow.op _))) t k
      rw [hlog]
      simp only [File.foldedThrough, Function.update_self, hft]
      have hviews : (s.image engine schema minCompatible).views =
          r.viewTables.map s.file.dump := by
        simp [Store.image, hs.reducers]
      rw [hviews, get_insertViews, if_pos ht, hnone t ht k, Option.or_none]
      exact hs.views t ht k

/-- A load of the image succeeds, and leaves the whole log folded. -/
theorem ImageInv.load (hr : r.Lawful) (hs : ImageInv r storeId s) {e : Store}
    (he : ImageInv r storeId e) (hempty : e.file.ops = []) (engine : String) (covers : Bool)
    (schema : Int) {minCompatible : Int} (hmin : minCompatible ≤ schemaVersion) :
    ∃ l t, e.loadImage engine covers (s.image engine schema minCompatible) = .ok (l, t) ∧
      t.file.log = s.file.log ∧ ImageInv r storeId t ∧
      t.file.foldedThrough storeId = t.file.log.length := by
  have htyped : typedLog 0 [] (s.image engine schema minCompatible).ops = .ok () :=
    typedLog_ok 0 [] _ hs.nodup
  obtain ⟨c, hclock⟩ := observeLog_eq e.handle (s.image engine schema minCompatible).ops
  let h : Handle := { e.handle with clock := c }
  have hh : h.reducers = [r] := he.reducers
  have hkey : h.viewsKey = some storeId := he.viewsKey
  have hlt : ¬ schemaVersion < (s.image engine schema minCompatible).minCompatible :=
    not_lt.mpr hmin
  have hlen : ¬ 0 < e.file.ops.length := by rw [hempty]; exact lt_irrefl 0
  obtain ⟨f, hwrite, hlog, hinv⟩ := hs.written he hempty hh hkey engine schema minCompatible
    (e.handle.refoldReason engine covers (s.image engine schema minCompatible)).isNone
  have hend : f.maxOpRowid = f.log.length := by simp [File.maxOpRowid, File.log]
  obtain ⟨hcaught, hft⟩ := hinv.catchUp hr hh hkey rfl
  have hclog : (h.advanceWatermark (h.foldWholeLog f) f.maxOpRowid).log = s.file.log := by
    obtain ⟨w, hw⟩ := h.advanceWatermark_eq (h.foldWholeLog f) f.maxOpRowid
    obtain ⟨v, hv⟩ := h.foldWholeLog_eq f
    rw [hw, hv]
    exact hlog
  unfold Store.loadImage
  simp only [if_neg hlt, if_neg hlen, htyped, hwrite, hclock]
  have hsame : (h.foldWholeLog f).maxOpRowid = f.maxOpRowid := by
    obtain ⟨v, hv⟩ := h.foldWholeLog_eq f
    rw [hv]
    rfl
  cases hreason : e.handle.refoldReason engine covers (s.image engine schema minCompatible) with
  | some reason =>
    refine ⟨.refolded reason, ⟨h, h.advanceWatermark (h.foldWholeLog f) f.maxOpRowid⟩, ?_, hclog,
      hcaught, hft⟩
    rw [← hsame]
    rfl
  | none =>
    by_cases hbehind : f.foldedThrough storeId < f.maxOpRowid
    · refine ⟨.views, ⟨h, h.advanceWatermark (h.foldWholeLog f) f.maxOpRowid⟩, ?_, hclog, hcaught,
        hft⟩
      change (match h.viewsKey with | some key => _ | none => _) = _
      split
      · next key hk =>
        cases hk.symm.trans hkey
        exact if_pos hbehind
      · next hk => exact absurd (hk.symm.trans hkey) (by simp)
    · refine ⟨.views, ⟨h, f⟩, ?_, hlog, hinv, ?_⟩
      · change (match h.viewsKey with | some key => _ | none => _) = _
        split
        · next key hk =>
          cases hk.symm.trans hkey
          exact if_neg hbehind
        · next hk => exact absurd (hk.symm.trans hkey) (by simp)
      · rw [hend] at hbehind
        exact le_antisymm hinv.through (not_lt.mp hbehind)

/-- Views that are the fold of the log are what folding it again over empty tables gives. -/
theorem ImageInv.sameViews (hr : r.Lawful) (hs : ImageInv r storeId s)
    (hft : s.file.foldedThrough storeId = s.file.log.length) :
    SameViews r s.file (refolded r s.handle s.file) := by
  intro t ht k
  have hviews := hs.views t ht k
  rw [hft, List.take_length] at hviews
  have hclear : ∀ k, (s.file.clearViews [r]).views.get t k = none := fun k => by
    refine (Db.get_clear _ _ _ _).trans (if_pos ?_)
    simpa using ht
  rw [hviews, refolded, Handle.get_foldWholeLog hs.reducers,
    Reducer.foldl_foldView_congr (w := fun _ _ => none) hclear]
  exact (congrFun (congrFun (hr.sorted hs.nodup hs.lamport _) t) k).symm

theorem ImageInv.reopened (hr : r.Lawful) (hs : ImageInv r storeId s)
    (hft : s.file.foldedThrough storeId = s.file.log.length) {u : Store}
    (h : Reopened r storeId s u) :
    ImageInv r storeId u ∧ u.file.foldedThrough storeId = u.file.log.length := by
  induction h with
  | refl => exact ⟨hs, hft⟩
  | tail _ hh ho ih => exact ih.1.reopen hr hh ho

/-- **An image carries the state of its log**, along every caught run: an empty store of the same
product that loads it shows what folding the carried log gives, at once and after every reopen. -/
theorem load_image_folds (hr : r.Lawful) {site₀ : Int} {key₀ : ReplicaKey} {ulids₀ : Nat → String}
    {s₀ : Store} (h₀ : openFresh r storeId site₀ key₀ ulids₀ = .ok s₀)
    (hrun : ReflTransGen (CaughtStep r storeId) s₀ s) {site : Int} {key : ReplicaKey}
    {ulids : Nat → String} {e : Store} (he : openFresh r storeId site key ulids = .ok e)
    (engine : String) (covers : Bool) (schema : Int) {minCompatible : Int}
    (hmin : minCompatible ≤ schemaVersion) :
    ∃ l t, e.loadImage engine covers (s.image engine schema minCompatible) = .ok (l, t) ∧
      t.file.log = s.file.log ∧
      ∀ u, Reopened r storeId t u → SameViews r u.file (refolded r u.handle u.file) := by
  have hs : ImageInv r storeId s := by
    induction hrun with
    | refl => exact (imageInv_openFresh hr h₀).1
    | tail _ hstep ih => exact ih.step hr hstep
  obtain ⟨he, hempty⟩ := imageInv_openFresh hr he
  obtain ⟨l, t, hload, hlog, ht, hft⟩ := hs.load hr he hempty engine covers schema hmin
  refine ⟨l, t, hload, hlog, fun u hu => ?_⟩
  obtain ⟨hu, hft⟩ := ht.reopened hr hft hu
  exact hu.sameViews hr hft

end ImageInv

end NexusFlow.Foundation
