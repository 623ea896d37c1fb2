import NexusFlow.Core.Sheet
import NexusFlow.Foundation.Clock
import NexusFlow.Foundation.Scan

/-!
# A local write on a store that merges

A replica that writes and receives arbitrary ops. Its clock follows a received op only as far as
`CLOCK_CEILING` (`crates/foundation/src/model.rs:20-33`), so an op above the ceiling keeps its
register against every later local write: it is `Pinned`. On any other register a local write is the
newest there is.

* `merging_run`: what such a store keeps, as long as its log is within `2^60` ops.
* `Merging.emitTask`: a local op gets through, in bound and above the log's high-water mark.
* `Took.setsCell`: an item's op sets its one register, unless it is pinned, and nothing else.
-/

namespace NexusFlow.Core

open NexusFlow.Foundation TaskReducer Relation

/-! ## What such a store keeps -/

/-- The store as the one handle of its file. -/
def alone (s : Store) : Shared Unit := ⟨s.file, fun _ => s.handle⟩

/-- What a store that merges keeps. -/
structure Merging (s : Store) : Prop extends LogInv s where
  ulids : Ulids s.handle.ulids
  unminted : ∀ op ∈ s.file.log, ∀ n, s.handle.minted ≤ n → op.opId ≠ s.handle.ulids n
  clock : ClockInv s.handle.site (alone s)

/-- How many ops a log may hold for a local write to get through. -/
def roomyLog : Nat := 2 ^ 60

theorem alone_set (s s' : Store) : (alone s).set () s' = alone s' := by
  refine congrArg (Shared.mk s'.file) (funext fun u => ?_)
  cases u
  exact Function.update_self ..

theorem merging_freshStore (site : Int) (key : ReplicaKey) {ulids : Nat → String}
    (h : Ulids ulids) : Merging (freshStore site key ulids) where
  toLogInv := (foldInv_freshStore site key ulids).toLogInv
  ulids := h
  unminted := by simp [freshStore, File.fresh, File.log]
  clock := ClockInit.inv
    { ops := rfl
      base := fun b hb => by cases hb
      sites := fun _ => rfl
      clock := fun _ => rfl }

theorem Merging.applyOp {s : Store} (hs : Merging s) (hlen : s.file.ops.length ≤ roomyLog) {op : Op}
    (hnew : ∀ n, s.handle.minted ≤ n → op.opId ≠ s.handle.ulids n) :
    Merging (s.applyOp op).2 := by
  have hclock := hs.clock.step hlen (.receive () op)
  rw [alone_set] at hclock
  change ClockInv s.handle.site (alone (s.applyOp op).2) at hclock
  have hlog := hs.toLogInv.applyOp op
  obtain ⟨c, hc⟩ := s.applyOp_eq op
  rw [hc] at hlog hclock ⊢
  exact ⟨hlog, hs.ulids, Handle.ingestInTxn_forall hs.unminted hnew _, hclock⟩

/-! ## One local op -/

/-- The store took in one op of its own. -/
structure Took (s s' : Store) (op : Op) : Prop where
  merging : Merging s'
  ops : s'.file.ops = s.file.ops ++ [⟨op, .own⟩]
  mark : s.file.highWaterMark < op.lamport
  inBound : op.lamportInBound = true
  domain : op.domain = domainTask
  views : s'.file.views = applySqlite flowDdl s.file.views (taskReducer.changesOf op)

theorem Merging.holdsOp {s : Store} (hs : Merging s) :
    s.file.holdsOp (s.handle.ulids s.handle.minted) = false := by
  rw [Bool.eq_false_iff, ne_eq, File.holdsOp_iff]
  intro hmem
  obtain ⟨o, ho, hoid⟩ := List.mem_map.mp hmem
  exact hs.unminted o ho _ le_rfl hoid

/-- **An emit** that gets through. -/
theorem Merging.emit {s s' : Store} (hs : Merging s) (hlen : s.file.ops.length ≤ roomyLog)
    {d : Draft} {opId : String} (h : s.emit d = some (opId, s')) : Merging s' ∧
      ∃ o ing, o.opId = opId ∧ s.buildAndIngest d = some (o, ing, s') ∧ Minted s o s' := by
  obtain ⟨⟨o, ing, t⟩, hb, hid⟩ := Option.map_eq_some_iff.mp h
  obtain ⟨rfl, rfl⟩ := Prod.mk.inj hid
  change Store.buildAndIngest s _ = some (o, ing, t) at hb
  have hem := Store.buildAndIngest_eq_some hb
  have hcov : Covered s.file s.handle.site (max s.handle.clock s.file.highWaterMark) :=
    hs.clock.refreshed ()
  obtain ⟨o', ing', t', hb', hm⟩ := buildAndIngest_total hem.author hs.holdsOp hcov hlen
  rw [hb, Option.some.injEq, Prod.mk.injEq, Prod.mk.injEq] at hb'
  obtain ⟨rfl, rfl, rfl⟩ := hb'
  have hclock := hs.clock.step hlen (.emit () hs.holdsOp h)
  rw [alone_set] at hclock
  refine ⟨⟨hs.toLogInv.localStep (.emit h), ?_, ?_, ?_⟩, o, ing, rfl, hb, hm⟩
  · rw [hem.handle]
    exact hs.ulids
  · unfold File.log
    rw [hem.handle, hm.ops, List.map_append]
    intro r hr n hn
    change s.handle.minted + 1 ≤ n at hn
    rcases List.mem_append.mp hr with hr | hr
    · exact hs.unminted r hr n (by omega)
    · rw [List.map_singleton, List.mem_singleton] at hr
      subst hr
      rw [hem.opId]
      exact fun h => absurd (hs.ulids.inj h) (by omega)
  · rw [hem.handle]
    exact hclock

/-- **A local op gets through.** -/
theorem Merging.emitTask {s : Store} (hs : Merging s) (hlen : s.file.ops.length ≤ roomyLog)
    {author : String} (hauthor : isAttributable author = true)
    (kind target field opType : String) (value : Option String) :
    ∃ op s', Core.emitTask kind target field opType value author s = (some op.opId, s') ∧
      Took s s' op ∧ op.targetKind = kind ∧ op.targetId = target ∧ op.field = field ∧
      op.opType = opType ∧ op.value = value := by
  have hcov : Covered s.file s.handle.site (max s.handle.clock s.file.highWaterMark) :=
    hs.clock.refreshed ()
  obtain ⟨op, ing, s', hb, hm⟩ := buildAndIngest_total
    (d := ⟨domainTask, kind, .given target, field, opType, value, author⟩) hauthor hs.holdsOp hcov
    hlen
  have hem := Store.buildAndIngest_eq_some hb
  have hemit : s.emit ⟨domainTask, kind, .given target, field, opType, value, author⟩ =
      some (op.opId, s') := by
    unfold Store.emit
    rw [hb]
    rfl
  refine ⟨op, s', ?_, ⟨(hs.emit hlen hemit).1, hm.ops, hem.mark, ?_, ?_, ?_⟩, ?_, ?_, ?_, ?_, ?_⟩
  · unfold Core.emitTask
    rw [hemit]
  · exact decide_eq_true hm.bound
  · rw [hem.op]
    rfl
  · have hops : (s.handle.ingestInTxn s.file op .own).2.ops ≠ s.file.ops := by
      rw [← hem.file, hm.ops]
      simp
    rw [hem.file, Handle.views_ingestInTxn hs.reducers hops]
    rfl
  all_goals
    rw [hem.op]
    rfl

theorem Merging.setWallClock {s : Store} (hs : Merging s) (now : String) :
    Merging (Core.setWallClock now s).2 where
  toLogInv := hs.toLogInv.localStep (.wallClock now)
  ulids := hs.ulids
  unminted := hs.unminted
  clock := hs.clock.set (i := ()) (s := (Core.setWallClock now s).2) rfl rfl (fun _ hr => hr)
    (hs.clock.clock ()) (fun r hr hold => absurd hr hold) |> fun h => by rwa [alone_set] at h

/-! ## Runs -/

theorem length_ingestInTxn_le (h : Handle) (f : File) (op : Op) (p : Provenance) :
    f.ops.length ≤ (h.ingestInTxn f op p).2.ops.length := by
  rcases h.ingestInTxn_log f op p with he | ⟨_, hops, _⟩
  · rw [he]
  · rw [hops, List.length_append]
    omega

theorem length_apply_le (s : Store) (ops : List Op) :
    s.file.ops.length ≤ (s.apply ops).2.file.ops.length := by
  induction ops generalizing s with
  | nil => exact le_rfl
  | cons op ops ih =>
    refine le_trans ?_ (ih (s.applyOp op).2)
    rw [Store.applyOp_file]
    exact length_ingestInTxn_le _ _ _ _

/-- A log only grows. -/
theorem MergeStep.length_le {s s' : Store} (h : MergeStep s s') :
    s.file.ops.length ≤ s'.file.ops.length := by
  cases h with
  | «local» h =>
    cases h with
    | emit h =>
      obtain ⟨o, ing, _, he⟩ := Store.emit_eq_some h
      rw [he.file]
      exact length_ingestInTxn_le _ _ _ _
    | wallClock now => exact le_rfl
  | received ops hnew => exact length_apply_le s ops

theorem Merging.apply {s : Store} (hs : Merging s) {ops : List Op}
    (hlen : (s.apply ops).2.file.ops.length ≤ roomyLog)
    (hnew : ∀ op ∈ ops, ∀ n, s.handle.minted ≤ n → op.opId ≠ s.handle.ulids n) :
    Merging (s.apply ops).2 := by
  induction ops generalizing s with
  | nil => exact hs
  | cons op ops ih =>
    have hfirst := (length_apply_le s (op :: ops)).trans hlen
    have hone := hs.applyOp hfirst (hnew op List.mem_cons_self)
    have hsame : (s.applyOp op).2.handle.minted = s.handle.minted ∧
        (s.applyOp op).2.handle.ulids = s.handle.ulids := by
      obtain ⟨c, hc⟩ := s.applyOp_eq op
      rw [hc]
      exact ⟨rfl, rfl⟩
    refine ih (s := (s.applyOp op).2) hone hlen fun o ho n hn => ?_
    rw [hsame.2]
    exact hnew o (List.mem_cons_of_mem op ho) n (hsame.1 ▸ hn)

theorem Merging.step {s s' : Store} (hs : Merging s) (h : MergeStep s s')
    (hlen : s.file.ops.length ≤ roomyLog) (hlen' : s'.file.ops.length ≤ roomyLog) : Merging s' := by
  cases h with
  | «local» h =>
    cases h with
    | emit h => exact (hs.emit hlen h).1
    | wallClock now => exact hs.setWallClock now
  | received ops hnew => exact hs.apply hlen' hnew

/-- **Along every run** of local writes and merges within a roomy log. -/
theorem merging_run {site : Int} {key : ReplicaKey} {ulids : Nat → String} (hulids : Ulids ulids)
    {s : Store} (hrun : ReflTransGen MergeStep (freshStore site key ulids) s)
    (hlen : s.file.ops.length ≤ roomyLog) : Merging s := by
  induction hrun with
  | refl => exact merging_freshStore site key hulids
  | tail _ hstep ih =>
    have hbefore := hstep.length_le.trans hlen
    exact (ih hbefore).step hstep hbefore hlen

/-! ## Registers -/

/-- A received op above the clock's ceiling holds the register: no local write overtakes it. -/
def Pinned (s : Store) (id field : String) : Prop :=
  ∃ r ∈ s.file.ops, r.provenance ≠ .own ∧ taskReducer.folds r.op = true ∧
    r.op.targetKind = "item" ∧ r.op.targetId = id ∧ r.op.field = field ∧ clockCeiling < r.op.lamport

/-- **A register holds the version of an op that set it**, or the version it starts with. -/
theorem storedVersion_of_ops {ops : List Op} {id field : String} (hfield : field ∈ itemLwwFields)
    {row : Row}
    (hrow : ops.foldl taskReducer.foldView (fun _ _ => none) "items" (itemKey id) = some row) :
    storedVersion row (versionColumns field) = some [0, 0] ∨
    ∃ op ∈ ops, taskReducer.folds op = true ∧ op.targetKind = "item" ∧ op.targetId = id ∧
      op.field = field ∧ storedVersion row (versionColumns field) = some [op.lamport, op.site] := by
  induction ops using List.reverseRecOn generalizing row with
  | nil => cases hrow
  | append_singleton ops op ih =>
    rw [List.foldl_append, List.foldl_cons, List.foldl_nil] at hrow
    have hold {old : Row} (h : ops.foldl taskReducer.foldView (fun _ _ => none) "items"
        (itemKey id) = some old) : storedVersion old (versionColumns field) = some [0, 0] ∨
        ∃ o ∈ ops ++ [op], taskReducer.folds o = true ∧ o.targetKind = "item" ∧ o.targetId = id ∧
          o.field = field ∧
          storedVersion old (versionColumns field) = some [o.lamport, o.site] := by
      refine (ih h).imp_right ?_
      rintro ⟨o, ho, hrest⟩
      exact ⟨o, List.mem_append_left [op] ho, hrest⟩
    cases hf : taskReducer.folds op with
    | false =>
      rw [Reducer.foldView_of_not_folds hf] at hrow
      exact hold hrow
    | true =>
      by_cases hk : op.targetKind = "item"
      swap
      · rw [foldView_items hk] at hrow
        exact hold hrow
      have hof := (folded_item hf hk).1
      rw [foldView_item hf hk] at hrow
      split_ifs at hrow with hid
      swap
      · exact hold hrow
      rw [Option.some_inj] at hrow
      subst hrow
      have hid : op.targetId = id := (itemKey_inj.mp hid).symm
      -- what the op's write leaves for `field`, over whatever row was there
      have hwritten (r : Row) : (field ≠ op.field ∧ storedVersion (assign r
          (itemLww op).effect.writes) (versionColumns field) =
            storedVersion r (versionColumns field)) ∨
          (field = op.field ∧ storedVersion (assign r (itemLww op).effect.writes)
            (versionColumns field) = some [op.lamport, op.site]) := by
        by_cases hsame : field = op.field
        · refine .inr ⟨hsame, ?_⟩
          rw [hsame]
          exact storedVersion_writes (itemLww_wf hof) r
        · refine .inl ⟨hsame, storedVersion_assign_of_notMem ?_⟩
          have hdisj := itemLww_disjoint (a := { op with field := field }) (b := op) hfield hof hsame
          exact fun n hn => hdisj n (List.mem_cons_of_mem _ hn)
      have hnew (h : field = op.field) : ∃ o ∈ ops ++ [op], taskReducer.folds o = true ∧
          o.targetKind = "item" ∧ o.targetId = id ∧ o.field = field ∧
          some [op.lamport, op.site] = some [o.lamport, o.site] :=
        ⟨op, by simp, hf, hk, hid, h.symm, rfl⟩
      cases hbefore : ops.foldl taskReducer.foldView (fun _ _ => none) "items" (itemKey id) with
      | none =>
        rw [rowAfter_none (itemLww_wf hof)]
        rcases hwritten (seedRow flowDdl "items" (itemKey op.targetId)) with ⟨_, he⟩ | ⟨h, he⟩
        · exact .inl (he.trans (storedVersion_seedRow_items hfield _))
        · refine .inr ?_
          obtain ⟨o, ho, hfo, hko, hio, hfield', hver⟩ := hnew h
          exact ⟨o, ho, hfo, hko, hio, hfield', he.trans hver⟩
      | some r =>
        rw [rowAfter_register rfl]
        split_ifs
        · rcases hwritten r with ⟨_, he⟩ | ⟨h, he⟩
          · rw [he]
            exact hold hbefore
          · refine .inr ?_
            obtain ⟨o, ho, hfo, hko, hio, hfield', hver⟩ := hnew h
            exact ⟨o, ho, hfo, hko, hio, hfield', he.trans hver⟩
        · exact hold hbefore

/-- **No register stands above the write of a local op**, unless it is pinned. -/
theorem Took.writes {s s' : Store} {op : Op} (h : Took s s' op) (hs : Merging s)
    (hfield : op.field ∈ itemLwwFields) (hpin : ¬ Pinned s op.targetId op.field) {row : Row}
    (hrow : s.file.views.get "items" (itemKey op.targetId) = some row) :
    Writes row (itemLww op).effect.version .higher := by
  have hfolded := hs.folded
  unfold File.Folded at hfolded
  rw [hfolded] at hrow
  have hmark := File.highWaterMark_nonneg hs.noBase
  have habove := h.mark
  intro stored hstored
  change storedVersion row (versionColumns op.field) = some stored at hstored
  change List.Lex (· < ·) stored [op.lamport, op.site]
  rcases storedVersion_of_ops hfield hrow with h0 | ⟨o, ho, hf, hk, hid, hof, hver⟩
  · rw [h0, Option.some.injEq] at hstored
    rw [← hstored]
    exact .rel (by omega)
  · rw [hver, Option.some.injEq] at hstored
    rw [← hstored]
    refine .rel ?_
    obtain ⟨r, hr, rfl⟩ := List.mem_map.mp ho
    have hbound : r.op.lamport ≤ maxLamport := by
      have : r.op.lamportInBound = true := by
        unfold Reducer.folds at hf
        simp only [Bool.and_eq_true] at hf
        exact hf.1.1
      simpa [Op.lamportInBound] using this
    by_cases hown : r.provenance = .own
    · exact (own_le_highWaterMark hr hbound hown).trans_lt habove
    · have hle : r.op.lamport ≤ clockCeiling := by
        by_contra hgt
        exact hpin ⟨r, hr, hown, hf, hk, hid, hof, not_le.mp hgt⟩
      have := (min_le_highWaterMark hr hbound).trans_lt habove
      rwa [min_eq_left hle] at this

/-- What a write of one register of an item that is there leaves: the register, unless it is pinned,
and everything else as it was. -/
structure SetsCell (s s' : Store) (id field : String) (value : Cell) : Prop where
  merging : Merging s'
  grows : s'.file.ops.length = s.file.ops.length + 1
  pins : ∀ i f, Pinned s' i f ↔ Pinned s i f
  scans : ∀ t, t ≠ "items" → t ≠ "item_timestamps" → s'.file.views.scan t = s.file.views.scan t
  order : (s'.file.views.scan "items").map (· "id") = (s.file.views.scan "items").map (· "id")
  others : ∀ i, i ≠ id → (sheetOf s'.file.views).items i = (sheetOf s.file.views).items i
  item : ∀ regs, (sheetOf s.file.views).items id = some regs → ∃ cell,
    (sheetOf s'.file.views).items id = some (Function.update regs field cell) ∧
    (¬ Pinned s id field → cell = value)

/-- Own ops pin nothing. -/
theorem Took.pinned_iff {s s' : Store} {op : Op} (h : Took s s' op) (id field : String) :
    Pinned s' id field ↔ Pinned s id field := by
  unfold Pinned
  rw [h.ops]
  constructor
  · rintro ⟨r, hr, hown, hrest⟩
    rcases List.mem_append.mp hr with hr | hr
    · exact ⟨r, hr, hown, hrest⟩
    · rw [List.mem_singleton.mp hr] at hown
      exact absurd rfl hown
  · rintro ⟨r, hr, hrest⟩
    exact ⟨r, List.mem_append_left _ hr, hrest⟩

/-- The changes of an item's op. -/
theorem changesOf_item {op : Op} (hf : taskReducer.folds op = true) (hk : op.targetKind = "item") :
    taskReducer.changesOf op = itemLww op :: timestampChanges op := by
  obtain ⟨_, m, hm⟩ := folded_item hf hk
  have hkind : kindChanges op = [itemLww op] := by
    unfold kindChanges
    rw [if_pos hk, hm]
    cases m <;> rfl
  have hdates : datesItem op = true := by simp [datesItem, hk]
  unfold Reducer.changesOf
  rw [if_pos hf]
  change changes op = _
  unfold changes
  rw [hkind, if_pos hdates]
  rfl

/-- A register's write leaves the item's id. -/
theorem rowAfter_id {op : Op} (hfield : op.field ∈ itemLwwFields) (row : Row) :
    rowAfter flowDdl (itemLww op) (some row) "id" = row "id" := by
  have hnotin : ∀ f ∈ itemLwwFields, "id" ∉ [f, f ++ "_v", f ++ "_site"] := by decide
  rw [rowAfter_register rfl]
  split_ifs
  · exact assign_of_notMem (hnotin op.field hfield)
  · rfl

/-- **An item's op sets its one register.** -/
theorem Took.setsCell {s s' : Store} {op : Op} (h : Took s s' op) (hs : Merging s)
    (hk : op.targetKind = "item") (hfield : op.field ∈ itemLwwFields) {m : MergeStrategy}
    (hm : op.opType = m.itemSetOpType)
    (hitem : (sheetOf s.file.views).items op.targetId ≠ none) :
    SetsCell s s' op.targetId op.field (.ofOption op.value) := by
  have hfolds : taskReducer.folds op = true := by
    have hfoldable : isFoldable op = true := by
      unfold isFoldable
      rw [if_pos hk, hm, MergeStrategy.fromItemSetOpType_itemSetOpType]
      simpa using hfield
    unfold Reducer.folds
    rw [h.inBound, h.domain]
    exact hfoldable
  have hchanges := changesOf_item hfolds hk
  have hviews := h.views
  rw [hchanges] at hviews
  have htimes (c : Change) (hc : c ∈ timestampChanges op) : c.table = "item_timestamps" := by
    rcases List.mem_pair.mp hc with rfl | rfl <;> rfl
  have hget : s'.file.views.get = taskReducer.foldView s.file.views.get op := by
    rw [h.views, get_applySqlite]
    rfl
  obtain ⟨row, hrow⟩ : ∃ row, s.file.views.get "items" (itemKey op.targetId) = some row := by
    refine Option.ne_none_iff_exists'.mp fun hnone => hitem ?_
    change (s.file.views.get "items" (itemKey op.targetId)).map registers = none
    rw [hnone]
    rfl
  have hitems (i : String) : (sheetOf s'.file.views).items i =
      if i = op.targetId then some (registers (rowAfter flowDdl (itemLww op) (some row)))
      else (sheetOf s.file.views).items i := by
    change (s'.file.views.get "items" (itemKey i)).map registers = _
    rw [hget, foldView_item hfolds hk]
    by_cases hi : i = op.targetId
    · subst hi
      rw [if_pos rfl, if_pos rfl, hrow]
      rfl
    · rw [if_neg fun h' => hi (itemKey_inj.mp h'), if_neg hi]
      rfl
  refine ⟨h.merging, ?_, h.pinned_iff, ?_, ?_, ?_, ?_⟩
  · rw [h.ops, List.length_append, List.length_singleton]
  · intro t hitemsT htimesT
    rw [hviews]
    refine scan_applySqlite (fun c hc => ?_) _
    rcases List.mem_cons.mp hc with rfl | hc
    · exact fun he => hitemsT he.symm
    · exact fun he => htimesT ((htimes c hc).symm.trans he).symm
  · have hput : applySqlite flowDdl s.file.views (itemLww op :: timestampChanges op) =
        applySqlite flowDdl (s.file.views.put "items" (itemKey op.targetId)
          (rowAfter flowDdl (itemLww op) (s.file.views.get "items" (itemKey op.targetId))))
          (timestampChanges op) := rfl
    rw [hviews, hput, scan_applySqlite (fun c hc => ?_) _, hrow]
    · exact Db.map_scan_put hrow _ (rowAfter_id hfield row)
    · rw [htimes c hc]
      decide
  · intro i hi
    rw [hitems, if_neg hi]
  · intro regs hregs
    have hregs' : registers row = regs := by
      change (s.file.views.get "items" (itemKey op.targetId)).map registers = some regs at hregs
      rw [hrow] at hregs
      exact Option.some.inj hregs
    rw [hitems, if_pos rfl, rowAfter_register rfl]
    by_cases hw : Writes row (itemLww op).effect.version .higher
    · refine ⟨.ofOption op.value, ?_, fun _ => rfl⟩
      rw [if_pos hw, registers_assign hfield, hregs']
    · refine ⟨regs op.field, ?_, fun hpin => absurd (h.writes hs hfield hpin hrow) hw⟩
      rw [if_neg hw, hregs', Function.update_eq_self]

/-- **`set_field` on an item that is there.** -/
theorem Merging.setField {s : Store} (hs : Merging s) (hlen : s.file.ops.length ≤ roomyLog)
    {author : String} (hauthor : isAttributable author = true) {id field : String}
    (hfield : field ∈ itemLwwFields) (value : Option String)
    (hitem : (sheetOf s.file.views).items id ≠ none) :
    ∃ s', setFieldMerge id field value author .lww s = (some (), s') ∧
      SetsCell s s' id field (.ofOption value) := by
  obtain ⟨op, s', he, htook, hk, rfl, rfl, hop, rfl⟩ := hs.emitTask hlen hauthor "item" id field
    (MergeStrategy.itemSetOpType .lww) value
  refine ⟨s', ?_, htook.setsCell hs hk hfield hop hitem⟩
  unfold setFieldMerge
  have hcontains : itemLwwFields.contains op.field = true := by simpa using hfield
  have hassert : assert (itemLwwFields.contains op.field) s = (some (), s) := by
    rw [assert, if_pos hcontains]
  rw [bind_of_some hassert, bind_of_some he]
  rfl

end NexusFlow.Core
