import NexusFlow.Core.LanesAgree
import NexusFlow.Core.ObservedRemove
import NexusFlow.Foundation.Watermark

/-!
# Opening a store, and the migration of `belongs_to`

Model of `crates/core/src/store.rs:145-181,916-987` and of the seating of a replica
(`crates/foundation/src/trust.rs:142-182`, `store.rs:152-206,848-881`): a file is opened, flow's views
are bound to its log, and every legacy `belongs_to` set that wins its child's register is rewritten in
place to the add of a `parent` edge. The rewrite runs at every open, for the children that show no
parent edge.

* `FlowFile` is what a flow process can find: distinct op ids, no base, and views that show the log
  or are to be rebuilt. Opening, `set_parent` and `clear_parent` keep the views showing the log
  (`ParentInv`).
* `parents_kept_at_open`: when, after the first migrating open, every `belongs_to` set left with a
  value is followed by a later clear of the same child (`ParentsSettled`), no run of opens, `set_parent` and
  `clear_parent` ever opens on other parents.
* `cleared_parent_returns`: with one older `belongs_to` set left, the parent cleared after the
  migration is replaced by the older one at the next open.
-/

namespace NexusFlow.Core

open NexusFlow.Foundation Relation TaskReducer

/-! ## The migration -/

/-- A `belongs_to` set within the Lamport bound, the migration's ops. -/
def isLegacyParent (op : Op) : Bool :=
  op.targetKind == "item" && op.field == "belongs_to" && op.opType == "set" && op.lamportInBound

/-- `(o2.lamport, o2.site) > (o1.lamport, o1.site)`. -/
def laterThan (o₂ o₁ : Op) : Bool :=
  decide (o₁.lamport < o₂.lamport) || (o₁.lamport == o₂.lamport && decide (o₁.site < o₂.site))

/-- The query of `migrate_belongs_to_to_parent_edges`: the winners with a parent, of the children
without a present `parent` edge. -/
def electedParents (f : File) : List Op :=
  f.log.filter fun o₁ => isLegacyParent o₁ && o₁.value.isSome &&
    !(f.log.any fun o₂ => isLegacyParent o₂ && o₂.targetId == o₁.targetId && laterThan o₂ o₁) &&
    !((BoardViews.presentEdges f.views).any fun e =>
      e.fromId == o₁.targetId && e.kind == "parent")

/-- `UPDATE ops SET target_kind='edge', … WHERE op_id=?2`. -/
def asParentEdge (target : String) (op : Op) : Op :=
  { op with targetKind := "edge", targetId := target, field := "present", opType := "add",
            value := none }

/-- The rewrite of one op of the log. -/
def rewriteParent (f : File) (opId target : String) : File :=
  { f with ops := f.ops.map fun r =>
      if r.op.opId = opId then { r with op := asParentEdge target r.op } else r }

/-- `reseal`: a rewritten op of this replica is signed again, any other one judged again. -/
def resealOps (f : File) (key : ReplicaKey) (rewritten : List String) : File :=
  { f with ops := f.ops.map fun r =>
      if rewritten.contains r.op.opId then
        if r.provenance = .own then { r with op := key.seal r.op }
        else { r with provenance := .ofReceived key r.op }
      else r }

/-- A write to the file. -/
def modifyFile (g : Store → File) : Write Unit := fun s => (some (), { s with file := g s })

/-- The rewrite of one winner; an id that holds the separator panics. -/
def rewriteElected (o : Op) : Write PUnit := do
  let target ← edgeTarget o.targetId (o.value.getD "") .parent
  modifyFile fun s => rewriteParent s.file o.opId target

/-- `migrate_belongs_to_to_parent_edges`. -/
def migrateBelongsTo : Write Unit := fun s =>
  let rows := electedParents s.file
  (if rows.isEmpty then pure ()
  else do
    rows.forM rewriteElected
    modifyFile fun s => resealOps s.file s.handle.key (rows.map Op.opId)
    modifyFile fun s => s.refold.file : Write Unit) s

/-! ## Opening -/

/-- `seat_replica`: this replica's key joins the trust list; once, after the migration that brought
signatures (`pending`), the unsigned ops of its site become its own. -/
def seatReplica (site : Int) (keyId : String) (pending : Bool) (f : File) : File :=
  { f with
    trustedKeys := if f.trustedKeys.contains keyId then f.trustedKeys else f.trustedKeys ++ [keyId]
    ops := if pending then f.ops.map fun r =>
        if r.op.site = site ∧ r.provenance = .unsigned ∧ r.op.keyId = none ∧ r.op.sig = none then
          { r with provenance := .own }
        else r
      else f.ops }

/-- Who opens the file, and what the schema migration found: whether the workspace predates custom
fields, and whether it predates signatures. -/
structure Opening where
  site : Int
  key : ReplicaKey
  ulids : Nat → String
  upgraded : Bool
  pending : Bool

/-- `Substrate::open` and `register_reducer`. -/
def openSubstrate (o : Opening) (f : File) : Store :=
  let f := seatReplica o.site o.key.keyId o.pending f
  ⟨⟨o.site, f.highWaterMark, "", [taskReducer], none, o.key, o.ulids, 0⟩, f⟩

/-- `materialize_views`. -/
def materializeViews (upgraded : Bool) (s : Store) : Except NeedsHistory Store :=
  if upgraded then s.forceRefold flowViews else s.refoldIfBehind flowViews

/-- `Store::open`: refused, or the store after the migration, which may panic. -/
def openStore (o : Opening) (f : File) : Except NeedsHistory (Option Unit × Store) := do
  let s ← materializeViews o.upgraded (openSubstrate o f)
  return migrateBelongsTo s

/-! ## Views that show the log -/

/-- flow's views are the fold of ops among which the log's foldable ones are, and no others. -/
def ShowsLog (f : File) : Prop :=
  ∃ ops, FoldedBy taskReducer f ops ∧
    ∀ op, taskReducer.folds op = true → (op ∈ ops ↔ op ∈ f.log)

/-- What opens and parent writes maintain. -/
structure ParentInv (s : Store) : Prop where
  reducers : s.handle.reducers = [taskReducer]
  noBase : s.file.logBase = none
  nodup : (s.file.log.map Op.opId).Nodup
  shows : ShowsLog s.file

/-- A file flow may be opened on: its views show the log, or an older fold revision wrote them. -/
structure FlowFile (f : File) : Prop where
  noBase : f.logBase = none
  nodup : (f.log.map Op.opId).Nodup
  views : (f.recordedRevision flowViews).1 < taskReducer.foldRevision ∨ ShowsLog f

theorem ShowsLog.of_same {f g : File} (h : ShowsLog f) (hv : g.views = f.views)
    (hl : g.log = f.log) : ShowsLog g := by
  obtain ⟨ops, hf, hmem⟩ := h
  exact ⟨ops, hf.of_views_eq hv, by rw [hl]; exact hmem⟩

/-- Folding the whole log into views that show what the log shows. -/
theorem ShowsLog.refold {f g : File} {h : Handle} (hr : h.reducers = [taskReducer])
    {ops : List Op} (hops : FoldedBy taskReducer g ops)
    (hsub : ∀ op ∈ ops, taskReducer.folds op = true → op ∈ g.log)
    (hv : f.views = (h.foldWholeLog g).views) (hl : f.log = g.log) : ShowsLog f := by
  refine ⟨ops ++ g.exportOps, ?_, fun op hf => ?_⟩
  · exact hops.append (by rw [hv]; exact Handle.get_foldWholeLog hr)
  · rw [hl, List.mem_append, mem_exportOps]
    exact ⟨fun h => h.elim (fun h => hsub op h hf) id, .inr⟩

/-- What shows in the edge views is decided by the log. -/
theorem ParentInv.edge_present {s : Store} (hs : ParentInv s) (e : String × String × EdgeKind) :
    edgeSet.present s.file.views e ↔ ∃ tag, edgeSet.Live s.file.log e tag := by
  obtain ⟨ops, hf, hmem⟩ := hs.shows
  have hid : IdsNameOps ops := fun a ha b hb hfa hfb hab =>
    List.inj_on_of_nodup_map hs.nodup ((hmem a hfa).mp ha) ((hmem b hfb).mp hb) hab
  rw [edge_present_iff hid hf]
  refine exists_congr fun tag => ?_
  unfold OrSet.Live
  have hadd : ∀ a, edgeSet.adds e a → taskReducer.folds a = true := fun a h =>
    (foldedAs_iff.mp h.1).1
  have hrem : ∀ r, edgeSet.removes e r → taskReducer.folds r = true := fun r h =>
    (foldedAs_iff.mp h).1
  constructor
  · rintro ⟨a, ha, hadds, hid, hr⟩
    exact ⟨a, (hmem a (hadd a hadds)).mp ha, hadds, hid,
      fun r hr' hrm => hr r ((hmem r (hrem r hrm)).mpr hr') hrm⟩
  · rintro ⟨a, ha, hadds, hid, hr⟩
    exact ⟨a, (hmem a (hadd a hadds)).mpr ha, hadds, hid,
      fun r hr' hrm => hr r ((hmem r (hrem r hrm)).mp hr') hrm⟩

/-- The parents of a child are decided by the log. -/
theorem ParentInv.mem_targetsOf {s : Store} (hs : ParentInv s) {child p : String} :
    p ∈ targetsOf child .parent s.file.views ↔
      ∃ tag, edgeSet.Live s.file.log (child, p, .parent) tag := by
  rw [BoardViews.mem_targetsOf_iff, ← hs.edge_present]
  rfl

/-! ## Binding the views -/

/-- **Everything `materialize_views` can do**: rebuild the views, which it does where an older fold
revision wrote them; fold the whole log into them; or leave them. -/
theorem materializeViews_cases {s t : Store} {upgraded : Bool}
    (h : materializeViews upgraded s = .ok t) :
    let h' : Handle := { s.handle with viewsKey := some flowViews }
    t.handle = h' ∧
      (t.file = h'.rebuild s.file flowViews ∨
        (h'.needsRebuild s.file flowViews = false ∧
          (t.file = h'.advanceWatermark (h'.foldWholeLog s.file) s.file.maxOpRowid ∨
            t.file = s.file))) := by
  intro h'
  unfold materializeViews Store.forceRefold Store.refoldIfBehind Store.bindViews at h
  cases hn : h'.needsRebuild s.file flowViews with
  | true =>
    cases hb : s.file.logBase with
    | some base =>
      exfalso
      cases upgraded <;> simp [h', hn, hb, bind, Except.bind] at h
    | none =>
      have ht : t = ⟨h', h'.rebuild s.file flowViews⟩ := by
        cases upgraded <;> simp [h', hn, hb, bind, Except.bind, pure, Except.pure] at h <;>
          exact h.symm
      exact ⟨by rw [ht], .inl (by rw [ht])⟩
  | false =>
    cases upgraded with
    | true =>
      have hlen : (h'.foldWholeLog s.file).maxOpRowid = s.file.maxOpRowid := by
        obtain ⟨v, hv⟩ := h'.foldWholeLog_eq s.file
        rw [hv]
        rfl
      have ht : t = ⟨h', h'.advanceWatermark (h'.foldWholeLog s.file) s.file.maxOpRowid⟩ := by
        simp [h', hn, bind, Except.bind, pure, Except.pure, Store.refold] at h
        rw [← hlen]
        exact h.symm
      exact ⟨by rw [ht], .inr ⟨rfl, .inl (by rw [ht])⟩⟩
    | false =>
      simp [h', hn, bind, Except.bind, pure, Except.pure, Store.refold] at h
      split_ifs at h
      · cases h
        exact ⟨rfl, .inr ⟨rfl, .inl rfl⟩⟩
      · cases h
        exact ⟨rfl, .inr ⟨rfl, .inr rfl⟩⟩

/-- Binding the views keeps the log, and leaves views that show it. -/
theorem materializeViews_spec {s t : Store} {upgraded : Bool} (hf : FlowFile s.file)
    (hr : s.handle.reducers = [taskReducer]) (h : materializeViews upgraded s = .ok t) :
    ParentInv t ∧ t.file.log = s.file.log := by
  obtain ⟨hh, hcases⟩ := materializeViews_cases h
  have hreducers : t.handle.reducers = [taskReducer] := by rw [hh]; exact hr
  rw [← hh] at hcases
  have key : t.file.logBase = s.file.logBase ∧ t.file.log = s.file.log ∧ ShowsLog t.file := by
    rcases hcases with hfile | ⟨hneeds, hfile⟩
    · obtain ⟨v, hv⟩ := t.handle.foldWholeLog_eq (s.file.clearViews t.handle.reducers)
      have hlog : t.file.log = s.file.log := by
        rw [hfile, Handle.rebuild, hv]
        rfl
      refine ⟨by rw [hfile, Handle.rebuild, hv]; rfl, hlog, s.file.exportOps, ?_, fun op _ => ?_⟩
      · rw [hfile]
        exact foldedBy_rebuild hreducers flowViews
      · rw [hlog, mem_exportOps]
    · have hshows : ShowsLog s.file := by
        refine hf.views.resolve_left fun hold => ?_
        simp only [Handle.needsRebuild, decide_eq_false_iff_not, not_or] at hneeds
        rw [Handle.foldRevision_singleton hreducers] at hneeds
        exact hneeds.1 hold
      obtain ⟨ops, hops, hmem⟩ := hshows
      rcases hfile with hfile | hfile
      · obtain ⟨v, hv⟩ := t.handle.foldWholeLog_eq s.file
        obtain ⟨w, hw⟩ := t.handle.advanceWatermark_eq (t.handle.foldWholeLog s.file)
          s.file.maxOpRowid
        have hlog : t.file.log = s.file.log := by
          rw [hfile, hw, hv]
          rfl
        refine ⟨by rw [hfile, hw, hv], hlog, ?_⟩
        exact ShowsLog.refold hreducers hops (fun op hop hfold => (hmem op hfold).mp hop)
          (by rw [hfile, hw]) hlog
      · rw [hfile]
        exact ⟨rfl, rfl, ops, hops, hmem⟩
  obtain ⟨hbase, hlog, hshows⟩ := key
  exact ⟨⟨hreducers, hbase.trans hf.noBase, hlog ▸ hf.nodup, hshows⟩, hlog⟩

theorem log_seatReplica (site : Int) (keyId : String) (pending : Bool) (f : File) :
    (seatReplica site keyId pending f).log = f.log := by
  unfold seatReplica File.log
  cases pending with
  | false => rfl
  | true =>
    simp only [if_true, List.map_map]
    refine List.map_congr_left fun r _ => ?_
    simp only [Function.comp_apply]
    split_ifs <;> rfl

theorem FlowFile.seat {f : File} (hf : FlowFile f) (o : Opening) :
    FlowFile (openSubstrate o f).file where
  noBase := hf.noBase
  nodup := by
    change ((seatReplica o.site o.key.keyId o.pending f).log.map Op.opId).Nodup
    rw [log_seatReplica]
    exact hf.nodup
  views := hf.views.imp id fun h => h.of_same rfl (log_seatReplica _ _ _ _)

theorem ParentInv.flowFile {s : Store} (hs : ParentInv s) : FlowFile s.file :=
  ⟨hs.noBase, hs.nodup, .inr hs.shows⟩

/-! ## The migration keeps the views showing the log -/

/-- No fold takes a `belongs_to` set. -/
theorem not_folds_of_legacy {op : Op} (h : isLegacyParent op = true) :
    taskReducer.folds op = false := by
  simp only [isLegacyParent, Bool.and_eq_true, beq_iff_eq] at h
  have hfoldable : isFoldable op = false := by
    unfold isFoldable
    rw [if_pos h.1.1.1, h.1.1.2, Bool.and_eq_false_iff]
    exact .inr (by decide)
  unfold Reducer.folds
  rw [Bool.and_eq_false_iff]
  exact .inr hfoldable

/-- `g` is `f` with some ops that do not fold rewritten: the ids are the same, and what folds is still
there. -/
structure Rewritten (f g : File) : Prop where
  views : g.views = f.views
  logBase : g.logBase = f.logBase
  ids : g.log.map Op.opId = f.log.map Op.opId
  keeps : ∀ op ∈ f.log, taskReducer.folds op = true → op ∈ g.log

/-- Changing rows, with the ids and the folding ops left as they are. -/
theorem Rewritten.map {f g : File} (h : Rewritten f g) (u : LogRow → LogRow)
    (hid : ∀ r, (u r).op.opId = r.op.opId)
    (hu : ∀ r ∈ g.ops, r.op ∈ f.log → taskReducer.folds r.op = true → (u r).op = r.op) :
    Rewritten f { g with ops := g.ops.map u } where
  views := h.views
  logBase := h.logBase
  ids := by
    rw [← h.ids]
    simp only [File.log, List.map_map]
    exact List.map_congr_left fun r _ => hid r
  keeps op hop hf := by
    obtain ⟨r, hr, rfl⟩ := List.mem_map.mp (h.keeps op hop hf)
    exact List.mem_map.mpr ⟨u r, List.mem_map_of_mem hr, hu r hr hop hf⟩

/-- A row that is rewritten or sealed belongs to no op that folds. -/
theorem not_folds_of_elected {f : File} (hnd : (f.log.map Op.opId).Nodup) {o : Op}
    (ho : o ∈ electedParents f) {op : Op} (hop : op ∈ f.log) (hid : op.opId = o.opId) :
    taskReducer.folds op = false := by
  obtain ⟨hmem, helected⟩ := List.mem_filter.mp ho
  simp only [Bool.and_eq_true] at helected
  rw [List.inj_on_of_nodup_map hnd hop hmem hid]
  exact not_folds_of_legacy helected.1.1.1

theorem rewriteElected_spec {f : File} (hnd : (f.log.map Op.opId).Nodup) {rows : List Op}
    (hrows : ∀ o ∈ rows, o ∈ electedParents f) {s : Store} (hs : Rewritten f s.file) :
    (rows.forM rewriteElected s).2.handle = s.handle ∧
      Rewritten f (rows.forM rewriteElected s).2.file := by
  induction rows generalizing s with
  | nil => exact ⟨rfl, hs⟩
  | cons o rows ih =>
    have hstep : (o :: rows).forM rewriteElected =
        rewriteElected o >>= fun _ => rows.forM rewriteElected := rfl
    rw [hstep]
    cases htg : (edgeTarget o.targetId (o.value.getD "") .parent s).1 with
    | none =>
      have hone : rewriteElected o s = (none, s) :=
        bind_of_none (Prod.ext htg (assert_then_pure _ _ s))
      rw [bind_of_none hone]
      exact ⟨rfl, hs⟩
    | some target =>
      have hone : rewriteElected o s =
          (some PUnit.unit, { s with file := rewriteParent s.file o.opId target }) :=
        bind_of_some (Prod.ext htg (assert_then_pure _ _ s))
      rw [bind_of_some hone]
      refine ih (fun p hp => hrows p (List.mem_cons_of_mem o hp)) ?_
      refine hs.map _ (fun r => ?_) fun r _ hr hf => ?_
      · split_ifs <;> rfl
      · rw [if_neg]
        intro hid
        rw [not_folds_of_elected hnd (hrows o List.mem_cons_self) hr hid] at hf
        cases hf

/-- **The migration keeps the views showing the log.** -/
theorem ParentInv.migrate {s s' : Store} (hs : ParentInv s)
    (h : migrateBelongsTo s = (some (), s')) : ParentInv s' := by
  unfold migrateBelongsTo at h
  dsimp only at h
  split_ifs at h with hempty
  · cases h
    exact hs
  · obtain ⟨hh, hrw⟩ := rewriteElected_spec hs.nodup (fun o ho => ho) (s := s)
      ⟨rfl, rfl, rfl, fun _ hop _ => hop⟩
    obtain ⟨t, ht⟩ : ∃ t, (electedParents s.file).forM rewriteElected s = t := ⟨_, rfl⟩
    obtain ⟨ret, t⟩ := t
    rw [ht] at hh hrw
    cases ret with
    | none =>
      rw [bind_of_none ht] at h
      cases h
    | some u =>
      rw [bind_of_some ht] at h
      have hseal : Rewritten s.file (resealOps t.file t.handle.key
          ((electedParents s.file).map Op.opId)) := by
        refine hrw.map _ (fun r => ?_) fun r _ hr hf => ?_
        · split_ifs <;> rfl
        · rw [if_neg]
          intro hid
          rw [List.contains_iff_mem] at hid
          obtain ⟨o, ho, hid⟩ := List.mem_map.mp hid
          rw [not_folds_of_elected hs.nodup ho hr hid.symm] at hf
          cases hf
      obtain ⟨f', hf'⟩ : ∃ f', resealOps t.file t.handle.key
          ((electedParents s.file).map Op.opId) = f' := ⟨_, rfl⟩
      rw [hf'] at hseal
      have hs' : s' = ⟨t.handle, t.handle.foldWholeLog f'⟩ := by
        rw [← hf']
        exact (congrArg Prod.snd h).symm
      obtain ⟨v, hv⟩ := t.handle.foldWholeLog_eq f'
      have hlog : (t.handle.foldWholeLog f').log = f'.log := by
        rw [hv]
        rfl
      have hreducers : t.handle.reducers = [taskReducer] := by
        rw [hh]
        exact hs.reducers
      obtain ⟨ops, hops, hmem⟩ := hs.shows
      rw [hs']
      refine ⟨hreducers, ?_, ?_, ?_⟩
      · change (t.handle.foldWholeLog f').logBase = none
        rw [hv]
        exact hseal.logBase.trans hs.noBase
      · change ((t.handle.foldWholeLog f').log.map Op.opId).Nodup
        rw [hlog, hseal.ids]
        exact hs.nodup
      · exact ShowsLog.refold hreducers (hops.of_views_eq hseal.views)
          (fun op hop hf => hseal.keeps op ((hmem op hf).mp hop) hf) rfl hlog

/-- An open that returns leaves views that show the log. -/
theorem openStore_spec {o : Opening} {f : File} {s : Store} (hf : FlowFile f)
    (h : openStore o f = .ok (some (), s)) :
    ParentInv s := by
  unfold openStore at h
  cases hm : materializeViews o.upgraded (openSubstrate o f) with
  | error e =>
    rw [hm] at h
    cases h
  | ok t =>
    rw [hm] at h
    have hmig : migrateBelongsTo t = (some (), s) := Except.ok.inj h
    exact (materializeViews_spec (hf.seat o) rfl hm).1.migrate hmig

/-! ## Runs of opens and parent writes -/

/-- Every `belongs_to` set with a parent that is left is followed by a later clear of its child. -/
def ParentsSettled (f : File) : Prop :=
  ∀ o ∈ f.log, isLegacyParent o = true → o.value.isSome = true →
    ∃ c ∈ f.log, isLegacyParent c = true ∧ c.value = none ∧ c.targetId = o.targetId ∧
      laterThan c o = true

instance (f : File) : Decidable (ParentsSettled f) :=
  inferInstanceAs (Decidable (∀ o ∈ f.log, _ → _ → ∃ c ∈ f.log, _))

/-- One step: the store is opened again, or a parent is set or cleared. -/
inductive ParentStep : Store → Store → Prop
  | opened {s s' : Store} (o : Opening) {ret : Option Unit}
      (h : openStore o s.file = .ok (ret, s')) : ParentStep s s'
  | setParent {s : Store} (child parent author : String) :
    ParentStep s (setParent child parent author s).2
  | clearParent {s : Store} (child author : String) : ParentStep s (clearParent child author s).2

/-- Whatever the write does, it keeps `Q`. -/
def Keeps {α : Type} (Q : Store → Prop) (m : Write α) : Prop := ∀ s, Q s → Q (m s).2

namespace Keeps

variable {α β : Type} {Q : Store → Prop}

theorem pure (a : α) : Keeps Q (Pure.pure a : Write α) := fun _ h => h

theorem read (query : Db → α) : Keeps Q (Core.read query) := fun _ h => h

theorem bind {m : Write α} {k : α → Write β} (hm : Keeps Q m) (hk : ∀ a, Keeps Q (k a)) :
    Keeps Q (m >>= k) := by
  intro s hs
  have h := hm s hs
  obtain ⟨r, hr⟩ : ∃ r, m s = r := ⟨_, rfl⟩
  rw [hr] at h
  obtain ⟨o, s'⟩ := r
  cases o with
  | none =>
    rw [bind_of_none hr]
    exact h
  | some a =>
    rw [bind_of_some hr]
    exact hk a s' h

theorem forM {l : List β} {k : β → Write PUnit} (hk : ∀ b, Keeps Q (k b)) : Keeps Q (l.forM k) := by
  induction l with
  | nil => exact pure PUnit.unit
  | cons b l ih => exact bind (hk b) fun _ => ih

end Keeps

/-- A settled store. -/
structure SettledInv (s : Store) : Prop extends ParentInv s where
  settled : ParentsSettled s.file

/-- Emitting an edge op keeps a store settled. -/
theorem keeps_emitEdge (target field opType : String) (value : Option String) (author : String) :
    Keeps SettledInv (emitTask "edge" target field opType value author) := by
  intro s hs
  unfold emitTask
  cases he : s.emit ⟨domainTask, "edge", .given target, field, opType, value, author⟩ with
  | none => exact hs
  | some p =>
    obtain ⟨id, s'⟩ := p
    obtain ⟨op, ing, _, hem⟩ := Store.emit_eq_some he
    have hreducers : s'.handle.reducers = [taskReducer] := by
      rw [hem.handle]
      exact hs.reducers
    have hkind : op.targetKind = "edge" := by rw [hem.op]; rfl
    change SettledInv s'
    rcases s.handle.ingestInTxn_log s.file op .own with hsame | ⟨hnew, hops, hbase, hviews⟩
    · rw [← hem.file] at hsame
      refine ⟨⟨hreducers, ?_, ?_, ?_⟩, ?_⟩ <;> rw [hsame]
      · exact hs.noBase
      · exact hs.nodup
      · exact hs.shows
      · exact hs.settled
    · rw [← hem.file] at hops hbase hviews
      have hlog : s'.file.log = s.file.log ++ [op] := by
        unfold File.log
        rw [hops, List.map_append]
        rfl
      refine ⟨⟨hreducers, hbase.trans hs.noBase, ?_, ?_⟩, ?_⟩
      · rw [hem.file]
        exact Handle.ingestInTxn_nodup hs.nodup op .own
      · obtain ⟨ops, hfold, hmem⟩ := hs.shows
        refine ⟨ops ++ [op], hfold.append (hviews taskReducer hs.reducers), fun o hf => ?_⟩
        rw [hlog, List.mem_append, List.mem_append, hmem o hf]
      · intro o ho hleg hval
        rw [hlog] at ho ⊢
        rcases List.mem_append.mp ho with ho | ho
        · obtain ⟨c, hc, h⟩ := hs.settled o ho hleg hval
          exact ⟨c, List.mem_append_left _ hc, h⟩
        · rw [List.mem_singleton.mp ho] at hleg
          simp [isLegacyParent, hkind] at hleg

theorem keeps_edgeTarget (fromId toId : String) (kind : EdgeKind) :
    Keeps SettledInv (edgeTarget fromId toId kind) := by
  intro s hs
  have : (edgeTarget fromId toId kind s).2 = s := assert_then_pure _ _ s
  rw [this]
  exact hs

theorem keeps_removeEdge (fromId toId : String) (kind : EdgeKind) (author : String) :
    Keeps SettledInv (removeEdge fromId toId kind author) := by
  refine .bind (.read _) fun tags => ?_
  split
  · exact .pure _
  · exact .bind (keeps_edgeTarget fromId toId kind) fun target =>
      .bind (keeps_emitEdge target "present" "remove" _ author) fun _ => .pure _

theorem keeps_clearParent (child author : String) : Keeps SettledInv (clearParent child author) :=
  .bind (.read _) fun _ => .forM fun parent => keeps_removeEdge child parent .parent author

theorem keeps_setParent (child parent author : String) :
    Keeps SettledInv (setParent child parent author) :=
  .bind (keeps_clearParent child author) fun _ =>
    .bind (keeps_edgeTarget child parent .parent) fun target =>
      .bind (keeps_emitEdge target "present" "add" none author) fun _ => .pure _

/-- Where every `belongs_to` set left is followed by a clear, none is elected. -/
theorem electedParents_of_settled {f : File} (h : ParentsSettled f) : electedParents f = [] := by
  refine List.filter_eq_nil_iff.mpr fun o ho helected => ?_
  simp only [Bool.and_eq_true, Bool.not_eq_true', List.any_eq_false] at helected
  obtain ⟨⟨⟨hleg, hval⟩, hnone⟩, _⟩ := helected
  obtain ⟨c, hc, hcleg, _, htarget, hlater⟩ := h o ho hleg hval
  exact hnone c hc (by simp [hcleg, htarget, hlater])

/-- **Opening a settled store** rewrites nothing, and shows the parents it showed. -/
theorem SettledInv.open {s s' : Store} (hs : SettledInv s) {o : Opening} {ret : Option Unit}
    (h : openStore o s.file = .ok (ret, s')) :
    SettledInv s' ∧ s'.file.log = s.file.log := by
  unfold openStore at h
  cases hm : materializeViews o.upgraded (openSubstrate o s.file) with
  | error e =>
    rw [hm] at h
    cases h
  | ok t =>
    rw [hm] at h
    have hmig : migrateBelongsTo t = (ret, s') := Except.ok.inj h
    obtain ⟨ht, hlog⟩ := materializeViews_spec (hs.flowFile.seat o) rfl hm
    have hlog : t.file.log = s.file.log := hlog.trans (log_seatReplica _ _ _ _)
    have hset : ParentsSettled t.file := by
      unfold ParentsSettled
      rw [hlog]
      exact hs.settled
    unfold migrateBelongsTo at hmig
    rw [electedParents_of_settled hset] at hmig
    cases hmig
    exact ⟨⟨ht, hset⟩, hlog⟩

theorem SettledInv.step {s s' : Store} (hs : SettledInv s) (h : ParentStep s s') :
    SettledInv s' := by
  cases h with
  | opened o h => exact (hs.open h).1
  | setParent child parent author => exact keeps_setParent child parent author s hs
  | clearParent child author => exact keeps_clearParent child author s hs

theorem SettledInv.run {s s' : Store} (hs : SettledInv s) (h : ReflTransGen ParentStep s s') :
    SettledInv s' := by
  induction h with
  | refl => exact hs
  | tail _ hstep ih => exact ih.step hstep

/-- **Opening never changes a child's parents**, in every run of opens, `set_parent` and
`clear_parent` after a first migrating open that left the store settled; and no `belongs_to` set left
in the log ever becomes an edge. -/
theorem parents_kept_at_open {f : File} (hf : FlowFile f) {o₁ : Opening} {s₁ : Store}
    (h₁ : openStore o₁ f = .ok (some (), s₁)) (hset : ParentsSettled s₁.file) {s : Store}
    (hrun : ReflTransGen ParentStep s₁ s) {o : Opening} {ret : Option Unit} {s' : Store}
    (h : openStore o s.file = .ok (ret, s')) :
    (∀ child p, p ∈ targetsOf child .parent s'.file.views ↔
      p ∈ targetsOf child .parent s.file.views) ∧ s'.file.log = s.file.log := by
  have hs : SettledInv s := SettledInv.run ⟨openStore_spec hf h₁, hset⟩ hrun
  obtain ⟨hs', hlog⟩ := hs.open h
  refine ⟨fun child p => ?_, hlog⟩
  rw [hs'.mem_targetsOf, hs.mem_targetsOf, hlog]

/-! ## A workspace from before `parent` edges -/

/-- Whether the open returns. -/
def opens (o : Opening) (f : File) : Bool :=
  match openStore o f with
  | .ok (some (), _) => true
  | _ => false

/-- The store an open returns. -/
def openedStore (o : Opening) (f : File) : Store :=
  match openStore o f with
  | .ok (_, s) => s
  | .error _ => openSubstrate o f

theorem openStore_of_opens {o : Opening} {f : File} (h : opens o f = true) :
    openStore o f = .ok (some (), openedStore o f) := by
  unfold opens openedStore at *
  split at h
  · next s hs => rw [hs]
  · cases h

/-- A legacy `belongs_to` set, or its clear. -/
def belongsTo (opId child : String) (parent : Option String) (lamport : Int) : Op :=
  ⟨opId, lamport, 7, domainTask, "item", child, "belongs_to", "set", parent, "alice", "", none, none⟩

/-- A file no flow views have been folded for. -/
def legacyFile (ops : List Op) : File := { File.fresh with ops := ops.map fun op => ⟨op, .unsigned⟩ }

/-- Somebody opens it. -/
def someOpening : Opening := ⟨1, silentKey, letterIds 'p', false, false⟩

theorem flowFile_legacyFile {ops : List Op} (h : (ops.map Op.opId).Nodup) :
    FlowFile (legacyFile ops) where
  noBase := rfl
  nodup := by
    simpa [legacyFile, File.log, List.map_map, Function.comp_def] using h
  views := .inl (show (0 : Int) < 3 by decide)

/-- `aaaa.1` was moved to `aaaa.2` and cleared, `aaaa.4` moved to `aaaa.2`. -/
def settledFile : File :=
  legacyFile [belongsTo "01A" "aaaa.1" (some "aaaa.2") 1, belongsTo "01B" "aaaa.1" none 2,
    belongsTo "01C" "aaaa.4" (some "aaaa.2") 3]

/-- Migrated, `aaaa.4` shows its parent; cleared, it shows none, at the next open either. -/
theorem parents_kept_at_open_settled :
    let s₁ := openedStore someOpening settledFile
    let s := (clearParent "aaaa.4" "bob" s₁).2
    targetsOf "aaaa.4" .parent s₁.file.views = ["aaaa.2"] ∧
      (∀ child p, p ∈ targetsOf child .parent (openedStore someOpening s.file).file.views ↔
        p ∈ targetsOf child .parent s.file.views) ∧
      targetsOf "aaaa.4" .parent s.file.views = [] := by
  refine ⟨by decide +kernel, ?_, by decide +kernel⟩
  exact (parents_kept_at_open (flowFile_legacyFile (by decide))
    (openStore_of_opens (o := someOpening) (f := settledFile) (by decide +kernel)) (by decide +kernel)
    (.single (.clearParent "aaaa.4" "bob")) (openStore_of_opens (by decide +kernel))).1

/-- `aaaa.1` was moved to `aaaa.2`, then to `aaaa.3`. -/
def movedTwice : File :=
  legacyFile [belongsTo "01A" "aaaa.1" (some "aaaa.2") 1,
    belongsTo "01B" "aaaa.1" (some "aaaa.3") 2]

/-- The migration shows `aaaa.3`; it is cleared; the next open makes the older `aaaa.2` the parent. -/
theorem cleared_parent_returns :
    let s₁ := openedStore someOpening movedTwice
    let s := (clearParent "aaaa.1" "bob" s₁).2
    FlowFile movedTwice ∧ openStore someOpening movedTwice = .ok (some (), s₁) ∧
      ReflTransGen ParentStep s₁ s ∧
      openStore someOpening s.file = .ok (some (), openedStore someOpening s.file) ∧
      targetsOf "aaaa.1" .parent s₁.file.views = ["aaaa.3"] ∧
      targetsOf "aaaa.1" .parent s.file.views = [] ∧
      targetsOf "aaaa.1" .parent (openedStore someOpening s.file).file.views = ["aaaa.2"] :=
  ⟨flowFile_legacyFile (by decide), openStore_of_opens (by decide +kernel),
    .single (.clearParent "aaaa.1" "bob"), openStore_of_opens (by decide +kernel),
    by decide +kernel, by decide +kernel, by decide +kernel⟩

end NexusFlow.Core
