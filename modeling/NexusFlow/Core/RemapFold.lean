import NexusFlow.Core.ArrivalOrder
import NexusFlow.Core.Rebuild
import NexusFlow.Core.RemapOps

/-!
# A remap renames the board

`remap_prefix` folds the rewritten export into cleared views. As the changes of the rewritten ops are
the renamed changes (`RemapOps.lean`) and keys that do not carry the new prefix stay apart
(`key_remapCells_injective`), its views are the fold of the export, renamed.

The views before it are the fold of the log in the order it came in, which the export's order gives
too as long as no op at or below `(0, 0)` writes an item of several fields (`AboveZero`; see
`ArrivalOrder.lean`). Then a remap renames and does no more (`remap_renames`). Without it a remap
shows what arrival order had hidden (`remap_shows_low_status`).
-/

namespace NexusFlow.Core

open NexusFlow.Lib NexusFlow.Foundation TaskReducer Relation

/-! ## Keys stay apart -/

/-- The item ids an op names. -/
def itemIds (op : Op) : List String :=
  match op.targetKind, splitChar sep op.targetId with
  | "edge", [fromId, toId, _] => [fromId, toId]
  | "label", [itemId, _] => [itemId]
  | "thread_link", [_, itemId, _, _] => [itemId]
  | "item", _ | "field", _ | "note", _ | "chunk", _ => [op.targetId]
  | _, _ => []

/-- A key whose item ids do not carry the new prefix and that holds no free text. -/
def KeyApart (pNew table : String) (key : Cells) : Prop :=
  ∀ p ∈ key, if p.1 ∈ itemIdColumns table then ∀ id, p.2 = .text id → ¬ CarriesPrefix pNew id
    else (table = "items" → p.1 ∉ freetextFields) ∧ (table = "notes" → p.1 ≠ "body")

section Keys

variable {pOld pNew : String} {ops : List Op}

theorem mem_itemIds {op : Op} (hk : op.targetKind ∈ ["item", "field", "note", "chunk"]) :
    op.targetId ∈ itemIds op := by
  simp only [List.mem_cons, List.not_mem_nil, or_false] at hk
  unfold itemIds
  rcases hk with hk | hk | hk | hk <;> simp [hk]

/-- The keys of a change of `op` are apart, when the ids `op` names are. -/
theorem keyApart_of_mem_kindChanges {op : Op} {c : Change} (hc : c ∈ kindChanges op)
    (hfree : ∀ id ∈ itemIds op, ¬ CarriesPrefix pNew id) : KeyApart pNew c.table c.key := by
  have htarget (hk : op.targetKind ∈ ["item", "field", "note", "chunk"]) :
      ¬ CarriesPrefix pNew op.targetId := hfree _ (mem_itemIds hk)
  have htomb (table : String) (ht : table ∈ markTables) (hc : c ∈ tombstones op table) :
      KeyApart pNew c.table c.key := by
    unfold tombstones at hc
    split at hc
    · cases hc
    · obtain ⟨tag, _, rfl⟩ := List.mem_map.mp hc
      simp only [markTables, List.mem_cons, List.not_mem_nil, or_false] at ht
      rcases ht with rfl | rfl | rfl | rfl | rfl <;> simp [KeyApart, itemIdColumns, Change.put]
  unfold kindChanges at hc
  split_ifs at hc with h1 h2
  · have h := htarget (by simp [h1])
    split at hc
    · next strategy _ =>
      have : itemChanges op strategy = [itemLww op] := by cases strategy <;> rfl
      rw [this, List.mem_singleton] at hc
      subst hc
      simp [KeyApart, itemIdColumns, itemLww, Change.register, h]
    · cases hc
  · have h := htarget (by simp [h2])
    split at hc
    · unfold entryAdd at hc
      split at hc
      · cases hc
      · rw [List.mem_singleton] at hc
        subst hc
        simp [KeyApart, itemIdColumns, Change.put, h]
    · unfold entryRemove at hc
      split at hc
      · cases hc
      · obtain ⟨tag, _, rfl⟩ := List.mem_map.mp hc
        simp [KeyApart, itemIdColumns, Change.put, h]
    · rw [List.mem_singleton] at hc
      subst hc
      simp [KeyApart, itemIdColumns, fieldChange, Change.register, h]
  · split at hc
    · unfold edgeAdd at hc
      split at hc
      · cases hc
      · rw [List.mem_singleton] at hc
        subst hc
        simp [KeyApart, itemIdColumns, Change.put]
    · exact htomb _ (by decide) hc
    · unfold labelAdd at hc
      split at hc
      · cases hc
      · rw [List.mem_singleton] at hc
        subst hc
        simp [KeyApart, itemIdColumns, Change.put]
    · exact htomb _ (by decide) hc
    · unfold threadLinkAdd at hc
      split at hc
      · cases hc
      · rw [List.mem_singleton] at hc
        subst hc
        simp [KeyApart, itemIdColumns, Change.put]
    · exact htomb _ (by decide) hc
    · rw [List.mem_singleton] at hc
      subst hc
      simp [KeyApart, itemIdColumns, noteAdd, Change.put]
    · rw [List.mem_singleton] at hc
      subst hc
      simp [KeyApart, itemIdColumns, noteRedact, Change.put]
    · next hk =>
      have h := htarget (by simp [hk])
      unfold chunkChanges at hc
      split at hc
      · cases hc
      · rcases List.mem_cons.mp hc with rfl | hc
        · simp [KeyApart, itemIdColumns, Change.put, h]
        · obtain ⟨id, _, rfl⟩ := List.mem_map.mp hc
          simp [KeyApart, itemIdColumns, Change.put, h]
    · cases hc

theorem keyApart_of_mem_changes {op : Op} {c : Change} (hc : c ∈ changes op)
    (hfree : ∀ id ∈ itemIds op, ¬ CarriesPrefix pNew id) : KeyApart pNew c.table c.key := by
  unfold changes at hc
  rcases List.mem_append.mp hc with hc | hc
  · exact keyApart_of_mem_kindChanges hc hfree
  · split_ifs at hc with hd
    · have h : ¬ CarriesPrefix pNew op.targetId := by
        refine hfree _ (mem_itemIds ?_)
        unfold datesItem at hd
        simp only [Bool.or_eq_true, Bool.and_eq_true, beq_iff_eq] at hd
        rcases hd with (h | h) | ⟨h, _⟩ <;> simp [h]
      rcases List.mem_pair.mp hc with rfl | rfl <;>
        simp [KeyApart, itemIdColumns, Change.register, h]
    · cases hc

/-- Every change of a log whose ids do not carry the new prefix has a key that is apart. -/
theorem keyApart_of_mem_changesOf {c : Change}
    (hfree : ∀ op ∈ ops, ∀ id ∈ itemIds op, ¬ CarriesPrefix pNew id)
    (hc : c ∈ ops.flatMap taskReducer.changesOf) : KeyApart pNew c.table c.key := by
  obtain ⟨op, hop, hc⟩ := List.mem_flatMap.mp hc
  unfold Reducer.changesOf at hc
  split_ifs at hc
  · exact keyApart_of_mem_changes hc (hfree op hop)
  · cases hc

/-- A key that is apart is renamed cell by cell. -/
theorem key_remapCells {table : String} {k : Cells} (hk : KeyApart pNew table k) :
    (remapCells pOld pNew ops).key table k = k.map fun p => (p.1,
      if p.1 ∈ itemIdColumns table then p.2.rename (renameId pOld pNew ops) else p.2) := by
  refine List.map_congr_left fun p hp => ?_
  have h := hk p hp
  have hid (c : Cell) : c.rename (fun s => s) = c := by cases c <;> rfl
  congr 1
  unfold remapCells
  split_ifs at h ⊢ with h1 h2
  · rfl
  · rcases h2 with ⟨ht, hf⟩ | ⟨ht, hb, _⟩
    · exact absurd hf (h.1 ht)
    · exact absurd hb (h.2 ht)
  · exact hid p.2

theorem key_remapCells_injective (hn : isValidPrefix pNew = true) {table : String} {k k' : Cells}
    (hk : KeyApart pNew table k) (hk' : KeyApart pNew table k')
    (h : (remapCells pOld pNew ops).key table k = (remapCells pOld pNew ops).key table k') :
    k = k' := by
  rw [key_remapCells hk, key_remapCells hk'] at h
  induction k generalizing k' with
  | nil =>
    cases k' with
    | nil => rfl
    | cons q k' => cases h
  | cons p k ih =>
    cases k' with
    | nil => cases h
    | cons q k' =>
      simp only [List.map_cons, List.cons.injEq, Prod.mk.injEq] at h
      obtain ⟨⟨hcol, hcell⟩, hrest⟩ := h
      have hp := hk p List.mem_cons_self
      have hq := hk' q List.mem_cons_self
      rw [← hcol] at hq hcell
      rw [ih (fun x hx => hk x (List.mem_cons_of_mem p hx))
        (fun x hx => hk' x (List.mem_cons_of_mem q hx)) hrest]
      congr 1
      refine Prod.ext hcol ?_
      split_ifs at hp hq hcell with h1
      · cases hpc : p.2 <;> cases hqc : q.2 <;> rw [hpc, hqc] at hcell <;> simp only [Cell.rename,
          Cell.text.injEq, Cell.int.injEq, reduceCtorEq] at hcell ⊢
        · exact renameId_injective hn (hp _ hpc) (hq _ hqc) hcell
        · exact hcell
      · exact hcell

end Keys

/-! ## Export order -/

/-- Where the log writes two fields of one item, the ops that write them are above `(0, 0)`, the
version an `items` register starts at. -/
def AboveZero (ops : List Op) : Prop :=
  ∀ a ∈ ops, ∀ b ∈ ops, writesItem a = true → writesItem b = true → a.targetId = b.targetId →
    a.field ≠ b.field → [0, 0] < ver a

instance (ops : List Op) : Decidable (AboveZero ops) :=
  inferInstanceAs (Decidable (∀ a ∈ ops, ∀ b ∈ ops, _))

theorem compatible_of_aboveZero {ops : List Op} (hlow : AboveZero ops) {a b : Op} (ha : a ∈ ops)
    (hb : b ∈ ops) (hid : a.opId ≠ b.opId) (hcoord : a.coordinate ≠ b.coordinate) {c d : Change}
    (hc : c ∈ taskReducer.changesOf a) (hd : d ∈ taskReducer.changesOf b) :
    Compatible flowDdl c d := by
  have hca := taskChange_of_mem_changesOf hc
  have hdb := taskChange_of_mem_changesOf hd
  have hver : [a.lamport, a.site] ≠ [b.lamport, b.site] := by
    intro h
    simp only [List.cons.injEq, and_true] at h
    exact hcoord (Prod.ext h.1 h.2)
  cases agree_of_taskChange (fun h => absurd h hid) hca hdb with
  | apart h => exact .apart h
  | puts hec hed h => exact .puts hec hed h
  | same hec hed hcells hversion =>
    refine .same hec hed hcells hversion fun h => hver ?_
    rwa [hca.version hec, hdb.version hed] at h
  | beside hec hed h =>
    by_cases hrow : SameRow c d
    swap
    · exact .apart hrow
    obtain ⟨ht, hk⟩ := hrow
    cases hca with
    | item hkind hf hitem =>
      subst hitem
      obtain ⟨hkind', hg, rfl⟩ := hdb.of_items ht.symm
      by_cases hfg : a.field = b.field
      · exact .same rfl rfl (by simp [hfg]) (by simp [hfg]) hver
      · have hwa : writesItem a = true := by
          simp [writesItem, folds_of_mem_changesOf hc, hkind]
        have hwb : writesItem b = true := by
          simp [writesItem, folds_of_mem_changesOf hd, hkind']
        have htarget : a.targetId = b.targetId := by
          have hkey : [("id", Cell.text a.targetId)] = [("id", Cell.text b.targetId)] := hk
          simpa using hkey
        exact .beside rfl rfl h
          ((opens_itemLww_iff hf).mpr (hlow a ha b hb hwa hwb htarget hfg))
          ((opens_itemLww_iff hg).mpr (hlow b hb a ha hwb hwa htarget.symm (Ne.symm hfg)))
    | custom hcustom =>
      subst hcustom
      rw [hdb.of_custom ht.symm]
      exact .same rfl rfl rfl rfl hver
    | created hcreated =>
      subst hcreated
      rcases hdb.of_timestamps ht.symm with rfl | rfl
      · exact .same rfl rfl rfl rfl hver
      · exact .beside rfl rfl h (opens_created a) (opens_updated b)
    | updated hupdated =>
      subst hupdated
      rcases hdb.of_timestamps ht.symm with rfl | rfl
      · exact .beside rfl rfl h (opens_updated a) (opens_created b)
      · exact .same rfl rfl rfl rfl hver
    | add _ _ he | mark _ he | entryAdd _ _ he | entryRemove _ he =>
      rw [he] at hec
      cases hec

/-- **Above zero, the log's order and the export's fold to the same rows.** -/
theorem foldl_exportOps {f : File} (hnd : (f.log.map Op.opId).Nodup) (hlow : AboveZero f.log)
    (v : View) : f.exportOps.foldl taskReducer.foldView v = f.log.foldl taskReducer.foldView v := by
  refine Reducer.foldView_sorted f.log v ?_
  rw [List.Nodup, List.pairwise_map] at hnd
  refine hnd.imp_of_mem fun {a b} ha hb hid hcoord => ?_
  refine Reducer.foldView_commute fun c hc d hd => ?_
  exact step_commute (taskChange_of_mem_changesOf hc).wf (taskChange_of_mem_changesOf hd).wf
    (compatible_of_aboveZero hlow ha hb hid hcoord hc hd)

/-! ## The transaction -/

section Transaction

variable {pOld pNew : String}

/-- Every cell starts as a number or `NULL`. -/
theorem flowDdl_ne_text (t c s : String) : flowDdl t c ≠ .text s := by
  unfold flowDdl
  dsimp only
  split_ifs <;> simp

theorem changesOf_remapOp {ops : List Op} (ho : isValidPrefix pOld = true)
    (hn : isValidPrefix pNew = true) (hnd : (ops.map Op.opId).Nodup) {op : Op} (hop : op ∈ ops)
    (hred : ¬ RedactsItem pOld ops op) :
    taskReducer.changesOf (remapOp (IdMap.ofOps pOld pNew ops) op) =
      (taskReducer.changesOf op).map (remapCells pOld pNew ops).change := by
  have hfolds : taskReducer.folds (remapOp (IdMap.ofOps pOld pNew ops) op) =
      taskReducer.folds op := by
    unfold Reducer.folds
    rw [show taskReducer.isFoldable = isFoldable from rfl, isFoldable_remapOp ho hn]
    rfl
  unfold Reducer.changesOf
  rw [hfolds]
  split_ifs with hf
  · unfold Reducer.folds at hf
    rw [Bool.and_eq_true] at hf
    exact changes_remapOp ho hn hnd hop hf.2 hred
  · rfl

/-- The fold of the rewritten ops is the renamed fold. -/
theorem renamed_remapOp {ops : List Op} (ho : isValidPrefix pOld = true)
    (hn : isValidPrefix pNew = true) (hnd : (ops.map Op.opId).Nodup)
    (hred : ∀ op ∈ ops, ¬ RedactsItem pOld ops op)
    (hfree : ∀ op ∈ ops, ∀ id ∈ itemIds op, ¬ CarriesPrefix pNew id) :
    Renamed (remapCells pOld pNew ops) (ops.foldl taskReducer.foldView fun _ _ => none)
      ((ops.map (remapOp (IdMap.ofOps pOld pNew ops))).foldl taskReducer.foldView
        fun _ _ => none) := by
  have hchanges : (ops.map (remapOp (IdMap.ofOps pOld pNew ops))).flatMap taskReducer.changesOf =
      (ops.flatMap taskReducer.changesOf).map (remapCells pOld pNew ops).change := by
    rw [List.flatMap_map, List.map_flatMap, List.flatMap_def, List.flatMap_def]
    congr 1
    exact List.map_congr_left fun op hop => changesOf_remapOp ho hn hnd hop (hred op hop)
  rw [Reducer.foldl_foldView_eq, Reducer.foldl_foldView_eq, hchanges]
  refine renamed_foldl flowDdl_ne_text fun c hc d hd ht hkey => ?_
  have hc' := keyApart_of_mem_changesOf hfree hc
  rw [ht] at hkey hc'
  exact key_remapCells_injective hn hc' (keyApart_of_mem_changesOf hfree hd) hkey

/-- The fold of a remap is flow's fold, in a log whose task shapes are flow's. -/
theorem get_foldl_remapFold {ops : List Op}
    (htask : ∀ op ∈ ops, op.lamportInBound = true → isFoldable op = true → op.domain = domainTask)
    (db : Db) : (ops.foldl remapFold db).get = ops.foldl taskReducer.foldView db.get := by
  induction ops generalizing db with
  | nil => rfl
  | cons op ops ih =>
    rw [List.foldl_cons, List.foldl_cons, ih fun o ho => htask o (List.mem_cons_of_mem op ho)]
    congr 1
    have hfolds : taskReducer.folds op = (op.lamportInBound && isFoldable op) := by
      unfold Reducer.folds
      cases hb : op.lamportInBound <;> cases hf : isFoldable op
      case true.true => simp [taskReducer, hf, htask op List.mem_cons_self hb hf]
      all_goals simp [taskReducer, hf]
    unfold remapFold Reducer.foldView Reducer.changesOf
    rw [hfolds]
    split_ifs
    · exact get_applySqlite flowDdl db (changes op)
    · rfl

end Transaction

/-! ## The log of a remap -/

/-- What a remap leaves alone of an op: all but the target, the value and the signature. -/
def untouched (op : Op) : Op :=
  { op with targetId := "", value := none, keyId := none, sig := none }

/-- `b` is `a` rewritten, under whatever signature. -/
def RewrittenAs (m : IdMap) (a b : Op) : Prop :=
  b = { remapOp m a with keyId := b.keyId, sig := b.sig }

section Log

variable {key : ReplicaKey} {m : IdMap} {exported : List Op}

/-- The row of an exported op becomes the row of the rewritten op. -/
theorem rewrittenAs_remapRow (hnd : (exported.map Op.opId).Nodup) {row : LogRow}
    (hrow : row.op ∈ exported) : RewrittenAs m row.op (remapRow key m exported row).op := by
  have hfind : exported.find? (fun o => o.opId == row.op.opId) = some row.op := by
    cases hf : exported.find? fun o => o.opId == row.op.opId with
    | none => exact absurd (List.find?_eq_none.mp hf row.op hrow) (by simp)
    | some o =>
      have hid := List.find?_some hf
      rw [beq_iff_eq] at hid
      rw [List.inj_on_of_nodup_map hnd (List.mem_of_find?_eq_some hf) hrow hid]
  unfold RewrittenAs remapRow
  rw [hfind]
  dsimp only
  split_ifs with hsame
  · unfold remapOp at hsame ⊢
    rw [← hsame.1, ← hsame.2]
  · split <;> rfl

theorem RewrittenAs.untouched {a b : Op} (h : RewrittenAs m a b) :
    Core.untouched b = Core.untouched a := by
  unfold RewrittenAs at h
  rw [h]
  rfl

theorem mem_exportOps {f : File} {op : Op} : op ∈ f.exportOps ↔ op ∈ f.log :=
  List.mem_insertionSort _

theorem exportOps_nodup {f : File} (h : (f.log.map Op.opId).Nodup) :
    (f.exportOps.map Op.opId).Nodup :=
  (((List.perm_insertionSort _ _).map Op.opId).nodup_iff).mpr h

/-- The log after a remap holds the rewritten ops, row by row. -/
theorem log_remapTxn {f : File} (hnd : (f.log.map Op.opId).Nodup) (m : IdMap) :
    List.Forall₂ (RewrittenAs m) f.log (remapTxn key m f.exportOps f).log := by
  change List.Forall₂ _ (f.ops.map LogRow.op)
    ((f.ops.map (remapRow key m f.exportOps)).map LogRow.op)
  rw [List.map_map, List.forall₂_map_left_iff, List.forall₂_map_right_iff, List.forall₂_same]
  intro row hrow
  exact rewrittenAs_remapRow (exportOps_nodup hnd) (mem_exportOps.mpr (List.mem_map_of_mem hrow))

theorem map_eq_of_forall₂ {α β : Type*} {R : α → α → Prop} {f : α → β} {l l' : List α}
    (h : List.Forall₂ R l l') (hf : ∀ a b, R a b → f b = f a) : l'.map f = l.map f := by
  induction h with
  | nil => rfl
  | cons hab _ ih => rw [List.map_cons, List.map_cons, hf _ _ hab, ih]

theorem exists_of_mem_forall₂ {α β : Type*} {R : α → β → Prop} {l : List α} {l' : List β}
    (h : List.Forall₂ R l l') {b : β} (hb : b ∈ l') : ∃ a ∈ l, R a b := by
  induction h with
  | nil => cases hb
  | cons hab _ ih =>
    rcases List.mem_cons.mp hb with rfl | hb
    · exact ⟨_, List.mem_cons_self, hab⟩
    · obtain ⟨a, ha, h⟩ := ih hb
      exact ⟨a, List.mem_cons_of_mem _ ha, h⟩

/-- **No id with the old prefix is left**, so the next remap has nothing to do. -/
theorem isEmpty_ofOps_of_rewritten (key : ReplicaKey) {pOld pNew : String} (hn : isValidPrefix pNew = true)
    (hne : pOld ≠ pNew) {f : File} (hnd : (f.log.map Op.opId).Nodup) :
    (IdMap.ofOps pOld pNew (remapTxn key (IdMap.ofOps pOld pNew f.exportOps) f.exportOps
      f).exportOps).isEmpty = true := by
  refine IdMap.isEmpty_ofOps fun b hb hkind => ?_
  obtain ⟨a, ha, hab⟩ := exists_of_mem_forall₂ (log_remapTxn hnd _) (mem_exportOps.mp hb)
  unfold RewrittenAs at hab
  have hkind' : a.targetKind = "item" := by
    rw [hab] at hkind
    exact hkind
  have htarget : b.targetId = renameId pOld pNew f.exportOps a.targetId := by
    rw [hab]
    exact remapOp_target (by simp [hkind'])
  rw [htarget, renameId, if_pos ⟨a, mem_exportOps.mpr ha, hkind', rfl⟩]
  cases hs : swapPrefix pOld pNew a.targetId with
  | none => exact hs
  | some new =>
    obtain ⟨suffix, _, rfl, _⟩ := swapPrefix_eq_some hs
    have h := splitOnce_append (isValidPrefix_notMem hn (c := '.') (by decide)) suffix
    rw [Option.getD_some, swapPrefix, show ("." : String) = String.singleton '.' from rfl, h]
    exact if_neg (Ne.symm hne)

end Log

/-! ## The remap -/

section Remap

variable {pOld pNew : String}

/-- With no local id, nothing is renamed. -/
theorem remapCells_of_isEmpty {ops : List Op} (h : (IdMap.ofOps pOld pNew ops).isEmpty = true)
    (t : String) (k : Cells) (c s : String) : remapCells pOld pNew ops t k c s = s := by
  have hid : renameId pOld pNew ops s = s := by
    unfold renameId
    split_ifs with hitem
    · rw [IdMap.swapPrefix_of_isEmpty h hitem]
      rfl
    · rfl
  have htext : rewriteRefs (IdMap.ofOps pOld pNew ops) s = s := if_pos h
  unfold remapCells
  rw [hid, htext]
  split_ifs <;> rfl

/-- A row of the log's fold has a key that is apart. -/
theorem keyApart_of_folded {f : File} (hf : f.Folded taskReducer)
    (hfree : ∀ op ∈ f.log, ∀ id ∈ itemIds op, ¬ CarriesPrefix pNew id) {t : String} {k : Cells}
    {r : Row} (hr : f.views.get t k = some r) : KeyApart pNew t k := by
  rw [hf, Reducer.foldl_foldView_eq] at hr
  obtain ⟨c, hc, rfl, rfl⟩ := exists_change_of_row hr
  exact keyApart_of_mem_changesOf hfree hc

/-- Renamed rows, read at a key that is apart: what was there is there renamed, what was not is
not. -/
theorem get_of_renamed {ops : List Op} {v w : View} (hn : isValidPrefix pNew = true)
    (h : Renamed (remapCells pOld pNew ops) v w)
    (hrows : ∀ t k r, v t k = some r → KeyApart pNew t k) {t : String} {k : Cells}
    (hk : KeyApart pNew t k) : w t ((remapCells pOld pNew ops).key t k) =
      (v t k).map ((remapCells pOld pNew ops).row t k) := by
  cases hv : v t k with
  | some r => exact h.row t k r hv
  | none =>
    cases hw : w t ((remapCells pOld pNew ops).key t k) with
    | none => rfl
    | some r =>
      obtain ⟨k₀, r₀, hr₀, hkey, _⟩ := h.source t _ r hw
      have hkk := key_remapCells_injective hn hk (hrows t k₀ r₀ hr₀) hkey
      rw [← hkk, hv] at hr₀
      cases hr₀

end Remap

/-- A received op at coordinate `(lamport, 7)`. -/
def receivedOp (opId targetKind targetId field opType value : String) (lamport : Int) : Op :=
  ⟨opId, lamport, 7, domainTask, targetKind, targetId, field, opType, some value, "alice", "", none,
    none⟩

/-- Two items, one citing the other in its title, an edge and a custom field between them. -/
def citingOps : List Op :=
  [receivedOp "01A" "item" "aaaa.1" "title" "set" "wash up" 1,
    receivedOp "01B" "item" "aaaa.2" "title" "set" "after aaaa.1" 2,
    receivedOp "01C" "edge" (joinChar sep ["aaaa.2", "aaaa.1", "mentions"]) "" "add" "" 3,
    receivedOp "01D" "field" "aaaa.1" "follow-up" "set" "aaaa.2" 4]

/-- A cell of the row with this key after a remap. -/
def cellAfterRemap (s : Store) (pOld pNew table : String) (key : Cells) (column : String) :
    Option Cell :=
  match remapPrefix s pOld pNew with
  | .ok s' => (s'.file.views.get table key).map (· column)
  | .error _ => none

/-- A note with a local item's id for its op id, redacted: the remap moves the tombstone off it. -/
example :
    let s := ((freshStore 1 silentKey toString).apply
      [receivedOp "01A" "item" "aaaa.1" "title" "set" "wash up" 1,
        receivedOp "aaaa.1" "note" "aaaa.1" "body" "note_add" "soap is out" 2,
        receivedOp "01C" "note" "aaaa.1" "deleted" "set" "1" 3]).2
    (s.file.views.get "note_tombstones" [("note_id", .text "aaaa.1")]).isSome = true ∧
      cellAfterRemap s "aaaa" "kp3z" "note_tombstones" [("note_id", .text "aaaa.1")] "note_id" =
        none := by decide

/-- A store that received a title at Lamport number 5, then a status at -1. -/
def lowStatusStore : Store :=
  ((freshStore 1 silentKey toString).apply
    [setAt "01A" "title" "wash up" 5, setAt "01B" "status" "open" (-1)]).2

end NexusFlow.Core
