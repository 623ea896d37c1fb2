import NexusFlow.Core.Alone

/-!
# What a lone replica's writes do

The views of a replica that merges nothing, as a sheet: the registers of each item and the set of
present edges. On a sheet a write is what its name says (`Sheet.set`, `addEdge`, `removeEdge`,
`clearParents`), with no clocks, tags or tombstones.

`Does m f`: where the store write `m` returns, the sheet is as `f` says. Each store write that touches
an item or an edge has one such lemma; the others leave the sheet as it was (`does_emit_other`).
-/

namespace NexusFlow.Core

open NexusFlow.Foundation TaskReducer

/-! ## Sheets -/

theorem EdgeKind.asStr_inj {a b : EdgeKind} (h : a.asStr = b.asStr) : a = b := by
  have := EdgeKind.parse_asStr a
  rw [h, EdgeKind.parse_asStr] at this
  exact (Option.some.inj this).symm

/-- Items by id, each with its registers, and the present edges. -/
structure Sheet where
  items : String → Option (String → Cell)
  edges : String → String → EdgeKind → Prop

namespace Sheet

/-- One register of one item, which is there from then on. -/
def set (sh : Sheet) (id field : String) (value : Cell) : Sheet :=
  { sh with
    items := Function.update sh.items id
      (some (Function.update ((sh.items id).getD fun _ => .null) field value)) }

/-- One edge more. -/
def addEdge (sh : Sheet) (fromId toId : String) (kind : EdgeKind) : Sheet :=
  { sh with edges := fun f t k => sh.edges f t k ∨ (f = fromId ∧ t = toId ∧ k = kind) }

/-- One edge less. -/
def removeEdge (sh : Sheet) (fromId toId : String) (kind : EdgeKind) : Sheet :=
  { sh with edges := fun f t k => sh.edges f t k ∧ ¬ (f = fromId ∧ t = toId ∧ k = kind) }

/-- No parent edge of the child. -/
def clearParents (sh : Sheet) (child : String) : Sheet :=
  { sh with edges := fun f t k => sh.edges f t k ∧ ¬ (f = child ∧ k = .parent) }

/-- A register, null on an item that is not there. -/
def reg (sh : Sheet) (id field : String) : Cell := ((sh.items id).map (· field)).getD .null

@[simp] theorem reg_set (sh : Sheet) (id field : String) (value : Cell) (id' field' : String) :
    (sh.set id field value).reg id' field' =
      if id' = id ∧ field' = field then value else sh.reg id' field' := by
  unfold reg set
  by_cases hid : id' = id
  · subst hid
    by_cases hfield : field' = field
    · simp [hfield]
    · cases sh.items id' <;> simp [hfield]
  · simp [hid]

@[simp] theorem reg_addEdge (sh : Sheet) (f t : String) (k : EdgeKind) :
    (sh.addEdge f t k).reg = sh.reg := rfl

@[simp] theorem reg_removeEdge (sh : Sheet) (f t : String) (k : EdgeKind) :
    (sh.removeEdge f t k).reg = sh.reg := rfl

@[simp] theorem set_edges (sh : Sheet) (id field : String) (value : Cell) :
    (sh.set id field value).edges = sh.edges := rfl

@[simp] theorem addEdge_items (sh : Sheet) (f t : String) (k : EdgeKind) :
    (sh.addEdge f t k).items = sh.items := rfl

@[simp] theorem removeEdge_items (sh : Sheet) (f t : String) (k : EdgeKind) :
    (sh.removeEdge f t k).items = sh.items := rfl

@[simp] theorem clearParents_items (sh : Sheet) (child : String) :
    (sh.clearParents child).items = sh.items := rfl

end Sheet

theorem itemKey_inj {a b : String} : itemKey a = itemKey b ↔ a = b := by
  simp [itemKey]

/-- The registers of a row of `items`. -/
def registers (row : Row) : String → Cell :=
  fun f => if f ∈ itemLwwFields then row f else .null

/-- The sheet of a store's views. -/
def sheetOf (db : Db) : Sheet where
  items id := (db.get "items" (itemKey id)).map registers
  edges f t k := edgeSet.present db (f, t, k)

/-! ## The rows of `items` -/

section Items

variable {op : Op} {v : View}

/-- Only an item's op touches the items. -/
theorem foldView_items (hk : op.targetKind ≠ "item") (k : Cells) :
    taskReducer.foldView v op "items" k = v "items" k := by
  unfold Reducer.foldView
  rw [View.foldl_step_row, List.filter_eq_nil_iff.mpr]
  · rfl
  · intro c hc h
    simp only [decide_eq_true_eq] at h
    exact hk ((taskChange_of_mem_changesOf hc).of_items h.1).1

/-- An item's op that is folded names a register and a strategy. -/
theorem folded_item (hf : taskReducer.folds op = true) (hk : op.targetKind = "item") :
    op.field ∈ itemLwwFields ∧ ∃ m, MergeStrategy.fromItemSetOpType op.opType = some m := by
  unfold Reducer.folds at hf
  have hfoldable : isFoldable op = true := (Bool.and_eq_true _ _ ▸ hf).2
  unfold isFoldable at hfoldable
  rw [if_pos hk, Bool.and_eq_true, Option.isSome_iff_exists] at hfoldable
  exact ⟨by simpa using hfoldable.2, hfoldable.1⟩

/-- An item's op that is folded writes its register. -/
theorem foldView_item (hf : taskReducer.folds op = true) (hk : op.targetKind = "item")
    (k : Cells) :
    taskReducer.foldView v op "items" k =
      if k = itemKey op.targetId then some (rowAfter flowDdl (itemLww op) (v "items" k))
      else v "items" k := by
  obtain ⟨_, m, hm⟩ := folded_item hf hk
  have hchanges : taskReducer.changesOf op = itemLww op :: timestampChanges op := by
    have hkind : kindChanges op = [itemLww op] := by
      unfold kindChanges
      rw [if_pos hk, hm]
      cases m <;> rfl
    have hdates : datesItem op = true := by simp [datesItem, hk]
    unfold Reducer.changesOf
    rw [if_pos hf]
    change changes op = _
    unfold changes
    rw [hkind, if_pos hdates]
    rfl
  unfold Reducer.foldView
  rw [View.foldl_step_row, hchanges]
  have htimes : (timestampChanges op).filter (fun c => c.table = "items" ∧ c.key = k) = [] := by
    rw [List.filter_eq_nil_iff]
    intro c hc
    rcases List.mem_pair.mp hc with rfl | rfl <;> simp [Change.register]
  split_ifs with h
  · rw [List.filter_cons_of_pos (by simp [itemLww, Change.register, h, itemKey]), htimes]
    rfl
  · rw [List.filter_cons_of_neg, htimes]
    · rfl
    · simp only [itemLww, Change.register, true_and, decide_eq_true_eq]
      exact fun h' => h h'.symm

end Items

/-- The version columns of a register of `items`. -/
def versionColumns (field : String) : List String := [field ++ "_v", field ++ "_site"]

/-- **No register is newer than the ops folded.** -/
theorem storedVersion_le {ops : List Op} {c : Int} (hc : 0 ≤ c) (h : ∀ op ∈ ops, op.lamport ≤ c)
    {id field : String} (hfield : field ∈ itemLwwFields) {row : Row}
    (hrow : ops.foldl taskReducer.foldView (fun _ _ => none) "items" (itemKey id) = some row) :
    ∃ l st, storedVersion row (versionColumns field) = some [l, st] ∧ l ≤ c := by
  induction ops using List.reverseRecOn generalizing row with
  | nil => cases hrow
  | append_singleton ops op ih =>
    rw [List.foldl_append, List.foldl_cons, List.foldl_nil] at hrow
    have ih := fun {row} => @ih (fun o ho => h o (List.mem_append_left _ ho)) row
    cases hf : taskReducer.folds op with
    | false =>
      rw [Reducer.foldView_of_not_folds hf] at hrow
      exact ih hrow
    | true =>
      by_cases hk : op.targetKind = "item"
      swap
      · rw [foldView_items hk] at hrow
        exact ih hrow
      have hof := (folded_item hf hk).1
      rw [foldView_item hf hk] at hrow
      split_ifs at hrow with hid
      swap
      · exact ih hrow
      rw [Option.some_inj] at hrow
      subst hrow
      -- what the write of the op's own register leaves for `field`, over whatever row was there
      have hwritten : ∀ r : Row, (∃ l st, storedVersion r (versionColumns field) = some [l, st] ∧
          l ≤ c) → ∃ l st, storedVersion (assign r (itemLww op).effect.writes)
            (versionColumns field) = some [l, st] ∧ l ≤ c := by
        rintro r hr
        by_cases hsame : field = op.field
        · refine ⟨op.lamport, op.site, ?_, h op (by simp)⟩
          rw [hsame]
          exact storedVersion_writes (itemLww_wf hof) r
        · obtain ⟨l, st, hl, hle⟩ := hr
          refine ⟨l, st, ?_, hle⟩
          rw [storedVersion_assign_of_notMem, hl]
          have hdisj := itemLww_disjoint (a := { op with field := field }) (b := op) hfield hof hsame
          exact fun n hn => hdisj n (List.mem_cons_of_mem _ hn)
      cases hold : ops.foldl taskReducer.foldView (fun _ _ => none) "items" (itemKey id) with
      | none =>
        rw [rowAfter_none (itemLww_wf hof)]
        refine hwritten _ ⟨0, 0, ?_, hc⟩
        exact storedVersion_seedRow_items hfield _
      | some r =>
        rw [rowAfter_register rfl]
        split_ifs
        · exact hwritten r (ih hold)
        · exact ih hold

/-- A register of an item, on a bare row. -/
theorem registers_seedRow (id : String) :
    registers (seedRow flowDdl "items" (itemKey id)) = fun _ => .null := by
  have h : ∀ f ∈ itemLwwFields, f ≠ "id" ∧ flowDdl "items" f = .null := by decide
  funext f
  unfold registers
  split_ifs with hf
  · obtain ⟨hid, hddl⟩ := h f hf
    simp [seedRow, assign, itemKey, List.lookup_cons, beq_eq_false_iff_ne.mpr hid, hddl]
  · rfl

/-- A write of one register. -/
theorem registers_assign {op : Op} (hf : op.field ∈ itemLwwFields) (row : Row) :
    registers (assign row (itemLww op).effect.writes) =
      Function.update (registers row) op.field (.ofOption op.value) := by
  have h : ∀ f ∈ itemLwwFields, ∀ g ∈ itemLwwFields, g ≠ f ++ "_v" ∧ g ≠ f ++ "_site" := by
    decide
  funext g
  unfold registers
  by_cases hg : g ∈ itemLwwFields
  · obtain ⟨hv, hs⟩ := h op.field hf g hg
    have hlookup : (itemLww op).effect.writes.lookup g =
        if g = op.field then some (.ofOption op.value) else none := by
      change List.lookup g [(op.field, Cell.ofOption op.value), (op.field ++ "_v", .int op.lamport),
        (op.field ++ "_site", .int op.site)] = _
      by_cases hgf : g = op.field
      · simp [hgf]
      · simp [List.lookup_cons, beq_eq_false_iff_ne.mpr hgf, beq_eq_false_iff_ne.mpr hv,
          beq_eq_false_iff_ne.mpr hs, hgf]
    by_cases hgf : g = op.field
    · subst hgf
      simp [hg, assign, hlookup]
    · simp [hg, assign, hlookup, hgf]
  · have hgf : g ≠ op.field := fun h => hg (h ▸ hf)
    simp [hg, hgf]

/-! ## One op on the sheet -/

/-- The write returned and the sheet is as `f` says. -/
structure Wrote (f : Sheet → Sheet) (s s' : Store) : Prop where
  alone : Alone s'
  grows : s.file.log.length ≤ s'.file.log.length
  sheet : s'.file.log.length ≤ shortLog → sheetOf s'.file.views = f (sheetOf s.file.views)

theorem Wrote.refl {s : Store} (hs : Alone s) : Wrote id s s := ⟨hs, le_rfl, fun _ => rfl⟩

theorem Wrote.trans {f g : Sheet → Sheet} {s₁ s₂ s₃ : Store} (h₁ : Wrote f s₁ s₂)
    (h₂ : Wrote g s₂ s₃) : Wrote (fun sh => g (f sh)) s₁ s₃ where
  alone := h₂.alone
  grows := h₁.grows.trans h₂.grows
  sheet hshort := by rw [h₂.sheet hshort, h₁.sheet (h₂.grows.trans hshort)]

/-- Where the write returns on a store alone, the sheet is as `f` says. -/
def Does {α : Type} (m : Write α) (f : Sheet → Sheet) : Prop :=
  ∀ s, Alone s → ∀ a, (m s).1 = some a → Wrote f s (m s).2

namespace Appended

variable {s s' : Store} {op : Op}

theorem grows (h : Appended s s' op) : s.file.log.length ≤ s'.file.log.length := by
  rw [h.log, List.length_append]
  omega

theorem edges_iff (hs : TagInv s) (f t : String) (k : EdgeKind) :
    (sheetOf s.file.views).edges f t k ↔ ∃ tag, edgeSet.Live s.file.log (f, t, k) tag :=
  edge_present_iff hs.ids hs.shows (f, t, k)

/-- An op that is not an edge's leaves the edges. -/
theorem edges_eq (h : Appended s s' op) (hs : Alone s) (hk : op.targetKind ≠ "edge") :
    (sheetOf s'.file.views).edges = (sheetOf s.file.views).edges := by
  have hfold : ∀ opType, foldedAs "edge" opType op = false := by
    intro opType
    rw [Bool.eq_false_iff, ne_eq, foldedAs_iff]
    exact fun h => hk h.2.1
  funext f t k
  refine propext ?_
  rw [edges_iff h.tags, edges_iff hs.toTagInv, h.log]
  refine exists_congr fun tag => ?_
  unfold OrSet.Live
  simp only [List.mem_append, List.mem_singleton, edgeSet]
  constructor
  · rintro ⟨a, ha | rfl, hadd, hid, hrem⟩
    · exact ⟨a, ha, hadd, hid, fun r hr => hrem r (.inl hr)⟩
    · rw [hfold] at hadd
      exact absurd hadd.1 Bool.false_ne_true
  · rintro ⟨a, ha, hadd, hid, hrem⟩
    refine ⟨a, .inl ha, hadd, hid, fun r hr hf => ?_⟩
    rcases hr with hr | rfl
    · exact hrem r hr hf
    · rw [hfold] at hf
      exact absurd hf Bool.false_ne_true

/-- An op that is not an item's leaves the items. -/
theorem items_eq (h : Appended s s' op) (hs : Alone s) (hk : op.targetKind ≠ "item") :
    (sheetOf s'.file.views).items = (sheetOf s.file.views).items := by
  funext id
  change (s'.file.views.get "items" _).map _ = (s.file.views.get "items" _).map _
  rw [h.views hs, foldView_items hk]

/-- **An op on neither leaves the sheet.** -/
theorem wrote_other (h : Appended s s' op) (hs : Alone s) (hi : op.targetKind ≠ "item")
    (he : op.targetKind ≠ "edge") : Wrote id s s' where
  alone := h.alone hs fun hf => absurd (foldedAs_iff.mp hf).2.1 he
  grows := h.grows
  sheet _ := by
    have hitems := h.items_eq hs hi
    have hedges := h.edges_eq hs he
    cases hsh : sheetOf s'.file.views
    cases hsh₀ : sheetOf s.file.views
    rw [hsh, hsh₀] at hitems hedges
    simp_all

/-- **An item's op assigns its register.** -/
theorem wrote_set (h : Appended s s' op) (hs : Alone s) (hk : op.targetKind = "item")
    (hfield : op.field ∈ itemLwwFields) (m : MergeStrategy) (hm : op.opType = m.itemSetOpType) :
    Wrote (fun sh => sh.set op.targetId op.field (.ofOption op.value)) s s' where
  alone := h.alone hs fun hf => by
    have := (foldedAs_iff.mp hf).2.1
    rw [hk] at this
    exact absurd this (by decide)
  grows := h.grows
  sheet hshort := by
    have hfolds : taskReducer.folds op = true := by
      have hfoldable : isFoldable op = true := by
        unfold isFoldable
        rw [if_pos hk, hm, MergeStrategy.fromItemSetOpType_itemSetOpType]
        simpa using hfield
      unfold Reducer.folds
      rw [h.inBound hs hshort, h.domain]
      exact hfoldable
    have hedges := h.edges_eq hs (by rw [hk]; decide)
    have hitems : (sheetOf s'.file.views).items =
        ((sheetOf s.file.views).set op.targetId op.field (.ofOption op.value)).items := by
      funext id
      change (s'.file.views.get "items" (itemKey id)).map registers =
        Function.update (fun id => (s.file.views.get "items" (itemKey id)).map registers)
          op.targetId _ id
      rw [h.views hs, foldView_item hfolds hk]
      by_cases hid : id = op.targetId
      · subst hid
        rw [if_pos rfl, Function.update_self, Option.map_some, Option.some_inj]
        change registers _ = Function.update (((s.file.views.get "items" (itemKey op.targetId)).map
          registers).getD fun _ => .null) op.field _
        cases hrow : s.file.views.get "items" (itemKey op.targetId) with
        | none =>
          rw [rowAfter_none (itemLww_wf hfield), registers_assign hfield]
          change Function.update (registers (seedRow flowDdl "items" (itemKey op.targetId))) _ _ = _
          rw [registers_seedRow]
          rfl
        | some row =>
          -- the op is newer than the register it writes
          have hwrites : Writes row (itemLww op).effect.version .higher := by
            intro stored hstored
            have hfolded := hs.folded
            unfold File.Folded at hfolded
            rw [hfolded] at hrow
            obtain ⟨l, st, hl, hle⟩ := storedVersion_le (hs.clock ▸ Int.natCast_nonneg _)
              (fun o ho => (hs.below o ho).2) hfield hrow
            have he : stored = [l, st] := Option.some.inj (hstored.symm.trans hl)
            have hlamport := h.lamport
            rw [he]
            exact List.Lex.rel (by
              change l < op.lamport
              omega)
          rw [rowAfter_register rfl, if_pos hwrites, registers_assign hfield]
          rfl
      · rw [if_neg fun h' => hid (itemKey_inj.mp h'), Function.update_of_ne hid]
    cases hsh : sheetOf s'.file.views
    rw [hsh] at hitems hedges
    simp only at hitems hedges
    rw [hitems, hedges]
    rfl

/-- A target id that joins an edge's parts parses to them. -/
theorem parseEdge_of_target {f t : String} {k : EdgeKind} (hf : hasChar sep f = false)
    (ht : hasChar sep t = false) (hop : op.targetId = joinChar sep [f, t, k.asStr]) :
    parseEdge op = some (f, t, k.asStr) := by
  have hk : hasChar sep k.asStr = false := by cases k <;> decide
  have hsplit : splitChar sep op.targetId = [f, t, k.asStr] := by
    rw [hop]
    refine splitChar_joinChar (by simp) fun p hp => ?_
    simp only [List.mem_cons, List.not_mem_nil, or_false] at hp
    rcases hp with rfl | rfl | rfl
    · exact hf
    · exact ht
    · exact hk
  simp [parseEdge, hsplit, EdgeKind.parse_asStr]

/-- An edge's op whose target parses is folded. -/
theorem folds_edge (h : Appended s s' op) (hs : Alone s) (hk : op.targetKind = "edge")
    (hop : op.opType = "add" ∨ op.opType = "remove") (hparse : (parseEdge op).isSome = true)
    (hshort : s'.file.log.length ≤ shortLog) : taskReducer.folds op = true := by
  have hfoldable : isFoldable op = true := by
    unfold isFoldable
    rw [hk]
    rcases hop with hop | hop <;> rw [hop] <;> exact hparse
  unfold Reducer.folds
  rw [h.inBound hs hshort, h.domain]
  exact hfoldable

/-- **An edge's add op adds it.** -/
theorem wrote_addEdge (h : Appended s s' op) (hs : Alone s) (hk : op.targetKind = "edge")
    (hop : op.opType = "add") {f t : String} {k : EdgeKind}
    (hparse : parseEdge op = some (f, t, k.asStr)) : Wrote (·.addEdge f t k) s s' where
  alone := h.alone hs fun hf => by
    have := (foldedAs_iff.mp hf).2.2
    rw [hop] at this
    exact absurd this (by decide)
  grows := h.grows
  sheet hshort := by
    have hfolds := h.folds_edge hs hk (.inl hop) (by rw [hparse]; rfl) hshort
    have hitems := h.items_eq hs (by rw [hk]; decide)
    have hnotRemove : foldedAs "edge" "remove" op = false := by
      rw [Bool.eq_false_iff, ne_eq, foldedAs_iff, hop]
      exact fun h => absurd h.2.2 (by decide)
    have hedges : (sheetOf s'.file.views).edges =
        ((sheetOf s.file.views).addEdge f t k).edges := by
      funext f' t' k'
      refine propext ?_
      change _ ↔ (sheetOf s.file.views).edges f' t' k' ∨ _
      rw [edges_iff h.tags, edges_iff hs.toTagInv, h.log]
      unfold OrSet.Live
      simp only [List.mem_append, List.mem_singleton]
      constructor
      · rintro ⟨tag, a, ha | rfl, hadd, hid, hrem⟩
        · exact .inl ⟨tag, a, ha, hadd, hid, fun r hr => hrem r (.inl hr)⟩
        · have heq := hadd.2.symm.trans hparse
          simp only [Option.some.injEq, Prod.mk.injEq] at heq
          exact .inr ⟨heq.1, heq.2.1, EdgeKind.asStr_inj heq.2.2⟩
      · rintro (⟨tag, a, ha, hadd, hid, hrem⟩ | ⟨rfl, rfl, rfl⟩)
        · refine ⟨tag, a, .inl ha, hadd, hid, fun r hr hf => ?_⟩
          rcases hr with hr | rfl
          · exact hrem r hr hf
          · exact absurd (hnotRemove ▸ hf) Bool.false_ne_true
        · -- no remove of the log names the new tag
          refine ⟨op.opId, op, .inr rfl, ⟨foldedAs_iff.mpr ⟨hfolds, hk, hop⟩, hparse⟩, rfl,
            fun r hr hf hmem => ?_⟩
          rcases hr with hr | rfl
          · exact h.fresh (hs.removes r hr hf _ hmem)
          · exact absurd (hnotRemove ▸ hf) Bool.false_ne_true
    cases hsh : sheetOf s'.file.views
    rw [hsh] at hitems hedges
    simp only at hitems hedges
    rw [hitems, hedges]
    rfl

/-- **An edge's remove op that names its live tags removes it.** -/
theorem wrote_removeEdge (h : Appended s s' op) (hs : Alone s) (hk : op.targetKind = "edge")
    (hop : op.opType = "remove") {f t : String} {k : EdgeKind}
    (hparse : parseEdge op = some (f, t, k.asStr))
    (hnamed : ∀ tag, tag ∈ named op ↔ edgeSet.Live s.file.log (f, t, k) tag) :
    Wrote (·.removeEdge f t k) s s' where
  alone := h.alone hs fun _ tag htag => by
    obtain ⟨a, ha, _, rfl, _⟩ := (hnamed tag).mp htag
    exact List.mem_map_of_mem ha
  grows := h.grows
  sheet hshort := by
    have hfolds := h.folds_edge hs hk (.inr hop) (by rw [hparse]; rfl) hshort
    have hitems := h.items_eq hs (by rw [hk]; decide)
    have hremove : foldedAs "edge" "remove" op = true := foldedAs_iff.mpr ⟨hfolds, hk, hop⟩
    have hnotAdd : foldedAs "edge" "add" op = false := by
      rw [Bool.eq_false_iff, ne_eq, foldedAs_iff, hop]
      exact fun h => absurd h.2.2 (by decide)
    have hedges : (sheetOf s'.file.views).edges =
        ((sheetOf s.file.views).removeEdge f t k).edges := by
      funext f' t' k'
      refine propext ?_
      change _ ↔ (sheetOf s.file.views).edges f' t' k' ∧ _
      rw [edges_iff h.tags, edges_iff hs.toTagInv, h.log]
      constructor
      · rintro ⟨tag, a, ha, hadd, hid, hrem⟩
        rcases List.mem_append.mp ha with ha | ha
        swap
        · rw [List.mem_singleton.mp ha] at hadd
          exact absurd (hnotAdd ▸ hadd.1) Bool.false_ne_true
        have hlive : edgeSet.Live s.file.log (f', t', k') tag :=
          ⟨a, ha, hadd, hid, fun r hr => hrem r (List.mem_append_left _ hr)⟩
        refine ⟨⟨tag, hlive⟩, ?_⟩
        rintro ⟨rfl, rfl, rfl⟩
        exact hrem op (by simp) hremove ((hnamed tag).mpr hlive)
      · rintro ⟨⟨tag, a, ha, hadd, hid, hrem⟩, hne⟩
        refine ⟨tag, a, List.mem_append_left _ ha, hadd, hid, fun r hr hf hmem => ?_⟩
        rcases List.mem_append.mp hr with hr | hr
        · exact hrem r hr hf hmem
        · -- the op names adds of another edge
          rw [List.mem_singleton.mp hr] at hmem
          obtain ⟨b, hb, hbadd, hbid, _⟩ := (hnamed tag).mp hmem
          have hab : b = a := hs.ids b hb a ha (foldedAs_iff.mp hbadd.1).1
            (foldedAs_iff.mp hadd.1).1 (hbid.trans hid.symm)
          rw [hab] at hbadd
          have heq := hadd.2.symm.trans hbadd.2
          simp only [Option.some.injEq, Prod.mk.injEq] at heq
          exact hne ⟨heq.1, heq.2.1, EdgeKind.asStr_inj heq.2.2⟩
    cases hsh : sheetOf s'.file.views
    rw [hsh] at hitems hedges
    simp only at hitems hedges
    rw [hitems, hedges]
    rfl

end Appended

/-! ## The store writes on the sheet -/

namespace Does

variable {α β : Type} {f g : Sheet → Sheet}

theorem pure (a : α) : Does (Pure.pure a : Write α) id := fun _ hs _ _ => .refl hs

/-- **Sequencing.** -/
theorem bind {m : Write α} {k : α → Write β} (hm : Does m f) (hk : ∀ a, Does (k a) g) :
    Does (m >>= k) fun sh => g (f sh) := by
  intro s hs b hb
  cases ha : (m s).1 with
  | none =>
    rw [bind_of_none (Prod.ext ha rfl)] at hb
    cases hb
  | some a =>
    rw [bind_of_some (Prod.ext ha rfl)] at hb ⊢
    have h₁ := hm s hs a ha
    exact h₁.trans (hk a _ h₁.alone b hb)

/-- Behind a check that may panic, the check holds. -/
theorem assert_bind {b : Bool} {k : Unit → Write β} (hk : b = true → Does (k ()) f) :
    Does (assert b >>= k) f := by
  cases b with
  | true => exact hk rfl
  | false =>
    intro s _ a ha
    cases ha

/-- Dropping the result. -/
theorem drop {m : Write α} (hm : Does m f) :
    Does (m >>= fun _ => (Pure.pure () : Write Unit)) f :=
  bind (g := id) hm fun _ => pure ()

/-- A loop that leaves the sheet. -/
theorem forM {γ : Type} {l : List γ} {k : γ → Write PUnit} (hk : ∀ b, Does (k b) id) :
    Does (l.forM k) id := by
  induction l with
  | nil => exact pure PUnit.unit
  | cons b l ih => exact bind (f := id) (g := id) (hk b) fun _ => ih

end Does

/-- A loop, each turn with its own effect. -/
theorem Does.forM_foldl {γ : Type} {l : List γ} {k : γ → Write PUnit} {eff : Sheet → γ → Sheet}
    (hk : ∀ b, Does (k b) (eff · b)) : Does (l.forM k) fun sh => l.foldl eff sh := by
  induction l with
  | nil => exact .pure PUnit.unit
  | cons b l ih => exact .bind (g := fun sh => l.foldl eff sh) (hk b) fun _ => ih

/-- A read. -/
theorem does_read {α : Type} (query : Db → α) : Does (read query) id := fun _ hs _ _ => .refl hs

/-- An op on neither an item nor an edge. -/
theorem does_emit_other {kind target field opType : String} {value : Option String}
    {author : String} (hi : kind ≠ "item") (he : kind ≠ "edge") :
    Does (emitTask kind target field opType value author) id := by
  intro s hs a ha
  rcases hs.emitTask kind target field opType value author with h | ⟨op, s', h, happ, hk, _⟩
  · rw [h] at ha
    cases ha
  · rw [h]
    exact happ.wrote_other hs (hk ▸ hi) (hk ▸ he)

/-- An op that sets a register. -/
theorem does_emit_item {id field opType : String} {value : Option String} {author : String}
    (hf : field ∈ itemLwwFields) {m : MergeStrategy} (hm : opType = m.itemSetOpType) :
    Does (emitTask "item" id field opType value author) (·.set id field (.ofOption value)) := by
  intro s hs a ha
  rcases hs.emitTask "item" id field opType value author with
    h | ⟨op, s', h, happ, hk, hid, hfield, hop, hvalue⟩
  · rw [h] at ha
    cases ha
  · rw [h]
    have := happ.wrote_set hs hk (hfield ▸ hf) m (hop.trans hm)
    rwa [hid, hfield, hvalue] at this

/-- **`set_field_merge` sets one register.** -/
theorem does_setFieldMerge (id field : String) (value : Option String) (author : String)
    (m : MergeStrategy) :
    Does (setFieldMerge id field value author m) (·.set id field (.ofOption value)) :=
  .assert_bind fun hf => .drop (does_emit_item (by simpa using hf) rfl)

/-- **`create_item` sets three.** -/
theorem does_createItem (id ty title author : String) :
    Does (createItem id ty title author) fun sh =>
      ((sh.set id "type" (.text ty)).set id "title" (.text title)).set id "status" (.text "open") :=
  .assert_bind fun _ =>
    .bind (does_emit_item (m := .lww) (by decide) rfl) fun _ =>
      .bind (does_emit_item (m := .lww) (by decide) rfl) fun _ =>
        .drop (does_emit_item (m := .lww) (by decide) rfl)

theorem edgeTarget_eq {fromId toId : String} {kind : EdgeKind} {s : Store} {target : String}
    (h : (edgeTarget fromId toId kind s).1 = some target) :
    hasChar sep fromId = false ∧ hasChar sep toId = false ∧
      target = joinChar sep [fromId, toId, kind.asStr] := by
  unfold edgeTarget at h
  cases hb : (!hasChar sep fromId && !hasChar sep toId) with
  | false =>
    rw [hb] at h
    cases h
  | true =>
    rw [hb] at h
    have htarget : joinChar sep [fromId, toId, kind.asStr] = target := Option.some.inj h
    simp only [Bool.and_eq_true, Bool.not_eq_true'] at hb
    exact ⟨hb.1, hb.2, htarget.symm⟩

/-- **`add_edge` adds one edge.** -/
theorem does_addEdge (fromId toId : String) (kind : EdgeKind) (author : String) :
    Does (addEdge fromId toId kind author) (·.addEdge fromId toId kind) := by
  intro s hs a ha
  unfold addEdge at ha ⊢
  have hsame : (edgeTarget fromId toId kind s).2 = s := assert_then_pure _ _ s
  cases htarget : (edgeTarget fromId toId kind s).1 with
  | none =>
    rw [bind_of_none (Prod.ext htarget hsame)] at ha
    cases ha
  | some target =>
    obtain ⟨hf, ht, rfl⟩ := edgeTarget_eq htarget
    rw [bind_of_some (Prod.ext htarget hsame)] at ha ⊢
    rcases hs.emitTask "edge" (joinChar sep [fromId, toId, kind.asStr]) "present" "add" none
      author with h | ⟨op, s', h, happ, hk, hid, _, hop, _⟩
    · rw [bind_of_none h] at ha
      cases ha
    · rw [bind_of_some h]
      exact happ.wrote_addEdge hs hk hop (Appended.parseEdge_of_target hf ht hid)

/-- Removing an edge that is not there. -/
theorem removeEdge_of_absent {sh : Sheet} {f t : String} {k : EdgeKind} (h : ¬ sh.edges f t k) :
    sh.removeEdge f t k = sh := by
  have hedges : (sh.removeEdge f t k).edges = sh.edges := by
    funext f' t' k'
    refine propext ⟨fun h' => h'.1, fun h' => ⟨h', ?_⟩⟩
    rintro ⟨rfl, rfl, rfl⟩
    exact h h'
  cases sh
  exact congrArg (Sheet.mk _) hedges

/-- **`remove_edge` removes one edge.** -/
theorem does_removeEdge (fromId toId : String) (kind : EdgeKind) (author : String) :
    Does (removeEdge fromId toId kind author) (·.removeEdge fromId toId kind) := by
  intro s hs a ha
  have htags : ∀ tag, tag ∈ liveTags "edge_adds" "edge_removes" (isEdgeRow (fromId, toId, kind))
      s.file.views ↔ edgeSet.Live s.file.log (fromId, toId, kind) tag := by
    intro tag
    rw [live_iff (S := edgeTags) edgeSet_adds fun _ _ => Iff.rfl]
    exact TagSet.mem_liveTags (S := edgeTags) (by simp [tagSets]) hs.ids hs.shows
  have husable := hs.usable_liveTags (S := edgeTags) (by simp [tagSets])
    (p := isEdgeRow (fromId, toId, kind))
  change ∀ t ∈ liveTags "edge_adds" "edge_removes" _ _, _ at husable
  obtain ⟨tags, htags'⟩ : ∃ tags, liveTags "edge_adds" "edge_removes"
    (isEdgeRow (fromId, toId, kind)) s.file.views = tags := ⟨_, rfl⟩
  have hread : removeEdge fromId toId kind author s = (if tags.isEmpty then Pure.pure () else do
      let target ← edgeTarget fromId toId kind
      let _ ← emitTask "edge" target "present" "remove" (some (joinChar sep tags)) author) s := by
    rw [← htags']
    rfl
  rw [hread] at ha ⊢
  rw [htags'] at htags husable
  cases tags with
  | nil =>
    -- no live tag: the edge is not present, and nothing is logged
    have habsent : ¬ (sheetOf s.file.views).edges fromId toId kind := by
      rw [Appended.edges_iff hs.toTagInv]
      rintro ⟨tag, hlive⟩
      exact absurd ((htags tag).mpr hlive) (by simp)
    exact ⟨hs, le_rfl, fun _ => (removeEdge_of_absent habsent).symm⟩
  | cons tag tags =>
    rw [if_neg (by simp)] at ha ⊢
    have hsame : (edgeTarget fromId toId kind s).2 = s := assert_then_pure _ _ s
    cases htarget : (edgeTarget fromId toId kind s).1 with
    | none =>
      rw [bind_of_none (Prod.ext htarget hsame)] at ha
      cases ha
    | some target =>
      obtain ⟨hf, ht, rfl⟩ := edgeTarget_eq htarget
      rw [bind_of_some (Prod.ext htarget hsame)] at ha ⊢
      rcases hs.emitTask "edge" (joinChar sep [fromId, toId, kind.asStr]) "present" "remove"
        (some (joinChar sep (tag :: tags))) author with h | ⟨op, s', h, happ, hk, hid, _, hop, hv⟩
      · rw [bind_of_none h] at ha
        cases ha
      · rw [bind_of_some h]
        refine happ.wrote_removeEdge hs hk hop (Appended.parseEdge_of_target hf ht hid) fun x => ?_
        rw [named_joinChar hv (by simp) husable, htags]

/-- The present endpoints, read off the sheet. -/
theorem mem_targetsOf {db : Db} {f t : String} {k : EdgeKind} :
    t ∈ targetsOf f k db ↔ (sheetOf db).edges f t k := by
  change _ ↔ edgeSet.present db (f, t, k)
  rw [edgeSet_present]
  unfold targetsOf presentRows
  simp only [List.mem_insertionSort, List.mem_dedup, List.mem_filterMap, List.mem_filter,
    isEdgeRow, Bool.and_eq_true, beq_iff_eq, cellText_iff]
  constructor
  · rintro ⟨row, ⟨hrow, ⟨hf, hk⟩, hlive⟩, ht⟩
    exact ⟨row, ⟨hrow, hlive⟩, ⟨hf, ht⟩, hk⟩
  · rintro ⟨row, ⟨hrow, hlive⟩, ⟨hf, ht⟩, hk⟩
    exact ⟨row, ⟨hrow, ⟨hf, hk⟩, hlive⟩, ht⟩

/-- Removing every parent edge in turn clears the parents. -/
theorem foldl_removeEdge {child : String} (parents : List String) (sh : Sheet) :
    parents.foldl (fun sh p => sh.removeEdge child p .parent) sh =
      { sh with edges := fun f t k =>
          sh.edges f t k ∧ ¬ (f = child ∧ k = .parent ∧ t ∈ parents) } := by
  induction parents generalizing sh with
  | nil => simp
  | cons p parents ih =>
    rw [List.foldl_cons, ih]
    cases sh
    refine congrArg (Sheet.mk _) ?_
    funext f t k
    simp only [Sheet.removeEdge, List.mem_cons, eq_iff_iff]
    tauto

/-- **`clear_parent` removes every parent edge of the child.** -/
theorem does_clearParent (child author : String) :
    Does (clearParent child author) (·.clearParents child) := by
  intro s hs a ha
  have h := Does.forM_foldl (l := targetsOf child .parent s.file.views)
    (fun parent => does_removeEdge child parent .parent author) s hs a ha
  refine ⟨h.alone, h.grows, fun hshort => (h.sheet hshort).trans ?_⟩
  rw [foldl_removeEdge]
  unfold Sheet.clearParents
  refine congrArg (Sheet.mk _) ?_
  funext f t k
  rw [eq_iff_iff, and_congr_right_iff, not_iff_not]
  intro hedge
  constructor
  · rintro ⟨rfl, rfl, _⟩
    exact ⟨rfl, rfl⟩
  · rintro ⟨rfl, rfl⟩
    exact ⟨rfl, rfl, mem_targetsOf.mpr hedge⟩

/-- **`set_parent` leaves one parent.** -/
theorem does_setParent (child parent author : String) :
    Does (setParent child parent author) fun sh =>
      (sh.clearParents child).addEdge child parent .parent :=
  .bind (does_clearParent child author) fun _ => does_addEdge child parent .parent author

/-! ## The writes on neither -/

theorem does_setCustomFieldMerge (itemId field : String) (value : Option String) (author : String)
    (m : MergeStrategy) : Does (setCustomFieldMerge itemId field value author m) id :=
  .drop (does_emit_other (by decide) (by decide))

theorem does_emitEntryRemoves (itemId field : String) (tags : List String) (author : String) :
    Does (emitEntryRemoves itemId field tags author) id :=
  .forM fun _ => .drop (does_emit_other (by decide) (by decide))

theorem does_addFieldEntry (itemId field value : String) (label : Option String)
    (author : String) : Does (addFieldEntry itemId field value label author) id :=
  .assert_bind fun _ => does_emit_other (by decide) (by decide)

theorem does_removeFieldEntry (itemId field value author : String) :
    Does (removeFieldEntry itemId field value author) id :=
  .bind (f := id) (g := id) (does_read _) fun _ => does_emitEntryRemoves itemId field _ author

theorem does_clearFieldEntries (itemId field author : String) :
    Does (clearFieldEntries itemId field author) id :=
  .bind (f := id) (g := id) (does_read _) fun _ => does_emitEntryRemoves itemId field _ author

theorem does_addThreadLink (threadId itemId : String) (relation : LinkRelation)
    (weight : LinkWeight) (author : String) :
    Does (addThreadLink threadId itemId relation weight author) id :=
  .bind (f := id) (g := id) (.assert_bind fun _ => .pure _) fun _ =>
    .drop (does_emit_other (by decide) (by decide))

theorem does_addLabel (itemId label author : String) : Does (addLabel itemId label author) id :=
  .bind (f := id) (g := id) (.assert_bind fun _ => .pure _) fun _ =>
    .drop (does_emit_other (by decide) (by decide))

theorem does_ite {α : Type} {c : Prop} [Decidable c] {m n : Write α} {f : Sheet → Sheet}
    (hm : Does m f) (hn : Does n f) : Does (if c then m else n) f := by
  split_ifs
  · exact hm
  · exact hn

theorem does_removeThreadLink (threadId itemId author : String) :
    Does (removeThreadLink threadId itemId author) id :=
  .bind (f := id) (g := id) (does_read _) fun _ => does_ite (.pure _) <|
    .bind (f := id) (g := id) (.assert_bind fun _ => .pure _) fun _ =>
      .drop (does_emit_other (by decide) (by decide))

theorem does_removeLabel (itemId label author : String) :
    Does (removeLabel itemId label author) id :=
  .bind (f := id) (g := id) (does_read _) fun _ => does_ite (.pure _) <|
    .bind (f := id) (g := id) (.assert_bind fun _ => .pure _) fun _ =>
      .drop (does_emit_other (by decide) (by decide))

theorem does_addNote (itemId body author : String) : Does (addNote itemId body author) id :=
  does_emit_other (by decide) (by decide)

theorem does_appendChunk (itemId field payload author : String) :
    Does (appendChunk itemId field payload author) id :=
  does_emit_other (by decide) (by decide)

theorem does_supersedeChunks (itemId field : String) (replaced : List String)
    (payload author : String) : Does (supersedeChunks itemId field replaced payload author) id :=
  .assert_bind fun _ => does_emit_other (by decide) (by decide)

/-- The wall clock is no part of the views. -/
theorem does_setWallClock (now : String) : Does (setWallClock now) id := by
  intro s hs a _
  have htags := hs.toTagInv.localStep (.wallClock now)
  exact ⟨⟨htags, hs.clock, hs.below, hs.removes⟩, le_rfl, fun _ => rfl⟩

end NexusFlow.Core
