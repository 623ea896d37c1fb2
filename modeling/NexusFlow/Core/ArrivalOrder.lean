import NexusFlow.Core.Store

/-!
# When arrival order decides the board

`items` rows hold fourteen registers whose versions start at `DEFAULT 0` as soon as one of them
creates the row, while the op that creates the row writes its own register whatever its version
(`change.rs:246-272`, `schema.rs:68-79`). An op at or below `(0, 0)` therefore shows or not depending
on whether it came first.

`arrival_order_iff` says exactly when the order does not matter to `items`, `custom_fields` and
`item_timestamps`: every field of an item on which two fields are written has an op that settles it
(`Settles`), above `(0, 0)` or equal to the default. `custom_fields` has one register a row and
`item_timestamps` starts at `NULL`, so the condition is about `items` alone.

The proof follows one register (`reg`) through the fold of an item's ops: it shows the highest op
folded so far (`Shown`), or still the default (`Bare`).
-/

namespace NexusFlow.Core

open NexusFlow.Lib NexusFlow.Foundation TaskReducer

/-! ## The condition -/

/-- The op writes a register of its item's `items` row. -/
def writesItem (op : Op) : Bool := taskReducer.folds op && op.targetKind == "item"

/-- The op's version, as registers compare it. -/
def ver (op : Op) : List Int := [op.lamport, op.site]

/-- The op is above the version a register of `items` starts at, or says what it starts as. -/
def Settles (op : Op) : Prop :=
  [0, 0] < ver op ∨ (op.lamport = 0 ∧ op.site = 0 ∧ op.value = none)

/-- Where two fields of an item are written, each of them has an op that settles it. -/
def Settled (ops : List Op) : Prop :=
  ∀ a ∈ ops, ∀ b ∈ ops, writesItem a = true → writesItem b = true → a.targetId = b.targetId →
    a.field ≠ b.field →
    ∃ c ∈ ops, writesItem c = true ∧ c.targetId = a.targetId ∧ c.field = a.field ∧ Settles c

theorem writesItem_field {op : Op} (h : writesItem op = true) : op.field ∈ itemLwwFields := by
  unfold writesItem Reducer.folds at h
  simp only [Bool.and_eq_true, beq_iff_eq] at h
  have hf : isFoldable op = true := h.1.2
  unfold isFoldable at hf
  rw [if_pos h.2, Bool.and_eq_true] at hf
  exact List.contains_iff_mem.mp hf.2

/-! ## One register of an `items` row -/

/-- The three cells of the register `f`. -/
def reg (f : String) (row : Row) : Cell × Cell × Cell :=
  (row f, row (f ++ "_v"), row (f ++ "_site"))

/-- The cells an op writes into its register. -/
def opCells (op : Op) : Cell × Cell × Cell :=
  (.ofOption op.value, .int op.lamport, .int op.site)

/-- The cells of a register nobody wrote. -/
def bareCells : Cell × Cell × Cell := (.null, .int 0, .int 0)

/-- The columns of the register `f`. -/
def regColumns (f : String) : List String := [f, f ++ "_v", f ++ "_site"]

theorem itemLww_writes (op : Op) :
    (itemLww op).effect.writes = [(op.field, .ofOption op.value),
      (op.field ++ "_v", .int op.lamport), (op.field ++ "_site", .int op.site)] := rfl

theorem regColumns_nodup {f : String} (hf : f ∈ itemLwwFields) : (regColumns f).Nodup := by
  have h : ∀ f ∈ itemLwwFields, (regColumns f).Nodup := by decide
  exact h f hf

theorem reg_assign_self {op : Op} (hf : op.field ∈ itemLwwFields) (row : Row) :
    reg op.field (assign row (itemLww op).effect.writes) = opCells op := by
  have hnd := regColumns_nodup hf
  simp only [regColumns, List.nodup_cons, List.mem_cons, List.not_mem_nil, or_false, not_or,
    not_false_eq_true, List.nodup_nil, and_true] at hnd
  obtain ⟨⟨h1, h2⟩, h3⟩ := hnd
  simp [reg, opCells, itemLww_writes, assign, List.lookup_cons, beq_eq_false_iff_ne.mpr (Ne.symm h1),
    beq_eq_false_iff_ne.mpr (Ne.symm h2), beq_eq_false_iff_ne.mpr (Ne.symm h3)]

theorem reg_assign_other {op : Op} {f : String} (hop : op.field ∈ itemLwwFields)
    (hf : f ∈ itemLwwFields) (hne : op.field ≠ f) (row : Row) :
    reg f (assign row (itemLww op).effect.writes) = reg f row := by
  have hdisj := itemLww_disjoint (a := { op with field := f }) (b := op) hf hop (Ne.symm hne)
  have hcol : ∀ c ∈ regColumns f, assign row (itemLww op).effect.writes c = row c :=
    fun c hc => assign_of_notMem (hdisj c hc)
  unfold reg
  rw [hcol f (by simp [regColumns]), hcol (f ++ "_v") (by simp [regColumns]),
    hcol (f ++ "_site") (by simp [regColumns])]

theorem reg_seedRow {f : String} (hf : f ∈ itemLwwFields) (id : Cell) :
    reg f (seedRow flowDdl "items" [("id", id)]) = bareCells := by
  have h : ∀ f ∈ itemLwwFields, "id" ∉ regColumns f ∧ flowDdl "items" f = .null ∧
      flowDdl "items" (f ++ "_v") = .int 0 ∧ flowDdl "items" (f ++ "_site") = .int 0 := by
    decide
  obtain ⟨hid, h1, h2, h3⟩ := h f hf
  have hcol : ∀ c ∈ regColumns f, seedRow flowDdl "items" [("id", id)] c = flowDdl "items" c := by
    intro c hc
    refine assign_of_notMem ?_
    rw [List.map_singleton, List.mem_singleton]
    rintro rfl
    exact hid hc
  unfold reg bareCells
  rw [hcol f (by simp [regColumns]), hcol (f ++ "_v") (by simp [regColumns]),
    hcol (f ++ "_site") (by simp [regColumns]), h1, h2, h3]

theorem storedVersion_reg {f : String} {row : Row} {x : Cell} {l s : Int}
    (h : reg f row = (x, .int l, .int s)) :
    storedVersion row [f ++ "_v", f ++ "_site"] = some [l, s] := by
  obtain ⟨_, hv, hs⟩ := by simpa [reg] using h
  simp [storedVersion, hv, hs, Cell.int?]

/-- The fold of one item's ops into its row. -/
def itemStep (o : Option Row) (op : Op) : Option Row := some (rowAfter flowDdl (itemLww op) o)

/-- An op of another field leaves the register as it is. -/
theorem reg_step_other {op : Op} {f : String} (hop : op.field ∈ itemLwwFields)
    (hf : f ∈ itemLwwFields) (hne : op.field ≠ f) (row : Row) :
    reg f (rowAfter flowDdl (itemLww op) (some row)) = reg f row := by
  rw [rowAfter_register (c := itemLww op) rfl]
  split_ifs
  · exact reg_assign_other hop hf hne row
  · rfl

/-- An op of the field writes it when it beats the stored version. -/
theorem reg_step_self {op : Op} (hop : op.field ∈ itemLwwFields) {row : Row} {x : Cell} {l s : Int}
    (h : reg op.field row = (x, .int l, .int s)) :
    reg op.field (rowAfter flowDdl (itemLww op) (some row)) =
      if [l, s] < ver op then opCells op else reg op.field row := by
  have hw : Writes row (itemLww op).effect.version .higher ↔ [l, s] < ver op := by
    unfold Writes
    constructor
    · intro hw
      exact hw [l, s] (storedVersion_reg h)
    · intro hlt stored hs
      rw [show stored = [l, s] from Option.some.inj (hs.symm.trans (storedVersion_reg h))]
      exact hlt
  rw [rowAfter_register (c := itemLww op) rfl]
  by_cases hlt : [l, s] < ver op
  · rw [if_pos (hw.mpr hlt), if_pos hlt, reg_assign_self hop]
  · rw [if_neg (mt hw.mp hlt), if_neg hlt]

/-- The op that creates the row writes its own register, and no other. -/
theorem reg_first {op : Op} {f : String} (hop : op.field ∈ itemLwwFields) (hf : f ∈ itemLwwFields) :
    reg f (rowAfter flowDdl (itemLww op) none) =
      if op.field = f then opCells op else bareCells := by
  rw [rowAfter_none (itemLww_wf hop)]
  split_ifs with h
  · subst h
    exact reg_assign_self hop _
  · rw [reg_assign_other hop hf h]
    exact reg_seedRow hf _

/-! ## A register through the fold -/

/-- The register shows the highest of the ops `P` that write it. -/
def Shown (P : List Op) (f : String) (row : Row) : Prop :=
  ∃ o ∈ P, o.field = f ∧ reg f row = opCells o ∧ ∀ p ∈ P, p.field = f → ver p ≤ ver o

/-- The register shows nothing: an op of another field created the row, and none of its own is above
`(0, 0)`. -/
def Bare (P : List Op) (f : String) (row : Row) : Prop :=
  reg f row = bareCells ∧ (∀ p ∈ P, p.field = f → ver p ≤ [0, 0]) ∧ ∃ p ∈ P, p.field ≠ f

theorem shown_or_bare_first {op : Op} {f : String} (hop : op.field ∈ itemLwwFields)
    (hf : f ∈ itemLwwFields) :
    (op.field = f ∧ Shown [op] f (rowAfter flowDdl (itemLww op) none)) ∨
      (op.field ≠ f ∧ Bare [op] f (rowAfter flowDdl (itemLww op) none)) := by
  have hreg := reg_first hop hf
  by_cases h : op.field = f
  · rw [if_pos h] at hreg
    refine .inl ⟨h, op, List.mem_singleton.mpr rfl, h, hreg, fun p hp _ => ?_⟩
    rw [List.mem_singleton.mp hp]
  · rw [if_neg h] at hreg
    refine .inr ⟨h, hreg, fun p hp hpf => ?_, op, List.mem_singleton.mpr rfl, h⟩
    rw [List.mem_singleton.mp hp] at hpf
    exact absurd hpf h

theorem Shown.step {P : List Op} {f : String} {row : Row} {q : Op} (h : Shown P f row)
    (hf : f ∈ itemLwwFields) (hq : q.field ∈ itemLwwFields) :
    Shown (P ++ [q]) f (rowAfter flowDdl (itemLww q) (some row)) := by
  obtain ⟨o, ho, hof, hreg, hmax⟩ := h
  by_cases hqf : q.field = f
  · subst hqf
    have hstep := reg_step_self hq
      (show reg q.field row = (.ofOption o.value, .int o.lamport, .int o.site) from hreg)
    split_ifs at hstep with hlt
    · -- `q` beats the op shown, so every op before it
      refine ⟨q, by simp, rfl, hstep, fun p hp hpf => ?_⟩
      rcases List.mem_append.mp hp with hp | hp
      · exact (hmax p hp hpf).trans (le_of_lt hlt)
      · rw [List.mem_singleton.mp hp]
    · refine ⟨o, List.mem_append_left _ ho, hof, hstep.trans hreg, fun p hp hpf => ?_⟩
      rcases List.mem_append.mp hp with hp | hp
      · exact hmax p hp hpf
      · rw [List.mem_singleton.mp hp]
        exact not_lt.mp hlt
  · refine ⟨o, List.mem_append_left _ ho, hof, (reg_step_other hq hf hqf row).trans hreg,
      fun p hp hpf => ?_⟩
    rcases List.mem_append.mp hp with hp | hp
    · exact hmax p hp hpf
    · rw [List.mem_singleton.mp hp] at hpf
      exact absurd hpf hqf

theorem Bare.step {P : List Op} {f : String} {row : Row} {q : Op} (h : Bare P f row)
    (hf : f ∈ itemLwwFields) (hq : q.field ∈ itemLwwFields) :
    (q.field = f ∧ [0, 0] < ver q ∧
      Shown (P ++ [q]) f (rowAfter flowDdl (itemLww q) (some row))) ∨
    Bare (P ++ [q]) f (rowAfter flowDdl (itemLww q) (some row)) := by
  obtain ⟨hreg, hle, p, hp, hpf⟩ := h
  have hbare (hreg' : reg f (rowAfter flowDdl (itemLww q) (some row)) = bareCells)
      (hqle : q.field = f → ver q ≤ [0, 0]) :
      Bare (P ++ [q]) f (rowAfter flowDdl (itemLww q) (some row)) := by
    refine ⟨hreg', fun o ho hof => ?_, p, List.mem_append_left _ hp, hpf⟩
    rcases List.mem_append.mp ho with ho | ho
    · exact hle o ho hof
    · rw [List.mem_singleton.mp ho] at hof ⊢
      exact hqle hof
  by_cases hqf : q.field = f
  · subst hqf
    have hstep := reg_step_self hq (show reg q.field row = (.null, .int 0, .int 0) from hreg)
    split_ifs at hstep with hlt
    · refine .inl ⟨rfl, hlt, q, by simp, rfl, hstep, fun o ho hof => ?_⟩
      rcases List.mem_append.mp ho with ho | ho
      · exact (hle o ho hof).trans (le_of_lt hlt)
      · rw [List.mem_singleton.mp ho]
    · exact .inr (hbare (hstep.trans hreg) fun _ => not_lt.mp hlt)
  · exact .inr (hbare ((reg_step_other hq hf hqf row).trans hreg) fun h => absurd h hqf)

theorem Shown.fold {P Q : List Op} {f : String} {row : Row} (h : Shown P f row)
    (hf : f ∈ itemLwwFields) (hQ : ∀ q ∈ Q, q.field ∈ itemLwwFields) :
    ∃ row', Q.foldl itemStep (some row) = some row' ∧ Shown (P ++ Q) f row' := by
  induction Q generalizing P row with
  | nil => exact ⟨row, rfl, by rwa [List.append_nil]⟩
  | cons q Q ih =>
    obtain ⟨row', hrow, hs⟩ := ih (h.step hf (hQ q List.mem_cons_self))
      fun p hp => hQ p (List.mem_cons_of_mem q hp)
    exact ⟨row', hrow, by rwa [List.append_assoc] at hs⟩

theorem Bare.fold {P Q : List Op} {f : String} {row : Row} (h : Bare P f row)
    (hf : f ∈ itemLwwFields) (hQ : ∀ q ∈ Q, q.field ∈ itemLwwFields) :
    ∃ row', Q.foldl itemStep (some row) = some row' ∧
      (((∃ q ∈ Q, q.field = f ∧ [0, 0] < ver q) ∧ Shown (P ++ Q) f row') ∨
        Bare (P ++ Q) f row') := by
  induction Q generalizing P row with
  | nil => exact ⟨row, rfl, .inr (by rwa [List.append_nil])⟩
  | cons q Q ih =>
    have hQ' : ∀ p ∈ Q, p.field ∈ itemLwwFields := fun p hp => hQ p (List.mem_cons_of_mem q hp)
    rcases h.step hf (hQ q List.mem_cons_self) with ⟨hqf, hlt, hs⟩ | hb
    · obtain ⟨row', hrow, hs⟩ := hs.fold hf hQ'
      exact ⟨row', hrow, .inl ⟨⟨q, List.mem_cons_self, hqf, hlt⟩, by
        rwa [List.append_assoc] at hs⟩⟩
    · obtain ⟨row', hrow, hs⟩ := ih hb hQ'
      rw [List.append_assoc] at hs
      refine ⟨row', hrow, hs.imp ?_ id⟩
      rintro ⟨⟨p, hp, hpf⟩, hs⟩
      exact ⟨⟨p, List.mem_cons_of_mem q hp, hpf⟩, hs⟩

/-- **Every register of a folded row is shown or bare.** -/
theorem shown_or_bare {L : List Op} (hne : L ≠ []) (hL : ∀ op ∈ L, op.field ∈ itemLwwFields)
    {f : String} (hf : f ∈ itemLwwFields) :
    ∃ row, L.foldl itemStep none = some row ∧ (Shown L f row ∨ Bare L f row) := by
  obtain ⟨q, Q, rfl⟩ := List.exists_cons_of_ne_nil hne
  have hQ : ∀ p ∈ Q, p.field ∈ itemLwwFields := fun p hp => hL p (List.mem_cons_of_mem q hp)
  rw [List.foldl_cons]
  rcases shown_or_bare_first (hL q List.mem_cons_self) hf with ⟨_, h⟩ | ⟨_, h⟩
  · obtain ⟨row, hrow, hs⟩ := h.fold hf hQ
    exact ⟨row, hrow, .inl hs⟩
  · obtain ⟨row, hrow, hs⟩ := h.fold hf hQ
    exact ⟨row, hrow, hs.imp And.right id⟩

/-- A column outside every register keeps what the row was created with. -/
theorem itemStep_frame {L : List Op} {id : String} (hL : ∀ op ∈ L, op.field ∈ itemLwwFields)
    (hid : ∀ op ∈ L, op.targetId = id) {c : String} (hc : ∀ f ∈ itemLwwFields, c ∉ regColumns f)
    {row : Row} (h : L.foldl itemStep none = some row) :
    row c = seedRow flowDdl "items" [("id", .text id)] c := by
  have key : ∀ (L : List Op) (o : Option Row), (∀ op ∈ L, op.field ∈ itemLwwFields) →
      (∀ op ∈ L, op.targetId = id) →
      (∀ r, o = some r → r c = seedRow flowDdl "items" [("id", .text id)] c) →
      ∀ r, L.foldl itemStep o = some r → r c = seedRow flowDdl "items" [("id", .text id)] c := by
    intro L
    induction L with
    | nil => intro o _ _ ho r hr; exact ho r hr
    | cons op L ih =>
      intro o hL hid ho
      have hcol : c ∉ (itemLww op).effect.writes.map Prod.fst :=
        hc op.field (hL op List.mem_cons_self)
      refine ih (itemStep o op) (fun p hp => hL p (List.mem_cons_of_mem op hp))
        (fun p hp => hid p (List.mem_cons_of_mem op hp)) fun r hr => ?_
      rw [← Option.some.inj hr]
      cases o with
      | none =>
        rw [rowAfter_none (itemLww_wf (hL op List.mem_cons_self)), assign_of_notMem hcol]
        change seedRow flowDdl "items" [("id", .text op.targetId)] c = _
        rw [hid op List.mem_cons_self]
      | some r =>
        rw [rowAfter_register (c := itemLww op) rfl]
        split_ifs
        · rw [assign_of_notMem hcol]
          exact ho r rfl
        · exact ho r rfl
  exact key L none hL hid (fun r hr => by cases hr) row h

/-! ## The `items` rows of a fold -/

/-- The ops that write the row of the item `id`. -/
def itemOps (ops : List Op) (id : String) : List Op :=
  ops.filter fun op => writesItem op && op.targetId == id

theorem mem_itemOps {ops : List Op} {id : String} {op : Op} :
    op ∈ itemOps ops id ↔ op ∈ ops ∧ writesItem op = true ∧ op.targetId = id := by
  simp [itemOps, List.mem_filter]

theorem itemOps_cons (op : Op) (ops : List Op) (id : String) :
    itemOps (op :: ops) id =
      if writesItem op = true ∧ op.targetId = id then op :: itemOps ops id else itemOps ops id := by
  simp [itemOps, List.filter_cons]

theorem itemOps_field {ops : List Op} {id : String} :
    ∀ op ∈ itemOps ops id, op.field ∈ itemLwwFields :=
  fun _ hop => writesItem_field (mem_itemOps.mp hop).2.1

/-- A folded op on an item sets one register of it, and dates it. -/
theorem changesOf_of_writesItem {op : Op} (h : writesItem op = true) :
    taskReducer.changesOf op = itemLww op :: timestampChanges op := by
  unfold writesItem at h
  rw [Bool.and_eq_true, beq_iff_eq] at h
  obtain ⟨hfolds, hkind⟩ := h
  have hf : isFoldable op = true := by
    unfold Reducer.folds at hfolds
    exact (Bool.and_eq_true _ _ ▸ hfolds).2
  unfold Reducer.changesOf
  rw [if_pos hfolds]
  change kindChanges op ++ (if datesItem op then timestampChanges op else []) = _
  unfold isFoldable at hf
  rw [if_pos hkind, Bool.and_eq_true] at hf
  obtain ⟨strategy, hs⟩ := Option.isSome_iff_exists.mp hf.1
  have hdates : datesItem op = true := by simp [datesItem, hkind]
  unfold kindChanges
  rw [if_pos hkind, hs, if_pos hdates]
  cases strategy <;> rfl

/-- A folded op on an item makes one change to `items`. -/
theorem filter_changes_items {op : Op} (h : writesItem op = true) (k : Cells) :
    (taskReducer.changesOf op).filter (fun c => c.table = "items" ∧ c.key = k) =
      if k = [("id", .text op.targetId)] then [itemLww op] else [] := by
  rw [changesOf_of_writesItem h]
  have htimes : (timestampChanges op).filter (fun c => c.table = "items" ∧ c.key = k) = [] := by
    rw [List.filter_eq_nil_iff]
    intro c hc
    rcases List.mem_pair.mp hc with rfl | rfl <;> simp [Change.register]
  by_cases hk : k = [("id", .text op.targetId)]
  · subst hk
    rw [if_pos rfl, List.filter_cons_of_pos (by simp [itemLww, Change.register]), htimes]
  · rw [if_neg hk, List.filter_cons_of_neg, htimes]
    simpa [itemLww, Change.register] using Ne.symm hk

/-- An op that does not write an item makes none. -/
theorem filter_changes_items_of_not {op : Op} (h : writesItem op = false) (k : Cells) :
    (taskReducer.changesOf op).filter (fun c => c.table = "items" ∧ c.key = k) = [] := by
  rw [List.filter_eq_nil_iff]
  intro c hc
  simp only [decide_eq_true_eq, not_and]
  intro ht
  obtain ⟨hkind, _, _⟩ := (taskChange_of_mem_changesOf hc).of_items ht
  simp [writesItem, folds_of_mem_changesOf hc, hkind] at h

/-- The rows a list of ops folds to, from empty tables. -/
def rowsOf (ops : List Op) : View := ops.foldl taskReducer.foldView fun _ _ => none

theorem rowsOf_eq (ops : List Op) (t : String) (k : Cells) :
    rowsOf ops t k = (ops.flatMap fun op =>
      (taskReducer.changesOf op).filter fun c => c.table = t ∧ c.key = k).foldl
        (fun o c => some (rowAfter flowDdl c o)) none := by
  unfold rowsOf
  rw [Reducer.foldl_foldView_eq, View.foldl_step_row, List.filter_flatMap]
  rfl

/-- **The row of an item is the fold of the ops that write it.** -/
theorem rowsOf_items (ops : List Op) (id : String) :
    rowsOf ops "items" [("id", .text id)] = (itemOps ops id).foldl itemStep none := by
  rw [rowsOf_eq]
  have h : (ops.flatMap fun op => (taskReducer.changesOf op).filter fun c =>
      c.table = "items" ∧ c.key = [("id", .text id)]) = (itemOps ops id).map itemLww := by
    induction ops with
    | nil => rfl
    | cons op ops ih =>
      rw [List.flatMap_cons, ih]
      cases hw : writesItem op with
      | false =>
        rw [filter_changes_items_of_not hw, itemOps_cons, if_neg (by simp [hw])]
        rfl
      | true =>
        rw [filter_changes_items hw, itemOps_cons]
        by_cases hid : op.targetId = id
        · subst hid
          rw [if_pos rfl, if_pos ⟨hw, rfl⟩]
          rfl
        · rw [if_neg (by simpa using Ne.symm hid), if_neg (by simp [hid])]
          rfl
  rw [h, List.foldl_map]
  rfl

/-- No row of `items` stands under another key. -/
theorem rowsOf_items_other (ops : List Op) {k : Cells} (hk : ∀ id, k ≠ [("id", .text id)]) :
    rowsOf ops "items" k = none := by
  rw [rowsOf_eq, List.flatMap_eq_nil_iff.mpr]
  · rfl
  · intro op _
    cases hw : writesItem op with
    | false => exact filter_changes_items_of_not hw k
    | true => rw [filter_changes_items hw, if_neg (hk op.targetId)]

/-! ## Settled items -/

theorem ver_injective_of_nodup {ops : List Op} (hcoord : (ops.map Op.coordinate).Nodup) {a b : Op}
    (ha : a ∈ ops) (hb : b ∈ ops) (h : ver a = ver b) : a = b := by
  simp only [ver, List.cons.injEq, and_true] at h
  exact List.inj_on_of_nodup_map hcoord ha hb (Prod.ext h.1 h.2)

/-- Cells equal to the default's come from an op at `(0, 0)` without a value. -/
theorem opCells_eq_bareCells_iff {op : Op} :
    opCells op = bareCells ↔ op.lamport = 0 ∧ op.site = 0 ∧ op.value = none := by
  unfold opCells bareCells
  cases op.value <;> simp [Cell.ofOption]

/-- A register of a settled item shows its highest op, or the default stands for it. -/
theorem reg_eq_of_settled {ops L L' : List Op} {id f : String} {row row' : Row}
    (hset : Settled ops) (hcoord : (ops.map Op.coordinate).Nodup)
    (hL : ∀ op, op ∈ L ↔ op ∈ itemOps ops id) (hL' : ∀ op, op ∈ L' ↔ op ∈ itemOps ops id)
    (h : Shown L f row ∨ Bare L f row) (h' : Shown L' f row' ∨ Bare L' f row') :
    reg f row = reg f row' := by
  -- a bare register beside a shown one: some op settles the field, and it is the one shown
  have hmixed {P Q : List Op} {r s : Row} (hP : ∀ op, op ∈ P ↔ op ∈ itemOps ops id)
      (hQ : ∀ op, op ∈ Q ↔ op ∈ itemOps ops id) (hr : Shown P f r) (hs : Bare Q f s) :
      reg f r = reg f s := by
    obtain ⟨o, ho, hof, hreg, hmax⟩ := hr
    obtain ⟨hbare, hle, q, hq, hqf⟩ := hs
    have hoi := (hP o).mp ho
    have hqi := (hQ q).mp hq
    obtain ⟨hoo, hwo, hido⟩ := mem_itemOps.mp hoi
    obtain ⟨hqo, hwq, hidq⟩ := mem_itemOps.mp hqi
    obtain ⟨c, hc, hwc, hidc, hcf, hsettles⟩ :=
      hset o hoo q hqo hwo hwq (hido.trans hidq.symm) (hof.trans_ne (Ne.symm hqf))
    have hci : c ∈ itemOps ops id := mem_itemOps.mpr ⟨hc, hwc, hidc.trans hido⟩
    have hcle := hle c ((hQ c).mpr hci) (hcf.trans hof)
    have hco := hmax c ((hP c).mpr hci) (hcf.trans hof)
    rcases hsettles with hlt | hzero
    · exact absurd hcle (not_le.mpr hlt)
    · have hvc : ver c = [0, 0] := by simp [ver, hzero.1, hzero.2.1]
      have hoc : ver o = ver c := le_antisymm (hvc ▸ hle o ((hQ o).mpr hoi) hof) hco
      rw [hreg, hbare, ver_injective_of_nodup hcoord hoo hc hoc]
      exact opCells_eq_bareCells_iff.mpr hzero
  rcases h with h | h <;> rcases h' with h' | h'
  · obtain ⟨o, ho, hof, hreg, hmax⟩ := h
    obtain ⟨o', ho', hof', hreg', hmax'⟩ := h'
    have hle := hmax' o ((hL' o).mpr ((hL o).mp ho)) hof
    have hge := hmax o' ((hL o').mpr ((hL' o').mp ho')) hof'
    have heq := ver_injective_of_nodup hcoord (mem_itemOps.mp ((hL o).mp ho)).1
      (mem_itemOps.mp ((hL' o').mp ho')).1 (le_antisymm hle hge)
    rw [hreg, hreg', heq]
  · exact hmixed hL hL' h h'
  · exact (hmixed hL' hL h' h).symm
  · rw [h.1, h'.1]

/-- Registers and frame make up the row. -/
theorem row_ext {row row' : Row} (hreg : ∀ f ∈ itemLwwFields, reg f row = reg f row')
    (hframe : ∀ c, (∀ f ∈ itemLwwFields, c ∉ regColumns f) → row c = row' c) : row = row' := by
  funext c
  by_cases hc : ∀ f ∈ itemLwwFields, c ∉ regColumns f
  · exact hframe c hc
  · push Not at hc
    obtain ⟨f, hf, hcf⟩ := hc
    have h := hreg f hf
    simp only [reg, Prod.mk.injEq] at h
    simp only [regColumns, List.mem_cons, List.not_mem_nil, or_false] at hcf
    rcases hcf with rfl | rfl | rfl
    · exact h.1
    · exact h.2.1
    · exact h.2.2

theorem rowsOf_items_eq {ops l₁ l₂ : List Op} (hset : Settled ops)
    (hcoord : (ops.map Op.coordinate).Nodup) (h₁ : l₁.Perm ops) (h₂ : l₂.Perm ops) (k : Cells) :
    rowsOf l₁ "items" k = rowsOf l₂ "items" k := by
  by_cases hk : ∃ id, k = [("id", .text id)]
  · obtain ⟨id, rfl⟩ := hk
    rw [rowsOf_items, rowsOf_items]
    have hm₁ : ∀ op, op ∈ itemOps l₁ id ↔ op ∈ itemOps ops id := fun op =>
      (h₁.filter _).mem_iff
    have hm₂ : ∀ op, op ∈ itemOps l₂ id ↔ op ∈ itemOps ops id := fun op =>
      (h₂.filter _).mem_iff
    by_cases hnil : itemOps ops id = []
    · have hn₁ : itemOps l₁ id = [] := (h₁.filter _).trans (hnil ▸ .refl _) |>.eq_nil
      have hn₂ : itemOps l₂ id = [] := (h₂.filter _).trans (hnil ▸ .refl _) |>.eq_nil
      rw [hn₁, hn₂]
    · obtain ⟨op, hop⟩ := List.exists_mem_of_ne_nil _ hnil
      have hne₁ := List.ne_nil_of_mem ((hm₁ op).mpr hop)
      have hne₂ := List.ne_nil_of_mem ((hm₂ op).mpr hop)
      obtain ⟨row₁, hrow₁, _⟩ :=
        shown_or_bare hne₁ itemOps_field (by decide : "title" ∈ itemLwwFields)
      obtain ⟨row₂, hrow₂, _⟩ :=
        shown_or_bare hne₂ itemOps_field (by decide : "title" ∈ itemLwwFields)
      rw [hrow₁, hrow₂, show row₁ = row₂ from row_ext ?_ ?_]
      · intro f hf
        obtain ⟨r₁, hr₁, hs₁⟩ := shown_or_bare hne₁ itemOps_field hf
        obtain ⟨r₂, hr₂, hs₂⟩ := shown_or_bare hne₂ itemOps_field hf
        cases hrow₁.symm.trans hr₁
        cases hrow₂.symm.trans hr₂
        exact reg_eq_of_settled hset hcoord hm₁ hm₂ hs₁ hs₂
      · intro c hc
        rw [itemStep_frame itemOps_field (fun op hop => (mem_itemOps.mp hop).2.2) hc hrow₁,
          itemStep_frame itemOps_field (fun op hop => (mem_itemOps.mp hop).2.2) hc hrow₂]
  · push Not at hk
    rw [rowsOf_items_other l₁ hk, rowsOf_items_other l₂ hk]

/-! ## The other two tables -/

/-- A register that starts at `NULL` opens every row. -/
theorem opens_created (op : Op) : Opens flowDdl (createdChange op) := by
  intro cells version w he stored hs
  cases he
  cases hs

theorem opens_updated (op : Op) : Opens flowDdl (updatedChange op) := by
  intro cells version w he stored hs
  cases he
  cases hs

/-- Changes to `custom_fields` and `item_timestamps` commute whatever the Lamport numbers. -/
theorem commute_of_single_register {a b : Op} {c d : Change}
    (hab : a.coordinate = b.coordinate → a = b) (hc : TaskChange a c) (hd : TaskChange b d)
    (ht : c.table = "custom_fields" ∨ c.table = "item_timestamps") (hrow : SameRow c d) :
    Commute (View.step flowDdl) c d := by
  have hver {x y : Op} (hne : x.coordinate ≠ y.coordinate) :
      [x.lamport, x.site] ≠ [y.lamport, y.site] := by
    intro h
    simp only [List.cons.injEq, and_true] at h
    exact hne (Prod.ext h.1 h.2)
  rcases ht with ht | ht
  · have h1 := hc.of_custom ht
    have h2 := hd.of_custom (hrow.1 ▸ ht)
    subst h1 h2
    rcases eq_or_ne a b with rfl | hne
    · exact fun v => rfl
    · exact step_commute hc.wf hd.wf (.same rfl rfl rfl rfl (hver (mt hab hne)))
  · rcases hc.of_timestamps ht with rfl | rfl <;>
      rcases hd.of_timestamps (hrow.1 ▸ ht) with rfl | rfl
    · rcases eq_or_ne a b with rfl | hne
      · exact fun v => rfl
      · exact step_commute hc.wf hd.wf (.same rfl rfl rfl rfl (hver (mt hab hne)))
    · exact step_commute hc.wf hd.wf (.beside rfl rfl (createdChange_disjoint a b)
        (opens_created a) (opens_updated b))
    · exact step_commute hc.wf hd.wf (.beside rfl rfl (createdChange_disjoint b a).symm
        (opens_updated a) (opens_created b))
    · rcases eq_or_ne a b with rfl | hne
      · exact fun v => rfl
      · exact step_commute hc.wf hd.wf (.same rfl rfl rfl rfl (hver (mt hab hne)))

theorem rowsOf_perm {l₁ l₂ : List Op} (hcoord : (l₁.map Op.coordinate).Nodup) (h : l₁.Perm l₂)
    {t : String} (ht : t = "custom_fields" ∨ t = "item_timestamps") (k : Cells) :
    rowsOf l₁ t k = rowsOf l₂ t k := by
  let p : Change → Bool := fun c => c.table = t ∧ c.key = k
  -- only the changes to this row count, and those commute
  have hrow (l : List Op) : rowsOf l t k =
      ((l.flatMap taskReducer.changesOf).filter p).foldl (View.step flowDdl) (fun _ _ => none) t
        k := by
    unfold rowsOf
    rw [Reducer.foldl_foldView_eq, View.foldl_step_row, View.foldl_step_row, List.filter_filter]
    simp only [p, Bool.and_self]
    rfl
  rw [hrow, hrow, foldl_perm ((h.flatMap_right _).filter p)]
  intro c hc d hd
  obtain ⟨hc, hpc⟩ := List.mem_filter.mp hc
  obtain ⟨hd, hpd⟩ := List.mem_filter.mp hd
  obtain ⟨a, ha, hca⟩ := List.mem_flatMap.mp hc
  obtain ⟨b, hb, hdb⟩ := List.mem_flatMap.mp hd
  simp only [p, decide_eq_true_eq] at hpc hpd
  refine commute_of_single_register (fun hab => List.inj_on_of_nodup_map hcoord ha hb hab)
    (taskChange_of_mem_changesOf hca) (taskChange_of_mem_changesOf hdb) ?_
    ⟨hpc.1.trans hpd.1.symm, hpc.2.trans hpd.2.symm⟩
  rw [hpc.1]
  exact ht

/-! ## The board -/

/-- The tables the board reads its items from. -/
def boardTables : List String := ["items", "custom_fields", "item_timestamps"]

/-- The two stores show the same rows of `items`, `custom_fields` and `item_timestamps`. -/
def SameBoard (s t : Store) : Prop :=
  ∀ table ∈ boardTables, ∀ k, s.file.views.get table k = t.file.views.get table k

/-- Whatever order two fresh stores receive the ops in, they show the same board. -/
def OrderBlind (ops : List Op) : Prop :=
  ∀ (l₁ l₂ : List Op) (site₁ site₂ : Int) (key₁ key₂ : ReplicaKey) (ulids₁ ulids₂ : Nat → String)
    (s₁ s₂ : Store), l₁.Perm ops → l₂.Perm ops → openInMemory site₁ key₁ ulids₁ = some s₁ →
    openInMemory site₂ key₂ ulids₂ = some s₂ → SameBoard (s₁.apply l₁).2 (s₂.apply l₂).2

/-- A fresh store folds the ops it receives in the order it receives them. -/
theorem get_apply_freshStore {ops : List Op} (hid : (ops.map Op.opId).Nodup) (site : Int)
    (key : ReplicaKey) (ulids : Nat → String) :
    ((freshStore site key ulids).apply ops).2.file.views.get = rowsOf ops :=
  Store.apply_fresh rfl (fun _ hrow => by cases hrow) hid fun _ _ => by
    simp [freshStore, File.log, File.fresh]

theorem orderBlind_iff {ops : List Op} (hid : (ops.map Op.opId).Nodup) :
    OrderBlind ops ↔ ∀ l₁ l₂ : List Op, l₁.Perm ops → l₂.Perm ops → ∀ table ∈ boardTables, ∀ k,
      rowsOf l₁ table k = rowsOf l₂ table k := by
  have hfold {l : List Op} (hl : l.Perm ops) (site : Int) (key : ReplicaKey)
      (ulids : Nat → String) :
      ((freshStore site key ulids).apply l).2.file.views.get = rowsOf l :=
    get_apply_freshStore ((hl.map Op.opId).nodup_iff.mpr hid) site key ulids
  constructor
  · intro h l₁ l₂ h₁ h₂ table ht k
    have := h l₁ l₂ 1 1 silentKey silentKey toString toString _ _ h₁ h₂ (openInMemory_eq ..)
      (openInMemory_eq ..) table ht k
    rwa [hfold h₁, hfold h₂] at this
  · intro h l₁ l₂ site₁ site₂ key₁ key₂ ulids₁ ulids₂ s₁ s₂ h₁ h₂ hs₁ hs₂ table ht k
    rw [openInMemory_eq] at hs₁ hs₂
    cases hs₁
    cases hs₂
    rw [hfold h₁, hfold h₂]
    exact h l₁ l₂ h₁ h₂ table ht k

/-- An order that creates the item with an op of `a`'s field and one that creates it with an op of
`b`'s show `a`'s register alike only where an op settles it. -/
theorem settled_of_rowsOf {ops : List Op}
    (h : ∀ l₁ l₂ : List Op, l₁.Perm ops → l₂.Perm ops → ∀ k,
      rowsOf l₁ "items" k = rowsOf l₂ "items" k) : Settled ops := by
  intro a ha b hb hwa hwb hid hne
  have hpa : (a :: ops.erase a).Perm ops := (List.perm_cons_erase ha).symm
  have hpb : (b :: ops.erase b).Perm ops := (List.perm_cons_erase hb).symm
  have hrows := h _ _ hpa hpb [("id", .text a.targetId)]
  rw [rowsOf_items, rowsOf_items, itemOps_cons, itemOps_cons, if_pos ⟨hwa, rfl⟩,
    if_pos ⟨hwb, hid.symm⟩, List.foldl_cons, List.foldl_cons] at hrows
  have hfa := writesItem_field hwa
  have hfb := writesItem_field hwb
  obtain ⟨-, hA⟩ | ⟨hcontra, -⟩ := shown_or_bare_first hfa hfa
  swap
  · exact absurd rfl hcontra
  obtain ⟨hcontra, -⟩ | ⟨-, hB⟩ := shown_or_bare_first hfb hfa
  · exact absurd hcontra.symm hne
  obtain ⟨rowA, hrowA, hA⟩ := hA.fold hfa (Q := itemOps (ops.erase a) a.targetId) itemOps_field
  obtain ⟨rowB, hrowB, hB⟩ := hB.fold hfa (Q := itemOps (ops.erase b) a.targetId) itemOps_field
  have hrow : rowA = rowB := Option.some.inj (hrowA.symm.trans (hrows.trans hrowB))
  subst hrow
  rcases hB with ⟨⟨q, hq, hqf, hlt⟩, _⟩ | hB
  · -- an op above the default overwrote it
    obtain ⟨hqo, hwq, hqid⟩ := mem_itemOps.mp hq
    exact ⟨q, List.mem_of_mem_erase hqo, hwq, hqid, hqf, .inl hlt⟩
  · -- the register stayed bare, so the op shown in the other order says what the default says
    obtain ⟨o, ho, hof, hreg, _⟩ := hA
    have hcells : opCells o = bareCells := hreg.symm.trans hB.1
    refine ⟨o, ?_, ?_, ?_, hof, .inr (opCells_eq_bareCells_iff.mp hcells)⟩ <;>
      rcases List.mem_cons.mp ho with rfl | ho
    · exact ha
    · exact List.mem_of_mem_erase (mem_itemOps.mp ho).1
    · exact hwa
    · exact (mem_itemOps.mp ho).2.1
    · rfl
    · exact (mem_itemOps.mp ho).2.2

/-- **When arrival order does not decide the board.** Two fresh stores that receive ops of different
ids and coordinates in any two orders show the same `items`, `custom_fields` and `item_timestamps`
exactly when the ops are settled. -/
theorem arrival_order_iff {ops : List Op} (hid : (ops.map Op.opId).Nodup)
    (hcoord : (ops.map Op.coordinate).Nodup) : OrderBlind ops ↔ Settled ops := by
  rw [orderBlind_iff hid]
  constructor
  · intro h
    exact settled_of_rowsOf fun l₁ l₂ h₁ h₂ k =>
      h l₁ l₂ h₁ h₂ "items" (by decide) k
  · intro hset l₁ l₂ h₁ h₂ table ht k
    have hcoord₁ := ((h₁.map Op.coordinate).nodup_iff.mpr hcoord)
    simp only [boardTables, List.mem_cons, List.not_mem_nil, or_false] at ht
    rcases ht with rfl | rfl | rfl
    · exact rowsOf_items_eq hset hcoord h₁ h₂ k
    · exact rowsOf_perm hcoord₁ (h₁.trans h₂.symm) (.inl rfl) k
    · exact rowsOf_perm hcoord₁ (h₁.trans h₂.symm) (.inr rfl) k

/-- A received op that sets a field of item `aaaa.1`. -/
def setAt (opId field value : String) (lamport : Int) : Op :=
  ⟨opId, lamport, 7, domainTask, "item", "aaaa.1", field, "set", some value, "alice", "", none,
    none⟩

/-- A title at Lamport number 5 and a status at 6 show the same board in both orders. -/
theorem arrival_order_above_zero :
    OrderBlind [setAt "01A" "title" "wash up" 5, setAt "01B" "status" "open" 6] := by
  refine (arrival_order_iff (by decide) (by decide)).mpr fun a ha b _ hwa _ _ _ => ?_
  refine ⟨a, ha, hwa, rfl, rfl, .inl ?_⟩
  simp only [List.mem_cons, List.not_mem_nil, or_false] at ha
  rcases ha with rfl | rfl <;> decide

/-- A title at Lamport number 5 and a status at -1: the status shows only where it came first. -/
theorem arrival_order_below_zero :
    let title := setAt "01A" "title" "wash up" 5
    let status := setAt "01B" "status" "open" (-1)
    let first := ((freshStore 1 silentKey toString).apply [status, title]).2
    let last := ((freshStore 1 silentKey toString).apply [title, status]).2
    title.opId ≠ status.opId ∧ title.coordinate ≠ status.coordinate ∧
      (first.file.views.get "items" [("id", .text "aaaa.1")]).map (· "status") =
        some (.text "open") ∧
      (last.file.views.get "items" [("id", .text "aaaa.1")]).map (· "status") = some .null ∧
      ¬ SameBoard first last := by
  refine ⟨by decide, by decide, by decide, by decide, fun h => ?_⟩
  have hrow := congrArg (Option.map (· "status"))
    (h "items" (by decide) [("id", .text "aaaa.1")])
  revert hrow
  decide

end NexusFlow.Core
