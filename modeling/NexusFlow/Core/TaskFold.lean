import NexusFlow.Core.TaskReducer
import NexusFlow.Foundation.Ingest

/-!
# How the changes of two task ops meet

Every change the task reducer describes is one of eight (`TaskChange`): a register of `items`, of
`custom_fields` or one of the two of `item_timestamps`; the row an add op owns; a grow-only mark; a
list entry's add or its removal. From that list:

* `agree_of_taskChange`: any two changes of ops that carry different op ids (or of one op) agree in
  the sense of `View.lean`, so folding ops again changes nothing.
* `compatible_of_taskChange`: two ops with different op ids, different coordinates and Lamport
  numbers of at least 1 fold in either order.

The last condition is `items`' alone: its registers start at version `(0, 0)`, see
`ArrivalOrder.lean` for what happens below it.
-/

namespace NexusFlow.Core

open NexusFlow.Lib NexusFlow.Foundation TaskReducer

/-! ## Columns of `items` -/

theorem itemLww_wf {op : Op} (hf : op.field ∈ itemLwwFields) : (itemLww op).WF := by
  have h : ∀ f ∈ itemLwwFields, (["id"] ++ [f, f ++ "_v", f ++ "_site"]).Nodup := by
    decide
  exact h op.field hf

/-- The columns of two different registers of `items` are disjoint. -/
theorem itemLww_disjoint {a b : Op} (ha : a.field ∈ itemLwwFields) (hb : b.field ∈ itemLwwFields)
    (hne : a.field ≠ b.field) : DisjointColumns (itemLww a) (itemLww b) := by
  have h : ∀ f ∈ itemLwwFields, ∀ g ∈ itemLwwFields, f ≠ g →
      ∀ c ∈ [f, f ++ "_v", f ++ "_site"], c ∉ [g, g ++ "_v", g ++ "_site"] := by
    decide
  exact h a.field ha b.field hb hne

/-- The version an `items` register starts at. -/
theorem storedVersion_seedRow_items {f : String} (hf : f ∈ itemLwwFields) (id : Cell) :
    storedVersion (seedRow flowDdl "items" [("id", id)]) [f ++ "_v", f ++ "_site"] =
      some [0, 0] := by
  have h : ∀ f ∈ itemLwwFields, f ++ "_v" ≠ "id" ∧ f ++ "_site" ≠ "id" ∧
      flowDdl "items" (f ++ "_v") = .int 0 ∧ flowDdl "items" (f ++ "_site") = .int 0 := by
    decide
  obtain ⟨hv, hs, hdv, hds⟩ := h f hf
  have h1 : seedRow flowDdl "items" [("id", id)] (f ++ "_v") = .int 0 := by
    simp [seedRow, assign, List.lookup_cons, beq_eq_false_iff_ne.mpr hv, hdv]
  have h2 : seedRow flowDdl "items" [("id", id)] (f ++ "_site") = .int 0 := by
    simp [seedRow, assign, List.lookup_cons, beq_eq_false_iff_ne.mpr hs, hds]
  simp [storedVersion, h1, h2, Cell.int?]

/-- An `items` register opens its row exactly when its version is above `(0, 0)`. -/
theorem opens_itemLww_iff {op : Op} (hf : op.field ∈ itemLwwFields) :
    Opens flowDdl (itemLww op) ↔ [0, 0] < [op.lamport, op.site] := by
  constructor
  · intro h
    exact h _ _ _ rfl _ (storedVersion_seedRow_items hf _)
  · intro h cells version w he stored hs
    cases he
    have := storedVersion_seedRow_items hf (.text op.targetId)
    rw [show stored = [0, 0] from Option.some.inj (hs.symm.trans this)]
    exact h

theorem opens_itemLww {op : Op} (hf : op.field ∈ itemLwwFields) (hl : 1 ≤ op.lamport) :
    Opens flowDdl (itemLww op) :=
  (opens_itemLww_iff hf).mpr (List.Lex.rel (by omega))

/-! ## The eight kinds of change -/

/-- The tables in which one row belongs to one add op. -/
def addTables : List String := ["edge_adds", "label_adds", "thread_link_adds", "notes", "chunks"]

/-- The grow-only tables. -/
def markTables : List String :=
  ["edge_removes", "label_removes", "thread_link_removes", "note_tombstones", "chunk_superseded"]

/-- `timestamp_changes`' first. -/
def createdChange (op : Op) : Change :=
  .register "item_timestamps" [("item_id", .text op.targetId)]
    [("created_at", .text op.wallClock)] ("created_v", "created_site") op.version .lower

/-- `timestamp_changes`' second. -/
def updatedChange (op : Op) : Change :=
  .register "item_timestamps" [("item_id", .text op.targetId)]
    [("updated_at", .text op.wallClock)] ("updated_v", "updated_site") op.version .higher

/-- What a change of `op` can be. The row an add op owns is the first change of its kind, so an op
owns one row. -/
inductive TaskChange (op : Op) (c : Change) : Prop
  | item (hkind : op.targetKind = "item") (hf : op.field ∈ itemLwwFields) (h : c = itemLww op)
  | custom (h : c = fieldChange op)
  | created (h : c = createdChange op)
  | updated (h : c = updatedChange op)
  | add {cells : Cells} {col : String} (hhead : (kindChanges op).head? = some c)
      (ht : c.table ∈ addTables) (he : c.effect = .put cells)
      (hk : c.key.getLast? = some (col, .text op.opId)) (hwf : c.WF)
  | mark (ht : c.table ∈ markTables) (he : c.effect = .put []) (hwf : c.WF)
  | entryAdd {cells : Cells} (hhead : (kindChanges op).head? = some c)
      (ht : c.table = "field_entries") (he : c.effect = .put cells)
      (hk : c.key.getLast? = some ("tag", .text op.opId))
      (hcols : "removed" ∉ cells.map Prod.fst) (hwf : c.WF)
  | entryRemove (ht : c.table = "field_entries") (he : c.effect = .put [("removed", .int 1)])
      (hwf : c.WF)

/-- A change is well formed when the columns it names are; they are fixed, whatever it writes. -/
theorem wf_of_columns {c : Change} (cols : List String) (hn : cols.Nodup)
    (h : c.key.map Prod.fst ++ c.effect.writes.map Prod.fst = cols) : c.WF := by
  unfold Change.WF
  rw [h]
  exact hn

/-- A tombstone is a mark. -/
theorem taskChange_of_mem_tombstones {op : Op} (table : String) {c : Change}
    (ht : table ∈ markTables) (hc : c ∈ tombstones op table) : TaskChange op c := by
  unfold tombstones at hc
  split at hc
  · cases hc
  · obtain ⟨tag, _, rfl⟩ := List.mem_map.mp hc
    exact .mark ht rfl (wf_of_columns ["tag"] (by decide) rfl)

theorem taskChange_of_mem_kindChanges {op : Op} {c : Change} (hf : isFoldable op = true)
    (hc : c ∈ kindChanges op) : TaskChange op c := by
  obtain ⟨l, hl⟩ : ∃ l, kindChanges op = l := ⟨_, rfl⟩
  have hl' := hl
  rw [hl] at hc
  unfold kindChanges at hl
  split_ifs at hl with h1 h2
  · -- an item field
    split at hl
    · next strategy _ =>
      have hfield : op.field ∈ itemLwwFields := by
        unfold isFoldable at hf
        rw [if_pos h1, Bool.and_eq_true] at hf
        exact List.contains_iff_mem.mp hf.2
      have : itemChanges op strategy = [itemLww op] := by cases strategy <;> rfl
      rw [this] at hl
      rw [← hl, List.mem_singleton] at hc
      exact .item h1 hfield hc
    · rw [← hl] at hc
      cases hc
  · split at hl
    · -- a list entry's add
      unfold entryAdd at hl
      split at hl
      · rw [← hl] at hc
        cases hc
      · next value label _ =>
        rw [← hl, List.mem_singleton] at hc
        subst hc
        cases label with
        | none =>
          exact .entryAdd (by rw [hl', ← hl]; rfl) rfl rfl rfl
            (show "removed" ∉ ["value", "lamport", "site"] by decide)
            (wf_of_columns ["item_id", "field", "tag", "value", "lamport", "site"] (by decide) rfl)
        | some label =>
          exact .entryAdd (by rw [hl', ← hl]; rfl) rfl rfl rfl
            (show "removed" ∉ ["value", "lamport", "site", "label"] by decide)
            (wf_of_columns ["item_id", "field", "tag", "value", "lamport", "site", "label"]
              (by decide) rfl)
    · -- its removal
      unfold entryRemove at hl
      split at hl
      · rw [← hl] at hc
        cases hc
      · rw [← hl] at hc
        obtain ⟨tag, _, rfl⟩ := List.mem_map.mp hc
        exact .entryRemove rfl rfl
          (wf_of_columns ["item_id", "field", "tag", "removed"] (by decide) rfl)
    · rw [← hl, List.mem_singleton] at hc
      exact .custom hc
  · split at hl
    · unfold edgeAdd at hl
      split at hl
      · rw [← hl] at hc
        cases hc
      · rw [← hl, List.mem_singleton] at hc
        subst hc
        exact .add (by rw [hl', ← hl]; rfl) (show "edge_adds" ∈ addTables by decide) rfl rfl
          (wf_of_columns ["tag", "from_id", "to_id", "kind", "lamport", "site"] (by decide) rfl)
    · exact taskChange_of_mem_tombstones "edge_removes" (by decide) (hl ▸ hc)
    · unfold labelAdd at hl
      split at hl
      · rw [← hl] at hc
        cases hc
      · rw [← hl, List.mem_singleton] at hc
        subst hc
        exact .add (by rw [hl', ← hl]; rfl) (show "label_adds" ∈ addTables by decide) rfl rfl
          (wf_of_columns ["tag", "item_id", "label"] (by decide) rfl)
    · exact taskChange_of_mem_tombstones "label_removes" (by decide) (hl ▸ hc)
    · unfold threadLinkAdd at hl
      split at hl
      · rw [← hl] at hc
        cases hc
      · rw [← hl, List.mem_singleton] at hc
        subst hc
        exact .add (by rw [hl', ← hl]; rfl) (show "thread_link_adds" ∈ addTables by decide) rfl rfl
          (wf_of_columns ["tag", "thread_id", "item_id", "relation", "weight", "lamport", "site"]
            (by decide) rfl)
    · exact taskChange_of_mem_tombstones "thread_link_removes" (by decide) (hl ▸ hc)
    · rw [← hl, List.mem_singleton] at hc
      subst hc
      exact .add (by rw [hl', ← hl]; rfl) (show "notes" ∈ addTables by decide) rfl rfl
        (wf_of_columns ["id", "item_id", "author", "body", "lamport", "site", "created_at"]
          (by decide) rfl)
    · rw [← hl, List.mem_singleton] at hc
      subst hc
      exact .mark (show "note_tombstones" ∈ markTables by decide) rfl
        (wf_of_columns ["note_id"] (by decide) rfl)
    · unfold chunkChanges at hl
      split at hl
      · rw [← hl] at hc
        cases hc
      · rw [← hl] at hc
        rcases List.mem_cons.mp hc with rfl | hc
        · exact .add (by rw [hl', ← hl]; rfl) (show "chunks" ∈ addTables by decide) rfl rfl
            (wf_of_columns
              ["item_id", "field", "id", "author", "body", "lamport", "site", "created_at"]
              (by decide) rfl)
        · obtain ⟨id, _, rfl⟩ := List.mem_map.mp hc
          exact .mark (show "chunk_superseded" ∈ markTables by decide) rfl
            (wf_of_columns ["item_id", "field", "chunk_id"] (by decide) rfl)
    · rw [← hl] at hc
      cases hc

/-- Every change a folded op makes is one of the eight. -/
theorem taskChange_of_mem_changes {op : Op} {c : Change} (hf : isFoldable op = true)
    (hc : c ∈ changes op) : TaskChange op c := by
  unfold changes at hc
  rcases List.mem_append.mp hc with hc | hc
  · exact taskChange_of_mem_kindChanges hf hc
  · split_ifs at hc
    · rcases List.mem_pair.mp hc with rfl | rfl
      · exact .created rfl
      · exact .updated rfl
    · cases hc

theorem TaskChange.wf {op : Op} {c : Change} (h : TaskChange op c) : c.WF := by
  cases h with
  | item _ hf h =>
    subst h
    exact itemLww_wf hf
  | custom h =>
    subst h
    exact wf_of_columns ["item_id", "field", "value", "value_v", "value_site"] (by decide) rfl
  | created h =>
    subst h
    exact wf_of_columns ["item_id", "created_at", "created_v", "created_site"] (by decide) rfl
  | updated h =>
    subst h
    exact wf_of_columns ["item_id", "updated_at", "updated_v", "updated_site"] (by decide) rfl
  | add _ _ _ _ hwf => exact hwf
  | mark _ _ hwf => exact hwf
  | entryAdd _ _ _ _ _ hwf => exact hwf
  | entryRemove _ _ hwf => exact hwf

/-! ## A change, read off its table -/

theorem TaskChange.of_items {op : Op} {c : Change} (h : TaskChange op c) (ht : c.table = "items") :
    op.targetKind = "item" ∧ op.field ∈ itemLwwFields ∧ c = itemLww op := by
  cases h with
  | item hkind hf h => exact ⟨hkind, hf, h⟩
  | _ => simp_all [fieldChange, createdChange, updatedChange, Change.register, addTables, markTables]

theorem TaskChange.of_custom {op : Op} {c : Change} (h : TaskChange op c)
    (ht : c.table = "custom_fields") : c = fieldChange op := by
  cases h with
  | custom h => exact h
  | _ => simp_all [itemLww, createdChange, updatedChange, Change.register, addTables, markTables]

theorem TaskChange.of_timestamps {op : Op} {c : Change} (h : TaskChange op c)
    (ht : c.table = "item_timestamps") : c = createdChange op ∨ c = updatedChange op := by
  cases h with
  | created h => exact .inl h
  | updated h => exact .inr h
  | _ => simp_all [itemLww, fieldChange, Change.register, addTables, markTables]

theorem TaskChange.of_adds {op : Op} {c : Change} (h : TaskChange op c) (ht : c.table ∈ addTables) :
    (kindChanges op).head? = some c ∧ (∃ cells, c.effect = .put cells) ∧
      ∃ col, c.key.getLast? = some (col, .text op.opId) := by
  cases h with
  | add hhead _ he hk _ => exact ⟨hhead, ⟨_, he⟩, _, hk⟩
  | mark ht' =>
    have : ∀ t ∈ markTables, t ∉ addTables := by decide
    exact absurd ht (this _ ht')
  | _ => simp_all [itemLww, fieldChange, createdChange, updatedChange, Change.register, addTables]

theorem TaskChange.of_marks {op : Op} {c : Change} (h : TaskChange op c)
    (ht : c.table ∈ markTables) : c.effect = .put [] := by
  cases h with
  | mark _ he _ => exact he
  | add _ ht' =>
    have : ∀ t ∈ addTables, t ∉ markTables := by decide
    exact absurd ht (this _ ht')
  | _ => simp_all [itemLww, fieldChange, createdChange, updatedChange, Change.register, markTables]

theorem TaskChange.of_entries {op : Op} {c : Change} (h : TaskChange op c)
    (ht : c.table = "field_entries") :
    ((kindChanges op).head? = some c ∧ c.key.getLast? = some ("tag", .text op.opId) ∧
      ∃ cells, c.effect = .put cells ∧ "removed" ∉ cells.map Prod.fst) ∨
    c.effect = .put [("removed", .int 1)] := by
  cases h with
  | entryAdd hhead _ he hk hcols _ => exact .inl ⟨hhead, hk, _, he, hcols⟩
  | entryRemove _ he _ => exact .inr he
  | _ => simp_all [itemLww, fieldChange, createdChange, updatedChange, Change.register, addTables,
      markTables]

/-! ## Pairs -/

/-- A `put` agrees with itself. -/
theorem agree_put_self {c : Change} {cells : Cells} (he : c.effect = .put cells) : Agree c c :=
  .puts he he fun _ _ _ hx hy => Option.some.inj (hx.symm.trans hy)

/-- A put of `removed` and a put of other cells never disagree. -/
theorem removed_disjoint {cells : Cells} (hcols : "removed" ∉ cells.map Prod.fst) (c : String)
    (x y : Cell) (hx : cells.lookup c = some x) (hy : [("removed", Cell.int 1)].lookup c = some y) :
    x = y := by
  have h1 := lookup_isSome_iff.mp (by rw [hy]; rfl : (List.lookup c _).isSome = true)
  rw [List.map_singleton, List.mem_singleton] at h1
  rw [h1, lookup_eq_none_iff.mpr hcols] at hx
  cases hx

theorem createdChange_disjoint (a b : Op) :
    DisjointColumns (createdChange a) (updatedChange b) := by
  intro c hc
  have h : ∀ c ∈ ["created_at", "created_v", "created_site"],
      c ∉ ["updated_at", "updated_v", "updated_site"] := by decide
  exact h c hc

/-- **Any two changes of the task reducer agree**, when ops of one op id are one op. -/
theorem agree_of_taskChange {a b : Op} {c d : Change} (hid : a.opId = b.opId → a = b)
    (hc : TaskChange a c) (hd : TaskChange b d) : Agree c d := by
  by_cases hrow : SameRow c d
  swap
  · exact .apart hrow
  obtain ⟨ht, hk⟩ := hrow
  cases hc with
  | item _ hf h =>
    subst h
    obtain ⟨_, hg, rfl⟩ := hd.of_items ht.symm
    by_cases hfg : a.field = b.field
    · exact .same rfl rfl (by simp [hfg]) (by simp [hfg])
    · exact .beside rfl rfl (itemLww_disjoint hf hg hfg)
  | custom h =>
    subst h
    rw [hd.of_custom ht.symm]
    exact .same rfl rfl rfl rfl
  | created h =>
    subst h
    rcases hd.of_timestamps ht.symm with rfl | rfl
    · exact .same rfl rfl rfl rfl
    · exact .beside rfl rfl (createdChange_disjoint a b)
  | updated h =>
    subst h
    rcases hd.of_timestamps ht.symm with rfl | rfl
    · exact .beside rfl rfl (createdChange_disjoint b a).symm
    · exact .same rfl rfl rfl rfl
  | add hhead hta he hkey _ =>
    obtain ⟨hhead', _, col, hkey'⟩ := hd.of_adds (ht ▸ hta)
    rw [hk, hkey'] at hkey
    have hab : a = b := hid (by simpa using (Prod.mk.inj (Option.some.inj hkey)).2.symm)
    subst hab
    have hcd := Option.some.inj (hhead.symm.trans hhead')
    subst hcd
    exact agree_put_self he
  | mark htm he _ =>
    exact .puts he (hd.of_marks (ht ▸ htm)) fun _ _ _ hx _ => by cases hx
  | entryAdd hhead hte he hkey hcols _ =>
    rcases hd.of_entries (ht ▸ hte) with ⟨hhead', hkey', _⟩ | he'
    · rw [hk, hkey'] at hkey
      have hab : a = b := hid (by simpa using (Prod.mk.inj (Option.some.inj hkey)).2.symm)
      subst hab
      have hcd := Option.some.inj (hhead.symm.trans hhead')
      subst hcd
      exact agree_put_self he
    · exact .puts he he' (removed_disjoint hcols)
  | entryRemove hte he _ =>
    rcases hd.of_entries (ht ▸ hte) with ⟨_, _, cells, he', hcols⟩ | he'
    · exact .puts he he' fun col x y hx hy => (removed_disjoint hcols col y x hy hx).symm
    · exact .puts he he' fun _ _ _ hx hy => Option.some.inj (hx.symm.trans hy)

/-- A register of `op` compares on its coordinate. -/
theorem TaskChange.version {op : Op} {c : Change} (h : TaskChange op c) {cells : Cells}
    {version : List (String × Int)} {w : Wins} (he : c.effect = .register cells version w) :
    version.map Prod.snd = [op.lamport, op.site] := by
  cases h with
  | item _ _ h | custom h | created h | updated h =>
    subst h
    cases he
    rfl
  | add _ _ he' | mark _ he' | entryAdd _ _ he' | entryRemove _ he' =>
    rw [he'] at he
    cases he

/-- From Lamport number 1 on, every register of `op` is written on a bare row. -/
theorem TaskChange.opens {op : Op} {c : Change} (h : TaskChange op c) (hl : 1 ≤ op.lamport) :
    Opens flowDdl c := by
  cases h with
  | item _ hf h =>
    subst h
    exact opens_itemLww hf hl
  | custom h =>
    subst h
    intro cells version w he stored hs
    cases he
    cases hs
    exact List.Lex.rel (by simp only [Op.version]; omega)
  | created h | updated h =>
    subst h
    intro cells version w he stored hs
    cases he
    cases hs
  | add _ _ he' | mark _ he' | entryAdd _ _ he' | entryRemove _ he' =>
    intro cells version w he
    rw [he'] at he
    cases he

/-- **Two task ops fold in either order**: different op ids, different coordinates, Lamport numbers
from 1 on. -/
theorem compatible_of_taskChange {a b : Op} {c d : Change} (hid : a.opId ≠ b.opId)
    (hcoord : a.coordinate ≠ b.coordinate) (ha : 1 ≤ a.lamport) (hb : 1 ≤ b.lamport)
    (hc : TaskChange a c) (hd : TaskChange b d) : Compatible flowDdl c d := by
  cases agree_of_taskChange (fun h => absurd h hid) hc hd with
  | apart h => exact .apart h
  | puts hec hed h => exact .puts hec hed h
  | beside hec hed h => exact .beside hec hed h (hc.opens ha) (hd.opens hb)
  | same hec hed hcells hversion =>
    refine .same hec hed hcells hversion fun h => hcoord ?_
    rw [hc.version hec, hd.version hed, List.cons.injEq, List.cons.injEq] at h
    exact Prod.ext h.1 h.2.1

/-! ## Logs of task ops -/

theorem taskChange_of_mem_changesOf {op : Op} {c : Change} (hc : c ∈ taskReducer.changesOf op) :
    TaskChange op c := by
  unfold Reducer.changesOf at hc
  split_ifs at hc with hf
  · unfold Reducer.folds at hf
    simp only [Bool.and_eq_true] at hf
    exact taskChange_of_mem_changes hf.2 hc
  · cases hc

theorem folds_of_mem_changesOf {r : Reducer} {op : Op} {c : Change} (hc : c ∈ r.changesOf op) :
    r.folds op = true := by
  unfold Reducer.changesOf at hc
  split_ifs at hc with hf
  · exact hf
  · cases hc

/-- Every folded change lands in a view table. -/
theorem TaskChange.table_mem {op : Op} {c : Change} (h : TaskChange op c) :
    c.table ∈ viewTables := by
  have hadd : ∀ t ∈ addTables, t ∈ viewTables := by decide
  have hmark : ∀ t ∈ markTables, t ∈ viewTables := by decide
  cases h with
  | item _ _ h => subst h; exact (by decide : "items" ∈ viewTables)
  | custom h => subst h; exact (by decide : "custom_fields" ∈ viewTables)
  | created h | updated h => subst h; exact (by decide : "item_timestamps" ∈ viewTables)
  | add _ ht => exact hadd _ ht
  | mark ht => exact hmark _ ht
  | entryAdd _ ht | entryRemove ht => rw [ht]; decide

/-- Two task ops of different ids and coordinates fold in either order, when the ones that fold
carry Lamport numbers from 1 on. -/
theorem taskFold_commute {a b : Op} (hid : a.opId ≠ b.opId) (hcoord : a.coordinate ≠ b.coordinate)
    (ha : taskReducer.folds a = true → 1 ≤ a.lamport)
    (hb : taskReducer.folds b = true → 1 ≤ b.lamport) : Commute taskReducer.foldView a b := by
  refine Reducer.foldView_commute fun c hc d hd => ?_
  have hca := taskChange_of_mem_changesOf hc
  have hdb := taskChange_of_mem_changesOf hd
  exact step_commute hca.wf hdb.wf (compatible_of_taskChange hid hcoord
    (ha (folds_of_mem_changesOf hc)) (hb (folds_of_mem_changesOf hd)) hca hdb)

/-- **flow's reducer keeps the reducer contract.** -/
theorem taskReducer_lawful : taskReducer.Lawful where
  replays a b hid c hc d hd := by
    have hca := taskChange_of_mem_changesOf hc
    have hdb := taskChange_of_mem_changesOf hd
    exact step_replays hca.wf hdb.wf (agree_of_taskChange hid hca hdb)
  commute a b hid hcoord ha hb := taskFold_commute hid hcoord ha hb

/-- A fold into empty view tables leaves every other table empty. -/
theorem taskFold_table {ops : List Op} {t : String} {k : Cells} (ht : t ∉ viewTables) :
    ops.foldl taskReducer.foldView (fun _ _ => none) t k = none := by
  rw [Reducer.foldl_foldView_eq]
  refine List.foldlRecOn (motive := fun v : View => v t k = none) _ _ rfl fun v hv c hc => ?_
  obtain ⟨op, _, hc⟩ := List.mem_flatMap.mp hc
  have hne : t ≠ c.table := fun h => ht (h ▸ (taskChange_of_mem_changesOf hc).table_mem)
  simp [View.step, hne, hv]

end NexusFlow.Core
