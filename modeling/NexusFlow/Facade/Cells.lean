import NexusFlow.Core.Merging
import NexusFlow.Facade.Effects
import NexusFlow.Lib.Returns

/-!
# Cells written on a store that merges

What a series of register writes leaves of the items, on a store with any history of merges: a `Plan`
names the cells written and what each was given last. `Changed plan s s'` says that everything else is
as it was, and each cell of the plan as given, unless a received op pins it (`Core/Merging.lean`).

* `Changed.step`, `Changed.setField`: one write more.
* `Changed.getItem`: the items read back.
-/

namespace NexusFlow.Facade

open NexusFlow.Core NexusFlow.Foundation NexusFlow.Lib Fallible Verb

/-! ## Items as registers -/

/-- The item of a row of registers. -/
def ItemRow.ofRegisters (id : String) (parent : Option String) (regs : String → Cell) : ItemRow where
  id := id
  itemType := cellText (regs "type")
  title := cellText (regs "title")
  completionCriterion := cellText (regs "completion_criterion")
  description := cellText (regs "description")
  design := cellText (regs "design")
  status := cellText (regs "status")
  priority := cellText (regs "priority")
  due := cellText (regs "due")
  deferUntil := cellText (regs "defer_until")
  assignee := cellText (regs "assignee")
  belongsTo := parent
  closingComment := cellText (regs "closing_comment")
  deleted := cellText (regs "deleted")
  archived := cellText (regs "archived")
  closedAt := cellText (regs "closed_at")

theorem getItem_eq (db : Db) (id : String) : getItem db id =
    ((sheetOf db).items id).map (ItemRow.ofRegisters id (presentParent db id)) := by
  change _ = ((db.get "items" (itemKey id)).map registers).map _
  unfold getItem
  rw [Option.map_map]
  rfl

/-! ## Plans -/

/-- The cells a series of writes sets: by item and column, what was given last. -/
abbrev Plan : Type := String → String → Option (Option String)

namespace Plan

/-- Nothing is written. -/
def none : Plan := fun _ _ => Option.none

/-- One cell more. -/
def set (W : Plan) (id field : String) (value : Option String) : Plan :=
  fun x f => if x = id ∧ f = field then some value else W x f

end Plan

/-- The item with the cells of its row of a plan. -/
def ItemRow.written (W : String → Option (Option String)) (i : ItemRow) : ItemRow where
  id := i.id
  itemType := (W "type").getD i.itemType
  title := (W "title").getD i.title
  completionCriterion := (W "completion_criterion").getD i.completionCriterion
  description := (W "description").getD i.description
  design := (W "design").getD i.design
  status := (W "status").getD i.status
  priority := (W "priority").getD i.priority
  due := (W "due").getD i.due
  deferUntil := (W "defer_until").getD i.deferUntil
  assignee := (W "assignee").getD i.assignee
  belongsTo := i.belongsTo
  closingComment := (W "closing_comment").getD i.closingComment
  deleted := (W "deleted").getD i.deleted
  archived := (W "archived").getD i.archived
  closedAt := (W "closed_at").getD i.closedAt

/-- `n` writes took the store from `s` to `s'`, and set the cells of the plan. -/
structure Changed (n : Nat) (W : Plan) (s s' : Store) : Prop where
  merging : Merging s'
  length : s'.file.ops.length = s.file.ops.length + n
  pins : ∀ x f, Pinned s' x f ↔ Pinned s x f
  scans : ∀ t, t ≠ "items" → t ≠ "item_timestamps" → s'.file.views.scan t = s.file.views.scan t
  order : (s'.file.views.scan "items").map (· "id") = (s.file.views.scan "items").map (· "id")
  absent : ∀ x, (sheetOf s.file.views).items x = none → (sheetOf s'.file.views).items x = none
  items : ∀ x regs, (sheetOf s.file.views).items x = some regs → ∃ regs',
    (sheetOf s'.file.views).items x = some regs' ∧
    (∀ f, W x f = none → regs' f = regs f) ∧
    ∀ f v, W x f = some v → ¬ Pinned s x f → regs' f = .ofOption v

namespace Changed

variable {n : Nat} {W : Plan} {s s' s'' : Store}

theorem refl (hs : Merging s) : Changed 0 .none s s where
  merging := hs
  length := rfl
  pins _ _ := Iff.rfl
  scans _ _ _ := rfl
  order := rfl
  absent _ h := h
  items _ regs h := ⟨regs, h, fun _ _ => rfl, fun _ _ hw => by cases hw⟩

theorem setWallClock (hs : Merging s) (now : String) :
    Changed 0 .none s (Core.setWallClock now s).2 where
  merging := hs.setWallClock now
  length := rfl
  pins _ _ := Iff.rfl
  scans _ _ _ := rfl
  order := rfl
  absent _ h := h
  items _ regs h := ⟨regs, h, fun _ _ => rfl, fun _ _ hw => by cases hw⟩

/-- An item that was there still is. -/
theorem items_ne (h : Changed n W s s') {x : String} (hx : (sheetOf s.file.views).items x ≠ none) :
    (sheetOf s'.file.views).items x ≠ none := by
  obtain ⟨regs, hregs⟩ := Option.ne_none_iff_exists'.mp hx
  obtain ⟨regs', hregs', _⟩ := h.items x regs hregs
  rw [hregs']
  exact Option.some_ne_none regs'

/-- **One write more.** -/
theorem step (h : Changed n W s s') {id field : String} {value : Option String}
    (hid : (sheetOf s.file.views).items id ≠ none)
    (hset : SetsCell s' s'' id field (.ofOption value)) :
    Changed (n + 1) (W.set id field value) s s'' where
  merging := hset.merging
  length := by rw [hset.grows, h.length, add_assoc]
  pins x f := (hset.pins x f).trans (h.pins x f)
  scans t ht ht' := (hset.scans t ht ht').trans (h.scans t ht ht')
  order := hset.order.trans h.order
  absent x hx := by
    have hne : x ≠ id := by
      rintro rfl
      exact hid hx
    rw [hset.others x hne]
    exact h.absent x hx
  items x regs hregs := by
    obtain ⟨regs', hregs', hsame, hgiven⟩ := h.items x regs hregs
    by_cases hx : x = id
    · subst hx
      obtain ⟨cell, hcell, hvalue⟩ := hset.item regs' hregs'
      refine ⟨_, hcell, fun f hf => ?_, fun f v hf hpin => ?_⟩
      · have hfield : f ≠ field := by
          rintro rfl
          simp [Plan.set] at hf
        rw [Function.update_of_ne hfield]
        exact hsame f (by simpa [Plan.set, hfield] using hf)
      · by_cases hfield : f = field
        · subst hfield
          rw [Function.update_self, hvalue fun hpin' => hpin ((h.pins _ _).mp hpin')]
          simp only [Plan.set, and_self, if_true, Option.some.injEq] at hf
          rw [hf]
        · rw [Function.update_of_ne hfield]
          exact hgiven f v (by simpa [Plan.set, hfield] using hf) hpin
    · refine ⟨regs', (hset.others x hx).trans hregs', fun f hf => ?_, fun f v hf hpin => ?_⟩
      · exact hsame f (by simpa [Plan.set, hx] using hf)
      · exact hgiven f v (by simpa [Plan.set, hx] using hf) hpin

/-! ## Reads afterwards -/

theorem presentParent_eq (h : Changed n W s s') (x : String) :
    presentParent s'.file.views x = presentParent s.file.views x := by
  unfold presentParent removedTags
  rw [h.scans "edge_adds" (by decide) (by decide), h.scans "edge_removes" (by decide) (by decide)]

theorem parentsOf_eq (h : Changed n W s s') (x : String) :
    parentsOf s'.file.views x = parentsOf s.file.views x := by
  unfold parentsOf targetsOf
  rw [h.scans "edge_adds" (by decide) (by decide), h.scans "edge_removes" (by decide) (by decide)]

/-- **An item read back**: the cells of the plan as given, where none of them is pinned. -/
theorem getItem_eq (h : Changed n W s s') {x : String}
    (hpin : ∀ f v, W x f = some v → ¬ Pinned s x f) :
    getItem s'.file.views x = (getItem s.file.views x).map (·.written (W x)) := by
  rw [Facade.getItem_eq, Facade.getItem_eq, h.presentParent_eq]
  cases hx : (sheetOf s.file.views).items x with
  | none =>
    rw [h.absent x hx]
    rfl
  | some regs =>
    obtain ⟨regs', hregs', hsame, hgiven⟩ := h.items x regs hx
    have hcell (f : String) : cellText (regs' f) = (W x f).getD (cellText (regs f)) := by
      cases hf : W x f with
      | none => rw [hsame f hf, Option.getD_none]
      | some v =>
        rw [hgiven f v hf (hpin f v hf), Option.getD_some]
        cases v <;> rfl
    rw [hregs']
    simp only [Option.map_some, ItemRow.ofRegisters, ItemRow.written, hcell]

/-- The item's own cell, where the plan leaves it. -/
theorem liveItem_isSome (h : Changed n W s s') {x : String} (hdel : W x "deleted" = none) :
    (liveItem s'.file.views x).isSome = (liveItem s.file.views x).isSome := by
  unfold liveItem
  rw [Facade.getItem_eq, Facade.getItem_eq]
  cases hx : (sheetOf s.file.views).items x with
  | none =>
    rw [h.absent x hx]
    rfl
  | some regs =>
    obtain ⟨regs', hregs', hsame, _⟩ := h.items x regs hx
    have hlive : (ItemRow.ofRegisters x (presentParent s'.file.views x) regs').isLive =
        (ItemRow.ofRegisters x (presentParent s.file.views x) regs).isLive := by
      simp only [ItemRow.isLive, ItemRow.ofRegisters, hsame "deleted" hdel]
    rw [hregs', Option.map_some, Option.map_some, Option.filter_some, Option.filter_some, hlive]
    split_ifs <;> rfl

end Changed

/-! ## Statements of a verb -/

theorem look_bind {α β : Type} (query : Db → α) (k : α → Verb β) (s : Store) :
    (look query >>= k) s = k (query s.file.views) s := rfl

/-- `stamp_now`, where the date library knows the instant. -/
theorem stampNow_of_parses {env : Env} {now : String} (hnow : env.calendar.parses now = true)
    (s : Store) : stampNow env now s = (some (.ok ()), (Core.setWallClock now s).2) := by
  have hdate : Validate.isoDate env.calendar now = .ok now := by
    unfold Validate.isoDate
    rw [if_pos hnow]
  unfold stampNow
  rw [bind_of_ok (ofExcept_of_ok hdate s)]
  exact lift_of_some rfl

/-- `set_field` on an item that is there, after others. -/
theorem Changed.setField {n : Nat} {W : Plan} {s s' : Store} (h : Changed n W s s')
    {author : String} (hauthor : isAttributable author = true)
    (hroom : s.file.ops.length + n ≤ roomyLog) {id field : String} (hfield : field ∈ itemLwwFields)
    (value : Option String) (hid : (sheetOf s.file.views).items id ≠ none) :
    ∃ s'', setField id field value author s' = (some (.ok ()), s'') ∧
      Changed (n + 1) (W.set id field value) s s'' := by
  obtain ⟨s'', hw, hset⟩ := h.merging.setField (h.length ▸ hroom) hauthor hfield value
    (h.items_ne hid)
  exact ⟨s'', lift_of_some hw, h.step hid hset⟩

/-! ## Counting items -/

/-- An item of the views was written by an op of the log. -/
theorem target_of_item {ops : List Op} {id : String}
    (h : ops.foldl taskReducer.foldView (fun _ _ => none) "items" (itemKey id) ≠ none) :
    id ∈ ops.map Op.targetId := by
  induction ops using List.reverseRecOn with
  | nil => exact absurd rfl h
  | append_singleton ops op ih =>
    rw [List.foldl_append, List.foldl_cons, List.foldl_nil] at h
    rw [List.map_append, List.mem_append]
    by_cases hold : ops.foldl taskReducer.foldView (fun _ _ => none) "items" (itemKey id) = none
    · refine .inr ?_
      cases hf : taskReducer.folds op with
      | false =>
        rw [Reducer.foldView_of_not_folds hf] at h
        exact absurd hold h
      | true =>
        by_cases hk : op.targetKind = "item"
        · rw [foldView_item hf hk] at h
          split_ifs at h with hid
          · rw [itemKey_inj.mp hid, List.map_singleton]
            exact List.mem_singleton_self _
          · exact absurd hold h
        · rw [foldView_items hk] at h
          exact absurd hold h
    · exact .inl (ih hold)

theorem items_of_live {db : Db} {x : String} (h : (liveItem db x).isSome = true) :
    (sheetOf db).items x ≠ none := by
  obtain ⟨i, hi⟩ := Option.isSome_iff_exists.mp h
  exact items_of_liveItem hi

/-- **There are no more items than ops.** -/
theorem length_le_log {s : Store} (hs : Merging s) {ids : List String} (hids : ids.Nodup)
    (h : ∀ x ∈ ids, (sheetOf s.file.views).items x ≠ none) :
    ids.length ≤ s.file.ops.length := by
  have hsub : ids ⊆ s.file.log.map Op.targetId := by
    intro x hx
    refine target_of_item fun hnone => h x hx ?_
    change (s.file.views.get "items" (itemKey x)).map registers = none
    have hfolded := hs.folded
    unfold File.Folded at hfolded
    rw [hfolded, hnone]
    rfl
  have hlen := (hids.subperm hsub).length_le
  unfold File.log at hlen
  rwa [List.length_map, List.length_map] at hlen

end NexusFlow.Facade
