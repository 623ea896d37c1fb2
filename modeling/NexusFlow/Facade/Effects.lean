import NexusFlow.Core.Sheet
import NexusFlow.Facade.Write

/-!
# What the verbs do to the sheet

Each verb of `Write.lean` on a replica that merges nothing: what it has found in the views when it
returns, and the sheet it leaves. A refused call leaves the sheet as it was.

`Led R s s'` is a write that moved the sheet as the relation `R` says; `Acts v f` a part of a verb that
never refuses and applies `f`. Parts compose (`Acts.bind`), and a verb is its checks, then one such
part (`wp_acts`).
-/

namespace NexusFlow.Facade

open NexusFlow.Core NexusFlow.Foundation NexusFlow.Lib Fallible Verb

/-! ## Moves of the sheet -/

/-- The sheet moved as `R` says. -/
structure Led (R : Sheet → Sheet → Prop) (s s' : Store) : Prop where
  alone : Alone s'
  grows : s.file.log.length ≤ s'.file.log.length
  sheet : s'.file.log.length ≤ shortLog → R (sheetOf s.file.views) (sheetOf s'.file.views)

theorem led_of_wrote {R : Sheet → Sheet → Prop} {f : Sheet → Sheet} {s s' : Store}
    (h : Wrote f s s') (hR : R (sheetOf s.file.views) (f (sheetOf s.file.views))) : Led R s s' :=
  ⟨h.alone, h.grows, fun hshort => h.sheet hshort ▸ hR⟩

theorem Led.mono {R T : Sheet → Sheet → Prop} {s s' : Store} (h : Led R s s')
    (hT : ∀ b, R (sheetOf s.file.views) b → T (sheetOf s.file.views) b) : Led T s s' :=
  ⟨h.alone, h.grows, fun hshort => hT _ (h.sheet hshort)⟩

theorem Led.trans {R T U : Sheet → Sheet → Prop} {s₁ s₂ s₃ : Store} (h₁ : Led R s₁ s₂)
    (h₂ : Led T s₂ s₃) (hU : ∀ a b c, R a b → T b c → U a c) : Led U s₁ s₃ :=
  ⟨h₂.alone, h₁.grows.trans h₂.grows,
    fun hshort => hU _ _ _ (h₁.sheet (h₂.grows.trans hshort)) (h₂.sheet hshort)⟩

theorem Led.refl {s : Store} (hs : Alone s) : Led Eq s s := ⟨hs, le_rfl, fun _ => rfl⟩

/-! ## Reads, on the sheet -/

/-- **An item read back** is the sheet's. -/
theorem getItem_eq_some {db : Db} {id : String} {i : ItemRow} (h : getItem db id = some i) :
    ∃ regs, (sheetOf db).items id = some regs ∧ i.id = id ∧ i.itemType = cellText (regs "type") ∧
      i.status = cellText (regs "status") ∧ i.closedAt = cellText (regs "closed_at") := by
  obtain ⟨row, hrow, rfl⟩ := Option.map_eq_some_iff.mp h
  refine ⟨registers row, ?_, rfl, ?_⟩
  · change (db.get "items" (itemKey id)).map registers = _
    change db.get "items" (itemKey id) = _ at hrow
    rw [hrow]
    rfl
  · simp [registers, itemLwwFields]

theorem getItem_eq_none {db : Db} {id : String} :
    getItem db id = none ↔ (sheetOf db).items id = none := by
  unfold getItem
  change _ ↔ (db.get "items" (itemKey id)).map registers = none
  rw [Option.map_eq_none_iff, Option.map_eq_none_iff]

theorem liveItem_eq_some {db : Db} {id : String} {i : ItemRow} (h : liveItem db id = some i) :
    getItem db id = some i := (Option.filter_eq_some_iff.mp h).1

/-! ## Parts that never refuse -/

/-- The part of a verb that writes: it does not refuse, and applies `f` to the sheet. -/
def Acts {α : Type} (v : Verb α) (f : Sheet → Sheet) : Prop :=
  ∀ s, Alone s → v.wp (fun _ s' => Wrote f s s') (fun _ _ => False) s

section Acts

variable {α β : Type} {f g : Sheet → Sheet}

theorem Acts.write {m : Write α} (h : Does m f) : Acts (Verb.write m) f := by
  intro s hs
  exact wp_lift.mpr fun a ha => h s hs a ha

theorem Acts.pure (a : α) : Acts (Pure.pure a : Verb α) id := fun _ hs => wp_pure.mpr (.refl hs)

/-- **Sequencing.** -/
theorem Acts.bind {v : Verb α} {k : α → Verb β} (hv : Acts v f) (hk : ∀ a, Acts (k a) g) :
    Acts (v >>= k) fun sh => g (f sh) := by
  intro s hs
  rw [wp_bind]
  refine wp_mono (hv s hs) (fun a s' h => ?_) fun _ _ h => h
  exact wp_mono (hk a s' h.alone) (fun b s'' h' => h.trans h') fun _ _ h => h

/-- A loop, each turn with its own effect. -/
theorem Acts.forM_foldl {γ : Type} {l : List γ} {k : γ → Verb PUnit} {eff : Sheet → γ → Sheet}
    (hk : ∀ b, Acts (k b) (eff · b)) : Acts (l.forM k) fun sh => l.foldl eff sh := by
  induction l with
  | nil => exact .pure PUnit.unit
  | cons b l ih => exact .bind (g := fun sh => l.foldl eff sh) (hk b) fun _ => ih

/-- A loop that leaves the sheet. -/
theorem Acts.forM {γ : Type} {l : List γ} {k : γ → Verb PUnit} (hk : ∀ b, Acts (k b) id) :
    Acts (l.forM k) id := by
  induction l with
  | nil => exact .pure PUnit.unit
  | cons b l ih => exact .bind (f := id) (g := id) (hk b) fun _ => ih

/-- A verb whose writes start here. -/
theorem wp_acts {v : Verb α} {k : α → Verb β} {Q : β → Store → Prop} {E : NxfError → Store → Prop}
    {s₀ s : Store} (hv : Acts v f) (h : Wrote g s₀ s)
    (hk : ∀ a s', Wrote (fun sh => f (g sh)) s₀ s' → (k a).wp Q E s') : (v >>= k).wp Q E s := by
  rw [wp_bind]
  exact wp_mono (hv s h.alone) (fun a s' h' => hk a s' (h.trans h')) fun _ _ h => h.elim

end Acts

/-! ### The parts -/

/-- A register set to a text, or cleared. -/
theorem acts_setField (id field : String) (value : Option String) (author : String) :
    Acts (setField id field value author) (·.set id field (.ofOption value)) :=
  .write (does_setFieldMerge id field value author .lww)

/-- A register set only if a value was given. -/
def setGiven (id field : String) (value : Option String) (sh : Sheet) : Sheet :=
  match value with
  | some v => sh.set id field (.text v)
  | none => sh

theorem acts_setIfGiven (id field : String) (value : Option String) (actor : String) :
    Acts (setIfGiven id field value actor) (setGiven id field value) := by
  cases value with
  | none => exact .pure ()
  | some v => exact acts_setField id field (some v) actor

theorem acts_customWrite (itemId actor : String) (w : CustomWrite) :
    Acts (w.apply itemId actor) id := by
  cases w with
  | set name value strategy => exact .write (does_setCustomFieldMerge itemId name _ actor strategy)
  | clearList name => exact .write (does_clearFieldEntries itemId name actor)

/-- A parent edge written as its mode says. -/
def putParent (id : String) (parent : Option (String × ParentWriteMode)) (sh : Sheet) : Sheet :=
  match parent with
  | some (p, .replace) => (sh.clearParents id).addEdge id p .parent
  | some (p, .add) => sh.addEdge id p .parent
  | none => sh

theorem acts_writeOptionalParent (id actor : String) (parent : Option (String × ParentWriteMode)) :
    Acts (writeOptionalParent id actor parent) (putParent id parent) := by
  cases parent with
  | none => exact .pure ()
  | some p =>
    obtain ⟨p, mode⟩ := p
    cases mode with
    | replace => exact .write (does_setParent id p actor)
    | add => exact .write (does_addEdge id p .parent actor)

/-- `closed_at` after an update. -/
def stampClosed (id now : String) (wasClosedAt newStatus : Option String) (sh : Sheet) : Sheet :=
  match newStatus with
  | some status =>
    if status = "closed" then sh.set id "closed_at" (.text now)
    else if wasClosedAt.isSome then sh.set id "closed_at" .null
    else sh
  | none => sh

theorem acts_ite {α : Type} {c : Prop} [Decidable c] {v w : Verb α} {f g : Sheet → Sheet}
    (hv : Acts v f) (hw : Acts w g) :
    Acts (if c then v else w) fun sh => if c then f sh else g sh := by
  split_ifs
  · exact hv
  · exact hw

theorem acts_setWhen (c : Bool) (itemId field : String) (value : Option String)
    (author : String) : Acts (setWhen c itemId field value author)
      fun sh => if c then sh.set itemId field (.ofOption value) else sh :=
  acts_ite (g := id) (acts_setField itemId field value author) (.pure ())

theorem acts_syncClosedAt (itemId now actor : String) (wasClosedAt newStatus : Option String) :
    Acts (syncClosedAt itemId now actor wasClosedAt newStatus)
      (stampClosed itemId now wasClosedAt newStatus) := by
  cases newStatus with
  | none => exact .pure ()
  | some status =>
    exact acts_ite (acts_setField itemId "closed_at" (some now) actor) <|
      acts_setWhen _ itemId "closed_at" none actor

/-! ## The checks -/

section Checks

variable {s : Store}

theorem reads_look {α : Type} (query : Db → α) :
    Reads (look query : Verb α) (· = query s.file.views) s := .gets

/-- A read in front. -/
theorem wp_look {α β : Type} {query : Db → α} {k : α → Verb β} {Q : β → Store → Prop}
    {E : NxfError → Store → Prop} :
    (look query >>= k).wp Q E s ↔ (k (query s.file.views)).wp Q E s := by
  unfold look
  rw [wp_bind, wp_gets]

theorem reads_walk {α : Type} (query : Db → Option α) :
    Reads (walk query : Verb α) (query s.file.views = some ·) s := by
  refine (reads_look query).bind fun o ho => ?_
  cases o with
  | none => exact .unreachable
  | some a => exact .pure ho.symm

theorem reads_checked {α : Type} (query : Db → Result α) :
    Reads (checked query : Verb α) (query s.file.views = .ok ·) s :=
  (reads_look query).bind fun _ hx => hx ▸ .ofExcept

theorem reads_requireItem (id : String) :
    Reads (requireItem id) (liveItem s.file.views id = some ·) s :=
  (reads_look _).bind fun _ ho => ho ▸ .orThrow

theorem reads_requireLive (id role : String) :
    Reads (requireLive id role) (fun _ => (liveItem s.file.views id).isSome = true) s :=
  (reads_look _).bind fun _ ho => ho ▸ .ensure

/-- What `check_parent` has found when it accepts a parent. -/
structure ParentChecked (env : Env) (m : RelationshipMatrix) (db : Db)
    (childId childType parentId : String) (mode : ParentWriteMode) : Prop where
  ne : parentId ≠ childId
  acyclic : reaches (parentsOf db) childId env.fuel [parentId] [] = some false
  edge : ∃ parent depth, liveItem db parentId = some parent ∧
    (m.maxDepth.isSome = true → ∃ above below, depthAbove env.fuel db parentId = some above ∧
      heightBelow env.fuel db childId = some below ∧ depth = above + below) ∧
    m.validateParent (parent.itemType.getD "") childType
      ((parentsOf db childId).filter (· != parentId)).length depth = .ok mode

theorem validateEdge_ok {m : RelationshipMatrix} {childId parentId parentType childType : String}
    {existing depth : Nat} {mode : ParentWriteMode}
    (h : validateEdge m childId parentId parentType childType existing depth = .ok mode) :
    m.validateParent parentType childType existing depth = .ok mode := by
  unfold validateEdge at h
  split at h
  · next hm =>
    cases h
    exact hm
  · cases h

theorem reads_depthThrough (env : Env) (m : RelationshipMatrix) (childId parentId : String) :
    Reads (depthThrough env m childId parentId) (fun depth => m.maxDepth.isSome = true →
      ∃ above below, depthAbove env.fuel s.file.views parentId = some above ∧
        heightBelow env.fuel s.file.views childId = some below ∧ depth = above + below) s := by
  unfold depthThrough
  split_ifs with hm
  · exact (reads_walk _).bind fun above ha => (reads_walk _).bind fun below hb =>
      .pure fun _ => ⟨above, below, ha, hb, rfl⟩
  · exact .pure fun h => absurd h hm

theorem reads_checkParent (env : Env) (m : RelationshipMatrix)
    (childId childType parentId : String) :
    Reads (checkParent env m childId childType parentId)
      (ParentChecked env m s.file.views childId childType parentId) s := by
  unfold checkParent
  refine Reads.ensure.bind fun _ hne => ?_
  refine (reads_look _).bind fun o ho => ?_
  subst ho
  refine Reads.orThrow.bind fun parent hparent => ?_
  refine (reads_walk _).bind fun cyclic hcyclic => ?_
  refine Reads.ensure.bind fun _ hacyclic => ?_
  refine (reads_look _).bind fun existing hexisting => ?_
  refine (reads_depthThrough env m childId parentId).bind fun depth hdepth => ?_
  refine Reads.ofExcept.mono fun mode hmode => ⟨by simpa using hne, ?_, parent, depth, hparent,
    hdepth, ?_⟩
  · simpa using (by simpa using hacyclic : cyclic = false) ▸ hcyclic
  · subst hexisting
    exact validateEdge_ok hmode

theorem reads_customMergeStrategy (m : MergeStrategy) :
    Reads (customMergeStrategy m) (fun _ => True) s := by
  cases m with
  | lww => exact .pure trivial
  | crdtText => exact .pure trivial
  | orSet => exact .unreachable

theorem reads_prepareCustomSets (env : Env) (cfg : PluginConfig) (itemType : String)
    (itemId : Option String) (pairs : List (String × String)) :
    Reads (prepareCustomSets env cfg itemType itemId pairs) (fun _ => True) s := by
  refine Reads.mapM (P := fun _ => True) fun pair => ?_
  refine Reads.orThrow.bind fun decl _ => ?_
  unfold prepareCustomSet
  refine Reads.ofExcept.bind fun _ _ => ?_
  split
  · exact Reads.ensure.bind fun _ _ => .pure trivial
  · exact (reads_checked _).bind fun _ _ =>
      (reads_customMergeStrategy _).bind fun _ _ => .pure trivial

theorem reads_mintId (env : Env) (pre : String) :
    Reads (mintId env pre) (getItem s.file.views · = none) s := by
  refine (reads_look _).bind fun o ho => ?_
  subst ho
  refine Reads.orThrow.mono fun id hid => ?_
  split_ifs at hid
  all_goals
    have := List.find?_some hid
    simpa using this

theorem reads_checkOptionalParent (env : Env) (m : RelationshipMatrix) (id itemType : String)
    (parent : Option String) :
    Reads (checkOptionalParent env m id itemType parent) (fun r => r.map Prod.fst = parent ∧
      ∀ p mode, r = some (p, mode) →
        ParentChecked env m s.file.views id itemType p mode) s := by
  cases parent with
  | none => exact .pure ⟨rfl, fun _ _ h => by cases h⟩
  | some p =>
    refine (reads_checkParent env m id itemType p).bind fun mode hmode => .pure ⟨rfl, ?_⟩
    intro p' mode' h
    cases h
    exact hmode

theorem reads_checkRetype (m : RelationshipMatrix) (id : String) (typeWrite : Option String) :
    Reads (checkRetype m id typeWrite) (fun _ => ∀ t, typeWrite = some t →
      revalidateTypeChange m id t s.file.views = .ok ()) s := by
  cases typeWrite with
  | none => exact .pure fun _ h => by cases h
  | some t =>
    refine (reads_checked _).mono fun _ h t' ht' => ?_
    cases ht'
    exact h

end Checks

/-! ## create, update, close -/

section Verbs

variable {s : Store} {β : Type}

/-- A refusal that leaves the sheet. -/
def Refused (s : Store) : NxfError → Store → Prop := fun _ s' => Led Eq s s'

/-- `stamp_now` in front of the writes. -/
theorem wp_stampNow {env : Env} {now : String} {k : Unit → Verb β} {Q : β → Store → Prop}
    (hs : Alone s) (hk : ∀ s', Wrote id s s' → (k ()).wp Q (Refused s) s') :
    (stampNow env now >>= k).wp Q (Refused s) s := by
  unfold stampNow
  rw [wp_bind]
  refine wp_reads Reads.ofExcept (fun _ => .refl hs) fun _ _ => ?_
  exact wp_lift.mpr fun a ha => hk _ (does_setWallClock now s hs a ha)

/-- `read_back` at the end: it fails only if the item is not there. -/
theorem wp_readBack_led {R : Sheet → Sheet → Prop} {s' : Store} {id : String}
    {Q : ItemRow → Store → Prop} (h : Led R s s')
    (hitem : ∀ b, R (sheetOf s.file.views) b → b.items id ≠ none)
    (hQ : ∀ i, Q i s') : (readBack id).wp Q (Refused s) s' := by
  unfold readBack
  rw [wp_look, wp_orThrow]
  refine ⟨fun i _ => hQ i, fun hnone => ⟨h.alone, h.grows, fun hshort => ?_⟩⟩
  exact absurd (getItem_eq_none.mp hnone) (hitem _ (h.sheet hshort))

theorem wp_readBack {f : Sheet → Sheet} {s' : Store} {id : String} {Q : ItemRow → Store → Prop}
    (h : Wrote f s s') (hitem : (f (sheetOf s.file.views)).items id ≠ none)
    (hQ : ∀ i, Q i s') : (readBack id).wp Q (Refused s) s' :=
  wp_readBack_led (R := fun a b => b = f a) (led_of_wrote h rfl) (fun _ hb => hb ▸ hitem) hQ

/-- The registers `create` sets, in its order. -/
def createItemSheet (id itemType title description priority : String)
    (design dod due defer : Option String) (sh : Sheet) : Sheet :=
  setGiven id "defer_until" defer (setGiven id "due" due (setGiven id "completion_criterion" dod
    (setGiven id "design" design
      ((((((sh.set id "type" (.text itemType)).set id "title" (.text title)).set id "status"
        (.text "open")).set id "description" (.text description)).set id "priority"
          (.text priority))))))

/-- The dependencies `create` adds. -/
def addDeps (id : String) (dependsOn : List String) (sh : Sheet) : Sheet :=
  dependsOn.foldl (fun sh dep => sh.addEdge id dep .dep) sh

theorem acts_dependsOn (itemId actor : String) (dependsOn : List String) :
    Acts (dependsOn.forM fun dep => write (addEdge itemId dep .dep actor))
      (addDeps itemId dependsOn) :=
  .forM_foldl fun dep => .write (does_addEdge itemId dep .dep actor)

/-- What `create` leaves. -/
def createSheet (id itemType title description priority : String)
    (design dod due defer : Option String) (parent : Option (String × ParentWriteMode))
    (dependsOn : List String) (sh : Sheet) : Sheet :=
  addDeps id dependsOn (putParent id parent
    (createItemSheet id itemType title description priority design dod due defer sh))

/-- What `create` has found and done when it returns. -/
structure Created (env : Env) (cfg : PluginConfig) (ty title : String) (new : NewItem)
    (s s' : Store) : Prop where
  effect : ∃ id itemType priority due defer parent,
    getItem s.file.views id = none ∧ cfg.resolveItemType ty = .ok itemType ∧
    (∀ d ∈ new.dependsOn, (liveItem s.file.views d).isSome = true) ∧
    (∀ p mode, parent = some (p, mode) →
      ParentChecked env cfg.types s.file.views id itemType p mode) ∧
    Wrote (createSheet id itemType title new.description priority new.design new.dod due defer
      parent new.dependsOn) s s'

theorem items_set_self (sh : Sheet) (id field : String) (value : Cell) :
    (sh.set id field value).items id ≠ none := by
  simp [Sheet.set]

theorem items_set_ne {sh : Sheet} {id id' field : String} {value : Cell} (h : sh.items id' ≠ none) :
    (sh.set id field value).items id' ≠ none := by
  by_cases hid : id' = id
  · subst hid
    exact items_set_self _ _ _ _
  · simpa [Sheet.set, Function.update_of_ne hid] using h

theorem items_setGiven_ne {sh : Sheet} {id id' field : String} {value : Option String}
    (h : sh.items id' ≠ none) : (setGiven id field value sh).items id' ≠ none := by
  cases value with
  | none => exact h
  | some v => exact items_set_ne h

@[simp] theorem putParent_items (id : String) (parent : Option (String × ParentWriteMode))
    (sh : Sheet) : (putParent id parent sh).items = sh.items := by
  unfold putParent
  split <;> rfl

@[simp] theorem addDeps_items (id : String) (dependsOn : List String) (sh : Sheet) :
    (addDeps id dependsOn sh).items = sh.items := by
  unfold addDeps
  induction dependsOn generalizing sh with
  | nil => rfl
  | cons d deps ih => rw [List.foldl_cons, ih, Sheet.addEdge_items]

/-- **`create`** on a replica that merges nothing. -/
theorem wp_create (hs : Alone s) (env : Env) (cfg : PluginConfig)
    (pre now actor ty title : String) (new : NewItem) :
    (create env cfg pre now actor ty title new).wp
      (fun _ s' => Created env cfg ty title new s s') (Refused s) s := by
  have hE : ∀ e, Refused s e s := fun _ => .refl hs
  unfold create
  refine wp_reads Reads.ofExcept hE fun author _ => ?_
  refine wp_reads Reads.ofExcept hE fun itemType htype => ?_
  refine wp_reads Reads.ofExcept hE fun priority _ => ?_
  refine wp_reads Reads.ofExcept hE fun due _ => ?_
  refine wp_reads Reads.ofExcept hE fun defer _ => ?_
  refine wp_reads Reads.ofExcept hE fun pairs _ => ?_
  refine wp_reads (reads_prepareCustomSets env cfg itemType none pairs) hE fun writes _ => ?_
  refine wp_reads Reads.ofExcept hE fun _ _ => ?_
  refine wp_reads (.forM fun dep => reads_requireLive dep "dependency") hE fun _ hdeps => ?_
  refine wp_reads (reads_mintId env pre) hE fun id hid => ?_
  refine wp_reads (reads_checkOptionalParent env cfg.types id itemType new.parent) hE
    fun parent hparent => ?_
  refine wp_stampNow hs fun s₁ h₁ => ?_
  refine wp_acts (.write (does_createItem id itemType title author)) h₁ fun _ s₂ h₂ => ?_
  refine wp_acts (acts_setField id "description" _ author) h₂ fun _ s₃ h₃ => ?_
  refine wp_acts (acts_setField id "priority" _ author) h₃ fun _ s₄ h₄ => ?_
  refine wp_acts (acts_setIfGiven id "design" _ author) h₄ fun _ s₅ h₅ => ?_
  refine wp_acts (acts_setIfGiven id "completion_criterion" _ author) h₅ fun _ s₆ h₆ => ?_
  refine wp_acts (acts_setIfGiven id "due" _ author) h₆ fun _ s₇ h₇ => ?_
  refine wp_acts (acts_setIfGiven id "defer_until" _ author) h₇ fun _ s₈ h₈ => ?_
  refine wp_acts (acts_writeOptionalParent id author parent) h₈ fun _ s₉ h₉ => ?_
  refine wp_acts (acts_dependsOn id author new.dependsOn) h₉ fun _ t ht => ?_
  refine wp_acts (.forM fun w => acts_customWrite id author w) ht fun _ u hu => ?_
  have heffect : Wrote (createSheet id itemType title new.description priority new.design new.dod
      due defer parent new.dependsOn) s u := hu
  refine wp_readBack heffect ?_ fun _ => ⟨id, itemType, priority, due, defer, parent, hid, htype,
    hdeps, hparent.2, heffect⟩
  unfold createSheet createItemSheet
  rw [addDeps_items, putParent_items]
  exact items_setGiven_ne (items_setGiven_ne (items_setGiven_ne (items_setGiven_ne
    (items_set_self _ _ _ _))))

/-- The assignments of an update, in order. -/
def setAll (id : String) (sets : List (String × Option String)) (sh : Sheet) : Sheet :=
  sets.foldl (fun sh set => sh.set id set.1 (.ofOption set.2)) sh

theorem acts_setAll (itemId actor : String) (sets : List (String × Option String)) :
    Acts (sets.forM fun set => setField itemId set.1 set.2 actor) (setAll itemId sets) :=
  .forM_foldl fun set => acts_setField itemId set.1 set.2 actor

theorem items_setAll_ne {id id' : String} (sets : List (String × Option String)) {sh : Sheet}
    (h : sh.items id' ≠ none) : (setAll id sets sh).items id' ≠ none := by
  unfold setAll
  induction sets generalizing sh with
  | nil => exact h
  | cons set sets ih => exact ih (items_set_ne h)

/-- What `update` leaves. -/
def updateSheet (id now : String) (p : ParsedSets) (parent : Option (String × ParentWriteMode))
    (wasClosedAt : Option String) (sh : Sheet) : Sheet :=
  stampClosed id now wasClosedAt p.newStatus
    (putParent id parent (setAll id p.parsed (setGiven id "type" p.typeWrite sh)))

/-- What `update` has found and done when it returns. -/
structure Updated (env : Env) (cfg : PluginConfig) (now id : String) (sets : List String)
    (s s' : Store) : Prop where
  effect : ∃ item p parent, liveItem s.file.views id = some item ∧
    parseSets env.calendar cfg sets = .ok p ∧
    (∀ t, p.typeWrite = some t → revalidateTypeChange cfg.types id t s.file.views = .ok ()) ∧
    parent.map Prod.fst = p.belongsToWrite ∧
    (∀ q mode, parent = some (q, mode) → ParentChecked env cfg.types s.file.views id
      (p.typeWrite.getD (item.itemType.getD "")) q mode) ∧
    Wrote (updateSheet id now p parent item.closedAt) s s'

theorem items_of_liveItem {db : Db} {id : String} {i : ItemRow} (h : liveItem db id = some i) :
    (sheetOf db).items id ≠ none := by
  obtain ⟨regs, hregs, _⟩ := getItem_eq_some (liveItem_eq_some h)
  rw [hregs]
  exact Option.some_ne_none _

/-- **`update`** on a replica that merges nothing. -/
theorem wp_update (hs : Alone s) (env : Env) (cfg : PluginConfig) (now actor id : String)
    (sets : List String) :
    (update env cfg now actor id sets).wp (fun _ s' => Updated env cfg now id sets s s')
      (Refused s) s := by
  have hE : ∀ e, Refused s e s := fun _ => .refl hs
  unfold update
  refine wp_reads Reads.ofExcept hE fun author _ => ?_
  refine wp_reads (reads_requireItem id) hE fun item hitem => ?_
  refine wp_reads Reads.ofExcept hE fun p hp => ?_
  refine wp_reads (reads_prepareCustomSets env cfg _ (some id) p.rawCustom) hE fun writes _ => ?_
  refine wp_reads (reads_checkRetype cfg.types id p.typeWrite) hE fun _ hretype => ?_
  refine wp_reads (reads_checkOptionalParent env cfg.types id _ p.belongsToWrite) hE
    fun parent hparent => ?_
  refine wp_stampNow hs fun s₁ h₁ => ?_
  refine wp_acts (acts_setIfGiven id "type" p.typeWrite author) h₁ fun _ s₂ h₂ => ?_
  refine wp_acts (acts_setAll id author p.parsed) h₂ fun _ s₃ h₃ => ?_
  refine wp_acts (.forM fun w => acts_customWrite id author w) h₃ fun _ s₄ h₄ => ?_
  refine wp_acts (acts_writeOptionalParent id author parent) h₄ fun _ s₅ h₅ => ?_
  refine wp_acts (acts_syncClosedAt id now author item.closedAt p.newStatus) h₅ fun _ t ht => ?_
  have heffect : Wrote (updateSheet id now p parent item.closedAt) s t := ht
  refine wp_readBack heffect ?_ fun _ => ⟨item, p, parent, hitem, hp, hretype, hparent.1,
    hparent.2, heffect⟩
  have hbase : (putParent id parent (setAll id p.parsed (setGiven id "type" p.typeWrite
      (sheetOf s.file.views)))).items id ≠ none := by
    rw [putParent_items]
    exact items_setAll_ne _ (items_setGiven_ne (items_of_liveItem hitem))
  unfold updateSheet stampClosed
  split
  · split_ifs
    · exact items_set_self _ _ _ _
    · exact items_set_self _ _ _ _
    · exact hbase
  · exact hbase

/-- What `close` leaves. -/
def closeSheet (id now reason : String) (sh : Sheet) : Sheet :=
  ((sh.set id "status" (.text "closed")).set id "closing_comment" (.text reason)).set id "closed_at"
    (.text now)

/-- **`close`** on a replica that merges nothing. -/
theorem wp_close (hs : Alone s) (env : Env) (now actor id : String) (reason : Option String) :
    (close env now actor id reason).wp (fun _ s' => ∃ item reason,
      liveItem s.file.views id = some item ∧ Wrote (closeSheet id now reason) s s')
      (Refused s) s := by
  have hE : ∀ e, Refused s e s := fun _ => .refl hs
  unfold close
  refine wp_reads Reads.ofExcept hE fun author _ => ?_
  refine wp_reads Reads.orThrow hE fun reason _ => ?_
  refine wp_reads (reads_requireItem id) hE fun item hitem => ?_
  refine wp_stampNow hs fun s₁ h₁ => ?_
  refine wp_acts (acts_setField id "status" _ author) h₁ fun _ s₂ h₂ => ?_
  refine wp_acts (acts_setField id "closing_comment" _ author) h₂ fun _ s₃ h₃ => ?_
  refine wp_acts (acts_setField id "closed_at" _ author) h₃ fun _ t ht => ?_
  have heffect : Wrote (closeSheet id now reason) s t := ht
  exact wp_readBack heffect (items_set_self _ _ _ _) fun _ => ⟨item, reason, hitem, heffect⟩

/-! ## claim -/

/-- The same items, with the same registers but for some. -/
structure SameBut (fields : List String) (a b : Sheet) : Prop where
  edges : b.edges = a.edges
  ids : ∀ id, b.items id = none ↔ a.items id = none
  regs : ∀ id ra rb, a.items id = some ra → b.items id = some rb → ∀ f ∉ fields, rb f = ra f

theorem SameBut.refl (fields : List String) (a : Sheet) : SameBut fields a a :=
  ⟨rfl, fun _ => Iff.rfl, fun _ ra rb ha hb f _ => by
    rw [ha] at hb
    cases hb
    rfl⟩

theorem SameBut.trans {fields : List String} {a b c : Sheet} (h₁ : SameBut fields a b)
    (h₂ : SameBut fields b c) : SameBut fields a c where
  edges := h₂.edges.trans h₁.edges
  ids id := (h₂.ids id).trans (h₁.ids id)
  regs id ra rc ha hc f hf := by
    cases hb : b.items id with
    | none =>
      rw [(h₁.ids id).mp hb] at ha
      cases ha
    | some rb => rw [h₂.regs id rb rc hb hc f hf, h₁.regs id ra rb ha hb f hf]

theorem sameBut_set {fields : List String} {sh : Sheet} {id field : String} {value : Cell}
    (hf : field ∈ fields) (h : sh.items id ≠ none) : SameBut fields sh (sh.set id field value) where
  edges := rfl
  ids id' := by
    by_cases hid : id' = id
    · subst hid
      exact iff_of_false (items_set_self _ _ _ _) h
    · simp [Sheet.set, Function.update_of_ne hid]
  regs id' ra rb ha hb f hfn := by
    by_cases hid : id' = id
    · subst hid
      have hfield : f ≠ field := fun h => hfn (h ▸ hf)
      simp only [Sheet.set, Function.update_self, ha, Option.getD_some, Option.some.injEq] at hb
      rw [← hb, Function.update_of_ne hfield]
    · simp only [Sheet.set, Function.update_of_ne hid] at hb
      rw [ha] at hb
      cases hb
      rfl

/-- Open items flipped to `in_progress`, nothing else. -/
structure ClaimedUp (a b : Sheet) : Prop extends SameBut ["status"] a b where
  flips : ∀ id ra rb, a.items id = some ra → b.items id = some rb →
    rb "status" = ra "status" ∨ (ra "status" = .text "open" ∧ rb "status" = .text "in_progress")

theorem ClaimedUp.refl (a : Sheet) : ClaimedUp a a :=
  ⟨.refl _ a, fun _ ra rb ha hb => by
    rw [ha] at hb
    cases hb
    exact .inl rfl⟩

theorem ClaimedUp.trans {a b c : Sheet} (h₁ : ClaimedUp a b) (h₂ : ClaimedUp b c) :
    ClaimedUp a c := by
  refine ⟨h₁.toSameBut.trans h₂.toSameBut, fun id ra rc ha hc => ?_⟩
  cases hb : b.items id with
  | none =>
    rw [(h₁.ids id).mp hb] at ha
    cases ha
  | some rb =>
    rcases h₁.flips id ra rb ha hb with he | ⟨ho, hi⟩
    · rcases h₂.flips id rb rc hb hc with he' | ⟨ho', hi'⟩
      · exact .inl (he'.trans he)
      · exact .inr ⟨he ▸ ho', hi'⟩
    · rcases h₂.flips id rb rc hb hc with he' | ⟨ho', _⟩
      · exact .inr ⟨ho, he'.trans hi⟩
      · rw [hi] at ho'
        exact absurd ho' (by decide)

theorem claimedUp_set {sh : Sheet} {pid : String} {regs : String → Cell}
    (h : sh.items pid = some regs) (hopen : regs "status" = .text "open") :
    ClaimedUp sh (sh.set pid "status" (.text "in_progress")) := by
  refine ⟨sameBut_set (by simp) (by simp [h]), fun id ra rb ha hb => ?_⟩
  by_cases hid : id = pid
  · subst hid
    rw [h] at ha
    cases ha
    simp only [Sheet.set, Function.update_self, h, Option.getD_some, Option.some.injEq] at hb
    exact .inr ⟨hopen, by rw [← hb, Function.update_self]⟩
  · simp only [Sheet.set, Function.update_of_ne hid] at hb
    rw [ha] at hb
    cases hb
    exact .inl rfl

theorem led_eq_claimedUp {s s' : Store} (h : Led Eq s s') : Led ClaimedUp s s' :=
  h.mono fun _ hb => hb ▸ ClaimedUp.refl _

/-- **`claim_up`** flips open items. -/
theorem wp_claimUp {actor : String} (fuel : Nat) (frontier seen : List String) {s : Store}
    (hs : Alone s) :
    (claimUp actor fuel frontier seen).wp (fun _ s' => Led ClaimedUp s s') (fun _ _ => False)
      s := by
  induction fuel generalizing frontier seen s with
  | zero =>
    cases frontier with
    | nil => exact wp_pure.mpr (led_eq_claimedUp (.refl hs))
    | cons _ _ => exact wp_unreachable
  | succ fuel ih =>
    cases frontier with
    | nil => exact wp_pure.mpr (led_eq_claimedUp (.refl hs))
    | cons pid frontier =>
      unfold claimUp
      rw [wp_ite]
      refine ⟨fun _ => ih frontier seen hs, fun _ => ?_⟩
      rw [wp_look]
      split
      · exact ih frontier (pid :: seen) hs
      · next parent hparent =>
        obtain ⟨regs, hregs, _, _, hstatus, _⟩ := getItem_eq_some (liveItem_eq_some hparent)
        have hflip : (setWhen (parent.status == some "open") pid "status" (some "in_progress")
            actor).wp (fun _ s' => Led ClaimedUp s s') (fun _ _ => False) s := by
          refine wp_mono (acts_setWhen _ pid "status" _ actor s hs)
            (fun _ s' h => led_of_wrote h ?_) fun _ _ h => h
          split_ifs with hopen
          · refine claimedUp_set hregs (cellText_iff.mp ?_)
            rw [← hstatus]
            simpa using hopen
          · exact .refl _
        rw [wp_bind]
        refine wp_mono hflip (fun _ s₁ h₁ => ?_) fun _ _ h => h
        rw [wp_look]
        exact wp_mono (ih _ _ h₁.alone) (fun _ s₂ h₂ => h₁.trans h₂ fun _ _ _ => .trans)
          fun _ _ h => h

/-- What `claim` sets on its own item. -/
def claimSheet (id : String) (assignee wasClosedAt : Option String) (sh : Sheet) : Sheet :=
  let sh := setGiven id "assignee" assignee (sh.set id "status" (.text "in_progress"))
  if wasClosedAt.isSome then sh.set id "closed_at" .null else sh

theorem items_claimSheet_ne {id id' : String} {assignee wasClosedAt : Option String} {sh : Sheet}
    (h : sh.items id' ≠ none) : (claimSheet id assignee wasClosedAt sh).items id' ≠ none := by
  have hbase : (setGiven id "assignee" assignee
      (sh.set id "status" (.text "in_progress"))).items id' ≠ none :=
    items_setGiven_ne (items_set_ne h)
  unfold claimSheet
  dsimp only
  split_ifs
  · exact items_set_ne hbase
  · exact hbase

/-- **`claim`** on a replica that merges nothing. -/
theorem wp_claim (hs : Alone s) (env : Env) (now actor id : String) (assignee : Option String) :
    (claim env now actor id assignee).wp (fun _ s' => ∃ item,
      liveItem s.file.views id = some item ∧
      Led (fun a b => ClaimedUp (claimSheet id assignee item.closedAt a) b) s s')
      (Refused s) s := by
  have hE : ∀ e, Refused s e s := fun _ => .refl hs
  unfold claim
  refine wp_reads Reads.ofExcept hE fun author _ => ?_
  refine wp_reads (reads_requireItem id) hE fun item hitem => ?_
  refine wp_stampNow hs fun s₁ h₁ => ?_
  refine wp_acts (acts_setField id "status" _ author) h₁ fun _ s₂ h₂ => ?_
  refine wp_acts (acts_setIfGiven id "assignee" assignee author) h₂ fun _ s₃ h₃ => ?_
  refine wp_acts (acts_setWhen _ id "closed_at" none author) h₃ fun _ t ht => ?_
  have heffect : Wrote (claimSheet id assignee item.closedAt) s t := ht
  rw [wp_look, wp_bind]
  refine wp_mono (wp_claimUp env.fuel _ _ ht.alone) (fun _ u hu => ?_) fun _ _ h => h.elim
  have hled : Led (fun a b => ClaimedUp (claimSheet id assignee item.closedAt a) b) s u :=
    ⟨hu.alone, ht.grows.trans hu.grows, fun hshort => by
      rw [← heffect.sheet (hu.grows.trans hshort)]
      exact hu.sheet hshort⟩
  refine wp_readBack_led hled (fun b hb => ?_) fun _ => ⟨item, hitem, hled⟩
  rw [ne_eq, hb.ids]
  exact items_claimSheet_ne (items_of_liveItem hitem)

/-! ## The other verbs -/

/-- What `dep_add` has found and done when it returns. -/
structure DepAdded (env : Env) (fromId toId : String) (s s' : Store) : Prop where
  ne : fromId ≠ toId
  acyclic : reaches (depsOf s.file.views) fromId env.fuel [toId] [] = some false
  effect : Wrote (·.addEdge fromId toId .dep) s s'
  ends : (sheetOf s.file.views).items fromId ≠ none ∧ (sheetOf s.file.views).items toId ≠ none

theorem reads_closesCycle (env : Env) (fromId toId : String) :
    Reads (closesCycle env fromId toId) (fun closes => closes = false → fromId ≠ toId ∧
      reaches (depsOf s.file.views) fromId env.fuel [toId] [] = some false) s := by
  unfold closesCycle
  split_ifs with hself
  · exact .pure fun h => absurd h (by decide)
  · exact (reads_walk _).mono fun closes hwalk hcloses => ⟨hself, hcloses ▸ hwalk⟩

/-- **`dep_add`** on a replica that merges nothing. -/
theorem wp_depAdd (hs : Alone s) (env : Env) (now actor fromId toId : String) :
    (depAdd env now actor fromId toId).wp (fun _ s' => DepAdded env fromId toId s s')
      (Refused s) s := by
  have hE : ∀ e, Refused s e s := fun _ => .refl hs
  unfold depAdd
  refine wp_reads Reads.ofExcept hE fun author _ => ?_
  refine wp_reads (reads_requireItem fromId) hE fun _ hfrom => ?_
  refine wp_reads (reads_requireItem toId) hE fun _ hto => ?_
  refine wp_reads (reads_closesCycle env fromId toId) hE fun closes hcloses => ?_
  refine wp_reads Reads.ensure hE fun _ hno => ?_
  obtain ⟨hne, hacyclic⟩ := hcloses (by simpa using hno)
  refine wp_stampNow hs fun s₁ h₁ => ?_
  refine wp_mono (Acts.write (does_addEdge fromId toId .dep author) s₁ h₁.alone) (fun _ t ht => ?_)
    fun _ _ h => h.elim
  exact ⟨hne, hacyclic, h₁.trans ht, items_of_liveItem hfrom, items_of_liveItem hto⟩

/-- A verb that ends with one store write. -/
theorem wp_stamped {α : Type} (hs : Alone s) (env : Env) (now : String) {m : Write α}
    {f : Sheet → Sheet} (hm : Does m f) : (stampNow env now >>= fun _ => write m).wp
      (fun _ s' => Wrote f s s') (Refused s) s :=
  wp_stampNow hs fun s₁ h₁ => wp_mono (Acts.write hm s₁ h₁.alone) (fun _ _ ht => h₁.trans ht)
    fun _ _ h => h.elim

/-- The other edge verbs. -/
theorem wp_edgeVerb (hs : Alone s) (env : Env) (now actor fromId toId : String)
    {w : String → Write Unit} {f : Sheet → Sheet} (hw : ∀ author, Does (w author) f) :
    (edgeVerb env now actor fromId toId w).wp (fun _ s' => Wrote f s s') (Refused s) s := by
  have hE : ∀ e, Refused s e s := fun _ => .refl hs
  unfold edgeVerb
  refine wp_reads Reads.ofExcept hE fun author _ => ?_
  refine wp_reads (reads_requireItem fromId) hE fun _ _ => ?_
  refine wp_reads (reads_requireItem toId) hE fun _ _ => ?_
  exact wp_stamped hs env now (hw author)

theorem wp_labelVerb (hs : Alone s) (env : Env) (now actor itemId label : String)
    {w : String → String → Write Unit} (hw : ∀ label author, Does (w label author) id) :
    (labelVerb env now actor itemId label w).wp (fun _ s' => Wrote id s s') (Refused s) s := by
  have hE : ∀ e, Refused s e s := fun _ => .refl hs
  unfold labelVerb
  refine wp_reads Reads.ofExcept hE fun author _ => ?_
  refine wp_reads (reads_requireItem itemId) hE fun _ _ => ?_
  refine wp_reads Reads.ofExcept hE fun label _ => ?_
  exact wp_stamped hs env now (hw label author)

theorem wp_threadLinkVerb (hs : Alone s) (env : Env) (now actor thread item : String)
    {w : String → String → Write Unit} (hw : ∀ thread author, Does (w thread author) id) :
    (threadLinkVerb env now actor thread item w).wp (fun _ s' => Wrote id s s') (Refused s) s := by
  have hE : ∀ e, Refused s e s := fun _ => .refl hs
  unfold threadLinkVerb
  refine wp_reads Reads.ofExcept hE fun author _ => ?_
  refine wp_reads (reads_requireItem item) hE fun _ _ => ?_
  refine wp_reads Reads.ofExcept hE fun thread _ => ?_
  exact wp_stamped hs env now (hw thread author)

theorem reads_requireListField (cfg : PluginConfig) (id field : String) :
    Reads (requireListField cfg id field) (fun _ => True) s := by
  unfold requireListField
  refine (reads_requireItem id).bind fun item _ => ?_
  split
  · exact Reads.ensure.bind fun _ _ => .pure trivial
  · exact .throw

theorem wp_entryAdd (hs : Alone s) (env : Env) (cfg : PluginConfig)
    (now actor itemId field value : String) (label : Option String) :
    (entryAdd env cfg now actor itemId field value label).wp (fun _ s' => Wrote id s s')
      (Refused s) s := by
  have hE : ∀ e, Refused s e s := fun _ => .refl hs
  unfold entryAdd
  refine wp_reads Reads.ofExcept hE fun author _ => ?_
  refine wp_reads (reads_requireListField cfg itemId field) hE fun _ _ => ?_
  refine wp_reads Reads.ofExcept hE fun _ _ => ?_
  refine wp_reads Reads.ofExcept hE fun text _ => ?_
  refine wp_reads (reads_checked _) hE fun value _ => ?_
  refine wp_reads Reads.ofExcept hE fun label _ => ?_
  refine wp_reads Reads.ensure hE fun _ _ => ?_
  refine wp_stampNow hs fun s₁ h₁ => ?_
  refine wp_acts (.write (does_addFieldEntry itemId field value label author)) h₁ fun _ t ht => ?_
  exact wp_pure.mpr ht

theorem acts_removeAsGiven (itemId field value text author : String) :
    Acts (removeAsGiven itemId field value text author) id := by
  unfold removeAsGiven
  split_ifs
  · exact .write (does_removeFieldEntry itemId field text author)
  · exact .pure ()

theorem wp_entryRemove (hs : Alone s) (env : Env) (cfg : PluginConfig)
    (now actor itemId field value : String) :
    (entryRemove env cfg now actor itemId field value).wp (fun _ s' => Wrote id s s')
      (Refused s) s := by
  have hE : ∀ e, Refused s e s := fun _ => .refl hs
  unfold entryRemove
  refine wp_reads Reads.ofExcept hE fun author _ => ?_
  refine wp_reads (reads_requireListField cfg itemId field) hE fun _ _ => ?_
  refine wp_reads Reads.ofExcept hE fun text _ => ?_
  refine wp_stampNow hs fun s₁ h₁ => ?_
  refine wp_acts (.write (does_removeFieldEntry itemId field _ author)) h₁ fun _ s₂ h₂ => ?_
  exact wp_acts (acts_removeAsGiven itemId field _ text author) h₂ fun _ t ht => wp_pure.mpr ht

theorem wp_noteAdd (hs : Alone s) (env : Env) (now actor itemId text : String) :
    (noteAdd env now actor itemId text).wp (fun _ s' => Wrote id s s') (Refused s) s := by
  have hE : ∀ e, Refused s e s := fun _ => .refl hs
  unfold noteAdd
  refine wp_reads Reads.ofExcept hE fun author _ => ?_
  refine wp_reads (reads_requireItem itemId) hE fun _ _ => ?_
  exact wp_stamped hs env now (does_addNote itemId text author)

theorem wp_chunkAppend (hs : Alone s) (env : Env) (now actor itemId field payload : String) :
    (chunkAppend env now actor itemId field payload).wp (fun _ s' => Wrote id s s')
      (Refused s) s := by
  have hE : ∀ e, Refused s e s := fun _ => .refl hs
  unfold chunkAppend
  refine wp_reads Reads.ofExcept hE fun author _ => ?_
  refine wp_reads Reads.ofExcept hE fun _ _ => ?_
  refine wp_reads Reads.ofExcept hE fun _ _ => ?_
  refine wp_reads Reads.ofExcept hE fun _ _ => ?_
  refine wp_reads (reads_requireItem itemId) hE fun _ _ => ?_
  exact wp_stamped hs env now (does_appendChunk itemId field payload author)

theorem wp_chunkSupersede (hs : Alone s) (env : Env) (now actor itemId field : String)
    (replaced : List String) (payload : String) :
    (chunkSupersede env now actor itemId field replaced payload).wp (fun _ s' => Wrote id s s')
      (Refused s) s := by
  have hE : ∀ e, Refused s e s := fun _ => .refl hs
  unfold chunkSupersede
  refine wp_reads Reads.ofExcept hE fun author _ => ?_
  refine wp_reads Reads.ofExcept hE fun _ _ => ?_
  refine wp_reads Reads.ofExcept hE fun _ _ => ?_
  refine wp_reads Reads.ofExcept hE fun _ _ => ?_
  refine wp_reads Reads.ofExcept hE fun _ _ => ?_
  refine wp_reads (reads_requireItem itemId) hE fun _ _ => ?_
  exact wp_stamped hs env now (does_supersedeChunks itemId field replaced payload author)

/-! ## archive, unarchive -/

/-- A cascade that has so far set `archived` only. -/
abbrev Archived (s s' : Store) : Prop := Led (SameBut ["archived"]) s s'

theorem archived_refl (hs : Alone s) : Archived s s :=
  (Led.refl hs).mono fun _ hb => hb ▸ SameBut.refl _ _

theorem Archived.trans {s₁ s₂ s₃ : Store} (h₁ : Archived s₁ s₂) (h₂ : Archived s₂ s₃) :
    Archived s₁ s₃ := Led.trans h₁ h₂ fun _ _ _ => .trans

/-- The items of a cascade are there. -/
theorem wp_stampArchived (hs : Alone s) (value : Option String) (author : String)
    {items : List ItemRow} (h : ∀ i ∈ items, (sheetOf s.file.views).items i.id ≠ none) :
    (stampArchived value author items).wp (fun _ s' => Archived s s') (fun _ _ => False) s := by
  refine wp_mapM (Archived s) (fun item hitem s₁ h₁ => ?_) (fun _ _ => id) (archived_refl hs)
  rw [wp_bind]
  refine wp_mono (acts_setField item.id "archived" value author s₁ h₁.alone) (fun _ s₂ h₂ => ?_)
    fun _ _ h => h
  refine wp_pure.mpr ⟨h₂.alone, h₁.grows.trans h₂.grows, fun hshort => ?_⟩
  have hbefore := h₁.sheet (h₂.grows.trans hshort)
  rw [h₂.sheet hshort]
  exact hbefore.trans (sameBut_set (by simp) ((hbefore.ids item.id).not.mpr (h item hitem)))

theorem items_of_mem_liveDescendants {db : Db} {fuel : Nat} {root : String}
    {descendants : List ItemRow} (h : liveDescendants fuel db root = some descendants) :
    ∀ i ∈ descendants, (sheetOf db).items i.id ≠ none := by
  intro i hi
  obtain ⟨ids, _, rfl⟩ := Option.map_eq_some_iff.mp h
  obtain ⟨id, _, hfind⟩ := List.mem_filterMap.mp hi
  have hlive := List.mem_of_find?_eq_some hfind
  obtain ⟨id', _, hrows⟩ := List.mem_flatMap.mp (List.mem_of_mem_filter hlive)
  obtain ⟨item, hget, hjoin⟩ := List.mem_flatMap.mp hrows
  obtain ⟨parent, _, rfl⟩ := List.mem_map.mp hjoin
  obtain ⟨regs, hregs, hid, _⟩ := getItem_eq_some (Option.mem_toList.mp hget)
  change (sheetOf db).items item.id ≠ none
  rw [hid, hregs]
  exact Option.some_ne_none _

theorem items_of_mem_liveAncestors {db : Db} {fuel : Nat} {seen : List String}
    {pid : Option String} {ancestors : List ItemRow}
    (h : liveAncestors db fuel seen pid = some ancestors) :
    ∀ i ∈ ancestors, (sheetOf db).items i.id ≠ none := by
  induction fuel generalizing seen pid ancestors with
  | zero =>
    cases pid with
    | none =>
      cases h
      simp
    | some pid => cases h
  | succ fuel ih =>
    cases pid with
    | none =>
      cases h
      simp
    | some pid =>
      unfold liveAncestors at h
      split_ifs at h
      · cases h
        simp
      split at h
      · cases h
        simp
      · next parent hparent =>
        obtain ⟨above, habove, rfl⟩ : ∃ above,
            liveAncestors db fuel (pid :: seen) parent.belongsTo = some above ∧
              parent :: above = ancestors := by
          simpa [Option.bind_eq_some_iff] using h
        intro i hi
        rcases List.mem_cons.mp hi with rfl | hi
        · have hid : i.id = pid := by
            obtain ⟨_, _, hid, _⟩ := getItem_eq_some (liveItem_eq_some hparent)
            exact hid
          rw [hid]
          exact items_of_liveItem hparent
        · exact ih habove i hi

theorem items_of_liveItem_self {db : Db} {id : String} {i : ItemRow}
    (h : liveItem db id = some i) : (sheetOf db).items i.id ≠ none := by
  obtain ⟨_, _, hid, _⟩ := getItem_eq_some (liveItem_eq_some h)
  exact hid ▸ items_of_liveItem h

/-- A walk in front. -/
theorem wp_walk {α : Type} {query : Db → Option α} {k : α → Verb β} {Q : β → Store → Prop}
    {E : NxfError → Store → Prop} (hk : ∀ a, query s.file.views = some a → (k a).wp Q E s) :
    (walk query >>= k).wp Q E s := by
  unfold walk
  rw [wp_bind, wp_look]
  split
  · next a ha => exact wp_pure.mpr (hk a ha)
  · exact wp_unreachable

theorem wp_archiveRoot (hs : Alone s) (env : Env) (now author id : String) :
    (archiveRoot env now author id).wp (fun _ s' => Archived s s') (fun _ _ => False) s := by
  unfold archiveRoot
  rw [wp_look]
  split
  · exact wp_pure.mpr (archived_refl hs)
  next root hroot =>
  rw [wp_ite]
  refine ⟨fun _ => wp_pure.mpr (archived_refl hs), fun _ => ?_⟩
  refine wp_walk fun descendants hwalk => ?_
  rw [wp_ite]
  refine ⟨fun _ => wp_pure.mpr (archived_refl hs), fun _ => ?_⟩
  rw [wp_bind]
  refine wp_mono (wp_stampArchived hs (some now) author fun i hi => ?_)
    (fun _ _ h => wp_pure.mpr h) fun _ _ h => h
  rcases List.mem_cons.mp (List.mem_of_mem_filter hi) with rfl | hi
  · exact items_of_liveItem_self hroot
  · exact items_of_mem_liveDescendants hwalk i hi

theorem wp_unarchiveRoot (hs : Alone s) (env : Env) (author id : String) :
    (unarchiveRoot env author id).wp (fun _ s' => Archived s s') (fun _ _ => False) s := by
  unfold unarchiveRoot
  rw [wp_look]
  split
  · exact wp_pure.mpr (archived_refl hs)
  next item hitem =>
  rw [wp_ite]
  refine ⟨fun _ => wp_pure.mpr (archived_refl hs), fun _ => ?_⟩
  refine wp_walk fun ancestors hwalk => ?_
  rw [wp_bind]
  refine wp_mono (wp_stampArchived hs none author fun i hi => ?_)
    (fun _ _ h => wp_pure.mpr h) fun _ _ h => h
  rcases List.mem_cons.mp (List.mem_of_mem_filter hi) with rfl | hi
  · exact items_of_liveItem_self hitem
  · exact items_of_mem_liveAncestors hwalk i hi

/-- **`archive` and `unarchive`**, on a replica that merges nothing, set nothing but `archived`. -/
theorem wp_archiveBatch (hs : Alone s) (env : Env) (now actor : String) (ids : List String)
    {root : String → String → Verb (Except ArchiveReason (List String))}
    (hroot : ∀ author id s, Alone s → (root author id).wp (fun _ s' => Archived s s')
      (fun _ _ => False) s) :
    (archiveBatch env now actor ids root).wp (fun _ s' => Archived s s') (Refused s) s := by
  have hE : ∀ e, Refused s e s := fun _ => .refl hs
  unfold archiveBatch
  refine wp_reads Reads.ofExcept hE fun author _ => ?_
  refine wp_stampNow hs fun s₁ h₁ => ?_
  have hstart : Archived s s₁ := led_of_wrote h₁ (.refl _ _)
  rw [wp_bind]
  refine wp_mapM (Archived s) (fun id _ s₂ h₂ => ?_) (fun _ _ h => wp_pure.mpr h) hstart
  rw [wp_bind]
  exact wp_mono (hroot author id s₂ h₂.alone) (fun _ _ h => wp_pure.mpr (h₂.trans h))
    fun _ _ h => h.elim

end Verbs

/-! ## Calls -/

/-- What an accepted call has found and done. -/
def Call.Effect (env : Env) (cfg : PluginConfig) (s s' : Store) : Call → Prop
  | create _ _ _ ty title new => Created env cfg ty title new s s'
  | update now _ id sets => Updated env cfg now id sets s s'
  | claim _ _ id assignee => ∃ item, liveItem s.file.views id = some item ∧
      Led (fun a b => ClaimedUp (claimSheet id assignee item.closedAt a) b) s s'
  | close now _ id _ => ∃ item reason, liveItem s.file.views id = some item ∧
      Wrote (closeSheet id now reason) s s'
  | depAdd _ _ fromId toId => DepAdded env fromId toId s s'
  | depRemove _ _ fromId toId => Wrote (·.removeEdge fromId toId .dep) s s'
  | mentionAdd _ _ fromId toId => Wrote (·.addEdge fromId toId .mentions) s s'
  | mentionRemove _ _ fromId toId => Wrote (·.removeEdge fromId toId .mentions) s s'
  | contributesAdd _ _ fromId toId => Wrote (·.addEdge fromId toId .contributesTo) s s'
  | contributesRemove _ _ fromId toId => Wrote (·.removeEdge fromId toId .contributesTo) s s'
  | archive _ _ _ | unarchive _ _ _ => Archived s s'
  | labelAdd _ _ _ _ | labelRemove _ _ _ _ | entryAdd _ _ _ _ _ _ | entryRemove _ _ _ _ _
  | threadLinkAdd _ _ _ _ _ _ | threadLinkRemove _ _ _ _ | noteAdd _ _ _ _
  | chunkAppend _ _ _ _ _ | chunkSupersede _ _ _ _ _ _ => Wrote id s s'

/-- Dropping what a verb returns. -/
theorem wp_drop {α : Type} {v : Verb α} {Q : Store → Prop} {E : NxfError → Store → Prop}
    {s : Store} (h : v.wp (fun _ s' => Q s') E s) :
    (v >>= fun _ => (pure () : Verb Unit)).wp (fun _ s' => Q s') E s := by
  rw [wp_bind]
  exact wp_mono h (fun _ _ h => wp_pure.mpr h) fun _ _ h => h

/-- **Every verb**, on a replica that merges nothing: what it did if it was accepted, and that the
sheet is as it was if it was refused. -/
theorem wp_call {s : Store} (hs : Alone s) (env : Env) (cfg : PluginConfig) (c : Call) :
    (c.run env cfg).wp (fun _ s' => c.Effect env cfg s s') (Refused s) s := by
  cases c with
  | create pre now actor ty title new =>
    exact wp_drop (wp_create hs env cfg pre now actor ty title new)
  | update now actor id sets => exact wp_drop (wp_update hs env cfg now actor id sets)
  | claim now actor id assignee => exact wp_drop (wp_claim hs env now actor id assignee)
  | close now actor id reason => exact wp_drop (wp_close hs env now actor id reason)
  | depAdd now actor fromId toId => exact wp_depAdd hs env now actor fromId toId
  | depRemove now actor fromId toId =>
    exact wp_edgeVerb hs env now actor fromId toId (does_removeEdge fromId toId .dep)
  | mentionAdd now actor fromId toId =>
    exact wp_edgeVerb hs env now actor fromId toId (does_addEdge fromId toId .mentions)
  | mentionRemove now actor fromId toId =>
    exact wp_edgeVerb hs env now actor fromId toId (does_removeEdge fromId toId .mentions)
  | contributesAdd now actor fromId toId =>
    exact wp_edgeVerb hs env now actor fromId toId (does_addEdge fromId toId .contributesTo)
  | contributesRemove now actor fromId toId =>
    exact wp_edgeVerb hs env now actor fromId toId (does_removeEdge fromId toId .contributesTo)
  | labelAdd now actor id label =>
    exact wp_labelVerb hs env now actor id label (does_addLabel id)
  | labelRemove now actor id label =>
    exact wp_labelVerb hs env now actor id label (does_removeLabel id)
  | entryAdd now actor id field value label =>
    exact wp_drop (wp_entryAdd hs env cfg now actor id field value label)
  | entryRemove now actor id field value =>
    exact wp_drop (wp_entryRemove hs env cfg now actor id field value)
  | threadLinkAdd now actor thread item relation weight =>
    exact wp_threadLinkVerb hs env now actor thread item
      fun thread author => does_addThreadLink thread item relation weight author
  | threadLinkRemove now actor thread item =>
    exact wp_threadLinkVerb hs env now actor thread item
      fun thread author => does_removeThreadLink thread item author
  | archive now actor ids =>
    exact wp_drop (wp_archiveBatch hs env now actor ids
      fun author id _ hs => wp_archiveRoot hs env now author id)
  | unarchive now actor ids =>
    exact wp_drop (wp_archiveBatch hs env now actor ids
      fun author id _ hs => wp_unarchiveRoot hs env author id)
  | noteAdd now actor id text => exact wp_drop (wp_noteAdd hs env now actor id text)
  | chunkAppend now actor id field payload =>
    exact wp_drop (wp_chunkAppend hs env now actor id field payload)
  | chunkSupersede now actor id field replaced payload =>
    exact wp_drop (wp_chunkSupersede hs env now actor id field replaced payload)

theorem Call.Effect.led {env : Env} {cfg : PluginConfig} {s s' : Store} {c : Call}
    (h : c.Effect env cfg s s') : Led (fun _ _ => True) s s' := by
  have hwrote : ∀ {f}, Wrote f s s' → Led (fun _ _ => True) s s' := fun h => led_of_wrote h trivial
  cases c with
  | create =>
    obtain ⟨_, _, _, _, _, _, _, _, _, _, h⟩ := Created.effect h
    exact hwrote h
  | update =>
    obtain ⟨_, _, _, _, _, _, _, _, h⟩ := Updated.effect h
    exact hwrote h
  | claim =>
    obtain ⟨_, _, h⟩ := h
    exact h.mono fun _ _ => trivial
  | close =>
    obtain ⟨_, _, _, h⟩ := h
    exact hwrote h
  | depAdd => exact hwrote (DepAdded.effect h)
  | archive | unarchive => exact Led.mono h fun _ _ => trivial
  | _ => exact hwrote h

/-! ## Calls one after the other -/

/-- The call returned, accepted or refused. -/
def Call.Returns (env : Env) (cfg : PluginConfig) (c : Call) (s s' : Store) : Prop :=
  ∃ r, c.run env cfg s = (some r, s')

/-- A call that was accepted did what it says; one that was refused left the sheet. -/
theorem Call.Returns.effect {env : Env} {cfg : PluginConfig} {c : Call} {s s' : Store}
    (hs : Alone s) (h : c.Returns env cfg s s') : c.Effect env cfg s s' ∨ Led Eq s s' := by
  obtain ⟨r, h⟩ := h
  cases r with
  | ok =>
    have heffect := wp_ok (wp_call hs env cfg c) h
    exact .inl heffect
  | error e =>
    have hsame := wp_error (wp_call hs env cfg c) h
    exact .inr hsame

/-- Calls on one configuration, all of them accepted: the store they leave. -/
def runAccepted (env : Env) (cfg : PluginConfig) : List Call → Store → Option Store
  | [], s => some s
  | c :: calls, s => match c.run env cfg s with
    | (some (.ok ()), s) => runAccepted env cfg calls s
    | _ => none

/-- Calls that returned, each with a configuration and from a store as `P` says. -/
abbrev Calls (P : PluginConfig → Call → Store → Prop) : Store → Store → Prop :=
  Relation.ReflTransGen fun s s' => ∃ env cfg c, P cfg c s ∧ c.Returns env cfg s s'

theorem calls_of_runAccepted {P : PluginConfig → Call → Store → Prop} {env : Env}
    {cfg : PluginConfig} {calls : List Call} {s s' : Store} (hP : ∀ c ∈ calls, ∀ s, P cfg c s)
    (h : runAccepted env cfg calls s = some s') : Calls P s s' := by
  induction calls generalizing s with
  | nil =>
    cases h
    exact .refl
  | cons c calls ih =>
    unfold runAccepted at h
    split at h
    · next s₁ hrun =>
      refine .head ⟨env, cfg, c, hP c (by simp) s, _, hrun⟩ ?_
      exact ih (fun c hc => hP c (List.mem_cons_of_mem _ hc)) h
    · cases h

/-- **What every accepted call keeps, every run keeps.** -/
theorem Calls.keep {P : PluginConfig → Call → Store → Prop} {I : Sheet → Prop}
    (hstep : ∀ env cfg c s s', Alone s → P cfg c s → c.Effect env cfg s s' →
      s'.file.log.length ≤ shortLog → I (sheetOf s.file.views) → I (sheetOf s'.file.views))
    {s s' : Store} (hs : Alone s) (hI : I (sheetOf s.file.views)) (hrun : Calls P s s') :
    Led (fun _ b => I b) s s' := by
  induction hrun with
  | refl => exact ⟨hs, le_rfl, fun _ => hI⟩
  | tail _ hcall ih =>
    obtain ⟨env, cfg, c, hP, hreturns⟩ := hcall
    rcases hreturns.effect ih.alone with heffect | hsame
    · have hled := heffect.led
      refine ⟨hled.alone, ih.grows.trans hled.grows, fun hshort => ?_⟩
      exact hstep env cfg c _ _ ih.alone hP heffect hshort (ih.sheet (hled.grows.trans hshort))
    · refine ⟨hsame.alone, ih.grows.trans hsame.grows, fun hshort => ?_⟩
      rw [← hsame.sheet hshort]
      exact ih.sheet (hsame.grows.trans hshort)

/-- A fresh store shows nothing. -/
theorem sheetOf_freshStore (site : Int) (key : ReplicaKey) {ulids : Nat → String}
    (h : Ulids ulids) :
    sheetOf (freshStore site key ulids).file.views = ⟨fun _ => none, fun _ _ _ => False⟩ := by
  have hs := alone_freshStore site key h
  refine congrArg₂ Sheet.mk ?_ ?_
  · funext id
    rw [hs.shows "items" (by decide)]
    rfl
  · funext f t k
    rw [eq_iff_iff, iff_false]
    change ¬ (sheetOf (freshStore site key ulids).file.views).edges f t k
    rw [Appended.edges_iff hs.toTagInv]
    rintro ⟨tag, a, ha, _⟩
    cases ha

end NexusFlow.Facade
