import NexusFlow.Facade.ClosedAt
import NexusFlow.Facade.Walks

/-!
# The hierarchy a replica keeps

What the write seam enforces on dep and parent edges (`crates/facade/src/write.rs:148-345,867-980`),
on a replica that merges nothing: both kinds acyclic, every parent edge between types the matrix
pairs, no item with more parents than its type admits, no chain longer than the matrix allows
(`Lawful`). Each verb's checks read the views before its writes; `Lawful` on the sheet is what they
add up to.

A retype is the exception. `revalidate_type_change` asks the matrix about each parent edge, and for a
type of one parent the matrix answers that the edge would *replace* the others; but a retype re-points
nothing. `hierarchy_lawful` is the rule for runs in which no update leaves an item of such a type with
two parents; `second_parent_left` is a run in which one does.
-/

namespace NexusFlow.Facade

open NexusFlow.Core NexusFlow.Foundation NexusFlow.Lib Fallible Relation

/-! ## The rule -/

/-- What the matrix says of the views. -/
structure LawfulHierarchy (m : RelationshipMatrix) (db : Db) : Prop where
  deps : Acyclic (Step (depsOf db))
  parents : Acyclic (Step (parentsOf db))
  pairs : ∀ c, ∀ p ∈ parentsOf db c, m.pairAllowed (typeOf db p) (typeOf db c) = true
  room : ∀ c, m.Admits (typeOf db c) (parentsOf db c).length
  depth : ∀ l, List.IsChain (Step (parentsOf db)) l → 2 ≤ l.length → m.DepthAdmits l.length

/-- The type of an item on the sheet, `""` where it has none. -/
def typeIn (sh : Sheet) (id : String) : String := (cellText (sh.reg id "type")).getD ""

/-- The rule on a sheet but for the number of parents; items have declared types, and edges join
items. -/
structure Ordered (m : RelationshipMatrix) (sh : Sheet) : Prop where
  typed : ∀ id, sh.items id ≠ none → typeIn sh id ∈ m.list
  ends : ∀ a b k, k = .dep ∨ k = .parent → sh.edges a b k → sh.items a ≠ none ∧ sh.items b ≠ none
  deps : Acyclic (sh.edges · · .dep)
  parents : Acyclic (sh.edges · · .parent)
  pairs : ∀ c p, sh.edges c p .parent → m.pairAllowed (typeIn sh p) (typeIn sh c) = true
  depth : ∀ l, List.IsChain (sh.edges · · .parent) l → 2 ≤ l.length → m.DepthAdmits l.length

/-- The item has no more parents than its type admits. -/
def Room (m : RelationshipMatrix) (sh : Sheet) (c : String) : Prop :=
  ∀ ps : List String, ps.Nodup → (∀ p ∈ ps, sh.edges c p .parent) → m.Admits (typeIn sh c) ps.length

/-- The rule on a sheet. -/
structure Lawful (m : RelationshipMatrix) (sh : Sheet) : Prop extends Ordered m sh where
  room : ∀ c, Room m sh c

variable {m : RelationshipMatrix}

/-! ### The views and the sheet -/

theorem mem_depsOf {db : Db} {a b : String} : b ∈ depsOf db a ↔ (sheetOf db).edges a b .dep :=
  mem_targetsOf

theorem mem_parentsOf {db : Db} {c p : String} :
    p ∈ parentsOf db c ↔ (sheetOf db).edges c p .parent :=
  mem_targetsOf

theorem mem_childrenOf {db : Db} {c p : String} :
    c ∈ childrenOf db p ↔ (sheetOf db).edges c p .parent := by
  change _ ↔ (⟨c, p, EdgeKind.parent.asStr⟩ : EdgeRow) ∈ BoardViews.presentEdges db
  unfold childrenOf
  rw [List.mem_insertionSort, List.mem_filterMap]
  constructor
  · rintro ⟨e, he, hif⟩
    split_ifs at hif with hends
    obtain ⟨rfl, hkind⟩ := hends
    cases hif
    rwa [← hkind]
  · exact fun h => ⟨_, h, by simp⟩

theorem nodup_parentsOf (db : Db) (c : String) : (parentsOf db c).Nodup := by
  unfold parentsOf targetsOf
  exact (List.perm_insertionSort _ _).nodup_iff.mpr (List.nodup_dedup _)

theorem typeOf_eq (db : Db) (id : String) : typeOf db id = typeIn (sheetOf db) id := by
  unfold typeOf typeIn Sheet.reg
  cases h : getItem db id with
  | none =>
    rw [getItem_eq_none.mp h]
    rfl
  | some i =>
    obtain ⟨regs, hregs, _, htype, _⟩ := getItem_eq_some h
    rw [hregs]
    simp [htype]

theorem Lawful.hierarchy {db : Db} (h : Lawful m (sheetOf db)) : LawfulHierarchy m db where
  deps := h.deps.mono fun _ _ => mem_depsOf.mp
  parents := h.parents.mono fun _ _ => mem_parentsOf.mp
  pairs c p hp := by
    rw [typeOf_eq, typeOf_eq]
    exact h.pairs c p (mem_parentsOf.mp hp)
  room c := by
    rw [typeOf_eq]
    exact h.room c _ (nodup_parentsOf db c) fun p hp => mem_parentsOf.mp hp
  depth l hl := h.depth l (hl.imp fun _ _ => mem_parentsOf.mp)

/-! ## What a write keeps -/

namespace Ordered

variable {sh sh' : Sheet}

/-- Fewer edges, or none changed, and pairs that the matrix still allows. -/
theorem of_sub (h : Ordered m sh)
    (hedges : ∀ a b k, k = .dep ∨ k = .parent → sh'.edges a b k → sh.edges a b k)
    (hitems : ∀ id, sh.items id ≠ none → sh'.items id ≠ none)
    (htyped : ∀ id, sh'.items id ≠ none → typeIn sh' id ∈ m.list)
    (hpairs : ∀ c p, sh'.edges c p .parent → m.pairAllowed (typeIn sh' p) (typeIn sh' c) = true) :
    Ordered m sh' where
  typed := htyped
  ends a b k hk hab := (h.ends a b k hk (hedges a b k hk hab)).imp (hitems a) (hitems b)
  deps := h.deps.mono fun a b => hedges a b .dep (.inl rfl)
  parents := h.parents.mono fun a b => hedges a b .parent (.inr rfl)
  pairs := hpairs
  depth l hl := h.depth l (hl.imp fun a b => hedges a b .parent (.inr rfl))

/-- A dependency whose end does not lead to its start. -/
theorem addDep (h : Ordered m sh) {a b : String}
    (hback : ¬ ReflTransGen (sh.edges · · .dep) b a) (ha : sh.items a ≠ none)
    (hb : sh.items b ≠ none) : Ordered m (sh.addEdge a b .dep) where
  typed := h.typed
  ends x y k hk hxy := by
    rcases hxy with hxy | ⟨rfl, rfl, _⟩
    · exact h.ends x y k hk hxy
    · exact ⟨ha, hb⟩
  deps := h.deps.addEdge hback fun x y hxy => hxy.imp_right fun h => ⟨h.1, h.2.1⟩
  parents := h.parents.mono fun x y hxy => hxy.resolve_right fun h => by simp at h
  pairs c p hcp := h.pairs c p (hcp.resolve_right fun h => by simp at h)
  depth l hl := h.depth l (hl.imp fun x y hxy => hxy.resolve_right fun h => by simp at h)

/-! ### A parent edge that was checked -/

section PutParent

variable {env : Env} {db : Db} {id childType p : String} {mode : ParentWriteMode}

/-- The edges after a parent is written: at most one more, of the child. -/
theorem putParent_edges {a b : String} {k : EdgeKind}
    (h : (putParent id (some (p, mode)) sh).edges a b k) :
    sh.edges a b k ∨ (a = id ∧ b = p ∧ k = .parent) := by
  cases mode with
  | replace => exact h.imp_left And.left
  | add => exact h

theorem typeIn_putParent (parent : Option (String × ParentWriteMode)) (c : String) :
    typeIn (putParent id parent sh) c = typeIn sh c := by
  unfold typeIn
  rw [reg_putParent]

/-- **A checked parent edge keeps the order.** The views the check read have the sheet's edges. -/
theorem putParent (h : Ordered m sh) (hedges : sh.edges = (sheetOf db).edges)
    (hchecked : ParentChecked env m db id childType p mode) (hchild : typeIn sh id = childType)
    (hparent : typeIn sh p = typeOf db p) (hid : sh.items id ≠ none) (hp : sh.items p ≠ none) :
    Ordered m (putParent id (some (p, mode)) sh) := by
  obtain ⟨parent, depth, hlive, hdepth, hvalid⟩ := hchecked.edge
  obtain ⟨hpair, hadmits, _⟩ := RelationshipMatrix.validateParent_ok hvalid
  have hsame : ∀ x y, Step (parentsOf db) x y ↔ sh.edges x y .parent := by
    intro x y
    rw [hedges]
    exact mem_parentsOf
  have hacyclic : Acyclic (Step (parentsOf db)) := h.parents.mono fun x y => (hsame x y).mp
  have hback : ¬ ReflTransGen (sh.edges · · .parent) p id := fun hway =>
    not_reaches hchecked.acyclic
      (ReflTransGen.mono (fun x y => (hsame x y).mpr) _ _ hway)
  have hadd : ∀ x y, (Facade.putParent id (some (p, mode)) sh).edges x y .parent →
      sh.edges x y .parent ∨ (x = id ∧ y = p) :=
    fun x y hxy => (putParent_edges hxy).imp_right fun h => ⟨h.1, h.2.1⟩
  refine ⟨fun c hc => ?_, fun a b k hk hab => ?_, ?_, h.parents.addEdge hback hadd, fun c q hcq => ?_,
    fun l hl htwo => ?_⟩
  · rw [typeIn_putParent]
    exact h.typed c (by rwa [putParent_items] at hc)
  · rw [putParent_items]
    rcases putParent_edges hab with hab | ⟨rfl, rfl, _⟩
    · exact h.ends a b k hk hab
    · exact ⟨hid, hp⟩
  · exact h.deps.mono fun a b hab => (putParent_edges hab).resolve_right fun h => by simp at h
  · rw [typeIn_putParent, typeIn_putParent]
    rcases hadd c q hcq with hcq | ⟨rfl, rfl⟩
    · exact h.pairs c q hcq
    · rw [hchild, hparent]
      unfold typeOf
      rw [liveItem_eq_some hlive]
      exact hpair
  · rcases isChain_addEdge hback hadd hl with hold | ⟨l₁, l₂, rfl, h₁, h₂, hlast, hhead⟩
    · exact h.depth l hold htwo
    · -- the chain crosses the new edge: what was counted below it and above it
      intro limit hlimit
      obtain ⟨above, below, habove, hbelow, rfl⟩ := hdepth (by rw [hlimit]; rfl)
      refine le_trans ?_ (hadmits limit hlimit)
      rw [List.length_append, Nat.add_comm above below]
      refine Nat.add_le_add ?_ ?_
      · obtain ⟨down, hdown⟩ : ∃ down, l₁.reverse = id :: down := by
          have := List.head?_reverse (l := l₁)
          rw [hlast] at this
          cases hrev : l₁.reverse with
          | nil => simp [hrev] at this
          | cons x down =>
            rw [hrev, List.head?_cons, Option.some_inj] at this
            exact ⟨down, by rw [this]⟩
        have hchildren : Acyclic (Step (childrenOf db)) :=
          hacyclic.swap.mono fun x y hxy => mem_parentsOf.mpr (mem_childrenOf.mp hxy)
        rw [← List.length_reverse, hdown]
        refine chainsWithin_height hchildren hbelow down ?_
        rw [← hdown, List.isChain_reverse]
        exact h₁.imp fun x y hxy => mem_childrenOf.mpr (hedges ▸ hxy)
      · cases l₂ with
        | nil => cases hhead
        | cons x up =>
          cases hhead
          exact chainsWithin_height hacyclic habove up (h₂.imp fun x y => (hsame x y).mpr)

end PutParent

end Ordered

/-! ### Registers other than the type -/

theorem typeIn_sameBut {fields : List String} {a b : Sheet} (h : SameBut fields a b)
    (hf : "type" ∉ fields) (c : String) : typeIn b c = typeIn a c := by
  unfold typeIn
  rw [h.reg hf]

theorem Ordered.sameBut {fields : List String} {a b : Sheet} (h : Ordered m a)
    (hsame : SameBut fields a b) (hf : "type" ∉ fields) : Ordered m b := by
  have htype := typeIn_sameBut hsame hf
  refine h.of_sub (fun x y k _ hxy => by rwa [← hsame.edges]) (fun c hc => (hsame.ids c).not.mpr hc)
    (fun c hc => ?_) fun c p hcp => ?_
  · rw [htype]
    exact h.typed c ((hsame.ids c).not.mp hc)
  · rw [htype, htype]
    exact h.pairs c p (by rwa [← hsame.edges])

theorem Room.sameBut {fields : List String} {a b : Sheet} {c : String} (h : Room m a c)
    (hsame : SameBut fields a b) (hf : "type" ∉ fields) : Room m b c := by
  intro ps hnodup hps
  rw [typeIn_sameBut hsame hf]
  exact h ps hnodup fun p hp => by rw [← hsame.edges]; exact hps p hp

theorem Lawful.sameBut {fields : List String} {a b : Sheet} (h : Lawful m a)
    (hsame : SameBut fields a b) (hf : "type" ∉ fields) : Lawful m b :=
  ⟨h.toOrdered.sameBut hsame hf, fun c => (h.room c).sameBut hsame hf⟩

theorem SameBut.set {fields : List String} {a b : Sheet} (h : SameBut fields a b)
    {id field : String} {value : Cell} (hf : field ∈ fields) (hid : b.items id ≠ none) :
    SameBut fields a (b.set id field value) :=
  h.trans (sameBut_set hf hid)

theorem SameBut.setGiven {fields : List String} {a b : Sheet} (h : SameBut fields a b)
    {id field : String} {value : Option String} (hf : field ∈ fields) (hid : b.items id ≠ none) :
    SameBut fields a (Facade.setGiven id field value b) := by
  cases value with
  | none => exact h
  | some v => exact h.set hf hid

theorem sameBut_setAll {fields : List String} {id : String} {sets : List (String × Option String)}
    {sh : Sheet} (hf : ∀ set ∈ sets, set.1 ∈ fields) (h : sh.items id ≠ none) :
    SameBut fields sh (setAll id sets sh) := by
  unfold setAll
  induction sets generalizing sh with
  | nil => exact .refl _ _
  | cons set sets ih =>
    have hset : SameBut fields sh (sh.set id set.1 (.ofOption set.2)) :=
      sameBut_set (hf set (by simp)) h
    exact hset.trans (ih (fun s hs => hf s (by simp [hs])) (items_set_self _ _ _ _))

theorem sameBut_stampClosed {id now : String} {wasClosedAt newStatus : Option String} {sh : Sheet}
    (h : sh.items id ≠ none) :
    SameBut ["closed_at"] sh (stampClosed id now wasClosedAt newStatus sh) := by
  cases newStatus with
  | none => exact .refl _ _
  | some status =>
    simp only [stampClosed]
    split_ifs
    · exact sameBut_set (by simp) h
    · exact sameBut_set (by simp) h
    · exact .refl _ _

/-! ### Types -/

theorem typeIn_set_type (sh : Sheet) (id t c : String) :
    typeIn (sh.set id "type" (.text t)) c = if c = id then t else typeIn sh c := by
  unfold typeIn
  rw [Sheet.reg_set]
  by_cases h : c = id <;> simp [h, cellText]

theorem items_of_set_ne {sh : Sheet} {id field : String} {value : Cell} {c : String}
    (hc : c ≠ id) : (sh.set id field value).items c = sh.items c := by
  simp [Sheet.set, hc]

/-- **A retype keeps the order** if the new type's pairs are allowed, on both sides. -/
theorem Ordered.retype {sh : Sheet} (h : Ordered m sh) {id t : String} (ht : t ∈ m.list)
    (hup : ∀ p, sh.edges id p .parent → m.pairAllowed (typeIn sh p) t = true)
    (hdown : ∀ c, sh.edges c id .parent → m.pairAllowed t (typeIn sh c) = true) :
    Ordered m (sh.set id "type" (.text t)) := by
  refine h.of_sub (fun _ _ _ _ hab => hab) (fun c => items_set_ne) (fun c hc => ?_)
    fun c p hcp => ?_
  · rw [typeIn_set_type]
    split_ifs with hid
    · exact ht
    · exact h.typed c (by rwa [items_of_set_ne hid] at hc)
  · have hne : c ≠ p := h.parents.irrefl hcp
    rw [typeIn_set_type, typeIn_set_type]
    split_ifs with hp hc hc
    · exact absurd (hc.trans hp.symm) hne
    · subst hp
      exact hdown c hcp
    · subst hc
      exact hup p hcp
    · exact h.pairs c p hcp

theorem Room.retype_of_ne {sh : Sheet} {id t c : String} (h : Room m sh c) (hc : c ≠ id) :
    Room m (sh.set id "type" (.text t)) c := by
  intro ps hnodup hps
  rw [typeIn_set_type, if_neg hc]
  exact h ps hnodup hps

/-- A new item of a declared type. -/
theorem Lawful.newItem {sh : Sheet} (h : Lawful m sh) {id t : String} (hid : sh.items id = none)
    (ht : t ∈ m.list) : Lawful m (sh.set id "type" (.text t)) where
  toOrdered := h.toOrdered.retype ht
    (fun _ hp => absurd hid (h.ends _ _ _ (.inr rfl) hp).1)
    fun _ hc => absurd hid (h.ends _ _ _ (.inr rfl) hc).2
  room c := by
    by_cases hc : c = id
    · subst hc
      intro ps _ hps
      cases ps with
      | nil => exact RelationshipMatrix.admits_zero
      | cons p ps => exact absurd hid (h.ends _ _ _ (.inr rfl) (hps p (by simp))).1
    · exact (h.room c).retype_of_ne hc

/-! ### Room for parents -/

/-- **A checked parent edge finds room.** -/
theorem room_putParent {sh : Sheet} {env : Env} {db : Db} {id childType p : String}
    {mode : ParentWriteMode} (hedges : sh.edges = (sheetOf db).edges)
    (hchecked : ParentChecked env m db id childType p mode) (hchild : typeIn sh id = childType)
    (hothers : ∀ c, c ≠ id → Room m sh c) (c : String) :
    Room m (putParent id (some (p, mode)) sh) c := by
  intro ps hnodup hps
  rw [Ordered.typeIn_putParent]
  by_cases hc : c = id
  swap
  · exact hothers c hc ps hnodup fun q hq =>
      (Ordered.putParent_edges (hps q hq)).resolve_right fun h => hc h.1
  subst hc
  rw [hchild]
  obtain ⟨parent, depth, _, _, hvalid⟩ := hchecked.edge
  obtain ⟨_, _, ⟨rfl, hsingle⟩ | ⟨rfl, _, hroom⟩⟩ := RelationshipMatrix.validateParent_ok hvalid
  · -- the others were cleared
    have hsub : ps ⊆ [p] := by
      intro q hq
      rcases hps q hq with ⟨_, hcleared⟩ | ⟨_, rfl, _⟩
      · exact absurd ⟨rfl, rfl⟩ hcleared
      · exact List.mem_singleton_self q
    unfold RelationshipMatrix.Admits
    rw [hsingle]
    exact (hnodup.subperm hsub).length_le
  · have hsub : ps ⊆ p :: (parentsOf db c).filter (· != p) := by
      intro q hq
      by_cases hqp : q = p
      · rw [hqp]
        exact List.mem_cons_self
      · rcases hps q hq with hq | ⟨_, rfl, _⟩
        · refine List.mem_cons_of_mem _ (List.mem_filter.mpr ⟨mem_parentsOf.mpr ?_, by simpa using hqp⟩)
          rwa [← hedges]
        · exact absurd rfl hqp
    exact hroom.mono (hnodup.subperm hsub).length_le

/-! ### The retype check -/

theorem forM_ok {α : Type} {l : List α} {f : α → Result Unit} (h : l.forM f = .ok ()) :
    ∀ x ∈ l, f x = .ok () := by
  induction l with
  | nil => simp
  | cons a l ih =>
    change (f a >>= fun _ => l.forM f) = .ok () at h
    cases hfa : f a with
    | error e =>
      rw [hfa] at h
      cases h
    | ok u =>
      rw [hfa] at h
      intro x hx
      rcases List.mem_cons.mp hx with rfl | hx
      · exact hfa
      · exact ih h x hx

theorem revalidateEdge_ok {childId parentId parentType childType other : String} {parents : Nat}
    (h : revalidateEdge m childId parentId parentType childType other parents = .ok ())
    (hother : other ∈ m.list) :
    ∃ mode, m.validateParent parentType childType (parents - 1) 0 = .ok mode := by
  unfold revalidateEdge at h
  rw [if_pos (by simpa [RelationshipMatrix.isType] using hother)] at h
  cases hedge : validateEdge m childId parentId parentType childType (parents - 1) 0 with
  | error e =>
    rw [hedge] at h
    cases h
  | ok mode => exact ⟨mode, validateEdge_ok hedge⟩

/-- **What `revalidate_type_change` has found**, where every item has a declared type. -/
theorem revalidateTypeChange_ok {db : Db} (hdb : Ordered m (sheetOf db)) {id t : String}
    (h : revalidateTypeChange m id t db = .ok ()) :
    (∀ p ∈ parentsOf db id,
      ∃ mode, m.validateParent (typeOf db p) t ((parentsOf db id).length - 1) 0 = .ok mode) ∧
    ∀ c, (sheetOf db).edges c id .parent → m.pairAllowed t (typeOf db c) = true := by
  unfold revalidateTypeChange at h
  dsimp only at h
  cases hup : (parentsOf db id).forM fun parentId =>
      revalidateEdge m id parentId (typeOf db parentId) t (typeOf db parentId)
        (parentsOf db id).length with
  | error e =>
    rw [hup] at h
    cases h
  | ok u =>
    rw [hup] at h
    refine ⟨fun p hp => revalidateEdge_ok (forM_ok hup p hp) ?_, fun c hc => ?_⟩
    · rw [typeOf_eq]
      exact hdb.typed p (hdb.ends _ _ _ (.inr rfl) (mem_parentsOf.mp hp)).2
    · have hdown := forM_ok h c (mem_childrenOf.mpr hc)
      obtain ⟨mode, hmode⟩ := revalidateEdge_ok hdown (by
        rw [typeOf_eq]
        exact hdb.typed c (hdb.ends _ _ _ (.inr rfl) hc).1)
      exact (RelationshipMatrix.validateParent_ok hmode).1

/-- **A retype leaves room**, unless the new type admits one parent and the item has two. -/
theorem room_retype {db : Db} {id t : String}
    (hvalid : ∀ p ∈ parentsOf db id,
      ∃ mode, m.validateParent (typeOf db p) t ((parentsOf db id).length - 1) 0 = .ok mode)
    (hsettled : m.cardinality t = some .single → (parentsOf db id).length ≤ 1) :
    Room m ((sheetOf db).set id "type" (.text t)) id := by
  intro ps hnodup hps
  rw [typeIn_set_type, if_pos rfl]
  have hle : ps.length ≤ (parentsOf db id).length :=
    (hnodup.subperm fun p hp => mem_parentsOf.mpr (hps p hp)).length_le
  refine RelationshipMatrix.Admits.mono ?_ hle
  cases hparents : parentsOf db id with
  | nil => exact RelationshipMatrix.admits_zero
  | cons p rest =>
    obtain ⟨mode, hmode⟩ := hvalid p (by simp [hparents])
    rw [← hparents]
    have hpos : (parentsOf db id).length - 1 + 1 = (parentsOf db id).length := by
      rw [hparents]
      rfl
    obtain ⟨_, _, ⟨_, hsingle⟩ | ⟨_, _, hroom⟩⟩ := RelationshipMatrix.validateParent_ok hmode
    · unfold RelationshipMatrix.Admits
      rw [hsingle]
      exact hsettled hsingle
    · rwa [hpos] at hroom

/-! ### Dependencies of a new item -/

theorem addDeps_edges {id : String} {dependsOn : List String} {sh : Sheet} {a b : String}
    {k : EdgeKind} : (addDeps id dependsOn sh).edges a b k ↔
      sh.edges a b k ∨ (a = id ∧ b ∈ dependsOn ∧ k = .dep) := by
  unfold addDeps
  induction dependsOn generalizing sh with
  | nil => simp
  | cons d dependsOn ih =>
    rw [List.foldl_cons, ih]
    simp only [Sheet.addEdge, List.mem_cons]
    tauto

/-- **The dependencies of an item nothing depends on.** -/
theorem Lawful.addDeps {sh : Sheet} (h : Lawful m sh) {id : String} {dependsOn : List String}
    (hid : sh.items id ≠ none) (hnew : ∀ a, ¬ sh.edges a id .dep)
    (hdeps : ∀ d ∈ dependsOn, sh.items d ≠ none ∧ d ≠ id) :
    Lawful m (addDeps id dependsOn sh) := by
  have htype : ∀ c, typeIn (Facade.addDeps id dependsOn sh) c = typeIn sh c := fun c => by
    unfold typeIn
    rw [reg_addDeps]
  have hparent : ∀ a b, (Facade.addDeps id dependsOn sh).edges a b .parent → sh.edges a b .parent :=
    fun a b hab => (addDeps_edges.mp hab).resolve_right fun h => by simp at h
  refine ⟨⟨fun c hc => ?_, fun a b k hk hab => ?_, ?_, h.parents.mono hparent, fun c p hcp => ?_,
    fun l hl => h.depth l (hl.imp hparent)⟩, fun c ps hnodup hps => ?_⟩
  · rw [htype]
    exact h.typed c (by rwa [addDeps_items] at hc)
  · rw [addDeps_items]
    rcases addDeps_edges.mp hab with hab | ⟨rfl, hb, _⟩
    · exact h.ends a b k hk hab
    · exact ⟨hid, (hdeps b hb).1⟩
  · refine h.deps.addSource (a := id) (fun a b hab => ?_) fun a ha => ?_
    · exact (addDeps_edges.mp hab).imp_right And.left
    · rcases addDeps_edges.mp ha with ha | ⟨_, hself, _⟩
      · exact hnew a ha
      · exact (hdeps id hself).2 rfl
  · rw [htype, htype]
    exact h.pairs c p (hparent c p hcp)
  · rw [htype]
    exact h.room c ps hnodup fun p hp => hparent c p (hps p hp)

/-! ## The verbs -/

section Verbs

variable {env : Env} {db : Db} {id childType : String}
  {parent : Option (String × ParentWriteMode)}

/-- **A parent that may be written**, on a sheet whose item has been made or retyped. -/
theorem Ordered.lawful_putParent {sh : Sheet} (h : Ordered m sh)
    (hedges : sh.edges = (sheetOf db).edges)
    (hparent : ∀ p mode, parent = some (p, mode) → ParentChecked env m db id childType p mode)
    (hchild : typeIn sh id = childType) (htypes : ∀ c, c ≠ id → typeIn sh c = typeOf db c)
    (hid : sh.items id ≠ none) (hitems : ∀ c, (sheetOf db).items c ≠ none → sh.items c ≠ none)
    (hothers : ∀ c, c ≠ id → Room m sh c) (hroom : parent = none → Room m sh id) :
    Lawful m (Facade.putParent id parent sh) := by
  cases hwritten : parent with
  | none =>
    refine ⟨h, fun c => ?_⟩
    by_cases hc : c = id
    · exact hc ▸ hroom hwritten
    · exact hothers c hc
  | some pm =>
    obtain ⟨p, mode⟩ := pm
    have hchecked := hparent p mode hwritten
    obtain ⟨i, _, hlive, _⟩ := hchecked.edge
    exact ⟨h.putParent hedges hchecked hchild (htypes p hchecked.ne) hid
      (hitems p (items_of_liveItem hlive)), room_putParent hedges hchecked hchild hothers⟩

/-- What `create` sets on its item besides the type. -/
def createdFields : List String :=
  ["title", "status", "description", "priority", "design", "completion_criterion", "due",
    "defer_until"]

theorem sameBut_createItemSheet (sh : Sheet) (id itemType title description priority : String)
    (design dod due defer : Option String) :
    SameBut createdFields (sh.set id "type" (.text itemType))
      (createItemSheet id itemType title description priority design dod due defer sh) := by
  have hset : ∀ {a : Sheet} {field : String} {value : Cell}, (a.set id field value).items id ≠ none :=
    items_set_self _ _ _ _
  unfold createItemSheet
  refine ((((((((SameBut.refl _ _).set ?_ hset).set ?_ hset).set ?_ hset).set ?_ hset).setGiven ?_
    hset).setGiven ?_ (items_setGiven_ne hset)).setGiven ?_
    (items_setGiven_ne (items_setGiven_ne hset))).setGiven ?_
    (items_setGiven_ne (items_setGiven_ne (items_setGiven_ne hset)))
  all_goals decide

/-- **`create` keeps the rule.** -/
theorem Lawful.create (h : Lawful m (sheetOf db)) {itemType title description priority : String}
    {design dod due defer : Option String} {dependsOn : List String}
    (hid : (sheetOf db).items id = none) (ht : itemType ∈ m.list)
    (hdeps : ∀ d ∈ dependsOn, (liveItem db d).isSome = true)
    (hparent : ∀ p mode, parent = some (p, mode) → ParentChecked env m db id itemType p mode) :
    Lawful m (createSheet id itemType title description priority design dod due defer parent
      dependsOn (sheetOf db)) := by
  have hsame := sameBut_createItemSheet (sheetOf db) id itemType title description priority design
    dod due defer
  have hedges : (createItemSheet id itemType title description priority design dod due defer
      (sheetOf db)).edges = (sheetOf db).edges := hsame.edges
  have hmade := (h.newItem hid ht).sameBut hsame (by decide)
  have htype : ∀ c, typeIn (createItemSheet id itemType title description priority design dod due
      defer (sheetOf db)) c = if c = id then itemType else typeIn (sheetOf db) c := fun c => by
    rw [typeIn_sameBut hsame (by decide), typeIn_set_type]
  have hitem : (createItemSheet id itemType title description priority design dod due defer
      (sheetOf db)).items id ≠ none := (hsame.ids id).not.mpr (items_set_self _ _ _ _)
  have hitems : ∀ c, (sheetOf db).items c ≠ none → (createItemSheet id itemType title description
      priority design dod due defer (sheetOf db)).items c ≠ none :=
    fun c hc => (hsame.ids c).not.mpr (items_set_ne hc)
  have hlawful := hmade.toOrdered.lawful_putParent hedges hparent (by rw [htype, if_pos rfl])
    (fun c hc => by rw [htype, if_neg hc, typeOf_eq]) hitem hitems (fun c _ => hmade.room c)
    fun _ => hmade.room id
  refine hlawful.addDeps ?_ (fun a ha => ?_) fun d hd => ?_
  · rwa [putParent_items]
  · -- nothing in the views depends on an item that was not there
    have hbefore : (sheetOf db).edges a id .dep := by
      rw [← hedges]
      cases hp : parent with
      | none => rwa [hp] at ha
      | some pm =>
        obtain ⟨p, mode⟩ := pm
        rw [hp] at ha
        exact (Ordered.putParent_edges ha).resolve_right fun h => by simp at h
    exact (h.ends a id .dep (.inl rfl) hbefore).2 hid
  · obtain ⟨i, hi⟩ := Option.isSome_iff_exists.mp (hdeps d hd)
    rw [putParent_items]
    refine ⟨hitems d (items_of_liveItem hi), ?_⟩
    rintro rfl
    exact items_of_liveItem hi hid

/-- Where an update leaves an item of a type of one parent, it has one, or the update re-parents it. -/
def RetypeSettled (cfg : PluginConfig) (c : Call) (s : Store) : Prop :=
  match c with
  | .update _ _ id sets => ∀ cal p t, parseSets cal cfg sets = .ok p → p.typeWrite = some t →
      cfg.types.cardinality t = some .single → p.belongsToWrite = none →
      (parentsOf s.file.views id).length ≤ 1
  | _ => True

/-- The type an update leaves its item with. -/
theorem typeIn_retyped (typeWrite : Option String) (sh : Sheet) (id c : String) :
    typeIn (setGiven id "type" typeWrite sh) c =
      if c = id then typeWrite.getD (typeIn sh id) else typeIn sh c := by
  cases typeWrite with
  | none =>
    change typeIn sh c = _
    split_ifs with hc
    · rw [hc]
      rfl
    · rfl
  | some t => exact typeIn_set_type sh id t c

/-- **The retype of an update**: the order holds, and room for every item but the one retyped. -/
theorem retyped (h : Lawful m (sheetOf db)) {typeWrite : Option String}
    (ht : ∀ t, typeWrite = some t → t ∈ m.list)
    (hcheck : ∀ t, typeWrite = some t → revalidateTypeChange m id t db = .ok ()) :
    Ordered m (setGiven id "type" typeWrite (sheetOf db)) ∧
      (∀ c, c ≠ id → Room m (setGiven id "type" typeWrite (sheetOf db)) c) ∧
      ((∀ t, typeWrite = some t → m.cardinality t = some .single → (parentsOf db id).length ≤ 1) →
        Room m (setGiven id "type" typeWrite (sheetOf db)) id) := by
  cases typeWrite with
  | none => exact ⟨h.toOrdered, fun c _ => h.room c, fun _ => h.room id⟩
  | some t =>
    obtain ⟨hup, hdown⟩ := revalidateTypeChange_ok h.toOrdered (hcheck t rfl)
    refine ⟨h.toOrdered.retype (ht t rfl) (fun p hp => ?_) fun c hc => ?_,
      fun c hc => (h.room c).retype_of_ne hc, fun hsettled => room_retype hup (hsettled t rfl)⟩
    · obtain ⟨mode, hmode⟩ := hup p (mem_parentsOf.mpr hp)
      rw [← typeOf_eq]
      exact (RelationshipMatrix.validateParent_ok hmode).1
    · rw [← typeOf_eq]
      exact hdown c hc

/-- **`update` keeps the rule** if its retype is settled. -/
theorem Lawful.update {cal : Calendar} {cfg : PluginConfig} (h : Lawful cfg.types (sheetOf db))
    {now : String} {sets : List String} {p : ParsedSets} {item : ItemRow}
    (hitem : liveItem db id = some item) (hp : parseSets cal cfg sets = .ok p)
    (hcheck : ∀ t, p.typeWrite = some t → revalidateTypeChange cfg.types id t db = .ok ())
    (hwrite : parent.map Prod.fst = p.belongsToWrite)
    (hparent : ∀ q mode, parent = some (q, mode) → ParentChecked env cfg.types db id
      (p.typeWrite.getD (item.itemType.getD "")) q mode)
    (hsettled : ∀ t, p.typeWrite = some t → cfg.types.cardinality t = some .single →
      p.belongsToWrite = none → (parentsOf db id).length ≤ 1) :
    Lawful cfg.types (updateSheet id now p parent item.closedAt (sheetOf db)) := by
  obtain ⟨hordered, hothers, hroom⟩ := retyped h (parseSets_type hp) hcheck
  have hassign := (parseSets_ok hp).1
  have hid : (setGiven id "type" p.typeWrite (sheetOf db)).items id ≠ none :=
    items_setGiven_ne (items_of_liveItem hitem)
  have hsame : SameBut (updatableFields.filter (· != "type"))
      (setGiven id "type" p.typeWrite (sheetOf db))
      (setAll id p.parsed (setGiven id "type" p.typeWrite (sheetOf db))) :=
    sameBut_setAll (fun set hset => by simpa using hassign set hset) hid
  have hnot : "type" ∉ updatableFields.filter (· != "type") := by simp
  have hgiven : (setGiven id "type" p.typeWrite (sheetOf db)).edges = (sheetOf db).edges := by
    cases p.typeWrite <;> rfl
  have htype : ∀ c, typeIn (setAll id p.parsed (setGiven id "type" p.typeWrite (sheetOf db))) c =
      if c = id then p.typeWrite.getD (typeIn (sheetOf db) id) else typeIn (sheetOf db) c :=
    fun c => by rw [typeIn_sameBut hsame hnot, typeIn_retyped]
  have hown : typeIn (sheetOf db) id = item.itemType.getD "" := by
    rw [← typeOf_eq]
    unfold typeOf
    rw [liveItem_eq_some hitem]
    rfl
  have hlawful := (hordered.sameBut hsame hnot).lawful_putParent (hsame.edges.trans hgiven) hparent
    (by rw [htype, if_pos rfl, hown]) (fun c hc => by rw [htype, if_neg hc, typeOf_eq])
    (items_setAll_ne _ hid) (fun c hc => items_setAll_ne _ (items_setGiven_ne hc))
    (fun c hc => (hothers c hc).sameBut hsame hnot) fun hnone => ?_
  · refine hlawful.sameBut (sameBut_stampClosed ?_) (by simp)
    rw [putParent_items]
    exact items_setAll_ne _ hid
  · refine (hroom fun t ht hsingle => hsettled t ht hsingle ?_).sameBut hsame hnot
    rw [← hwrite, hnone]
    rfl

theorem sameBut_closeSheet {sh : Sheet} (h : sh.items id ≠ none) (now reason : String) :
    SameBut ["status", "closing_comment", "closed_at"] sh (closeSheet id now reason sh) := by
  unfold closeSheet
  refine (((SameBut.refl _ sh).set ?_ h).set ?_ ?_).set ?_ ?_
  · decide
  · decide
  · exact items_set_self _ _ _ _
  · decide
  · exact items_set_self _ _ _ _

theorem sameBut_claimSheet {sh : Sheet} (h : sh.items id ≠ none)
    (assignee wasClosedAt : Option String) :
    SameBut ["status", "assignee", "closed_at"] sh (claimSheet id assignee wasClosedAt sh) := by
  have hclaimed : SameBut ["status", "assignee", "closed_at"] sh
      (setGiven id "assignee" assignee (sh.set id "status" (.text "in_progress"))) := by
    refine ((SameBut.refl _ sh).set ?_ h).setGiven ?_ (items_set_self _ _ _ _)
    · decide
    · decide
  unfold claimSheet
  dsimp only
  split_ifs
  · exact hclaimed.set (by decide) (items_setGiven_ne (items_set_self _ _ _ _))
  · exact hclaimed

end Verbs

/-- A fresh sheet is lawful. -/
theorem lawful_empty (m : RelationshipMatrix) : Lawful m ⟨fun _ => none, fun _ _ _ => False⟩ where
  typed _ h := absurd rfl h
  ends _ _ _ _ h := h.elim
  deps := acyclic_empty
  parents := acyclic_empty
  pairs _ _ h := h.elim
  depth l hl htwo := by
    cases l with
    | nil => simp at htwo
    | cons a l =>
      cases l with
      | nil => simp at htwo
      | cons b l => exact (List.isChain_cons_cons.mp hl).1.elim
  room c ps _ hps := by
    cases ps with
    | nil => exact RelationshipMatrix.admits_zero
    | cons p ps => exact (hps p (by simp)).elim

/-- Edges of other kinds, or fewer edges. -/
theorem Lawful.of_edges {a b : Sheet} (h : Lawful m a) (hitems : b.items = a.items)
    (hedges : ∀ x y k, k = .dep ∨ k = .parent → b.edges x y k → a.edges x y k) : Lawful m b := by
  have htype : ∀ c, typeIn b c = typeIn a c := fun c => by
    unfold typeIn Sheet.reg
    rw [hitems]
  refine ⟨h.toOrdered.of_sub hedges (fun c hc => by rwa [hitems]) (fun c hc => ?_) fun c p hcp => ?_,
    fun c ps hnodup hps => ?_⟩
  · rw [htype]
    exact h.typed c (by rwa [hitems] at hc)
  · rw [htype, htype]
    exact h.pairs c p (hedges c p .parent (.inr rfl) hcp)
  · rw [htype]
    exact h.room c ps hnodup fun p hp => hedges c p .parent (.inr rfl) (hps p hp)

/-- **One accepted call keeps the rule** if its retype is settled. -/
theorem lawful_step (env : Env) (cfg : PluginConfig) (c : Call) (s s' : Store) (_ : Alone s)
    (hP : cfg.types = m ∧ RetypeSettled cfg c s) (heffect : c.Effect env cfg s s')
    (hshort : s'.file.log.length ≤ shortLog) (h : Lawful m (sheetOf s.file.views)) :
    Lawful m (sheetOf s'.file.views) := by
  obtain ⟨rfl, hsettled⟩ := hP
  have hfewer : ∀ {f : Sheet → Sheet}, Wrote f s s' → (∀ sh, (f sh).items = sh.items) →
      (∀ sh x y k, k = .dep ∨ k = .parent → (f sh).edges x y k → sh.edges x y k) →
      Lawful cfg.types (sheetOf s'.file.views) := by
    intro f hwrote hitems hedges
    rw [hwrote.sheet hshort]
    exact h.of_edges (hitems _) (hedges _)
  cases c with
  | create =>
    obtain ⟨id, _, _, _, _, _, hid, htype, hdeps, hparent, hwrote⟩ := Created.effect heffect
    rw [hwrote.sheet hshort]
    exact h.create (getItem_eq_none.mp hid) (cfg.resolveItemType_ok htype) hdeps hparent
  | update =>
    obtain ⟨_, p, _, hitem, hp, hcheck, hwrite, hparent, hwrote⟩ := Updated.effect heffect
    rw [hwrote.sheet hshort]
    exact h.update hitem hp hcheck hwrite hparent fun t => hsettled _ p t hp
  | claim =>
    obtain ⟨_, hitem, hled⟩ := heffect
    refine (h.sameBut (sameBut_claimSheet (items_of_liveItem hitem) _ _) (by decide)).sameBut
      (hled.sheet hshort).toSameBut (by decide)
  | close =>
    obtain ⟨_, _, hitem, hwrote⟩ := heffect
    rw [hwrote.sheet hshort]
    exact h.sameBut (sameBut_closeSheet (items_of_liveItem hitem) _ _) (by decide)
  | depAdd _ _ a b =>
    obtain ⟨_, hacyclic, hwrote, ha, hb⟩ := heffect
    rw [hwrote.sheet hshort]
    have hback : ¬ ReflTransGen ((sheetOf s.file.views).edges · · .dep) b a := fun hway =>
      not_reaches hacyclic (ReflTransGen.mono (fun _ _ => mem_depsOf.mpr) _ _ hway)
    refine ⟨h.toOrdered.addDep hback ha hb, fun c ps hnodup hps => ?_⟩
    exact h.room c ps hnodup fun p hp => (hps p hp).resolve_right fun h => by simp at h
  | archive | unarchive => exact h.sameBut (Led.sheet heffect hshort) (by decide)
  | depRemove | mentionRemove | contributesRemove =>
    exact hfewer heffect (fun _ => rfl) fun _ _ _ _ _ h => h.1
  | mentionAdd | contributesAdd =>
    refine hfewer heffect (fun _ => rfl) fun _ _ _ k hk h => h.resolve_right ?_
    rintro ⟨_, _, rfl⟩
    simp at hk
  | _ => exact hfewer heffect (fun _ => rfl) fun _ _ _ _ _ h => h

/-- **The hierarchy stays lawful** on a replica that starts empty and merges nothing, whatever the
matrix, after every run of calls whose retypes are settled. -/
theorem hierarchy_lawful {site : Int} {key : ReplicaKey} {ulids : Nat → String}
    (hulids : Ulids ulids) {m : RelationshipMatrix} {s : Store}
    (hrun : Calls (fun cfg c s => cfg.types = m ∧ RetypeSettled cfg c s)
      (freshStore site key ulids) s)
    (hshort : s.file.log.length ≤ shortLog) : LawfulHierarchy m s.file.views := by
  have hfresh : Lawful m (sheetOf (freshStore site key ulids).file.views) := by
    rw [sheetOf_freshStore site key hulids]
    exact lawful_empty m
  have hled := Calls.keep lawful_step (alone_freshStore site key hulids) hfresh hrun
  exact (hled.sheet hshort).hierarchy

/-! ## Two runs -/

/-- A plugin in which a task may have many epics, and a bug one. -/
def boardPlugin : PluginConfig :=
  { taskPlugin with
    types := ⟨{"epic", "task", "bug"},
      ⟨[("task", ⟨{"epic"}, .many⟩), ("bug", ⟨{"epic"}, .single⟩)], by decide⟩, some 2⟩ }

/-- A new item of a type, under a parent. -/
def createUnder (ty : String) (parent : Option String) : Call :=
  .create "aaaa" "2026-01-01" "alice" ty "t" { plainItem with parent := parent }

/-- An epic, and a task of it. -/
def epicWithTask : List Call := [createUnder "epic" none, createUnder "task" (some "aaaa.0001")]

/-- A task of two epics becomes a bug. -/
def bugOfTwoEpics : List Call :=
  [createUnder "epic" none, createUnder "epic" none, createUnder "task" (some "aaaa.0001"),
    .update "2026-01-02" "alice" "aaaa.0003" ["parent=aaaa.0002"],
    .update "2026-01-03" "alice" "aaaa.0003" ["type=bug"]]

/-- Where the two runs end. -/
theorem boardPlugin_runs :
    (((runAccepted plainEnv boardPlugin epicWithTask plainStore).any fun s =>
      s.file.log.length ≤ shortLog && parentsOf s.file.views "aaaa.0002" == ["aaaa.0001"]) =
        true) ∧
    (((runAccepted plainEnv boardPlugin bugOfTwoEpics plainStore).any fun s =>
      typeOf s.file.views "aaaa.0003" == "bug" &&
        (parentsOf s.file.views "aaaa.0003").length == 2) = true) ∧
    boardPlugin.types.validate = .ok () ∧
    boardPlugin.types.cardinality "bug" = some .single :=
  ⟨by decide +kernel, by decide +kernel, by decide +kernel, by decide +kernel⟩

/-- The hierarchy of an epic with a task. -/
theorem hierarchy_lawful_epic : ∃ s, runAccepted plainEnv boardPlugin epicWithTask plainStore =
    some s ∧ parentsOf s.file.views "aaaa.0002" = ["aaaa.0001"] ∧
      LawfulHierarchy boardPlugin.types s.file.views := by
  have hrun := boardPlugin_runs.1
  obtain ⟨s, hs, hend⟩ := (Option.any_eq_true _ _).mp hrun
  rw [Bool.and_eq_true, beq_iff_eq] at hend
  refine ⟨s, hs, hend.2, hierarchy_lawful (ulids_letterIds (by decide)) (calls_of_runAccepted ?_ hs)
    (by simpa using hend.1)⟩
  intro c hc _
  rcases List.mem_pair.mp hc with rfl | rfl <;> exact ⟨rfl, trivial⟩

/-- **A second parent left**: the matrix answers that a parent edge of a bug would replace the others,
and the retype takes that for a yes. -/
theorem second_parent_left : ¬ ∀ cfg : PluginConfig, cfg.types.validate = .ok () →
    ∀ calls s, runAccepted plainEnv cfg calls plainStore = some s →
      LawfulHierarchy cfg.types s.file.views := by
  intro hclaim
  obtain ⟨hrun, hloads, hsingle⟩ := boardPlugin_runs.2
  obtain ⟨s, hs, hend⟩ := (Option.any_eq_true _ _).mp hrun
  rw [Bool.and_eq_true, beq_iff_eq, beq_iff_eq] at hend
  have hroom := (hclaim boardPlugin hloads bugOfTwoEpics s hs).room "aaaa.0003"
  unfold RelationshipMatrix.Admits at hroom
  rw [hend.1, hend.2, hsingle] at hroom
  exact absurd hroom (by decide)

end NexusFlow.Facade
