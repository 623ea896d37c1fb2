import NexusFlow.Facade.Cells
import NexusFlow.Facade.PresentParent
import NexusFlow.Facade.Walks

/-!
# The tree of live items

`live_descendants` and `live_ancestors` (`crates/facade/src/write.rs:1505-1553`) on a store with any
history of merges, parent loops and missing parents included. `LiveChild db a b`: `a` is the current
parent of `b`, and both are live.

* `mem_listItems`: `list_items` has the rows `get_item` reads.
* `Descent.descend`: the walk down ends, and finds what its root reaches.
* `mem_liveDescendants`, `mem_liveAncestors`: what the two walks find.
-/

namespace NexusFlow.Facade

open NexusFlow.Core NexusFlow.Foundation NexusFlow.Lib Fallible Verb Relation

/-! ## The current parent -/

section Listed

variable {ops : List Op} {db : Db} (hid : IdsNameOps ops) (hdb : Shows db ops)
include hid hdb

/-- The parents the view gives a child are one, as often as its highest adds are tied. -/
theorem eq_presentParent {child parent : String} (h : parent ∈ parentsIn db child) :
    presentParent db child = some parent := by
  rw [presentParent_eq_head hid hdb]
  obtain ⟨a, ha, hmaxa⟩ := (mem_parentsIn hid hdb).mp h
  cases hhead : (parentsIn db child).head? with
  | none =>
    rw [List.head?_eq_none_iff.mp hhead] at h
    cases h
  | some first =>
    obtain ⟨b, hb, hmaxb⟩ := (mem_parentsIn hid hdb).mp (List.mem_of_head? hhead)
    -- neither outranks the other, and the parent is part of the rank
    have hrank : opRank first b = opRank parent a :=
      le_antisymm (not_lt.mp (hmaxa first b hb)) (not_lt.mp (hmaxb parent a ha))
    exact congrArg some (congrArg (fun r => (ofLex (ofLex r).2).2) hrank)

/-- **`list_items` lists what `get_item` reads.** -/
theorem mem_listItems {i : ItemRow} : i ∈ listItems db ↔ getItem db i.id = some i := by
  have hitem (id : String) (item : ItemRow) (h : getItem db id = some item) :
      item.id = id ∧ item.belongsTo = presentParent db id := by
    rw [getItem_eq] at h
    obtain ⟨regs, _, rfl⟩ := Option.map_eq_some_iff.mp h
    exact ⟨rfl, rfl⟩
  have hjoin (id : String) (parent : Option String) (h : parent ∈ joinedParents db id) :
      parent = presentParent db id := by
    unfold joinedParents at h
    split_ifs at h with hempty
    · rw [List.mem_singleton.mp h, presentParent_eq_head hid hdb, List.isEmpty_iff.mp hempty]
      rfl
    · obtain ⟨p, hp, rfl⟩ := List.mem_map.mp h
      exact (eq_presentParent hid hdb hp).symm
  unfold listItems itemRows
  simp only [List.mem_flatMap, Option.mem_toList]
  constructor
  · rintro ⟨id, _, item, hget, hi⟩
    obtain ⟨parent, hparent, rfl⟩ := List.mem_map.mp hi
    obtain ⟨rfl, hbelongs⟩ := hitem id item hget
    have hsame : ({ item with belongsTo := parent } : ItemRow) = item := by
      rw [hjoin _ parent hparent, ← hbelongs]
    rw [hsame]
    exact hget
  · intro hget
    refine ⟨i.id, (mem_itemIds hdb).mpr ⟨i, hget⟩, i, hget, ?_⟩
    have hbelongs := (hitem _ _ hget).2
    refine List.mem_map.mpr ⟨i.belongsTo, ?_, rfl⟩
    rw [hbelongs]
    unfold joinedParents
    split_ifs with hempty
    · rw [presentParent_eq_head hid hdb, List.isEmpty_iff.mp hempty]
      exact List.mem_singleton_self _
    · obtain ⟨p, hp⟩ := List.exists_mem_of_ne_nil _ fun h => hempty (List.isEmpty_iff.mpr h)
      rw [eq_presentParent hid hdb hp]
      exact List.mem_map_of_mem hp

end Listed

/-! ## Going down -/

section Down

variable {α : Type} [DecidableEq α] {children : α → List α} {root : α}

/-- **The invariant of the walk down**: what was seen is the root and what was found; all of it is
reached from the root, and what has left the stack has its children seen. -/
structure Descent (children : α → List α) (root : α) (frontier seen out : List α) : Prop where
  seen_iff : ∀ x, x ∈ seen ↔ x = root ∨ x ∈ out
  root_notMem : root ∉ out
  nodup : out.Nodup
  reached : ∀ x ∈ out, TransGen (Step children) root x
  pending : ∀ x ∈ frontier, x ∈ seen
  closed : ∀ x ∈ seen, x ∈ frontier ∨ ∀ y ∈ children x, y ∈ seen

omit [DecidableEq α] in
theorem Descent.start (children : α → List α) (root : α) : Descent children root [root] [root] [] where
  seen_iff x := by simp
  root_notMem := List.not_mem_nil
  nodup := List.nodup_nil
  reached x hx := by cases hx
  pending x hx := hx
  closed x hx := .inl hx

/-- The children of one element are noted. -/
theorem Descent.step {parent : α} {frontier seen out : List α}
    (h : Descent children root (parent :: frontier) seen out) :
    let found := ((children parent).dedup).filter fun c => !seen.contains c
    Descent children root (found.reverse ++ frontier) (found ++ seen) (out ++ found) := by
  intro found
  have hfound (x : α) : x ∈ found ↔ x ∈ children parent ∧ x ∉ seen := by
    simp [found]
  have hparent : parent = root ∨ TransGen (Step children) root parent := by
    rcases (h.seen_iff parent).mp (h.pending parent List.mem_cons_self) with heq | hout
    · exact .inl heq
    · exact .inr (h.reached parent hout)
  have hstep {y : α} (hy : y ∈ children parent) : TransGen (Step children) root y := by
    rcases hparent with rfl | hway
    · exact .single hy
    · exact hway.tail hy
  constructor
  · intro x
    rw [List.mem_append, List.mem_append, h.seen_iff]
    tauto
  · rw [List.mem_append, not_or]
    refine ⟨h.root_notMem, fun hroot => ((hfound _).mp hroot).2 ?_⟩
    exact (h.seen_iff root).mpr (.inl rfl)
  · rw [List.nodup_append]
    refine ⟨h.nodup, (List.nodup_dedup _).filter _, ?_⟩
    rintro x hx y hy rfl
    exact ((hfound x).mp hy).2 ((h.seen_iff x).mpr (.inr hx))
  · intro x hx
    rcases List.mem_append.mp hx with hx | hx
    · exact h.reached x hx
    · exact hstep ((hfound x).mp hx).1
  · intro x hx
    rw [List.mem_append, List.mem_reverse] at hx
    rw [List.mem_append]
    exact hx.imp_right fun hx => h.pending x (List.mem_cons_of_mem parent hx)
  · intro x hx
    have hnoted {y : α} (hy : y ∈ children parent) : y ∈ found ++ seen := by
      rw [List.mem_append, hfound]
      by_cases hold : y ∈ seen
      · exact .inr hold
      · exact .inl ⟨hy, hold⟩
    rcases List.mem_append.mp hx with hx | hx
    · exact .inl (List.mem_append_left _ (List.mem_reverse.mpr hx))
    rcases h.closed x hx with hfront | hall
    · rcases List.mem_cons.mp hfront with rfl | hfront
      · exact .inr fun y hy => hnoted hy
      · exact .inl (List.mem_append_right _ hfront)
    · exact .inr fun y hy => List.mem_append_right _ (hall y hy)

omit [DecidableEq α] in
/-- With an empty stack, what was found is what the root reaches, the root itself left out. -/
theorem Descent.mem_iff {seen out : List α} (h : Descent children root [] seen out) (x : α) :
    x ∈ out ↔ x ≠ root ∧ TransGen (Step children) root x := by
  have hclosed {a b : α} (ha : a ∈ seen) (hb : b ∈ children a) : b ∈ seen :=
    (h.closed a ha).elim (fun hnil => by cases hnil) fun hall => hall b hb
  constructor
  · intro hx
    exact ⟨fun heq => h.root_notMem (heq ▸ hx), h.reached x hx⟩
  · rintro ⟨hne, hway⟩
    have hseen : x ∈ seen := by
      induction hway with
      | single hb => exact hclosed ((h.seen_iff root).mpr (.inl rfl)) hb
      | @tail b _ _ hbc ih =>
        by_cases hb : b = root
        · exact hclosed ((h.seen_iff b).mpr (.inl hb)) hbc
        · exact hclosed (ih hb) hbc
    exact ((h.seen_iff x).mp hseen).resolve_left hne

/-- **The walk down ends** with a turn of fuel for the root and for each element there is. -/
theorem Descent.descend {all : Finset α} (hall : ∀ x, ∀ y ∈ children x, y ∈ all) {fuel : Nat} :
    ∀ {frontier seen out : List α}, Descent children root frontier seen out →
      (∀ x ∈ out, x ∈ all) → frontier.length + (all.card - out.length) ≤ fuel →
      ∃ found, descend children fuel frontier seen out = some found ∧ found.Nodup ∧
        ∀ x, x ∈ found ↔ x ≠ root ∧ TransGen (Step children) root x := by
  induction fuel with
  | zero =>
    intro frontier seen out h hsub hfuel
    cases frontier with
    | nil => exact ⟨out, rfl, h.nodup, h.mem_iff⟩
    | cons parent frontier =>
      rw [List.length_cons] at hfuel
      omega
  | succ fuel ih =>
    intro frontier seen out h hsub hfuel
    cases frontier with
    | nil => exact ⟨out, rfl, h.nodup, h.mem_iff⟩
    | cons parent frontier =>
      have hnext := h.step
      rw [Facade.descend]
      refine ih hnext (fun x hx => ?_) ?_
      · rcases List.mem_append.mp hx with hx | hx
        · exact hsub x hx
        · refine hall parent x ?_
          exact List.mem_dedup.mp (List.mem_of_mem_filter hx)
      · have hcard : (out ++ ((children parent).dedup).filter fun c => !seen.contains c).length ≤
            all.card := by
          rw [← List.toFinset_card_of_nodup hnext.nodup]
          refine Finset.card_le_card fun x hx => ?_
          rcases List.mem_append.mp (List.mem_toFinset.mp hx) with hx | hx
          · exact hsub x hx
          · exact hall parent x (List.mem_dedup.mp (List.mem_of_mem_filter hx))
        rw [List.length_append] at hcard
        rw [List.length_append, List.length_append, List.length_reverse]
        rw [List.length_cons] at hfuel
        omega

end Down

/-! ## The walks through live items -/

/-- `a` is the current parent of `b`, and both are live. -/
def LiveChild (db : Db) (a b : String) : Prop :=
  (liveItem db a).isSome = true ∧ ∃ i, liveItem db b = some i ∧ i.belongsTo = some a

theorem id_of_getItem {db : Db} {id : String} {i : ItemRow} (h : getItem db id = some i) :
    i.id = id := by
  obtain ⟨_, _, hid, _⟩ := getItem_eq_some h
  exact hid

theorem LiveChild.right {db : Db} {a b : String} (h : LiveChild db a b) :
    (liveItem db b).isSome = true := by
  obtain ⟨_, i, hi, _⟩ := h
  rw [hi]
  rfl

/-- An item has one current parent. -/
theorem LiveChild.unique {db : Db} {a a' b : String} (h : LiveChild db a b)
    (h' : LiveChild db a' b) : a = a' := by
  obtain ⟨_, i, hi, ha⟩ := h
  obtain ⟨_, i', hi', ha'⟩ := h'
  rw [hi, Option.some.injEq] at hi'
  rw [← hi', ha, Option.some.injEq] at ha'
  exact ha'

/-- The ids of the views. -/
def knownIds (db : Db) : Finset String := (itemIds db).toFinset

/-- The live rows of `list_items`. -/
def liveRows (db : Db) : List ItemRow := (listItems db).filter ItemRow.isLive

/-- The live row found under an id. -/
def findLive (db : Db) (x : String) : Option ItemRow := (liveRows db).find? fun i => i.id == x

/-- The ids of the live rows under an id. -/
def liveKids (db : Db) (a : String) : List String :=
  ((liveRows db).filter fun i => i.belongsTo == some a).map ItemRow.id

theorem liveDescendants_eq (fuel : Nat) (db : Db) (root : String) :
    liveDescendants fuel db root =
      (descend (liveKids db) fuel [root] [root] []).map (List.filterMap (findLive db)) := rfl

section Walks

variable {ops : List Op} {db : Db} (hdb : Shows db ops)
include hdb

theorem mem_knownIds {x : String} (h : (liveItem db x).isSome = true) : x ∈ knownIds db := by
  obtain ⟨i, hi⟩ := Option.isSome_iff_exists.mp h
  exact List.mem_toFinset.mpr ((mem_itemIds hdb).mpr ⟨i, liveItem_eq_some hi⟩)

theorem mem_liveRows (hid : IdsNameOps ops) {i : ItemRow} :
    i ∈ liveRows db ↔ liveItem db i.id = some i := by
  unfold liveRows liveItem
  rw [List.mem_filter, mem_listItems hid hdb, Option.filter_eq_some_iff]

/-- The row of a live item is the one found under its id. -/
theorem findLive_eq (hid : IdsNameOps ops) (x : String) : findLive db x = liveItem db x := by
  unfold findLive
  cases hf : (liveRows db).find? fun i => i.id == x with
  | none =>
    refine (Option.eq_none_iff_forall_ne_some.mpr fun i hi => ?_).symm
    obtain rfl := id_of_getItem (liveItem_eq_some hi)
    exact List.find?_eq_none.mp hf i ((mem_liveRows hdb hid).mpr hi) (beq_self_eq_true i.id)
  | some i =>
    have hx : i.id = x := by simpa using List.find?_some hf
    rw [← hx]
    exact ((mem_liveRows hdb hid).mp (List.mem_of_find?_eq_some hf)).symm

theorem mem_liveKids (hid : IdsNameOps ops) {a b : String} :
    b ∈ liveKids db a ↔ ∃ i, liveItem db b = some i ∧ i.belongsTo = some a := by
  unfold liveKids
  simp only [List.mem_map, List.mem_filter, beq_iff_eq, mem_liveRows hdb hid]
  constructor
  · rintro ⟨i, ⟨hi, hparent⟩, rfl⟩
    exact ⟨i, hi, hparent⟩
  · rintro ⟨i, hi, hparent⟩
    obtain rfl := id_of_getItem (liveItem_eq_some hi)
    exact ⟨i, ⟨hi, hparent⟩, rfl⟩

/-- Along the walk down from a live item every item is live. -/
theorem transGen_liveKids (hid : IdsNameOps ops) {root x : String}
    (hroot : (liveItem db root).isSome = true) :
    TransGen (Step (liveKids db)) root x ↔ TransGen (LiveChild db) root x := by
  constructor
  · intro h
    induction h with
    | single hb => exact .single ⟨hroot, (mem_liveKids hdb hid).mp hb⟩
    | tail _ hbc ih =>
      obtain ⟨_, _, hlast⟩ := TransGen.tail'_iff.mp ih
      exact ih.tail ⟨hlast.right, (mem_liveKids hdb hid).mp hbc⟩
  · exact TransGen.mono (fun a b hab => (mem_liveKids hdb hid).mpr hab.2) root x

/-- **`live_descendants`** finds what hangs under a live item through live items, each once. -/
theorem mem_liveDescendants (hid : IdsNameOps ops) {fuel : Nat} {root : String}
    (hroot : (liveItem db root).isSome = true) (hfuel : (knownIds db).card + 1 ≤ fuel) :
    ∃ found, liveDescendants fuel db root = some found ∧ (found.map ItemRow.id).Nodup ∧
      ∀ i, i ∈ found ↔
        liveItem db i.id = some i ∧ i.id ≠ root ∧ ReflTransGen (LiveChild db) root i.id := by
  have hall (a b : String) (hb : b ∈ liveKids db a) : b ∈ knownIds db := by
    obtain ⟨i, hi, _⟩ := (mem_liveKids hdb hid).mp hb
    exact mem_knownIds hdb (hi ▸ rfl)
  have hcount : [root].length + ((knownIds db).card - ([] : List String).length) ≤ fuel := by
    rw [List.length_singleton]
    omega
  obtain ⟨ids, hids, hnodup, hmem⟩ := (Descent.start (liveKids db) root).descend hall
    (fun x hx => absurd hx List.not_mem_nil) hcount
  have hreach (x : String) : x ∈ ids ↔ x ≠ root ∧ ReflTransGen (LiveChild db) root x := by
    rw [hmem, transGen_liveKids hdb hid hroot, reflTransGen_iff_eq_or_transGen]
    tauto
  have hfind {x : String} (hx : x ∈ ids) : ∃ i, liveItem db x = some i ∧ i.id = x := by
    obtain ⟨hne, hway⟩ := (hreach x).mp hx
    rcases ReflTransGen.cases_tail hway with heq | ⟨_, _, hlast⟩
    · exact absurd heq hne
    · obtain ⟨i, hi⟩ := Option.isSome_iff_exists.mp hlast.right
      exact ⟨i, hi, id_of_getItem (liveItem_eq_some hi)⟩
  refine ⟨ids.filterMap (findLive db), ?_, ?_, fun i => ?_⟩
  · rw [liveDescendants_eq, hids, Option.map_some]
  · have hsame : (ids.filterMap (findLive db)).map ItemRow.id = ids := by
      rw [List.map_filterMap]
      refine (List.filterMap_congr fun x hx => ?_).trans List.filterMap_some
      obtain ⟨i, hi, hix⟩ := hfind hx
      rw [findLive_eq hdb hid, hi, Option.map_some, hix]
    rw [hsame]
    exact hnodup
  · rw [List.mem_filterMap]
    constructor
    · rintro ⟨x, hx, hf⟩
      rw [findLive_eq hdb hid] at hf
      obtain rfl := id_of_getItem (liveItem_eq_some hf)
      exact ⟨hf, (hreach _).mp hx⟩
    · rintro ⟨hi, hx⟩
      exact ⟨i.id, (hreach _).mpr hx, (findLive_eq hdb hid _).trans hi⟩

/-- **The walk up**, from the item it last came to: it ends, and finds what that item hangs under
through live items, as far as it was not seen before. The induction is on the fuel; what was seen is
closed upwards, but for the last. -/
theorem mem_liveAncestors_of_seen {fuel : Nat} :
    ∀ {seen : List String} {last : String} {i : ItemRow}, liveItem db last = some i →
      seen.Nodup → (∀ x ∈ seen, (liveItem db x).isSome = true) → last ∈ seen →
      (∀ x ∈ seen, x ≠ last → ∀ a, LiveChild db a x → a ∈ seen) →
      (knownIds db).card < fuel + seen.length →
      ∃ found, liveAncestors db fuel seen i.belongsTo = some found ∧
        (found.map ItemRow.id).Nodup ∧
        ∀ j, j ∈ found ↔
          liveItem db j.id = some j ∧ j.id ∉ seen ∧ ReflTransGen (LiveChild db) j.id last := by
  have hends {seen : List String} {last : String} (hlast : last ∈ seen)
      (hclosed : ∀ x ∈ seen, ∀ a, LiveChild db a x → a ∈ seen) (j : ItemRow) :
      j ∈ ([] : List ItemRow) ↔ liveItem db j.id = some j ∧ j.id ∉ seen ∧
        ReflTransGen (LiveChild db) j.id last := by
    have hup {x : String} (hway : ReflTransGen (LiveChild db) x last) : x ∈ seen := by
      induction hway using ReflTransGen.head_induction_on with
      | refl => exact hlast
      | head hab _ ih => exact hclosed _ ih _ hab
    exact ⟨fun h => absurd h List.not_mem_nil, fun h => absurd (hup h.2.2) h.2.1⟩
  induction fuel with
  | zero =>
    intro seen last i hi hnodup hlive _ _ hfuel
    have hle : seen.length ≤ (knownIds db).card := by
      rw [← List.toFinset_card_of_nodup hnodup]
      exact Finset.card_le_card fun x hx =>
        mem_knownIds hdb (hlive x (List.mem_toFinset.mp hx))
    omega
  | succ fuel ih =>
    intro seen last i hi hnodup hlive hlast hclosed hfuel
    cases hparent : i.belongsTo with
    | none =>
      refine ⟨[], by rw [liveAncestors], List.nodup_nil, hends hlast fun x hx a ha => ?_⟩
      by_cases hxl : x = last
      · subst hxl
        obtain ⟨_, i', hi', ha'⟩ := ha
        rw [hi, Option.some.injEq] at hi'
        rw [← hi', hparent] at ha'
        cases ha'
      · exact hclosed x hx hxl a ha
    | some pid =>
      have hup {a : String} (ha : LiveChild db a last) : a = pid := by
        obtain ⟨_, i', hi', ha'⟩ := ha
        rw [hi, Option.some.injEq] at hi'
        rw [← hi', hparent, Option.some.injEq] at ha'
        exact ha'.symm
      rw [liveAncestors]
      by_cases hseen : pid ∈ seen
      · rw [if_pos (List.contains_iff_mem.mpr hseen)]
        refine ⟨[], rfl, List.nodup_nil, hends hlast fun x hx a ha => ?_⟩
        by_cases hxl : x = last
        · subst hxl
          exact hup ha ▸ hseen
        · exact hclosed x hx hxl a ha
      · rw [if_neg fun h => hseen (List.contains_iff_mem.mp h)]
        cases hpid : liveItem db pid with
        | none =>
          refine ⟨[], rfl, List.nodup_nil, hends hlast fun x hx a ha => ?_⟩
          by_cases hxl : x = last
          · subst hxl
            have hdead := ha.1
            rw [hup ha, hpid] at hdead
            cases hdead
          · exact hclosed x hx hxl a ha
        | some parent =>
          have hstep : LiveChild db pid last := ⟨by rw [hpid]; rfl, i, hi, hparent⟩
          obtain ⟨found, hrun, hfound, hmem⟩ := ih hpid
            (List.nodup_cons.mpr ⟨hseen, hnodup⟩) (fun x hx => by
              rcases List.mem_cons.mp hx with rfl | hx
              · exact hstep.1
              · exact hlive x hx)
            List.mem_cons_self (fun x hx hne a ha => by
              rcases List.mem_cons.mp hx with heq | hx
              · exact absurd heq hne
              by_cases hxl : x = last
              · subst hxl
                exact hup ha ▸ List.mem_cons_self
              · exact List.mem_cons_of_mem _ (hclosed x hx hxl a ha))
            (by rw [List.length_cons]; omega)
          have hid : parent.id = pid := id_of_getItem (liveItem_eq_some hpid)
          refine ⟨parent :: found, by simp only [hrun]; rfl, ?_, fun j => ?_⟩
          · rw [List.map_cons, List.nodup_cons]
            refine ⟨fun h => ?_, hfound⟩
            obtain ⟨j, hj, hjid⟩ := List.mem_map.mp h
            exact ((hmem j).mp hj).2.1 (by rw [hjid, hid]; exact List.mem_cons_self)
          · rw [List.mem_cons, hmem, List.mem_cons, not_or]
            constructor
            · rintro (rfl | ⟨hj, ⟨_, hnot⟩, hway⟩)
              · rw [hid]
                exact ⟨hpid, hseen, .single hstep⟩
              · exact ⟨hj, hnot, hway.tail hstep⟩
            · rintro ⟨hj, hnot, hway⟩
              by_cases hjp : j.id = pid
              · rw [hjp, hpid, Option.some.injEq] at hj
                exact .inl hj.symm
              · refine .inr ⟨hj, ⟨hjp, hnot⟩, ?_⟩
                rcases ReflTransGen.cases_tail hway with heq | ⟨b, hjb, hb⟩
                · exact absurd (heq ▸ hlast) hnot
                · exact hup hb ▸ hjb

/-- **`live_ancestors`** finds what a live item hangs under through live items, each once. -/
theorem mem_liveAncestors {fuel : Nat} {start : String} {i : ItemRow}
    (hstart : liveItem db start = some i) (hfuel : (knownIds db).card ≤ fuel) :
    ∃ found, liveAncestors db fuel [i.id] i.belongsTo = some found ∧
      (found.map ItemRow.id).Nodup ∧
      ∀ j, j ∈ found ↔
        liveItem db j.id = some j ∧ j.id ≠ start ∧ ReflTransGen (LiveChild db) j.id start := by
  have hcount : (knownIds db).card < fuel + [start].length := by
    rw [List.length_singleton]
    omega
  obtain ⟨found, hrun, hnodup, hmem⟩ := mem_liveAncestors_of_seen hdb hstart
    (List.nodup_singleton start)
    (fun x hx => by rw [List.mem_singleton.mp hx, hstart]; rfl) (List.mem_singleton_self start)
    (fun x hx hne => absurd (List.mem_singleton.mp hx) hne) hcount
  refine ⟨found, ?_, hnodup, fun j => ?_⟩
  · rw [id_of_getItem (liveItem_eq_some hstart)]
    exact hrun
  · rw [hmem, List.mem_singleton]

end Walks

end NexusFlow.Facade
