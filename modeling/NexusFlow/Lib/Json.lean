import Mathlib.Data.List.Basic
import Mathlib.Data.List.Pairwise
import Mathlib.Data.String.Basic
import Mathlib.Tactic.SplitIfs

/-!
# JSON values

A value, and an object as its members in the order of their keys, as a sorted map keeps them.
`Json.WF` says of a value that every object in it is so; an object is then its `lookup`
(`members_ext`). `Json.get` follows a path of keys; a path does not enter an array.
-/

namespace NexusFlow.Lib

/-- A JSON value. A number that is no integer is its text. -/
inductive Json
  | null
  | bool (b : Bool)
  | int (n : ℤ)
  | float (text : String)
  | str (text : String)
  | arr (items : List Json)
  | obj (members : List (String × Json))

/-- The members of an object. -/
abbrev Members := List (String × Json)

/-! ## Objects -/

section Objects

variable {β : Type} {key k : String} {v : β} {m m' : List (String × β)}

/-- The keys stand in their order, each once. -/
def SortedKeys (m : List (String × β)) : Prop := m.Pairwise fun a b => a.1 < b.1

/-- The value under a key, written or written anew. -/
def insertKey (key : String) (v : β) : List (String × β) → List (String × β)
  | [] => [(key, v)]
  | (k, w) :: rest =>
    if key < k then (key, v) :: (k, w) :: rest
    else if key = k then (key, v) :: rest
    else (k, w) :: insertKey key v rest

theorem lookup_cons_of_ne (h : k ≠ key) : ((key, v) :: m).lookup k = m.lookup k := by
  rw [List.lookup_cons, beq_false_of_ne h]

theorem lookup_insertKey (k key : String) (v : β) (m : List (String × β)) :
    (insertKey key v m).lookup k = if k = key then some v else m.lookup k := by
  induction m with
  | nil =>
    by_cases h : k = key
    · rw [if_pos h, h]
      exact List.lookup_cons_self
    · rw [if_neg h]
      exact lookup_cons_of_ne h
  | cons e rest ih =>
    obtain ⟨k', w⟩ := e
    unfold insertKey
    by_cases hlt : key < k'
    · rw [if_pos hlt]
      by_cases h : k = key
      · rw [if_pos h, h, List.lookup_cons_self]
      · rw [if_neg h, lookup_cons_of_ne h]
    · rw [if_neg hlt]
      by_cases heq : key = k'
      · rw [if_pos heq]
        by_cases h : k = key
        · rw [if_pos h, h, List.lookup_cons_self]
        · rw [if_neg h, lookup_cons_of_ne h, lookup_cons_of_ne (heq ▸ h)]
      · rw [if_neg heq]
        by_cases hk : k = k'
        · rw [hk, List.lookup_cons_self, List.lookup_cons_self, if_neg (Ne.symm heq)]
        · rw [lookup_cons_of_ne hk, lookup_cons_of_ne hk, ih]

theorem mem_keys_insertKey (h : k ∈ (insertKey key v m).map Prod.fst) :
    k = key ∨ k ∈ m.map Prod.fst := by
  induction m with
  | nil => exact .inl (by simpa [insertKey] using h)
  | cons e rest ih =>
    obtain ⟨k', w⟩ := e
    unfold insertKey at h
    split_ifs at h with hlt heq
    · simpa using h
    · subst heq
      rw [List.map_cons, List.mem_cons] at h
      exact h.imp_right fun hk => List.mem_cons_of_mem _ hk
    · rw [List.map_cons, List.mem_cons] at h
      rcases h with rfl | h
      · exact .inr (by simp)
      · exact (ih h).imp_right fun hk => List.mem_cons_of_mem _ hk

theorem SortedKeys.insertKey (h : SortedKeys m) (key : String) (v : β) :
    SortedKeys (insertKey key v m) := by
  induction m with
  | nil => exact List.pairwise_singleton _ _
  | cons e rest ih =>
    obtain ⟨k', w⟩ := e
    obtain ⟨hhead, htail⟩ := List.pairwise_cons.mp h
    unfold Lib.insertKey
    split_ifs with hlt heq
    · refine List.pairwise_cons.mpr ⟨?_, h⟩
      intro a ha
      rcases List.mem_cons.mp ha with rfl | ha
      · exact hlt
      · exact hlt.trans (hhead a ha)
    · subst heq
      exact List.pairwise_cons.mpr ⟨hhead, htail⟩
    · refine List.pairwise_cons.mpr ⟨?_, ih htail⟩
      intro a ha
      rcases mem_keys_insertKey (List.mem_map_of_mem (f := Prod.fst) ha) with hk | hk
      · rw [hk]
        exact lt_of_le_of_ne (not_lt.mp hlt) (Ne.symm heq)
      · obtain ⟨b, hb, hkb⟩ := List.mem_map.mp hk
        rw [← hkb]
        exact hhead b hb

/-- A member of a sorted object is what its key finds. -/
theorem lookup_of_mem (h : SortedKeys m) (hmem : (k, v) ∈ m) : m.lookup k = some v := by
  induction m with
  | nil => cases hmem
  | cons e rest ih =>
    obtain ⟨hhead, htail⟩ := List.pairwise_cons.mp h
    rcases List.mem_cons.mp hmem with rfl | hmem
    · simp
    · rw [lookup_cons_of_ne (hhead _ hmem).ne', ih htail hmem]

theorem mem_of_lookup (h : m.lookup k = some v) : (k, v) ∈ m := by
  induction m with
  | nil => cases h
  | cons e rest ih =>
    obtain ⟨k', w⟩ := e
    rw [List.lookup_cons] at h
    split at h
    · next heq =>
      cases h
      rw [beq_iff_eq.mp heq]
      exact List.mem_cons_self
    · exact List.mem_cons_of_mem _ (ih h)

theorem lookup_eq_none (h : k ∉ m.map Prod.fst) : m.lookup k = none := by
  cases hlook : m.lookup k with
  | none => rfl
  | some v => exact absurd (List.mem_map_of_mem (f := Prod.fst) (mem_of_lookup hlook)) h

/-- A sorted object is what its keys find. -/
theorem members_ext (h : SortedKeys m) (h' : SortedKeys m')
    (hlook : ∀ k, m.lookup k = m'.lookup k) : m = m' := by
  have hmem : ∀ a, a ∈ m ↔ a ∈ m' := by
    rintro ⟨k, v⟩
    constructor
    · intro ha
      exact mem_of_lookup (hlook k ▸ lookup_of_mem h ha)
    · intro ha
      exact mem_of_lookup ((hlook k).symm ▸ lookup_of_mem h' ha)
  have hnodup : ∀ {l : List (String × β)}, SortedKeys l → l.Nodup := fun hl =>
    hl.imp fun hlt heq => hlt.ne (congrArg Prod.fst heq)
  have hperm : m.Perm m' := (List.perm_ext_iff_of_nodup (hnodup h) (hnodup h')).mpr hmem
  exact hperm.eq_of_pairwise (fun a b _ _ hab hba => absurd hab hba.not_gt) h h'

end Objects

/-! ## Values -/

namespace Json

/-- Every object in the value is a sorted map. -/
inductive WF : Json → Prop
  | null : WF .null
  | bool (b : Bool) : WF (.bool b)
  | int (n : ℤ) : WF (.int n)
  | float (text : String) : WF (.float text)
  | str (text : String) : WF (.str text)
  | arr {items : List Json} (h : ∀ j ∈ items, WF j) : WF (.arr items)
  | obj {members : Members} (hkeys : SortedKeys members) (h : ∀ e ∈ members, WF e.2) :
    WF (.obj members)

theorem WF.sorted {m : Members} (h : (Json.obj m).WF) : SortedKeys m := by
  cases h with
  | obj hkeys _ => exact hkeys

theorem WF.of_mem {m : Members} (h : (Json.obj m).WF) {e : String × Json} (he : e ∈ m) : e.2.WF := by
  cases h with
  | obj _ hvalues => exact hvalues e he

theorem WF.of_lookup {m : Members} (h : (Json.obj m).WF) {k : String} {v : Json}
    (hv : m.lookup k = some v) : v.WF :=
  h.of_mem (mem_of_lookup hv)

theorem WF.insertKey {m : Members} (h : (Json.obj m).WF) (key : String) {v : Json} (hv : v.WF) :
    (Json.obj (insertKey key v m)).WF := by
  refine .obj (h.sorted.insertKey key v) ?_
  rintro ⟨k, w⟩ he
  have hlook := lookup_of_mem (h.sorted.insertKey key v) he
  rw [lookup_insertKey] at hlook
  split_ifs at hlook
  · cases hlook
    exact hv
  · exact h.of_lookup hlook

/-- The value is an object. -/
def IsObj (j : Json) : Prop := ∃ m, j = .obj m

/-- The value at a path of keys. -/
def get : List String → Json → Option Json
  | [], j => some j
  | k :: path, .obj m => (m.lookup k).bind (get path)
  | _ :: _, _ => none

theorem get_cons_of_not_isObj {j : Json} (h : ¬ j.IsObj) (k : String) (path : List String) :
    j.get (k :: path) = none := by
  cases j with
  | obj m => exact absurd ⟨m, rfl⟩ h
  | _ => rfl

theorem get_cons_obj (m : Members) (k : String) (path : List String) :
    (Json.obj m).get (k :: path) = (m.lookup k).bind (get path) := rfl

/-- A member is smaller than its object. -/
theorem sizeOf_lt_of_lookup {m : Members} {k : String} {v : Json} (h : m.lookup k = some v) :
    sizeOf v < sizeOf m := by
  have hpair := List.sizeOf_lt_of_mem (mem_of_lookup h)
  have hv : sizeOf v < sizeOf (k, v) := by simp
  omega

end Json

end NexusFlow.Lib
