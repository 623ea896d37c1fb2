import Mathlib.Data.List.Nodup
import Mathlib.Data.List.Basic

/-!
# Maps in key order

A finite map as the list of its entries, no key twice, each insertion in key order: the model of a
`BTreeMap` that a program inserts into, removes from, looks up and iterates over. What is proved
of it is how a lookup reads through each operation (`get_insert`, `get_erase`, `get_foldl_insert`,
`get_foldl_erase`).
-/

namespace NexusFlow.Lib

/-- A finite map: its entries, no key twice. -/
structure KeyMap (κ ν : Type) where
  entries : List (κ × ν)
  nodup : (entries.map Prod.fst).Nodup
deriving DecidableEq

namespace KeyMap

variable {κ ν : Type}

/-- The map with no entry. -/
def empty : KeyMap κ ν := ⟨[], List.nodup_nil⟩

variable [DecidableEq κ]

/-- `map.get(k)`. -/
def get (m : KeyMap κ ν) (k : κ) : Option ν := m.entries.lookup k

/-- `map.contains_key(k)`. -/
def contains (m : KeyMap κ ν) (k : κ) : Bool := (m.get k).isSome

/-- `map.keys()`. -/
def keys (m : KeyMap κ ν) : List κ := m.entries.map Prod.fst

theorem lookup_filter_key (p : κ → Bool) (k : κ) : ∀ l : List (κ × ν),
    (l.filter fun e => p e.1).lookup k = if p k then l.lookup k else none
  | [] => by simp
  | (j, v) :: l => by
    have ih := lookup_filter_key p k l
    by_cases hj : p j
    · rw [List.filter_cons_of_pos (by simpa using hj), List.lookup_cons, List.lookup_cons, ih]
      by_cases hk : k = j
      · simp [hk, hj]
      · simp [beq_eq_false_iff_ne.mpr hk]
    · rw [List.filter_cons_of_neg (by simpa using hj), ih, List.lookup_cons]
      by_cases hk : k = j
      · simp [hk, hj]
      · simp [beq_eq_false_iff_ne.mpr hk]

/-- `map.remove(k)`. -/
def erase (m : KeyMap κ ν) (k : κ) : KeyMap κ ν where
  entries := m.entries.filter fun e => e.1 ≠ k
  nodup := m.nodup.sublist (List.filter_sublist.map _)

@[simp] theorem get_empty (k : κ) : (empty : KeyMap κ ν).get k = none := rfl

@[simp] theorem get_erase (m : KeyMap κ ν) (k j : κ) :
    (m.erase k).get j = if j = k then none else m.get j := by
  have h := lookup_filter_key (fun x => decide (x ≠ k)) j m.entries
  unfold get erase
  rw [h]
  by_cases hj : j = k <;> simp [hj]

theorem get_foldl_erase (ks : List κ) (m : KeyMap κ ν) (j : κ) :
    (ks.foldl erase m).get j = if j ∈ ks then none else m.get j := by
  induction ks generalizing m with
  | nil => simp
  | cons k ks ih =>
    rw [List.foldl_cons, ih, get_erase]
    by_cases hj : j ∈ ks
    · simp [hj]
    · by_cases hk : j = k <;> simp [hj, hk]

theorem mem_entries_iff (m : KeyMap κ ν) (k : κ) (v : ν) :
    (k, v) ∈ m.entries ↔ m.get k = some v := by
  obtain ⟨l, hl⟩ := m
  unfold get
  induction l with
  | nil => simp
  | cons e l ih =>
    obtain ⟨j, w⟩ := e
    have hcons := List.nodup_cons.mp hl
    have ih := ih hcons.2
    rw [List.mem_cons, List.lookup_cons]
    by_cases hk : k = j
    · subst hk
      simp only [Prod.mk.injEq, true_and, beq_self_eq_true, Option.some.injEq]
      constructor
      · rintro (rfl | h)
        · rfl
        · exact absurd (List.mem_map.mpr ⟨_, h, rfl⟩) hcons.1
      · rintro rfl
        exact Or.inl rfl
    · simp only [Prod.mk.injEq, hk, false_and, false_or, beq_eq_false_iff_ne.mpr hk]
      exact ih

theorem mem_keys_iff (m : KeyMap κ ν) (k : κ) : k ∈ m.keys ↔ (m.get k).isSome = true := by
  unfold keys
  rw [Option.isSome_iff_exists, List.mem_map]
  constructor
  · rintro ⟨⟨j, v⟩, hmem, rfl⟩
    exact ⟨v, (m.mem_entries_iff j v).mp hmem⟩
  · rintro ⟨v, hv⟩
    exact ⟨(k, v), (m.mem_entries_iff k v).mpr hv, rfl⟩

/-- `map.retain(p)`. -/
def filter (m : KeyMap κ ν) (p : κ × ν → Bool) : KeyMap κ ν where
  entries := m.entries.filter p
  nodup := m.nodup.sublist (List.filter_sublist.map _)

omit [DecidableEq κ] in
theorem mem_entries_filter {m : KeyMap κ ν} {p : κ × ν → Bool} {e : κ × ν} :
    e ∈ (m.filter p).entries ↔ e ∈ m.entries ∧ p e = true := List.mem_filter

theorem get_filter (m : KeyMap κ ν) (p : κ × ν → Bool) (k : κ) :
    (m.filter p).get k = (m.get k).filter fun v => p (k, v) := by
  ext v
  rw [← mem_entries_iff, mem_entries_filter, mem_entries_iff, Option.filter_eq_some_iff]

/-- Removing the keys of every entry that fails `p`, one by one, keeps the entries of `p`. -/
theorem foldl_erase_keys (m : KeyMap κ ν) (p : κ × ν → Bool) :
    ((m.entries.filter fun e => !p e).map Prod.fst).foldl erase m = m.filter p := by
  have hgen : ∀ (ks : List κ) (l : KeyMap κ ν),
      (ks.foldl erase l).entries = l.entries.filter fun e => Decidable.decide (e.1 ∉ ks) := by
    intro ks
    induction ks with
    | nil => simp
    | cons k ks ih =>
      intro l
      rw [List.foldl_cons, ih, erase, List.filter_filter]
      refine List.filter_congr fun e _ => ?_
      simp [Bool.and_comm]
  have hentries : (((m.entries.filter fun e => !p e).map Prod.fst).foldl erase m).entries
      = (m.filter p).entries := by
    rw [hgen]
    refine List.filter_congr fun e he => ?_
    have hiff : e.1 ∉ (m.entries.filter fun e => !p e).map Prod.fst ↔ p e = true := by
      constructor
      · intro hnot
        by_contra hp
        exact hnot (List.mem_map.mpr ⟨e, List.mem_filter.mpr ⟨he, by simpa using hp⟩, rfl⟩)
      · intro hp hmem
        obtain ⟨e', he', hfst⟩ := List.mem_map.mp hmem
        obtain ⟨hmem', hp'⟩ := List.mem_filter.mp he'
        have h1 := (m.mem_entries_iff e.1 e.2).mp he
        have h2 := (m.mem_entries_iff e'.1 e'.2).mp hmem'
        rw [hfst, h1, Option.some.injEq] at h2
        rw [show e' = e from Prod.ext hfst h2.symm, hp] at hp'
        cases hp'
    rw [Bool.eq_iff_iff]
    simpa using hiff
  cases h : ((m.entries.filter fun e => !p e).map Prod.fst).foldl erase m
  rw [h] at hentries
  simp only [filter, mk.injEq] at hentries ⊢
  exact hentries

theorem erase_eq_self {m : KeyMap κ ν} {k : κ} (h : m.get k = none) : m.erase k = m := by
  obtain ⟨l, hl⟩ := m
  simp only [erase, mk.injEq, List.filter_eq_self, decide_eq_true_eq]
  rintro ⟨j, v⟩ he rfl
  have := (mem_entries_iff ⟨l, hl⟩ j v).mp he
  rw [h] at this
  cases this

/-- Where no key is twice, the order of the entries does not tell. -/
theorem lookup_perm {l l' : List (κ × ν)} (hl : (l.map Prod.fst).Nodup) (h : l.Perm l') (k : κ) :
    l.lookup k = l'.lookup k := by
  have hl' : (l'.map Prod.fst).Nodup := (h.map _).nodup_iff.mp hl
  refine Option.ext fun v => ?_
  have hm := mem_entries_iff ⟨l, hl⟩ k v
  have hm' := mem_entries_iff ⟨l', hl'⟩ k v
  exact hm.symm.trans (h.mem_iff.trans hm')

/-- The entries of a map, told by what it looks up. -/
theorem entries_perm {m m' : KeyMap κ ν} (h : ∀ k, m.get k = m'.get k) :
    m.entries.Perm m'.entries := by
  refine (List.perm_ext_iff_of_nodup m.nodup.of_map m'.nodup.of_map).mpr fun e => ?_
  rw [mem_entries_iff, mem_entries_iff, h]

/-! ## Maps of values -/

section Values

variable {ω : Type} (f : ν → ω)

omit [DecidableEq κ] in
/-- Every value changed by `f`. -/
def mapValues (m : KeyMap κ ν) : KeyMap κ ω where
  entries := m.entries.map fun e => (e.1, f e.2)
  nodup := by
    rw [List.map_map]
    exact m.nodup

omit [DecidableEq κ] in
theorem keys_mapValues (m : KeyMap κ ν) : (m.mapValues f).keys = m.keys := by
  unfold keys mapValues
  rw [List.map_map]
  rfl

theorem lookup_mapValues (k : κ) (l : List (κ × ν)) :
    (l.map fun e => (e.1, f e.2)).lookup k = (l.lookup k).map f := by
  induction l with
  | nil => rfl
  | cons e l ih =>
    rw [List.map_cons, List.lookup_cons, List.lookup_cons, ih]
    cases k == e.1 <;> rfl

theorem get_mapValues (m : KeyMap κ ν) (k : κ) : (m.mapValues f).get k = (m.get k).map f :=
  lookup_mapValues f k m.entries

theorem contains_mapValues (m : KeyMap κ ν) (k : κ) :
    (m.mapValues f).contains k = m.contains k := by
  unfold contains
  rw [get_mapValues, Option.isSome_map]

theorem erase_mapValues (m : KeyMap κ ν) (k : κ) :
    (m.mapValues f).erase k = (m.erase k).mapValues f := by
  obtain ⟨l, hl⟩ := m
  simp only [erase, mapValues, mk.injEq, List.filter_map]
  rfl

end Values

section Order

variable [LT κ] [DecidableLT κ]

/-- The entries with `v` at `k`: over an old entry of `k`, else before the first greater key. -/
def insertEntry (k : κ) (v : ν) : List (κ × ν) → List (κ × ν)
  | [] => [(k, v)]
  | (j, w) :: l =>
    if k = j then (k, v) :: l
    else if k < j then (k, v) :: (j, w) :: l.filter (fun e => e.1 ≠ k)
    else (j, w) :: insertEntry k v l

theorem keys_insertEntry (k : κ) (v : ν) : ∀ l : List (κ × ν), ∀ j,
    j ∈ (insertEntry k v l).map Prod.fst → j = k ∨ j ∈ l.map Prod.fst
  | [], j, h => by simpa [insertEntry] using h
  | (i, w) :: l, j, h => by
    unfold insertEntry at h
    split_ifs at h with hk hlt
    · subst hk
      rw [List.map_cons, List.mem_cons] at h
      simpa using h
    · rw [List.map_cons, List.map_cons, List.mem_cons, List.mem_cons] at h
      rcases h with rfl | rfl | h
      · exact Or.inl rfl
      · simp
      · obtain ⟨e, he, rfl⟩ := List.mem_map.mp h
        exact Or.inr (List.mem_cons_of_mem _ (List.mem_map.mpr ⟨e, List.mem_of_mem_filter he, rfl⟩))
    · rw [List.map_cons, List.mem_cons] at h
      rcases h with rfl | h
      · simp
      · rcases keys_insertEntry k v l j h with rfl | h
        · exact Or.inl rfl
        · exact Or.inr (List.mem_cons_of_mem _ h)

theorem nodup_insertEntry (k : κ) (v : ν) : ∀ l : List (κ × ν), (l.map Prod.fst).Nodup →
    ((insertEntry k v l).map Prod.fst).Nodup
  | [], _ => by simp [insertEntry]
  | (i, w) :: l, h => by
    obtain ⟨hi, hl⟩ := List.nodup_cons.mp h
    unfold insertEntry
    split_ifs with hk hlt
    · subst hk
      exact h
    · have hfilter : ((l.filter fun e => decide (e.1 ≠ k)).map Prod.fst).Nodup :=
        hl.sublist (List.filter_sublist.map _)
      refine List.nodup_cons.mpr ⟨?_, List.nodup_cons.mpr ⟨?_, hfilter⟩⟩
      · simp [hk]
      · intro hmem
        obtain ⟨e, he, heq⟩ := List.mem_map.mp hmem
        exact hi (List.mem_map.mpr ⟨e, List.mem_of_mem_filter he, heq⟩)
    · refine List.nodup_cons.mpr ⟨?_, nodup_insertEntry k v l hl⟩
      intro hmem
      rcases keys_insertEntry k v l i hmem with rfl | hmem
      · exact hk rfl
      · exact hi hmem

theorem lookup_insertEntry (k j : κ) (v : ν) : ∀ l : List (κ × ν),
    (insertEntry k v l).lookup j = if j = k then some v else l.lookup j
  | [] => by
    by_cases h : j = k
    · simp [insertEntry, h]
    · simp [insertEntry, h, List.lookup_cons, beq_eq_false_iff_ne.mpr h]
  | (i, w) :: l => by
    have ih := lookup_insertEntry k j v l
    have hfilter := lookup_filter_key (fun x => decide (x ≠ k)) j l
    unfold insertEntry
    by_cases hk : k = i
    · subst hk
      rw [if_pos rfl, List.lookup_cons, List.lookup_cons]
      by_cases hj : j = k
      · simp [hj]
      · simp [hj, beq_eq_false_iff_ne.mpr hj]
    · rw [if_neg hk]
      by_cases hj : j = k
      · subst hj
        rw [if_pos rfl] at ih ⊢
        split_ifs
        · simp
        · rw [List.lookup_cons, beq_eq_false_iff_ne.mpr hk]
          exact ih
      · rw [if_neg hj] at ih ⊢
        split_ifs
        · rw [List.lookup_cons, List.lookup_cons, List.lookup_cons, hfilter]
          simp [hj, beq_eq_false_iff_ne.mpr hj]
        · rw [List.lookup_cons, List.lookup_cons, ih]

/-- `map.insert(k, v)`. -/
def insert (m : KeyMap κ ν) (k : κ) (v : ν) : KeyMap κ ν where
  entries := insertEntry k v m.entries
  nodup := nodup_insertEntry k v m.entries m.nodup

@[simp] theorem get_insert (m : KeyMap κ ν) (k j : κ) (v : ν) :
    (m.insert k v).get j = if j = k then some v else m.get j :=
  lookup_insertEntry k j v m.entries

/-- Entries inserted one by one: the last one of a key is the one that stays. -/
theorem get_foldl_insert (l : List (κ × ν)) (m : KeyMap κ ν) (j : κ) :
    (l.foldl (fun m e => m.insert e.1 e.2) m).get j = (l.reverse.lookup j).or (m.get j) := by
  induction l generalizing m with
  | nil => rfl
  | cons e l ih =>
    obtain ⟨i, v⟩ := e
    rw [List.foldl_cons, ih, get_insert, List.reverse_cons, List.lookup_append, Option.or_assoc]
    congr 1
    by_cases h : j = i
    · simp [h]
    · simp [h, List.lookup_cons, beq_eq_false_iff_ne.mpr h]

theorem insertEntry_mapValues {ω : Type} (f : ν → ω) (k : κ) (v : ν) (l : List (κ × ν)) :
    insertEntry k (f v) (l.map fun e => (e.1, f e.2)) =
      (insertEntry k v l).map fun e => (e.1, f e.2) := by
  induction l with
  | nil => rfl
  | cons e l ih =>
    obtain ⟨j, w⟩ := e
    simp only [List.map_cons, insertEntry]
    split_ifs with hk hlt
    · rfl
    · simp only [List.map_cons, List.filter_map]
      rfl
    · rw [ih, List.map_cons]

theorem insert_mapValues {ω : Type} (f : ν → ω) (m : KeyMap κ ν) (k : κ) (v : ν) :
    (m.mapValues f).insert k (f v) = (m.insert k v).mapValues f := by
  obtain ⟨l, hl⟩ := m
  simp only [insert, mapValues, mk.injEq]
  exact insertEntry_mapValues f k v l

end Order

end KeyMap

end NexusFlow.Lib
