import NexusFlow.Core.TagTables

/-!
# The entries of a list field

`present_entries` (`crates/core/src/model.rs:366-404`) is one pass over the present adds of a list
field. It keeps, for each value, the coordinate of the first and of the latest add seen, and
overwrites the label with the latest one's.

* `Tallies` is the invariant of the pass: what is kept for a value is read off its first and its
  latest add. `Tallies.record` is one turn, `tallies_fold` the whole pass.
* `presentEntries_eq_of_perm`: adds with distinct tags tally in one way, so the list depends on the
  set of adds alone.
-/

namespace NexusFlow.Core

open NexusFlow.Foundation

/-- No add of the value of `a` has a smaller `(lamport, site, tag)`. -/
def IsFirst (adds : List EntryAdd) (a : EntryAdd) : Prop :=
  a ∈ adds ∧ ∀ b ∈ adds, b.value = a.value → a.coordinate ≤ b.coordinate

/-- No add of the value of `a` has a greater `(lamport, site, tag)`. -/
def IsLatest (adds : List EntryAdd) (a : EntryAdd) : Prop :=
  a ∈ adds ∧ ∀ b ∈ adds, b.value = a.value → b.coordinate ≤ a.coordinate

/-- What is kept for a value after one more add of it. -/
def ValueEntry.record (e : ValueEntry) (add : EntryAdd) : ValueEntry where
  value := e.value
  first := if add.coordinate < e.first then add.coordinate else e.first
  latest := if e.latest < add.coordinate then add.coordinate else e.latest
  label := if e.latest < add.coordinate then add.label else e.label

/-- What is kept for a value after its first add. -/
def EntryAdd.entry (add : EntryAdd) : ValueEntry :=
  ⟨add.value, add.coordinate, add.coordinate, add.label⟩

/-! ## One turn of the pass -/

theorem values_recordAdd (add : EntryAdd) (l : List ValueEntry) (v : String) :
    v ∈ (recordAdd add l).map ValueEntry.value ↔ v = add.value ∨ v ∈ l.map ValueEntry.value := by
  induction l with
  | nil => simp [recordAdd]
  | cons e l ih =>
    unfold recordAdd
    by_cases h1 : add.value = e.value
    · rw [if_pos h1]
      simp [h1]
    · rw [if_neg h1]
      by_cases h2 : add.value < e.value
      · rw [if_pos h2]
        simp
      · rw [if_neg h2]
        simp only [List.map_cons, List.mem_cons, ih]
        tauto

/-- The pass is in the order of the values. -/
def ByValue (l : List ValueEntry) : Prop := l.Pairwise fun a b => a.value < b.value

theorem ByValue.recordAdd {l : List ValueEntry} (h : ByValue l) (add : EntryAdd) :
    ByValue (recordAdd add l) := by
  induction l with
  | nil => exact List.pairwise_singleton _ _
  | cons e l ih =>
    obtain ⟨hhead, htail⟩ := List.pairwise_cons.mp h
    unfold Core.recordAdd
    by_cases h1 : add.value = e.value
    · rw [if_pos h1]
      exact List.pairwise_cons.mpr ⟨hhead, htail⟩
    · rw [if_neg h1]
      by_cases h2 : add.value < e.value
      · rw [if_pos h2]
        refine List.pairwise_cons.mpr ⟨fun x hx => ?_, h⟩
        rcases List.mem_cons.mp hx with rfl | hx
        · exact h2
        · exact h2.trans (hhead x hx)
      · rw [if_neg h2]
        refine List.pairwise_cons.mpr ⟨fun x hx => ?_, ih htail⟩
        have hv : x.value ∈ (Core.recordAdd add l).map ValueEntry.value := List.mem_map_of_mem hx
        rcases (values_recordAdd add l x.value).mp hv with hv | hv
        · rw [hv]
          exact lt_of_le_of_ne (not_lt.mp h2) (Ne.symm h1)
        · obtain ⟨y, hy, hyx⟩ := List.mem_map.mp hv
          exact hyx ▸ hhead y hy

/-- **One add** leaves the entries of the other values, and makes or updates the entry of its own. -/
theorem mem_recordAdd {l : List ValueEntry} (h : ByValue l) {add : EntryAdd} {x : ValueEntry}
    (hx : x ∈ recordAdd add l) :
    (x ∈ l ∧ x.value ≠ add.value) ∨ (x = add.entry ∧ add.value ∉ l.map ValueEntry.value) ∨
      ∃ e ∈ l, e.value = add.value ∧ x = e.record add := by
  induction l with
  | nil => exact .inr (.inl ⟨List.mem_singleton.mp hx, List.not_mem_nil⟩)
  | cons e l ih =>
    obtain ⟨hhead, htail⟩ := List.pairwise_cons.mp h
    unfold recordAdd at hx
    by_cases h1 : add.value = e.value
    · rw [if_pos h1] at hx
      rcases List.mem_cons.mp hx with rfl | hx
      · exact .inr (.inr ⟨e, List.mem_cons_self, h1.symm, rfl⟩)
      · exact .inl ⟨List.mem_cons_of_mem e hx, h1 ▸ (hhead x hx).ne'⟩
    · rw [if_neg h1] at hx
      by_cases h2 : add.value < e.value
      · rw [if_pos h2] at hx
        have hnew : ∀ y ∈ e :: l, add.value < y.value := by
          intro y hy
          rcases List.mem_cons.mp hy with rfl | hy
          · exact h2
          · exact h2.trans (hhead y hy)
        rcases List.mem_cons.mp hx with rfl | hx
        · refine .inr (.inl ⟨rfl, fun hmem => ?_⟩)
          obtain ⟨y, hy, hyv⟩ := List.mem_map.mp hmem
          exact (hnew y hy).ne' hyv
        · exact .inl ⟨hx, (hnew x hx).ne'⟩
      · rw [if_neg h2] at hx
        rcases List.mem_cons.mp hx with rfl | hx
        · exact .inl ⟨List.mem_cons_self, Ne.symm h1⟩
        · rcases ih htail hx with ⟨hmem, hne⟩ | ⟨hnew, hnot⟩ | ⟨y, hy, hyv, hxy⟩
          · exact .inl ⟨List.mem_cons_of_mem e hmem, hne⟩
          · refine .inr (.inl ⟨hnew, ?_⟩)
            rw [List.map_cons, List.mem_cons, not_or]
            exact ⟨h1, hnot⟩
          · exact .inr (.inr ⟨y, List.mem_cons_of_mem e hy, hyv, hxy⟩)

/-! ## The invariant -/

/-- **`byValue` tallies `adds`**: each value once, with its first and its latest add. -/
structure Tallies (adds : List EntryAdd) (byValue : List ValueEntry) : Prop where
  sorted : ByValue byValue
  values : ∀ v, v ∈ byValue.map ValueEntry.value ↔ v ∈ adds.map EntryAdd.value
  first : ∀ e ∈ byValue, ∃ a, IsFirst adds a ∧ a.value = e.value ∧ a.coordinate = e.first
  latest : ∀ e ∈ byValue, ∃ a, IsLatest adds a ∧ a.value = e.value ∧ a.coordinate = e.latest ∧
    a.label = e.label

section Turn

variable {adds : List EntryAdd} {add a : EntryAdd}

/-- An add of another value leaves the first and the latest add of a value. -/
theorem IsFirst.cons_of_ne (h : IsFirst adds a) (hne : a.value ≠ add.value) :
    IsFirst (add :: adds) a := by
  refine ⟨List.mem_cons_of_mem add h.1, fun b hb hv => ?_⟩
  rcases List.mem_cons.mp hb with rfl | hb
  · exact absurd hv.symm hne
  · exact h.2 b hb hv

theorem IsLatest.cons_of_ne (h : IsLatest adds a) (hne : a.value ≠ add.value) :
    IsLatest (add :: adds) a := by
  refine ⟨List.mem_cons_of_mem add h.1, fun b hb hv => ?_⟩
  rcases List.mem_cons.mp hb with rfl | hb
  · exact absurd hv.symm hne
  · exact h.2 b hb hv

/-- The first add of a value, after one more add of it. -/
theorem IsFirst.cons (h : IsFirst adds a) (hv : a.value = add.value) :
    IsFirst (add :: adds) (if add.coordinate < a.coordinate then add else a) := by
  by_cases hlt : add.coordinate < a.coordinate
  · rw [if_pos hlt]
    refine ⟨List.mem_cons_self, fun b hb hbv => ?_⟩
    rcases List.mem_cons.mp hb with rfl | hb
    · exact le_rfl
    · exact hlt.le.trans (h.2 b hb (hbv.trans hv.symm))
  · rw [if_neg hlt]
    refine ⟨List.mem_cons_of_mem add h.1, fun b hb hbv => ?_⟩
    rcases List.mem_cons.mp hb with rfl | hb
    · exact not_lt.mp hlt
    · exact h.2 b hb hbv

theorem IsLatest.cons (h : IsLatest adds a) (hv : a.value = add.value) :
    IsLatest (add :: adds) (if a.coordinate < add.coordinate then add else a) := by
  by_cases hlt : a.coordinate < add.coordinate
  · rw [if_pos hlt]
    refine ⟨List.mem_cons_self, fun b hb hbv => ?_⟩
    rcases List.mem_cons.mp hb with rfl | hb
    · exact le_rfl
    · exact (h.2 b hb (hbv.trans hv.symm)).trans hlt.le
  · rw [if_neg hlt]
    refine ⟨List.mem_cons_of_mem add h.1, fun b hb hbv => ?_⟩
    rcases List.mem_cons.mp hb with rfl | hb
    · exact not_lt.mp hlt
    · exact h.2 b hb hbv

/-- The only add of a value is its first and its latest. -/
theorem isFirst_cons_self (h : add.value ∉ adds.map EntryAdd.value) :
    IsFirst (add :: adds) add ∧ IsLatest (add :: adds) add := by
  have honly : ∀ b ∈ add :: adds, b.value = add.value → b = add := by
    intro b hb hv
    rcases List.mem_cons.mp hb with rfl | hb
    · rfl
    · exact absurd (hv ▸ List.mem_map_of_mem hb) h
  exact ⟨⟨List.mem_cons_self, fun b hb hv => (honly b hb hv).symm ▸ le_rfl⟩,
    ⟨List.mem_cons_self, fun b hb hv => (honly b hb hv).symm ▸ le_rfl⟩⟩

/-- **One turn keeps the tally.** -/
theorem Tallies.record {byValue : List ValueEntry} (h : Tallies adds byValue) (add : EntryAdd) :
    Tallies (add :: adds) (recordAdd add byValue) where
  sorted := h.sorted.recordAdd add
  values v := by rw [values_recordAdd, h.values v, List.map_cons, List.mem_cons]
  first x hx := by
    rcases mem_recordAdd h.sorted hx with ⟨hx, hne⟩ | ⟨rfl, hnew⟩ | ⟨e, he, hv, rfl⟩
    · obtain ⟨a, ha, hav, hac⟩ := h.first x hx
      exact ⟨a, ha.cons_of_ne (hav ▸ hne), hav, hac⟩
    · exact ⟨add, (isFirst_cons_self fun hmem => hnew ((h.values _).mpr hmem)).1, rfl, rfl⟩
    · obtain ⟨a, ha, hav, hac⟩ := h.first e he
      refine ⟨_, ha.cons (hav.trans hv), ?_, ?_⟩
      · split_ifs
        · exact hv.symm
        · exact hav
      · rw [ValueEntry.record, ← hac, apply_ite EntryAdd.coordinate]
  latest x hx := by
    rcases mem_recordAdd h.sorted hx with ⟨hx, hne⟩ | ⟨rfl, hnew⟩ | ⟨e, he, hv, rfl⟩
    · obtain ⟨a, ha, hav, hac⟩ := h.latest x hx
      exact ⟨a, ha.cons_of_ne (hav ▸ hne), hav, hac⟩
    · exact ⟨add, (isFirst_cons_self fun hmem => hnew ((h.values _).mpr hmem)).2, rfl, rfl, rfl⟩
    · obtain ⟨a, ha, hav, hac, hal⟩ := h.latest e he
      refine ⟨_, ha.cons (hav.trans hv), ?_, ?_, ?_⟩
      · split_ifs
        · exact hv.symm
        · exact hav
      · rw [ValueEntry.record, ← hac, apply_ite EntryAdd.coordinate]
      · rw [ValueEntry.record, ← hac, ← hal, apply_ite EntryAdd.label]

end Turn

theorem Tallies.of_perm {adds adds' : List EntryAdd} {byValue : List ValueEntry}
    (h : Tallies adds byValue) (hp : adds.Perm adds') : Tallies adds' byValue where
  sorted := h.sorted
  values v := (h.values v).trans (hp.map EntryAdd.value).mem_iff
  first e he := by
    obtain ⟨a, ⟨ha, hmin⟩, hrest⟩ := h.first e he
    exact ⟨a, ⟨hp.mem_iff.mp ha, fun b hb => hmin b (hp.mem_iff.mpr hb)⟩, hrest⟩
  latest e he := by
    obtain ⟨a, ⟨ha, hmax⟩, hrest⟩ := h.latest e he
    exact ⟨a, ⟨hp.mem_iff.mp ha, fun b hb => hmax b (hp.mem_iff.mpr hb)⟩, hrest⟩

/-- The whole pass. -/
theorem tallies_fold (adds : List EntryAdd) :
    Tallies adds (adds.foldl (fun byValue add => recordAdd add byValue) []) := by
  have hrun : ∀ (seen : List EntryAdd) (byValue : List ValueEntry), Tallies seen byValue →
      Tallies (adds.reverse ++ seen)
        (adds.foldl (fun byValue add => recordAdd add byValue) byValue) := by
    induction adds with
    | nil => exact fun _ _ h => h
    | cons add adds ih =>
      intro seen byValue h
      rw [List.reverse_cons, List.append_assoc, List.foldl_cons]
      exact ih _ _ (h.record add)
  have hnil : Tallies [] [] :=
    { sorted := .nil
      values := fun _ => Iff.rfl
      first := fun _ h => by cases h
      latest := fun _ h => by cases h }
  have hall := hrun [] [] hnil
  rw [List.append_nil] at hall
  exact hall.of_perm adds.reverse_perm

/-- The list holds the values added. -/
theorem values_presentEntries {adds : List EntryAdd} {v : String} :
    (∃ entry ∈ presentEntries adds, entry.value = v) ↔ ∃ add ∈ adds, add.value = v := by
  have h := (tallies_fold adds).values v
  simp only [List.mem_map] at h
  rw [← h, presentEntries]
  simp only [List.mem_map, List.mem_insertionSort]
  constructor
  · rintro ⟨entry, ⟨e, he, rfl⟩, hv⟩
    exact ⟨e, he, hv⟩
  · rintro ⟨e, he, hv⟩
    exact ⟨_, ⟨e, he, rfl⟩, hv⟩

/-! ## One tally -/

section Distinct

variable {adds : List EntryAdd}

/-- Coordinates tell adds with distinct tags apart. -/
theorem add_eq_of_coordinate (hnd : (adds.map EntryAdd.tag).Nodup) {a b : EntryAdd} (ha : a ∈ adds) (hb : b ∈ adds)
    (h : a.coordinate = b.coordinate) : a = b := by
  have htag : a.tag = b.tag := congrArg (fun c => (ofLex (ofLex c).2).2) h
  exact List.inj_on_of_nodup_map hnd ha hb htag

/-- Adds with distinct tags tally in one way. -/
theorem Tallies.unique (hnd : (adds.map EntryAdd.tag).Nodup) {l l' : List ValueEntry}
    (h : Tallies adds l) (h' : Tallies adds l') : l = l' := by
  have hsub : ∀ {l l' : List ValueEntry}, Tallies adds l → Tallies adds l' → ∀ e ∈ l, e ∈ l' := by
    intro l l' h h' e he
    have hv := (h'.values _).mpr ((h.values _).mp (List.mem_map_of_mem he))
    obtain ⟨e', he', hval⟩ := List.mem_map.mp hv
    obtain ⟨a, ha, hav, hac⟩ := h.first e he
    obtain ⟨a', ha', hav', hac'⟩ := h'.first e' he'
    obtain ⟨b, hb, hbv, hbc, hbl⟩ := h.latest e he
    obtain ⟨b', hb', hbv', hbc', hbl'⟩ := h'.latest e' he'
    have haa : a.value = a'.value := by rw [hav, hav', hval]
    have hbb : b.value = b'.value := by rw [hbv, hbv', hval]
    have hfirst : a.coordinate = a'.coordinate :=
      le_antisymm (ha.2 a' ha'.1 haa.symm) (ha'.2 a ha.1 haa)
    have hlatest : b.coordinate = b'.coordinate :=
      le_antisymm (hb'.2 b hb.1 hbb) (hb.2 b' hb'.1 hbb.symm)
    have hlabel : b.label = b'.label :=
      congrArg EntryAdd.label (add_eq_of_coordinate hnd hb.1 hb'.1 hlatest)
    have heq : e = e' := by
      rw [hac, hac'] at hfirst
      rw [hbc, hbc'] at hlatest
      rw [hbl, hbl'] at hlabel
      cases e
      cases e'
      rw [ValueEntry.mk.injEq]
      exact ⟨hval.symm, hfirst, hlatest, hlabel⟩
    exact heq ▸ he'
  have hnodup : ∀ {l : List ValueEntry}, ByValue l → l.Nodup := fun h =>
    h.imp fun hlt heq => hlt.ne (congrArg ValueEntry.value heq)
  have hperm : l.Perm l' := (List.perm_ext_iff_of_nodup (hnodup h.sorted) (hnodup h'.sorted)).mpr
    fun e => ⟨hsub h h' e, hsub h' h e⟩
  exact hperm.eq_of_pairwise (fun a b _ _ hab hba => absurd hab hba.not_gt) h.sorted h'.sorted

/-- **The list of the present adds**: whatever order they come in it is the same, it has one entry for
each value, with the label of the value's latest add, and the entries are in the order of the first
adds. -/
theorem presentEntries_of_adds (hnd : (adds.map EntryAdd.tag).Nodup) :
    (∀ adds', adds.Perm adds' → presentEntries adds' = presentEntries adds) ∧
    ((presentEntries adds).map FieldEntry.value).Nodup ∧
    (∀ v, v ∈ (presentEntries adds).map FieldEntry.value ↔ v ∈ adds.map EntryAdd.value) ∧
    (∀ entry ∈ presentEntries adds,
      (∃ a, IsLatest adds a ∧ a.value = entry.value ∧ a.label = entry.label) ∧
      ∃ a, IsFirst adds a ∧ a.value = entry.value) ∧
    (presentEntries adds).Pairwise fun x y =>
      ∀ a b, IsFirst adds a → a.value = x.value → IsFirst adds b → b.value = y.value →
        a.coordinate < b.coordinate := by
  have h := tallies_fold adds
  unfold presentEntries
  refine ⟨fun adds' hp => ?_, ?_⟩
  · rw [h.unique hnd ((tallies_fold adds').of_perm hp.symm)]
  generalize adds.foldl (fun byValue add => recordAdd add byValue) [] = byValue at h ⊢
  have hsorted : (byValue.insertionSort fun a b => a.first ≤ b.first).Pairwise
      fun a b => a.first ≤ b.first ∧ a.value ≠ b.value := by
    refine (List.pairwise_insertionSort (fun a b : ValueEntry => a.first ≤ b.first) byValue).and ?_
    have hne : byValue.Pairwise fun a b => a.value ≠ b.value := h.sorted.imp fun hlt => hlt.ne
    exact (List.perm_insertionSort _ byValue).symm.pairwise hne Ne.symm
  rw [List.map_map, List.Nodup, List.pairwise_map, List.pairwise_map]
  refine ⟨hsorted.imp And.right, fun v => ?_, fun entry hentry => ?_, ?_⟩
  · rw [← h.values v]
    exact ((List.perm_insertionSort _ byValue).map ValueEntry.value).mem_iff
  · obtain ⟨e, he, rfl⟩ := List.mem_map.mp hentry
    rw [List.mem_insertionSort] at he
    obtain ⟨a, ha, hav, _, hal⟩ := h.latest e he
    obtain ⟨b, hb, hbv, _⟩ := h.first e he
    exact ⟨⟨a, ha, hav, hal⟩, b, hb, hbv⟩
  · refine hsorted.imp_of_mem fun {x y} hx hy hxy a b ha hav hb hbv => ?_
    rw [List.mem_insertionSort] at hx hy
    obtain ⟨f, hf, hfv, hfc⟩ := h.first x hx
    obtain ⟨g, hg, hgv, hgc⟩ := h.first y hy
    have hax : a.coordinate = x.first :=
      hfc ▸ le_antisymm (ha.2 f hf.1 (hfv.trans hav.symm)) (hf.2 a ha.1 (hav.trans hfv.symm))
    have hby : b.coordinate = y.first :=
      hgc ▸ le_antisymm (hb.2 g hg.1 (hgv.trans hbv.symm)) (hg.2 b hb.1 (hbv.trans hgv.symm))
    refine lt_of_le_of_ne (hax ▸ hby ▸ hxy.1) fun heq => hxy.2 ?_
    exact hav.symm.trans (add_eq_of_coordinate hnd ha.1 hb.1 heq ▸ hbv)

end Distinct

/-- Two addresses, the first of them relabelled from another device. -/
def relabelled : List EntryAdd :=
  [⟨"ada@work", some "work", 1, 1, "a.1"⟩, ⟨"ada@home", none, 2, 1, "a.2"⟩,
    ⟨"ada@work", some "office", 3, 2, "b.3"⟩]

theorem presentEntries_of_adds_relabelled :
    presentEntries relabelled = [⟨"ada@work", some "office"⟩, ⟨"ada@home", none⟩] ∧
    presentEntries relabelled.reverse = presentEntries relabelled :=
  ⟨by decide,
    (presentEntries_of_adds (by decide : (relabelled.map EntryAdd.tag).Nodup)).1 _
      relabelled.reverse_perm.symm⟩

end NexusFlow.Core
