import Mathlib.Data.List.Induction
import Mathlib.Data.List.Lex
import NexusFlow.Foundation.Change

/-!
# When described changes commute, and when they absorb each other

The tables read as a function of table and key (`View`), on which `applyOne` is `View.step`. The
module doc of `change.rs` says each of the three effects is commutative and idempotent; this file
says under which conditions on a *pair* of changes that holds:

* `Agree a b`: different rows; or two `put`s that write the same value wherever both write; or two
  registers on disjoint columns; or two writes of one register. Then a change folded once stays
  absorbed whatever follows (`step_replays`), so folding a log again changes nothing.
* `Compatible ddl a b`: `Agree`, the two versions of one register differ, and each of two registers
  that share a row `Opens` it, i.e. beats the version columns' `DEFAULT`. Then the order does not
  matter (`step_commute`).

`Opens` is the condition `items` needs and `item_timestamps` does not: a register column defaulting
to `0` refuses a version at or below `(0, 0)` on a row another register created, and takes it on a
row it creates itself.
-/

namespace NexusFlow.Foundation

open NexusFlow.Lib

/-! ## Lookups and assignments -/

/-- The cells `apply_one` assigns: the effect's own, then its version. -/
def Effect.writes (e : Effect) : Cells := e.cells ++ versionCells e.version

/-- No column is named twice by the statement: key, cells and version columns are distinct. -/
def Change.WF (c : Change) : Prop := (c.key.map Prod.fst ++ c.effect.writes.map Prod.fst).Nodup

instance (c : Change) : Decidable c.WF := inferInstanceAs (Decidable (List.Nodup _))

theorem lookup_eq_none_iff {cells : Cells} {c : String} :
    cells.lookup c = none ↔ c ∉ cells.map Prod.fst := by
  induction cells with
  | nil => simp
  | cons p cells ih =>
    obtain ⟨d, v⟩ := p
    rw [List.lookup_cons]
    by_cases h : c = d
    · simp [h]
    · simp [h, ih, beq_eq_false_iff_ne.mpr h]

theorem lookup_isSome_iff {cells : Cells} {c : String} :
    (cells.lookup c).isSome = true ↔ c ∈ cells.map Prod.fst := by
  rw [← Option.ne_none_iff_isSome, ne_eq, lookup_eq_none_iff, not_not]

@[simp] theorem assign_nil (row : Row) : assign row [] = row := rfl

theorem assign_of_notMem {row : Row} {cells : Cells} {c : String}
    (h : c ∉ cells.map Prod.fst) : assign row cells c = row c := by
  simp only [assign, lookup_eq_none_iff.mpr h, Option.getD_none]

theorem assign_append (row : Row) (A B : Cells) :
    assign row (A ++ B) = assign (assign row B) A := by
  funext c
  simp only [assign, List.lookup_append]
  cases A.lookup c <;> rfl

/-- Two assignments that never disagree can be made in either order. -/
theorem assign_comm {A B : Cells} (row : Row)
    (h : ∀ c x y, A.lookup c = some x → B.lookup c = some y → x = y) :
    assign (assign row A) B = assign (assign row B) A := by
  funext c
  simp only [assign]
  cases hA : A.lookup c with
  | none => simp
  | some x =>
    cases hB : B.lookup c with
    | none => simp
    | some y => simp [h c x y hA hB]

/-- An assignment that writes every column another one wrote makes that one invisible. -/
theorem assign_overwrite {A B : Cells} (row : Row) (h : A.map Prod.fst = B.map Prod.fst) :
    assign (assign row A) B = assign row B := by
  funext c
  simp only [assign]
  cases hB : B.lookup c with
  | some y => rfl
  | none =>
    have : A.lookup c = none := by
      rw [lookup_eq_none_iff, h, ← lookup_eq_none_iff]
      exact hB
    simp [this]

theorem assign_idem (row : Row) (A : Cells) : assign (assign row A) A = assign row A :=
  assign_overwrite row rfl

/-- The row an `INSERT` starts from: the defaults and the key. -/
def seedRow (ddl : Ddl) (table : String) (key : Cells) : Row := assign (ddl table) key

theorem insertedRow_eq {ddl : Ddl} {c : Change} (hc : c.WF) :
    insertedRow ddl c = assign (seedRow ddl c.table c.key) c.effect.writes := by
  have hdisj := (List.nodup_append.mp hc).2.2
  unfold insertedRow seedRow Effect.writes
  rw [List.append_assoc, assign_append, assign_comm]
  intro col x y hx hy
  have h1 := lookup_isSome_iff.mp (by rw [hx]; rfl : (List.lookup col _).isSome = true)
  have h2 := lookup_isSome_iff.mp (by rw [hy]; rfl : (List.lookup col _).isSome = true)
  exact absurd rfl (hdisj col h2 col h1)

/-! ## Versions -/

theorem Wins.beats_irrefl (w : Wins) (x : List Int) : ¬ w.beats x x := by
  cases w <;> exact lt_irrefl x

theorem Wins.beats_trans (w : Wins) {x y z : List Int} (h₁ : w.beats x y) (h₂ : w.beats y z) :
    w.beats x z := by
  cases w
  · exact @lt_trans (List Int) _ _ _ _ h₂ h₁
  · exact @lt_trans (List Int) _ _ _ _ h₁ h₂

theorem Wins.beats_total (w : Wins) {x y : List Int} (h : x ≠ y) : w.beats x y ∨ w.beats y x := by
  cases w
  · exact (lt_or_gt_of_ne h).symm
  · exact lt_or_gt_of_ne h

/-- What does not beat `s` does not beat what beats `s`. -/
theorem Wins.not_beats_of_beats (w : Wins) {x y s : List Int} (hx : ¬ w.beats x s)
    (hy : w.beats y s) : ¬ w.beats x y :=
  fun h => hx (w.beats_trans h hy)

theorem storedVersion_congr {row row' : Row} {names : List String}
    (h : ∀ n ∈ names, row n = row' n) : storedVersion row names = storedVersion row' names := by
  unfold storedVersion
  induction names with
  | nil => rfl
  | cons n names ih =>
    rw [List.mapM_cons, List.mapM_cons, ih fun m hm => h m (List.mem_cons_of_mem n hm),
      h n List.mem_cons_self]

theorem storedVersion_assign_of_notMem {row : Row} {A : Cells} {names : List String}
    (h : ∀ n ∈ names, n ∉ A.map Prod.fst) :
    storedVersion (assign row A) names = storedVersion row names :=
  storedVersion_congr fun n hn => assign_of_notMem (h n hn)

theorem versionCells_fst (version : List (String × Int)) :
    (versionCells version).map Prod.fst = version.map Prod.fst := by
  simp [versionCells, List.map_map, Function.comp_def]

/-- The version just written is the version stored. -/
theorem storedVersion_assign_self {row : Row} {version : List (String × Int)} :
    ∀ pre : Cells, (pre.map Prod.fst ++ version.map Prod.fst).Nodup →
    storedVersion (assign row (pre ++ versionCells version)) (version.map Prod.fst) =
      some (version.map Prod.snd) := by
  unfold storedVersion
  induction version with
  | nil => intro pre _; rfl
  | cons p version ih =>
    intro pre hnd
    obtain ⟨n, v⟩ := p
    -- the head's column is not shadowed by `pre`; the tail's version is stored behind it
    have hn : n ∉ pre.map Prod.fst := by
      intro hmem
      exact (List.nodup_append.mp hnd).2.2 n hmem n (by simp) rfl
    have hhead : assign row (pre ++ versionCells ((n, v) :: version)) n = .int v := by
      simp [assign, List.lookup_append, lookup_eq_none_iff.mpr hn, versionCells]
    have htail := ih (pre ++ [(n, Cell.int v)]) (by
      rw [List.map_append, List.append_assoc]
      exact hnd)
    rw [List.append_assoc] at htail
    rw [List.map_cons, List.mapM_cons, hhead]
    change (do
      let y ← (Cell.int v).int?
      let ys ← (version.map Prod.fst).mapM fun c =>
        (assign row (pre ++ ([(n, Cell.int v)] ++ versionCells version)) c).int?
      pure (y :: ys)) = _
    rw [htail]
    rfl

/-! ## The tables as a function -/

/-- The rows, by table and key. -/
abbrev View := String → Cells → Option Row

/-- `applyOne`, on the rows as a function. -/
def View.step (ddl : Ddl) (v : View) (c : Change) : View := fun t k =>
  if t = c.table ∧ k = c.key then some (rowAfter ddl c (v c.table c.key)) else v t k

theorem get_applyOne (ddl : Ddl) (db : Db) (c : Change) :
    (applyOne ddl db c).get = View.step ddl db.get c := by
  funext t k
  exact db.get_put c.table t c.key k _

theorem get_applySqlite (ddl : Ddl) (db : Db) (changes : List Change) :
    (applySqlite ddl db changes).get = changes.foldl (View.step ddl) db.get := by
  unfold applySqlite
  induction changes generalizing db with
  | nil => rfl
  | cons c changes ih => rw [List.foldl_cons, List.foldl_cons, ih, get_applyOne]

/-- The two changes name one row. -/
def SameRow (a b : Change) : Prop := a.table = b.table ∧ a.key = b.key

instance (a b : Change) : Decidable (SameRow a b) := inferInstanceAs (Decidable (_ ∧ _))

theorem View.step_of_not_sameRow {ddl : Ddl} {a b : Change} (h : ¬ SameRow a b) (v : View) :
    View.step ddl v b a.table a.key = v a.table a.key := if_neg h

theorem View.step_self {ddl : Ddl} (v : View) (a : Change) :
    View.step ddl v a a.table a.key = some (rowAfter ddl a (v a.table a.key)) :=
  if_pos ⟨rfl, rfl⟩

/-- A change is absorbed when the row is there and stays as it is. -/
theorem absorbed_iff {ddl : Ddl} {v : View} {a : Change} :
    Absorbed (View.step ddl) v a ↔
      ∃ row, v a.table a.key = some row ∧ rowAfter ddl a (some row) = row := by
  constructor
  · intro h
    have hrow : View.step ddl v a a.table a.key = v a.table a.key := by rw [h]
    rw [View.step_self] at hrow
    cases hv : v a.table a.key with
    | none => rw [hv] at hrow; cases hrow
    | some row => exact ⟨row, rfl, Option.some.inj (by rw [hv] at hrow; exact hrow)⟩
  · rintro ⟨row, hv, hrow⟩
    funext t k
    unfold View.step
    split_ifs with h
    · rw [h.1, h.2, hv, hrow]
    · rfl

/-- Two changes commute as soon as they do on the row they share. -/
theorem commute_of_rows {ddl : Ddl} {a b : Change} (hab : SameRow a b)
    (h : ∀ o, rowAfter ddl b (some (rowAfter ddl a o)) = rowAfter ddl a (some (rowAfter ddl b o))) :
    Commute (View.step ddl) a b := by
  intro v
  funext t k
  by_cases ht : t = a.table ∧ k = a.key
  · obtain ⟨rfl, rfl⟩ := ht
    have h1 : View.step ddl (View.step ddl v a) b a.table a.key =
        some (rowAfter ddl b (some (rowAfter ddl a (v a.table a.key)))) := by
      rw [hab.1, hab.2, View.step_self, ← hab.1, ← hab.2, View.step_self]
    have h2 : View.step ddl (View.step ddl v b) a a.table a.key =
        some (rowAfter ddl a (some (rowAfter ddl b (v a.table a.key)))) := by
      rw [View.step_self, hab.1, hab.2, View.step_self]
    rw [h1, h2, h]
  · have hb : ¬ (t = b.table ∧ k = b.key) := by rw [← hab.1, ← hab.2]; exact ht
    simp only [View.step, if_neg ht, if_neg hb]

theorem commute_of_apart {ddl : Ddl} {a b : Change} (hab : ¬ SameRow a b) :
    Commute (View.step ddl) a b := by
  intro v
  have hba : ¬ SameRow b a := fun h => hab ⟨h.1.symm, h.2.symm⟩
  funext t k
  by_cases ha : t = a.table ∧ k = a.key
  · obtain ⟨rfl, rfl⟩ := ha
    rw [View.step_of_not_sameRow hab, View.step_self, View.step_self, View.step_of_not_sameRow hab]
  · by_cases hb : t = b.table ∧ k = b.key
    · obtain ⟨rfl, rfl⟩ := hb
      rw [View.step_of_not_sameRow hba, View.step_self, View.step_self,
        View.step_of_not_sameRow hba]
    · simp only [View.step, if_neg ha, if_neg hb]

/-- A row sees the changes that name it, and no others. -/
theorem View.foldl_step_row (ddl : Ddl) (t : String) (k : Cells) (cs : List Change) (v : View) :
    cs.foldl (View.step ddl) v t k =
      (cs.filter fun c => c.table = t ∧ c.key = k).foldl
        (fun o c => some (rowAfter ddl c o)) (v t k) := by
  induction cs generalizing v with
  | nil => rfl
  | cons c cs ih =>
    rw [List.foldl_cons, ih]
    by_cases h : c.table = t ∧ c.key = k
    · obtain ⟨rfl, rfl⟩ := h
      rw [List.filter_cons_of_pos (by simp), List.foldl_cons, View.step_self]
    · have hne : ¬ (t = c.table ∧ k = c.key) := fun h' => h ⟨h'.1.symm, h'.2.symm⟩
      rw [List.filter_cons_of_neg (by simpa using h)]
      simp only [View.step, if_neg hne]

/-! ## Registers on one row -/

/-- The cells and version columns of two changes are disjoint. -/
def DisjointColumns (a b : Change) : Prop :=
  ∀ c ∈ a.effect.writes.map Prod.fst, c ∉ b.effect.writes.map Prod.fst

theorem DisjointColumns.symm {a b : Change} (h : DisjointColumns a b) : DisjointColumns b a :=
  fun c hb ha => h c ha hb

theorem version_mem_writes {e : Effect} {n : String} (h : n ∈ e.version.map Prod.fst) :
    n ∈ e.writes.map Prod.fst := by
  rw [Effect.writes, List.map_append, versionCells_fst]
  exact List.mem_append_right _ h

/-- The columns a well-formed change writes are distinct. -/
theorem Change.WF.nodup {c : Change} (hc : c.WF) :
    (c.effect.cells.map Prod.fst ++ c.effect.version.map Prod.fst).Nodup := by
  have h := (List.nodup_append.mp hc).2.1
  rwa [Effect.writes, List.map_append, versionCells_fst] at h

/-- A register that has just been written stores the version it was written with. -/
theorem storedVersion_writes {c : Change} (hc : c.WF) (row : Row) :
    storedVersion (assign row c.effect.writes) (c.effect.version.map Prod.fst) =
      some (c.effect.version.map Prod.snd) :=
  storedVersion_assign_self _ hc.nodup

/-- A register's `WHERE` does not notice what other columns were written. -/
theorem writes_assign_of_disjoint {a b : Change} (h : DisjointColumns a b) (row : Row) (w : Wins) :
    Writes (assign row b.effect.writes) a.effect.version w ↔ Writes row a.effect.version w := by
  unfold Writes
  rw [storedVersion_assign_of_notMem fun n hn => h n (version_mem_writes hn)]

/-- After `b` wrote its register, the same register's `a` is written when it beats `b`. -/
theorem writes_assign_of_same {a b : Change} (hb : b.WF)
    (hcols : a.effect.version.map Prod.fst = b.effect.version.map Prod.fst) (row : Row) (w : Wins) :
    Writes (assign row b.effect.writes) a.effect.version w ↔
      w.beats (a.effect.version.map Prod.snd) (b.effect.version.map Prod.snd) := by
  unfold Writes
  rw [hcols, storedVersion_writes hb]
  simp

theorem not_writes_iff {row : Row} {version : List (String × Int)} {w : Wins} :
    ¬ Writes row version w ↔ ∃ stored, storedVersion row (version.map Prod.fst) = some stored ∧
      ¬ w.beats (version.map Prod.snd) stored := by
  unfold Writes
  push Not
  rfl

/-- The row after a register's `DO UPDATE`. -/
theorem rowAfter_register {ddl : Ddl} {c : Change} {cells : Cells} {version : List (String × Int)}
    {w : Wins} (he : c.effect = .register cells version w) (row : Row) :
    rowAfter ddl c (some row) =
      if Writes row c.effect.version w then assign row c.effect.writes else row := by
  simp only [rowAfter, he]
  rfl

theorem rowAfter_none {ddl : Ddl} {c : Change} (hc : c.WF) :
    rowAfter ddl c none = assign (seedRow ddl c.table c.key) c.effect.writes :=
  insertedRow_eq hc

theorem rowAfter_put {ddl : Ddl} {c : Change} {cells : Cells} (he : c.effect = .put cells)
    (row : Row) : rowAfter ddl c (some row) = assign row c.effect.writes := by
  have : c.effect.writes = cells := by
    rw [he]
    exact List.append_nil cells
  rw [this]
  simp only [rowAfter, he]

/-! ## Pairs of changes -/

/-- How two changes may meet: on different rows, as `put`s that never disagree, as registers on
disjoint columns of one row, or as writes of one register. -/
inductive Agree (a b : Change) : Prop
  | apart (h : ¬ SameRow a b)
  | puts {A B : Cells} (ha : a.effect = .put A) (hb : b.effect = .put B)
      (h : ∀ c x y, A.lookup c = some x → B.lookup c = some y → x = y)
  | beside {A B : Cells} {va vb : List (String × Int)} {wa wb : Wins}
      (ha : a.effect = .register A va wa) (hb : b.effect = .register B vb wb)
      (h : DisjointColumns a b)
  | same {A B : Cells} {va vb : List (String × Int)} {w : Wins}
      (ha : a.effect = .register A va w) (hb : b.effect = .register B vb w)
      (hcells : A.map Prod.fst = B.map Prod.fst) (hversion : va.map Prod.fst = vb.map Prod.fst)

/-- The register is written on the bare row its key and the defaults make, so that creating the
row and finding it are the same to it. -/
def Opens (ddl : Ddl) (c : Change) : Prop :=
  ∀ cells version w, c.effect = .register cells version w →
    Writes (seedRow ddl c.table c.key) version w

theorem Opens.rowAfter_none {ddl : Ddl} {c : Change} (hc : c.WF) (ho : Opens ddl c) {cells : Cells}
    {version : List (String × Int)} {w : Wins} (he : c.effect = .register cells version w) :
    rowAfter ddl c none = rowAfter ddl c (some (seedRow ddl c.table c.key)) := by
  have hw := ho cells version w he
  rw [rowAfter_register he, NexusFlow.Foundation.rowAfter_none hc]
  have : c.effect.version = version := by rw [he]; rfl
  rw [this, if_pos hw]

theorem writes_fst_eq {a b : Change} {A B : Cells} {va vb : List (String × Int)} {wa wb : Wins}
    (ha : a.effect = .register A va wa) (hb : b.effect = .register B vb wb)
    (hcells : A.map Prod.fst = B.map Prod.fst) (hversion : va.map Prod.fst = vb.map Prod.fst) :
    a.effect.writes.map Prod.fst = b.effect.writes.map Prod.fst := by
  rw [ha, hb]
  simp only [Effect.writes, Effect.cells, Effect.version, List.map_append, versionCells_fst, hcells,
    hversion]

/-- An absorbed register is one whose `WHERE` refuses it. -/
theorem not_writes_of_absorbed {ddl : Ddl} {c : Change} (hc : c.WF) {cells : Cells}
    {version : List (String × Int)} {w : Wins} (he : c.effect = .register cells version w)
    {row : Row} (h : rowAfter ddl c (some row) = row) : ¬ Writes row c.effect.version w := by
  intro hw
  rw [rowAfter_register he, if_pos hw] at h
  rw [← h, writes_assign_of_same hc rfl] at hw
  exact w.beats_irrefl _ hw

/-- A change leaves itself absorbed. -/
theorem rowAfter_self {ddl : Ddl} {a : Change} (ha : a.WF) (o : Option Row) :
    rowAfter ddl a (some (rowAfter ddl a o)) = rowAfter ddl a o := by
  cases he : a.effect with
  | ensure cells => simp only [rowAfter, he]
  | put cells =>
    rw [rowAfter_put he]
    cases o with
    | none => rw [rowAfter_none ha, assign_idem]
    | some row => rw [rowAfter_put he, assign_idem]
  | register cells version w =>
    have hlost (row : Row) : ¬ Writes (assign row a.effect.writes) a.effect.version w := by
      rw [writes_assign_of_same ha rfl]
      exact w.beats_irrefl _
    cases o with
    | none => rw [rowAfter_none ha, rowAfter_register he, if_neg (hlost _)]
    | some row =>
      rw [rowAfter_register he row]
      split_ifs with hw
      · rw [rowAfter_register he, if_neg (hlost _)]
      · rw [rowAfter_register he, if_neg hw]

/-- A later change that agrees with `a` leaves `a` absorbed. -/
theorem rowAfter_keep {ddl : Ddl} {a b : Change} (ha : a.WF) (hb : b.WF) (hab : Agree a b)
    (hrow : SameRow a b) {row : Row} (h : rowAfter ddl a (some row) = row) :
    rowAfter ddl a (some (rowAfter ddl b (some row))) = rowAfter ddl b (some row) := by
  cases hab with
  | apart hne => exact absurd hrow hne
  | @puts A B hea heb hagree =>
    have hA : a.effect.writes = A := by rw [hea]; exact List.append_nil A
    have hB : b.effect.writes = B := by rw [heb]; exact List.append_nil B
    rw [rowAfter_put hea, hA] at h
    rw [rowAfter_put hea, rowAfter_put heb, hA, hB, ← assign_comm row hagree, h]
  | beside hea heb hdisj =>
    have hlost := not_writes_of_absorbed ha hea h
    rw [rowAfter_register heb]
    split_ifs with hw
    · rw [rowAfter_register hea, if_neg (mt (writes_assign_of_disjoint hdisj row _).mp hlost)]
    · exact h
  | @same A B va vb w hea heb hcells hversion =>
    have hlost := not_writes_of_absorbed ha hea h
    have hcols : a.effect.version.map Prod.fst = b.effect.version.map Prod.fst := by
      rw [hea, heb]; exact hversion
    rw [rowAfter_register heb]
    split_ifs with hw
    · -- `a` lost to the stored version, and `b` beat it
      obtain ⟨stored, hs, hna⟩ := not_writes_iff.mp hlost
      have hbeat := hw stored (by rw [← hcols]; exact hs)
      have hna' := w.not_beats_of_beats hna hbeat
      rw [rowAfter_register hea, if_neg (mt (writes_assign_of_same hb hcols row w).mp hna')]
    · exact h

/-- **Folding what was folded, again, changes nothing**: under `Agree`, a change once folded stays
absorbed. -/
theorem step_replays {ddl : Ddl} {a b : Change} (ha : a.WF) (hb : b.WF) (hab : Agree a b) :
    Replays (View.step ddl) a b where
  self v := by
    rw [absorbed_iff]
    exact ⟨_, View.step_self v a, rowAfter_self ha _⟩
  keep v h := by
    rw [absorbed_iff] at h ⊢
    obtain ⟨row, hv, hrow⟩ := h
    by_cases hsame : SameRow a b
    · refine ⟨rowAfter ddl b (some row), ?_, rowAfter_keep ha hb hab hsame hrow⟩
      rw [hsame.1, hsame.2, View.step_self, ← hsame.1, ← hsame.2, hv]
    · exact ⟨row, by rw [View.step_of_not_sameRow hsame, hv], hrow⟩

/-- Two changes whose order does not matter: as `Agree`, where registers that share a row both open
it, and two writes of one register carry different versions. -/
inductive Compatible (ddl : Ddl) (a b : Change) : Prop
  | apart (h : ¬ SameRow a b)
  | puts {A B : Cells} (ha : a.effect = .put A) (hb : b.effect = .put B)
      (h : ∀ c x y, A.lookup c = some x → B.lookup c = some y → x = y)
  | beside {A B : Cells} {va vb : List (String × Int)} {wa wb : Wins}
      (ha : a.effect = .register A va wa) (hb : b.effect = .register B vb wb)
      (h : DisjointColumns a b) (hoa : Opens ddl a) (hob : Opens ddl b)
  | same {A B : Cells} {va vb : List (String × Int)} {w : Wins}
      (ha : a.effect = .register A va w) (hb : b.effect = .register B vb w)
      (hcells : A.map Prod.fst = B.map Prod.fst) (hversion : va.map Prod.fst = vb.map Prod.fst)
      (hne : va.map Prod.snd ≠ vb.map Prod.snd)

/-- Between two writes of one register the better one stands, whichever is folded first. -/
theorem rowAfter_same_of_beats {ddl : Ddl} {a b : Change} (ha : a.WF) (hb : b.WF)
    (hrow : SameRow a b) {A B : Cells} {va vb : List (String × Int)} {w : Wins}
    (hea : a.effect = .register A va w) (heb : b.effect = .register B vb w)
    (hcells : A.map Prod.fst = B.map Prod.fst) (hversion : va.map Prod.fst = vb.map Prod.fst)
    (hbeat : w.beats (va.map Prod.snd) (vb.map Prod.snd)) (o : Option Row) :
    rowAfter ddl b (some (rowAfter ddl a o)) = rowAfter ddl a (some (rowAfter ddl b o)) := by
  have hva : a.effect.version = va := by rw [hea]; rfl
  have hvb : b.effect.version = vb := by rw [heb]; rfl
  have hcols : a.effect.version.map Prod.fst = b.effect.version.map Prod.fst := by
    rw [hva, hvb, hversion]
  have hlose (row : Row) : ¬ Writes (assign row a.effect.writes) b.effect.version w := by
    rw [writes_assign_of_same ha hcols.symm, hva, hvb]
    exact fun h => w.beats_irrefl _ (w.beats_trans hbeat h)
  have hwin (row : Row) : Writes (assign row b.effect.writes) a.effect.version w := by
    rw [writes_assign_of_same hb hcols, hva, hvb]
    exact hbeat
  have hover (row : Row) : assign (assign row b.effect.writes) a.effect.writes =
      assign row a.effect.writes :=
    assign_overwrite row (writes_fst_eq heb hea hcells.symm hversion.symm)
  cases o with
  | none =>
    rw [rowAfter_none ha, rowAfter_none hb, rowAfter_register heb, if_neg (hlose _),
      rowAfter_register hea, if_pos (hwin _), hover, hrow.1, hrow.2]
  | some row =>
    rw [rowAfter_register hea row, rowAfter_register heb row]
    by_cases hwa : Writes row a.effect.version w
    · rw [if_pos hwa, rowAfter_register heb, if_neg (hlose _)]
      split_ifs with hwb
      · rw [rowAfter_register hea, if_pos (hwin _), hover]
      · rw [rowAfter_register hea, if_pos hwa]
    · have hwb : ¬ Writes row b.effect.version w := by
        obtain ⟨stored, hs, hna⟩ := not_writes_iff.mp hwa
        rw [hva] at hna
        refine not_writes_iff.mpr ⟨stored, by rw [← hcols]; exact hs, ?_⟩
        rw [hvb]
        exact fun h => hna (w.beats_trans hbeat h)
      rw [if_neg hwa, if_neg hwb, rowAfter_register hea, rowAfter_register heb, if_neg hwa,
        if_neg hwb]

/-- Two registers on disjoint columns of a row that is there are written independently. -/
theorem rowAfter_beside {ddl : Ddl} {a b : Change} {A B : Cells} {va vb : List (String × Int)}
    {wa wb : Wins} (hea : a.effect = .register A va wa) (heb : b.effect = .register B vb wb)
    (hdisj : DisjointColumns a b) (row : Row) :
    rowAfter ddl b (some (rowAfter ddl a (some row))) =
      rowAfter ddl a (some (rowAfter ddl b (some row))) := by
  have hcomm : assign (assign row a.effect.writes) b.effect.writes =
      assign (assign row b.effect.writes) a.effect.writes := by
    refine assign_comm row fun c x y hx hy => ?_
    have h1 := lookup_isSome_iff.mp (by rw [hx]; rfl : (List.lookup c _).isSome = true)
    have h2 := lookup_isSome_iff.mp (by rw [hy]; rfl : (List.lookup c _).isSome = true)
    exact absurd h2 (hdisj c h1)
  rw [rowAfter_register hea row, rowAfter_register heb row]
  by_cases hwa : Writes row a.effect.version wa <;> by_cases hwb : Writes row b.effect.version wb <;>
    simp [hwa, hwb, rowAfter_register hea, rowAfter_register heb, writes_assign_of_disjoint hdisj,
      writes_assign_of_disjoint hdisj.symm, hcomm]

/-- **The order of two compatible changes does not matter.** -/
theorem step_commute {ddl : Ddl} {a b : Change} (ha : a.WF) (hb : b.WF)
    (hab : Compatible ddl a b) : Commute (View.step ddl) a b := by
  by_cases hrow : SameRow a b
  · refine commute_of_rows hrow fun o => ?_
    cases hab with
    | apart hne => exact absurd hrow hne
    | @puts A B hea heb hagree =>
      have hA : a.effect.writes = A := by rw [hea]; exact List.append_nil A
      have hB : b.effect.writes = B := by rw [heb]; exact List.append_nil B
      rw [rowAfter_put hea, rowAfter_put heb]
      cases o with
      | none => rw [rowAfter_none ha, rowAfter_none hb, hA, hB, hrow.1, hrow.2, assign_comm _ hagree]
      | some row => rw [rowAfter_put hea, rowAfter_put heb, hA, hB, assign_comm _ hagree]
    | beside hea heb hdisj hoa hob =>
      cases o with
      | some row => exact rowAfter_beside hea heb hdisj row
      | none =>
        rw [hoa.rowAfter_none ha hea, hob.rowAfter_none hb heb, ← hrow.1, ← hrow.2]
        exact rowAfter_beside hea heb hdisj _
    | @same A B va vb w hea heb hcells hversion hne =>
      rcases w.beats_total hne with h | h
      · exact rowAfter_same_of_beats ha hb hrow hea heb hcells hversion h o
      · exact (rowAfter_same_of_beats hb ha ⟨hrow.1.symm, hrow.2.symm⟩ heb hea hcells.symm
          hversion.symm h o).symm
  · exact commute_of_apart hrow

/-! ## A row only puts wrote -/

/-- Each column of a row that only puts wrote holds what one of them wrote, or what it started
with. -/
theorem foldl_put_column {ddl : Ddl} {t : String} {k : Cells} {cs : List Change}
    (hcs : ∀ c ∈ cs, c.table = t ∧ c.key = k ∧ c.WF ∧ ∃ cells, c.effect = .put cells) {row : Row}
    (h : cs.foldl (fun o c => some (rowAfter ddl c o)) none = some row) (col : String) :
    (∃ c ∈ cs, c.effect.writes.lookup col = some (row col)) ∨
      ((∀ c ∈ cs, c.effect.writes.lookup col = none) ∧ row col = seedRow ddl t k col) := by
  induction cs using List.reverseRecOn generalizing row with
  | nil => cases h
  | append_singleton cs c ih =>
    rw [List.foldl_append, List.foldl_cons, List.foldl_nil, Option.some_inj] at h
    obtain ⟨rfl, rfl, hwf, cells, he⟩ := hcs c (by simp)
    have hrest := fun d hd => hcs d (List.mem_append_left [c] hd)
    cases hl : c.effect.writes.lookup col with
    | some x =>
      refine .inl ⟨c, by simp, ?_⟩
      cases ho : cs.foldl (fun o c => some (rowAfter ddl c o)) none with
      | none =>
        rw [ho, rowAfter_none hwf] at h
        rw [← h, hl, assign, hl, Option.getD_some]
      | some r =>
        rw [ho, rowAfter_put he] at h
        rw [← h, hl, assign, hl, Option.getD_some]
    | none =>
      cases ho : cs.foldl (fun o c => some (rowAfter ddl c o)) none with
      | none =>
        have hnil : cs = [] := by
          rcases List.eq_nil_or_concat cs with h | ⟨l, d, rfl⟩
          · exact h
          · rw [List.concat_eq_append, List.foldl_append] at ho
            cases ho
        subst hnil
        rw [ho, rowAfter_none hwf] at h
        refine .inr ⟨fun d hd => ?_, ?_⟩
        · rw [List.nil_append, List.mem_singleton] at hd
          rw [hd, hl]
        · rw [← h, assign, hl, Option.getD_none]
      | some r =>
        rw [ho, rowAfter_put he] at h
        have hcol : row col = r col := by rw [← h, assign, hl, Option.getD_none]
        rw [hcol]
        rcases ih hrest ho with ⟨d, hd, hx⟩ | ⟨hnone, hseed⟩
        · exact .inl ⟨d, List.mem_append_left [c] hd, hx⟩
        · refine .inr ⟨fun d hd => ?_, hseed⟩
          rcases List.mem_append.mp hd with hd | hd
          · exact hnone d hd
          · rw [List.mem_singleton.mp hd, hl]

end NexusFlow.Foundation
