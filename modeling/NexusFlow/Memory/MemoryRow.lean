import NexusFlow.Foundation.Ingest
import NexusFlow.Foundation.Register
import NexusFlow.Memory.FactReducer

/-!
# A memory is a function of its ops

Model of the `memories` row that `crates/memory/src/fact_reducer.rs:59-169` folds, against what a
memory is for: `IsMemory` says, of the ops of one key alone, what each column holds.

* `isMemory_fold`: the row folded from any list of ops is that.
* `IsMemory.unique`: of ops at distinct coordinates there is one such row, so neither their order
  nor a repetition shows (`memory_of_ops`).

An op seeds the row before it writes anything, so every register starts at `(0, 0)` whoever came
first, and `created_*` starts at the coordinate of an op and is only lowered.
-/

namespace NexusFlow.Memory

open NexusFlow.Foundation NexusFlow.Lib FactReducer

/-! ## What a memory is -/

/-- The order of coordinates: the Lamport number, then the site. -/
def Precedes (a b : Int × Int) : Prop := a.1 < b.1 ∨ a.1 = b.1 ∧ a.2 < b.2

/-- The op that holds a register: above `(0, 0)`, and no other op of the field above it. -/
def Holder (ops : List Op) (field : String) (op : Op) : Prop :=
  op ∈ ops ∧ op.field = field ∧ Precedes (0, 0) op.coordinate ∧
    ∀ other ∈ ops, other.field = field → ¬ Precedes op.coordinate other.coordinate

/-- No op of the field is above `(0, 0)`. -/
def Unheld (ops : List Op) (field : String) : Prop :=
  ∀ op ∈ ops, op.field = field → ¬ Precedes (0, 0) op.coordinate

/-- What SQLite keeps of a cell: `ordinal` has INTEGER affinity, so a text that spells an integer is
kept as that integer. -/
def affinity (column : String) : Cell → Cell
  | .text s => if column = "ordinal" then ((parseI64 s).map Cell.int).getD (.text s) else .text s
  | cell => cell

/-- The columns of a classification register. -/
def RegisterShows (row : Row) (field : String) (value : Cell) (version : Int × Int) : Prop :=
  row field = value ∧ row (field ++ "_v") = .int version.1 ∧ row (field ++ "_site") = .int version.2

/-- The columns that move with the body. -/
structure BodyShows (row : Row) (body : Cell) (author updated : String) (active : Int)
    (version : Int × Int) : Prop where
  body : row "body" = body
  author : row "author" = .text author
  updated : row "updated" = .text updated
  active : row "active" = .int active
  lamport : row "v" = .int version.1
  site : row "site" = .int version.2

/-- Every column some statement of the fold names. -/
def memoryColumns : List String :=
  ["key", "body", "author", "updated", "active", "v", "site", "created_v", "created_site"] ++
    registers.flatMap fun f => [f, f ++ "_v", f ++ "_site"]

/-- **The memory `key`**, told by the ops that fold into it. -/
structure IsMemory (ops : List Op) (key : String) (row : Row) : Prop where
  key : row "key" = .text key
  created : ∃ op ∈ ops, row "created_v" = .int op.lamport ∧ row "created_site" = .int op.site ∧
    ∀ other ∈ ops, ¬ Precedes other.coordinate op.coordinate
  register : ∀ f ∈ registers,
    (∃ op, Holder ops f op ∧ RegisterShows row f (affinity f (.ofOption op.value)) op.coordinate) ∨
    (Unheld ops f ∧ RegisterShows row f (memoryDdl "memories" f) (0, 0))
  body :
    (∃ op, Holder ops "body" op ∧ op.opType = "set" ∧
      BodyShows row (.ofOption op.value) op.author op.wallClock 1 op.coordinate) ∨
    (∃ op, Holder ops "body" op ∧ op.opType = "forget" ∧
      BodyShows row .null op.author op.wallClock 0 op.coordinate) ∨
    (Unheld ops "body" ∧ BodyShows row .null "" "" 0 (0, 0))
  other : ∀ column ∉ memoryColumns, row column = .null

/-- The ops that fold into the memory `key`. -/
def factOps (ops : List Op) (key : String) : List Op :=
  ops.filter fun op => factReducer.folds op && op.targetId == key

/-- The rows a list of ops folds to, from empty tables. -/
def memoriesOf (ops : List Op) : View := ops.foldl factReducer.foldView fun _ _ => none

/-- The row of `memories` a list of ops leaves under a key. -/
def memoryOf (ops : List Op) (key : String) : Option Row :=
  (memoriesOf ops "memories" [("key", .text key)]).map fun row column =>
    affinity column (row column)

/-! ## One such row -/

section Unique

variable {ops ops' : List Op} {key : String} {row row' : Row}

theorem precedes_trichotomy {a b : Int × Int} (hab : ¬ Precedes a b) (hba : ¬ Precedes b a) :
    a = b := by
  unfold Precedes at hab hba
  exact Prod.ext (by omega) (by omega)

/-- One op holds a register, of those at distinct coordinates. -/
theorem Holder.unique (hcoord : ∀ a ∈ ops, ∀ b ∈ ops, a.coordinate = b.coordinate → a = b)
    {f : String} {a b : Op} (ha : Holder ops f a) (hb : Holder ops f b) : a = b :=
  hcoord a ha.1 b hb.1 (precedes_trichotomy (ha.2.2.2 b hb.1 hb.2.1) (hb.2.2.2 a ha.1 ha.2.1))

theorem Holder.congr (hmem : ∀ op, op ∈ ops ↔ op ∈ ops') {f : String} {op : Op}
    (h : Holder ops f op) : Holder ops' f op :=
  ⟨(hmem op).mp h.1, h.2.1, h.2.2.1, fun other ho => h.2.2.2 other ((hmem other).mpr ho)⟩

theorem Unheld.not_holder {f : String} {op : Op} (h : Unheld ops f) : ¬ Holder ops f op :=
  fun hop => h op hop.1 hop.2.1 hop.2.2.1

theorem Unheld.congr (hmem : ∀ op, op ∈ ops ↔ op ∈ ops') {f : String} (h : Unheld ops f) :
    Unheld ops' f := fun op hop => h op ((hmem op).mpr hop)

theorem IsMemory.congr (hmem : ∀ op, op ∈ ops ↔ op ∈ ops') (h : IsMemory ops key row) :
    IsMemory ops' key row where
  key := h.key
  created := by
    obtain ⟨op, hop, hv, hs, hleast⟩ := h.created
    exact ⟨op, (hmem op).mp hop, hv, hs, fun other ho => hleast other ((hmem other).mpr ho)⟩
  register f hf := by
    rcases h.register f hf with ⟨op, hop, hshows⟩ | ⟨hnone, hshows⟩
    · exact .inl ⟨op, hop.congr hmem, hshows⟩
    · exact .inr ⟨hnone.congr hmem, hshows⟩
  body := by
    rcases h.body with ⟨op, hop, hset, hshows⟩ | ⟨op, hop, hforget, hshows⟩ | ⟨hnone, hshows⟩
    · exact .inl ⟨op, hop.congr hmem, hset, hshows⟩
    · exact .inr (.inl ⟨op, hop.congr hmem, hforget, hshows⟩)
    · exact .inr (.inr ⟨hnone.congr hmem, hshows⟩)
  other := h.other

theorem RegisterShows.unique {f : String} {value : Cell} {version : Int × Int}
    (h : RegisterShows row f value version) (h' : RegisterShows row' f value version) :
    ∀ column ∈ [f, f ++ "_v", f ++ "_site"], row column = row' column := by
  simp only [List.forall_mem_cons, List.not_mem_nil, false_imp_iff, implies_true, and_true]
  exact ⟨h.1.trans h'.1.symm, h.2.1.trans h'.2.1.symm, h.2.2.trans h'.2.2.symm⟩

theorem BodyShows.unique {body : Cell} {author updated : String} {active : Int}
    {version : Int × Int} (h : BodyShows row body author updated active version)
    (h' : BodyShows row' body author updated active version) :
    ∀ column ∈ ["body", "author", "updated", "active", "v", "site"], row column = row' column := by
  simp only [List.forall_mem_cons, List.not_mem_nil, false_imp_iff, implies_true, and_true]
  exact ⟨h.body.trans h'.body.symm, h.author.trans h'.author.symm, h.updated.trans h'.updated.symm,
    h.active.trans h'.active.symm, h.lamport.trans h'.lamport.symm, h.site.trans h'.site.symm⟩

/-- **Ops at distinct coordinates tell the row.** -/
theorem IsMemory.unique (hcoord : ∀ a ∈ ops, ∀ b ∈ ops, a.coordinate = b.coordinate → a = b)
    (h : IsMemory ops key row) (h' : IsMemory ops key row') : row = row' := by
  have hcreated : row "created_v" = row' "created_v" ∧
      row "created_site" = row' "created_site" := by
    obtain ⟨a, ha, hav, has, haleast⟩ := h.created
    obtain ⟨b, hb, hbv, hbs, hbleast⟩ := h'.created
    obtain rfl := hcoord a ha b hb (precedes_trichotomy (hbleast a ha) (haleast b hb))
    exact ⟨hav.trans hbv.symm, has.trans hbs.symm⟩
  have hregister : ∀ f ∈ registers, ∀ column ∈ [f, f ++ "_v", f ++ "_site"],
      row column = row' column := by
    intro f hf
    rcases h.register f hf with ⟨a, ha, hshows⟩ | ⟨hnone, hshows⟩ <;>
      rcases h'.register f hf with ⟨b, hb, hshows'⟩ | ⟨hnone', hshows'⟩
    · obtain rfl := ha.unique hcoord hb
      exact hshows.unique hshows'
    · exact absurd ha hnone'.not_holder
    · exact absurd hb hnone.not_holder
    · exact hshows.unique hshows'
  have hbody : ∀ column ∈ ["body", "author", "updated", "active", "v", "site"],
      row column = row' column := by
    have hapart : ∀ {a b : Op}, Holder ops "body" a → Holder ops "body" b → a.opType = "set" →
        b.opType ≠ "forget" := by
      intro a b ha hb hset hforget
      rw [ha.unique hcoord hb, hforget] at hset
      exact absurd hset (by decide)
    rcases h.body with ⟨a, ha, hset, hshows⟩ | ⟨a, ha, hforget, hshows⟩ | ⟨hnone, hshows⟩ <;>
      rcases h'.body with ⟨b, hb, hset', hshows'⟩ | ⟨b, hb, hforget', hshows'⟩ | ⟨hnone', hshows'⟩
    · obtain rfl := ha.unique hcoord hb
      exact hshows.unique hshows'
    · exact absurd hforget' (hapart ha hb hset)
    · exact absurd ha hnone'.not_holder
    · exact absurd hforget (hapart hb ha hset')
    · obtain rfl := ha.unique hcoord hb
      exact hshows.unique hshows'
    · exact absurd ha hnone'.not_holder
    · exact absurd hb hnone.not_holder
    · exact absurd hb hnone.not_holder
    · exact hshows.unique hshows'
  funext column
  by_cases hcol : column ∈ memoryColumns
  · rcases List.mem_append.mp hcol with hcol | hcol
    · rcases List.mem_cons.mp hcol with rfl | hcol
      · exact h.key.trans h'.key.symm
      · have hsplit : ∀ c ∈ ["body", "author", "updated", "active", "v", "site", "created_v",
            "created_site"], c ∈ ["body", "author", "updated", "active", "v", "site"] ∨
            c = "created_v" ∨ c = "created_site" := by decide
        rcases hsplit column hcol with hcol | rfl | rfl
        · exact hbody column hcol
        · exact hcreated.1
        · exact hcreated.2
    · obtain ⟨f, hf, hcol⟩ := List.mem_flatMap.mp hcol
      exact hregister f hf column hcol
  · exact (h.other column hcol).trans (h'.other column hcol).symm

end Unique

/-! ## The registers of the row -/

/-- The registers of a memory. -/
def fields : List String := "body" :: registers

/-- The version columns of a register. -/
def versionColumns (f : String) : List String :=
  if f = "body" then ["v", "site"] else [f ++ "_v", f ++ "_site"]

/-- The columns an op of the field writes. -/
def fieldColumns (f : String) : List String :=
  (if f = "body" then ["body", "author", "updated", "active"] else [f]) ++ versionColumns f

section Changes

variable {op : Op}

/-- A folded op is of one of the registers. -/
theorem field_of_isFoldable (h : isFoldable op = true) :
    op.field ∈ fields ∧ (op.field = "body" → op.opType = "set" ∨ op.opType = "forget") := by
  unfold isFoldable at h
  rw [Bool.and_eq_true] at h
  obtain ⟨_, h⟩ := h
  split_ifs at h with hbody
  · rw [Bool.or_eq_true, beq_iff_eq, beq_iff_eq] at h
    exact ⟨List.mem_cons.mpr (.inl hbody), fun _ => h⟩
  · rw [Bool.and_eq_true, Bool.and_eq_true] at h
    refine ⟨List.mem_cons_of_mem _ ?_, fun heq => absurd heq hbody⟩
    have hcol := h.1.1
    unfold registerColumn at hcol
    split_ifs at hcol with hmem
    · simpa using hmem
    · cases hcol

theorem registerOf_columns (op : Op) :
    (registerOf op).effect.writes.map Prod.fst = fieldColumns op.field ∧
    (registerOf op).effect.version.map Prod.fst = versionColumns op.field ∧
    (registerOf op).at = [op.lamport, op.site] ∧
    ∃ cells version, (registerOf op).effect = .register cells version .higher := by
  unfold registerOf fieldColumns versionColumns
  split_ifs <;> exact ⟨rfl, rfl, rfl, _, _, rfl⟩

/-- The columns of the registers are distinct, and apart from each other and from `created_*`. -/
theorem fieldColumns_apart : ∀ f ∈ fields, ("key" :: fieldColumns f).Nodup ∧
    (∀ g ∈ fields, f ≠ g → ∀ column ∈ fieldColumns f, column ∉ fieldColumns g) ∧
    ∀ column ∈ fieldColumns f, column ∉ ["created_v", "created_site"] := by
  decide

theorem fieldColumns_known : ∀ f ∈ fields, ∀ column ∈ fieldColumns f, column ∈ memoryColumns := by
  decide

theorem registerOf_wf (h : isFoldable op = true) : (registerOf op).WF := by
  have hkey : (registerOf op).key.map Prod.fst = ["key"] := by
    unfold registerOf
    split_ifs <;> rfl
  unfold Change.WF
  rw [hkey, (registerOf_columns op).1]
  exact (fieldColumns_apart op.field (field_of_isFoldable h).1).1

theorem createdAt_wf (op : Op) : (createdAt op).WF :=
  (by decide : (["key"] ++ ["created_v", "created_site"]).Nodup)

theorem ensureRow_wf (op : Op) : (ensureRow op).WF :=
  (by decide : (["key"] ++ ["author", "updated", "created_v", "created_site"]).Nodup)

/-- The changes of ops to a row that is there. -/
def writesOf (ops : List Op) : List Change := ops.flatMap fun op => [createdAt op, registerOf op]

theorem mem_writesOf {ops : List Op} {c : Change} :
    c ∈ writesOf ops ↔ ∃ op ∈ ops, c = createdAt op ∨ c = registerOf op := by
  unfold writesOf
  simp only [List.mem_flatMap, List.mem_cons, List.not_mem_nil, or_false]

variable {ops : List Op} (hops : ∀ op ∈ ops, isFoldable op = true)

include hops

theorem wf_writesOf : ∀ c ∈ writesOf ops, c.WF := by
  intro c hc
  obtain ⟨op, hop, rfl | rfl⟩ := mem_writesOf.mp hc
  · exact createdAt_wf op
  · exact registerOf_wf (hops op hop)

/-- The ops of a field write one register of the row. -/
theorem isRegister_field {f : String} (hf : f ∈ fields) :
    IsRegister (fun c => ∃ op ∈ ops, op.field = f ∧ c = registerOf op) (fieldColumns f)
      (versionColumns f) .higher (writesOf ops) where
  wf := wf_writesOf hops
  others c hc hno column hcol hmem := by
    obtain ⟨op, hop, rfl | rfl⟩ := mem_writesOf.mp hc
    · exact (fieldColumns_apart f hf).2.2 column hmem hcol
    · rw [(registerOf_columns op).1] at hcol
      have hne : op.field ≠ f := fun heq => hno ⟨op, hop, heq, rfl⟩
      exact (fieldColumns_apart op.field (field_of_isFoldable (hops op hop)).1).2.1 f hf hne
        column hcol hmem
  writes c _ hm := by
    obtain ⟨op, _, rfl, rfl⟩ := hm
    exact (registerOf_columns op).1
  names c _ hm := by
    obtain ⟨op, _, rfl, rfl⟩ := hm
    exact (registerOf_columns op).2.1
  wins c _ hm := by
    obtain ⟨op, _, rfl, rfl⟩ := hm
    exact (registerOf_columns op).2.2.2

/-- All ops write the coordinate of the earliest. -/
theorem isRegister_created :
    IsRegister (fun c => ∃ op ∈ ops, c = createdAt op) ["created_v", "created_site"]
      ["created_v", "created_site"] .lower (writesOf ops) where
  wf := wf_writesOf hops
  others c hc hno column hcol hmem := by
    obtain ⟨op, hop, rfl | rfl⟩ := mem_writesOf.mp hc
    · exact hno ⟨op, hop, rfl⟩
    · rw [(registerOf_columns op).1] at hcol
      exact (fieldColumns_apart op.field (field_of_isFoldable (hops op hop)).1).2.2 column hcol hmem
  writes c _ hm := by
    obtain ⟨op, _, rfl⟩ := hm
    rfl
  names c _ hm := by
    obtain ⟨op, _, rfl⟩ := hm
    rfl
  wins c _ hm := by
    obtain ⟨op, _, rfl⟩ := hm
    exact ⟨_, _, rfl⟩

end Changes

/-! ## The fold of a memory's ops -/

section Fold

variable {ops : List Op} {key : String}

theorem mem_factOps {op : Op} :
    op ∈ factOps ops key ↔ op ∈ ops ∧ factReducer.folds op = true ∧ op.targetId = key := by
  unfold factOps
  rw [List.mem_filter, Bool.and_eq_true, beq_iff_eq]

theorem isFoldable_of_mem {op : Op} (h : op ∈ factOps ops key) : isFoldable op = true := by
  have hfolds := (mem_factOps.mp h).2.1
  unfold Reducer.folds at hfolds
  simp only [Bool.and_eq_true] at hfolds
  exact hfolds.2

/-- The changes of an op are to the row of its memory. -/
theorem changes_at {op : Op} {c : Change} (hc : c ∈ changes op) :
    c.table = "memories" ∧ c.key = [("key", .text op.targetId)] := by
  simp only [changes, List.mem_cons, List.not_mem_nil, or_false] at hc
  rcases hc with rfl | rfl | rfl
  · exact ⟨rfl, rfl⟩
  · exact ⟨rfl, rfl⟩
  · unfold registerOf
    split_ifs <;> exact ⟨rfl, rfl⟩

/-- The row of a memory is the fold of the ops that fold into it. -/
theorem memoriesOf_eq (ops : List Op) (key : String) :
    memoriesOf ops "memories" [("key", .text key)] = ((factOps ops key).flatMap changes).foldl
      (fun o c => some (rowAfter memoryDdl c o)) none := by
  unfold memoriesOf
  rw [Reducer.foldl_foldView_eq, View.foldl_step_row, List.filter_flatMap]
  have h : (ops.flatMap fun op => (factReducer.changesOf op).filter fun c =>
      c.table = "memories" ∧ c.key = [("key", .text key)]) = (factOps ops key).flatMap changes := by
    unfold factOps
    induction ops with
    | nil => rfl
    | cons op ops ih =>
      rw [List.flatMap_cons, ih]
      by_cases hop : (factReducer.folds op && op.targetId == key) = true
      · rw [List.filter_cons_of_pos (p := fun op : Op => factReducer.folds op && op.targetId == key)
          hop, List.flatMap_cons]
        rw [Bool.and_eq_true, beq_iff_eq] at hop
        congr 1
        unfold Reducer.changesOf
        rw [if_pos hop.1]
        refine List.filter_eq_self.mpr fun c hc => ?_
        obtain ⟨ht, hk⟩ := changes_at hc
        simpa [ht, hk] using hop.2
      · rw [List.filter_cons_of_neg (p := fun op : Op => factReducer.folds op && op.targetId == key)
          hop]
        refine List.append_left_eq_self.mpr (List.filter_eq_nil_iff.mpr fun c hc hat => ?_)
        unfold Reducer.changesOf at hc
        split_ifs at hc with hfolds
        · obtain ⟨_, hk⟩ := changes_at hc
          simp only [hk, decide_eq_true_eq, List.cons.injEq, Prod.mk.injEq, Cell.text.injEq,
            true_and, and_true] at hat
          exact hop (by rw [hfolds, hat.2, Bool.true_and, beq_self_eq_true])
        · cases hc
  exact congrArg _ h

/-- On a row that is there an op's seed does nothing. -/
theorem foldl_changes_some (l : List Op) (row : Row) :
    (l.flatMap changes).foldl (fun o c => some (rowAfter memoryDdl c o)) (some row) =
      some ((writesOf l).foldl (fun row c => rowAfter memoryDdl c (some row)) row) := by
  induction l generalizing row with
  | nil => rfl
  | cons op l ih =>
    rw [List.flatMap_cons, List.foldl_append]
    exact ih _

/-- The first op seeds the row, then writes to it as all do. -/
theorem foldl_changes_none (op : Op) (l : List Op) :
    ((op :: l).flatMap changes).foldl (fun o c => some (rowAfter memoryDdl c o)) none =
      some ((writesOf (op :: l)).foldl (fun row c => rowAfter memoryDdl c (some row))
        (insertedRow memoryDdl (ensureRow op))) := by
  rw [List.flatMap_cons, List.foldl_append]
  exact foldl_changes_some l _

/-- What the seed shows. -/
theorem seed_columns (op : Op) : ∀ f ∈ fields,
    storedVersion (insertedRow memoryDdl (ensureRow op)) (versionColumns f) = some [0, 0] := by
  intro f hf
  have hapart : ∀ f ∈ fields, ∀ c ∈ versionColumns f,
      c ∉ ["key", "author", "updated", "created_v", "created_site"] ∧
        memoryDdl "memories" c = .int 0 := by
    decide
  have hzero : ∀ c ∈ versionColumns f, insertedRow memoryDdl (ensureRow op) c = .int 0 := by
    intro c hc
    obtain ⟨hno, hdefault⟩ := hapart f hf c hc
    rw [← hdefault]
    exact assign_of_notMem hno
  unfold versionColumns at hzero ⊢
  unfold storedVersion
  split_ifs at hzero ⊢ <;>
    simp only [List.forall_mem_cons, List.not_mem_nil, false_imp_iff, implies_true, and_true]
      at hzero <;>
    simp [hzero.1, hzero.2, Cell.int?]

theorem beats_higher (a b : Int × Int) :
    Wins.higher.beats [a.1, a.2] [b.1, b.2] ↔ Precedes b a := by
  unfold Wins.beats Precedes
  simp [List.cons_lt_cons_iff]

theorem beats_lower (a b : Int × Int) :
    Wins.lower.beats [a.1, a.2] [b.1, b.2] ↔ Precedes a b := by
  unfold Wins.beats Precedes
  simp [List.cons_lt_cons_iff]

/-- A register's holder, in the row the fold leaves. -/
theorem held_field {l : List Op} (hl : ∀ op ∈ l, isFoldable op = true) (first : Op) {f : String}
    (hf : f ∈ fields) {row : Row}
    (hrow : row = (writesOf l).foldl (fun row c => rowAfter memoryDdl c (some row))
      (insertedRow memoryDdl (ensureRow first))) :
    (∃ op, Holder l f op ∧ (registerOf op).ShownIn row) ∨
      (Unheld l f ∧ ∀ column ∈ fieldColumns f,
        row column = insertedRow memoryDdl (ensureRow first) column) := by
  have hsub : ∀ n ∈ versionColumns f, n ∈ fieldColumns f := fun n hn =>
    List.mem_append_right _ hn
  have hat : ∀ op : Op, (registerOf op).at = [op.coordinate.1, op.coordinate.2] := fun op =>
    (registerOf_columns op).2.2.1
  have hbase := seed_columns first f hf
  rcases hrow ▸ heldAbove_fold memoryDdl (isRegister_field hl hf) hbase hsub with
    ⟨c, hc, ⟨op, hop, hfield, rfl⟩, habove, hshown, hbest⟩ | ⟨hnone, hseed⟩
  · refine .inl ⟨op, ⟨hop, hfield, ?_, fun other ho hof hlt => ?_⟩, hshown⟩
    · rw [hat] at habove
      exact (beats_higher op.coordinate (0, 0)).mp habove
    · refine hbest (registerOf other) (mem_writesOf.mpr ⟨other, ho, .inr rfl⟩)
        ⟨other, ho, hof, rfl⟩ ?_
      rw [hat, hat]
      exact (beats_higher _ _).mpr hlt
  · refine .inr ⟨fun op hop hof hlt => ?_, hseed⟩
    refine hnone (registerOf op) (mem_writesOf.mpr ⟨op, hop, .inr rfl⟩) ⟨op, hop, hof, rfl⟩ ?_
    rw [hat]
    exact (beats_higher op.coordinate (0, 0)).mpr hlt

/-- The earliest op, in the row the fold leaves. -/
theorem held_created {l : List Op} (hl : ∀ op ∈ l, isFoldable op = true) {first : Op}
    (hfirst : first ∈ l) {row : Row}
    (hrow : row = (writesOf l).foldl (fun row c => rowAfter memoryDdl c (some row))
      (insertedRow memoryDdl (ensureRow first))) :
    ∃ op ∈ l, row "created_v" = .int op.lamport ∧ row "created_site" = .int op.site ∧
      ∀ other ∈ l, ¬ Precedes other.coordinate op.coordinate := by
  have hbase : storedVersion (insertedRow memoryDdl (ensureRow first))
      ["created_v", "created_site"] = some [first.lamport, first.site] := rfl
  have hmem : ∀ op ∈ l, createdAt op ∈ writesOf l := fun op hop =>
    mem_writesOf.mpr ⟨op, hop, .inl rfl⟩
  rcases hrow ▸ heldAbove_fold memoryDdl (isRegister_created hl) hbase fun _ hn => hn with
    ⟨c, hc, ⟨op, hop, rfl⟩, _, hshown, hbest⟩ | ⟨hnone, hseed⟩
  · refine ⟨op, hop, hshown.column rfl, hshown.column rfl, fun other ho hlt => ?_⟩
    exact hbest _ (hmem other ho) ⟨other, ho, rfl⟩
      ((beats_lower other.coordinate op.coordinate).mpr hlt)
  · refine ⟨first, hfirst, ?_, ?_, fun other ho hlt => ?_⟩
    · exact (hseed "created_v" (by decide)).trans rfl
    · exact (hseed "created_site" (by decide)).trans rfl
    · exact hnone _ (hmem other ho) ⟨other, ho, rfl⟩
        ((beats_lower other.coordinate first.coordinate).mpr hlt)

/-- The columns of a held classification register. -/
theorem registerShows_of_shown {op : Op} {f : String} (hf : f ∈ registers) (hop : op.field = f)
    {row : Row} (h : (registerOf op).ShownIn row) :
    RegisterShows (fun column => affinity column (row column)) f
      (affinity f (.ofOption op.value)) op.coordinate := by
  have hbody : f ≠ "body" := by
    rintro rfl
    exact absurd hf (by decide)
  have hwrites : (registerOf op).effect.writes =
      [(f, .ofOption op.value), (f ++ "_v", .int op.lamport), (f ++ "_site", .int op.site)] := by
    unfold registerOf
    rw [if_neg (hop ▸ hbody), hop]
    rfl
  have hapart : ∀ f ∈ registers, f ++ "_v" ≠ f ∧ f ++ "_site" ≠ f ∧ f ++ "_site" ≠ f ++ "_v" := by
    decide
  obtain ⟨h1, h2, h3⟩ := hapart f hf
  have hcol : row f = .ofOption op.value ∧ row (f ++ "_v") = .int op.lamport ∧
      row (f ++ "_site") = .int op.site := by
    refine ⟨h.column ?_, h.column ?_, h.column ?_⟩
    · rw [hwrites, List.lookup_cons_self]
    · rw [hwrites, List.lookup_cons, beq_eq_false_iff_ne.mpr h1, List.lookup_cons_self]
    · rw [hwrites, List.lookup_cons, beq_eq_false_iff_ne.mpr h2, List.lookup_cons,
        beq_eq_false_iff_ne.mpr h3, List.lookup_cons_self]
  exact ⟨congrArg _ hcol.1, congrArg _ hcol.2.1, congrArg _ hcol.2.2⟩

/-- The columns of a classification register nobody holds. -/
theorem registerShows_of_seed {first : Op} {f : String} (hf : f ∈ registers) {row : Row}
    (h : ∀ column ∈ fieldColumns f, row column = insertedRow memoryDdl (ensureRow first) column) :
    RegisterShows (fun column => affinity column (row column)) f (memoryDdl "memories" f)
      (0, 0) := by
  have hapart : ∀ f ∈ registers, ∀ column ∈ [f, f ++ "_v", f ++ "_site"],
      column ∈ fieldColumns f ∧
      column ∉ ["key", "author", "updated", "created_v", "created_site"] ∧
      affinity column (memoryDdl "memories" column) =
        if column = f then memoryDdl "memories" f else .int 0 := by
    decide
  have hdefault : ∀ column ∈ [f, f ++ "_v", f ++ "_site"], affinity column (row column) =
      if column = f then memoryDdl "memories" f else .int 0 := by
    intro column hcol
    obtain ⟨hmem, hno, haff⟩ := hapart f hf column hcol
    rw [← haff, h column hmem]
    exact congrArg _ (assign_of_notMem hno)
  have hne : ∀ f ∈ registers, f ++ "_v" ≠ f ∧ f ++ "_site" ≠ f := by decide
  obtain ⟨hv, hs⟩ := hne f hf
  simp only [List.forall_mem_cons, List.not_mem_nil, false_imp_iff, implies_true, and_true,
    if_true, if_neg hv, if_neg hs] at hdefault
  exact hdefault

/-- The columns of a held body. -/
theorem bodyShows_of_shown {op : Op} (hop : op.field = "body") {row : Row}
    (h : (registerOf op).ShownIn row) :
    BodyShows (fun column => affinity column (row column))
      (if op.opType = "set" then .ofOption op.value else .null) op.author op.wallClock
      (if op.opType = "set" then 1 else 0) op.coordinate := by
  have hwrites : (registerOf op).effect.writes =
      [("body", if op.opType = "set" then .ofOption op.value else .null),
        ("author", .text op.author), ("updated", .text op.wallClock),
        ("active", .int (if op.opType = "set" then 1 else 0)), ("v", .int op.lamport),
        ("site", .int op.site)] := by
    unfold registerOf
    rw [if_pos hop]
    split_ifs <;> rfl
  have hcol : ∀ column x, (registerOf op).effect.writes.lookup column = some x →
      row column = x := fun _ _ hx => h.column hx
  rw [hwrites] at hcol
  have haff : ∀ v : Option String, affinity "body" (.ofOption v) = .ofOption v := by
    intro v
    cases v <;> rfl
  refine ⟨?_, ?_, ?_, ?_, ?_, ?_⟩
  · rw [hcol "body" _ rfl]
    split_ifs
    · exact haff _
    · rfl
  · rw [hcol "author" _ rfl]
    rfl
  · rw [hcol "updated" _ rfl]
    rfl
  · rw [hcol "active" _ rfl]
    rfl
  · rw [hcol "v" _ rfl]
    rfl
  · rw [hcol "site" _ rfl]
    rfl

/-- The columns of a body nobody holds. -/
theorem bodyShows_of_seed {first : Op} {row : Row}
    (h : ∀ column ∈ fieldColumns "body",
      row column = insertedRow memoryDdl (ensureRow first) column) :
    BodyShows (fun column => affinity column (row column)) .null "" "" 0 (0, 0) := by
  refine ⟨?_, ?_, ?_, ?_, ?_, ?_⟩
  · rw [h "body" (by decide)]
    rfl
  · rw [h "author" (by decide)]
    rfl
  · rw [h "updated" (by decide)]
    rfl
  · rw [h "active" (by decide)]
    rfl
  · rw [h "v" (by decide)]
    rfl
  · rw [h "site" (by decide)]
    rfl

/-- A column no statement names. -/
theorem memoryDdl_other {column : String} (h : column ∉ memoryColumns) :
    memoryDdl "memories" column = .null := by
  have hregisters : ∀ f ∈ registers, ∀ c ∈ [f, f ++ "_v", f ++ "_site"], c ∈ memoryColumns := by
    decide
  have hplain : ∀ c ∈ ["category", "scope", "refs", "active", "v", "site", "created_v",
      "created_site"], c ∈ memoryColumns := by decide
  have hne : ∀ c ∈ memoryColumns, column ≠ c := fun c hc heq => h (heq ▸ hc)
  have hversion : (["active", "v", "site", "created_v", "created_site"].contains column ||
      registers.any fun f => column == f ++ "_v" || column == f ++ "_site") = false := by
    rw [Bool.or_eq_false_iff, List.any_eq_false]
    constructor
    · simp [hne _ (hplain "active" (by decide)), hne _ (hplain "v" (by decide)),
        hne _ (hplain "site" (by decide)), hne _ (hplain "created_v" (by decide)),
        hne _ (hplain "created_site" (by decide))]
    · intro f hf
      have hmem := hregisters f hf
      simp [hne _ (hmem (f ++ "_v") (by simp)), hne _ (hmem (f ++ "_site") (by simp))]
  unfold memoryDdl
  rw [if_pos rfl, if_neg (hne _ (hplain "category" (by decide))),
    if_neg (hne _ (hplain "scope" (by decide))), if_neg (hne _ (hplain "refs" (by decide))),
    hversion, if_neg Bool.false_ne_true]

/-- **The row of a memory is what its ops tell.** -/
theorem isMemory_fold {row : Row} (h : memoryOf ops key = some row) :
    IsMemory (factOps ops key) key row := by
  unfold memoryOf at h
  rw [memoriesOf_eq] at h
  have hl : ∀ op ∈ factOps ops key, isFoldable op = true := fun _ => isFoldable_of_mem
  have hkey : ∀ op ∈ factOps ops key, op.targetId = key := fun op hop => (mem_factOps.mp hop).2.2
  generalize factOps ops key = l at h hl hkey
  cases l with
  | nil => cases h
  | cons first rest =>
    rw [foldl_changes_none, Option.map_some, Option.some_inj] at h
    generalize hrow : (writesOf (first :: rest)).foldl
      (fun row c => rowAfter memoryDdl c (some row)) (insertedRow memoryDdl (ensureRow first)) = raw
      at h
    have hframe : ∀ column, column ∉ ["created_v", "created_site"] →
        (∀ f ∈ fields, column ∉ fieldColumns f) →
        raw column = insertedRow memoryDdl (ensureRow first) column := by
      intro column hcreated hno
      rw [← hrow]
      refine foldl_rowAfter_frame fun c hc => ?_
      obtain ⟨op, hop, rfl | rfl⟩ := mem_writesOf.mp hc
      · exact hcreated
      · rw [(registerOf_columns op).1]
        exact hno op.field (field_of_isFoldable (hl op hop)).1
    subst h
    refine ⟨?_, ?_, fun f hf => ?_, ?_, fun column hcol => ?_⟩
    · have hno : ∀ f ∈ fields, "key" ∉ fieldColumns f := fun f hf =>
        (List.nodup_cons.mp (fieldColumns_apart f hf).1).1
      have hkey : raw "key" = .text key := by
        rw [hframe "key" (by decide) hno, ← hkey first List.mem_cons_self]
        rfl
      exact congrArg _ hkey
    · obtain ⟨op, hop, hv, hs, hleast⟩ := held_created hl List.mem_cons_self hrow.symm
      exact ⟨op, hop, congrArg _ hv, congrArg _ hs, hleast⟩
    · rcases held_field hl first (List.mem_cons_of_mem _ hf) hrow.symm with
        ⟨op, hop, hshown⟩ | ⟨hnone, hseed⟩
      · exact .inl ⟨op, hop, registerShows_of_shown hf hop.2.1 hshown⟩
      · exact .inr ⟨hnone, registerShows_of_seed hf hseed⟩
    · rcases held_field hl first List.mem_cons_self hrow.symm with
        ⟨op, hop, hshown⟩ | ⟨hnone, hseed⟩
      · have hshows := bodyShows_of_shown hop.2.1 hshown
        rcases (field_of_isFoldable (hl op hop.1)).2 hop.2.1 with htype | htype
        · rw [if_pos htype, if_pos htype] at hshows
          exact .inl ⟨op, hop, htype, hshows⟩
        · have hne : ¬ op.opType = "set" := by
            rw [htype]
            decide
          rw [if_neg hne, if_neg hne] at hshows
          exact .inr (.inl ⟨op, hop, htype, hshows⟩)
      · exact .inr (.inr ⟨hnone, bodyShows_of_seed hseed⟩)
    · have hcreated : column ∉ ["created_v", "created_site"] := fun hmem =>
        hcol ((by decide : ∀ c ∈ ["created_v", "created_site"], c ∈ memoryColumns) _ hmem)
      have hseed : column ∉ ["key", "author", "updated", "created_v", "created_site"] := fun hmem =>
        hcol ((by decide : ∀ c ∈ ["key", "author", "updated", "created_v", "created_site"],
          c ∈ memoryColumns) _ hmem)
      have hraw : raw column = .null := by
        rw [hframe column hcreated fun f hf hmem => hcol (fieldColumns_known f hf column hmem),
          ← memoryDdl_other hcol]
        exact assign_of_notMem hseed
      exact congrArg _ hraw

/-- There is a row as soon as an op folds into it. -/
theorem memoryOf_eq_none_iff : memoryOf ops key = none ↔ factOps ops key = [] := by
  unfold memoryOf
  rw [memoriesOf_eq, Option.map_eq_none_iff]
  cases factOps ops key with
  | nil => exact iff_of_true rfl rfl
  | cons first rest =>
    rw [foldl_changes_none]
    exact iff_of_false (Option.some_ne_none _) (List.cons_ne_nil _ _)

end Fold

/-! ## Any order, any repetition -/

/-- **A memory is a function of its ops.** However a list of ops at distinct coordinates arrives, in
any order and each op any number of times, the row of a key is the same; it is there once an op
folds into it, and then it is what these ops tell. The memory is active when the op that holds its
body is a `set`. -/
theorem memory_of_ops {ops l : List Op}
    (hcoord : ∀ a ∈ ops, ∀ b ∈ ops, a.coordinate = b.coordinate → a = b)
    (hl : ∀ op, op ∈ l ↔ op ∈ ops) (key : String) :
    memoryOf l key = memoryOf ops key ∧ (memoryOf l key = none ↔ factOps ops key = []) ∧
    ∀ row, memoryOf l key = some row → IsMemory (factOps ops key) key row ∧
      (row "active" = .int 1 ↔ ∃ op, Holder (factOps ops key) "body" op ∧ op.opType = "set") := by
  have hmem : ∀ op, op ∈ factOps l key ↔ op ∈ factOps ops key := fun op => by
    rw [mem_factOps, mem_factOps, hl]
  have hdistinct : ∀ a ∈ factOps ops key, ∀ b ∈ factOps ops key,
      a.coordinate = b.coordinate → a = b := fun a ha b hb =>
    hcoord a (mem_factOps.mp ha).1 b (mem_factOps.mp hb).1
  have hnone : memoryOf l key = none ↔ factOps ops key = [] := by
    rw [memoryOf_eq_none_iff, List.eq_nil_iff_forall_not_mem, List.eq_nil_iff_forall_not_mem]
    exact forall_congr' fun op => not_congr (hmem op)
  have hrow : ∀ row, memoryOf l key = some row → IsMemory (factOps ops key) key row :=
    fun row h => (isMemory_fold h).congr hmem
  refine ⟨?_, hnone, fun row h => ⟨hrow row h, ?_⟩⟩
  · cases hleft : memoryOf l key with
    | none => exact (memoryOf_eq_none_iff.mpr (hnone.mp hleft)).symm
    | some row =>
      cases hright : memoryOf ops key with
      | none =>
        rw [hnone.mpr (memoryOf_eq_none_iff.mp hright)] at hleft
        cases hleft
      | some row' => exact congrArg some ((hrow row hleft).unique hdistinct (isMemory_fold hright))
  · rcases (hrow row h).body with
      ⟨op, hop, hset, hshows⟩ | ⟨op, hop, hforget, hshows⟩ | ⟨hno, hshows⟩
    · exact iff_of_true hshows.active ⟨op, hop, hset⟩
    · refine iff_of_false (fun hactive => ?_) fun ⟨other, ho, hset⟩ => ?_
      · rw [hshows.active] at hactive
        cases hactive
      · rw [ho.unique hdistinct hop, hforget] at hset
        exact absurd hset (by decide)
    · refine iff_of_false (fun hactive => ?_) fun ⟨other, ho, _⟩ => hno.not_holder ho
      rw [hshows.active] at hactive
      cases hactive

/-- An op of the memory `k`. -/
def factAt (opId field opType : String) (value : Option String) (lamport : Int) : Op :=
  ⟨opId, lamport, 1, domainFact, "fact", "k", field, opType, value, "ada", "2026-01-01T00:00:00Z",
    none, none⟩

/-- A body set and forgotten, and a category below zero; the forget first, and the body twice. -/
theorem memory_forgotten :
    let body := factAt "a" "body" "set" (some "text") 3
    let forgotten := factAt "b" "body" "forget" none 5
    let category := factAt "c" "category" "set" (some "decision") (-1)
    let ops := [body, forgotten, category]
    let l := [forgotten, body, category, body]
    memoryOf l "k" = memoryOf ops "k" ∧ (memoryOf l "k" = none ↔ factOps ops "k" = []) ∧
    ∀ row, memoryOf l "k" = some row → IsMemory (factOps ops "k") "k" row ∧
      (row "active" = .int 1 ↔ ∃ op, Holder (factOps ops "k") "body" op ∧ op.opType = "set") :=
  memory_of_ops (by decide) (fun op => by simp only [List.mem_cons, List.not_mem_nil]; tauto) "k"

end NexusFlow.Memory
