import NexusFlow.Facade.Effects

/-!
# The registers a verb assigns

One register at a time: what the parts of a verb leave in it (`reg_setAll`, `SameBut.reg`,
`ClaimedUp.reg_status`), and what the assignments of an `update` name (`parseSets_ok`): registers that
may be set, each `status` with the value the caller gave.
-/

namespace NexusFlow.Facade

open NexusFlow.Core NexusFlow.Foundation NexusFlow.Lib Fallible

/-! ## The parts -/

theorem reg_setGiven_of_ne {id field : String} {value : Option String} {sh : Sheet}
    {id' field' : String} (h : field' ≠ field) :
    (setGiven id field value sh).reg id' field' = sh.reg id' field' := by
  cases value with
  | none => rfl
  | some v =>
    change (sh.set id field (.text v)).reg id' field' = _
    rw [Sheet.reg_set, if_neg fun h' => h h'.2]

@[simp] theorem reg_putParent (id : String) (parent : Option (String × ParentWriteMode))
    (sh : Sheet) : (putParent id parent sh).reg = sh.reg := by
  unfold Sheet.reg
  rw [putParent_items]

@[simp] theorem reg_addDeps (id : String) (dependsOn : List String) (sh : Sheet) :
    (addDeps id dependsOn sh).reg = sh.reg := by
  unfold Sheet.reg
  rw [addDeps_items]

/-- A register after a list of assignments to one item: the last one that names it. -/
theorem reg_setAll (id : String) (sets : List (String × Option String)) (sh : Sheet)
    (id' field : String) : (setAll id sets sh).reg id' field =
      if id' = id then (((sets.filter fun set => set.1 == field).getLast?.map
        fun set => Cell.ofOption set.2).getD (sh.reg id' field))
      else sh.reg id' field := by
  unfold setAll
  induction sets using List.reverseRecOn with
  | nil => simp
  | append_singleton sets set ih =>
    rw [List.foldl_append, List.foldl_cons, List.foldl_nil, Sheet.reg_set, ih,
      List.filter_append]
    by_cases hfield : set.1 = field
    · subst hfield
      split_ifs <;> simp_all
    · have hne : ¬ field = set.1 := fun h => hfield h.symm
      simp [hfield, hne]

theorem SameBut.reg {fields : List String} {a b : Sheet} (h : SameBut fields a b)
    {field : String} (hf : field ∉ fields) (id : String) : b.reg id field = a.reg id field := by
  unfold Sheet.reg
  cases ha : a.items id with
  | none => rw [(h.ids id).mpr ha]
  | some ra =>
    cases hb : b.items id with
    | none =>
      rw [(h.ids id).mp hb] at ha
      cases ha
    | some rb => simp [h.regs id ra rb ha hb field hf]

theorem ClaimedUp.reg_status {a b : Sheet} (h : ClaimedUp a b) (id : String) :
    b.reg id "status" = a.reg id "status" ∨
      (a.reg id "status" = .text "open" ∧ b.reg id "status" = .text "in_progress") := by
  unfold Sheet.reg
  cases ha : a.items id with
  | none =>
    rw [(h.ids id).mpr ha]
    exact .inl rfl
  | some ra =>
    cases hb : b.items id with
    | none =>
      rw [(h.ids id).mp hb] at ha
      cases ha
    | some rb => exact h.flips id ra rb ha hb

/-! ## What an update names -/

/-- The value one assignment gives to the status. -/
def statusOf (cfg : PluginConfig) (raw : String) : Option String :=
  (splitPair raw).toOption.bind fun p =>
    if p.1 = "status" ∧ cfg.fields.contains "status" = false then some p.2 else none

/-- The values an update gives to the status, in order. -/
def statusSets (cfg : PluginConfig) (sets : List String) : List String :=
  sets.filterMap (statusOf cfg)

/-- The assignments of a batch to one field. -/
def ParsedSets.given (p : ParsedSets) (field : String) : List (Option String) :=
  (p.parsed.filter fun set => set.1 == field).map Prod.snd

/-- The registers a batch assigns are ones that may be, the type not among them. -/
def ParsedSets.Assignable (p : ParsedSets) : Prop :=
  ∀ set ∈ p.parsed, set.1 ∈ updatableFields ∧ set.1 ≠ "type"

section Parsing

variable {cal : Calendar} {cfg : PluginConfig}

theorem prepareSet_ok {field value v : String} (h : prepareSet cal cfg field value = .ok v) :
    field ∈ updatableFields ∧ (field = "status" → v = value) := by
  unfold prepareSet at h
  obtain ⟨hfield, h⟩ := require_bind h
  refine ⟨by simpa using hfield, ?_⟩
  rintro rfl
  rw [if_pos rfl] at h
  obtain ⟨_, h⟩ := require_bind h
  cases h
  rfl

theorem given_append (p : ParsedSets) (set : String × Option String) (field : String) :
    ({ p with parsed := p.parsed ++ [set] } : ParsedSets).given field =
      p.given field ++ (if set.1 = field then [set.2] else []) := by
  unfold ParsedSets.given
  rw [List.filter_append, List.map_append]
  by_cases h : set.1 = field <;> simp [h]

/-- **One assignment**: the batch grows by a field that may be set, the status by the value given. -/
theorem parseSet_ok {acc p : ParsedSets} {raw : String} (h : parseSet cal cfg acc raw = .ok p)
    (hacc : acc.Assignable) :
    p.Assignable ∧
      p.given "status" = acc.given "status" ++ (statusOf cfg raw).toList.map some := by
  have hgrown : ∀ set : String × Option String, set.1 ∈ updatableFields → set.1 ≠ "type" →
      ({ acc with parsed := acc.parsed ++ [set] } : ParsedSets).Assignable := by
    intro set hset htype s hs
    rcases List.mem_append.mp hs with hs | hs
    · exact hacc s hs
    · rw [List.mem_singleton.mp hs]
      exact ⟨hset, htype⟩
  unfold parseSet at h
  unfold statusOf
  cases hsplit : splitPair raw with
  | error e =>
    rw [hsplit] at h
    cases h
  | ok pair =>
    obtain ⟨field, value⟩ := pair
    rw [hsplit] at h
    dsimp only [bind, Except.bind] at h
    simp only [Except.toOption, Option.bind_some]
    split_ifs at h with htype hcustom hclear hparent
    · subst htype
      split at h
      · cases h
      · cases h
        exact ⟨hacc, by simp [ParsedSets.given]⟩
    · cases h
      refine ⟨hacc, ?_⟩
      rw [if_neg fun h => by simp [h.1 ▸ hcustom] at h]
      simp [ParsedSets.given]
    · cases h
      have hfield : field ∈ updatableFields ∧ field ≠ "status" := by
        have := hclear.2
        simp only [clearableOnEmpty, List.contains_eq_mem, List.mem_cons, List.not_mem_nil,
          or_false, decide_eq_true_eq] at this
        rcases this with rfl | rfl | rfl <;> decide
      refine ⟨hgrown _ hfield.1 htype, ?_⟩
      rw [given_append, if_neg hfield.2, if_neg fun h => hfield.2 h.1]
      rfl
    · split at h
      · cases h
      · cases h
        subst hparent
        exact ⟨hacc, by simp [ParsedSets.given]⟩
    · split at h
      · cases h
      · next v hv =>
        cases h
        obtain ⟨hfield, hvalue⟩ := prepareSet_ok hv
        refine ⟨hgrown _ hfield htype, ?_⟩
        rw [given_append]
        by_cases hstatus : field = "status"
        · subst hstatus
          simp [hvalue rfl, hcustom]
        · simp [hstatus]

theorem parseSets_ok {sets : List String} {p : ParsedSets}
    (h : parseSets cal cfg sets = .ok p) :
    p.Assignable ∧ p.given "status" = (statusSets cfg sets).map some := by
  have hloop : ∀ acc : ParsedSets, acc.Assignable → sets.foldlM (parseSet cal cfg) acc = .ok p →
      p.Assignable ∧ p.given "status" = acc.given "status" ++ (statusSets cfg sets).map some := by
    clear h
    induction sets with
    | nil =>
      intro acc hacc h
      cases h
      exact ⟨hacc, by simp [statusSets]⟩
    | cons raw sets ih =>
      intro acc hacc h
      rw [List.foldlM_cons] at h
      cases hstep : parseSet cal cfg acc raw with
      | error e =>
        rw [hstep] at h
        cases h
      | ok acc' =>
        rw [hstep] at h
        obtain ⟨hacc', hgiven⟩ := parseSet_ok hstep hacc
        obtain ⟨hp, hstatus⟩ := ih acc' hacc' h
        refine ⟨hp, ?_⟩
        rw [hstatus, hgiven]
        unfold statusSets
        cases hof : statusOf cfg raw <;> simp [hof]
  exact hloop _ (by simp [ParsedSets.Assignable]) h

/-- One assignment: a type is written only if it is declared. -/
theorem parseSet_type {acc p : ParsedSets} {raw : String} (h : parseSet cal cfg acc raw = .ok p)
    (hacc : ∀ t, acc.typeWrite = some t → t ∈ cfg.types.list) :
    ∀ t, p.typeWrite = some t → t ∈ cfg.types.list := by
  unfold parseSet at h
  cases hsplit : splitPair raw with
  | error e =>
    rw [hsplit] at h
    cases h
  | ok pair =>
    obtain ⟨field, value⟩ := pair
    rw [hsplit] at h
    dsimp only [bind, Except.bind] at h
    split_ifs at h
    · split at h
      · cases h
      · next t ht =>
        cases h
        intro t' ht'
        cases ht'
        exact cfg.resolveItemType_ok ht
    · cases h
      exact hacc
    · cases h
      exact hacc
    · split at h
      · cases h
      · cases h
        exact hacc
    · split at h
      · cases h
      · cases h
        exact hacc

theorem parseSets_type {sets : List String} {p : ParsedSets}
    (h : parseSets cal cfg sets = .ok p) : ∀ t, p.typeWrite = some t → t ∈ cfg.types.list := by
  have hloop : ∀ acc : ParsedSets, (∀ t, acc.typeWrite = some t → t ∈ cfg.types.list) →
      sets.foldlM (parseSet cal cfg) acc = .ok p →
      ∀ t, p.typeWrite = some t → t ∈ cfg.types.list := by
    clear h
    induction sets with
    | nil =>
      intro acc hacc h
      cases h
      exact hacc
    | cons raw sets ih =>
      intro acc hacc h
      rw [List.foldlM_cons] at h
      cases hstep : parseSet cal cfg acc raw with
      | error e =>
        rw [hstep] at h
        cases h
      | ok acc' =>
        rw [hstep] at h
        exact ih acc' (parseSet_type hstep hacc) h
  exact hloop _ (by simp) h

end Parsing

/-- A register no batch assigns. -/
theorem ParsedSets.Assignable.filter_eq_nil {p : ParsedSets} (hp : p.Assignable) {field : String}
    (hf : field ∉ updatableFields ∨ field = "type") : p.parsed.filter (·.1 == field) = [] := by
  refine List.filter_eq_nil_iff.mpr fun set hset hfield => ?_
  obtain ⟨hin, hne⟩ := hp set hset
  rw [beq_iff_eq.mp hfield] at hin hne
  exact hf.elim (· hin) hne

theorem newStatus_eq (p : ParsedSets) : p.newStatus = (p.given "status").head?.join := by
  unfold ParsedSets.newStatus ParsedSets.given
  rw [List.head?_map, List.head?_filter]
  cases p.parsed.find? fun set => set.1 == "status" <;> rfl

end NexusFlow.Facade
