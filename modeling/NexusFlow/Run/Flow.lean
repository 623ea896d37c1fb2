import Mathlib.Data.List.Nodup
import Mathlib.Data.Fintype.Card
import NexusFlow.Foundation.Text
import NexusFlow.Lib.Fallible
import NexusFlow.Run.Contracts

/-!
# Flow definitions and `compile`

Model of `crates/run-engine/src/flow.rs`. A declaration holds raw ids (`Text`); `compile` turns it
into a `FlowDef` whose step ids and handles are `Name`s. References to steps (`next`,
`on_needs_rework`, `input`) stay raw, as the source keeps them, and are checked.
-/

namespace NexusFlow.Run

open NexusFlow.Foundation NexusFlow.Lib

/-! ## Declarations -/

/-- `enum Expects`. -/
inductive Expects
  | all
  | subset (handles : List Text)
deriving DecidableEq

/-- `enum OnComplete`. -/
inductive OnComplete
  | passThrough
  | summarize
deriving DecidableEq

/-- `enum DeclaredTree`. -/
inductive DeclaredTree
  | shared
  | exclusive
deriving DecidableEq

/-- `struct StepDecl`. -/
structure StepDecl where
  id : Text
  target : Text
  next : Option Text := none
  onNeedsRework : Option Text := none
  maxPasses : Option Nat := none
  input : Option (List Text) := none
  resume : Bool := false
  task : Option String := none
  stage : Option String := none
  timeout : Option String := none

/-- `struct ChannelDecl`. -/
structure ChannelDecl where
  name : Text
  members : List Text := []
  steps : List StepDecl := []
  expects : Expects := .all
  onComplete : OnComplete := .passThrough
  summaryPrompt : Option String := none
  summaryModel : Option String := none
  workingTree : DeclaredTree := .shared
  timeout : Option String := none

/-! ## Compiled flows -/

/-- `struct Synthesis`. -/
structure Synthesis where
  model : Option String
  prompt : String
deriving DecidableEq

/-- `enum StepKind`. A fan-out always expects every member (`FanOutExpects::All`). -/
inductive StepKind
  | single (target : Handle)
  | fanOut (members : List Handle) (synthesis : Option Synthesis)
deriving DecidableEq

/-- `struct StepDef`. -/
structure StepDef where
  id : StepId
  kind : StepKind
  next : Option Text
  onNeedsRework : Option Text
  maxPasses : Nat
  input : Option (List Text)
  resume : Bool
  task : Option String
  stage : Option String
  channel : Text
  opener : Handle
deriving DecidableEq

namespace StepDef

/-- `StepDef::members`: who this step commissions, the consolidator not among them. -/
def members (d : StepDef) : List Handle :=
  match d.kind with
  | .single target => [target]
  | .fanOut members _ => members

/-- `StepDef::has_synthesis`. -/
def hasSynthesis (d : StepDef) : Bool :=
  match d.kind with
  | .fanOut _ (some _) => true
  | _ => false

/-- `StepDef::is_fan_out`. -/
def isFanOut (d : StepDef) : Bool :=
  match d.kind with
  | .single _ => false
  | .fanOut _ _ => true

end StepDef

/-- `struct IgnoredTimeout`. -/
structure IgnoredTimeout where
  scope : Text
  value : String
deriving DecidableEq

/-- `struct FlowDef`. Its working tree is always exclusive. -/
structure FlowDef where
  name : Text
  steps : List StepDef
  ignoredTimeouts : List IgnoredTimeout
deriving DecidableEq

/-- `FlowDef::step`: the first step of this id. -/
def FlowDef.step (d : FlowDef) (id : Text) : Option StepDef :=
  d.steps.find? fun step => step.id.text == id

/-- `SYNTH`: the reserved identity of a fan-out's consolidator. -/
def SYNTH : Handle := ⟨['_', '_', 's', 'y', 'n', 't', 'h', '_', '_'], by decide⟩

/-- `SUPERVISOR`: the reserved identity the steps' threads are opened as. -/
def SUPERVISOR : Handle := ⟨['_', '_', 'c', 'h', 'a', 'n', 'n', 'e', 'l', '_', '_'], by decide⟩

/-! ## `compile` -/

/-- `enum CompileRefusal`. -/
inductive CompileRefusal
  | sharedTree (channel : Text)
  | expectsSubset (channel : Text)
  | passThroughFanOut (channel : Text)
  | summaryWithoutPrompt (channel : Text)
  | badId (id : Text)
  | unknownStep (name : Text)
  | noSteps (channel : Text)
  | noMembers (channel : Text)
  | duplicateStep (id : Text)
  | duplicateMember (channel : Text) (handle : Text)
  | zeroMaxPasses (step : Text)
  | nextCycle (step : Text)
deriving DecidableEq

/-- The alphabet of an id: `[A-Za-z0-9_-]`. -/
def idChar (c : Char) : Bool := isAsciiAlphanumeric c || c == '_' || c == '-'

/-- The ids `check_id` accepts. -/
def IdOk (id : Text) : Prop :=
  id ≠ [] ∧ (∀ c ∈ id, idChar c = true) ∧ ¬ ['_', '_'] <+: id

instance (id : Text) : Decidable (IdOk id) :=
  haveI : Decidable (∀ c ∈ id, idChar c = true) := List.decidableBAll _ id
  inferInstanceAs (Decidable (_ ∧ _ ∧ ¬ _))

theorem IdOk.noSlash {id : Text} (h : IdOk id) : '/' ∉ id :=
  fun hc => absurd (h.2.1 _ hc) (by decide)

/-- `check_id`: the id as a `Name`, or the refusal. -/
def checkId (id : Text) : Except CompileRefusal Name :=
  if h : IdOk id then .ok ⟨id, h.noSlash⟩ else .error (.badId id)

/-- `first_duplicate`: the first id that stands earlier in the list. -/
def firstDuplicate (ids : List Text) : Option Text := go [] ids
where
  /-- The scan, with what it has seen. -/
  go (seen : List Text) : List Text → Option Text
    | [] => none
    | id :: rest => if id ∈ seen then some id else go (id :: seen) rest

/-- `fan_out`: the kind a step gets from the review channel. -/
def fanOut (review : ChannelDecl) : Except CompileRefusal StepKind :=
  if review.expects ≠ .all then .error (.expectsSubset review.name)
  else if review.onComplete = .passThrough then .error (.passThroughFanOut review.name)
  else
    match review.summaryPrompt with
    | none => .error (.summaryWithoutPrompt review.name)
    | some prompt =>
      if review.members = [] then .error (.noMembers review.name)
      else
        review.members.mapM checkId >>= fun members =>
          match firstDuplicate review.members with
          | some handle => .error (.duplicateMember review.name handle)
          | none => .ok (.fanOut members (some ⟨review.summaryModel, prompt⟩))

/-- The kind of a declared step and the channel its threads open in. -/
def stepKind (flow review : ChannelDecl) (declared : StepDecl) :
    Except CompileRefusal (StepKind × Text) :=
  if declared.target = review.name then (fanOut review).map fun kind => (kind, review.name)
  else (checkId declared.target).map fun target => (.single target, flow.name)

/-- `compile_step`. -/
def compileStep (flow review : ChannelDecl) (declared : StepDecl) :
    Except CompileRefusal StepDef :=
  checkId declared.id >>= fun id =>
    if declared.maxPasses = some 0 then .error (.zeroMaxPasses declared.id)
    else
      stepKind flow review declared >>= fun kc =>
        .ok {
          id
          kind := kc.1
          next := declared.next
          onNeedsRework := declared.onNeedsRework
          maxPasses := declared.maxPasses.getD 1
          input := declared.input
          resume := declared.resume
          task := declared.task
          stage := declared.stage
          channel := kc.2
          opener := SUPERVISOR }

/-- The names a step refers to, in the order `check_references` reads them. -/
def StepDef.references (d : StepDef) : List Text :=
  d.next.toList ++ d.onNeedsRework.toList ++ d.input.getD []

/-- `check_references`: the first name no step has. -/
def checkReferences (steps : List StepDef) : Except CompileRefusal Unit :=
  match (steps.flatMap StepDef.references).find? fun name =>
      !steps.any fun step => step.id.text == name with
  | some name => .error (.unknownStep name)
  | none => .ok ()

/-- `next_of` in `check_next_chains`. -/
def nextOf (steps : List StepDef) (d : StepDef) : Option StepDef :=
  d.next.bind fun next => steps.find? fun candidate => candidate.id.text == next

/-- The walk of `check_next_chains`: `n` times along `next`, or to the chain's end. -/
def walkNext (steps : List StepDef) : Nat → StepDef → StepDef
  | 0, d => d
  | n + 1, d =>
    match nextOf steps d with
    | some next => walkNext steps n next
    | none => d

/-- `check_next_chains`: no chain of `next` goes on after as many moves as there are steps. -/
def checkNextChains (steps : List StepDef) : Except CompileRefusal Unit :=
  match steps.find? fun start => (nextOf steps (walkNext steps steps.length start)).isSome with
  | some start => .error (.nextCycle start.id.text)
  | none => .ok ()

/-- What `note` collects for the receipt: the `timeout:` declarations the engine ignores. -/
def noteTimeouts (flow review : ChannelDecl) : List IgnoredTimeout :=
  let note (scope : Text) (timeout : Option String) : List IgnoredTimeout :=
    timeout.toList.map fun value => ⟨scope, value⟩
  note flow.name flow.timeout ++ flow.steps.flatMap fun declared =>
    note declared.id declared.timeout ++
      if declared.target = review.name then note review.name review.timeout else []

/-- `compile`: a step whose target is `review`'s name is a fan-out from that channel. -/
def compile (flow review : ChannelDecl) : Except CompileRefusal FlowDef :=
  if flow.workingTree ≠ .exclusive then .error (.sharedTree flow.name)
  else if flow.steps = [] then .error (.noSteps flow.name)
  else
    flow.steps.mapM (compileStep flow review) >>= fun steps =>
      match firstDuplicate (steps.map fun step => step.id.text) with
      | some id => .error (.duplicateStep id)
      | none =>
        checkReferences steps >>= fun _ =>
          checkNextChains steps >>= fun _ =>
            .ok ⟨flow.name, steps, noteTimeouts flow review⟩

/-! ## What a compiled flow is -/

/-- **What `compile` guarantees** of the definition a run is pinned to. -/
structure FlowDef.WF (d : FlowDef) : Prop where
  nonempty : d.steps ≠ []
  idsNodup : (d.steps.map StepDef.id).Nodup
  idOk : ∀ s ∈ d.steps, IdOk s.id.text
  known : ∀ s ∈ d.steps, ∀ name ∈ s.references, ∃ t ∈ d.steps, t.id.text = name
  chainEnds : ∀ s ∈ d.steps, nextOf d.steps (walkNext d.steps d.steps.length s) = none
  ceiling : ∀ s ∈ d.steps, 1 ≤ s.maxPasses
  membersNe : ∀ s ∈ d.steps, s.members ≠ []
  membersNodup : ∀ s ∈ d.steps, s.members.Nodup
  membersOk : ∀ s ∈ d.steps, ∀ m ∈ s.members, IdOk m.text
  synthesis : ∀ s ∈ d.steps, s.hasSynthesis = s.isFanOut

theorem mem_mapM_ok {ε α β : Type} {f : α → Except ε β} {l : List α} {r : List β}
    (h : List.Forall₂ (fun a b => f a = .ok b) l r) {b : β} (hb : b ∈ r) : ∃ a, f a = .ok b := by
  induction h with
  | nil => cases hb
  | cons hab _ ih =>
    rcases List.mem_cons.mp hb with rfl | hb
    · exact ⟨_, hab⟩
    · exact ih hb

theorem checkId_ok {id : Text} {n : Name} (h : checkId id = .ok n) : n.text = id ∧ IdOk id := by
  unfold checkId at h
  split at h
  · rename_i hid
    cases h
    exact ⟨rfl, hid⟩
  · cases h

theorem checkId_mapM {ids : List Text} {names : List Name} (h : ids.mapM checkId = .ok names) :
    names.map Name.text = ids ∧ ∀ n ∈ names, IdOk n.text := by
  have h2 := mapM_ok h
  clear h
  induction h2 with
  | nil => simp
  | cons hab _ ih =>
    obtain ⟨rfl, hok⟩ := checkId_ok hab
    refine ⟨by simp [ih.1], ?_⟩
    intro n hn
    rcases List.mem_cons.mp hn with rfl | hn
    · exact hok
    · exact ih.2 n hn

theorem firstDuplicate_go_none {ids : List Text} : ∀ {seen : List Text},
    firstDuplicate.go seen ids = none → ids.Nodup ∧ ∀ id ∈ ids, id ∉ seen := by
  induction ids with
  | nil => simp
  | cons id rest ih =>
    intro seen h
    unfold firstDuplicate.go at h
    split at h
    · cases h
    · rename_i hseen
      obtain ⟨hnd, hfresh⟩ := ih h
      refine ⟨List.nodup_cons.mpr ⟨fun hmem => hfresh id hmem List.mem_cons_self, hnd⟩, ?_⟩
      intro x hx
      rcases List.mem_cons.mp hx with rfl | hx
      · exact hseen
      · exact fun hs => hfresh x hx (List.mem_cons_of_mem _ hs)

theorem nodup_of_firstDuplicate {ids : List Text} (h : firstDuplicate ids = none) : ids.Nodup :=
  (firstDuplicate_go_none h).1

/-- What `fan_out` gives a step: its members, all of them once, and a consolidator. -/
theorem fanOut_ok {review : ChannelDecl} {kind : StepKind} (h : fanOut review = .ok kind) :
    ∃ members synthesis, kind = .fanOut members (some synthesis) ∧ members ≠ [] ∧
      members.Nodup ∧ ∀ m ∈ members, IdOk m.text := by
  unfold fanOut at h
  split at h
  · cases h
  split at h
  · cases h
  split at h
  · cases h
  split at h
  · cases h
  rename_i hne
  obtain ⟨members, hmembers, h⟩ := bind_ok h
  obtain ⟨htexts, hok⟩ := checkId_mapM hmembers
  split at h
  · cases h
  rename_i hdup
  cases h
  refine ⟨members, _, rfl, ?_, ?_, hok⟩
  · rintro rfl
    exact hne htexts.symm
  · have hnd := nodup_of_firstDuplicate hdup
    rw [← htexts] at hnd
    exact hnd.of_map

/-- What `compile_step` gives a step. -/
theorem compileStep_ok {flow review : ChannelDecl} {declared : StepDecl} {d : StepDef}
    (h : compileStep flow review declared = .ok d) :
    IdOk d.id.text ∧ 1 ≤ d.maxPasses ∧ d.members ≠ [] ∧ d.members.Nodup ∧
      (∀ m ∈ d.members, IdOk m.text) ∧ d.hasSynthesis = d.isFanOut := by
  unfold compileStep at h
  obtain ⟨id, hid, h⟩ := bind_ok h
  obtain ⟨rfl', hidOk⟩ := checkId_ok hid
  split at h
  · cases h
  rename_i hzero
  obtain ⟨⟨kind, channel⟩, hkind, h⟩ := bind_ok h
  cases h
  have hpass : 1 ≤ declared.maxPasses.getD 1 := by
    cases hm : declared.maxPasses with
    | none => simp
    | some n =>
      have hn : n ≠ 0 := by
        rintro rfl
        exact hzero hm
      simp only [Option.getD_some]
      omega
  refine ⟨rfl' ▸ hidOk, hpass, ?_⟩
  unfold stepKind at hkind
  split at hkind
  · cases hf : fanOut review with
    | error e => rw [hf] at hkind; cases hkind
    | ok k =>
      rw [hf] at hkind
      cases hkind
      obtain ⟨members, synthesis, rfl, hne, hnd, hok⟩ := fanOut_ok hf
      exact ⟨hne, hnd, hok, rfl⟩
  · cases hf : checkId declared.target with
    | error e => rw [hf] at hkind; cases hkind
    | ok target =>
      rw [hf] at hkind
      cases hkind
      obtain ⟨htext, hok⟩ := checkId_ok hf
      refine ⟨by simp [StepDef.members], by simp [StepDef.members], ?_, rfl⟩
      intro m hm
      simp only [StepDef.members, List.mem_singleton] at hm
      rw [hm, htext]
      exact hok

theorem checkReferences_ok {steps : List StepDef} (h : checkReferences steps = .ok ()) :
    ∀ s ∈ steps, ∀ name ∈ s.references, ∃ t ∈ steps, t.id.text = name := by
  unfold checkReferences at h
  split at h
  · cases h
  rename_i hfind
  intro s hs name hname
  have := List.find?_eq_none.mp hfind name (List.mem_flatMap.mpr ⟨s, hs, hname⟩)
  simpa using this

theorem checkNextChains_ok {steps : List StepDef} (h : checkNextChains steps = .ok ()) :
    ∀ s ∈ steps, nextOf steps (walkNext steps steps.length s) = none := by
  unfold checkNextChains at h
  split at h
  · cases h
  rename_i hfind
  intro s hs
  have := List.find?_eq_none.mp hfind s hs
  simpa using this

/-- **A compiled flow is well formed.** -/
theorem compile_wf {flow review : ChannelDecl} {d : FlowDef} (h : compile flow review = .ok d) :
    d.WF := by
  unfold compile at h
  split at h
  · cases h
  split at h
  · cases h
  rename_i hne
  obtain ⟨steps, hsteps, h⟩ := bind_ok h
  split at h
  · cases h
  rename_i hdup
  obtain ⟨⟨⟩, hrefs, h⟩ := bind_ok h
  obtain ⟨⟨⟩, hchains, h⟩ := bind_ok h
  cases h
  have hall := mapM_ok hsteps
  have hstep : ∀ s ∈ steps, ∃ declared, compileStep flow review declared = .ok s :=
    fun s hs => mem_mapM_ok hall hs
  have hids : (steps.map fun step => step.id.text).Nodup := nodup_of_firstDuplicate hdup
  refine ⟨?_, ?_, ?_, checkReferences_ok hrefs, checkNextChains_ok hchains, ?_, ?_, ?_, ?_, ?_⟩
  · rintro rfl
    exact hne (List.forall₂_nil_right_iff.mp hall)
  · rw [show (fun step : StepDef => step.id.text) = Name.text ∘ StepDef.id from rfl,
      ← List.map_map] at hids
    exact hids.of_map
  all_goals
    intro s hs
    obtain ⟨declared, hd⟩ := hstep s hs
    obtain ⟨hid, hpass, hmem, hnd, hok, hsyn⟩ := compileStep_ok hd
    assumption

end NexusFlow.Run
