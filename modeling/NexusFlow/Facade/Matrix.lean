import NexusFlow.Core.Graph
import NexusFlow.Lib.KeyMap

/-!
# The relationship matrix

Model of `crates/facade/src/matrix.rs`: the type system a plugin declares, and the decision on one
parent edge. A `BTreeSet` is a finite set, a `BTreeMap` a `KeyMap`.

`validateParent_ok` says what an accepted edge meets, and which of the two writes it becomes.
-/

namespace NexusFlow.Facade

open NexusFlow.Lib

/-! The order a `BTreeSet` hands its names out in. -/

instance namesTrans : IsTrans String (· ≤ ·) := inferInstance

instance namesAntisymm : @Std.Antisymm String (· ≤ ·) := inferInstance

instance namesTotal : @Std.Total String (· ≤ ·) := inferInstance

/-- How many parents a child type may have. -/
inductive Cardinality
  | single
  | limited (n : Nat)
  | many
  deriving DecidableEq, Repr

/-- `Cardinality::deserialize`, of an integer. -/
def Cardinality.ofInt : Nat → Option Cardinality
  | 0 => none
  | 1 => some .single
  | n => some (.limited n)

/-- One child type's parenthood rule. -/
structure ParentRule where
  parents : Finset String
  max : Cardinality
  deriving DecidableEq

/-- The plugin's type system, the `[types]` table. -/
structure RelationshipMatrix where
  list : Finset String
  rules : KeyMap String ParentRule
  maxDepth : Option Nat
  deriving DecidableEq

/-- How a valid parent write lands. -/
inductive ParentWriteMode
  | replace
  | add
  deriving DecidableEq, Repr

/-- Why a parent write is refused. -/
inductive MatrixViolation
  | pair
  | cardinality
  | depth
  deriving DecidableEq, Repr

namespace RelationshipMatrix

variable (m : RelationshipMatrix)

/-- `RelationshipMatrix::validate`: the first rule that names an undeclared type. -/
def validate : Except String Unit :=
  m.rules.entries.forM fun rule => do
    if rule.1 ∉ m.list then
      throw s!"type rule for undeclared type '{rule.1}'; add it to types.list"
    (rule.2.parents.sort (· ≤ ·)).forM fun parent =>
      if parent ∉ m.list then
        throw (s!"rule for '{rule.1}' allows undeclared parent type '{parent}'; " ++
          "add it to types.list")
      else pure ()

/-- `is_type`. -/
def isType (t : String) : Bool := decide (t ∈ m.list)

/-- `pair_allowed`. -/
def pairAllowed (parentType childType : String) : Bool :=
  (m.rules.get childType).any fun r => decide (parentType ∈ r.parents)

/-- `cardinality`. -/
def cardinality (childType : String) : Option Cardinality :=
  (m.rules.get childType).map ParentRule.max

/-- `parent_limit`. -/
def parentLimit (childType : String) : Option Nat :=
  match m.cardinality childType with
  | some (.limited n) => some n
  | _ => none

/-- `allowed_parents`. -/
def allowedParents (childType : String) : List String :=
  match m.rules.get childType with
  | some r => r.parents.sort (· ≤ ·)
  | none => []

/-- `validate_parent`: the decision on a candidate edge, from the two types, the child's other
parents and the depth through the edge. -/
def validateParent (parentType childType : String) (existingParents depth : Nat) :
    Except MatrixViolation ParentWriteMode :=
  if !m.pairAllowed parentType childType then .error .pair
  else if m.maxDepth.any fun limit => decide (limit < depth) then .error .depth
  else match (m.cardinality childType).getD .single with
    | .single => .ok .replace
    | .many => .ok .add
    | .limited n => if existingParents < n then .ok .add else .error .cardinality

/-- How many parents the type admits: no bound where it may not be parented at all. -/
def Admits (childType : String) (parents : Nat) : Prop :=
  match m.cardinality childType with
  | some .single => parents ≤ 1
  | some (.limited n) => parents ≤ n
  | some .many => True
  | none => True

/-- The depth limit admits a chain of so many items. -/
def DepthAdmits (depth : Nat) : Prop := ∀ limit, m.maxDepth = some limit → depth ≤ limit

variable {m}

theorem cardinality_of_pairAllowed {p c : String} (h : m.pairAllowed p c = true) :
    ∃ k, m.cardinality c = some k := by
  unfold pairAllowed at h
  unfold cardinality
  cases hr : m.rules.get c with
  | none => rw [hr] at h; cases h
  | some r => exact ⟨r.max, rfl⟩

theorem depthAdmits_iff {depth : Nat} :
    m.DepthAdmits depth ↔ (m.maxDepth.any fun limit => decide (limit < depth)) = false := by
  unfold DepthAdmits
  cases m.maxDepth with
  | none => simp
  | some limit => simp

theorem Admits.mono {c : String} {n k : Nat} (h : m.Admits c n) (hk : k ≤ n) : m.Admits c k := by
  unfold Admits at h ⊢
  split <;> simp_all only <;> omega

theorem admits_zero {c : String} : m.Admits c 0 := by
  unfold Admits
  split <;> simp

/-- **An accepted edge**: the pair is allowed, the depth within the limit, and there is room. -/
theorem validateParent_ok {p c : String} {existing depth : Nat} {mode : ParentWriteMode}
    (h : m.validateParent p c existing depth = .ok mode) :
    m.pairAllowed p c = true ∧ m.DepthAdmits depth ∧
      ((mode = .replace ∧ m.cardinality c = some .single) ∨
        (mode = .add ∧ m.cardinality c ≠ some .single ∧ m.Admits c (existing + 1))) := by
  unfold validateParent at h
  cases hp : m.pairAllowed p c with
  | false => simp [hp] at h
  | true =>
    obtain ⟨k, hk⟩ := cardinality_of_pairAllowed hp
    cases hd : m.maxDepth.any fun limit => decide (limit < depth) with
    | true => simp [hp, hd] at h
    | false =>
      refine ⟨rfl, depthAdmits_iff.mpr hd, ?_⟩
      simp only [hp, hd, hk, Bool.not_true, Bool.false_eq_true, if_false, Option.getD_some] at h
      unfold Admits
      rw [hk]
      cases k with
      | single =>
        cases h
        exact .inl ⟨rfl, rfl⟩
      | many =>
        cases h
        exact .inr ⟨rfl, by simp, trivial⟩
      | limited n =>
        simp only at h
        split_ifs at h with hn
        cases h
        exact .inr ⟨rfl, by simp, hn⟩

end RelationshipMatrix

end NexusFlow.Facade
