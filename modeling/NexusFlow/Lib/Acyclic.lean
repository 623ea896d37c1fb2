import Mathlib.Data.List.Chain
import Mathlib.Logic.Relation

/-!
# Acyclic relations and their chains

A relation with no way back to where one started, and what adding edges to it does: one edge `a → b`
where `b` does not lead to `a` (`Acyclic.addEdge`), or the edges of a source nothing leads to
(`Acyclic.addSource`). Across such an edge a chain splits into two chains of the relation before
(`isChain_addEdge`), so its length is bounded by what leads to `a` and what `b` leads to.
-/

namespace NexusFlow.Lib

open Relation

variable {α : Type} {R R' : α → α → Prop} {a b : α}

/-- No element leads back to itself. -/
def Acyclic (R : α → α → Prop) : Prop := ∀ a, ¬ TransGen R a a

theorem acyclic_empty : Acyclic fun _ _ : α => False := by
  intro a h
  obtain ⟨_, h, _⟩ := TransGen.head'_iff.mp h
  exact h

namespace Acyclic

theorem mono (h : Acyclic R) (hsub : ∀ x y, R' x y → R x y) : Acyclic R' :=
  fun a hcycle => h a (TransGen.mono hsub _ _ hcycle)

theorem irrefl (h : Acyclic R) {x y : α} (hxy : R x y) : x ≠ y := by
  rintro rfl
  exact h x (.single hxy)

/-- The other way round. -/
theorem swap (h : Acyclic R) : Acyclic fun x y => R y x :=
  fun a hcycle => h a (transGen_swap.mp hcycle)

/-- **One edge more** keeps a relation acyclic, unless its end leads to its start. -/
theorem addEdge (h : Acyclic R) (hback : ¬ ReflTransGen R b a)
    (hadd : ∀ x y, R' x y → R x y ∨ (x = a ∧ y = b)) : Acyclic R' := by
  -- a way in the new relation either is one in the old, or crosses the new edge once
  have hway : ∀ x y, TransGen R' x y →
      TransGen R x y ∨ (ReflTransGen R x a ∧ ReflTransGen R b y) := by
    intro x y hxy
    induction hxy with
    | single hy =>
      rcases hadd _ _ hy with hy | ⟨rfl, rfl⟩
      · exact .inl (.single hy)
      · exact .inr ⟨.refl, .refl⟩
    | tail _ hyz ih =>
      rcases hadd _ _ hyz with hyz | ⟨rfl, rfl⟩
      · rcases ih with hxy | ⟨hxa, hby⟩
        · exact .inl (hxy.tail hyz)
        · exact .inr ⟨hxa, hby.tail hyz⟩
      · rcases ih with hxy | ⟨_, hby⟩
        · exact .inr ⟨hxy.to_reflTransGen, .refl⟩
        · exact absurd hby hback
  intro x hcycle
  rcases hway x x hcycle with hxx | ⟨hxa, hbx⟩
  · exact h x hxx
  · exact hback (hbx.trans hxa)

/-- **A new source**, whatever it points at. -/
theorem addSource (h : Acyclic R) (hadd : ∀ x y, R' x y → R x y ∨ x = a)
    (hin : ∀ x, ¬ R' x a) : Acyclic R' := by
  have hway : ∀ x y, TransGen R' x y → x = a ∨ TransGen R x y := by
    intro x y hxy
    induction hxy with
    | single hy => exact (hadd _ _ hy).symm.imp_right .single
    | @tail y z hxy hyz ih =>
      rcases ih with ih | ih
      · exact .inl ih
      · rcases hadd _ _ hyz with hyz | rfl
        · exact .inr (ih.tail hyz)
        · -- something leads to the source
          obtain ⟨w, _, hw⟩ := TransGen.tail'_iff.mp hxy
          exact absurd hw (hin w)
  intro x hcycle
  rcases hway x x hcycle with rfl | hxx
  · obtain ⟨w, _, hw⟩ := TransGen.tail'_iff.mp hcycle
    exact hin w hw
  · exact h x hxx

end Acyclic

/-! ## Chains -/

/-- A chain leads from its first element to its last. -/
theorem reflTransGen_of_isChain {x y : α} {l : List α} (h : List.IsChain R (x :: l))
    (hlast : (x :: l).getLast? = some y) : ReflTransGen R x y := by
  induction l generalizing x with
  | nil =>
    cases hlast
    exact .refl
  | cons z l ih =>
    rw [List.isChain_cons_cons] at h
    exact .head h.1 (ih h.2 (by rwa [List.getLast?_cons_cons] at hlast))

/-- **A chain across a new edge** is a chain before it, or one that ends at its start, then one that
begins at its end. -/
theorem isChain_addEdge (hback : ¬ ReflTransGen R b a)
    (hadd : ∀ x y, R' x y → R x y ∨ (x = a ∧ y = b)) {l : List α} (h : List.IsChain R' l) :
    List.IsChain R l ∨ ∃ l₁ l₂, l = l₁ ++ l₂ ∧ List.IsChain R l₁ ∧ List.IsChain R l₂ ∧
      l₁.getLast? = some a ∧ l₂.head? = some b := by
  induction l with
  | nil => exact .inl .nil
  | cons x l ih =>
    cases l with
    | nil => exact .inl (.singleton x)
    | cons y l =>
      rw [List.isChain_cons_cons] at h
      rcases ih h.2 with hrest | ⟨l₁, l₂, hsplit, h₁, h₂, hlast, hhead⟩
      · rcases hadd x y h.1 with hxy | ⟨rfl, rfl⟩
        · exact .inl (List.isChain_cons_cons.mpr ⟨hxy, hrest⟩)
        · exact .inr ⟨[x], y :: l, rfl, .singleton x, hrest, rfl, rfl⟩
      · cases l₁ with
        | nil => cases hlast
        | cons z l₁ =>
          obtain ⟨rfl, rfl⟩ : y = z ∧ l = l₁ ++ l₂ := by simpa using hsplit
          rcases hadd x y h.1 with hxy | ⟨rfl, rfl⟩
          · refine .inr ⟨x :: y :: l₁, l₂, rfl, List.isChain_cons_cons.mpr ⟨hxy, h₁⟩, h₂, ?_,
              hhead⟩
            rwa [List.getLast?_cons_cons]
          · -- the chain came back to the start of the new edge
            exact absurd (reflTransGen_of_isChain h₁ hlast) hback

/-- No chain from `a` has more than `h` elements. -/
def ChainsWithin (R : α → α → Prop) (a : α) (h : Nat) : Prop :=
  ∀ l, List.IsChain R (a :: l) → (a :: l).length ≤ h

theorem ChainsWithin.mono {h h' : Nat} (hc : ChainsWithin R a h) (hle : h ≤ h') :
    ChainsWithin R a h' := fun l hl => (hc l hl).trans hle

/-- The chains from `a` go through one of its successors. -/
theorem chainsWithin_succ {h : Nat} (hc : ∀ y, R a y → ChainsWithin R y h) :
    ChainsWithin R a (1 + h) := by
  intro l hl
  cases l with
  | nil => simp
  | cons y l =>
    rw [List.isChain_cons_cons] at hl
    have := hc y hl.1 l hl.2
    simp only [List.length_cons] at this ⊢
    omega

end NexusFlow.Lib
