import Mathlib.Data.List.Basic

/-!
# Codes that are read off the front

A code is *prefix free* on its domain when what stands first in a text tells which value was
written there and where the rest begins. Such codes compose: a length in front of the bytes
(`Cancels.lengthPrefixed`), a presence mark in front of an optional value (`Cancels.optional`), and
one code after the other, by taking the values off one at a time.
-/

namespace NexusFlow.Lib

variable {α β γ : Type} {P : α → Prop} {enc : α → List γ}

/-- A value written first in a text, and the rest of the text, are known from the text. -/
def Cancels (enc : α → List γ) (P : α → Prop) : Prop :=
  ∀ a b s t, P a → P b → enc a ++ s = enc b ++ t → a = b ∧ s = t

/-- An injective code of one width cancels. -/
theorem Cancels.of_width {n : Nat} (hwidth : ∀ a, (enc a).length = n)
    (hinj : ∀ a b, P a → P b → enc a = enc b → a = b) : Cancels enc P := by
  intro a b s t ha hb h
  obtain ⟨henc, hrest⟩ := List.append_inj h ((hwidth a).trans (hwidth b).symm)
  exact ⟨hinj a b ha hb henc, hrest⟩

/-- Values of another type, through an injective reading of them. -/
theorem Cancels.comap {Q : β → Prop} {f : β → α} (h : Cancels enc P)
    (hP : ∀ x, Q x → P (f x)) (hinj : ∀ x y, Q x → Q y → f x = f y → x = y) :
    Cancels (fun x => enc (f x)) Q := by
  intro x y s t hx hy heq
  obtain ⟨hf, hrest⟩ := h _ _ s t (hP x hx) (hP y hy) heq
  exact ⟨hinj x y hx hy hf, hrest⟩

/-- **A length in front of a list** tells where the list ends. -/
theorem Cancels.lengthPrefixed {len : Nat → List γ} {bound : Nat}
    (h : Cancels len fun n => n < bound) :
    Cancels (fun xs : List γ => len xs.length ++ xs) fun xs => xs.length < bound := by
  intro xs ys s t hx hy heq
  rw [List.append_assoc, List.append_assoc] at heq
  obtain ⟨hlen, htail⟩ := h _ _ _ _ hx hy heq
  exact List.append_inj htail hlen

/-- **A mark in front of an optional value** keeps an absent value and an empty one apart. -/
theorem Cancels.optional {no yes : γ} (hne : no ≠ yes) (h : Cancels enc P) :
    Cancels (fun o : Option α => o.elim [no] fun a => yes :: enc a)
      fun o => ∀ a, o = some a → P a := by
  intro o o' s t ho ho' heq
  cases o with
  | none =>
    cases o' with
    | none => exact ⟨rfl, (List.cons.inj heq).2⟩
    | some b => exact absurd (List.cons.inj heq).1 hne
  | some a =>
    cases o' with
    | none => exact absurd (List.cons.inj heq).1.symm hne
    | some b =>
      obtain ⟨hab, hrest⟩ := h a b s t (ho a rfl) (ho' b rfl) (List.cons.inj heq).2
      exact ⟨congrArg some hab, hrest⟩

end NexusFlow.Lib
