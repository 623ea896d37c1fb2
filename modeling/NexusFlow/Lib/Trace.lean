import Mathlib.Data.List.Basic

/-!
# Histories that grow at the end

What is said about the entries of a history, oldest first, and how it is kept when an entry is
written: a law of every entry in the light of what came before it (`Always`), an entry of a kind
(`Happened`), an entry of a kind after one of another (`Since`), and an entry of a kind that nothing
of another kind came after (`Standing`).
-/

namespace NexusFlow.Lib

variable {α : Type} {log : List α} {a : α}

/-- Every entry obeys the law, which may look at what came before it. -/
def Always (P : List α → α → Prop) (log : List α) : Prop :=
  ∀ before a after, log = before ++ a :: after → P before a

theorem Always.nil (P : List α → α → Prop) : Always P [] := by
  intro before a after h
  cases before <;> cases h

theorem always_snoc {P : List α → α → Prop} : Always P (log ++ [a]) ↔ Always P log ∧ P log a := by
  constructor
  · intro h
    refine ⟨fun before b after heq => h before b (after ++ [a]) ?_, h log a [] rfl⟩
    rw [heq, List.append_assoc, List.cons_append]
  · rintro ⟨h, hlast⟩ before b after heq
    rcases List.eq_nil_or_concat after with rfl | ⟨after, c, rfl⟩
    · obtain ⟨rfl, hb⟩ := List.append_inj' heq rfl
      cases hb
      exact hlast
    · rw [List.concat_eq_append, ← List.cons_append, ← List.append_assoc] at heq
      exact h before b after (List.append_inj_left' heq rfl)

/-- Some entry is of this kind. -/
def Happened (P : α → Prop) (log : List α) : Prop := ∃ a ∈ log, P a

theorem Happened.snoc {P : α → Prop} (h : Happened P log) (a : α) : Happened P (log ++ [a]) := by
  obtain ⟨b, hb, hP⟩ := h
  exact ⟨b, List.mem_append_left _ hb, hP⟩

theorem Happened.last {P : α → Prop} (h : P a) : Happened P (log ++ [a]) :=
  ⟨a, List.mem_append_right _ List.mem_cons_self, h⟩

/-- An entry of the second kind stands after one of the first. -/
def Since (P Q : α → Prop) (log : List α) : Prop :=
  ∃ before b after, log = before ++ b :: after ∧ Happened P before ∧ Q b

theorem Since.snoc {P Q : α → Prop} (h : Since P Q log) (a : α) : Since P Q (log ++ [a]) := by
  obtain ⟨before, b, after, rfl, hP, hQ⟩ := h
  exact ⟨before, b, after ++ [a], by rw [List.append_assoc, List.cons_append], hP, hQ⟩

theorem Since.last {P Q : α → Prop} (hP : Happened P log) (hQ : Q a) : Since P Q (log ++ [a]) :=
  ⟨log, a, [], rfl, hP, hQ⟩

/-- An entry of the first kind, and none of the second after it. -/
def Standing (P Q : α → Prop) (log : List α) : Prop :=
  ∃ before b after, log = before ++ b :: after ∧ P b ∧ ∀ c ∈ after, ¬ Q c

theorem Standing.snoc {P Q : α → Prop} (h : Standing P Q log) (ha : ¬ Q a) :
    Standing P Q (log ++ [a]) := by
  obtain ⟨before, b, after, rfl, hP, hQ⟩ := h
  refine ⟨before, b, after ++ [a], by rw [List.append_assoc, List.cons_append], hP, ?_⟩
  intro c hc
  rcases List.mem_append.mp hc with hc | hc
  · exact hQ c hc
  · rwa [List.mem_singleton.mp hc]

theorem Standing.last {P Q : α → Prop} (h : P a) : Standing P Q (log ++ [a]) :=
  ⟨log, a, [], rfl, h, by simp⟩

end NexusFlow.Lib
