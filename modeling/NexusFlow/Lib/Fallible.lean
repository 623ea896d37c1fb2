import Mathlib.Data.List.Forall2
import Mathlib.Tactic.SplitIfs

/-!
# Programs that refuse or panic

A program on a state `σ` that returns a value, refuses with an `ε`, or panics. Whatever the outcome,
the state is where the program left it: nothing is rolled back.

`wp m Q E s` is what must hold of `s` for `m` to end well: a value in a state as `Q` says, a refusal
in a state as `E` says. A panic gives no answer, and nothing is asked of it.

**Main results**: `wp_bind` and `wp_forM`. The rules turn a program into what it asks of the state it
starts in, one statement at a time.
-/

namespace NexusFlow.Lib

/-- A program: no answer at all is a panic. -/
def Fallible (σ ε α : Type) : Type := σ → Option (Except ε α) × σ

namespace Fallible

variable {σ ε α β : Type}

instance : Monad (Fallible σ ε) where
  pure a := fun s => (some (.ok a), s)
  bind m k := fun s => match m s with
    | (some (.ok a), s) => k a s
    | (some (.error e), s) => (some (.error e), s)
    | (none, s) => (none, s)

/-- Refuse. -/
def throw (e : ε) : Fallible σ ε α := fun s => (some (.error e), s)

/-- `unreachable!`. -/
def unreachable : Fallible σ ε α := fun s => (none, s)

/-- A check that reads nothing of the state. -/
def ofExcept (x : Except ε α) : Fallible σ ε α := fun s => (some x, s)

/-- Go on only if the check holds. -/
def ensure (b : Bool) (e : ε) : Fallible σ ε Unit :=
  fun s => (some (if b then .ok () else .error e), s)

/-- Look at the state. -/
def gets (query : σ → α) : Fallible σ ε α := fun s => (some (.ok (query s)), s)

/-- The value that is there, or a refusal. -/
def orThrow (o : Option α) (e : ε) : Fallible σ ε α :=
  fun s => (some (match o with
    | some a => .ok a
    | none => .error e), s)

/-- A program that cannot refuse. -/
def lift (m : σ → Option α × σ) : Fallible σ ε α := fun s => ((m s).1.map .ok, (m s).2)

/-- The program, run from `s`, ends as `Q` and `E` say. -/
def wp (m : Fallible σ ε α) (Q : α → σ → Prop) (E : ε → σ → Prop) (s : σ) : Prop :=
  match m s with
  | (some (.ok a), s) => Q a s
  | (some (.error e), s) => E e s
  | (none, _) => True

/-- What `wp` says of a run that returned. -/
theorem wp_ok {m : Fallible σ ε α} {Q : α → σ → Prop} {E : ε → σ → Prop} {s s' : σ} {a : α}
    (h : m.wp Q E s) (hm : m s = (some (.ok a), s')) : Q a s' := by
  unfold wp at h
  rw [hm] at h
  exact h

/-- What `wp` says of a run that refused. -/
theorem wp_error {m : Fallible σ ε α} {Q : α → σ → Prop} {E : ε → σ → Prop} {s s' : σ} {e : ε}
    (h : m.wp Q E s) (hm : m s = (some (.error e), s')) : E e s' := by
  unfold wp at h
  rw [hm] at h
  exact h

section Rules

variable {Q : β → σ → Prop} {E : ε → σ → Prop} {s : σ}

theorem wp_mono {P R : α → σ → Prop} {E F : ε → σ → Prop} {m : Fallible σ ε α}
    (h : m.wp P E s) (hP : ∀ a s, P a s → R a s) (hE : ∀ e s, E e s → F e s) : m.wp R F s := by
  unfold wp at h ⊢
  revert h
  rcases m s with ⟨_ | (e | a), s'⟩
  · exact fun _ => trivial
  · exact hE e s'
  · exact hP a s'

@[simp] theorem wp_pure {b : β} : wp (pure b : Fallible σ ε β) Q E s ↔ Q b s := Iff.rfl

@[simp] theorem wp_throw {e : ε} : wp (throw e : Fallible σ ε β) Q E s ↔ E e s := Iff.rfl

@[simp] theorem wp_unreachable : wp (unreachable : Fallible σ ε β) Q E s := trivial

@[simp] theorem wp_gets {query : σ → β} : wp (gets query) Q E s ↔ Q (query s) s := Iff.rfl

/-- **Sequencing.** -/
@[simp] theorem wp_bind {m : Fallible σ ε α} {k : α → Fallible σ ε β} :
    wp (m >>= k) Q E s ↔ m.wp (fun a s => (k a).wp Q E s) E s := by
  unfold wp
  change (match (match m s with
    | (some (.ok a), s) => k a s
    | (some (.error e), s) => (some (.error e), s)
    | (none, s) => (none, s)) with
    | (some (.ok b), s) => Q b s
    | (some (.error e), s) => E e s
    | (none, _) => True) ↔ _
  rcases m s with ⟨_ | (e | a), s'⟩ <;> exact Iff.rfl

@[simp] theorem wp_ofExcept {x : Except ε β} :
    wp (ofExcept x) Q E s ↔ (∀ b, x = .ok b → Q b s) ∧ ∀ e, x = .error e → E e s := by
  cases x with
  | ok b =>
    change Q b s ↔ _
    simp
  | error e =>
    change E e s ↔ _
    simp

@[simp] theorem wp_ensure {b : Bool} {e : ε} {Q : Unit → σ → Prop} :
    wp (ensure b e) Q E s ↔ (b = true → Q () s) ∧ (b = false → E e s) := by
  cases b with
  | true =>
    change Q () s ↔ _
    simp
  | false =>
    change E e s ↔ _
    simp

@[simp] theorem wp_orThrow {o : Option β} {e : ε} :
    wp (orThrow o e) Q E s ↔ (∀ b, o = some b → Q b s) ∧ (o = none → E e s) := by
  cases o with
  | some b =>
    change Q b s ↔ _
    simp
  | none =>
    change E e s ↔ _
    simp

@[simp] theorem wp_lift {m : σ → Option β × σ} :
    wp (lift m) Q E s ↔ ∀ b, (m s).1 = some b → Q b (m s).2 := by
  unfold wp lift
  cases hm : (m s).1 with
  | none => simp
  | some b => simp

@[simp] theorem wp_ite {c : Prop} [Decidable c] {m n : Fallible σ ε β} :
    wp (if c then m else n) Q E s ↔ (c → m.wp Q E s) ∧ (¬ c → n.wp Q E s) := by
  split_ifs with h <;> simp [h]

/-- **A loop**: what holds before each turn holds at the end. -/
theorem wp_forM {γ : Type} {l : List γ} {k : γ → Fallible σ ε PUnit}
    (I : List γ → σ → Prop) (hstep : ∀ b rest s, I (b :: rest) s →
      (k b).wp (fun _ s => I rest s) E s) {Q : PUnit → σ → Prop} (hend : ∀ s, I [] s → Q ⟨⟩ s)
    (h : I l s) : (l.forM k).wp Q E s := by
  induction l generalizing s with
  | nil => exact hend s h
  | cons b l ih =>
    change (k b >>= fun _ => l.forM k).wp Q E s
    rw [wp_bind]
    exact wp_mono (hstep b l s h) (fun _ s hs => ih hs) fun _ _ he => he

/-- A loop that gathers results. -/
theorem wp_mapM {γ : Type} {l : List γ} {k : γ → Fallible σ ε α} (I : σ → Prop)
    (hstep : ∀ c ∈ l, ∀ s, I s → (k c).wp (fun _ s => I s) E s) {Q : List α → σ → Prop}
    (hend : ∀ as s, I s → Q as s) (h : I s) : (l.mapM k).wp Q E s := by
  have hloop : ∀ acc s, I s → (List.mapM.loop k l acc).wp Q E s := by
    induction l with
    | nil => exact fun acc s hs => hend _ s hs
    | cons c l ih =>
      intro acc s hs
      change (k c >>= fun a => List.mapM.loop k l (a :: acc)).wp Q E s
      rw [wp_bind]
      refine wp_mono (hstep c (by simp) s hs) (fun a s hs => ?_) fun _ _ he => he
      exact ih (fun c hc => hstep c (List.mem_cons_of_mem _ hc)) (a :: acc) s hs
  exact hloop [] s h

end Rules

/-! ## Programs that only look -/

/-- The program leaves the state as it is, and what it returns is as `P` says. -/
def Reads (m : Fallible σ ε α) (P : α → Prop) (s : σ) : Prop :=
  m.wp (fun a s' => s' = s ∧ P a) (fun _ s' => s' = s) s

section Reads

variable {P : α → Prop} {R : β → Prop} {s : σ}

/-- **A check in front**: refusing must be fine here, and what follows may count on the check. -/
theorem wp_reads {m : Fallible σ ε α} {k : α → Fallible σ ε β} {Q : β → σ → Prop}
    {E : ε → σ → Prop} (hm : Reads m P s) (hE : ∀ e, E e s) (hk : ∀ a, P a → (k a).wp Q E s) :
    (m >>= k).wp Q E s := by
  rw [wp_bind]
  refine wp_mono hm (fun a s' h => ?_) fun e s' h => ?_
  · obtain ⟨rfl, ha⟩ := h
    exact hk a ha
  · subst h
    exact hE e

namespace Reads

theorem mono {P' : α → Prop} {m : Fallible σ ε α} (h : Reads m P s) (hP : ∀ a, P a → P' a) :
    Reads m P' s :=
  wp_mono h (fun a _ h => ⟨h.1, hP a h.2⟩) fun _ _ h => h

theorem pure {a : α} (h : P a) : Reads (Pure.pure a : Fallible σ ε α) P s := ⟨rfl, h⟩

theorem throw {e : ε} : Reads (Fallible.throw e : Fallible σ ε α) P s := rfl

theorem unreachable : Reads (Fallible.unreachable : Fallible σ ε α) P s := trivial

theorem bind {m : Fallible σ ε α} {k : α → Fallible σ ε β} (hm : Reads m P s)
    (hk : ∀ a, P a → Reads (k a) R s) : Reads (m >>= k) R s :=
  wp_reads hm (fun _ => rfl) hk

theorem gets {query : σ → α} : Reads (Fallible.gets query : Fallible σ ε α) (· = query s) s :=
  ⟨rfl, rfl⟩

theorem ofExcept {x : Except ε α} : Reads (Fallible.ofExcept x : Fallible σ ε α) (x = .ok ·) s :=
  wp_ofExcept.mpr ⟨fun _ h => ⟨rfl, h⟩, fun _ _ => rfl⟩

theorem ensure {b : Bool} {e : ε} :
    Reads (Fallible.ensure b e : Fallible σ ε Unit) (fun _ => b = true) s :=
  wp_ensure.mpr ⟨fun h => ⟨rfl, h⟩, fun _ => rfl⟩

theorem orThrow {o : Option α} {e : ε} :
    Reads (Fallible.orThrow o e : Fallible σ ε α) (o = some ·) s :=
  wp_orThrow.mpr ⟨fun _ h => ⟨rfl, h⟩, fun _ => rfl⟩

theorem forM {γ : Type} {l : List γ} {k : γ → Fallible σ ε PUnit} {I : γ → Prop}
    (hk : ∀ c, Reads (k c) (fun _ => I c) s) : Reads (l.forM k) (fun _ => ∀ c ∈ l, I c) s := by
  induction l with
  | nil => exact pure (by simp)
  | cons c l ih =>
    exact bind (hk c) fun _ hc => ih.mono fun _ h => by simpa using ⟨hc, h⟩

theorem mapM {γ : Type} {l : List γ} {k : γ → Fallible σ ε α} (hk : ∀ c, Reads (k c) P s) :
    Reads (l.mapM k) (fun _ => True) s := by
  have hloop : ∀ acc, Reads (List.mapM.loop k l acc) (fun _ => True) s := by
    induction l with
    | nil => exact fun acc => pure trivial
    | cons c l ih => exact fun acc => bind (hk c) fun a _ => ih (a :: acc)
  exact hloop []

end Reads

end Reads

-- from here on a program is taken apart by the rules, never by running it
attribute [irreducible] wp

end Fallible

/-! ## Checks in a row -/

theorem bind_ok {ε α β : Type} {x : Except ε α} {f : α → Except ε β} {b : β}
    (h : x >>= f = .ok b) : ∃ a, x = .ok a ∧ f a = .ok b := by
  cases x with
  | error e => cases h
  | ok a => exact ⟨a, rfl, h⟩

/-- A list read element by element. -/
theorem mapM_ok {ε α β : Type} {f : α → Except ε β} {l : List α} {r : List β}
    (h : l.mapM f = .ok r) : List.Forall₂ (fun a b => f a = .ok b) l r := by
  induction l generalizing r with
  | nil =>
    rw [List.mapM_nil] at h
    cases h
    exact .nil
  | cons a l ih =>
    rw [List.mapM_cons] at h
    obtain ⟨b, hb, h⟩ := bind_ok h
    obtain ⟨bs, hbs, h⟩ := bind_ok h
    cases h
    exact .cons hb (ih hbs)

end NexusFlow.Lib
