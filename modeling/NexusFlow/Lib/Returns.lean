import NexusFlow.Lib.Fallible

/-!
# Programs that return

`Fallible.wp` asks nothing of a panic. Where a program is to return, its run is followed step by step
instead: `bind_of_ok` and its siblings say what a statement that returned leaves to run.

**Main result**: `mapM_returns`, a loop whose every turn returns returns, with what its turns keep.
-/

namespace NexusFlow.Lib.Fallible

variable {σ ε α β : Type} {s s' : σ}

/-- What follows a statement that returned. -/
theorem bind_of_ok {m : Fallible σ ε α} {a : α} (h : m s = (some (.ok a), s'))
    (k : α → Fallible σ ε β) : (m >>= k) s = k a s' := by
  simp [bind, h]

theorem pure_eq (a : α) (s : σ) : (pure a : Fallible σ ε α) s = (some (.ok a), s) := rfl

theorem gets_bind (query : σ → α) (k : α → Fallible σ ε β) (s : σ) :
    (gets query >>= k) s = k (query s) s := rfl

theorem ofExcept_of_ok {x : Except ε α} {a : α} (h : x = .ok a) (s : σ) :
    (ofExcept x : Fallible σ ε α) s = (some (.ok a), s) := by
  rw [h]
  rfl

theorem lift_of_some {m : σ → Option α × σ} {a : α} (h : m s = (some a, s')) :
    (lift m : Fallible σ ε α) s = (some (.ok a), s') := by
  change ((m s).1.map Except.ok, (m s).2) = _
  rw [h]
  rfl

instance : LawfulMonad (Fallible σ ε) := LawfulMonad.mk' _
  (fun m => by
    funext s
    change (m >>= pure) s = m s
    rcases h : m s with ⟨_ | _ | _, s'⟩ <;> simp [bind, pure, h])
  (fun _ _ => rfl)
  (fun m k l => by
    funext s
    rcases h : m s with ⟨_ | _ | _, s'⟩ <;> simp [bind, h])

/-- A loop goes on where its first turns left the state. -/
theorem mapM_append_of_ok {γ : Type} {k : γ → Fallible σ ε β} {l l' : List γ} {bs bs' : List β}
    {s'' : σ} (h : l.mapM k s = (some (.ok bs), s')) (h' : l'.mapM k s' = (some (.ok bs'), s'')) :
    (l ++ l').mapM k s = (some (.ok (bs ++ bs')), s'') := by
  rw [List.mapM_append, bind_of_ok h, bind_of_ok h']
  rfl

/-- **A loop that gathers results.** `I` holds of the turns made so far, of their results and of the
state after them. -/
theorem mapM_returns {γ : Type} {l : List γ} {k : γ → Fallible σ ε β}
    (I : List γ → List β → σ → Prop)
    (hstep : ∀ before c rest done s, l = before ++ c :: rest → I before done s →
      ∃ b s', k c s = (some (.ok b), s') ∧ I (before ++ [c]) (done ++ [b]) s')
    (h : I [] [] s) : ∃ all s', l.mapM k s = (some (.ok all), s') ∧ I l all s' := by
  have hloop : ∀ (rest before : List γ) (acc : List β) (s : σ), l = before ++ rest →
      I before acc.reverse s →
      ∃ all s', List.mapM.loop k rest acc s = (some (.ok all), s') ∧ I l all s' := by
    intro rest
    induction rest with
    | nil =>
      intro before acc s hl hI
      rw [List.append_nil] at hl
      exact ⟨acc.reverse, s, rfl, hl ▸ hI⟩
    | cons c rest ih =>
      intro before acc s hl hI
      obtain ⟨b, s', hk, hI'⟩ := hstep before c rest acc.reverse s hl hI
      obtain ⟨all, s'', hrun, hdone⟩ := ih (before ++ [c]) (b :: acc) s' (by simpa using hl)
        (by simpa using hI')
      refine ⟨all, s'', ?_, hdone⟩
      have hturn : List.mapM.loop k (c :: rest) acc =
          (k c >>= fun b => List.mapM.loop k rest (b :: acc)) := rfl
      rw [hturn, bind_of_ok hk]
      exact hrun
  exact hloop l [] [] s rfl h

end NexusFlow.Lib.Fallible
