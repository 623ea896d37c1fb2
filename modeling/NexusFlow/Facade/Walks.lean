import NexusFlow.Facade.Reads
import NexusFlow.Lib.Acyclic

/-!
# What the walks find

The walks of `crates/facade/src/write.rs:104-168` over any graph: `reaches` that ends without meeting
its target has seen everything there is to see (`not_reaches`), and on an acyclic graph
`longest_chain` is no shorter than any chain from its start (`chainsWithin_longestChain`). Its guard
against cycles gives up on what is on the stack; where nothing leads back to itself it never fires.
-/

namespace NexusFlow.Facade

open NexusFlow.Lib Relation

variable {α : Type} [DecidableEq α] {next : α → List α}

/-- The edges of a walk. -/
abbrev Step (next : α → List α) (x y : α) : Prop := y ∈ next x

/-! ## reaches -/

/-- What has been seen leads to what has been seen or is on the stack, and is not the target. -/
def SeenAll (next : α → List α) (target : α) (stack seen : List α) : Prop :=
  ∀ x ∈ seen, x ≠ target ∧ ∀ y ∈ next x, y ∈ seen ∨ y ∈ stack

/-- A walk that ends has been everywhere. -/
theorem reaches_closed {target : α} {fuel : Nat} {stack seen : List α}
    (h : reaches next target fuel stack seen = some false) (hseen : SeenAll next target stack seen) :
    ∃ all : List α, (∀ x, x ∈ seen ∨ x ∈ stack → x ∈ all) ∧ SeenAll next target [] all := by
  induction fuel generalizing stack seen with
  | zero =>
    cases stack with
    | nil => exact ⟨seen, by simp, hseen⟩
    | cons => cases h
  | succ fuel ih =>
    cases stack with
    | nil => exact ⟨seen, by simp, hseen⟩
    | cons node stack =>
      unfold reaches at h
      split_ifs at h with htarget hold
      · cases h
      · -- the node was seen before
        have hnode : node ∈ seen := by simpa using hold
        have hseen' : SeenAll next target stack seen := by
          refine fun x hx => ⟨(hseen x hx).1, fun y hy => ?_⟩
          rcases (hseen x hx).2 y hy with hy | hy
          · exact .inl hy
          · rcases List.mem_cons.mp hy with rfl | hy
            · exact .inl hnode
            · exact .inr hy
        obtain ⟨all, hin, hall⟩ := ih h hseen'
        refine ⟨all, fun x hx => hin x ?_, hall⟩
        rcases hx with hx | hx
        · exact .inl hx
        · rcases List.mem_cons.mp hx with rfl | hx
          · exact .inl hnode
          · exact .inr hx
      · have hseen' : SeenAll next target ((next node).reverse ++ stack) (node :: seen) := by
          intro x hx
          rcases List.mem_cons.mp hx with rfl | hx
          · exact ⟨htarget, fun y hy => .inr (by simp [hy])⟩
          · refine ⟨(hseen x hx).1, fun y hy => ?_⟩
            rcases (hseen x hx).2 y hy with hy | hy
            · exact .inl (List.mem_cons_of_mem _ hy)
            · rcases List.mem_cons.mp hy with rfl | hy
              · exact .inl List.mem_cons_self
              · exact .inr (by simp [hy])
        obtain ⟨all, hin, hall⟩ := ih h hseen'
        refine ⟨all, fun x hx => hin x ?_, hall⟩
        rcases hx with hx | hx
        · exact .inl (List.mem_cons_of_mem _ hx)
        · rcases List.mem_cons.mp hx with rfl | hx
          · exact .inl List.mem_cons_self
          · exact .inr (by simp [hx])

/-- **`reaches` finds its target** if it is there. -/
theorem not_reaches {target start : α} {fuel : Nat}
    (h : reaches next target fuel [start] [] = some false) :
    ¬ ReflTransGen (Step next) start target := by
  obtain ⟨all, hin, hall⟩ := reaches_closed h (by simp [SeenAll])
  have hclosed : ∀ y, ReflTransGen (Step next) start y → y ∈ all := by
    intro y hway
    induction hway with
    | refl => exact hin start (by simp)
    | @tail x y _ hxy ih => simpa using (hall x ih).2 y hxy
  exact fun hway => (hall target (hclosed target hway)).1 rfl

/-! ## longest_chain -/

/-- What has been worked out is no shorter than any chain. -/
def MemoBounds (next : α → List α) (memo : List (α × Nat)) : Prop :=
  ∀ x h, memo.lookup x = some h → ChainsWithin (Step next) x h

theorem memoBounds_cons {memo : List (α × Nat)} {x : α} {h : Nat} (hmemo : MemoBounds next memo)
    (hx : ChainsWithin (Step next) x h) : MemoBounds next ((x, h) :: memo) := by
  intro y k hy
  rw [List.lookup_cons] at hy
  split at hy
  · next heq =>
    cases hy
    exact beq_iff_eq.mp heq ▸ hx
  · exact hmemo y k hy

/-- The children in turn: the tallest so far is no shorter than any of them. -/
theorem chainsWithin_foldlM {visit : α → List (α × Nat) → Option (Nat × List (α × Nat))}
    {ys : List α} (hvisit : ∀ y ∈ ys, ∀ memo h memo', visit y memo = some (h, memo') →
      MemoBounds next memo → ChainsWithin (Step next) y h ∧ MemoBounds next memo')
    {acc acc' : Nat × List (α × Nat)} (h : ys.foldlM (fun acc y => do
      let (h, memo) ← visit y acc.2
      pure (max acc.1 h, memo)) acc = some acc') (hmemo : MemoBounds next acc.2) :
    acc.1 ≤ acc'.1 ∧ (∀ y ∈ ys, ChainsWithin (Step next) y acc'.1) ∧ MemoBounds next acc'.2 := by
  induction ys generalizing acc with
  | nil =>
    cases h
    exact ⟨le_rfl, by simp, hmemo⟩
  | cons y ys ih =>
    rw [List.foldlM_cons] at h
    obtain ⟨acc₁, hstep, hrest⟩ := Option.bind_eq_some_iff.mp h
    obtain ⟨⟨k, memo₁⟩, hy, hacc⟩ := Option.bind_eq_some_iff.mp hstep
    cases hacc
    obtain ⟨hk, hmemo₁⟩ := hvisit y (by simp) acc.2 k memo₁ hy hmemo
    obtain ⟨hle, hys, hmemo'⟩ := ih (fun z hz => hvisit z (by simp [hz])) hrest hmemo₁
    refine ⟨(le_max_left _ _).trans hle, fun z hz => ?_, hmemo'⟩
    rcases List.mem_cons.mp hz with rfl | hz
    · exact hk.mono ((le_max_right _ _).trans hle)
    · exact hys z hz

/-- **`longest_chain`** on an acyclic graph: every chain from its start is within what it returns. The
stack holds what leads to the start, so the start is never on it. -/
theorem chainsWithin_longestChain (hacyclic : Acyclic (Step next)) {fuel : Nat} :
    ∀ {onStack : List α} {memo memo' : List (α × Nat)} {x : α} {h : Nat},
      longestChain next fuel onStack memo x = some (h, memo') →
      (∀ y ∈ onStack, TransGen (Step next) y x) → MemoBounds next memo →
      ChainsWithin (Step next) x h ∧ MemoBounds next memo' := by
  induction fuel with
  | zero =>
    intro onStack memo memo' x h hrun hstack hmemo
    unfold longestChain at hrun
    split at hrun
    · next k hk =>
      cases hrun
      exact ⟨hmemo x _ hk, hmemo⟩
    · split_ifs at hrun with hcycle
      exact absurd (hstack x (by simpa using hcycle)) (hacyclic x)
  | succ fuel ih =>
    intro onStack memo memo' x h hrun hstack hmemo
    unfold longestChain at hrun
    split at hrun
    · next k hk =>
      cases hrun
      exact ⟨hmemo x _ hk, hmemo⟩
    · split_ifs at hrun with hcycle
      · exact absurd (hstack x (by simpa using hcycle)) (hacyclic x)
      · obtain ⟨⟨tallest, memo₁⟩, hfold, hreturn⟩ := Option.bind_eq_some_iff.mp hrun
        cases hreturn
        have hvisit : ∀ y ∈ next x, ∀ memo h memo',
            longestChain next fuel (x :: onStack) memo y = some (h, memo') →
            MemoBounds next memo → ChainsWithin (Step next) y h ∧ MemoBounds next memo' := by
          intro y hy memo h memo' hrun hmemo
          refine ih hrun (fun z hz => ?_) hmemo
          rcases List.mem_cons.mp hz with rfl | hz
          · exact .single hy
          · exact (hstack z hz).tail hy
        obtain ⟨_, hys, hmemo₁⟩ := chainsWithin_foldlM hvisit hfold hmemo
        have hx : ChainsWithin (Step next) x (1 + tallest) := chainsWithin_succ hys
        exact ⟨hx, memoBounds_cons hmemo₁ hx⟩

/-- The height of an item, as the depth checks ask for it. -/
theorem chainsWithin_height (hacyclic : Acyclic (Step next)) {fuel : Nat} {x : α} {h : Nat}
    (hrun : (longestChain next fuel [] [] x).map Prod.fst = some h) :
    ChainsWithin (Step next) x h := by
  obtain ⟨⟨k, memo⟩, hchain, rfl⟩ := Option.map_eq_some_iff.mp hrun
  exact (chainsWithin_longestChain hacyclic hchain (by simp) fun _ _ h => by cases h).1

end NexusFlow.Facade
