import NexusFlow.Lib.Tarjan

/-!
# Closing nodes, and the whole walk

A node closes when all its successors have been walked. If its low number is not its own number it
stays on the stack for the node below (`Inv.keep`); otherwise it is the first of its component,
which is the part of the stack from it on (`Inv.pop`). Every node up there leads back to it
(`Inv.reach_root`), because a node that is closed and still on the stack leads to one reached before
it, and no edge leaves towards the rest of the stack (`Inv.from_edge`).

**Main result**: `cyclicNodes_eq`, the walk returns and its nodes are those on a cycle.
-/

namespace NexusFlow.Lib.Tarjan

open Relation

variable {n : Nat}

/-! ## Closing a node -/

section Close

variable {succ : Fin n → List (Fin n)} {s : State n} {v : Fin n} {k : Nat}
  {rest : List (Fin n × Nat)}

theorem low_handDown_le (s : State n) (v g : Fin n) : (s.handDown v).low g ≤ s.low g := by
  unfold State.handDown
  split
  · exact le_rfl
  · next parent _ _ _ =>
    by_cases h : g = parent
    · subst h
      simp
    · simp [h]

theorem low_handDown_head {p : Fin n} {j : Nat} {fs : List (Fin n × Nat)}
    (h : s.frames = (p, j) :: fs) : (s.handDown v).low p = min (s.low p) (s.low v) := by
  unfold State.handDown
  simp [h]

theorem exists_frame_of_mem_head? {f : Fin n} (h : f ∈ s.opened.head?) :
    ∃ j fs, s.frames = (f, j) :: fs := by
  unfold State.opened at h
  cases hfr : s.frames with
  | nil => simp [hfr] at h
  | cons p fs =>
    rw [hfr] at h
    have hp : p.1 = f := by simpa using h
    exact ⟨p.2, fs, by rw [← hp]⟩

theorem low_handDown_other {g : Fin n} (h : g ∉ s.opened.head?) :
    (s.handDown v).low g = s.low g := by
  unfold State.handDown
  split
  · rfl
  · next parent _ _ hf =>
    have hne : g ≠ parent := by
      rintro rfl
      refine h ?_
      simp [State.opened, hf]
    simp [hne]

theorem handDown_eq (s : State n) (v : Fin n) :
    s.handDown v = { s with low := (s.handDown v).low } := by
  unfold State.handDown
  split <;> rfl

/-- What is known of a node that closes: it is the last open one and has walked all its
successors. -/
structure Closes (succ : Fin n → List (Fin n)) (s : State n) (v : Fin n)
    (rest : List (Fin n × Nat)) : Prop where
  opened : s.opened = v :: rest.map Prod.fst
  walked : ∀ u x, x ∈ walkedIn succ rest u → x ∈ walkedIn succ s.frames u
  all : ∀ x ∈ succ v, x ∈ walkedIn succ s.frames v
  below : ∀ f ∈ rest.map Prod.fst, s.idx f < s.idx v
  stack : v ∈ s.stack

theorem Inv.closes (hs : Inv succ s) (hf : s.frames = (v, k) :: rest)
    (hw : (succ v)[k]? = none) : Closes succ s v rest := by
  have hopened : s.opened = v :: rest.map Prod.fst := by
    unfold State.opened
    rw [hf]
    rfl
  have hsorted := hs.sorted.sublist hs.opened
  rw [hopened, List.pairwise_cons] at hsorted
  have hall : walkedIn succ s.frames v = succ v := by
    rw [hf, walkedIn_cons_self, List.take_of_length_le (List.getElem?_eq_none_iff.mp hw)]
  have hv : v ∉ rest.map Prod.fst := fun h => lt_irrefl _ (hsorted.1 v h)
  refine ⟨hopened, fun u x hx => ?_, fun x hx => hall ▸ hx, hsorted.1, ?_⟩
  · by_cases hu : u = v
    · subst hu
      rw [walkedIn_of_notMem hv] at hx
      rw [hall]
      exact hx
    · rw [hf, walkedIn_cons_of_ne hu]
      exact hx
  · exact hs.mem_stack (by rw [hopened]; exact List.mem_cons_self)

/-- The owner of a node reached after the last open one is that one. -/
theorem Closes.owns (h : Closes succ s v rest) {u : Fin n} (hu : s.idx v ≤ s.idx u) :
    s.Owns v u := by
  refine ⟨by rw [h.opened]; exact List.mem_cons_self, hu, fun f hf _ => ?_⟩
  rw [h.opened] at hf
  rcases List.mem_cons.mp hf with rfl | hf
  · exact le_rfl
  · exact (h.below f hf).le

/-- The owner of a node reached before the last open one is not that one. -/
theorem Closes.owns_of_lt (h : Closes succ s v rest) {g u : Fin n} (hu : s.idx u < s.idx v)
    (hg : g ∈ rest.map Prod.fst) (hle : s.idx g ≤ s.idx u)
    (hmax : ∀ f ∈ rest.map Prod.fst, s.idx f ≤ s.idx u → s.idx f ≤ s.idx g) : s.Owns g u := by
  refine ⟨by rw [h.opened]; exact List.mem_cons_of_mem v hg, hle, fun f hf hfu => ?_⟩
  rw [h.opened] at hf
  rcases List.mem_cons.mp hf with rfl | hf
  · omega
  · exact hmax f hf hfu

/-- **A node that is not the first of its component stays on the stack.** -/
theorem Inv.keep (hs : Inv succ s) (h : Closes succ s v rest) (hlow : s.low v ≠ s.idx v) :
    Inv succ (({ s with frames := rest } : State n).handDown v) := by
  have hvo : v ∈ s.opened := by
    rw [h.opened]
    exact List.mem_cons_self
  have hsub : ∀ f ∈ rest.map Prod.fst, f ∈ s.opened := by
    intro f hf
    rw [h.opened]
    exact List.mem_cons_of_mem v hf
  have hlt : s.low v < s.idx v := lt_of_le_of_ne (hs.low_le v hvo) hlow
  obtain ⟨x, hx, hrx, hex⟩ := hs.low_reached v hvo
  -- the node `v` falls back to has an owner below `v`
  obtain ⟨f₀, hf₀, hle₀⟩ := hs.owned x hx
  have hf₀r : f₀ ∈ rest.map Prod.fst := by
    rw [h.opened] at hf₀
    refine (List.mem_cons.mp hf₀).resolve_left ?_
    rintro rfl
    omega
  generalize ht : ({ s with frames := rest } : State n) = t
  have htlow : t.low = s.low := by rw [← ht]
  have htopened : t.opened = rest.map Prod.fst := by rw [← ht]; rfl
  have hlowle (g : Fin n) : (t.handDown v).low g ≤ s.low g := htlow ▸ low_handDown_le t v g
  have heq : t.handDown v = { s with frames := rest, low := (t.handDown v).low } := by
    rw [handDown_eq, ← ht]
  rw [heq]
  generalize hl : (t.handDown v).low = low at hlowle
  exact {
    index_lt := hs.index_lt
    reached := hs.reached
    sorted := hs.sorted
    on := hs.on
    opened := by
      have := hs.opened
      rw [h.opened] at this
      exact (List.sublist_cons_self v _).trans this
    walked := fun u hu y hy => hs.walked u hu y (h.walked u y hy)
    done := hs.done
    owned := by
      intro u hu
      obtain ⟨f, hf, hle⟩ := hs.owned u hu
      rw [h.opened] at hf
      rcases List.mem_cons.mp hf with rfl | hf
      · exact ⟨f₀, hf₀r, show s.idx f₀ ≤ s.idx u by omega⟩
      · exact ⟨f, hf, hle⟩
    reach := fun f hf => hs.reach f (hsub f hf)
    low_le := fun f hf => (hlowle f).trans (hs.low_le f (hsub f hf))
    low_reached := by
      intro f hf
      obtain ⟨y, hy, hr, he⟩ := hs.low_reached f (hsub f hf)
      by_cases hhead : f ∈ t.opened.head?
      · obtain ⟨j, fs, hfs⟩ := exists_frame_of_mem_head? hhead
        have hmin : low f = min (s.low f) (s.low v) := by
          rw [← hl, low_handDown_head hfs, htlow]
        rcases le_total (s.low f) (s.low v) with hle | hle
        · exact ⟨y, hy, hr, he.trans (by rw [← min_eq_left hle, ← hmin])⟩
        · refine ⟨x, hx, ?_, hex.trans (by rw [← min_eq_right hle, ← hmin])⟩
          exact (hs.reach f (hsub f hf) v h.stack (h.below f hf).le).trans hrx
      · have hsame : low f = s.low f := by rw [← hl, low_handDown_other hhead, htlow]
        exact ⟨y, hy, hr, he.trans hsame.symm⟩
    low_covers := by
      rintro g u hu ⟨hg, hle, hmax⟩ y hy hys
      have hy' := h.walked u y hy
      rcases le_or_gt (s.idx v) (s.idx u) with hvu | hvu
      · -- `u` was the closing node's; its new owner is the node below, which was handed the number
        have hcov := hs.low_covers v u hu (h.owns hvu) y hy' hys
        obtain ⟨p, j, fs, hfs⟩ : ∃ p j fs, rest = (p, j) :: fs := by
          cases hr : rest with
          | nil => rw [hr] at hf₀r; cases hf₀r
          | cons q fs => exact ⟨q.1, q.2, fs, rfl⟩
        have hgp : g = p := by
          have hp : p ∈ rest.map Prod.fst := by
            rw [hfs]
            exact List.mem_cons_self
          have hple : s.idx p ≤ s.idx g := hmax p hp ((h.below p hp).le.trans hvu)
          have hgle : s.idx g ≤ s.idx p := by
            have hsorted := hs.sorted.sublist hs.opened
            rw [h.opened, hfs, List.map_cons, List.pairwise_cons, List.pairwise_cons] at hsorted
            have hg' : g ∈ p :: fs.map Prod.fst := by
              have : g ∈ rest.map Prod.fst := hg
              rwa [hfs] at this
            rcases List.mem_cons.mp hg' with rfl | hg'
            · exact le_rfl
            · exact (hsorted.2.1 g hg').le
          exact hs.idx_injective (hs.mem_stack (hsub g hg)) (hs.mem_stack (hsub p hp))
            (le_antisymm hgle hple)
        have htf : t.frames = (p, j) :: fs := by rw [← ht]; exact hfs
        have hmin : low p = min (s.low p) (s.low v) := by
          rw [← hl, low_handDown_head htf, htlow]
        change low g ≤ s.idx y
        rw [hgp, hmin]
        exact (min_le_right _ _).trans hcov
      · exact (hlowle g).trans
          (hs.low_covers g u hu (h.owns_of_lt hvu hg hle hmax) y hy' hys)
    back := by
      intro u hu hnot
      by_cases huv : u = v
      · subst huv
        exact ⟨x, hx, show s.idx x < s.idx u by omega, hrx⟩
      · refine hs.back u hu fun hin => ?_
        rw [h.opened] at hin
        exact hnot ((List.mem_cons.mp hin).resolve_left huv)
    cyclic := hs.cyclic }

end Close

/-! ## Settling a component -/

theorem popComponent_of_mem {v : Fin n} :
    ∀ {stack : List (Fin n)}, v ∈ stack → ∃ pre below, stack = pre ++ v :: below ∧
      popComponent v stack = some (pre ++ [v], below)
  | [], h => by cases h
  | w :: stack, h => by
    by_cases hw : w = v
    · subst hw
      exact ⟨[], stack, rfl, by simp [popComponent]⟩
    · obtain ⟨pre, below, hst, hpop⟩ :=
        popComponent_of_mem ((List.mem_cons.mp h).resolve_left (Ne.symm hw))
      exact ⟨w :: pre, below, by rw [hst]; rfl, by simp [popComponent, hw, hpop]⟩

section Settle

variable {succ : Fin n → List (Fin n)} {s : State n} {v : Fin n} {rest : List (Fin n × Nat)}

/-- The nodes on the stack from `v` on. -/
def State.From (s : State n) (v u : Fin n) : Prop := u ∈ s.stack ∧ s.idx v ≤ s.idx u

/-- An edge out of the nodes above `v` stays there or leads to a settled node. -/
theorem Inv.from_edge (hs : Inv succ s) (h : Closes succ s v rest) (hroot : s.low v = s.idx v)
    {u w : Fin n} (hu : s.From v u) (hedge : Edge succ u w) : s.From v w ∨ s.Done w := by
  have hw : w ∈ walkedIn succ s.frames u := by
    by_cases huv : u = v
    · subst huv
      exact h.all w hedge
    · rw [walkedIn_of_notMem]
      · exact hedge
      · change u ∉ s.opened
        rw [h.opened, List.mem_cons, not_or]
        refine ⟨huv, fun hin => ?_⟩
        have := h.below u hin
        have := hu.2
        omega
  have hvis := hs.walked u (hs.reached u hu.1) w hw
  by_cases hws : w ∈ s.stack
  · refine .inl ⟨hws, ?_⟩
    rw [← hroot]
    exact hs.low_covers v u hu.1 (h.owns hu.2) w hw hws
  · exact .inr ⟨hvis, hws⟩

theorem Inv.from_reach (hs : Inv succ s) (h : Closes succ s v rest) (hroot : s.low v = s.idx v)
    {u x : Fin n} (hu : s.From v u) (hr : Reach succ u x) : s.From v x ∨ s.Done x := by
  induction hr with
  | refl => exact .inl hu
  | tail _ hedge ih =>
    rcases ih with ih | ih
    · exact hs.from_edge h hroot ih hedge
    · exact .inr (hs.done_reach ih (.single hedge))

/-- Every node above `v` leads back to `v`. -/
theorem Inv.reach_root (hs : Inv succ s) (h : Closes succ s v rest) (hroot : s.low v = s.idx v)
    {u : Fin n} (hu : s.From v u) : Reach succ u v := by
  -- by induction on the node's number: each falls back to one reached before it
  induction hk : s.idx u using Nat.strong_induction_on generalizing u with
  | _ k ih =>
    subst hk
    by_cases huv : u = v
    · rw [huv]
    · have hnot : u ∉ s.opened := by
        rw [h.opened, List.mem_cons, not_or]
        refine ⟨huv, fun hin => ?_⟩
        have := h.below u hin
        have := hu.2
        omega
      obtain ⟨x, hx, hlt, hr⟩ := hs.back u hu.1 hnot
      have hfx : s.From v x := (hs.from_reach h hroot hu hr).resolve_right fun hd => hd.2 hx
      exact hr.trans (ih (s.idx x) hlt hfx rfl)

/-- Two different nodes above `v` lie on a cycle. -/
theorem Inv.onCycle_of_ne (hs : Inv succ s) (h : Closes succ s v rest)
    (hroot : s.low v = s.idx v) {a b : Fin n} (ha : s.From v a) (hb : s.From v b) (hne : a ≠ b) :
    OnCycle succ a := by
  have hvo : v ∈ s.opened := by
    rw [h.opened]
    exact List.mem_cons_self
  have hab : Reach succ a b := (hs.reach_root h hroot ha).trans (hs.reach v hvo b hb.1 hb.2)
  have hba : Reach succ b a := (hs.reach_root h hroot hb).trans (hs.reach v hvo a ha.1 ha.2)
  rcases reflTransGen_iff_eq_or_transGen.mp hab with heq | htrans
  · exact absurd heq.symm hne
  · exact htrans.trans_left hba

/-- **A component is cyclic when it has two nodes or its one node an edge to itself.** -/
theorem Inv.onCycle_iff (hs : Inv succ s) (h : Closes succ s v rest) (hroot : s.low v = s.idx v)
    {component : List (Fin n)} (hnd : component.Nodup)
    (hmem : ∀ u, u ∈ component ↔ s.From v u) {a : Fin n} (ha : s.From v a) :
    OnCycle succ a ↔ 1 < component.length ∨ v ∈ succ v := by
  have hv : s.From v v := ⟨h.stack, le_rfl⟩
  constructor
  · intro hcyc
    by_contra hcon
    rw [not_or, not_lt] at hcon
    have hone : ∀ u, s.From v u → u = v := by
      intro u hu
      obtain ⟨c, hc⟩ : ∃ c, component = [c] := by
        refine List.length_eq_one_iff.mp (le_antisymm hcon.1 ?_)
        exact List.length_pos_of_mem ((hmem u).mpr hu)
      have h1 := (hmem u).mpr hu
      have h2 := (hmem v).mpr hv
      rw [hc, List.mem_singleton] at h1 h2
      rw [h1, h2]
    rw [hone a ha] at hcyc
    obtain ⟨w, hedge, hr⟩ := TransGen.head'_iff.mp hcyc
    rcases hs.from_edge h hroot hv hedge with hw | hw
    · rw [hone w hw] at hedge
      exact hcon.2 hedge
    · exact (hs.done_reach hw hr).2 h.stack
  · rintro (hlen | hself)
    · obtain ⟨b, hb, hne⟩ : ∃ b ∈ component, b ≠ a := by
        by_contra hall
        push Not at hall
        have hsub : component ⊆ [a] := fun b hb => by simp [hall b hb]
        have := (hnd.subperm hsub).length_le
        simp at this
        omega
      exact hs.onCycle_of_ne h hroot ha ((hmem b).mp hb) (Ne.symm hne)
    · by_cases hav : a = v
      · rw [hav]
        exact .single hself
      · exact hs.onCycle_of_ne h hroot ha hv hav

end Settle

section Close

variable {succ : Fin n → List (Fin n)} {s : State n} {v : Fin n} {rest : List (Fin n × Nat)}

/-- **Settling a component keeps the invariant.** -/
theorem Inv.pop (hs : Inv succ s) (h : Closes succ s v rest) (hroot : s.low v = s.idx v)
    {pre below : List (Fin n)} (hstack : s.stack = pre ++ v :: below) {low : Fin n → Nat}
    (hlow : ∀ f ∈ rest.map Prod.fst, low f = s.low f) {cyclic : Finset (Fin n)}
    (hcyclic : cyclic = if 1 < (pre ++ [v]).length ∨ v ∈ succ v then
      s.cyclic ∪ (pre ++ [v]).toFinset else s.cyclic) :
    Inv succ ⟨s.index, low, fun w => s.onStack w && !(pre ++ [v]).contains w, below, s.next, rest,
      cyclic⟩ := by
  have hsorted := hs.sorted
  rw [hstack, List.pairwise_append, List.pairwise_cons] at hsorted
  obtain ⟨_, ⟨hvbelow, hsortedBelow⟩, hprebelow⟩ := hsorted
  have hcomp : ∀ u, u ∈ pre ++ [v] ↔ s.From v u := by
    intro u
    unfold State.From
    rw [hstack]
    simp only [List.mem_append, List.mem_cons, List.not_mem_nil, or_false]
    constructor
    · rintro (hu | rfl)
      · exact ⟨.inl hu, (hprebelow u hu v List.mem_cons_self).le⟩
      · exact ⟨.inr (.inl rfl), le_rfl⟩
    · rintro ⟨hu | rfl | hu, hle⟩
      · exact .inl hu
      · exact .inr rfl
      · exact absurd (hvbelow u hu) (by omega)
  have hbelow : ∀ u, u ∈ below ↔ u ∈ s.stack ∧ s.idx u < s.idx v := by
    intro u
    constructor
    · intro hu
      refine ⟨?_, hvbelow u hu⟩
      rw [hstack]
      exact List.mem_append_right _ (List.mem_cons_of_mem v hu)
    · rintro ⟨hu, hlt⟩
      by_contra hnot
      have : s.From v u := by
        rw [← hcomp]
        rw [hstack] at hu
        simp only [List.mem_append, List.mem_cons] at hu
        simp only [List.mem_append, List.mem_singleton]
        tauto
      exact absurd this.2 (by omega)
  have hsplit : ∀ u ∈ s.stack, u ∈ below ∨ s.From v u := by
    intro u hu
    rcases lt_or_ge (s.idx u) (s.idx v) with hlt | hge
    · exact .inl ((hbelow u).mpr ⟨hu, hlt⟩)
    · exact .inr ⟨hu, hge⟩
  have hnotboth : ∀ u ∈ below, ¬ s.From v u := fun u hu hf =>
    absurd hf.2 (not_le.mpr ((hbelow u).mp hu).2)
  have hnd : (pre ++ [v]).Nodup := by
    have hnd : s.stack.Nodup := hs.sorted.imp fun hab heq => by
      rw [heq] at hab
      exact lt_irrefl _ hab
    rw [hstack, show pre ++ v :: below = (pre ++ [v]) ++ below by simp] at hnd
    exact hnd.of_append_left
  have hsub : ∀ f ∈ rest.map Prod.fst, f ∈ s.opened := by
    intro f hf
    rw [h.opened]
    exact List.mem_cons_of_mem v hf
  have hinstack : ∀ u ∈ below, u ∈ s.stack := fun u hu => ((hbelow u).mp hu).1
  have hnotopened : ∀ u ∈ below, u ∉ rest.map Prod.fst → u ∉ s.opened := by
    intro u hu hnot
    rw [h.opened, List.mem_cons, not_or]
    refine ⟨?_, hnot⟩
    rintro rfl
    exact absurd ((hbelow u).mp hu).2 (lt_irrefl _)
  exact {
    index_lt := hs.index_lt
    reached := fun u hu => hs.reached u (hinstack u hu)
    sorted := hsortedBelow
    on := by
      intro u
      change (s.onStack u && !(pre ++ [v]).contains u) = true ↔ u ∈ below
      rw [Bool.and_eq_true, hs.on u, Bool.not_eq_true', ← Bool.not_eq_true, List.contains_iff_mem,
        hcomp]
      exact ⟨fun ⟨hu, hnot⟩ => (hsplit u hu).resolve_right hnot,
        fun hu => ⟨hinstack u hu, hnotboth u hu⟩⟩
    opened := by
      -- the open nodes left are the ones below `v`
      have hfilter := hs.opened.filter fun u => decide (s.idx u < s.idx v)
      have h1 : s.opened.filter (fun u => decide (s.idx u < s.idx v)) = rest.map Prod.fst := by
        rw [h.opened, List.filter_cons_of_neg (by simp)]
        exact List.filter_eq_self.mpr fun u hu => by simpa using h.below u hu
      have h2 : s.stack.filter (fun u => decide (s.idx u < s.idx v)) = below := by
        rw [hstack, List.filter_append, List.filter_cons_of_neg (by simp),
          List.filter_eq_nil_iff.mpr, List.nil_append]
        · exact List.filter_eq_self.mpr fun u hu => by simpa using hvbelow u hu
        · intro u hu
          have := hprebelow u hu v List.mem_cons_self
          simpa using this.le
      rwa [h1, h2] at hfilter
    walked := fun u hu y hy => hs.walked u hu y (h.walked u y hy)
    done := by
      rintro u ⟨hvis, hnot⟩ w hw hwb
      by_cases hus : u ∈ s.stack
      · have hfrom := (hsplit u hus).resolve_left hnot
        rcases hs.from_edge h hroot hfrom hw with hwf | hwd
        · exact hnotboth w hwb hwf
        · exact hwd.2 (hinstack w hwb)
      · exact hs.done u ⟨hvis, hus⟩ w hw (hinstack w hwb)
    owned := by
      intro u hu
      obtain ⟨hus, hlt⟩ := (hbelow u).mp hu
      obtain ⟨f, hf, hle⟩ := hs.owned u hus
      rw [h.opened] at hf
      rcases List.mem_cons.mp hf with rfl | hf
      · omega
      · exact ⟨f, hf, hle⟩
    reach := fun f hf u hu => hs.reach f (hsub f hf) u (hinstack u hu)
    low_le := by
      intro f hf
      change low f ≤ s.idx f
      rw [hlow f hf]
      exact hs.low_le f (hsub f hf)
    low_reached := by
      intro f hf
      obtain ⟨x, hx, hr, he⟩ := hs.low_reached f (hsub f hf)
      refine ⟨x, (hbelow x).mpr ⟨hx, ?_⟩, hr, ?_⟩
      · have h1 := hs.low_le f (hsub f hf)
        have h2 := h.below f hf
        omega
      · change s.idx x = low f
        rw [hlow f hf]
        exact he
    low_covers := by
      rintro g u hu ⟨hg, hle, hmax⟩ y hy hyb
      obtain ⟨hus, hlt⟩ := (hbelow u).mp hu
      change low g ≤ s.idx y
      rw [hlow g hg]
      exact hs.low_covers g u hus (h.owns_of_lt hlt hg hle hmax) y (h.walked u y hy)
        (hinstack y hyb)
    back := by
      intro u hu hnot
      obtain ⟨hus, hlt⟩ := (hbelow u).mp hu
      obtain ⟨x, hx, hxu, hr⟩ := hs.back u hus (hnotopened u hu hnot)
      exact ⟨x, (hbelow x).mpr ⟨hx, hxu.trans hlt⟩, hxu, hr⟩
    cyclic := by
      intro u
      change u ∈ cyclic ↔ ((s.index u).isSome = true ∧ u ∉ below) ∧ OnCycle succ u
      by_cases hfrom : s.From v u
      · have hold : u ∉ s.cyclic := fun hin => ((hs.cyclic u).mp hin).1.2 hfrom.1
        have hnotb : u ∉ below := fun hb => hnotboth u hb hfrom
        have hvis := hs.reached u hfrom.1
        rw [hs.onCycle_iff h hroot hnd hcomp hfrom, hcyclic]
        split_ifs with hc
        · simp only [Finset.mem_union, hold, false_or, List.mem_toFinset, (hcomp u).mpr hfrom, hvis,
            hnotb, hc, not_false_iff, and_self]
        · simp only [hold, hc, and_false]
      · have hsame : u ∈ cyclic ↔ u ∈ s.cyclic := by
          rw [hcyclic]
          split_ifs
          · simp only [Finset.mem_union, List.mem_toFinset, hcomp, hfrom, or_false]
          · rfl
        rw [hsame, hs.cyclic u]
        have hiff : u ∉ s.stack ↔ u ∉ below :=
          not_congr ⟨fun hu => (hsplit u hu).resolve_right hfrom, hinstack u⟩
        unfold State.Done
        rw [hiff] }

/-- **Closing a node keeps the invariant**, and finds it on the stack. -/
theorem Inv.close (hs : Inv succ s) (h : Closes succ s v rest) :
    ∃ s', (({ s with frames := rest } : State n).handDown v).settle succ v = some s' ∧
      Inv succ s' ∧ s'.frames = rest ∧ s'.index = s.index := by
  generalize ht : ({ s with frames := rest } : State n) = t
  have heq : t.handDown v = { s with frames := rest, low := (t.handDown v).low } := by
    rw [handDown_eq, ← ht]
  have htlow : t.low = s.low := by rw [← ht]
  have htopened : t.opened = rest.map Prod.fst := by rw [← ht]; rfl
  have hidx := index_eq_of_isSome (hs.reached v h.stack)
  have hlowv : (t.handDown v).low v = s.low v := by
    rw [low_handDown_other, htlow]
    rw [htopened]
    intro hv
    exact absurd (h.below v (List.mem_of_mem_head? hv)) (lt_irrefl _)
  unfold State.settle
  split_ifs with hroot
  · have hroot' : s.low v = s.idx v := by
      rw [heq] at hroot
      change s.index v = some ((t.handDown v).low v) at hroot
      rw [hlowv, hidx] at hroot
      exact (Option.some.inj hroot).symm
    obtain ⟨pre, below, hstack, hpop⟩ := popComponent_of_mem h.stack
    have hst : (t.handDown v).stack = s.stack := by rw [heq]
    rw [hst, hpop, Option.map_some]
    refine ⟨_, rfl, ?_, by rw [heq], by rw [heq]⟩
    have hlow : ∀ f ∈ rest.map Prod.fst, (t.handDown v).low f = s.low f := by
      intro f hf
      have hle : s.low f ≤ s.low v := by
        have hfo : f ∈ s.opened := by
          rw [h.opened]
          exact List.mem_cons_of_mem v hf
        have h1 := hs.low_le f hfo
        have h2 := h.below f hf
        omega
      by_cases hhead : f ∈ t.opened.head?
      · obtain ⟨j, fs, hfs⟩ := exists_frame_of_mem_head? hhead
        rw [low_handDown_head hfs, htlow, min_eq_left hle]
      · rw [low_handDown_other hhead, htlow]
    rw [heq]
    exact hs.pop h hroot' hstack hlow rfl
  · refine ⟨_, rfl, ?_, by rw [heq], by rw [heq]⟩
    rw [← ht]
    refine hs.keep h fun hlow => hroot ?_
    rw [heq]
    change s.index v = some ((t.handDown v).low v)
    rw [hlowv, hlow, hidx]

end Close

/-! ## The whole walk -/

section Run

variable {succ : Fin n → List (Fin n)} {s s' : State n}

/-- Whatever was reached stays reached. -/
def Keeps (s s' : State n) : Prop :=
  ∀ v, (s.index v).isSome = true → (s'.index v).isSome = true

theorem Keeps.trans {a b c : State n} (h : Keeps a b) (h' : Keeps b c) : Keeps a c :=
  fun v hv => h' v (h v hv)

theorem keeps_enter (s : State n) (w : Fin n) : Keeps s (s.enter w) :=
  fun _ hv => isSome_enter.mpr (.inr hv)

/-- Reaching a node moves its turns from the nodes not reached to the frames. -/
theorem work_enter {w : Fin n} (hw : s.index w = none) :
    (s.enter w).work succ = s.work succ := by
  have hsum : (∑ v, if s.index v = none then (succ v).length + 1 else 0) =
      (∑ v, if (s.enter w).index v = none then (succ v).length + 1 else 0) +
        ((succ w).length + 1) := by
    rw [← Finset.add_sum_erase _ _ (Finset.mem_univ w),
      ← Finset.add_sum_erase Finset.univ
        (fun v => if (s.enter w).index v = none then (succ v).length + 1 else 0)
        (Finset.mem_univ w)]
    have hrest : ∑ v ∈ Finset.univ.erase w,
        (if (s.enter w).index v = none then (succ v).length + 1 else 0) =
        ∑ v ∈ Finset.univ.erase w, if s.index v = none then (succ v).length + 1 else 0 := by
      refine Finset.sum_congr rfl fun v hv => ?_
      rw [Finset.mem_erase] at hv
      simp [State.enter, hv.1]
    rw [hrest]
    simp [State.enter, hw]
    omega
  unfold State.work
  rw [hsum]
  simp only [State.enter, List.map_cons, List.sum_cons, Nat.sub_zero]
  omega

/-- **One turn**: it does not fail, keeps the invariant, and leaves fewer turns. -/
theorem Inv.step (hs : Inv succ s) (hne : s.frames ≠ []) :
    ∃ s', s.step succ = some s' ∧ Inv succ s' ∧ s'.work succ < s.work succ ∧ Keeps s s' := by
  obtain ⟨⟨v, k⟩, rest, hf⟩ := List.exists_cons_of_ne_nil hne
  have hwork : s.work succ = (∑ v, if s.index v = none then (succ v).length + 1 else 0) +
      (((succ v).length - k + 1) +
        (rest.map fun f => (succ f.1).length - f.2 + 1).sum) := by
    unfold State.work
    rw [hf, List.map_cons, List.sum_cons]
  unfold State.step
  rw [hf]
  dsimp only
  cases hw : (succ v)[k]? with
  | some w =>
    refine ⟨_, rfl, hs.look hf hw, ?_, ?_⟩
    · have hk : k < (succ v).length := (List.getElem?_eq_some_iff.mp hw).1
      have hahead :
          ({ s with frames := (v, k + 1) :: rest } : State n).work succ < s.work succ := by
        rw [hwork]
        unfold State.work
        rw [List.map_cons, List.sum_cons]
        dsimp only
        omega
      unfold State.look
      dsimp only
      cases hi : s.index w with
      | none =>
        have hi' : ({ s with frames := (v, k + 1) :: rest } : State n).index w = none := hi
        dsimp only
        rw [work_enter hi']
        exact hahead
      | some i =>
        dsimp only
        split_ifs
        · exact hahead
        · exact hahead
    · unfold State.look
      dsimp only
      cases s.index w with
      | none => exact keeps_enter _ w
      | some i =>
        dsimp only
        split_ifs <;> exact fun _ hv => hv
  | none =>
    obtain ⟨s', hs', hinv, hframes, hindex⟩ := hs.close (hs.closes hf hw)
    refine ⟨s', hs', hinv, ?_, fun u hu => by rw [hindex]; exact hu⟩
    rw [hwork]
    unfold State.work
    rw [hframes, hindex]
    omega

/-- **The loop ends** with no node open. -/
theorem Inv.loop {fuel : Nat} (hs : Inv succ s) (hfuel : s.work succ ≤ fuel) :
    ∃ s', State.loop succ fuel s = some s' ∧ Inv succ s' ∧ s'.frames = [] ∧ Keeps s s' := by
  induction fuel generalizing s with
  | zero =>
    refine ⟨s, rfl, hs, ?_, fun _ h => h⟩
    cases hf : s.frames with
    | nil => rfl
    | cons f fs =>
      unfold State.work at hfuel
      rw [hf, List.map_cons, List.sum_cons] at hfuel
      omega
  | succ fuel ih =>
    unfold State.loop
    cases hf : s.frames with
    | nil => exact ⟨s, rfl, hs, hf, fun _ h => h⟩
    | cons f fs =>
      obtain ⟨t, ht, hinv, hlt, hkeep⟩ := hs.step (by rw [hf]; simp)
      obtain ⟨s', hs', hinv', hframes, hkeep'⟩ := ih hinv (by omega)
      exact ⟨s', by rw [ht]; exact hs', hinv', hframes, hkeep.trans hkeep'⟩

/-- Walking from a root keeps the invariant, no node being open. -/
theorem Inv.enterRoot (hs : Inv succ s) (hf : s.frames = []) {root : Fin n}
    (hroot : s.index root = none) : Inv succ (s.enter root) := by
  have hopened : s.opened = [] := by
    unfold State.opened
    rw [hf]
    rfl
  have h := hs.enter hroot rfl (fun _ _ hx => .inr hx) fun f hmem => by
    rw [hopened] at hmem
    cases hmem
  exact h

/-- Walking from a root reaches it. -/
theorem Inv.walk (hs : Inv succ s) (hf : s.frames = []) (root : Fin n) :
    ∃ s', s.walk succ root = some s' ∧ Inv succ s' ∧ s'.frames = [] ∧ Keeps s s' ∧
      (s'.index root).isSome = true := by
  unfold State.walk
  split_ifs with hroot
  · obtain ⟨s', hs', hinv, hframes, hkeep⟩ := (hs.enterRoot hf hroot).loop le_rfl
    exact ⟨s', hs', hinv, hframes, (keeps_enter s root).trans hkeep,
      hkeep root (isSome_enter.mpr (.inl rfl))⟩
  · exact ⟨s, rfl, hs, hf, fun _ h => h, Option.isSome_iff_ne_none.mpr hroot⟩

theorem Inv.walks (hs : Inv succ s) (hf : s.frames = []) (roots : List (Fin n)) :
    ∃ s', roots.foldlM (State.walk succ) s = some s' ∧ Inv succ s' ∧ s'.frames = [] ∧ Keeps s s' ∧
      ∀ root ∈ roots, (s'.index root).isSome = true := by
  induction roots generalizing s with
  | nil => exact ⟨s, rfl, hs, hf, fun _ h => h, fun _ h => by cases h⟩
  | cons root roots ih =>
    obtain ⟨t, ht, hinv, hframes, hkeep, hroot⟩ := hs.walk hf root
    obtain ⟨s', hs', hinv', hframes', hkeep', hroots⟩ := ih hinv hframes
    refine ⟨s', ?_, hinv', hframes', hkeep.trans hkeep', fun r hr => ?_⟩
    · rw [List.foldlM_cons, ht]
      exact hs'
    · rcases List.mem_cons.mp hr with rfl | hr
      · exact hkeep' r hroot
      · exact hroots r hr

theorem inv_init (succ : Fin n → List (Fin n)) : Inv succ (State.init n) := by
  constructor <;> simp [State.init, State.opened, State.Done, State.Owns]

/-- With no node open, every component is settled. -/
theorem Inv.stack_eq_nil (hs : Inv succ s) (hf : s.frames = []) : s.stack = [] := by
  cases hst : s.stack with
  | nil => rfl
  | cons u st =>
    obtain ⟨f, hmem, _⟩ := hs.owned u (by rw [hst]; exact List.mem_cons_self)
    unfold State.opened at hmem
    rw [hf] at hmem
    cases hmem

/-- **The walk finds the nodes on a cycle.** It ends, and never pops an empty stack. -/
theorem cyclicNodes_eq (succ : Fin n → List (Fin n)) :
    ∃ nodes, cyclicNodes succ = some nodes ∧ ∀ v, v ∈ nodes ↔ OnCycle succ v := by
  obtain ⟨s, hs, hinv, hf, _, hall⟩ := (inv_init succ).walks rfl (List.finRange n)
  refine ⟨s.cyclic, by unfold cyclicNodes; rw [hs]; rfl, fun v => ?_⟩
  rw [hinv.cyclic v]
  have hdone : s.Done v := by
    refine ⟨hall v (List.mem_finRange v), ?_⟩
    rw [hinv.stack_eq_nil hf]
    exact List.not_mem_nil
  exact and_iff_right hdone

/-- The states the walk goes through: nothing reached, a root entered with no node open, a turn. -/
inductive Reached (succ : Fin n → List (Fin n)) : State n → Prop
  | init : Reached succ (State.init n)
  | enter {s : State n} {root : Fin n} (h : Reached succ s) (hf : s.frames = [])
    (hroot : s.index root = none) : Reached succ (s.enter root)
  | turn {s s' : State n} (h : Reached succ s) (hf : s.frames ≠ [])
    (hstep : s.step succ = some s') : Reached succ s'

/-- The invariant holds all along the walk. -/
theorem Reached.inv (h : Reached succ s) : Inv succ s := by
  induction h with
  | init => exact inv_init succ
  | enter _ hf hroot ih => exact ih.enterRoot hf hroot
  | turn _ hf hstep ih =>
    obtain ⟨t, ht, hinv, _⟩ := ih.step hf
    rw [ht] at hstep
    cases hstep
    exact hinv

end Run

end NexusFlow.Lib.Tarjan
