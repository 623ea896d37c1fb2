import Mathlib.Logic.Relation
import NexusFlow.Chat.WorkingTree

/-!
# A withdrawal and the claim it is about

Model of `crates/chat/src/working_tree.rs:860-884,934-971,1295-1354`. A marker in `withdrawn_holders`
says that the round of a claim area was withdrawn while the area held the working copy. It is to go
when the copy goes on. A release and a reclaim delete it in the transaction that moves the copy. An
acquire, which may take an expired lease from an area it never names, deletes everybody else's
markers in a statement after its compare-and-swap, so a caller can die in between, and the copy can
go on in between.

A *tenure* is the time one area holds the copy without interruption. The tables do not store it:
`Tenancy` counts them, and notes with a marker the tenure it was written in.

* `withdrawal_stands`: in every run in which no clean-up is late and no caller dies that somebody
  still needs, the markers name the present tenure whenever no acquire is on its way, and no step
  takes the marker of an area that goes on holding the copy.
* `withdrawal_outlives_its_claim`: a caller that dies, and a clean-up that is late, break it.
-/

namespace NexusFlow.Chat

open Relation

variable {ι : Type}

/-! ## The statements -/

/-- A row of `withdrawn_holders`, and the tenure it was written in. -/
structure Marker where
  scopeKey : String
  withdrawnAt : String
  withdrawnBy : String
  idle : Bool
  tenure : Nat
  deriving DecidableEq, Repr

/-- `forget_withdrawn_holder`. -/
def forgetWithdrawnHolder (markers : List Marker) (scopeKey : String) : List Marker :=
  markers.filter fun m => m.scopeKey ≠ scopeKey

/-- `forget_other_withdrawn_holders`. -/
def forgetOtherWithdrawnHolders (markers : List Marker) (holder : String) : List Marker :=
  markers.filter fun m => m.scopeKey = holder

/-- `note_withdrawn_holder_as`: nothing for an area that does not hold the copy; a second one keeps
the instant of the first. -/
def noteWithdrawnHolderAs (toUtc : String → Option String) (t : WorkingTree) (tenure : Nat)
    (markers : List Marker) (scopeKey withdrawnBy now : String) (idle : Bool) :
    Option (List Marker) := do
  let now ← toUtc now
  if t.lease.any fun row => row.scopeKey = scopeKey then
    if markers.any fun m => m.scopeKey = scopeKey then
      return markers.map fun m =>
        if m.scopeKey = scopeKey then { m with withdrawnBy := withdrawnBy, idle := idle } else m
    else
      return ⟨scopeKey, now, withdrawnBy, idle, tenure⟩ :: markers
  else
    return markers

/-! ## Runs -/

/-- The tables, the callers whose compare-and-swap won and whose clean-up has not run, and the number
of the present tenure. -/
structure Tenancy (ι : Type) where
  tree : WorkingTree
  markers : List Marker
  acquiring : List (ι × String)
  tenure : Nat

/-- A device nobody has worked on. -/
def Tenancy.start : Tenancy ι := ⟨WorkingTree.free, [], [], 0⟩

/-- The compare-and-swap of an acquire. -/
def Tenancy.swap (s : Tenancy ι) (caller : ι) (scope : WorkScope)
    (answer : Option (Bool × WorkingTree)) : Tenancy ι :=
  match answer with
  | some (true, tree) => { s with
      tree := tree
      acquiring := (caller, scope.key) :: s.acquiring
      tenure := if s.tree.lease.any (ownRow scope) then s.tenure else s.tenure + 1 }
  | _ => s

/-- The clean-up of an acquire, which ends it. -/
def Tenancy.cleanUp [DecidableEq ι] (s : Tenancy ι) (caller : ι) (scopeKey : String) : Tenancy ι :=
  { s with
    markers := forgetOtherWithdrawnHolders s.markers scopeKey
    acquiring := s.acquiring.erase (caller, scopeKey) }

/-- The caller dies before its clean-up. -/
def Tenancy.die [DecidableEq ι] (s : Tenancy ι) (caller : ι) (scopeKey : String) : Tenancy ι :=
  { s with acquiring := s.acquiring.erase (caller, scopeKey) }

/-- The transaction of a release or a reclaim. -/
def Tenancy.handOver (s : Tenancy ι) (outgoing : String) (deletes : Lease → Bool)
    (answer : Option (List QueuedTrigger × WorkingTree)) : Tenancy ι :=
  match answer with
  | none => s
  | some (_, tree) =>
    if s.tree.lease.any deletes then { s with
      tree := tree
      markers := forgetWithdrawnHolder s.markers outgoing
      tenure := s.tenure + 1 }
    else s

/-- A statement that fails changes nothing. -/
def Tenancy.withTree (s : Tenancy ι) (tree : Option WorkingTree) : Tenancy ι :=
  { s with tree := tree.getD s.tree }

/-- The write of a withdrawal. -/
def Tenancy.note (s : Tenancy ι) (markers : Option (List Marker)) : Tenancy ι :=
  { s with markers := markers.getD s.markers }

/-- The area holds the copy. -/
def Tenancy.Holds (s : Tenancy ι) (scopeKey : String) : Prop :=
  ∃ row, s.tree.lease = some row ∧ row.scopeKey = scopeKey

/-- The marker is about the present tenure. -/
def Tenancy.Current (s : Tenancy ι) (m : Marker) : Prop := s.Holds m.scopeKey ∧ m.tenure = s.tenure

/-- When clean-ups run and callers die. -/
structure Schedule (ι : Type) where
  cleansUp : Tenancy ι → ι → String → Prop
  dies : Tenancy ι → ι → String → Prop

/-- Whenever they like. -/
def Schedule.any : Schedule ι := ⟨fun _ _ _ => True, fun _ _ _ => True⟩

/-- A clean-up meets no marker of an area that holds the copy, its own apart; and a caller dies only
where every marker is about the present tenure, or another acquire that will delete it is still on
its way. -/
def Schedule.orderly [DecidableEq ι] : Schedule ι where
  cleansUp s _ scopeKey := ∀ m ∈ s.markers, s.Holds m.scopeKey → m.scopeKey = scopeKey
  dies s caller scopeKey := ∀ m ∈ s.markers,
    s.Current m ∨ ∃ p ∈ s.acquiring.erase (caller, scopeKey), p.2 ≠ m.scopeKey

/-- One statement outside a transaction, one transaction, or a caller's death. -/
inductive TenancyStep [DecidableEq ι] (toUtc : String → Option String) (plan : Schedule ι) :
    Tenancy ι → Tenancy ι → Prop
  | swap {s : Tenancy ι} (caller : ι) (scope : WorkScope) (now expires : String)
      (hidle : ∀ scopeKey, (caller, scopeKey) ∉ s.acquiring) :
    TenancyStep toUtc plan s
      (s.swap caller scope (acquireWorkingTree toUtc s.tree scope now expires))
  | cleanUp {s : Tenancy ι} (caller : ι) (scopeKey : String)
      (hon : (caller, scopeKey) ∈ s.acquiring) (hplan : plan.cleansUp s caller scopeKey) :
    TenancyStep toUtc plan s (s.cleanUp caller scopeKey)
  | die {s : Tenancy ι} (caller : ι) (scopeKey : String) (hon : (caller, scopeKey) ∈ s.acquiring)
      (hplan : plan.dies s caller scopeKey) : TenancyStep toUtc plan s (s.die caller scopeKey)
  | release {s : Tenancy ι} (scope : WorkScope) (now grantedExpires : String) :
    TenancyStep toUtc plan s (s.handOver scope.key (ownRow scope)
      (releaseWorkingTreeAndTakeNext toUtc s.tree scope now grantedExpires))
  | reclaim {s : Tenancy ι} (why : WhyTheLeaseIsForfeit) (holderKey holderExpires now
      grantedExpires : String) :
    TenancyStep toUtc plan s (s.handOver holderKey (forfeitRow toUtc why holderKey holderExpires now)
      (reclaimAForfeitLeaseAndTakeNext toUtc s.tree holderKey holderExpires now grantedExpires why))
  | note {s : Tenancy ι} (scopeKey withdrawnBy now : String) (idle : Bool) :
    TenancyStep toUtc plan s (s.note
      (noteWithdrawnHolderAs toUtc s.tree s.tenure s.markers scopeKey withdrawnBy now idle))
  | contention {s : Tenancy ι} (since : Option String) :
    TenancyStep toUtc plan s (s.withTree (noteWorkingTreeContention toUtc s.tree since))
  | enqueue {s : Tenancy ι} (entry : QueuedTrigger) (now : String) :
    TenancyStep toUtc plan s (s.withTree ((enqueueWorkingTree toUtc s.tree entry now).map Prod.snd))
  | remove {s : Tenancy ι} (id : ℤ) :
    TenancyStep toUtc plan s (s.withTree (some (removeWorkingTreeQueueEntry s.tree id).2))
  | take {s : Tenancy ι} :
    TenancyStep toUtc plan s (s.withTree (some (takeWorkingTreeQueue s.tree).2))

/-! ## What is expected -/

/-- While no acquire is on its way, there is one marker at most, and it names the area that has held
the copy since it was written. -/
def Tenancy.Settled (s : Tenancy ι) : Prop :=
  s.acquiring = [] → (∀ m ∈ s.markers, s.Current m) ∧ s.markers.length ≤ 1

/-- A step leaves the marker of an area that goes on holding the copy. -/
def Tenancy.Keeps (s s' : Tenancy ι) : Prop :=
  ∀ m ∈ s.markers, s.Holds m.scopeKey → s'.Holds m.scopeKey → s'.tenure = s.tenure →
    ∃ m' ∈ s'.markers, m'.scopeKey = m.scopeKey

/-- A withdrawal stands exactly as long as its claim. -/
def StandsAsLongAsItsClaim [DecidableEq ι] (toUtc : String → Option String) (plan : Schedule ι)
    (s : Tenancy ι) : Prop :=
  s.Settled ∧ ∀ s', TenancyStep toUtc plan s s' → s.Keeps s'

/-! ## What one step does -/

section Steps

variable {toUtc : String → Option String} {s : Tenancy ι}

/-- A statement off the row and the markers: `contended_since`, and the queue. -/
def Tenancy.Beside (s s' : Tenancy ι) : Prop :=
  s'.markers = s.markers ∧ s'.acquiring = s.acquiring ∧ s'.tenure = s.tenure ∧
    ∀ scopeKey, s'.Holds scopeKey ↔ s.Holds scopeKey

theorem beside_of_lease {tree : WorkingTree} (h : tree.lease = s.tree.lease) :
    s.Beside { s with tree := tree } :=
  ⟨rfl, rfl, rfl, fun scopeKey => by simp only [Tenancy.Holds, h]⟩

theorem beside_contention (since : Option String) :
    s.Beside (s.withTree (noteWorkingTreeContention toUtc s.tree since)) := by
  have hmap : ∀ f : Lease → Lease, (∀ row, (f row).scopeKey = row.scopeKey) →
      s.Beside { s with tree := { s.tree with lease := s.tree.lease.map f } } := by
    intro f hf
    refine ⟨rfl, rfl, rfl, fun scopeKey => ?_⟩
    cases hlease : s.tree.lease <;> simp [Tenancy.Holds, hlease, hf]
  unfold Tenancy.withTree noteWorkingTreeContention
  cases since with
  | none => exact hmap _ fun _ => rfl
  | some now =>
    cases htime : toUtc now with
    | none => simpa [htime] using beside_of_lease rfl
    | some now' => 
      simpa [htime] using hmap (fun row =>
        { row with contendedSince := row.contendedSince.or (some now') }) fun _ => rfl

theorem beside_enqueue (entry : QueuedTrigger) (now : String) :
    s.Beside (s.withTree ((enqueueWorkingTree toUtc s.tree entry now).map Prod.snd)) := by
  unfold Tenancy.withTree
  cases hcall : enqueueWorkingTree toUtc s.tree entry now with
  | none => exact beside_of_lease rfl
  | some answer =>
    obtain ⟨_, -, rfl⟩ := enqueueWorkingTree_spec hcall
    exact beside_of_lease rfl

theorem beside_take : s.Beside (s.withTree (some (takeWorkingTreeQueue s.tree).2)) := by
  refine beside_of_lease ?_
  unfold takeWorkingTreeQueue
  cases s.tree.queue.argmin queueOrderKey <;> rfl

/-- What a run keeps: a marker that is not about the present tenure is on the list of an acquire
that is still on its way. -/
structure Tenancy.Inv (s : Tenancy ι) : Prop where
  nodup : (s.markers.map Marker.scopeKey).Nodup
  covered : ∀ m ∈ s.markers, s.Current m ∨ ∃ p ∈ s.acquiring, p.2 ≠ m.scopeKey

theorem Tenancy.Inv.start : (Tenancy.start : Tenancy ι).Inv :=
  ⟨List.nodup_nil, fun _ h => by cases h⟩

/-- The tables name one area at most. -/
theorem Tenancy.Holds.unique {a b : String} (ha : s.Holds a) (hb : s.Holds b) : a = b := by
  obtain ⟨row, hrow, rfl⟩ := ha
  obtain ⟨row', hrow', rfl⟩ := hb
  rw [hrow] at hrow'
  cases hrow'
  rfl

theorem Tenancy.Inv.settled (h : s.Inv) : s.Settled := by
  intro hnone
  have hcurrent : ∀ m ∈ s.markers, s.Current m := by
    intro m hm
    rcases h.covered m hm with hcur | ⟨p, hp, -⟩
    · exact hcur
    · rw [hnone] at hp
      cases hp
  refine ⟨hcurrent, ?_⟩
  have hnodup := h.nodup
  cases hmarkers : s.markers with
  | nil => exact Nat.zero_le _
  | cons a rest =>
    cases rest with
    | nil => exact le_rfl
    | cons b rest =>
      rw [hmarkers] at hcurrent hnodup
      have hab := (hcurrent a (by simp)).1.unique (hcurrent b (by simp)).1
      simp [hab] at hnodup

theorem Tenancy.Inv.beside {s' : Tenancy ι} (h : s.Inv) (hs : s.Beside s') : s'.Inv := by
  obtain ⟨hm, ha, ht, hholds⟩ := hs
  refine ⟨by rw [hm]; exact h.nodup, ?_⟩
  intro m hmem
  rw [hm] at hmem
  rw [Tenancy.Current, hholds, ht, ha]
  exact h.covered m hmem

theorem keeps_of_markers {s' : Tenancy ι} (h : s'.markers = s.markers) : s.Keeps s' :=
  fun m hm _ _ _ => ⟨m, h ▸ hm, rfl⟩

/-- The compare-and-swap leaves the markers, and whoever loses the row is on the list it opens. -/
theorem Tenancy.Inv.swap (h : s.Inv) (caller : ι) {scope : WorkScope} {now expires : String}
    {answer : Option (Bool × WorkingTree)}
    (ha : ∀ a, answer = some a → Acquired s.tree scope now expires a) :
    (s.swap caller scope answer).Inv ∧ (s.swap caller scope answer).markers = s.markers := by
  cases answer with
  | none => exact ⟨h, rfl⟩
  | some answer =>
    cases ha _ rfl with
    | fresh hfree =>
      refine ⟨⟨h.nodup, fun m hm => .inr ?_⟩, rfl⟩
      -- nobody held the copy, so every marker was on somebody's list
      rcases h.covered m hm with ⟨⟨row, hrow, -⟩, -⟩ | ⟨p, hp, hne⟩
      · rw [hfree] at hrow
        cases hrow
      · exact ⟨p, List.mem_cons_of_mem _ hp, hne⟩
    | @inherited row hrow hsame =>
      have hown : ownRow scope row = true := decide_eq_true hsame
      refine ⟨⟨h.nodup, fun m hm => ?_⟩, rfl⟩
      rcases h.covered m hm with ⟨⟨row', hrow', hscope⟩, ht⟩ | ⟨p, hp, hne⟩
      · rw [hrow] at hrow'
        cases hrow'
        exact .inl ⟨⟨_, rfl, hscope⟩, by simp [Tenancy.swap, hrow, hown, ht]⟩
      · exact .inr ⟨p, List.mem_cons_of_mem _ hp, hne⟩
    | @reclaimed row hrow hother hexp =>
      refine ⟨⟨h.nodup, fun m hm => .inr ?_⟩, rfl⟩
      rcases h.covered m hm with ⟨⟨row', hrow', hscope⟩, -⟩ | ⟨p, hp, hne⟩
      · rw [hrow] at hrow'
        cases hrow'
        exact ⟨_, List.mem_cons_self, fun heq => hother (hscope.trans heq.symm)⟩
      · exact ⟨p, List.mem_cons_of_mem _ hp, hne⟩
    | refused => exact ⟨h, rfl⟩

theorem Tenancy.Inv.cleanUp [DecidableEq ι] (h : s.Inv) (caller : ι) (scopeKey : String) :
    (s.cleanUp caller scopeKey).Inv := by
  refine ⟨?_, fun m hm => ?_⟩
  · exact (List.filter_sublist.map _).nodup h.nodup
  · obtain ⟨hm, hscope⟩ := List.mem_filter.mp hm
    have hscope : m.scopeKey = scopeKey := of_decide_eq_true hscope
    rcases h.covered m hm with hcur | ⟨p, hp, hne⟩
    · exact .inl hcur
    · refine .inr ⟨p, (List.mem_erase_of_ne ?_).mpr hp, hne⟩
      rintro rfl
      exact hne hscope.symm

theorem keeps_cleanUp [DecidableEq ι] {caller : ι} {scopeKey : String}
    (hplan : Schedule.orderly.cleansUp s caller scopeKey) : s.Keeps (s.cleanUp caller scopeKey) :=
  fun m hm hholds _ _ => ⟨m, List.mem_filter.mpr ⟨hm, decide_eq_true (hplan m hm hholds)⟩, rfl⟩

theorem Tenancy.Inv.handOver (h : s.Inv) {outgoing : String} {deletes : Lease → Bool}
    (hdeletes : ∀ row, deletes row → row.scopeKey = outgoing)
    (answer : Option (List QueuedTrigger × WorkingTree)) :
    (s.handOver outgoing deletes answer).Inv ∧ s.Keeps (s.handOver outgoing deletes answer) := by
  cases answer with
  | none => exact ⟨h, keeps_of_markers rfl⟩
  | some answer =>
    unfold Tenancy.handOver
    by_cases hrow : s.tree.lease.any deletes
    · simp only [if_pos hrow]
      refine ⟨⟨(List.filter_sublist.map _).nodup h.nodup, fun m hm => .inr ?_⟩, ?_⟩
      · -- the marker of the outgoing area goes with its row
        obtain ⟨hm, hscope⟩ := List.mem_filter.mp hm
        have hscope : m.scopeKey ≠ outgoing := of_decide_eq_true hscope
        rcases h.covered m hm with ⟨⟨row, hlease, hm'⟩, -⟩ | hp
        · rw [hlease, Option.any_some] at hrow
          exact absurd (hm'.symm.trans (hdeletes row hrow)) hscope
        · exact hp
      · intro m _ _ _ ht
        exact absurd ht (Nat.succ_ne_self _)
    · simp only [if_neg hrow]
      exact ⟨h, keeps_of_markers rfl⟩

theorem Tenancy.Inv.note (h : s.Inv) (scopeKey withdrawnBy now : String) (idle : Bool) :
    (s.note (noteWithdrawnHolderAs toUtc s.tree s.tenure s.markers scopeKey withdrawnBy now
      idle)).Inv ∧
    s.Keeps (s.note (noteWithdrawnHolderAs toUtc s.tree s.tenure s.markers scopeKey withdrawnBy now
      idle)) := by
  unfold Tenancy.note noteWithdrawnHolderAs
  cases htime : toUtc now with
  | none => exact ⟨h, keeps_of_markers rfl⟩
  | some now' =>
    simp only [bind, Option.bind_some]
    split_ifs with hholds hthere
    · -- the row is there already, and keeps its scope
      have hscope : (fun m : Marker => (if m.scopeKey = scopeKey then
          { m with withdrawnBy := withdrawnBy, idle := idle } else m).scopeKey) =
          Marker.scopeKey := by
        funext m
        split_ifs <;> rfl
      refine ⟨⟨?_, ?_⟩, ?_⟩
      · show (List.map _ (List.map _ _)).Nodup
        rw [List.map_map]
        show (List.map (fun m : Marker => (if m.scopeKey = scopeKey then
          { m with withdrawnBy := withdrawnBy, idle := idle } else m).scopeKey) _).Nodup
        rw [hscope]
        exact h.nodup
      · intro m hm
        obtain ⟨m', hm', rfl⟩ := List.mem_map.mp hm
        have hsame : (if m'.scopeKey = scopeKey then
          { m' with withdrawnBy := withdrawnBy, idle := idle } else m').scopeKey = m'.scopeKey :=
          congrFun hscope m'
        have htenure : (if m'.scopeKey = scopeKey then
          { m' with withdrawnBy := withdrawnBy, idle := idle } else m').tenure = m'.tenure := by
          split_ifs <;> rfl
        rw [Tenancy.Current, hsame, htenure]
        exact h.covered m' hm'
      · intro m hm _ _ _
        exact ⟨_, List.mem_map_of_mem hm, congrFun hscope m⟩
    · obtain ⟨row, hrow, hown⟩ := (Option.any_eq_true _ _).mp hholds
      refine ⟨⟨?_, ?_⟩, ?_⟩
      · refine List.nodup_cons.mpr ⟨?_, h.nodup⟩
        intro hmem
        obtain ⟨m, hm, heq⟩ := List.mem_map.mp hmem
        exact hthere (List.any_eq_true.mpr ⟨m, hm, decide_eq_true heq⟩)
      · intro m hm
        rcases List.mem_cons.mp hm with rfl | hm
        · exact .inl ⟨⟨row, hrow, of_decide_eq_true hown⟩, rfl⟩
        · exact h.covered m hm
      · intro m hm _ _ _
        exact ⟨m, List.mem_cons_of_mem _ hm, rfl⟩
    · exact ⟨h, keeps_of_markers rfl⟩

/-- **One step.** -/
theorem Tenancy.Inv.step [DecidableEq ι] {s' : Tenancy ι} (h : s.Inv)
    (hstep : TenancyStep toUtc Schedule.orderly s s') : s'.Inv ∧ s.Keeps s' := by
  have hbeside : ∀ {s'}, s.Beside s' → s'.Inv ∧ s.Keeps s' :=
    fun hs => ⟨h.beside hs, keeps_of_markers hs.1⟩
  cases hstep with
  | swap caller scope now expires hidle =>
    have hacquired : ∀ a, acquireWorkingTree toUtc s.tree scope now expires = some a →
        Acquired s.tree scope ((toUtc now).getD "") ((toUtc expires).getD "") a := by
      intro a ha
      obtain ⟨now', expires', hnow, hexpires, ha⟩ := acquireWorkingTree_cases ha
      rwa [hnow, hexpires]
    have hswap := h.swap caller hacquired
    exact ⟨hswap.1, keeps_of_markers hswap.2⟩
  | cleanUp caller scopeKey hon hplan => exact ⟨h.cleanUp caller scopeKey, keeps_cleanUp hplan⟩
  | die caller scopeKey hon hplan => exact ⟨⟨h.nodup, hplan⟩, keeps_of_markers rfl⟩
  | release scope now grantedExpires =>
    exact h.handOver (fun row hrow => of_decide_eq_true hrow) _
  | reclaim why holderKey holderExpires now grantedExpires =>
    exact h.handOver (fun row => forfeitRow_scope) _
  | note scopeKey withdrawnBy now idle => exact h.note scopeKey withdrawnBy now idle
  | contention since => exact hbeside (beside_contention since)
  | enqueue entry now => exact hbeside (beside_enqueue entry now)
  | remove id => exact hbeside (beside_of_lease rfl)
  | take => exact hbeside beside_take

end Steps

/-! ## The result -/

/-- **A withdrawal stands exactly as long as its claim**, in an orderly run. -/
theorem withdrawal_stands [DecidableEq ι] (toUtc : String → Option String) (s : Tenancy ι)
    (hrun : ReflTransGen (TenancyStep toUtc Schedule.orderly) Tenancy.start s) :
    StandsAsLongAsItsClaim toUtc Schedule.orderly s := by
  have h : s.Inv := by
    induction hrun with
    | refl => exact .start
    | tail _ hstep ih => exact (ih.step hstep).1
  exact ⟨h.settled, fun s' hstep => (h.step hstep).2⟩

/-- An acquire of caller `caller` that runs to its end. -/
def Tenancy.acquire (s : Tenancy ℕ) (caller : ℕ) (scope : WorkScope) (now expires : String) :
    Tenancy ℕ :=
  (s.swap caller scope (acquireWorkingTree some s.tree scope now expires)).cleanUp caller scope.key

/-- The area `a` holds the copy until two o'clock, and its round is withdrawn. -/
def withdrawnTenancy : Tenancy ℕ :=
  let s := Tenancy.start.acquire 0 (.thread "a") "2026-01-01T00:00:00Z" "2026-01-01T02:00:00Z"
  s.note (noteWithdrawnHolderAs some s.tree s.tenure s.markers "thread:a" "human"
    "2026-01-01T01:00:00Z" false)

/-- The area `b` takes the expired lease. -/
def reclaimedTenancy : Tenancy ℕ :=
  withdrawnTenancy.swap 1 (.thread "b") (acquireWorkingTree some withdrawnTenancy.tree (.thread "b")
    "2026-01-01T03:00:00Z" "2026-01-01T05:00:00Z")

/-- The caller of `b` dies before its clean-up, and later `a` takes the copy again. -/
def inheritedTenancy : Tenancy ℕ :=
  (reclaimedTenancy.die 1 "thread:b").acquire 0 (.thread "a") "2026-01-01T06:00:00Z"
    "2026-01-01T08:00:00Z"

/-- The clean-up of `b` is late: meanwhile `c` took the expired lease, and its round was withdrawn. -/
def overtakenTenancy : Tenancy ℕ :=
  let s := reclaimedTenancy.acquire 2 (.thread "c") "2026-01-01T06:00:00Z" "2026-01-01T08:00:00Z"
  s.note (noteWithdrawnHolderAs some s.tree s.tenure s.markers "thread:c" "human"
    "2026-01-01T07:00:00Z" false)

/-- What the states of these runs hold, evaluated once. -/
theorem tenancies_hold :
    ((0, "thread:a") ∈ (Tenancy.start.swap 0 (.thread "a") (acquireWorkingTree some WorkingTree.free
        (.thread "a") "2026-01-01T00:00:00Z" "2026-01-01T02:00:00Z")).acquiring ∧
      withdrawnTenancy.acquiring = [] ∧ withdrawnTenancy.markers.length = 1) ∧
    reclaimedTenancy.acquiring = [(1, "thread:b")] ∧
    ((reclaimedTenancy.die 1 "thread:b").acquiring = [] ∧
      (0, "thread:a") ∈ ((reclaimedTenancy.die 1 "thread:b").swap 0 (.thread "a")
        (acquireWorkingTree some (reclaimedTenancy.die 1 "thread:b").tree (.thread "a")
          "2026-01-01T06:00:00Z" "2026-01-01T08:00:00Z")).acquiring ∧
      inheritedTenancy.acquiring = [] ∧ inheritedTenancy.tenure ≠ 1 ∧
      (⟨"thread:a", "2026-01-01T01:00:00Z", "human", false, 1⟩ : Marker) ∈
        inheritedTenancy.markers ∧
      inheritedTenancy.tree.lease =
        some ⟨"thread:a", "2026-01-01T06:00:00Z", "2026-01-01T08:00:00Z", none⟩) ∧
    (2, "thread:c") ∈ (reclaimedTenancy.swap 2 (.thread "c") (acquireWorkingTree some
      reclaimedTenancy.tree (.thread "c") "2026-01-01T06:00:00Z" "2026-01-01T08:00:00Z")).acquiring ∧
    (1, "thread:b") ∈ overtakenTenancy.acquiring ∧
    (⟨"thread:c", "2026-01-01T07:00:00Z", "human", false, 3⟩ : Marker) ∈ overtakenTenancy.markers ∧
    overtakenTenancy.tree.lease.map Lease.scopeKey = some "thread:c" ∧
    (overtakenTenancy.cleanUp 1 "thread:b").tree.lease.map Lease.scopeKey = some "thread:c" ∧
    (overtakenTenancy.cleanUp 1 "thread:b").markers = [] := by
  decide

theorem withdrawnTenancy_run (plan : Schedule ℕ)
    (hplan : plan.cleansUp (Tenancy.start.swap 0 (.thread "a") (acquireWorkingTree some
      WorkingTree.free (.thread "a") "2026-01-01T00:00:00Z" "2026-01-01T02:00:00Z")) 0 "thread:a") :
    ReflTransGen (TenancyStep some plan) Tenancy.start withdrawnTenancy := by
  refine ((ReflTransGen.single (.swap 0 (.thread "a") "2026-01-01T00:00:00Z"
    "2026-01-01T02:00:00Z" ?_)).tail (.cleanUp 0 "thread:a" tenancies_hold.1.1 hplan)).tail
    (.note "thread:a" "human" "2026-01-01T01:00:00Z" false)
  intro scopeKey h
  cases h

theorem withdrawal_stands_withdrawn :
    StandsAsLongAsItsClaim some Schedule.orderly withdrawnTenancy ∧
      withdrawnTenancy.markers.length = 1 :=
  ⟨withdrawal_stands some _ (withdrawnTenancy_run _ (fun m hm => by cases hm)),
    tenancies_hold.1.2.2⟩

theorem reclaimedTenancy_run :
    ReflTransGen (TenancyStep some Schedule.any) Tenancy.start reclaimedTenancy := by
  refine (withdrawnTenancy_run _ trivial).tail (.swap 1 (.thread "b") _ _ ?_)
  rw [tenancies_hold.1.2.1]
  intro scopeKey h
  cases h

theorem inheritedTenancy_run :
    ReflTransGen (TenancyStep some Schedule.any) Tenancy.start inheritedTenancy := by
  obtain ⟨-, hreclaimed, ⟨hidle, hswapped, -⟩, -⟩ := tenancies_hold
  refine ((reclaimedTenancy_run.tail (.die 1 "thread:b" ?_ trivial)).tail
    (.swap 0 (.thread "a") _ _ ?_)).tail (.cleanUp 0 "thread:a" hswapped trivial)
  · rw [hreclaimed]
    exact List.mem_singleton_self _
  · rw [hidle]
    intro scopeKey h
    cases h

theorem overtakenTenancy_run :
    ReflTransGen (TenancyStep some Schedule.any) Tenancy.start overtakenTenancy := by
  obtain ⟨-, hreclaimed, -, hswapped, -⟩ := tenancies_hold
  refine ((reclaimedTenancy_run.tail (.swap 2 (.thread "c") _ _ ?_)).tail
    (.cleanUp 2 "thread:c" hswapped trivial)).tail (.note "thread:c" "human" _ false)
  rw [hreclaimed]
  intro scopeKey h
  simp at h

/-- **A withdrawal outlives its claim.** No acquire is on its way, `a` holds the copy anew, and the
marker of its former claim stands; and the clean-up of `b` deletes the marker of `c`, which holds the
copy before and after it. -/
theorem withdrawal_outlives_its_claim :
    (ReflTransGen (TenancyStep some Schedule.any) Tenancy.start inheritedTenancy ∧
      inheritedTenancy.acquiring = [] ∧
      ∃ m ∈ inheritedTenancy.markers, inheritedTenancy.Holds m.scopeKey ∧
        ¬ inheritedTenancy.Current m) ∧
    (ReflTransGen (TenancyStep some Schedule.any) Tenancy.start overtakenTenancy ∧
      TenancyStep some Schedule.any overtakenTenancy (overtakenTenancy.cleanUp 1 "thread:b") ∧
      ¬ overtakenTenancy.Keeps (overtakenTenancy.cleanUp 1 "thread:b")) := by
  obtain ⟨-, -, ⟨-, -, hidle, htenure, hmarker, hlease⟩, -, hlate, hover, hholder, hholder', hgone⟩ :=
    tenancies_hold
  refine ⟨⟨inheritedTenancy_run, hidle, _, hmarker, ⟨_, hlease, rfl⟩, ?_⟩,
    ⟨overtakenTenancy_run, .cleanUp 1 "thread:b" hlate trivial, ?_⟩⟩
  · rintro ⟨-, ht⟩
    exact htenure ht.symm
  · intro hkeeps
    have hholds : ∀ s : Tenancy ℕ, s.tree.lease.map Lease.scopeKey = some "thread:c" →
        s.Holds "thread:c" := by
      intro s h
      rwa [Option.map_eq_some_iff] at h
    obtain ⟨m, hm, -⟩ := hkeeps _ hover (hholds _ hholder) (hholds _ hholder') rfl
    rw [hgone] at hm
    cases hm

end NexusFlow.Chat
