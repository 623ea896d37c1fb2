import Mathlib.Data.List.Range
import Mathlib.Logic.Relation
import NexusFlow.Chat.WorkingTree
import NexusFlow.Lib.Trace

/-!
# The working copy is handed on once

Any callers make any of the calls of `NexusFlow.Chat.WorkingTree`, in any order and with any
arguments. A run keeps, beside the tables, what it has given: the copy to a claim area, an entry of
the queue to a caller.

`working_copy_handed_on`: in every state of every run

* each entry that was ever queued is in the queue or was given to one caller, once;
* a release or a reclaim that deleted the row it names takes one claim area off the queue, the one
  whose turn it is, and leaves the row with that area; one that deleted no row changes nothing;
* a hand-over takes the copy from an area that was given it, and was not handed on since.
-/

namespace NexusFlow.Chat

open Relation

variable {ι : Type} (toUtc : String → Option String)

/-! ## Runs -/

/-- A call with its arguments. -/
inductive Call
  | acquire (scope : WorkScope) (now expires : String)
  | enqueue (entry : QueuedTrigger) (now : String)
  | release (scope : WorkScope) (now grantedExpires : String)
  | reclaimExpired (holderKey holderExpires now grantedExpires : String)
  | reclaimDead (holderKey holderExpires now grantedExpires : String)
  | remove (id : ℤ)
  | take

/-- What a call gave. -/
inductive Given (ι : Type)
  /-- The copy, to a claim area that did not have it. -/
  | copy (caller : ι) (scope : String)
  /-- An entry of the queue, to the caller. -/
  | one (caller : ι) (entry : QueuedTrigger)
  /-- The copy of the outgoing area, to the area of the entries, and these to the caller. -/
  | handedOn (caller : ι) (outgoing : String) (entries : List QueuedTrigger)

/-- The entries that left the queue. -/
def Given.entries : Given ι → List QueuedTrigger
  | .copy _ _ => []
  | .one _ entry => [entry]
  | .handedOn _ _ entries => entries

/-- The scope was given the row. -/
def Given.Gives (scope : String) : Given ι → Prop
  | .copy _ scope' => scope' = scope
  | .one _ _ => False
  | .handedOn _ _ entries => entries.head?.map QueuedTrigger.scopeKey = some scope

/-- A release or a reclaim of the scope handed the copy on. -/
def Given.HandsOn (scope : String) : Given ι → Prop
  | .handedOn _ outgoing _ => outgoing = scope
  | _ => False

/-- The device, and what its calls gave, oldest first. -/
structure Device (ι : Type) where
  tree : WorkingTree
  given : List (Given ι)

/-- A device nobody has worked on. -/
def Device.start : Device ι := ⟨WorkingTree.free, []⟩

/-- The tables after a call, and what it gave. -/
def Device.after (d : Device ι) (tree : WorkingTree) (given : List (Given ι)) : Device ι :=
  ⟨tree, d.given ++ given⟩

/-- The device after an acquire. -/
def Device.acquire (d : Device ι) (caller : ι) (scope : WorkScope)
    (answer : Option (Bool × WorkingTree)) : Device ι :=
  match answer with
  | none => d
  | some (got, tree) =>
    d.after tree (if got && !d.tree.lease.any (ownRow scope) then [.copy caller scope.key] else [])

/-- The device after an enqueue. -/
def Device.enqueue (d : Device ι) (answer : Option (ℤ × WorkingTree)) : Device ι :=
  match answer with
  | none => d
  | some (_, tree) => d.after tree []

/-- The device after a hand-over. -/
def Device.handOver (d : Device ι) (caller : ι) (outgoing : String) (deletes : Lease → Bool)
    (answer : Option (List QueuedTrigger × WorkingTree)) : Device ι :=
  match answer with
  | none => d
  | some (entries, tree) =>
    d.after tree (if d.tree.lease.any deletes then [.handedOn caller outgoing entries] else [])

/-- A call: one transaction. One that fails changes nothing. -/
def Device.call (d : Device ι) (caller : ι) : Call → Device ι
  | .acquire scope now expires =>
    d.acquire caller scope (acquireWorkingTree toUtc d.tree scope now expires)
  | .enqueue entry now =>
    d.enqueue (enqueueWorkingTree toUtc d.tree entry now)
  | .release scope now grantedExpires =>
    d.handOver caller scope.key (ownRow scope)
      (releaseWorkingTreeAndTakeNext toUtc d.tree scope now grantedExpires)
  | .reclaimExpired holderKey holderExpires now grantedExpires =>
    d.handOver caller holderKey (forfeitRow toUtc .itsBoundRanOut holderKey holderExpires now)
      (reclaimExpiredWorkingTreeAndTakeNext toUtc d.tree holderKey holderExpires now
        grantedExpires)
  | .reclaimDead holderKey holderExpires now grantedExpires =>
    d.handOver caller holderKey (forfeitRow toUtc .itsHolderIsGone holderKey holderExpires now)
      (reclaimADeadHoldersWorkingTreeAndTakeNext toUtc d.tree holderKey holderExpires now
        grantedExpires)
  | .remove id =>
    d.after (removeWorkingTreeQueueEntry d.tree id).2
      ((d.tree.queue.filter fun q => q.id = id).map (.one caller))
  | .take =>
    d.after (takeWorkingTreeQueue d.tree).2
      ((takeWorkingTreeQueue d.tree).1.toList.map (.one caller))

/-- A call of some caller. -/
def Device.Step (d d' : Device ι) : Prop := ∃ caller call, d' = d.call toUtc caller call

/-! ## What is expected -/

/-- A hand-over that deleted the outgoing area's row. -/
structure TookNext (outgoing : String) (t : WorkingTree) (entries : List QueuedTrigger)
    (t' : WorkingTree) : Prop where
  sorted : entries.Pairwise fun a b => queueOrderKey a < queueOrderKey b
  /-- All entries of the area whose turn it is, and the row with that area. -/
  area : t.queue ≠ [] → ∃ head, Next outgoing t.queue head ∧
    (∀ q, q ∈ entries ↔ q ∈ t.queue ∧ q.scopeKey = head.scopeKey) ∧
    t'.queue = t.queue.filter (fun q => q.scopeKey ≠ head.scopeKey) ∧
    ∃ row, t'.lease = some row ∧ row.scopeKey = head.scopeKey
  nobody : t.queue = [] → entries = [] ∧ t'.queue = []
  free_iff : t'.lease = none ↔ t.queue = []

/-- What a release or a reclaim answers and leaves. -/
def Outcome (outgoing : String) (deletes : Lease → Bool) (t : WorkingTree)
    (answer : List QueuedTrigger × WorkingTree) : Prop :=
  ((∃ row, t.lease = some row ∧ deletes row) → TookNext outgoing t answer.1 answer.2) ∧
    ((¬ ∃ row, t.lease = some row ∧ deletes row) → answer = ([], t))

/-- The copy is handed on once for each time a scope was given it: before each hand-over of a scope
stands a moment at which the scope was given the row, and no hand-over of the scope between. -/
def HandsOnOnce (before : List (Given ι)) (given : Given ι) : Prop :=
  ∀ scope, given.HandsOn scope → Lib.Standing (Given.Gives scope) (Given.HandsOn scope) before

/-- What is expected of a device. -/
structure HandedOn (d : Device ι) : Prop where
  /-- Every id ever given out is in the queue or in one caller's hands, once. -/
  entries : ((d.given.flatMap Given.entries ++ d.tree.queue).map QueuedTrigger.id).Perm
    ((List.range d.tree.lastId).map fun i : ℕ => (i : ℤ) + 1)
  releases : ∀ scope now grantedExpires answer,
    releaseWorkingTreeAndTakeNext toUtc d.tree scope now grantedExpires = some answer →
      Outcome scope.key (ownRow scope) d.tree answer
  reclaims : ∀ why holderKey holderExpires now grantedExpires answer,
    reclaimAForfeitLeaseAndTakeNext toUtc d.tree holderKey holderExpires now grantedExpires why =
        some answer →
      Outcome holderKey (forfeitRow toUtc why holderKey holderExpires now) d.tree answer
  once : Lib.Always HandsOnOnce d.given

/-! ## One hand-over -/

theorem handTheWorkingTreeOn_spec {t : WorkingTree} (hids : (t.queue.map QueuedTrigger.id).Nodup)
    (outgoing now grantedExpires : String) :
    TookNext outgoing t (handTheWorkingTreeOn t outgoing now grantedExpires).1
      (handTheWorkingTreeOn t outgoing now grantedExpires).2 := by
  unfold handTheWorkingTreeOn
  rcases takeQueueScope_spec outgoing t.queue with ⟨hq, htake⟩ | ⟨scope, htook⟩
  · rw [htake]
    exact ⟨List.Pairwise.nil, fun h => absurd hq h, fun _ => ⟨rfl, rfl⟩, by simp [hq]⟩
  · obtain ⟨head, hnext, hscope⟩ := htook.next
    have hmem : head ∈ (takeQueueScope outgoing t.queue).1 :=
      (htook.mem_taken head).mpr ⟨hnext.1, hscope⟩
    have hne : t.queue ≠ [] := List.ne_nil_of_mem hnext.1
    -- the row names the area of the entry the caller fires first
    obtain ⟨first, hfirst⟩ : ∃ first, (takeQueueScope outgoing t.queue).1.head? = some first := by
      cases htaken : (takeQueueScope outgoing t.queue).1 with
      | nil => rw [htaken] at hmem; cases hmem
      | cons first _ => exact ⟨first, rfl⟩
    have hfirstScope : first.scopeKey = scope :=
      ((htook.mem_taken first).mp (List.mem_of_mem_head? hfirst)).2
    have hnodup : ((takeQueueScope outgoing t.queue).1.map QueuedTrigger.id).Nodup := by
      have h := (htook.perm.map QueuedTrigger.id).nodup_iff.mpr hids
      rw [List.map_append] at h
      exact (List.nodup_append.mp h).1
    refine ⟨?_, fun _ => ⟨head, hnext, ?_, ?_, ?_⟩, fun h => absurd h hne, ?_⟩
    · refine (htook.sorted.and (List.pairwise_map.mp hnodup)).imp ?_
      rintro a b ⟨hle, hid⟩
      exact lt_of_le_of_ne hle fun h => hid (queueOrderKey_injective h)
    · intro q
      rw [htook.mem_taken, hscope]
    · rw [htook.rest_eq, hscope]
    · exact ⟨⟨first.scopeKey, now, grantedExpires, none⟩, by rw [hfirst]; rfl,
        hfirstScope.trans hscope.symm⟩
    · rw [hfirst]
      simp [hne]

variable {toUtc}

theorem IsHandOver.outcome {t : WorkingTree} {outgoing : String} {deletes : Lease → Bool}
    {answer : List QueuedTrigger × WorkingTree} (h : IsHandOver t outgoing deletes answer)
    (hids : (t.queue.map QueuedTrigger.id).Nodup) : Outcome outgoing deletes t answer := by
  obtain ⟨now, grantedExpires, rfl⟩ := h
  constructor
  · intro hrow
    rw [if_pos ((Option.any_eq_true _ _).mpr hrow)]
    exact handTheWorkingTreeOn_spec hids outgoing now grantedExpires
  · intro hrow
    rw [if_neg fun h => hrow ((Option.any_eq_true _ _).mp h)]

/-! ## Every call keeps the account -/

/-- What a run keeps. -/
structure Device.Inv (d : Device ι) : Prop where
  entries : ((d.given.flatMap Given.entries ++ d.tree.queue).map QueuedTrigger.id).Perm
    ((List.range d.tree.lastId).map fun i : ℕ => (i : ℤ) + 1)
  /-- The holder was given the row, and has not handed it on since. -/
  held : ∀ row, d.tree.lease = some row →
    Lib.Standing (Given.Gives row.scopeKey) (Given.HandsOn row.scopeKey) d.given
  once : Lib.Always HandsOnOnce d.given

theorem Device.Inv.start : (Device.start : Device ι).Inv where
  entries := .refl _
  held := by
    intro row h
    cases h
  once := Lib.Always.nil _

/-- No two entries of the queue have one id. -/
theorem Device.Inv.queue_nodup {d : Device ι} (h : d.Inv) :
    (d.tree.queue.map QueuedTrigger.id).Nodup := by
  have hnodup : ((List.range d.tree.lastId).map fun i : ℕ => (i : ℤ) + 1).Nodup :=
    (List.nodup_range).map fun a b hab => by simpa using hab
  have h := h.entries.nodup_iff.mpr hnodup
  rw [List.map_append] at h
  exact (List.nodup_append.mp h).2.1

theorem Device.Inv.handOver {d : Device ι} (h : d.Inv) (caller : ι) {outgoing : String}
    {deletes : Lease → Bool} (hdeletes : ∀ row, deletes row → row.scopeKey = outgoing)
    {answer : Option (List QueuedTrigger × WorkingTree)}
    (ha : ∀ a, answer = some a → IsHandOver d.tree outgoing deletes a) :
    (d.handOver caller outgoing deletes answer).Inv := by
  cases answer with
  | none => exact h
  | some answer =>
    obtain ⟨now, grantedExpires, rfl⟩ := ha _ rfl
    unfold Device.handOver Device.after
    by_cases hrow : d.tree.lease.any deletes
    · simp only [if_pos hrow]
      obtain ⟨row, hlease, hdel⟩ := (Option.any_eq_true _ _).mp hrow
      have hspec := handTheWorkingTreeOn_spec h.queue_nodup outgoing now grantedExpires
      have hperm := handTheWorkingTreeOn_perm d.tree outgoing now grantedExpires
      refine ⟨?_, ?_, Lib.always_snoc.mpr ⟨h.once, ?_⟩⟩
      · refine List.Perm.trans (List.Perm.map _ ?_) h.entries
        simp only [List.flatMap_append, List.flatMap_cons, List.flatMap_nil, List.append_nil,
          Given.entries, List.append_assoc]
        exact hperm.append_left _
      · -- the area that has the row now was given it by this very call
        intro row' hrow'
        refine Lib.Standing.last ?_
        change (handTheWorkingTreeOn d.tree outgoing now grantedExpires).2.lease = some row' at hrow'
        unfold handTheWorkingTreeOn at hrow' ⊢
        rw [Option.map_eq_some_iff] at hrow'
        obtain ⟨head, hhead, rfl⟩ := hrow'
        show Option.map QueuedTrigger.scopeKey _ = _
        rw [hhead]
        rfl
      · intro scope hscope
        obtain rfl : outgoing = scope := hscope
        rw [← hdeletes row hdel]
        exact h.held row hlease
    · simp only [if_neg hrow, List.append_nil]
      exact h

theorem Device.Inv.acquire {d : Device ι} (h : d.Inv) (caller : ι) {scope : WorkScope}
    {now expires : String} {answer : Option (Bool × WorkingTree)}
    (ha : ∀ a, answer = some a → Acquired d.tree scope now expires a) :
    (d.acquire caller scope answer).Inv := by
  have hgave : Device.Inv (⟨{ d.tree with lease := some ⟨scope.key, now, expires, none⟩ },
      d.given ++ [Given.copy caller scope.key]⟩ : Device ι) := by
    refine ⟨?_, ?_, Lib.always_snoc.mpr ⟨h.once, fun _ hscope => hscope.elim⟩⟩
    · simpa only [List.flatMap_append, List.flatMap_cons, List.flatMap_nil, List.append_nil,
        Given.entries] using h.entries
    · intro row hrow
      cases hrow
      exact Lib.Standing.last rfl
  cases answer with
  | none => exact h
  | some answer =>
    cases ha _ rfl with
    | fresh hfree =>
      simp only [Device.acquire, hfree, Option.any_none, Bool.not_false, Bool.and_self, if_true]
      exact hgave
    | @inherited row hrow hsame =>
      have hown : ownRow scope _ = true := decide_eq_true hsame
      simp only [Device.acquire, hrow, Option.any_some, hown, Bool.not_true, Bool.and_false,
        Bool.false_eq_true, if_false, Device.after, List.append_nil]
      refine ⟨h.entries, ?_, h.once⟩
      intro row' hrow'
      cases hrow'
      exact h.held row hrow
    | reclaimed hrow hother hexp =>
      have hown : ownRow scope _ = false := decide_eq_false hother
      simp only [Device.acquire, hrow, Option.any_some, hown, Bool.not_false, Bool.and_self,
        if_true]
      exact hgave
    | refused hrow hother hexp =>
      simpa only [Device.acquire, Bool.false_and, Bool.false_eq_true, if_false, Device.after,
        List.append_nil] using h

theorem Device.Inv.enqueue {d : Device ι} (h : d.Inv) (entry : QueuedTrigger) (now : String) :
    (d.enqueue (enqueueWorkingTree toUtc d.tree entry now)).Inv := by
  cases hcall : enqueueWorkingTree toUtc d.tree entry now with
  | none => exact h
  | some answer =>
    obtain ⟨enqueuedAt, -, rfl⟩ := enqueueWorkingTree_spec hcall
    simp only [Device.enqueue, Device.after, List.append_nil]
    refine ⟨?_, h.held, h.once⟩
    show (List.map QueuedTrigger.id (d.given.flatMap Given.entries ++ (d.tree.queue ++ [_]))).Perm _
    rw [← List.append_assoc, List.range_succ, List.map_append, List.map_append (f := fun i : ℕ => _)]
    exact h.entries.append (.refl _)

/-- Entries taken out of the queue by their id. -/
theorem Device.Inv.taken {d : Device ι} (h : d.Inv) (caller : ι) (id : ℤ) :
    (d.after { d.tree with queue := d.tree.queue.filter fun q => q.id ≠ id }
      ((d.tree.queue.filter fun q => q.id = id).map (.one caller))).Inv := by
  have hentries : ∀ entries : List QueuedTrigger,
      (entries.map (Given.one caller)).flatMap Given.entries = entries := by
    intro entries
    rw [List.flatMap_map]
    exact List.flatMap_singleton' entries
  have hsnoc : ∀ (entries : List QueuedTrigger) (given : List (Given ι)),
      (∀ row, d.tree.lease = some row →
        Lib.Standing (Given.Gives row.scopeKey) (Given.HandsOn row.scopeKey) given) →
      Lib.Always HandsOnOnce given →
      (∀ row, d.tree.lease = some row → Lib.Standing (Given.Gives row.scopeKey)
        (Given.HandsOn row.scopeKey) (given ++ entries.map (Given.one caller))) ∧
      Lib.Always HandsOnOnce (given ++ entries.map (Given.one caller)) := by
    intro entries
    induction entries with
    | nil =>
      intro given hheld honce
      simpa using ⟨hheld, honce⟩
    | cons entry entries ih =>
      intro given hheld honce
      rw [List.map_cons, ← List.singleton_append, ← List.append_assoc]
      exact ih _ (fun row hrow => (hheld row hrow).snoc fun hon => hon)
        (Lib.always_snoc.mpr ⟨honce, fun _ hscope => hscope.elim⟩)
  obtain ⟨hheld, honce⟩ := hsnoc (d.tree.queue.filter fun q => q.id = id) _ h.held h.once
  refine ⟨?_, hheld, honce⟩
  refine List.Perm.trans (List.Perm.map _ ?_) h.entries
  rw [Device.after, List.flatMap_append, hentries, List.append_assoc]
  refine List.Perm.append_left _ ?_
  simpa using List.filter_append_perm (fun q : QueuedTrigger => decide (q.id = id)) d.tree.queue

theorem Device.Inv.take {d : Device ι} (h : d.Inv) (caller : ι) :
    (d.call toUtc caller .take).Inv := by
  show Device.Inv (d.after (takeWorkingTreeQueue d.tree).2
    ((takeWorkingTreeQueue d.tree).1.toList.map (Given.one caller)))
  unfold takeWorkingTreeQueue
  cases hhead : d.tree.queue.argmin queueOrderKey with
  | none => simpa [Device.after] using h
  | some head =>
    have htaken := h.taken caller head.id
    rwa [filter_eq_singleton h.queue_nodup (List.argmin_mem hhead)] at htaken

theorem Device.Inv.step {d d' : Device ι} (h : d.Inv) (hstep : d.Step toUtc d') : d'.Inv := by
  obtain ⟨caller, call, rfl⟩ := hstep
  cases call with
  | acquire scope now expires =>
    have hacquired : ∀ a, acquireWorkingTree toUtc d.tree scope now expires = some a →
        Acquired d.tree scope ((toUtc now).getD "") ((toUtc expires).getD "") a := by
      intro a ha
      obtain ⟨now', expires', hnow, hexpires, ha⟩ := acquireWorkingTree_cases ha
      rwa [hnow, hexpires]
    exact h.acquire caller hacquired
  | enqueue entry now => exact h.enqueue entry now
  | release scope now grantedExpires =>
    exact h.handOver caller (fun row hrow => of_decide_eq_true hrow) fun _ => release_isHandOver
  | reclaimExpired holderKey holderExpires now grantedExpires =>
    exact h.handOver caller (fun row => forfeitRow_scope) fun _ => reclaim_isHandOver
  | reclaimDead holderKey holderExpires now grantedExpires =>
    exact h.handOver caller (fun row => forfeitRow_scope) fun _ => reclaim_isHandOver
  | remove id => exact h.taken caller id
  | take => exact h.take caller

/-! ## The result -/

/-- **The working copy is handed on once.** -/
theorem working_copy_handed_on (toUtc : String → Option String) (d : Device ι)
    (hrun : ReflTransGen (Device.Step toUtc) Device.start d) : HandedOn toUtc d := by
  have h : d.Inv := by
    induction hrun with
    | refl => exact .start
    | tail _ hstep ih => exact ih.step hstep
  exact ⟨h.entries, fun _ _ _ _ ha => (release_isHandOver ha).outcome h.queue_nodup,
    fun _ _ _ _ _ _ ha => (reclaim_isHandOver ha).outcome h.queue_nodup, h.once⟩

/-- A trigger of a role into a thread. -/
def sampleTrigger (thread : String) : QueuedTrigger :=
  ⟨0, threadPrefix ++ thread, "coder", "s-" ++ thread, some thread, "go", none, 0, .normal, none⟩

/-- Two areas: the first takes the copy and queues a step of its own, the second queues two, and the
first gives the copy back twice. -/
def sampleDevice : Device Bool :=
  [(false, .acquire (.thread "a") "2026-01-01T00:00:00Z" "2026-01-01T02:00:00Z"),
    (false, .enqueue (sampleTrigger "a") "2026-01-01T00:00:01Z"),
    (true, .enqueue (sampleTrigger "b") "2026-01-01T00:00:02Z"),
    (true, .enqueue (sampleTrigger "b") "2026-01-01T00:00:03Z"),
    (false, .release (.thread "a") "2026-01-01T00:00:04Z" "2026-01-01T02:00:04Z"),
    (true, .release (.thread "a") "2026-01-01T00:00:05Z" "2026-01-01T02:00:05Z")].foldl
    (fun d e => d.call some e.1 e.2) Device.start

/-- A list of calls is a run. -/
theorem foldl_call_run (calls : List (ι × Call)) (d : Device ι) :
    ReflTransGen (Device.Step toUtc) d (calls.foldl (fun d e => d.call toUtc e.1 e.2) d) := by
  induction calls generalizing d with
  | nil => exact .refl
  | cons e calls ih => exact .head ⟨e.1, e.2, rfl⟩ (ih _)

theorem working_copy_handed_on_sample : HandedOn some sampleDevice ∧
    sampleDevice.tree.lease.map Lease.scopeKey = some "thread:b" ∧
    sampleDevice.tree.queue.map QueuedTrigger.id = [1] ∧
    sampleDevice.given.map (fun g => g.entries.map QueuedTrigger.id) = [[], [2, 3]] :=
  ⟨working_copy_handed_on some _ (foldl_call_run _ _), by decide, by decide,
    by decide⟩

end NexusFlow.Chat
