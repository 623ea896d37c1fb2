import Mathlib.Data.List.MinMax
import Mathlib.Data.List.Sort
import Mathlib.Data.Prod.Lex
import Mathlib.Data.String.Basic
import NexusFlow.Chat.MessageReducer

/-!
# The working-tree lease and its queue

Model of `crates/chat/src/working_tree.rs:205-262,350-440,548-716,819-825,925-971,1144-1293,1586-1755`.
One row says which claim area holds this machine's working copy and until when. A trigger that did not
get it waits in a queue, ordered by `(priority, enqueued_at, id)`. Who gives the copy back, or takes it
from a holder that does not, takes the next claim area off the queue and writes the row for it in the
same transaction.

`toUtc` is `to_utc_rfc3339`: the UTC form of an instant, none where the instant is not one. A call
with such an instant fails before it reaches the tables, and its answer here is none. Instants are
compared as text, as the statements do. A row of the queue is written with the ordinal of its
priority and the wire form of its model, and read back as what was written.

* `acquireWorkingTree_cases`: what the compare-and-swap decides.
* `takeQueueScope_spec`: what a hand-over takes off the queue.
-/

namespace NexusFlow.Chat

open MessageReducer

/-! ## The tables -/

/-- `WorkScope`: the claim area a trigger competes for the working copy under. -/
inductive WorkScope
  | thread (id : String)
  | session (id : String)
  deriving DecidableEq, Repr

/-- `THREAD_PREFIX`. -/
def threadPrefix : String := "thread:"

/-- `SESSION_PREFIX`. -/
def sessionPrefix : String := "session:"

/-- The key the tables store the scope under. -/
def WorkScope.key : WorkScope → String
  | .thread id => threadPrefix ++ id
  | .session id => sessionPrefix ++ id

/-- `WorkScope::parse`: the scope a stored key names. -/
def WorkScope.parse (key : String) : Option WorkScope :=
  ((key.toList.dropPrefix? threadPrefix.toList).map fun id => .thread (String.ofList id)).or
    ((key.toList.dropPrefix? sessionPrefix.toList).map fun id => .session (String.ofList id))

/-- `Model`. -/
inductive Model
  | fable
  | opus
  | sonnet
  | haiku
  deriving DecidableEq, Repr

/-- The ordinal `working_tree_queue.priority` stores. -/
def Priority.ordinal : Priority → ℤ
  | .urgent => 0
  | .normal => 1
  | .background => 2

/-- `QueuedTrigger`: a trigger that waits. On the way in the id is ignored, and the instant is none
unless the entry has waited before. -/
structure QueuedTrigger where
  id : ℤ
  scopeKey : String
  role : String
  session : String
  thread : Option String
  message : String
  model : Option Model
  depth : Nat
  priority : Priority
  enqueuedAt : Option String
  deriving DecidableEq, Repr

/-- The row of `working_tree_lease`. -/
structure Lease where
  scopeKey : String
  acquired : String
  expires : String
  contendedSince : Option String
  deriving DecidableEq, Repr

/-- The two tables, and the largest id `working_tree_queue` has given out. -/
structure WorkingTree where
  lease : Option Lease
  queue : List QueuedTrigger
  lastId : Nat
  deriving DecidableEq, Repr

/-- The tables of a device nobody has worked on. -/
def WorkingTree.free : WorkingTree := ⟨none, [], 0⟩

/-! ## The order of the queue -/

/-- The order of the queue's keys: priority, enqueue time, id. -/
instance queueOrder : LinearOrder (ℤ ×ₗ String ×ₗ ℤ) :=
  @Prod.Lex.instLinearOrder ℤ (String ×ₗ ℤ) Int.instLinearOrder
    (@Prod.Lex.instLinearOrder String ℤ String.instLinearOrder Int.instLinearOrder)

instance queuePreorder : Preorder (ℤ ×ₗ String ×ₗ ℤ) := queueOrder.toPreorder

instance queueDecidableLT : DecidableLT (ℤ ×ₗ String ×ₗ ℤ) := queueOrder.toDecidableLT

/-- The order the next claim area is chosen by. -/
instance scopeOrder : LinearOrder (Bool ×ₗ ℤ ×ₗ String ×ₗ ℤ) :=
  @Prod.Lex.instLinearOrder Bool (ℤ ×ₗ String ×ₗ ℤ) Bool.linearOrder queueOrder

instance scopePreorder : Preorder (Bool ×ₗ ℤ ×ₗ String ×ₗ ℤ) := scopeOrder.toPreorder

instance scopeDecidableLT : DecidableLT (Bool ×ₗ ℤ ×ₗ String ×ₗ ℤ) := scopeOrder.toDecidableLT

/-- `queue_order_key`. -/
def queueOrderKey (q : QueuedTrigger) : ℤ ×ₗ String ×ₗ ℤ :=
  toLex (q.priority.ordinal, toLex (q.enqueuedAt.getD "", q.id))

theorem queueOrderKey_injective {a b : QueuedTrigger} (h : queueOrderKey a = queueOrderKey b) :
    a.id = b.id := by
  simp only [queueOrderKey, EmbeddingLike.apply_eq_iff_eq, Prod.mk.injEq] at h
  exact h.2.2

/-- The claim area whose turn it is: that of the first entry, the outgoing area's entries last. -/
def nextScope (outgoing : String) (queue : List QueuedTrigger) : Option String :=
  (queue.argmin fun q => toLex (decide (q.scopeKey = outgoing), queueOrderKey q)).map (·.scopeKey)

/-- `take_queue_scope`: every entry of the claim area whose turn it is, in the queue's order, and
the queue without them. -/
def takeQueueScope (outgoing : String) (queue : List QueuedTrigger) :
    List QueuedTrigger × List QueuedTrigger :=
  match nextScope outgoing queue with
  | none => ([], queue)
  | some scope =>
    ((queue.filter fun q => q.scopeKey = scope).insertionSort fun a b =>
        queueOrderKey a ≤ queueOrderKey b,
      queue.filter fun q => q.scopeKey ≠ scope)

/-! ## The calls -/

section Calls

variable (toUtc : String → Option String)

/-- `acquire_working_tree`, its compare-and-swap: whether the scope holds the copy after it. -/
def acquireWorkingTree (t : WorkingTree) (scope : WorkScope) (now expires : String) :
    Option (Bool × WorkingTree) := do
  let now ← toUtc now
  let expires ← toUtc expires
  match t.lease with
  | none => return (true, { t with lease := some ⟨scope.key, now, expires, none⟩ })
  | some row =>
    if row.scopeKey = scope.key then
      return (true, { t with lease := some { row with expires := expires } })
    else if row.expires ≤ now then
      return (true, { t with lease := some ⟨scope.key, now, expires, none⟩ })
    else
      return (false, t)

/-- The row of the scope, which a release deletes. -/
def ownRow (scope : WorkScope) (row : Lease) : Bool := row.scopeKey = scope.key

/-- The largest rowid of SQLite; past it an insert fails. -/
def maxRowid : Nat := 2 ^ 63 - 1

/-- `enqueue_working_tree`: the id the entry was given. -/
def enqueueWorkingTree (t : WorkingTree) (q : QueuedTrigger) (now : String) :
    Option (ℤ × WorkingTree) := do
  let enqueuedAt ← toUtc (q.enqueuedAt.getD now)
  if t.lastId < maxRowid then
    let id : ℤ := t.lastId + 1
    return (id, { t with
      queue := t.queue ++ [{ q with id := id, enqueuedAt := some enqueuedAt }]
      lastId := t.lastId + 1 })
  else none

/-- `hand_the_working_tree_on`, after the outgoing area's row was deleted. -/
def handTheWorkingTreeOn (t : WorkingTree) (outgoing now grantedExpires : String) :
    List QueuedTrigger × WorkingTree :=
  ((takeQueueScope outgoing t.queue).1, { t with
    lease := (takeQueueScope outgoing t.queue).1.head?.map fun head =>
      ⟨head.scopeKey, now, grantedExpires, none⟩
    queue := (takeQueueScope outgoing t.queue).2 })

/-- `release_working_tree_and_take_next`. -/
def releaseWorkingTreeAndTakeNext (t : WorkingTree) (scope : WorkScope)
    (now grantedExpires : String) : Option (List QueuedTrigger × WorkingTree) := do
  let now ← toUtc now
  let grantedExpires ← toUtc grantedExpires
  if t.lease.any (ownRow scope) then
    return handTheWorkingTreeOn t scope.key now grantedExpires
  else
    return ([], t)

/-- `WhyTheLeaseIsForfeit`. -/
inductive WhyTheLeaseIsForfeit
  | itsBoundRanOut
  | itsHolderIsGone
  deriving DecidableEq, Repr

/-- The row a reclaim deletes: the one it read, and past its bound where that is the reason. -/
def WhyTheLeaseIsForfeit.names (why : WhyTheLeaseIsForfeit) (holderKey holderExpires now : String)
    (row : Lease) : Bool :=
  match why with
  | .itsBoundRanOut =>
    row.scopeKey = holderKey && row.expires = holderExpires && decide (row.expires ≤ now)
  | .itsHolderIsGone => row.scopeKey = holderKey && row.expires = holderExpires

/-- The row a reclaim deletes, by its arguments. -/
def forfeitRow (why : WhyTheLeaseIsForfeit) (holderKey holderExpires now : String) (row : Lease) :
    Bool :=
  (toUtc now).any fun now => why.names holderKey holderExpires now row

/-- `reclaim_a_forfeit_lease_and_take_next`. -/
def reclaimAForfeitLeaseAndTakeNext (t : WorkingTree) (holderKey holderExpires now
    grantedExpires : String) (why : WhyTheLeaseIsForfeit) :
    Option (List QueuedTrigger × WorkingTree) := do
  let now ← toUtc now
  let grantedExpires ← toUtc grantedExpires
  if t.lease.any (why.names holderKey holderExpires now) then
    return handTheWorkingTreeOn t holderKey now grantedExpires
  else
    return ([], t)

/-- `reclaim_expired_working_tree_and_take_next`. -/
def reclaimExpiredWorkingTreeAndTakeNext (t : WorkingTree) (holderKey holderExpires now
    grantedExpires : String) : Option (List QueuedTrigger × WorkingTree) :=
  reclaimAForfeitLeaseAndTakeNext toUtc t holderKey holderExpires now grantedExpires .itsBoundRanOut

/-- `reclaim_a_dead_holders_working_tree_and_take_next`. -/
def reclaimADeadHoldersWorkingTreeAndTakeNext (t : WorkingTree) (holderKey holderExpires now
    grantedExpires : String) : Option (List QueuedTrigger × WorkingTree) :=
  reclaimAForfeitLeaseAndTakeNext toUtc t holderKey holderExpires now grantedExpires
    .itsHolderIsGone

/-- `working_tree_holder`: the area of a lease that has not run out. -/
def workingTreeHolder (t : WorkingTree) (now : String) : Option (Option String) := do
  let now ← toUtc now
  return (t.lease.filter fun row => now < row.expires).map Lease.scopeKey

/-- `note_working_tree_contention`: an instant is written where there is none, none clears it. -/
def noteWorkingTreeContention (t : WorkingTree) (since : Option String) : Option WorkingTree :=
  match since with
  | none => some { t with lease := t.lease.map fun row => { row with contendedSince := none } }
  | some now => do
    let now ← toUtc now
    return { t with lease := t.lease.map fun row =>
      { row with contendedSince := row.contendedSince.or (some now) } }

end Calls

/-- `take_working_tree_queue`: the head of the queue, whosever it is. -/
def takeWorkingTreeQueue (t : WorkingTree) : Option QueuedTrigger × WorkingTree :=
  match t.queue.argmin queueOrderKey with
  | none => (none, t)
  | some head => (some head, { t with queue := t.queue.filter fun q => q.id ≠ head.id })

/-- `remove_working_tree_queue_entry`: whether the entry was still there. -/
def removeWorkingTreeQueueEntry (t : WorkingTree) (id : ℤ) : Bool × WorkingTree :=
  (t.queue.any fun q => q.id = id, { t with queue := t.queue.filter fun q => q.id ≠ id })

/-- `working_tree_queue_position`: how many entries go before the entry, and itself; none where it is
not queued. -/
def workingTreeQueuePosition (t : WorkingTree) (id : ℤ) : Option Nat :=
  (t.queue.find? fun q => q.id = id).map fun entry =>
    (t.queue.filter fun q => queueOrderKey q < queueOrderKey entry).length + 1

/-- Where no two elements have one key, the key finds its element. -/
theorem filter_eq_singleton {α β : Type} [DecidableEq β] {key : α → β} {l : List α}
    (hkeys : (l.map key).Nodup) {a : α} (ha : a ∈ l) : l.filter (fun b => key b = key a) = [a] := by
  induction l with
  | nil => cases ha
  | cons first rest ih =>
    rw [List.map_cons, List.nodup_cons] at hkeys
    rcases List.mem_cons.mp ha with rfl | hrest
    · rw [List.filter_cons_of_pos (by simp), List.filter_eq_nil_iff.mpr]
      intro b hb hkey
      exact hkeys.1 (of_decide_eq_true hkey ▸ List.mem_map_of_mem hb)
    · rw [List.filter_cons_of_neg, ih hkeys.2 hrest]
      intro hkey
      exact hkeys.1 (of_decide_eq_true hkey ▸ List.mem_map_of_mem hrest)

/-! ## What the compare-and-swap decides -/

/-- What `acquire_working_tree` can answer, and the row it leaves. -/
inductive Acquired (t : WorkingTree) (scope : WorkScope) (now expires : String) :
    Bool × WorkingTree → Prop
  | fresh (hfree : t.lease = none) :
    Acquired t scope now expires
      (true, { t with lease := some ⟨scope.key, now, expires, none⟩ })
  | inherited {row : Lease} (hrow : t.lease = some row) (hsame : row.scopeKey = scope.key) :
    Acquired t scope now expires (true, { t with lease := some { row with expires := expires } })
  | reclaimed {row : Lease} (hrow : t.lease = some row) (hother : row.scopeKey ≠ scope.key)
      (hexp : row.expires ≤ now) :
    Acquired t scope now expires
      (true, { t with lease := some ⟨scope.key, now, expires, none⟩ })
  | refused {row : Lease} (hrow : t.lease = some row) (hother : row.scopeKey ≠ scope.key)
      (hexp : now < row.expires) : Acquired t scope now expires (false, t)

theorem acquireWorkingTree_cases {toUtc : String → Option String} {t : WorkingTree}
    {scope : WorkScope} {now expires : String} {answer : Bool × WorkingTree}
    (h : acquireWorkingTree toUtc t scope now expires = some answer) :
    ∃ now' expires', toUtc now = some now' ∧ toUtc expires = some expires' ∧
      Acquired t scope now' expires' answer := by
  simp only [acquireWorkingTree, bind, Option.bind_eq_some_iff] at h
  obtain ⟨now', hnow, expires', hexpires, h⟩ := h
  refine ⟨now', expires', hnow, hexpires, ?_⟩
  cases hlease : t.lease with
  | none =>
    rw [hlease] at h
    cases h
    exact .fresh hlease
  | some row =>
    rw [hlease] at h
    by_cases hsame : row.scopeKey = scope.key
    · simp only [if_pos hsame] at h
      cases h
      exact .inherited hlease hsame
    · by_cases hexp : row.expires ≤ now'
      · simp only [if_neg hsame, if_pos hexp] at h
        cases h
        exact .reclaimed hlease hsame hexp
      · simp only [if_neg hsame, if_neg hexp] at h
        cases h
        exact .refused hlease hsame (not_le.mp hexp)

theorem enqueueWorkingTree_spec {toUtc : String → Option String} {t : WorkingTree}
    {q : QueuedTrigger} {now : String} {answer : ℤ × WorkingTree}
    (h : enqueueWorkingTree toUtc t q now = some answer) :
    ∃ enqueuedAt, toUtc (q.enqueuedAt.getD now) = some enqueuedAt ∧
      answer = ((t.lastId : ℤ) + 1, { t with
        queue := t.queue ++ [{ q with id := t.lastId + 1, enqueuedAt := some enqueuedAt }]
        lastId := t.lastId + 1 }) := by
  simp only [enqueueWorkingTree, bind, Option.bind_eq_some_iff] at h
  obtain ⟨enqueuedAt, hat, h⟩ := h
  split_ifs at h with hroom
  cases h
  exact ⟨enqueuedAt, hat, rfl⟩

/-! ## What a hand-over deletes -/

section HandOver

variable {toUtc : String → Option String}

/-- The answer of a hand-over: it hands the copy on exactly when the table has the row it deletes. -/
def IsHandOver (t : WorkingTree) (outgoing : String) (deletes : Lease → Bool)
    (answer : List QueuedTrigger × WorkingTree) : Prop :=
  ∃ now grantedExpires, answer =
    if t.lease.any deletes then handTheWorkingTreeOn t outgoing now grantedExpires else ([], t)

theorem release_isHandOver {t : WorkingTree} {scope : WorkScope} {now grantedExpires : String}
    {answer : List QueuedTrigger × WorkingTree}
    (h : releaseWorkingTreeAndTakeNext toUtc t scope now grantedExpires = some answer) :
    IsHandOver t scope.key (ownRow scope) answer := by
  simp only [releaseWorkingTreeAndTakeNext, bind, Option.bind_eq_some_iff] at h
  obtain ⟨now', -, granted', -, h⟩ := h
  refine ⟨now', granted', ?_⟩
  split_ifs at h ⊢ <;> cases h <;> rfl

theorem reclaim_isHandOver {t : WorkingTree} {why : WhyTheLeaseIsForfeit}
    {holderKey holderExpires now grantedExpires : String}
    {answer : List QueuedTrigger × WorkingTree}
    (h : reclaimAForfeitLeaseAndTakeNext toUtc t holderKey holderExpires now grantedExpires why =
      some answer) :
    IsHandOver t holderKey (forfeitRow toUtc why holderKey holderExpires now) answer := by
  simp only [reclaimAForfeitLeaseAndTakeNext, bind, Option.bind_eq_some_iff] at h
  obtain ⟨now', hnow, granted', -, h⟩ := h
  have hrow : forfeitRow toUtc why holderKey holderExpires now =
      why.names holderKey holderExpires now' := by
    funext row
    rw [forfeitRow, hnow]
    rfl
  refine ⟨now', granted', ?_⟩
  rw [hrow]
  split_ifs at h ⊢ <;> cases h <;> rfl

theorem forfeitRow_scope {why : WhyTheLeaseIsForfeit} {holderKey holderExpires now : String}
    {row : Lease} (h : forfeitRow toUtc why holderKey holderExpires now row) :
    row.scopeKey = holderKey := by
  rw [forfeitRow, Option.any_eq_true] at h
  obtain ⟨_, -, h⟩ := h
  cases why <;> simp [WhyTheLeaseIsForfeit.names] at h
  · exact h.1.1
  · exact h.1

end HandOver

/-! ## What a hand-over takes -/

/-- The entry whose claim area is next: the first of another area than the outgoing one, and of the
outgoing one where there is no other. -/
def Next (outgoing : String) (queue : List QueuedTrigger) (head : QueuedTrigger) : Prop :=
  head ∈ queue ∧
    (head.scopeKey ≠ outgoing ∧
        (∀ q ∈ queue, q.scopeKey ≠ outgoing → queueOrderKey head ≤ queueOrderKey q) ∨
      (∀ q ∈ queue, q.scopeKey = outgoing) ∧ ∀ q ∈ queue, queueOrderKey head ≤ queueOrderKey q)

theorem nextScope_eq_none {outgoing : String} {queue : List QueuedTrigger} :
    nextScope outgoing queue = none ↔ queue = [] := by
  rw [nextScope, Option.map_eq_none_iff, List.argmin_eq_none]

theorem nextScope_eq_some {outgoing scope : String} {queue : List QueuedTrigger}
    (h : nextScope outgoing queue = some scope) :
    ∃ head, Next outgoing queue head ∧ head.scopeKey = scope := by
  rw [nextScope, Option.map_eq_some_iff] at h
  obtain ⟨head, hmin, hscope⟩ := h
  refine ⟨head, ⟨List.argmin_mem hmin, ?_⟩, hscope⟩
  have hle : ∀ q ∈ queue,
      toLex (decide (head.scopeKey = outgoing), queueOrderKey head) ≤
        toLex (decide (q.scopeKey = outgoing), queueOrderKey q) :=
    fun q hq => List.le_of_mem_argmin (f := fun q : QueuedTrigger =>
      toLex (decide (q.scopeKey = outgoing), queueOrderKey q)) hq hmin
  by_cases hout : head.scopeKey = outgoing
  · -- the outgoing area comes first only where there is no other
    have hall : ∀ q ∈ queue, q.scopeKey = outgoing := by
      intro q hq
      by_contra hne
      have h := hle q hq
      rw [decide_eq_true hout, decide_eq_false hne, Prod.Lex.toLex_le_toLex] at h
      rcases h with h | ⟨h, -⟩
      · exact absurd h (not_lt.mpr (Bool.false_le _))
      · cases h
    refine .inr ⟨hall, fun q hq => ?_⟩
    have h := hle q hq
    rw [decide_eq_true hout, decide_eq_true (hall q hq), Prod.Lex.toLex_le_toLex] at h
    simpa using h
  · refine .inl ⟨hout, fun q hq hne => ?_⟩
    have h := hle q hq
    rw [decide_eq_false hout, decide_eq_false hne, Prod.Lex.toLex_le_toLex] at h
    simpa using h

/-- What `take_queue_scope` does to the queue. -/
structure TookScope (outgoing : String) (queue taken rest : List QueuedTrigger) (scope : String) :
    Prop where
  next : ∃ head, Next outgoing queue head ∧ head.scopeKey = scope
  mem_taken : ∀ q, q ∈ taken ↔ q ∈ queue ∧ q.scopeKey = scope
  rest_eq : rest = queue.filter fun q => q.scopeKey ≠ scope
  perm : (taken ++ rest).Perm queue
  sorted : taken.Pairwise fun a b => queueOrderKey a ≤ queueOrderKey b

theorem takeQueueScope_spec (outgoing : String) (queue : List QueuedTrigger) :
    queue = [] ∧ takeQueueScope outgoing queue = ([], []) ∨
      ∃ scope, TookScope outgoing queue (takeQueueScope outgoing queue).1
        (takeQueueScope outgoing queue).2 scope := by
  unfold takeQueueScope
  cases hnext : nextScope outgoing queue with
  | none =>
    obtain rfl := nextScope_eq_none.mp hnext
    exact .inl ⟨rfl, rfl⟩
  | some scope =>
    refine .inr ⟨scope, nextScope_eq_some hnext, ?_, rfl, ?_, ?_⟩
    · intro q
      simp [List.mem_insertionSort]
    · refine ((List.perm_insertionSort _ _).append_right _).trans ?_
      simpa using List.filter_append_perm (fun q => decide (q.scopeKey = scope)) queue
    · exact List.pairwise_insertionSort _ _

/-- The entries a hand-over takes and leaves are those of the queue. -/
theorem handTheWorkingTreeOn_perm (t : WorkingTree) (outgoing now grantedExpires : String) :
    ((handTheWorkingTreeOn t outgoing now grantedExpires).1 ++
      (handTheWorkingTreeOn t outgoing now grantedExpires).2.queue).Perm t.queue := by
  rcases takeQueueScope_spec outgoing t.queue with ⟨hq, htake⟩ | ⟨scope, htook⟩
  · unfold handTheWorkingTreeOn
    rw [htake, hq]
    rfl
  · exact htook.perm

/-- A hand-over leaves the row deleted only where nobody waits. -/
theorem handTheWorkingTreeOn_free {t : WorkingTree} {outgoing now grantedExpires : String}
    (h : (handTheWorkingTreeOn t outgoing now grantedExpires).2.lease = none) :
    (handTheWorkingTreeOn t outgoing now grantedExpires).2.queue = [] := by
  rcases takeQueueScope_spec outgoing t.queue with ⟨hq, htake⟩ | ⟨scope, htook⟩
  · unfold handTheWorkingTreeOn
    rw [htake]
  · obtain ⟨head, hnext, hscope⟩ := htook.next
    have hmem := (htook.mem_taken head).mpr ⟨hnext.1, hscope⟩
    unfold handTheWorkingTreeOn at h
    rw [Option.map_eq_none_iff, List.head?_eq_none_iff] at h
    rw [h] at hmem
    cases hmem

section HandOver

variable {t : WorkingTree} {outgoing : String} {deletes : Lease → Bool}
  {answer : List QueuedTrigger × WorkingTree}

theorem IsHandOver.perm (h : IsHandOver t outgoing deletes answer) :
    (answer.1 ++ answer.2.queue).Perm t.queue := by
  obtain ⟨now, grantedExpires, rfl⟩ := h
  split_ifs
  · exact handTheWorkingTreeOn_perm t outgoing now grantedExpires
  · exact .refl _

theorem IsHandOver.lastId_eq (h : IsHandOver t outgoing deletes answer) :
    answer.2.lastId = t.lastId := by
  obtain ⟨now, grantedExpires, rfl⟩ := h
  split_ifs <;> rfl

/-- After it the copy is free only where nobody waits, or where it was free before. -/
theorem IsHandOver.free (h : IsHandOver t outgoing deletes answer)
    (hfree : answer.2.lease = none) :
    answer.2.queue = [] ∨ t.lease = none ∧ answer = ([], t) := by
  obtain ⟨now, grantedExpires, rfl⟩ := h
  split_ifs at hfree ⊢
  · exact .inl (handTheWorkingTreeOn_free hfree)
  · exact .inr ⟨hfree, rfl⟩

end HandOver

end NexusFlow.Chat
