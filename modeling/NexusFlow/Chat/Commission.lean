import Mathlib.Logic.Function.Basic
import Mathlib.Logic.Relation
import NexusFlow.Chat.WorkingTree

/-!
# A waiting commission

Model of `acquire_or_queue` (`crates/chat/src/orchestration.rs:1633-2038`): a trigger takes the
working copy or waits in the queue. Between two of its calls on the store anything may happen, so
the call is a sequence of `Stage`s, each with one read, one park or one store call. What the tables do
not decide is arbitrary: whether a process of the holder lives, how a park ends, whether an area lies
in the holder's.

A holder that has run out and still writes, or whose work could not be parked, *pins* the copy: the
trigger waits without a last attempt to take it.

* `nobody_is_forgotten`: in every run in which a trigger that waits behind a pinned copy finds a lease
  row when it comes to arm its tick, whoever waits is behind a lease row or has a tick, whoever starts
  waits nowhere, and whoever waits is in the queue or in one other caller's hands.
* `pinned_commission_forgotten`: the holder releases to an empty queue before the trigger is in it.
-/

namespace NexusFlow.Chat

open Relation

/-! ## The call -/

/-- The arguments of a call, and the bound `operation_lease_expiry` derives for it. -/
structure Commission where
  scope : WorkScope
  entry : QueuedTrigger
  now : String
  expires : String

/-- What a call keeps of its entry in the queue: the id, whether the copy is pinned, and the holder it
waits behind. -/
structure Ticket where
  id : ℤ
  pinned : Bool
  behind : Option String
  deriving DecidableEq, Repr

/-- How far a call is. -/
inductive Stage
  | idle
  /-- `expired_but_still_writing` -/
  | readsRow
  | readsHolder (key : String)
  | asksLiveness (key : String)
  /-- `the_queue_goes_before_a_newcomer` -/
  | newcomerReadsRow
  | newcomerReadsHolder (key expires : String)
  | asksRefusal (key expires : String)
  | parks (key expires : String)
  | reclaims (key expires : String)
  | handsOn
  /-- `acquire_or_queue` -/
  | acquires
  | readsBehind
  | acquiresAgain
  | readsBehindAgain
  | asksArea (holder : String)
  | enqueues (pinned : Bool) (behind : Option String)
  | lastAttempt (ticket : Ticket)
  | takesBack (ticket : Ticket)
  | notesContention (ticket : Ticket)
  | readsBound (ticket : Ticket)
  | arms (ticket : Ticket)
  | readsPosition (ticket : Ticket)
  /-- The answers, an error, and the end of a call that gave the copy back or took it away. -/
  | started
  | parked (ticket : Ticket) (position : Nat)
  | failed
  | gaveBack
  deriving DecidableEq, Repr

/-- The call's entry in the queue. -/
def Stage.ticket : Stage → Option Ticket
  | .lastAttempt ticket | .takesBack ticket | .notesContention ticket | .readsBound ticket
  | .arms ticket | .readsPosition ticket | .parked ticket _ => some ticket
  | _ => none

/-- The call is not in progress. -/
def Stage.over : Stage → Bool
  | .idle | .started | .parked .. | .failed | .gaveBack => true
  | _ => false

/-- The reads of a call. `utc` is the UTC form of an instant, `yes` answers what the tables do not
say: a process of the holder lives, its park is refused, a park ends with the copy kept, the area lies
in the holder's. None at a stage that does not read. -/
def Stage.read (utc : String → String) (t : WorkingTree) (k : Commission) (yes : Bool) :
    Stage → Option Stage
  | .idle => some .readsRow
  | .readsRow =>
    match t.lease with
    | none => some .newcomerReadsRow
    | some row =>
      if row.scopeKey = k.scope.key then some .newcomerReadsRow else some (.readsHolder row.scopeKey)
  | .readsHolder key =>
    if ((workingTreeHolder (some ∘ utc) t k.now).join).isSome || (WorkScope.parse key).isNone then
      some .newcomerReadsRow
    else some (.asksLiveness key)
  | .asksLiveness key => some (if yes then .enqueues true (some key) else .newcomerReadsRow)
  | .newcomerReadsRow =>
    match t.lease with
    | none => some .acquires
    | some row =>
      if row.scopeKey = k.scope.key then some .acquires
      else some (.newcomerReadsHolder row.scopeKey row.expires)
  | .newcomerReadsHolder key expires =>
    if ((workingTreeHolder (some ∘ utc) t k.now).join).isSome || (WorkScope.parse key).isNone then
      some .acquires
    else some (.asksRefusal key expires)
  | .asksRefusal key expires => some (if yes then .enqueues true (some key) else .parks key expires)
  | .parks key expires => some (if yes then .enqueues true (some key) else .reclaims key expires)
  | .readsBehind =>
    match (workingTreeHolder (some ∘ utc) t k.now).join with
    | some holder => some (.asksArea holder)
    | none => some .acquiresAgain
  | .readsBehindAgain =>
    match (workingTreeHolder (some ∘ utc) t k.now).join with
    | some holder => some (.asksArea holder)
    | none => some (.enqueues false none)
  | .asksArea holder => some (if yes then .started else .enqueues false (some holder))
  | .readsBound ticket =>
    match t.lease with
    | some _ => some (.arms ticket)
    | none => some (.readsPosition ticket)
  | .readsPosition ticket =>
    some (.parked ticket ((workingTreeQueuePosition t ticket.id).getD 1))
  | _ => none

/-! ## The run -/

variable {ι : Type} [DecidableEq ι]

/-- The tables, the calls, who queued which entry, the entries a tick was armed for, and the entries
that were handed to a caller. -/
structure Workshop (ι : Type) where
  tree : WorkingTree
  stage : ι → Stage
  queued : List (ι × ℤ)
  armed : List ℤ
  handed : List (ι × QueuedTrigger)

/-- A device nobody has worked on. -/
def Workshop.start : Workshop ι := ⟨WorkingTree.free, fun _ => .idle, [], [], []⟩

/-- A call goes on. -/
def Workshop.goto (w : Workshop ι) (c : ι) (stage : Stage) : Workshop ι :=
  { w with stage := Function.update w.stage c stage }

/-- A store call that hands the copy on, and the stage its caller is at after it. -/
def Workshop.handOver (w : Workshop ι) (c : ι) (stage : Stage)
    (answer : Option (List QueuedTrigger × WorkingTree)) : Workshop ι :=
  match answer with
  | none => w.goto c .failed
  | some (entries, tree) => { w.goto c stage with
      tree := tree
      handed := w.handed ++ entries.map fun entry => (c, entry) }

/-- The compare-and-swap, and the stages after it. -/
def Workshop.tryAcquire (w : Workshop ι) (utc : String → String) (k : Commission) (c : ι)
    (won lost : Stage) : Workshop ι :=
  match acquireWorkingTree (some ∘ utc) w.tree k.scope k.now k.expires with
  | none => w.goto c .failed
  | some (got, tree) => { w.goto c (if got then won else lost) with tree := tree }

/-- The store calls of a call. `grantedExpires` is the bound a hand-over writes, `since` what
`note_the_contention` writes, if anything. -/
def Workshop.write (w : Workshop ι) (utc : String → String) (k : Commission) (c : ι)
    (grantedExpires : String) (since : Option (Option String)) : Workshop ι :=
  match w.stage c with
  | .reclaims key expires =>
    w.handOver c .handsOn
      (reclaimExpiredWorkingTreeAndTakeNext (some ∘ utc) w.tree key expires k.now grantedExpires)
  | .handsOn => w.goto c .acquires
  | .acquires => w.tryAcquire utc k c .started .readsBehind
  | .acquiresAgain => w.tryAcquire utc k c .started .readsBehindAgain
  | .enqueues pinned behind =>
    match enqueueWorkingTree (some ∘ utc) w.tree k.entry k.now with
    | none => w.goto c .failed
    | some (id, tree) =>
      { w.goto c (if pinned then .notesContention ⟨id, pinned, behind⟩
          else .lastAttempt ⟨id, pinned, behind⟩) with
        tree := tree
        queued := (c, id) :: w.queued }
  | .lastAttempt ticket => w.tryAcquire utc k c (.takesBack ticket) (.notesContention ticket)
  | .takesBack ticket =>
    { w.goto c (if (removeWorkingTreeQueueEntry w.tree ticket.id).1 then .started
        else .parked ticket 1) with
      tree := (removeWorkingTreeQueueEntry w.tree ticket.id).2 }
  | .notesContention ticket =>
    { w.goto c (.readsBound ticket) with
      tree := (since.bind fun since =>
        noteWorkingTreeContention (some ∘ utc) w.tree since).getD w.tree }
  | .arms ticket =>
    { w.goto c (.readsPosition ticket) with
      armed := if k.entry.thread.isSome then ticket.id :: w.armed else w.armed }
  | _ => w

/-- The call reads the holder's bound next. -/
def Stage.boundTicket : Stage → Option Ticket
  | .readsBound ticket => some ticket
  | _ => none

/-- The call that comes to arm its tick behind a pinned copy finds a lease row, unless its entry was
taken. -/
def Workshop.Backed (w : Workshop ι) (c : ι) : Prop :=
  ∀ ticket ∈ (w.stage c).boundTicket, ticket.pinned = true → w.tree.lease = none →
    ticket.id ∉ w.tree.queue.map QueuedTrigger.id

instance (w : Workshop ι) (c : ι) : Decidable (w.Backed c) :=
  inferInstanceAs (Decidable (∀ ticket ∈ (w.stage c).boundTicket, ticket.pinned = true →
    w.tree.lease = none → ticket.id ∉ w.tree.queue.map QueuedTrigger.id))

/-- The next step of a call: a read, with the answer to what the tables do not say, or a store call. -/
def Workshop.next (w : Workshop ι) (utc : String → String) (k : Commission) (c : ι) (yes : Bool) :
    Workshop ι :=
  match (w.stage c).read utc w.tree k yes with
  | some stage => w.goto c stage
  | none => w.write utc k c "" none

/-- One read, park or store call, of a call that `ok` lets go on. A call of `acquire_or_queue`
hands the copy on again while none of the entries it was given starts. -/
inductive WorkshopStep (utc : String → String) (commission : ι → Commission)
    (ok : Workshop ι → ι → Prop) : Workshop ι → Workshop ι → Prop
  | read {w : Workshop ι} (c : ι) (yes : Bool) {stage : Stage} (hok : ok w c)
      (hread : (w.stage c).read utc w.tree (commission c) yes = some stage) :
    WorkshopStep utc commission ok w (w.goto c stage)
  | write {w : Workshop ι} (c : ι) (grantedExpires : String) (since : Option (Option String))
      (hok : ok w c) :
    WorkshopStep utc commission ok w (w.write utc (commission c) c grantedExpires since)
  | handOnAgain {w : Workshop ι} (c : ι) (hstage : w.stage c = .handsOn) (scope : WorkScope)
      (now grantedExpires : String) :
    WorkshopStep utc commission ok w (w.handOver c .handsOn
      (releaseWorkingTreeAndTakeNext (some ∘ utc) w.tree scope now grantedExpires))
  | release {w : Workshop ι} (c : ι) (hstage : w.stage c = .idle) (scope : WorkScope)
      (now grantedExpires : String) :
    WorkshopStep utc commission ok w (w.handOver c .gaveBack
      (releaseWorkingTreeAndTakeNext (some ∘ utc) w.tree scope now grantedExpires))
  | reclaim {w : Workshop ι} (c : ι) (hstage : w.stage c = .idle) (why : WhyTheLeaseIsForfeit)
      (holderKey holderExpires now grantedExpires : String) :
    WorkshopStep utc commission ok w (w.handOver c .gaveBack (reclaimAForfeitLeaseAndTakeNext
      (some ∘ utc) w.tree holderKey holderExpires now grantedExpires why))

/-! ## What is expected -/

/-- The ids in the queue. -/
def Workshop.waiting (w : Workshop ι) : List ℤ := w.tree.queue.map QueuedTrigger.id

/-- The ids that were handed to a caller. -/
def Workshop.handedIds (w : Workshop ι) : List ℤ := w.handed.map fun e => e.2.id

/-- No commission is forgotten. -/
structure NobodyForgotten (w : Workshop ι) : Prop where
  /-- While no call is in progress, whoever waits is behind a lease row or has a tick. -/
  waits : (∀ c, (w.stage c).over) → ∀ id ∈ w.waiting, w.tree.lease ≠ none ∨ id ∈ w.armed
  /-- Whoever starts left no entry in the queue, and nobody was handed one. -/
  starts : ∀ c, w.stage c = .started → ∀ id, (c, id) ∈ w.queued →
    id ∉ w.waiting ∧ id ∉ w.handedIds
  /-- Whoever waits has its entry in the queue, or in exactly one other caller's hands. -/
  parked : ∀ c ticket position, w.stage c = .parked ticket position →
    (c, ticket.id) ∈ w.queued ∧
      (ticket.id ∈ w.waiting ∧ ticket.id ∉ w.handedIds ∨
        ticket.id ∉ w.waiting ∧ ∃ d entry, d ≠ c ∧
          w.handed.filter (fun e => e.2.id = ticket.id) = [(d, entry)])

/-! ## What a run keeps -/

/-- The call will try to take the copy, or look who has it, with its entry in the queue. -/
def Stage.WillLook (id : ℤ) : Stage → Prop
  | .lastAttempt ticket => ticket.id = id
  | .notesContention ticket | .readsBound ticket => ticket.pinned = true ∧ ticket.id = id
  | _ => False

/-- A call without an entry looks after none. -/
theorem not_willLook {s : Stage} (h : s.ticket = none) (id : ℤ) : ¬ s.WillLook id := by
  intro hlook
  cases s with
  | lastAttempt | notesContention | readsBound => cases h
  | _ => exact hlook

/-- What a run keeps. -/
structure Workshop.Inv (w : Workshop ι) : Prop where
  once : (w.handedIds ++ w.waiting).Nodup
  bound : ∀ id, id ∈ w.handedIds ∨ id ∈ w.waiting ∨ id ∈ w.queued.map Prod.snd →
    id ≤ w.tree.lastId
  owners : (w.queued.map Prod.snd).Nodup
  holds : ∀ c ticket, (w.stage c).ticket = some ticket →
    (c, ticket.id) ∈ w.queued ∧ (ticket.id ∈ w.waiting ∨ ticket.id ∈ w.handedIds)
  tickets : ∀ c id, (c, id) ∈ w.queued →
    (∃ ticket, (w.stage c).ticket = some ticket ∧ ticket.id = id) ∨
      w.stage c = .started ∧ id ∉ w.waiting ∧ id ∉ w.handedIds
  others : ∀ d entry, (d, entry) ∈ w.handed → (d, entry.id) ∉ w.queued
  /-- While the copy is free, somebody comes back for each entry. -/
  woken : w.tree.lease = none → ∀ id ∈ w.waiting, id ∈ w.armed ∨ ∃ c, (w.stage c).WillLook id

omit [DecidableEq ι] in
theorem Workshop.Inv.start : (Workshop.start : Workshop ι).Inv := by
  constructor
  · exact List.nodup_nil
  · rintro id (h | h | h) <;> cases h
  · exact List.nodup_nil
  · intro c ticket h
    cases h
  · intro c id h
    cases h
  · intro d entry h
    cases h
  · intro _ id h
    cases h

variable {w : Workshop ι}

omit [DecidableEq ι] in
/-- A call without an entry has queued none. -/
theorem Workshop.Inv.notMem_queued (h : w.Inv) {c : ι} (hticket : (w.stage c).ticket = none)
    (hstarted : w.stage c ≠ .started) (id : ℤ) : (c, id) ∉ w.queued := by
  intro hmem
  rcases h.tickets c id hmem with ⟨ticket, hsome, -⟩ | ⟨hstart, -⟩
  · rw [hticket] at hsome
    cases hsome
  · exact hstarted hstart

/-- A call goes on with its entry where it is; what it does to the row leaves none without one. -/
theorem Workshop.Inv.move {w' : Workshop ι} (h : w.Inv) {c : ι} {stage : Stage}
    (hstage : w'.stage = Function.update w.stage c stage) (hqueued : w'.queued = w.queued)
    (hhanded : w'.handed = w.handed) (hqueue : w'.tree.queue = w.tree.queue)
    (hlast : w'.tree.lastId = w.tree.lastId) (harmed : w.armed ⊆ w'.armed)
    (hticket : stage.ticket = (w.stage c).ticket) (hstarted : w.stage c ≠ .started)
    (hwoken : w'.tree.lease = none → w.tree.lease = none ∧
      ∀ id ∈ w.waiting, (w.stage c).WillLook id → stage.WillLook id ∨ id ∈ w'.armed) :
    w'.Inv := by
  have hwaiting : w'.waiting = w.waiting := by rw [Workshop.waiting, hqueue]; rfl
  have hids : w'.handedIds = w.handedIds := by rw [Workshop.handedIds, hhanded]; rfl
  have htickets : ∀ d, (w'.stage d).ticket = (w.stage d).ticket := by
    intro d
    by_cases hd : d = c
    · subst hd
      rw [hstage, Function.update_self, hticket]
    · rw [hstage, Function.update_of_ne hd]
  constructor
  · rw [hwaiting, hids]
    exact h.once
  · rw [hwaiting, hids, hqueued, hlast]
    exact h.bound
  · rw [hqueued]
    exact h.owners
  · intro d ticket hd
    rw [htickets] at hd
    rw [hwaiting, hids, hqueued]
    exact h.holds d ticket hd
  · intro d id hd
    rw [hqueued] at hd
    rw [hwaiting, hids, htickets]
    rcases h.tickets d id hd with hsome | ⟨hstart, hgone⟩
    · exact .inl hsome
    · refine .inr ⟨?_, hgone⟩
      rw [hstage, Function.update_of_ne]
      · exact hstart
      · rintro rfl
        exact hstarted hstart
  · rw [hhanded, hqueued]
    exact h.others
  · intro hlease id hid
    obtain ⟨hfree, hlook⟩ := hwoken hlease
    rw [hwaiting] at hid
    rcases h.woken hfree id hid with harm | ⟨d, hd⟩
    · exact .inl (harmed harm)
    · by_cases hdc : d = c
      · subst hdc
        rcases hlook id hid hd with hlook | harm
        · exact .inr ⟨d, by rw [hstage, Function.update_self]; exact hlook⟩
        · exact .inl harm
      · exact .inr ⟨d, by rw [hstage, Function.update_of_ne hdc]; exact hd⟩

/-! ## The reads -/

section Reads

variable {utc : String → String} {t : WorkingTree} {k : Commission} {yes : Bool} {s s' : Stage}

theorem read_ticket (h : s.read utc t k yes = some s') : s'.ticket = s.ticket ∧ s ≠ .started := by
  cases s <;> simp only [Stage.read] at h <;> (try split at h) <;> (try split_ifs at h) <;>
    cases h <;> exact ⟨rfl, by simp⟩

/-- Of the stages that look after an entry, only the one that reads the holder's bound is a read. -/
theorem read_willLook {id : ℤ} (h : s.read utc t k yes = some s') (hlook : s.WillLook id) :
    ∃ ticket, s = .readsBound ticket ∧ ticket.pinned = true ∧ ticket.id = id := by
  cases s with
  | lastAttempt ticket => cases h
  | notesContention ticket => cases h
  | readsBound ticket => exact ⟨ticket, rfl, hlook⟩
  | _ => exact hlook.elim

theorem Workshop.Inv.read (h : w.Inv) {c : ι} (hok : w.Backed c)
    (hread : (w.stage c).read utc w.tree k yes = some s') : (w.goto c s').Inv := by
  obtain ⟨hticket, hstarted⟩ := read_ticket hread
  refine h.move rfl rfl rfl rfl rfl (List.Subset.refl _) hticket hstarted fun hfree => ⟨hfree, ?_⟩
  intro id hid hlook
  obtain ⟨ticket, hstage, hpinned, rfl⟩ := read_willLook hread hlook
  exact absurd hid (hok ticket (by rw [hstage]; rfl) hpinned hfree)

end Reads

/-! ## The store calls -/

section Writes

variable {utc : String → String} {k : Commission} {c : ι}

theorem Workshop.Inv.handOver (h : w.Inv) (hticket : (w.stage c).ticket = none)
    (hstarted : w.stage c ≠ .started) {stage : Stage} (hstage : stage.ticket = none)
    {outgoing : String} {deletes : Lease → Bool}
    {answer : Option (List QueuedTrigger × WorkingTree)}
    (ha : ∀ a, answer = some a → IsHandOver w.tree outgoing deletes a) :
    (w.handOver c stage answer).Inv := by
  cases answer with
  | none =>
    exact h.move rfl rfl rfl rfl rfl (List.Subset.refl _) hticket.symm hstarted
      fun hfree => ⟨hfree, fun id _ hl => absurd hl (not_willLook hticket id)⟩
  | some answer =>
    have ha := ha _ rfl
    obtain ⟨entries, tree⟩ := answer
    set w' := w.handOver c stage (some (entries, tree)) with hw'
    have hperm : (entries.map QueuedTrigger.id ++ w'.waiting).Perm w.waiting := by
      have hp := ha.perm.map QueuedTrigger.id
      rwa [List.map_append] at hp
    have hids : w'.handedIds = w.handedIds ++ entries.map QueuedTrigger.id := by
      rw [hw', Workshop.handedIds]
      show (w.handed ++ entries.map fun entry => (c, entry)).map _ = _
      rw [List.map_append, List.map_map]
      rfl
    have hmem : ∀ id, id ∈ w'.waiting ∨ id ∈ w'.handedIds ↔ id ∈ w.waiting ∨ id ∈ w.handedIds := by
      intro id
      rw [hids, List.mem_append, ← hperm.mem_iff, List.mem_append]
      tauto
    have hstageOf : ∀ d, d ≠ c → w'.stage d = w.stage d := fun d hd => Function.update_of_ne hd _ _
    have hown : ∀ id, (c, id) ∉ w.queued := h.notMem_queued hticket hstarted
    constructor
    · rw [hids, List.append_assoc]
      exact (hperm.append_left _).nodup_iff.mpr h.once
    · intro id hid
      rw [show w'.tree.lastId = w.tree.lastId from ha.lastId_eq]
      refine h.bound id ?_
      rcases hid with hid | hid | hid
      · exact ((hmem id).mp (.inr hid)).elim (fun hw => .inr (.inl hw)) .inl
      · exact ((hmem id).mp (.inl hid)).elim (fun hw => .inr (.inl hw)) .inl
      · exact .inr (.inr hid)
    · exact h.owners
    · intro d ticket hd
      by_cases hdc : d = c
      · subst hdc
        rw [show w'.stage d = stage from Function.update_self ..] at hd
        rw [hstage] at hd
        cases hd
      · rw [hstageOf d hdc] at hd
        exact ⟨(h.holds d ticket hd).1, (hmem _).mpr (h.holds d ticket hd).2⟩
    · intro d id hd
      have hdc : d ≠ c := by
        rintro rfl
        exact hown id hd
      rw [hstageOf d hdc]
      rcases h.tickets d id hd with hsome | ⟨hstart, hwaiting, hhanded⟩
      · exact .inl hsome
      · have hgone : ¬ (id ∈ w'.waiting ∨ id ∈ w'.handedIds) := by
          rw [hmem]
          tauto
        exact .inr ⟨hstart, fun hw => hgone (.inl hw), fun hw => hgone (.inr hw)⟩
    · intro d entry hd
      rcases List.mem_append.mp hd with hd | hd
      · exact h.others d entry hd
      · obtain ⟨entry', -, heq⟩ := List.mem_map.mp hd
        cases heq
        exact hown _
    · intro hfree id hid
      rcases ha.free hfree with hnone | ⟨hbefore, heq⟩
      · rw [Workshop.waiting, show w'.tree.queue = [] from hnone] at hid
        cases hid
      · cases heq
        rcases h.woken hbefore id hid with harm | ⟨d, hd⟩
        · exact .inl harm
        · refine .inr ⟨d, ?_⟩
          rw [hstageOf d]
          · exact hd
          · rintro rfl
            exact not_willLook hticket id hd

/-- After the compare-and-swap, won or lost, somebody has the copy. -/
theorem Workshop.Inv.tryAcquire (h : w.Inv) (hstarted : w.stage c ≠ .started) {won lost : Stage}
    (hwon : won.ticket = (w.stage c).ticket) (hlost : lost.ticket = (w.stage c).ticket) :
    (w.tryAcquire utc k c won lost).Inv := by
  unfold Workshop.tryAcquire
  cases hcall : acquireWorkingTree (some ∘ utc) w.tree k.scope k.now k.expires with
  | none =>
    simp only [acquireWorkingTree, Function.comp_apply, bind, Option.bind_some] at hcall
    cases hlease : w.tree.lease with
    | none => simp [hlease] at hcall
    | some row =>
      simp only [hlease] at hcall
      split_ifs at hcall
  | some answer =>
    obtain ⟨now, expires, -, -, ha⟩ := acquireWorkingTree_cases hcall
    cases ha with
    | fresh | inherited | reclaimed =>
      exact h.move rfl rfl rfl rfl rfl (List.Subset.refl _) hwon hstarted fun hfree => by cases hfree
    | refused hrow =>
      refine h.move rfl rfl rfl rfl rfl (List.Subset.refl _) hlost hstarted fun hfree => ?_
      rw [show w.tree.lease = none from hfree] at hrow
      cases hrow

theorem Workshop.Inv.enqueue (h : w.Inv) (hticket : (w.stage c).ticket = none)
    (hstarted : w.stage c ≠ .started) {answer : ℤ × WorkingTree}
    (hcall : enqueueWorkingTree (some ∘ utc) w.tree k.entry k.now = some answer) {stage : Stage}
    {ticket : Ticket} (hid : ticket.id = answer.1) (hstage : stage.ticket = some ticket)
    (hlook : stage.WillLook answer.1) :
    Workshop.Inv { w.goto c stage with
      tree := answer.2
      queued := (c, answer.1) :: w.queued } := by
  obtain ⟨enqueuedAt, -, rfl⟩ := enqueueWorkingTree_spec hcall
  set id : ℤ := w.tree.lastId + 1 with hidDef
  set w' : Workshop ι := { w.goto c stage with
    tree := _
    queued := (c, id) :: w.queued } with hw'
  have hfresh : ∀ id', id' ∈ w.handedIds ∨ id' ∈ w.waiting ∨ id' ∈ w.queued.map Prod.snd →
      id' ≠ id := by
    intro id' hmem
    have hle := h.bound id' hmem
    omega
  have hwaiting : w'.waiting = w.waiting ++ [id] := by
    show (w.tree.queue ++ [_]).map QueuedTrigger.id = _
    rw [List.map_append]
    rfl
  have hstageOf : ∀ d, d ≠ c → w'.stage d = w.stage d := fun d hd => Function.update_of_ne hd _ _
  have hstageSelf : w'.stage c = stage := Function.update_self ..
  have hlast : (w'.tree.lastId : ℤ) = w.tree.lastId + 1 := by
    show ((w.tree.lastId + 1 : ℕ) : ℤ) = _
    push_cast
    rfl
  constructor
  · rw [hwaiting, ← List.append_assoc]
    refine List.nodup_append.mpr ⟨h.once, List.nodup_singleton _, ?_⟩
    intro a ha b hb
    rw [List.mem_singleton.mp hb]
    exact hfresh a ((List.mem_append.mp ha).imp_right .inl)
  · intro id' hmem
    rw [hlast]
    rw [hwaiting, List.mem_append, List.mem_singleton] at hmem
    have hcases : (id' ∈ w.handedIds ∨ id' ∈ w.waiting ∨ id' ∈ w.queued.map Prod.snd) ∨ id' = id := by
      rcases hmem with hmem | (hmem | hmem) | hmem
      · exact .inl (.inl hmem)
      · exact .inl (.inr (.inl hmem))
      · exact .inr hmem
      · rcases List.mem_cons.mp hmem with hmem | hmem
        · exact .inr hmem
        · exact .inl (.inr (.inr hmem))
    rcases hcases with hold | rfl
    · have hle := h.bound id' hold
      omega
    · exact le_rfl
  · refine List.nodup_cons.mpr ⟨?_, h.owners⟩
    intro hmem
    exact hfresh id (.inr (.inr hmem)) rfl
  · intro d ticket' hd
    by_cases hdc : d = c
    · subst hdc
      rw [hstageSelf, hstage] at hd
      cases hd
      rw [hid]
      exact ⟨List.mem_cons_self, .inl (by rw [hwaiting]; exact List.mem_append_right _ (by simp))⟩
    · rw [hstageOf d hdc] at hd
      obtain ⟨hq, hw⟩ := h.holds d ticket' hd
      refine ⟨List.mem_cons_of_mem _ hq, hw.imp_left fun hw => ?_⟩
      rw [hwaiting]
      exact List.mem_append_left _ hw
  · intro d id' hd
    rcases List.mem_cons.mp hd with heq | hold
    · cases heq
      exact .inl ⟨ticket, by rw [hstageSelf, hstage], hid⟩
    · have hdc : d ≠ c := by
        rintro rfl
        exact h.notMem_queued hticket hstarted id' hold
      rw [hstageOf d hdc]
      refine (h.tickets d id' hold).imp_right fun ⟨hstart, hnw, hnh⟩ => ⟨hstart, ?_, hnh⟩
      rw [hwaiting, List.mem_append, List.mem_singleton]
      rintro (hw | rfl)
      · exact hnw hw
      · exact hfresh id (.inr (.inr (List.mem_map_of_mem (f := Prod.snd) hold))) rfl
  · intro d entry hd hq
    rcases List.mem_cons.mp hq with heq | hq
    · exact hfresh entry.id
        (.inl (List.mem_map_of_mem (f := fun e : ι × QueuedTrigger => e.2.id) hd))
        (Prod.mk.inj heq).2
    · exact h.others d entry hd hq
  · intro hfree id' hid'
    rw [hwaiting, List.mem_append, List.mem_singleton] at hid'
    rcases hid' with hid' | rfl
    · rcases h.woken hfree id' hid' with harm | ⟨d, hd⟩
      · exact .inl harm
      · refine .inr ⟨d, ?_⟩
        rw [hstageOf d]
        · exact hd
        · rintro rfl
          exact not_willLook hticket id' hd
    · exact .inr ⟨c, by rw [hstageSelf]; exact hlook⟩

theorem Workshop.Inv.takeBack (h : w.Inv) {ticket : Ticket} (hstage : w.stage c = .takesBack ticket) :
    Workshop.Inv { w.goto c (if (removeWorkingTreeQueueEntry w.tree ticket.id).1 then .started
        else .parked ticket 1) with
      tree := (removeWorkingTreeQueueEntry w.tree ticket.id).2 } := by
  obtain ⟨hqueued, hwhere⟩ := h.holds c ticket (by rw [hstage]; rfl)
  by_cases hthere : (removeWorkingTreeQueueEntry w.tree ticket.id).1
  · simp only [if_pos hthere]
    set w' : Workshop ι := { w.goto c .started with
      tree := (removeWorkingTreeQueueEntry w.tree ticket.id).2 } with hw'
    have hmem : ∀ id, id ∈ w'.waiting ↔ id ∈ w.waiting ∧ id ≠ ticket.id := by
      intro id
      show id ∈ (w.tree.queue.filter fun q => q.id ≠ ticket.id).map QueuedTrigger.id ↔ _
      simp only [Workshop.waiting, List.mem_map, List.mem_filter, decide_eq_true_eq]
      constructor
      · rintro ⟨q, ⟨hq, hne⟩, rfl⟩
        exact ⟨⟨q, hq, rfl⟩, hne⟩
      · rintro ⟨⟨q, hq, rfl⟩, hne⟩
        exact ⟨q, ⟨hq, hne⟩, rfl⟩
    have hin : ticket.id ∈ w.waiting := by
      obtain ⟨q, hq, hid⟩ := List.any_eq_true.mp hthere
      exact List.mem_map.mpr ⟨q, hq, of_decide_eq_true hid⟩
    have hstageOf : ∀ d, d ≠ c → w'.stage d = w.stage d := fun d hd => Function.update_of_ne hd _ _
    have hstageSelf : w'.stage c = .started := Function.update_self ..
    have hsub : w'.waiting.Sublist w.waiting := List.filter_sublist.map _
    constructor
    · exact (hsub.append_left _).nodup h.once
    · intro id hid
      exact h.bound id (hid.imp_right fun hid => hid.imp_left fun hw => ((hmem id).mp hw).1)
    · exact h.owners
    · intro d ticket' hd
      by_cases hdc : d = c
      · subst hdc
        rw [hstageSelf] at hd
        cases hd
      · rw [hstageOf d hdc] at hd
        obtain ⟨hq, hw⟩ := h.holds d ticket' hd
        refine ⟨hq, hw.imp_left fun hw => (hmem _).mpr ⟨hw, fun heq => hdc ?_⟩⟩
        -- no two calls have one entry
        rw [heq] at hq
        exact congrArg Prod.fst (List.inj_on_of_nodup_map h.owners hq hqueued rfl)
    · intro d id hd
      by_cases hdc : d = c
      · subst hdc
        have hid : ticket.id = id := by
          rcases h.tickets d id hd with ⟨ticket', hsome, hid⟩ | ⟨hstart, -⟩
          · rw [hstage] at hsome
            cases hsome
            exact hid
          · rw [hstage] at hstart
            cases hstart
        subst hid
        refine .inr ⟨hstageSelf, fun hw => ((hmem _).mp hw).2 rfl, fun hh => ?_⟩
        exact (List.nodup_append.mp h.once).2.2 _ hh _ hin rfl
      · rw [hstageOf d hdc]
        exact (h.tickets d id hd).imp_right fun ⟨hstart, hnw, hnh⟩ =>
          ⟨hstart, fun hw => hnw ((hmem id).mp hw).1, hnh⟩
    · exact h.others
    · intro hfree id hid
      rcases h.woken hfree id ((hmem id).mp hid).1 with harm | ⟨d, hd⟩
      · exact .inl harm
      · refine .inr ⟨d, ?_⟩
        rw [hstageOf d]
        · exact hd
        · rintro rfl
          rw [hstage] at hd
          exact hd
  · simp only [if_neg hthere]
    have hqueue : (removeWorkingTreeQueueEntry w.tree ticket.id).2.queue = w.tree.queue := by
      refine List.filter_eq_self.mpr fun q hq => decide_eq_true fun hid => hthere ?_
      exact List.any_eq_true.mpr ⟨q, hq, decide_eq_true hid⟩
    refine h.move rfl rfl rfl hqueue rfl (List.Subset.refl _) (by rw [hstage]; rfl)
      (by rw [hstage]; simp) fun hfree => ⟨hfree, fun id _ hlook => ?_⟩
    rw [hstage] at hlook
    exact hlook.elim

theorem Workshop.Inv.noteContention (h : w.Inv) {ticket : Ticket}
    (hstage : w.stage c = .notesContention ticket) (since : Option (Option String)) :
    Workshop.Inv { w.goto c (.readsBound ticket) with
      tree := (since.bind fun since =>
        noteWorkingTreeContention (some ∘ utc) w.tree since).getD w.tree } := by
  have hnote : ∀ tree, (since.bind fun since =>
      noteWorkingTreeContention (some ∘ utc) w.tree since).getD w.tree = tree →
      tree.queue = w.tree.queue ∧ tree.lastId = w.tree.lastId ∧
        (tree.lease = none → w.tree.lease = none) := by
    rintro tree rfl
    cases since with
    | none => exact ⟨rfl, rfl, fun hnone => hnone⟩
    | some since =>
      cases since <;> exact ⟨rfl, rfl, fun hnone => Option.map_eq_none_iff.mp hnone⟩
  obtain ⟨hqueue, hlast, hlease⟩ := hnote _ rfl
  refine h.move rfl rfl rfl hqueue hlast (List.Subset.refl _) (by rw [hstage]; rfl)
    (by rw [hstage]; simp) fun hfree => ⟨hlease hfree, fun id _ hlook => .inl ?_⟩
  rw [hstage] at hlook
  exact hlook

/-- **A store call.** -/
theorem Workshop.Inv.write (h : w.Inv) (grantedExpires : String)
    (since : Option (Option String)) : (w.write utc k c grantedExpires since).Inv := by
  unfold Workshop.write
  cases hstage : w.stage c with
  | reclaims key expires =>
    exact h.handOver (by rw [hstage]; rfl) (by rw [hstage]; simp) rfl fun _ => reclaim_isHandOver
  | handsOn =>
    exact h.move rfl rfl rfl rfl rfl (List.Subset.refl _) (by rw [hstage]; rfl)
      (by rw [hstage]; simp) fun hfree => ⟨hfree, fun id _ hlook => by
        rw [hstage] at hlook
        exact hlook.elim⟩
  | acquires => exact h.tryAcquire (by rw [hstage]; simp) (by rw [hstage]; rfl) (by rw [hstage]; rfl)
  | acquiresAgain =>
    exact h.tryAcquire (by rw [hstage]; simp) (by rw [hstage]; rfl) (by rw [hstage]; rfl)
  | enqueues pinned behind =>
    simp only
    cases hcall : enqueueWorkingTree (some ∘ utc) w.tree k.entry k.now with
    | none =>
      exact h.move rfl rfl rfl rfl rfl (List.Subset.refl _) (by rw [hstage]; rfl)
        (by rw [hstage]; simp) fun hfree => ⟨hfree, fun id _ hlook => by
          rw [hstage] at hlook
          exact hlook.elim⟩
    | some answer =>
      have hid : (⟨answer.1, pinned, behind⟩ : Ticket).id = answer.1 := rfl
      refine h.enqueue (by rw [hstage]; rfl) (by rw [hstage]; simp) hcall hid ?_ ?_
      · split_ifs <;> rfl
      · split_ifs with hpinned
        · exact ⟨hpinned, rfl⟩
        · rfl
  | lastAttempt ticket =>
    exact h.tryAcquire (by rw [hstage]; simp) (by rw [hstage]; rfl) (by rw [hstage]; rfl)
  | takesBack ticket => exact h.takeBack hstage
  | notesContention ticket => exact h.noteContention hstage since
  | arms ticket =>
    refine h.move rfl rfl rfl rfl rfl ?_ (by rw [hstage]; rfl) (by rw [hstage]; simp)
      fun hfree => ⟨hfree, fun id _ hlook => ?_⟩
    · simp only
      split_ifs
      · exact List.subset_cons_self _ _
      · exact List.Subset.refl _
    · rw [hstage] at hlook
      exact hlook.elim
  | _ => exact h

end Writes

/-! ## The result -/

section Result

variable {utc : String → String} {commission : ι → Commission}

/-- **One step.** -/
theorem Workshop.Inv.step {w' : Workshop ι} (h : w.Inv)
    (hstep : WorkshopStep utc commission Workshop.Backed w w') : w'.Inv := by
  cases hstep with
  | read c yes hok hread => exact h.read hok hread
  | write c grantedExpires since hok => exact h.write grantedExpires since
  | handOnAgain c hstage scope now grantedExpires =>
    exact h.handOver (by rw [hstage]; rfl) (by rw [hstage]; simp) rfl fun _ => release_isHandOver
  | release c hstage scope now grantedExpires =>
    exact h.handOver (by rw [hstage]; rfl) (by rw [hstage]; simp) rfl fun _ => release_isHandOver
  | reclaim c hstage why holderKey holderExpires now grantedExpires =>
    exact h.handOver (by rw [hstage]; rfl) (by rw [hstage]; simp) rfl fun _ => reclaim_isHandOver

omit [DecidableEq ι] in
theorem Workshop.Inv.nobodyForgotten (h : w.Inv) : NobodyForgotten w := by
  constructor
  · intro hover id hid
    by_cases hfree : w.tree.lease = none
    · rcases h.woken hfree id hid with harm | ⟨c, hlook⟩
      · exact .inr harm
      · have hc := hover c
        cases hstage : w.stage c with
        | lastAttempt | notesContention | readsBound =>
          rw [hstage] at hc
          cases hc
        | _ =>
          rw [hstage] at hlook
          exact hlook.elim
    · exact .inl hfree
  · intro c hstart id hid
    rcases h.tickets c id hid with ⟨ticket, hsome, -⟩ | ⟨-, hgone⟩
    · rw [hstart] at hsome
      cases hsome
    · exact hgone
  · intro c ticket position hstage
    obtain ⟨hqueued, hwhere⟩ := h.holds c ticket (by rw [hstage]; rfl)
    refine ⟨hqueued, ?_⟩
    by_cases hw : ticket.id ∈ w.waiting
    · exact .inl ⟨hw, fun hh => (List.nodup_append.mp h.once).2.2 _ hh _ hw rfl⟩
    · obtain ⟨⟨d, entry⟩, hmem, hid⟩ := List.mem_map.mp (hwhere.resolve_left hw)
      refine .inr ⟨hw, d, entry, ?_, ?_⟩
      · rintro rfl
        exact h.others d entry hmem (hid ▸ hqueued)
      · rw [← hid]
        exact filter_eq_singleton (List.nodup_append.mp h.once).1 hmem

end Result

/-- **No commission is forgotten**, where a trigger behind a pinned copy finds a lease row. -/
theorem nobody_is_forgotten (utc : String → String) (commission : ι → Commission) (w : Workshop ι)
    (hrun : ReflTransGen (WorkshopStep utc commission Workshop.Backed) Workshop.start w) :
    NobodyForgotten w := by
  refine Workshop.Inv.nobodyForgotten ?_
  induction hrun with
  | refl => exact .start
  | tail _ hstep ih => exact ih.step hstep

/-! ## Two runs -/

theorem next_step {utc : String → String} {commission : ι → Commission}
    {ok : Workshop ι → ι → Prop} {w : Workshop ι} {c : ι} (hok : ok w c) (yes : Bool) :
    WorkshopStep utc commission ok w (w.next utc (commission c) c yes) := by
  unfold Workshop.next
  cases hread : (w.stage c).read utc w.tree (commission c) yes with
  | none => exact .write c "" none hok
  | some stage => exact .read c yes hok hread

/-- The steps of some calls, one after another. -/
def Workshop.nexts (utc : String → String) (commission : ι → Commission) (w : Workshop ι)
    (steps : List (ι × Bool)) : Workshop ι :=
  steps.foldl (fun w e => w.next utc (commission e.1) e.1 e.2) w

theorem nexts_run {utc : String → String} {commission : ι → Commission}
    {ok : Workshop ι → ι → Prop} (steps : List (ι × Bool)) (w : Workshop ι)
    (hok : ∀ n < steps.length, ∀ e ∈ steps[n]?,
      ok (Workshop.nexts utc commission w (steps.take n)) e.1) :
    ReflTransGen (WorkshopStep utc commission ok) w (Workshop.nexts utc commission w steps) := by
  induction steps generalizing w with
  | nil => exact .refl
  | cons e steps ih =>
    refine .head (next_step (hok 0 (by simp) e (by simp)) e.2) (ih _ ?_)
    intro n hn e' he'
    exact hok (n + 1) (by simpa using hn) e' (by simpa using he')

/-- Two triggers, of the areas `a` and `b`. -/
def sampleCommission : Fin 3 → Commission
  | 0 => ⟨.thread "a", ⟨0, "thread:a", "coder", "s-a", some "a", "go", none, 0, .normal, none⟩,
      "2026-01-01T00:00:00Z", "2026-01-01T02:00:00Z"⟩
  | _ => ⟨.thread "b", ⟨0, "thread:b", "coder", "s-b", some "b", "go", none, 0, .normal, none⟩,
      "2026-01-01T03:00:00Z", "2026-01-01T05:00:00Z"⟩

/-- `a` takes the copy. When `b` comes, the lease has run out and a process of `a` still writes. -/
def pinnedWorkshop : Workshop (Fin 3) :=
  Workshop.nexts id sampleCommission Workshop.start
    [(0, false), (0, false), (0, false), (0, false), (1, false), (1, false), (1, false), (1, true)]

/-- `b` waits behind `a`. -/
def parkedWorkshop : Workshop (Fin 3) :=
  Workshop.nexts id sampleCommission pinnedWorkshop
    [(1, false), (1, false), (1, false), (1, false), (1, false)]

theorem nobody_is_forgotten_parked :
    NobodyForgotten parkedWorkshop ∧ parkedWorkshop.waiting = [1] ∧ parkedWorkshop.armed = [1] := by
  refine ⟨nobody_is_forgotten id sampleCommission _ ((nexts_run _ _ ?_).trans (nexts_run _ _ ?_)),
    by decide, by decide⟩
  · decide
  · decide

/-- `a` gives the copy back to an empty queue before `b` is in it. -/
def forgottenWorkshop : Workshop (Fin 3) :=
  Workshop.nexts id sampleCommission
    (pinnedWorkshop.handOver 2 .gaveBack (releaseWorkingTreeAndTakeNext (some ∘ id)
      pinnedWorkshop.tree (.thread "a") "2026-01-01T03:00:00Z" "2026-01-01T05:00:00Z"))
    [(1, false), (1, false), (1, false), (1, false)]

/-- **A commission nobody starts.** Both calls have ended, the entry of `b` is in the queue, nobody
has the copy, and no tick is armed. -/
theorem pinned_commission_forgotten :
    ReflTransGen (WorkshopStep id sampleCommission fun _ _ => True) Workshop.start
      forgottenWorkshop ∧
    (∀ c, (forgottenWorkshop.stage c).over) ∧ forgottenWorkshop.waiting = [1] ∧
    forgottenWorkshop.tree.lease = none ∧ forgottenWorkshop.armed = [] := by
  refine ⟨(((nexts_run _ _ fun _ _ _ _ => trivial).tail (.release 2 (by decide) _ _ _)).trans
    (nexts_run _ _ fun _ _ _ _ => trivial)), by decide, by decide,
    by decide, by decide⟩

end NexusFlow.Chat
