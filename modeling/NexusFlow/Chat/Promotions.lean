import Mathlib.Data.List.Forall2
import NexusFlow.Chat.WorkingTree
import NexusFlow.Lib.KeyMap

/-!
# A hand-off started to its end

`release_and_fire` (`crates/chat/src/orchestration.rs:2440-2648,2762-2781`): the copy is taken from
its holder, and whoever is next is started. An area nobody of which could be started gives the copy
on at once, so a hand-off is a loop; its later steps go back into the very queue the next turn takes
from.

What decides whether an entry waits, and what starting one comes to, is a parameter: `Answers` gives
the answer to the question asked of an entry in a turn. `failed_starts` (`crates/chat/src/schema.rs:
594-610`, `working_tree.rs:1771-1903`) is keyed by the session.

* `hand_off_settles`: a hand-off ends within one turn more than there are entries, and each entry is
  then in one place.
* `hand_off_loses_shared_session`: two entries of one session share one record.
-/

namespace NexusFlow.Chat

/-! ## Failed starts -/

/-- `FAILED_START_ERROR_MAX`. -/
def failedStartErrorMax : Nat := 500

/-- `cut_to`. -/
def cutTo (text : String) (max : Nat) : String :=
  if text.toList.length ≤ max then text else String.ofList (text.toList.take max) ++ "…"

/-- A row of `failed_starts`: the trigger as the queue had it, and what became of it. -/
structure FailedStart where
  entry : QueuedTrigger
  firstFailedAt : String
  lastFailedAt : String
  attempts : Nat
  error : String
  retryAt : Option String
  inFlightUntil : Option String
  deriving DecidableEq, Repr

/-- The error of a start: whether it is of the kind `io`, and its text. -/
structure StartError where
  isIo : Bool
  text : String
  deriving DecidableEq, Repr

/-- The lease, its queue and the failed starts. -/
structure Desk where
  tree : WorkingTree
  failed : Lib.KeyMap String FailedStart

/-- The date library, as the hand-off uses it, and the instants it is made at. -/
structure Instants where
  toUtc : String → Option String
  toUtcWholeSeconds : String → Option String
  instantAfter : String → Nat → Option String
  now : String
  grantedUntil : String

/-- `record_failed_start`: the number of failures. A row that is there keeps its trigger. -/
def recordFailedStart (clock : Instants) (d : Desk) (entry : QueuedTrigger) (error : String) :
    Option (Nat × Desk) := do
  let now ← clock.toUtc clock.now
  let enqueuedAt ← clock.toUtc (entry.enqueuedAt.getD now)
  let row : FailedStart := match d.failed.get entry.session with
    | none => ⟨{ entry with id := 0, enqueuedAt := some enqueuedAt }, now, now, 1,
        cutTo error failedStartErrorMax, none, none⟩
    | some row => { row with
        lastFailedAt := now
        attempts := row.attempts + 1
        error := cutTo error failedStartErrorMax
        retryAt := none
        inFlightUntil := none }
  return (row.attempts, { d with failed := d.failed.insert entry.session row })

/-- `schedule_failed_start_retry`. -/
def scheduleFailedStartRetry (clock : Instants) (d : Desk) (session instant : String) :
    Option Desk := do
  let retryAt ← clock.toUtcWholeSeconds instant
  return match d.failed.get session with
    | none => d
    | some row => { d with failed := d.failed.insert session { row with retryAt := some retryAt } }

/-- `forget_failed_start`. -/
def forgetFailedStart (d : Desk) (session : String) : Desk :=
  { d with failed := d.failed.erase session }

/-- `MAX_START_ATTEMPTS`. -/
def maxStartAttempts : Nat := 3

/-- `START_RETRY_SPACING_SECS`. -/
def startRetrySpacingSecs : Nat := 60

/-- `note_the_failed_start` with `schedule_the_retry`: the record, and a retry where waiting can
help. A write that fails leaves the tables; the finding it is named in is left out. -/
def noteTheFailedStart (clock : Instants) (d : Desk) (entry : QueuedTrigger) (e : StartError) :
    Desk :=
  match recordFailedStart clock d entry e.text with
  | none => d
  | some (attempts, d) =>
    if !e.isIo then d
    else if maxStartAttempts ≤ attempts then d
    else ((clock.instantAfter clock.now (startRetrySpacingSecs * attempts)).bind
      (scheduleFailedStartRetry clock d entry.session)).getD d

/-! ## Starting an entry -/

/-- `PromotedTrigger`. -/
structure PromotedTrigger where
  thread : String
  role : String
  session : String
  deriving DecidableEq, Repr

/-- `PromotedTrigger::of`. -/
def PromotedTrigger.ofEntry (entry : QueuedTrigger) : PromotedTrigger :=
  ⟨entry.thread.getD "", entry.role, entry.session⟩

/-- `Promotions`, without the findings; and, for the account, the entries that were fired, whatever
came of it. -/
structure Promotions where
  started : List PromotedTrigger
  requeued : List PromotedTrigger
  deferred : List PromotedTrigger
  failed : List PromotedTrigger
  fired : List QueuedTrigger
  deriving DecidableEq, Repr

/-- `Promotions::default`. -/
def Promotions.none : Promotions := ⟨[], [], [], [], []⟩

/-- What starting an entry comes to. An entry queued again is queued under the claim area its thread
is in now, at the depth its session has reached. -/
inductive Admission
  | spawned
  | queued (scope : WorkScope) (depth : Nat)
  | failed (e : StartError)
  deriving DecidableEq, Repr

/-- One start: its admission, and the lease row its acquire wrote, if it wrote one. -/
structure Firing where
  admission : Admission
  row : Option Lease
  deriving DecidableEq, Repr

/-- Where an entry goes: `one_step_per_ordered_run`'s answer. -/
inductive Verdict
  | start
  | wait
  | undecided
  deriving DecidableEq, Repr

/-- What is answered, turn by turn. -/
structure Answers where
  judge : Nat → QueuedTrigger → Verdict
  fire : Nat → QueuedTrigger → Firing

/-- The lease after a start. -/
def Desk.wrote (d : Desk) (row : Option Lease) : Desk :=
  match row with
  | none => d
  | some row => { d with tree := { d.tree with lease := some row } }

/-- The entry as `queued_entry` writes it again. -/
def QueuedTrigger.again (entry : QueuedTrigger) (scope : WorkScope) (depth : Nat) : QueuedTrigger :=
  { entry with scopeKey := scope.key, depth := depth }

/-- `enqueue_working_tree`, on the desk. -/
def Desk.enqueue (clock : Instants) (d : Desk) (entry : QueuedTrigger) : Option Desk :=
  (enqueueWorkingTree clock.toUtc d.tree entry clock.now).map fun r => { d with tree := r.2 }

/-- `fire_queued_trigger`: a start that got through forgets an earlier one that did not, and one
that could not be queued again has failed. -/
def fireQueuedTrigger (clock : Instants) (d : Desk) (entry : QueuedTrigger) (f : Firing) :
    Desk × Admission :=
  match f.admission with
  | .spawned => (forgetFailedStart (d.wrote f.row) entry.session, .spawned)
  | .failed e => (d.wrote f.row, .failed e)
  | .queued scope depth =>
    match (d.wrote f.row).enqueue clock (entry.again scope depth) with
    | some d => (d, .queued scope depth)
    | none => (d.wrote f.row, .failed ⟨true, "enqueue"⟩)

/-- `fire_promoted`. -/
def firePromoted (clock : Instants) (d : Desk) (out : Promotions) (entry : QueuedTrigger)
    (f : Firing) : Desk × Promotions :=
  let out := { out with fired := out.fired ++ [entry] }
  match fireQueuedTrigger clock d entry f with
  | (d, .spawned) => (d, { out with started := out.started ++ [.ofEntry entry] })
  | (d, .queued _ _) => (d, { out with requeued := out.requeued ++ [.ofEntry entry] })
  | (d, .failed e) => (noteTheFailedStart clock d entry e,
      { out with failed := out.failed ++ [.ofEntry entry] })

/-- The entries of a turn, started one after the other. -/
def fireAll (clock : Instants) (fire : QueuedTrigger → Firing) :
    List QueuedTrigger → Desk → Promotions → Desk × Promotions
  | [], d, out => (d, out)
  | entry :: entries, d, out =>
    let (d, out) := firePromoted clock d out entry (fire entry)
    fireAll clock fire entries d out

/-- `put_back_in_line`: an entry that cannot be put back is a failed start. -/
def putBackInLine (clock : Instants) : List QueuedTrigger → Desk → Promotions → Desk × Promotions
  | [], d, out => (d, out)
  | entry :: wait, d, out =>
    match d.enqueue clock entry with
    | some d => putBackInLine clock wait d { out with deferred := out.deferred ++ [.ofEntry entry] }
    | none => putBackInLine clock wait (noteTheFailedStart clock d entry ⟨true, "enqueue"⟩)
        { out with failed := out.failed ++ [.ofEntry entry] }

/-! ## The hand-off -/

/-- `HandOff`. -/
inductive HandOff
  | released (scope : WorkScope)
  | expired (holderKey expires : String)
  | deadHolder (holderKey expires : String)
  deriving DecidableEq, Repr

/-- The first move of a hand-off. -/
def HandOff.take (clock : Instants) (t : WorkingTree) :
    HandOff → Option (List QueuedTrigger × WorkingTree)
  | .released scope =>
    releaseWorkingTreeAndTakeNext clock.toUtc t scope clock.now clock.grantedUntil
  | .expired holderKey expires =>
    reclaimExpiredWorkingTreeAndTakeNext clock.toUtc t holderKey expires clock.now
      clock.grantedUntil
  | .deadHolder holderKey expires =>
    reclaimADeadHoldersWorkingTreeAndTakeNext clock.toUtc t holderKey expires clock.now
      clock.grantedUntil

/-- The entries of a turn that are started: those whose turn it is, then those nothing could be
found out about. They are off the queue already. -/
def starts (judge : QueuedTrigger → Verdict) (next : List QueuedTrigger) : List QueuedTrigger :=
  next.filter (judge · = .start) ++ next.filter (judge · = .undecided)

/-- The entries of a turn that go back in line. -/
def waits (judge : QueuedTrigger → Verdict) (next : List QueuedTrigger) : List QueuedTrigger :=
  next.filter (judge · = .wait)

/-- The loop of `release_and_fire`, one unit of fuel a turn: none where the fuel runs out, or a
release fails. -/
def handOffLoop (clock : Instants) (answers : Answers) :
    Nat → Nat → List QueuedTrigger → Desk → Promotions → Option (Promotions × Desk)
  | 0, _, _, _, _ => none
  | _ + 1, _, [], d, out => some (out, d)
  | fuel + 1, turn, first :: rest, d, out =>
    let start := starts (answers.judge turn) (first :: rest)
    let wait := waits (answers.judge turn) (first :: rest)
    if start.isEmpty then
      let (d, out) := putBackInLine clock wait d out
      some (out, d)
    else
      let (d₁, out₁) := fireAll clock (answers.fire turn) start d out
      let (d₂, out₂) := putBackInLine clock wait d₁ out₁
      if out.started.length < out₂.started.length ∨ out.requeued.length < out₂.requeued.length then
        some (out₂, d₂)
      else
        match WorkScope.parse first.scopeKey with
        | none => some (out₂, d₂)
        | some granted =>
          match releaseWorkingTreeAndTakeNext clock.toUtc d₂.tree granted clock.now
            clock.grantedUntil with
          | none => none
          | some (next, tree) =>
            handOffLoop clock answers fuel (turn + 1) next { d₂ with tree := tree } out₂

/-- `release_and_fire`. -/
def releaseAndFire (clock : Instants) (answers : Answers) (fuel : Nat) (d : Desk)
    (handOff : HandOff) : Option (Promotions × Desk) :=
  match handOff.take clock d.tree with
  | none => none
  | some (next, tree) => handOffLoop clock answers fuel 0 next { d with tree := tree } .none

/-! ## What is expected -/

/-- The entry, whatever id the queue gave it. -/
def QueuedTrigger.unnumbered (q : QueuedTrigger) : QueuedTrigger := { q with id := 0 }

/-- The entry has an instant, as the queue writes it. -/
def QueuedTrigger.Stamped (toUtc : String → Option String) (q : QueuedTrigger) : Prop :=
  ∃ i, q.enqueuedAt = some i ∧ toUtc i = some i

/-- The record of a start that failed. It names the entry, unless the session was on record. -/
structure OnRecord (clock : Instants) (before : Option FailedStart) (entry : QueuedTrigger)
    (row : FailedStart) : Prop where
  trigger : row.entry = (before.map FailedStart.entry).getD entry.unnumbered
  attempts : row.attempts = (before.map FailedStart.attempts).getD 0 + 1
  failedAt : clock.toUtc clock.now = some row.lastFailedAt

/-- The entry queued again: by its firing, under another area and depth. -/
def IsAgain (entry row : QueuedTrigger) : Prop :=
  ∃ scope depth, row.unnumbered = (entry.again scope depth).unnumbered

/-- The places of the entries of a queue. -/
structure Places where
  kept : List QueuedTrigger
  started : List QueuedTrigger
  requeued : List QueuedTrigger
  failed : List QueuedTrigger

/-- Where the entries of the desk `d` are on the desk `d'`: in hand, or in one place. -/
structure Settled (clock : Instants) (d : Desk) (hands : List QueuedTrigger) (d' : Desk)
    (out : Promotions) (p : Places) : Prop where
  entries : ((hands ++ p.kept ++ p.started ++ p.requeued ++ p.failed).map
    QueuedTrigger.unnumbered).Perm (d.tree.queue.map QueuedTrigger.unnumbered)
  queue : ∃ again, List.Forall₂ IsAgain p.requeued again ∧ d'.tree.queue.Perm (p.kept ++ again)
  started : out.started = p.started.map .ofEntry
  requeued : out.requeued = p.requeued.map .ofEntry
  failed : out.failed = p.failed.map .ofEntry
  offRecord : ∀ e ∈ p.started, d'.failed.get e.session = none
  onRecord : ∀ e ∈ p.failed, ∃ row, d'.failed.get e.session = some row ∧
    OnRecord clock (d.failed.get e.session) e row
  others : ∀ s, (∀ e ∈ p.started ++ p.failed, e.session ≠ s) → d'.failed.get s = d.failed.get s
  /-- What was not fired and has failed could not be put back in line. -/
  fired : ∃ unfired, unfired ⊆ p.failed ∧
    (out.fired ++ unfired).Perm (p.started ++ p.requeued ++ p.failed)

/-- The area a hand-off takes the copy from. -/
def HandOff.outgoing : HandOff → String
  | .released scope => scope.key
  | .expired holderKey _ => holderKey
  | .deadHolder holderKey _ => holderKey

/-- The row a hand-off deletes. -/
def HandOff.deletes (clock : Instants) : HandOff → Lease → Bool
  | .released scope => ownRow scope
  | .expired holderKey expires =>
    forfeitRow clock.toUtc .itsBoundRanOut holderKey expires clock.now
  | .deadHolder holderKey expires =>
    forfeitRow clock.toUtc .itsHolderIsGone holderKey expires clock.now

/-! ## One entry -/

@[simp] theorem QueuedTrigger.session_unnumbered (q : QueuedTrigger) :
    q.unnumbered.session = q.session := rfl

theorem QueuedTrigger.Stamped.again {toUtc : String → Option String} {q : QueuedTrigger}
    (h : q.Stamped toUtc) (scope : WorkScope) (depth : Nat) : (q.again scope depth).Stamped toUtc :=
  h

section Entry

variable {clock : Instants} {d d' : Desk} {entry : QueuedTrigger}

@[simp] theorem Desk.wrote_queue (d : Desk) (row : Option Lease) :
    (d.wrote row).tree.queue = d.tree.queue := by
  cases row <;> rfl

@[simp] theorem Desk.wrote_failed (d : Desk) (row : Option Lease) :
    (d.wrote row).failed = d.failed := by
  cases row <;> rfl

theorem Desk.wrote_lease {row : Option Lease} (h : d.tree.lease ≠ none) :
    (d.wrote row).tree.lease ≠ none := by
  cases row with
  | none => exact h
  | some row => exact Option.some_ne_none row

/-- An entry is queued at the end, as it was. -/
theorem Desk.enqueue_spec (hentry : entry.Stamped clock.toUtc)
    (h : d.enqueue clock entry = some d') :
    d'.failed = d.failed ∧ d'.tree.lease = d.tree.lease ∧
      ∃ id, d'.tree.queue = d.tree.queue ++ [{ entry with id := id }] := by
  obtain ⟨i, hi, hutc⟩ := hentry
  unfold Desk.enqueue at h
  rw [Option.map_eq_some_iff] at h
  obtain ⟨answer, hanswer, rfl⟩ := h
  obtain ⟨enqueuedAt, hat, rfl⟩ := enqueueWorkingTree_spec hanswer
  rw [hi, Option.getD_some, hutc] at hat
  cases hat
  exact ⟨rfl, rfl, d.tree.lastId + 1, by rw [← hi]⟩

/-- A record of the session, with everything else as it was. -/
structure Noted (clock : Instants) (d d' : Desk) (entry : QueuedTrigger) : Prop where
  tree : d'.tree = d.tree
  row : ∃ row, d'.failed.get entry.session = some row ∧
    OnRecord clock (d.failed.get entry.session) entry row
  others : ∀ s, s ≠ entry.session → d'.failed.get s = d.failed.get s

/-- The retry that is scheduled for a record. -/
theorem Noted.scheduled {d'' : Desk} {instant : String} (h : Noted clock d d' entry)
    (hretry : scheduleFailedStartRetry clock d' entry.session instant = some d'') :
    Noted clock d d'' entry := by
  obtain ⟨row, hrow, hon⟩ := h.row
  simp only [scheduleFailedStartRetry, Option.bind_eq_bind, Option.bind_eq_some_iff] at hretry
  obtain ⟨retryAt, -, hretry⟩ := hretry
  rw [hrow] at hretry
  cases hretry
  refine ⟨h.tree, ⟨{ row with retryAt := some retryAt }, ?_, hon.trigger, hon.attempts,
    hon.failedAt⟩, fun s hs => ?_⟩
  · rw [Lib.KeyMap.get_insert, if_pos rfl]
  · rw [Lib.KeyMap.get_insert, if_neg hs, h.others s hs]

/-- **A start that fails is on record.** -/
theorem noteTheFailedStart_spec (hnow : (clock.toUtc clock.now).isSome)
    (hentry : entry.Stamped clock.toUtc) (d : Desk) (e : StartError) :
    Noted clock d (noteTheFailedStart clock d entry e) entry := by
  obtain ⟨now, hnow⟩ := Option.isSome_iff_exists.mp hnow
  obtain ⟨i, hi, hutc⟩ := hentry
  obtain ⟨attempts, noted, hrecord, hnoted⟩ : ∃ attempts noted,
      recordFailedStart clock d entry e.text = some (attempts, noted) ∧
        Noted clock d noted entry := by
    simp only [recordFailedStart, hnow, hi, Option.getD_some, hutc, Option.bind_eq_bind,
      Option.bind_some]
    refine ⟨_, _, rfl, rfl, ⟨_, by rw [Lib.KeyMap.get_insert, if_pos rfl], ?_⟩, fun s hs => by
      rw [Lib.KeyMap.get_insert, if_neg hs]⟩
    cases d.failed.get entry.session with
    | none => exact ⟨by simp [QueuedTrigger.unnumbered, hi], rfl, hnow⟩
    | some row => exact ⟨rfl, rfl, hnow⟩
  unfold noteTheFailedStart
  simp only [hrecord]
  split_ifs with hio hmax
  · exact hnoted
  · exact hnoted
  · cases hretry : (clock.instantAfter clock.now (startRetrySpacingSecs * attempts)).bind
      (scheduleFailedStartRetry clock noted entry.session) with
    | none => exact hnoted
    | some desk =>
      obtain ⟨instant, -, hretry⟩ := Option.bind_eq_some_iff.mp hretry
      exact hnoted.scheduled hretry

end Entry

/-! ## The account -/

/-- The account inside a turn: of a queue no two entries of which have one session, and the entries
that are not placed yet have the instants they were queued at. -/
structure Underway (clock : Instants) (d : Desk) (hands : List QueuedTrigger) (d' : Desk)
    (out : Promotions) (p : Places) : Prop extends Settled clock d hands d' out p where
  sessions : (d.tree.queue.map QueuedTrigger.session).Nodup
  stamped : ∀ q ∈ hands ++ p.kept, q.Stamped clock.toUtc

section Account

variable {clock : Instants} {d d₁ d₂ : Desk} {hands : List QueuedTrigger} {entry : QueuedTrigger}
  {out : Promotions} {p : Places}

/-- No two entries of the account have one session. -/
theorem Underway.nodup (h : Underway clock d hands d₁ out p) :
    ((hands ++ p.kept ++ p.started ++ p.requeued ++ p.failed).map QueuedTrigger.session).Nodup := by
  have hperm := h.entries.map QueuedTrigger.session
  simp only [List.map_map] at hperm
  exact hperm.nodup_iff.mpr h.sessions

/-- The account, its entries in hand in another order. -/
theorem Underway.perm {hands' : List QueuedTrigger} (h : Underway clock d hands d₁ out p)
    (hperm : hands'.Perm hands) : Underway clock d hands' d₁ out p where
  entries := by
    refine List.Perm.trans (List.Perm.map _ ?_) h.entries
    simp only [List.append_assoc]
    exact hperm.append_right _
  queue := h.queue
  started := h.started
  requeued := h.requeued
  failed := h.failed
  offRecord := h.offRecord
  onRecord := h.onRecord
  others := h.others
  fired := h.fired
  sessions := h.sessions
  stamped q hq := h.stamped q (by
    rw [List.mem_append, hperm.mem_iff, ← List.mem_append] at hq
    exact hq)

/-- The entry in hand is of no session placed so far. -/
theorem Underway.other_session (h : Underway clock d (entry :: hands) d₁ out p) :
    ∀ e ∈ p.started ++ p.failed, e.session ≠ entry.session := by
  intro e he heq
  have hnodup := h.nodup
  simp only [List.cons_append, List.map_cons, List.nodup_cons] at hnodup
  refine hnodup.1 (heq ▸ List.mem_map_of_mem ?_)
  simp only [List.mem_append] at he ⊢
  rcases he with he | he
  · exact .inl (.inl (.inr he))
  · exact .inr he

/-- An entry that was started. -/
theorem Underway.start (h : Underway clock d (entry :: hands) d₁ out p)
    (hqueue : d₂.tree.queue = d₁.tree.queue)
    (hfailed : ∀ s, d₂.failed.get s = if s = entry.session then none else d₁.failed.get s) :
    Underway clock d hands d₂ { out with
      started := out.started ++ [.ofEntry entry], fired := out.fired ++ [entry] }
      { p with started := p.started ++ [entry] } where
  entries := by
    refine List.Perm.trans (List.Perm.map _ ?_) h.entries
    exact List.perm_iff_count.mpr fun a => by
      simp only [List.count_append, List.count_cons, List.count_nil]
      omega
  queue := by
    rw [hqueue]
    exact h.queue
  started := by
    rw [h.started, List.map_append]
    rfl
  requeued := h.requeued
  failed := h.failed
  offRecord e he := by
    rw [hfailed]
    split_ifs with hs
    · rfl
    · rcases List.mem_append.mp he with he | he
      · exact h.offRecord e he
      · rw [List.mem_singleton] at he
        exact absurd (congrArg _ he) hs
  onRecord e he := by
    rw [hfailed, if_neg (h.other_session e (List.mem_append_right _ he))]
    exact h.onRecord e he
  others s hs := by
    have hentry : s ≠ entry.session := fun heq =>
      hs entry (by simp) heq.symm
    rw [hfailed, if_neg hentry]
    refine h.others s fun e he => hs e ?_
    simp only [List.mem_append] at he ⊢
    rcases he with he | he
    · exact .inl (.inl he)
    · exact .inr he
  fired := by
    obtain ⟨unfired, hsub, hperm⟩ := h.fired
    refine ⟨unfired, hsub, ?_⟩
    have hcount := List.perm_iff_count.mp hperm
    exact List.perm_iff_count.mpr fun a => by
      have h := hcount a
      simp only [List.count_append, List.count_cons, List.count_nil] at h ⊢
      omega
  sessions := h.sessions
  stamped q hq := h.stamped q (List.mem_cons_of_mem _ hq)

/-- An entry that has failed: fired, or not put back in line. -/
theorem Underway.fail {fired : List QueuedTrigger} (h : Underway clock d (entry :: hands) d₁ out p)
    (hqueue : d₂.tree.queue = d₁.tree.queue)
    (hrow : ∃ row, d₂.failed.get entry.session = some row ∧
      OnRecord clock (d₁.failed.get entry.session) entry row)
    (hother : ∀ s, s ≠ entry.session → d₂.failed.get s = d₁.failed.get s)
    (hfired : fired = out.fired ++ [entry] ∨ fired = out.fired) :
    Underway clock d hands d₂ { out with
      failed := out.failed ++ [.ofEntry entry], fired := fired }
      { p with failed := p.failed ++ [entry] } where
  entries := by
    refine List.Perm.trans (List.Perm.map _ ?_) h.entries
    exact List.perm_iff_count.mpr fun a => by
      simp only [List.count_append, List.count_cons, List.count_nil]
      omega
  queue := by
    rw [hqueue]
    exact h.queue
  started := h.started
  requeued := h.requeued
  failed := by
    rw [h.failed, List.map_append]
    rfl
  offRecord e he := by
    rw [hother _ (h.other_session e (List.mem_append_left _ he))]
    exact h.offRecord e he
  onRecord e he := by
    rcases List.mem_append.mp he with he | he
    · rw [hother _ (h.other_session e (List.mem_append_right _ he))]
      exact h.onRecord e he
    · rw [List.mem_singleton] at he
      rw [he, ← h.others entry.session h.other_session]
      exact hrow
  others s hs := by
    rw [hother s fun heq => hs entry (by simp) heq.symm]
    refine h.others s fun e he => hs e ?_
    simp only [List.mem_append] at he ⊢
    rcases he with he | he
    · exact .inl he
    · exact .inr (.inl he)
  fired := by
    obtain ⟨unfired, hsub, hperm⟩ := h.fired
    have hcount := List.perm_iff_count.mp hperm
    rcases hfired with rfl | rfl
    · refine ⟨unfired, fun e he => List.mem_append_left _ (hsub he), ?_⟩
      exact List.perm_iff_count.mpr fun a => by
        have h := hcount a
        simp only [List.count_append, List.count_cons, List.count_nil] at h ⊢
        omega
    · refine ⟨entry :: unfired, ?_, ?_⟩
      · intro e he
        rcases List.mem_cons.mp he with rfl | he
        · exact List.mem_append_right _ (List.mem_singleton_self _)
        · exact List.mem_append_left _ (hsub he)
      · exact List.perm_iff_count.mpr fun a => by
          have h := hcount a
          simp only [List.count_append, List.count_cons, List.count_nil] at h ⊢
          omega
  sessions := h.sessions
  stamped q hq := h.stamped q (List.mem_cons_of_mem _ hq)

/-- An entry its firing queued again. -/
theorem Underway.requeue {row : QueuedTrigger} (h : Underway clock d (entry :: hands) d₁ out p)
    (hqueue : d₂.tree.queue = d₁.tree.queue ++ [row]) (hrow : IsAgain entry row)
    (hfailed : d₂.failed = d₁.failed) :
    Underway clock d hands d₂ { out with
      requeued := out.requeued ++ [.ofEntry entry], fired := out.fired ++ [entry] }
      { p with requeued := p.requeued ++ [entry] } where
  entries := by
    refine List.Perm.trans (List.Perm.map _ ?_) h.entries
    exact List.perm_iff_count.mpr fun a => by
      simp only [List.count_append, List.count_cons, List.count_nil]
      omega
  queue := by
    obtain ⟨again, hagain, hperm⟩ := h.queue
    refine ⟨again ++ [row], List.rel_append hagain (.cons hrow .nil), ?_⟩
    rw [hqueue, ← List.append_assoc]
    exact hperm.append_right _
  started := h.started
  requeued := by
    rw [h.requeued, List.map_append]
    rfl
  failed := h.failed
  offRecord := hfailed ▸ h.offRecord
  onRecord := hfailed ▸ h.onRecord
  others := hfailed ▸ h.others
  fired := by
    obtain ⟨unfired, hsub, hperm⟩ := h.fired
    refine ⟨unfired, hsub, ?_⟩
    have hcount := List.perm_iff_count.mp hperm
    exact List.perm_iff_count.mpr fun a => by
      have h := hcount a
      simp only [List.count_append, List.count_cons, List.count_nil] at h ⊢
      omega
  sessions := h.sessions
  stamped q hq := h.stamped q (List.mem_cons_of_mem _ hq)

/-- An entry put back in line. -/
theorem Underway.putBack {row : QueuedTrigger} (h : Underway clock d (entry :: hands) d₁ out p)
    (hqueue : d₂.tree.queue = d₁.tree.queue ++ [row]) (hrow : row.unnumbered = entry.unnumbered)
    (hstamped : row.Stamped clock.toUtc) (hfailed : d₂.failed = d₁.failed)
    (deferred : List PromotedTrigger) :
    Underway clock d hands d₂ { out with deferred := deferred }
      { p with kept := p.kept ++ [row] } where
  entries := by
    refine List.Perm.trans ?_ h.entries
    exact List.perm_iff_count.mpr fun a => by
      simp only [List.map_append, List.map_cons, List.map_nil, List.count_append, List.count_cons,
        List.count_nil, hrow]
      omega
  queue := by
    obtain ⟨again, hagain, hperm⟩ := h.queue
    refine ⟨again, hagain, ?_⟩
    rw [hqueue]
    have hcount := List.perm_iff_count.mp hperm
    exact List.perm_iff_count.mpr fun a => by
      have h := hcount a
      simp only [List.count_append, List.count_cons, List.count_nil] at h ⊢
      omega
  started := h.started
  requeued := h.requeued
  failed := h.failed
  offRecord := hfailed ▸ h.offRecord
  onRecord := hfailed ▸ h.onRecord
  others := hfailed ▸ h.others
  fired := h.fired
  sessions := h.sessions
  stamped q hq := by
    rw [← List.append_assoc, List.mem_append, List.mem_singleton] at hq
    rcases hq with hq | rfl
    · exact h.stamped q (List.mem_cons_of_mem _ hq)
    · exact hstamped

/-- What a part of a turn does to the account. -/
structure Placed (clock : Instants) (d : Desk) (hands : List QueuedTrigger) (d₁ d₂ : Desk)
    (out : Promotions) (p' : Places) : Prop where
  account : Underway clock d hands d₂ out p'
  held : d₁.tree.lease ≠ none → d₂.tree.lease ≠ none

/-- **An entry is fired**, and is in one place then. -/
theorem Underway.fire (h : Underway clock d (entry :: hands) d₁ out p)
    (hnow : (clock.toUtc clock.now).isSome) (f : Firing) :
    ∃ p', Placed clock d hands d₁ (firePromoted clock d₁ out entry f).1
      (firePromoted clock d₁ out entry f).2 p' ∧ p'.kept = p.kept := by
  have hstamped : entry.Stamped clock.toUtc := h.stamped entry List.mem_cons_self
  have hfails (e : StartError) : ∃ p', Placed clock d hands d₁
      (noteTheFailedStart clock (d₁.wrote f.row) entry e)
      { out with failed := out.failed ++ [.ofEntry entry], fired := out.fired ++ [entry] } p' ∧
      p'.kept = p.kept := by
    have hnoted := noteTheFailedStart_spec hnow hstamped (d₁.wrote f.row) e
    refine ⟨_, ⟨h.fail ?_ ?_ ?_ (.inl rfl), fun hheld => ?_⟩, rfl⟩
    · rw [hnoted.tree, Desk.wrote_queue]
    · simpa using hnoted.row
    · simpa using hnoted.others
    · rw [hnoted.tree]
      exact Desk.wrote_lease hheld
  unfold firePromoted fireQueuedTrigger
  cases f.admission with
  | spawned =>
    refine ⟨_, ⟨h.start (Desk.wrote_queue _ _) fun s => ?_, Desk.wrote_lease⟩, rfl⟩
    simp [forgetFailedStart]
  | failed e => exact hfails e
  | queued scope depth =>
    cases hcall : (d₁.wrote f.row).enqueue clock (entry.again scope depth) with
    | none =>
      simp only [hcall]
      exact hfails _
    | some d₂ =>
      obtain ⟨hfailed, hlease, id, hqueue⟩ := Desk.enqueue_spec (hstamped.again scope depth) hcall
      simp only [hcall]
      rw [Desk.wrote_queue] at hqueue
      rw [Desk.wrote_failed] at hfailed
      refine ⟨_, ⟨h.requeue hqueue ⟨scope, depth, rfl⟩ hfailed, fun hheld => ?_⟩, rfl⟩
      show d₂.tree.lease ≠ none
      rw [hlease]
      exact Desk.wrote_lease hheld

theorem Underway.fireAll (hnow : (clock.toUtc clock.now).isSome)
    (fire : QueuedTrigger → Firing) {entries wait : List QueuedTrigger}
    (h : Underway clock d (entries ++ wait) d₁ out p) :
    ∃ p', Placed clock d wait d₁ (Chat.fireAll clock fire entries d₁ out).1
      (Chat.fireAll clock fire entries d₁ out).2 p' ∧ p'.kept = p.kept := by
  induction entries generalizing d₁ out p with
  | nil => exact ⟨p, ⟨h, id⟩, rfl⟩
  | cons entry entries ih =>
    obtain ⟨p₁, hfired, hkept₁⟩ := h.fire hnow (fire entry)
    obtain ⟨p₂, hrest, hkept₂⟩ := ih hfired.account
    exact ⟨p₂, ⟨hrest.account, fun hheld => hrest.held (hfired.held hheld)⟩, hkept₂.trans hkept₁⟩

theorem Underway.putBackInLine (hnow : (clock.toUtc clock.now).isSome)
    {wait : List QueuedTrigger} (h : Underway clock d wait d₁ out p) :
    ∃ p', Placed clock d [] d₁ (Chat.putBackInLine clock wait d₁ out).1
      (Chat.putBackInLine clock wait d₁ out).2 p' ∧
      p'.kept.length ≤ p.kept.length + wait.length := by
  induction wait generalizing d₁ out p with
  | nil => exact ⟨p, ⟨h, id⟩, le_rfl⟩
  | cons entry wait ih =>
    have hstamped : entry.Stamped clock.toUtc := h.stamped entry List.mem_cons_self
    unfold Chat.putBackInLine
    cases hcall : d₁.enqueue clock entry with
    | none =>
      have hnoted := noteTheFailedStart_spec hnow hstamped d₁ ⟨true, "enqueue"⟩
      obtain ⟨p', hrest, hkept⟩ := ih (h.fail (by rw [hnoted.tree]) hnoted.row
        hnoted.others (.inr rfl))
      refine ⟨p', ⟨hrest.account, fun hheld => hrest.held ?_⟩, ?_⟩
      · rw [hnoted.tree]
        exact hheld
      · simp only [List.length_cons] at hkept ⊢
        omega
    | some d₂ =>
      obtain ⟨hfailed, hlease, id, hqueue⟩ := Desk.enqueue_spec hstamped hcall
      obtain ⟨p', hrest, hkept⟩ := ih (h.putBack hqueue rfl hstamped hfailed
        (out.deferred ++ [PromotedTrigger.ofEntry entry]))
      refine ⟨p', ⟨hrest.account, fun hheld => hrest.held ?_⟩, ?_⟩
      · rw [hlease]
        exact hheld
      · simp only [List.length_append, List.length_cons, List.length_nil] at hkept ⊢
        omega

/-- The copy is handed on between two turns. -/
theorem Underway.handedOn (h : Underway clock d [] d₁ out p) (hnone : p.requeued = [])
    {next : List QueuedTrigger} {tree : WorkingTree}
    (hperm : (next ++ tree.queue).Perm d₁.tree.queue) :
    Underway clock d next { d₁ with tree := tree } out { p with kept := tree.queue } := by
  have hkept : (next ++ tree.queue).Perm p.kept := by
    obtain ⟨again, hagain, hqueue⟩ := h.queue
    rw [hnone] at hagain
    cases hagain
    rw [List.append_nil] at hqueue
    exact hperm.trans hqueue
  have hqueue : ∃ again, List.Forall₂ IsAgain p.requeued again ∧
      tree.queue.Perm (tree.queue ++ again) := ⟨[], by rw [hnone]; exact .nil, by simp⟩
  refine ⟨⟨?_, hqueue, h.started, h.requeued, h.failed, h.offRecord, h.onRecord, h.others,
    h.fired⟩, h.sessions, fun q hq => ?_⟩
  · refine List.Perm.trans (List.Perm.map _ ?_) h.entries
    simp only [List.nil_append, List.append_assoc]
    rw [← List.append_assoc]
    exact hkept.append_right _
  · exact h.stamped q (hkept.mem_iff.mp hq)

end Account

/-! ## The loop -/

/-- Each entry of a turn is started, or goes back in line. -/
theorem starts_append_waits (judge : QueuedTrigger → Verdict) (next : List QueuedTrigger) :
    (starts judge next ++ waits judge next).Perm next := by
  induction next with
  | nil => exact .refl _
  | cons q next ih =>
    have hcount := List.perm_iff_count.mp ih
    exact List.perm_iff_count.mpr fun a => by
      have h := hcount a
      simp only [starts, waits, List.count_append] at h ⊢
      cases hq : judge q <;>
        simp only [List.filter_cons, hq, reduceCtorEq, decide_true, decide_false, if_true,
          Bool.false_eq_true, if_false, List.count_cons] <;> omega

/-- After a hand-over the copy is free only where nobody was next and nobody waits. -/
theorem handTheWorkingTreeOn_nobody {t : WorkingTree} {outgoing now grantedExpires : String}
    (h : (handTheWorkingTreeOn t outgoing now grantedExpires).2.lease = none) :
    (handTheWorkingTreeOn t outgoing now grantedExpires).1 = [] ∧
      (handTheWorkingTreeOn t outgoing now grantedExpires).2.queue = [] := by
  refine ⟨?_, handTheWorkingTreeOn_free h⟩
  unfold handTheWorkingTreeOn at h ⊢
  rw [Option.map_eq_none_iff, List.head?_eq_none_iff] at h
  exact h

section Loop

variable {clock : Instants} {d : Desk} (hnow : (clock.toUtc clock.now).isSome)
  (hgranted : (clock.toUtc clock.grantedUntil).isSome) (answers : Answers)

include hnow hgranted

theorem release_isSome (t : WorkingTree) (scope : WorkScope) :
    ∃ answer, releaseWorkingTreeAndTakeNext clock.toUtc t scope clock.now clock.grantedUntil =
      some answer := by
  obtain ⟨now, hnow⟩ := Option.isSome_iff_exists.mp hnow
  obtain ⟨granted, hgranted⟩ := Option.isSome_iff_exists.mp hgranted
  simp only [releaseWorkingTreeAndTakeNext, hnow, hgranted, Option.bind_eq_bind, Option.bind_some]
  split_ifs <;> exact ⟨_, rfl⟩

/-- **The loop ends, and every entry is placed.** Each turn that goes on has lost an entry, so the
fuel of the entries that are left and one is enough. -/
theorem handOffLoop_settles (fuel turn : Nat) (next : List QueuedTrigger) (d₁ : Desk)
    (out : Promotions) (p : Places) (h : Underway clock d next d₁ out p) (hnone : p.requeued = [])
    (hfree : d₁.tree.lease = none → next = [] ∧ d₁.tree.queue = [])
    (hfuel : next.length + p.kept.length < fuel) :
    ∃ out' d' p', handOffLoop clock answers fuel turn next d₁ out = some (out', d') ∧
      Underway clock d [] d' out' p' ∧ (d'.tree.lease = none → d'.tree.queue = []) := by
  induction fuel generalizing turn next d₁ out p with
  | zero => omega
  | succ fuel ih =>
    cases hnext : next with
    | nil =>
      subst hnext
      exact ⟨out, d₁, p, rfl, h, fun hlease => (hfree hlease).2⟩
    | cons first rest =>
      rw [hnext] at h hfuel hfree
      have hheld : d₁.tree.lease ≠ none := fun hlease => by cases (hfree hlease).1
      have hparts := starts_append_waits (answers.judge turn) (first :: rest)
      unfold handOffLoop
      simp only
      generalize starts (answers.judge turn) (first :: rest) = start at hparts
      generalize waits (answers.judge turn) (first :: rest) = wait at hparts
      have hturn := h.perm hparts
      split_ifs with hempty hmoved
      · -- every entry waits: the copy stays with the area
        rw [List.isEmpty_iff.mp hempty, List.nil_append] at hturn
        obtain ⟨p', hput, -⟩ := hturn.putBackInLine hnow
        exact ⟨_, _, p', rfl, hput.account, fun hlease => absurd hlease (hput.held hheld)⟩
      · obtain ⟨p₁, hfired, -⟩ := hturn.fireAll hnow (answers.fire turn)
        obtain ⟨p₂, hput, -⟩ := hfired.account.putBackInLine hnow
        exact ⟨_, _, p₂, rfl, hput.account,
          fun hlease => absurd hlease (hput.held (hfired.held hheld))⟩
      · obtain ⟨p₁, hfired, hkept₁⟩ := hturn.fireAll hnow (answers.fire turn)
        obtain ⟨p₂, hput, hkept₂⟩ := hfired.account.putBackInLine hnow
        have hheld₂ := hput.held (hfired.held hheld)
        cases WorkScope.parse first.scopeKey with
        | none => exact ⟨_, _, p₂, rfl, hput.account, fun hlease => absurd hlease hheld₂⟩
        | some granted =>
          -- nothing of the turn was queued again
          have hnone₂ : p₂.requeued = [] := by
            rw [not_or, not_lt, not_lt] at hmoved
            have hlen := hmoved.2
            rw [hput.account.requeued, h.requeued, List.length_map, List.length_map, hnone,
              List.length_nil] at hlen
            exact List.length_eq_zero_iff.mp (by omega)
          obtain ⟨answer, hanswer⟩ := release_isSome hnow hgranted
            (Chat.putBackInLine clock wait (Chat.fireAll clock (answers.fire turn) start d₁ out).1
              (Chat.fireAll clock (answers.fire turn) start d₁ out).2).1.tree granted
          have hover := release_isHandOver hanswer
          simp only [hanswer]
          have hstart : start.length ≠ 0 := fun hlen =>
            hempty (List.isEmpty_iff.mpr (List.length_eq_zero_iff.mp hlen))
          refine ih (turn + 1) answer.1 _ _ { p₂ with kept := answer.2.queue }
            (hput.account.handedOn hnone₂ hover.perm) hnone₂ ?_ ?_
          · intro hlease
            obtain ⟨now, grantedExpires, hover⟩ := hover
            rw [hover] at hlease ⊢
            split_ifs at hlease ⊢
            · exact handTheWorkingTreeOn_nobody hlease
            · exact absurd hlease hheld₂
          · have hlen := hparts.length_eq
            have hqueue := hover.perm.length_eq
            obtain ⟨again, hagain, hperm⟩ := hput.account.queue
            rw [hnone₂] at hagain
            cases hagain
            rw [List.append_nil] at hperm
            have hkept := hperm.length_eq
            simp only [List.length_append] at hlen hqueue
            rw [hkept₁] at hkept₂
            show answer.1.length + answer.2.queue.length < fuel
            omega

/-- The first move of a hand-off is a hand-over. -/
theorem HandOff.take_isHandOver (handOff : HandOff) (t : WorkingTree) :
    ∃ answer, handOff.take clock t = some answer ∧
      IsHandOver t handOff.outgoing (handOff.deletes clock) answer := by
  have hreclaim (why : WhyTheLeaseIsForfeit) (holderKey expires : String) : ∃ answer,
      reclaimAForfeitLeaseAndTakeNext clock.toUtc t holderKey expires clock.now clock.grantedUntil
        why = some answer := by
    obtain ⟨now, hnow⟩ := Option.isSome_iff_exists.mp hnow
    obtain ⟨granted, hgranted⟩ := Option.isSome_iff_exists.mp hgranted
    simp only [reclaimAForfeitLeaseAndTakeNext, hnow, hgranted, Option.bind_eq_bind,
      Option.bind_some]
    split_ifs <;> exact ⟨_, rfl⟩
  cases handOff with
  | released scope =>
    obtain ⟨answer, hanswer⟩ := release_isSome hnow hgranted t scope
    exact ⟨answer, hanswer, release_isHandOver hanswer⟩
  | expired holderKey expires =>
    obtain ⟨answer, hanswer⟩ := hreclaim .itsBoundRanOut holderKey expires
    exact ⟨answer, hanswer, reclaim_isHandOver hanswer⟩
  | deadHolder holderKey expires =>
    obtain ⟨answer, hanswer⟩ := hreclaim .itsHolderIsGone holderKey expires
    exact ⟨answer, hanswer, reclaim_isHandOver hanswer⟩

end Loop

/-- The account of a queue before its hand-off. -/
theorem Underway.first {clock : Instants} {d : Desk} {next : List QueuedTrigger}
    {tree : WorkingTree} (hperm : (next ++ tree.queue).Perm d.tree.queue)
    (hsessions : (d.tree.queue.map QueuedTrigger.session).Nodup)
    (hstamped : ∀ q ∈ d.tree.queue, q.Stamped clock.toUtc) :
    Underway clock d next { d with tree := tree } .none ⟨tree.queue, [], [], []⟩ where
  entries := by
    simpa only [List.append_nil] using hperm.map QueuedTrigger.unnumbered
  queue := ⟨[], .nil, by simp⟩
  started := rfl
  requeued := rfl
  failed := rfl
  offRecord _ he := by cases he
  onRecord _ he := by cases he
  others _ _ := rfl
  fired := ⟨[], List.nil_subset _, .refl _⟩
  sessions := hsessions
  stamped q hq := hstamped q (hperm.mem_iff.mp hq)

/-- No two entries that were fired have one session. -/
theorem Underway.fired_once {clock : Instants} {d d' : Desk} {hands : List QueuedTrigger}
    {out : Promotions} {p : Places} (h : Underway clock d hands d' out p) :
    (out.fired.map QueuedTrigger.session).Nodup := by
  obtain ⟨unfired, -, hperm⟩ := h.fired
  have hnodup := h.nodup
  rw [List.append_assoc, List.append_assoc, ← List.append_assoc p.started, List.map_append,
    List.nodup_append] at hnodup
  have hfired := (hperm.map QueuedTrigger.session).nodup_iff.mpr hnodup.2.1
  rw [List.map_append, List.nodup_append] at hfired
  exact hfired.1

/-! ## The result -/

/-- **A hand-off ends, and each entry is in one place then.** Within one turn more than there are
entries every entry of the queue is kept in it, queued again by its firing, started, or on record;
none is fired twice. A hand-off that took the copy leaves it free only where nobody waits, and one
that did not has done nothing.

It is one session an entry: a record is found by its session. -/
theorem hand_off_settles (clock : Instants) (answers : Answers) (d : Desk) (handOff : HandOff)
    (hutc : ∀ s i, clock.toUtc s = some i → clock.toUtc i = some i)
    (hnow : (clock.toUtc clock.now).isSome) (hgranted : (clock.toUtc clock.grantedUntil).isSome)
    (hqueued : ∀ q ∈ d.tree.queue, ∃ s i, clock.toUtc s = some i ∧ q.enqueuedAt = some i)
    (hsessions : (d.tree.queue.map QueuedTrigger.session).Nodup) (fuel : Nat)
    (hfuel : d.tree.queue.length + 1 ≤ fuel) :
    ∃ out d', releaseAndFire clock answers fuel d handOff = some (out, d') ∧
      (∃ p, Settled clock d [] d' out p) ∧ (out.fired.map QueuedTrigger.session).Nodup ∧
      (d.tree.lease.any (handOff.deletes clock) →
        d'.tree.lease = none → d'.tree.queue = []) ∧
      (¬ d.tree.lease.any (handOff.deletes clock) → out = .none ∧ d' = d) := by
  have hstamped : ∀ q ∈ d.tree.queue, q.Stamped clock.toUtc := by
    intro q hq
    obtain ⟨s, i, hs, hi⟩ := hqueued q hq
    exact ⟨i, hi, hutc s i hs⟩
  obtain ⟨answer, hanswer, hover⟩ := handOff.take_isHandOver hnow hgranted d.tree
  have hperm := hover.perm
  have hfirst := Underway.first hperm hsessions hstamped
  unfold releaseAndFire
  simp only [hanswer]
  obtain ⟨now, grantedExpires, hover'⟩ := hover
  split_ifs at hover' with htook
  · have hfree : answer.2.lease = none → answer.1 = [] ∧ answer.2.queue = [] := by
      rw [hover']
      exact handTheWorkingTreeOn_nobody
    have hlen : answer.1.length + answer.2.queue.length = d.tree.queue.length := by
      rw [← List.length_append]
      exact hperm.length_eq
    obtain ⟨out, d', p, hloop, haccount, hleft⟩ := handOffLoop_settles hnow hgranted answers fuel 0
      answer.1 _ _ _ hfirst rfl hfree (by
        show answer.1.length + answer.2.queue.length < fuel
        omega)
    exact ⟨out, d', hloop, ⟨p, haccount.toSettled⟩, haccount.fired_once, fun _ => hleft,
      fun hno => absurd htook hno⟩
  · obtain ⟨fuel, rfl⟩ : ∃ n, fuel = n + 1 := ⟨fuel - 1, by omega⟩
    rw [hover'] at hfirst ⊢
    exact ⟨.none, d, rfl, ⟨_, hfirst.toSettled⟩, hfirst.fired_once,
      fun htook' => absurd htook' htook, fun _ => ⟨rfl, rfl⟩⟩

/-- A desk whose copy is with one thread, and its queue. -/
def sampleDesk (queue : List QueuedTrigger) : Desk :=
  ⟨⟨some ⟨"thread:a", "0", "9", none⟩, queue, queue.length⟩, Lib.KeyMap.empty⟩

/-- A clock whose instants are texts. -/
def sampleClock : Instants := ⟨some, some, fun s _ => some s, "5", "7"⟩

/-- A queued trigger of a role into a thread. -/
def sampleEntry (id : ℤ) (thread session message : String) : QueuedTrigger :=
  ⟨id, threadPrefix ++ thread, "coder", session, some thread, message, none, 0, .normal, some "1"⟩

/-- Two steps of one run and a trigger of another area: the first step cannot be started, so the
copy goes on. -/
theorem hand_off_settles_sample : ∃ out d', releaseAndFire sampleClock
    ⟨fun turn q => if q.session = "s2" ∧ turn = 0 then .wait else .start,
      fun _ q => ⟨if q.session = "s1" then .failed ⟨true, "timeout"⟩ else .spawned, none⟩⟩ 4
    (sampleDesk [sampleEntry 1 "b" "s1" "one", sampleEntry 2 "b" "s2" "two",
      sampleEntry 3 "c" "s3" "three"]) (.released (.thread "a")) = some (out, d') ∧
    (∃ p, Settled sampleClock (sampleDesk [sampleEntry 1 "b" "s1" "one",
      sampleEntry 2 "b" "s2" "two", sampleEntry 3 "c" "s3" "three"]) [] d' out p) ∧
    (out.fired.map QueuedTrigger.session).Nodup := by
  obtain ⟨out, d', hrun, hsettled, honce, -⟩ := hand_off_settles sampleClock
    ⟨fun turn q => if q.session = "s2" ∧ turn = 0 then .wait else .start,
      fun _ q => ⟨if q.session = "s1" then .failed ⟨true, "timeout"⟩ else .spawned, none⟩⟩
    (sampleDesk [sampleEntry 1 "b" "s1" "one", sampleEntry 2 "b" "s2" "two",
      sampleEntry 3 "c" "s3" "three"]) (.released (.thread "a")) (fun _ _ _ => rfl) rfl rfl
    (fun q hq => ⟨"1", "1", rfl, by
      simp only [sampleDesk, List.mem_cons, List.not_mem_nil, or_false] at hq
      rcases hq with rfl | rfl | rfl <;> rfl⟩)
    (by decide) 4 (by decide)
  exact ⟨out, d', hrun, hsettled, honce⟩

/-- **Two entries of one session share one record.** Both starts fail, and what the second was to do
is in no place. -/
theorem hand_off_loses_shared_session :
    (sampleDesk [sampleEntry 1 "b" "s" "one", sampleEntry 2 "b" "s" "two"]).tree.queue.map
      QueuedTrigger.message = ["one", "two"] ∧
    (releaseAndFire sampleClock ⟨fun _ _ => .start, fun _ _ => ⟨.failed ⟨false, "refused"⟩, none⟩⟩ 3
      (sampleDesk [sampleEntry 1 "b" "s" "one", sampleEntry 2 "b" "s" "two"])
      (.released (.thread "a"))).map (fun r => (r.1.started, r.1.requeued, r.2.tree.queue,
        r.2.failed.entries.map fun e => e.2.entry.message)) = some ([], [], [], ["one"]) :=
  ⟨by decide, by decide⟩

end NexusFlow.Chat
