import NexusFlow.Host.Store

/-!
# The calls of a store

What each call of the store can do, said once: a compare-and-set that succeeds found the value it
expects and changed that one key (`applyCas_ok`); `append` refuses and leaves the store, deletes the
consumed rows of a batch that is in the log already, or writes the batch (`Store.append_cases`);
`enqueue` refuses, finds the key, or writes one row (`Store.enqueue_cases`). `Store.Reached` is a
store after any calls of anybody.
-/

namespace NexusFlow.Host

open NexusFlow.Run
open NexusFlow.Lib

/-! ## One run of a table -/

@[simp] theorem setRun_self {α : Type} (table : RunId → α) (run : RunId) (rows : α) :
    setRun table run rows run = rows := if_pos rfl

theorem setRun_other {α : Type} (table : RunId → α) {run other : RunId} (rows : α)
    (h : other ≠ run) : setRun table run rows other = table other := if_neg h

/-! ## Calls that may fail -/

theorem bind_eq_ok {ε α β : Type} {x : Except ε α} {f : α → Except ε β} {b : β}
    (h : (x >>= f) = .ok b) : ∃ a, x = .ok a ∧ f a = .ok b := by
  cases x with
  | error e => cases h
  | ok a => exact ⟨a, rfl, h⟩

theorem require_eq_ok {p : Prop} [Decidable p] {error : StoreError} {u : Unit}
    (h : require p error = .ok u) : p := by
  unfold require at h
  by_contra hp
  rw [if_neg hp] at h
  cases h

/-! ## Compare-and-set -/

theorem get_writeValue (kv : KeyMap Key Value) (key k : Key) (value : Option Value) :
    (writeValue kv key value).get k = if k = key then value else kv.get k := by
  cases value with
  | none => exact kv.get_erase key k
  | some value => exact kv.get_insert key k value

/-- **What a compare-and-set does**: it finds the value it expects and writes its own, under the
checks of an owner key and of an effect's entry. -/
theorem applyCas_ok {kv kv' : KeyMap Key Value} {item : Cas} (h : applyCas kv item = .ok kv') :
    kv.get item.key = item.from ∧ checkOwner item = .ok () ∧ checkEffect kv item = .ok () ∧
      checkRising kv item = .ok () ∧ kv' = writeValue kv item.key item.to := by
  unfold applyCas at h
  obtain ⟨_, howner, h⟩ := bind_eq_ok h
  obtain ⟨_, heffect, h⟩ := bind_eq_ok h
  obtain ⟨_, hfrom, h⟩ := bind_eq_ok h
  obtain ⟨_, hrising, h⟩ := bind_eq_ok h
  cases h
  exact ⟨require_eq_ok hfrom, howner, heffect, hrising, rfl⟩

/-- The rule of a list of compare-and-sets: what each keeps, the list keeps. -/
theorem applyCasList_induct {P : KeyMap Key Value → Prop} {cas : List Cas}
    (hstep : ∀ kv kv' item, item ∈ cas → P kv → applyCas kv item = .ok kv' → P kv') :
    ∀ {kv kv' : KeyMap Key Value}, P kv → applyCasList kv cas = .ok kv' → P kv' := by
  induction cas with
  | nil =>
    intro kv kv' hP h
    cases h
    exact hP
  | cons item items ih =>
    intro kv kv' hP h
    obtain ⟨mid, hmid, h⟩ := bind_eq_ok h
    have hnext := hstep kv mid item List.mem_cons_self hP hmid
    exact ih (fun kv kv' other hmem => hstep kv kv' other (List.mem_cons_of_mem _ hmem)) hnext h

/-- **What `compare_and_set` does.** -/
theorem Store.compareAndSet_cases (s : Store) (key : Key) («from» «to» : Option Value) :
    (∃ error, s.compareAndSet key «from» «to» = (s, .error error)) ∨
      ∃ kv, applyCas s.kv ⟨key, «from», «to»⟩ = .ok kv ∧
        s.compareAndSet key «from» «to» = ({ s with kv }, .ok ()) := by
  unfold Store.compareAndSet
  cases h : applyCas s.kv ⟨key, «from», «to»⟩ with
  | error error => exact Or.inl ⟨error, rfl⟩
  | ok kv => exact Or.inr ⟨kv, rfl, rfl⟩

/-! ## `append` -/

/-- The error that says a key is in the log already. -/
def StoreError.isDuplicate : StoreError → Bool
  | .duplicateKey _ => true
  | _ => false

/-- The call does not fail for a key that is in the log already. -/
def Unduplicated {α : Type} (x : Except StoreError α) : Prop :=
  ∀ error, x = .error error → error.isDuplicate = false

namespace Unduplicated

variable {α β : Type}

theorem ok (a : α) : Unduplicated (.ok a : Except StoreError α) := fun _ h => by cases h

theorem error {error : StoreError} (h : error.isDuplicate = false) :
    Unduplicated (.error error : Except StoreError α) := fun _ he => by cases he; exact h

theorem bind {x : Except StoreError α} {f : α → Except StoreError β} (hx : Unduplicated x)
    (hf : ∀ a, Unduplicated (f a)) : Unduplicated (x >>= f) := by
  intro e he
  cases x with
  | error error =>
    cases he
    exact hx _ rfl
  | ok a => exact hf a e he

theorem require {p : Prop} [Decidable p] {error : StoreError} (h : error.isDuplicate = false) :
    Unduplicated (require p error) := by
  unfold Host.require
  split_ifs
  · exact ok ()
  · exact Unduplicated.error h

theorem currentEpoch (kv : KeyMap Key Value) (run : RunId) : Unduplicated (currentEpoch kv run) := by
  unfold Host.currentEpoch
  split
  · exact ok _
  · rename_i value _
    cases value with
    | lease lease => exact ok _
    | _ => exact Unduplicated.error rfl

theorem checkCall (events : List Envelope) (cas : List Cas) : Unduplicated (checkCall events cas) := by
  unfold Host.checkCall
  split
  · exact Unduplicated.error rfl
  · split
    · exact Unduplicated.error rfl
    · split
      · exact Unduplicated.error rfl
      · exact ok _

theorem decodeLease (key : Key) (value : Value) : Unduplicated (decodeLease key value) := by
  cases value with
  | lease lease => exact ok _
  | _ => exact Unduplicated.error rfl

theorem checkRising (kv : KeyMap Key Value) (item : Cas) : Unduplicated (checkRising kv item) := by
  unfold Host.checkRising
  split_ifs
  · unfold checkEpochKeepsRising
    split
    · exact (decodeLease _ _).bind fun _ => (decodeLease _ _).bind fun _ => require rfl
    · exact ok _
  · exact ok _

theorem checkOwner (item : Cas) : Unduplicated (checkOwner item) := by
  unfold Host.checkOwner
  split_ifs
  · unfold checkOwnerValue
    split
    · exact Unduplicated.error rfl
    · exact ok _
    · exact Unduplicated.error rfl
  · exact ok _

theorem checkEffect (kv : KeyMap Key Value) (item : Cas) : Unduplicated (checkEffect kv item) := by
  unfold Host.checkEffect
  split_ifs
  · split
    · unfold checkEffectWrite
      split
      · exact (currentEpoch _ _).bind fun _ => require rfl
      · exact Unduplicated.error rfl
    · exact ok _
  · exact ok _

theorem applyCas (kv : KeyMap Key Value) (item : Cas) : Unduplicated (applyCas kv item) :=
  (checkOwner item).bind fun _ => (checkEffect kv item).bind fun _ =>
    (require rfl).bind fun _ => (checkRising kv item).bind fun _ => ok _

theorem applyCasList (items : List Cas) : ∀ kv, Unduplicated (applyCasList kv items) := by
  induction items with
  | nil => exact fun kv => ok kv
  | cons item items ih => exact fun kv => (applyCas kv item).bind fun kv' => ih kv'

theorem appendGuard (s : Store) (run : RunId) (expectedSeq : Nat) (fence : Epoch)
    (events : List Envelope) (cas : List Cas) :
    Unduplicated (appendGuard s run expectedSeq fence events cas) :=
  (checkCall events cas).bind fun _ => (currentEpoch s.kv run).bind fun _ =>
    (require rfl).bind fun _ => (require rfl).bind fun _ => (require rfl).bind fun _ => require rfl

theorem appendWrite (s : Store) (run : RunId) (events : List Envelope) (consume : List Key)
    (cas : List Cas) : Unduplicated (appendWrite s run events consume cas) := by
  refine bind ?_ fun row => bind ?_ fun _ => (applyCasList cas s.kv).bind fun _ => ok _
  · unfold openRow
    split
    · exact ok _
    · unfold createRun
      split
      · exact ok _
      · exact Unduplicated.error rfl
    · exact Unduplicated.error rfl
  · unfold checkCommissionedPosition
    simp only
    split_ifs
    · exact Unduplicated.error rfl
    · exact ok _

end Unduplicated

/-- What `append` has checked when it reads the keys. -/
structure Guarded (s : Store) (run : RunId) (expectedSeq : Nat) (fence : Epoch)
    (events : List Envelope) (cas : List Cas) : Prop where
  call : checkCall events cas = .ok ()
  epoch : currentEpoch s.kv run = .ok (some fence)
  seq : ((s.rows run).map RunRow.lastSeq).getD 0 = expectedSeq
  version : ∀ e ∈ events, ((s.rows run).map RunRow.maxV).getD 0 ≤ e.v

theorem guarded_of_ok {s : Store} {run : RunId} {expectedSeq : Nat} {fence : Epoch}
    {events : List Envelope} {cas : List Cas}
    (h : appendGuard s run expectedSeq fence events cas = .ok ()) :
    Guarded s run expectedSeq fence events cas := by
  unfold appendGuard at h
  obtain ⟨_, hcall, h⟩ := bind_eq_ok h
  obtain ⟨epoch, hepoch, h⟩ := bind_eq_ok h
  obtain ⟨_, hfence, h⟩ := bind_eq_ok h
  obtain ⟨_, _, h⟩ := bind_eq_ok h
  obtain ⟨_, hseq, h⟩ := bind_eq_ok h
  rw [require_eq_ok hfence] at hepoch
  exact ⟨hcall, hepoch, require_eq_ok hseq, require_eq_ok h⟩

/-- What an `append` that writes does. -/
structure Written (s : Store) (run : RunId) (events : List Envelope) (consume : List Key)
    (cas : List Cas) (s' : Store) : Prop where
  row : ∃ row, openRow s run events = .ok row ∧
    checkCommissionedPosition events row.lastSeq (s.rows run) = .ok () ∧
    s'.rows = setRun s.rows run (some { row with
      lastSeq := row.lastSeq + events.length
      maxV := (events.map Envelope.v).foldl max row.maxV
      finished := row.finished || events.any fun e => isFinishedBody e.body }) ∧
    s'.events = setRun s.events run (s.events run ++ positioned row.lastSeq events)
  kv : applyCasList s.kv cas = .ok s'.kv
  inbox : s'.inbox = setRun s.inbox run (deleteRows (s.inbox run) consume)
  timers : s'.timers = setRun s.timers run (Timers.apply (s.timers run) events)

theorem written_of_ok {s s' : Store} {run : RunId} {events : List Envelope} {consume : List Key}
    {cas : List Cas} (h : appendWrite s run events consume cas = .ok s') :
    Written s run events consume cas s' := by
  unfold appendWrite at h
  obtain ⟨row, hrow, h⟩ := bind_eq_ok h
  obtain ⟨_, hposition, h⟩ := bind_eq_ok h
  obtain ⟨kv, hkv, h⟩ := bind_eq_ok h
  cases h
  exact ⟨⟨row, hrow, hposition, rfl, rfl⟩, hkv, rfl, rfl⟩

/-- **What `append` does.** -/
inductive AppendMove (s : Store) (run : RunId) (expectedSeq : Nat) (fence : Epoch)
    (events : List Envelope) (consume : List Key) (cas : List Cas) :
    Store × Except StoreError Unit → Prop
  | refused (error : StoreError) (h : error.isDuplicate = false) :
      AppendMove s run expectedSeq fence events consume cas (s, .error error)
  | duplicate (seq : Nat) (hguard : Guarded s run expectedSeq fence events cas)
      (h : duplicateOf (s.events run) events = some seq) :
      AppendMove s run expectedSeq fence events consume cas
        ({ s with inbox := setRun s.inbox run (deleteRows (s.inbox run) consume) },
          .error (.duplicateKey seq))
  | written (s' : Store) (hguard : Guarded s run expectedSeq fence events cas)
      (hnew : duplicateOf (s.events run) events = none)
      (h : Written s run events consume cas s') :
      AppendMove s run expectedSeq fence events consume cas (s', .ok ())

theorem Store.append_cases (s : Store) (run : RunId) (expectedSeq : Nat) (fence : Epoch)
    (events : List Envelope) (consume : List Key) (cas : List Cas) :
    AppendMove s run expectedSeq fence events consume cas
      (s.append run expectedSeq fence events consume cas) := by
  unfold Store.append
  cases hguard : appendGuard s run expectedSeq fence events cas with
  | error error => exact .refused error (Unduplicated.appendGuard _ _ _ _ _ _ error hguard)
  | ok u =>
    cases hdup : duplicateOf (s.events run) events with
    | some seq => exact .duplicate seq (guarded_of_ok hguard) hdup
    | none =>
      cases hwrite : appendWrite s run events consume cas with
      | error error => exact .refused error (Unduplicated.appendWrite _ _ _ _ _ error hwrite)
      | ok s' => exact .written s' (guarded_of_ok hguard) hdup (written_of_ok hwrite)

/-! ## `enqueue` -/

/-- What an `enqueue` that is accepted does. -/
structure Enqueues (s : Store) (run : RunId) (event : Envelope) (cas : List Cas) (s' : Store) :
    Prop where
  waiting : ∀ e ∈ s.inbox run, e.key ≠ event.key
  logged : loggedSeq (s.events run) event.key = none
  call : checkCall [event] cas = .ok ()
  kv : applyCasList s.kv cas = .ok s'.kv
  row : ∃ row, enqueueRow s run event = .ok row ∧ s'.rows = setRun s.rows run (some row)
  inbox : s'.inbox = setRun s.inbox run (s.inbox run ++ [{ event with seq := 0 }])
  events : s'.events = s.events
  timers : s'.timers = s.timers

/-- **What `enqueue` does.** -/
inductive EnqueueMove (s : Store) (run : RunId) (event : Envelope) (cas : List Cas) :
    Store × Except StoreError Enqueued → Prop
  | refused (error : StoreError) : EnqueueMove s run event cas (s, .error error)
  | duplicate (h : (∃ e ∈ s.inbox run, e.key = event.key) ∨
      (loggedSeq (s.events run) event.key).isSome = true) :
      EnqueueMove s run event cas (s, .ok .duplicate)
  | accepted (s' : Store) (h : Enqueues s run event cas s') :
      EnqueueMove s run event cas (s', .ok .accepted)

theorem Store.enqueue_cases (s : Store) (run : RunId) (event : Envelope) (cas : List Cas) :
    EnqueueMove s run event cas (s.enqueue run event cas) := by
  unfold Store.enqueue
  cases hcall : checkCall [event] cas with
  | error error => exact .refused error
  | ok u =>
    simp only
    split_ifs with hdup
    · refine .duplicate (hdup.imp_left fun h => ?_)
      simpa using h
    · obtain ⟨hwaiting, hlogged⟩ := not_or.mp hdup
      cases hwrite : enqueueWrite s run event cas with
      | error error => exact .refused error
      | ok s' =>
        unfold enqueueWrite at hwrite
        obtain ⟨row, hrow, hwrite⟩ := bind_eq_ok hwrite
        obtain ⟨kv, hkv, hwrite⟩ := bind_eq_ok hwrite
        cases hwrite
        refine .accepted _ ⟨?_, ?_, hcall, hkv, ⟨row, hrow, rfl⟩, rfl, rfl, rfl⟩
        · simpa using hwaiting
        · simpa using hlogged

/-! ## Any calls of anybody -/

/-- A call that writes. -/
inductive Call
  | append (run : RunId) (expectedSeq : Nat) (fence : Epoch) (events : List Envelope)
      (consume : List Key) (cas : List Cas)
  | enqueue (run : RunId) (event : Envelope) (cas : List Cas)
  | compareAndSet (key : Key) («from» «to» : Option Value)

/-- The store after a call. -/
def Call.apply (s : Store) : Call → Store
  | .append run expectedSeq fence events consume cas =>
    (s.append run expectedSeq fence events consume cas).1
  | .enqueue run event cas => (s.enqueue run event cas).1
  | .compareAndSet key «from» «to» => (s.compareAndSet key «from» «to»).1

/-- Whether the call writes what it was asked to. -/
def Call.commits (s : Store) : Call → Bool
  | .append run expectedSeq fence events consume cas =>
    (s.append run expectedSeq fence events consume cas).2.isOk
  | .enqueue run event cas => (s.enqueue run event cas).2.toOption = some .accepted
  | .compareAndSet key «from» «to» => (s.compareAndSet key «from» «to»).2.isOk

/-- **What a call does**, with whether it writes what it was asked to. -/
inductive CallMove (s : Store) : Call → Store → Bool → Prop
  | nothing (c : Call) : CallMove s c s false
  | consumed {run : RunId} {expectedSeq : Nat} {fence : Epoch} {events : List Envelope}
      {consume : List Key} {cas : List Cas} {seq : Nat}
      (hguard : Guarded s run expectedSeq fence events cas)
      (h : duplicateOf (s.events run) events = some seq) :
      CallMove s (.append run expectedSeq fence events consume cas)
        { s with inbox := setRun s.inbox run (deleteRows (s.inbox run) consume) } false
  | written {run : RunId} {expectedSeq : Nat} {fence : Epoch} {events : List Envelope}
      {consume : List Key} {cas : List Cas} {s' : Store}
      (hguard : Guarded s run expectedSeq fence events cas)
      (hnew : duplicateOf (s.events run) events = none)
      (h : Written s run events consume cas s') :
      CallMove s (.append run expectedSeq fence events consume cas) s' true
  | enqueued {run : RunId} {event : Envelope} {cas : List Cas} {s' : Store}
      (h : Enqueues s run event cas s') : CallMove s (.enqueue run event cas) s' true
  | set {key : Key} {«from» «to» : Option Value} {kv : KeyMap Key Value}
      (h : applyCas s.kv ⟨key, «from», «to»⟩ = .ok kv) :
      CallMove s (.compareAndSet key «from» «to») { s with kv } true

theorem Call.move (s : Store) (c : Call) : CallMove s c (c.apply s) (c.commits s) := by
  cases c with
  | append run expectedSeq fence events consume cas =>
    have hcases := s.append_cases run expectedSeq fence events consume cas
    simp only [Call.apply, Call.commits]
    generalize s.append run expectedSeq fence events consume cas = answer at hcases ⊢
    cases hcases with
    | refused error => exact .nothing _
    | duplicate seq hguard h => exact .consumed hguard h
    | written s' hguard hnew h => exact .written hguard hnew h
  | enqueue run event cas =>
    have hcases := s.enqueue_cases run event cas
    simp only [Call.apply, Call.commits]
    generalize s.enqueue run event cas = answer at hcases ⊢
    cases hcases with
    | refused error => exact .nothing _
    | duplicate _ => exact .nothing _
    | accepted s' h => exact .enqueued h
  | compareAndSet key «from» «to» =>
    simp only [Call.apply, Call.commits]
    rcases s.compareAndSet_cases key «from» «to» with ⟨error, hmove⟩ | ⟨kv, hkv, hmove⟩
    · rw [hmove]
      exact .nothing _
    · rw [hmove]
      exact .set hkv

/-- A store after any calls. -/
inductive Store.Reached : Store → Prop
  | empty : Store.Reached .empty
  | call {s : Store} (h : s.Reached) (c : Call) : Store.Reached (c.apply s)

end NexusFlow.Host
