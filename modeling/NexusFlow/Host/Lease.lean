import NexusFlow.Host.Calls

/-!
# The owner lease

Model of `SqliteRunStore::acquire_or_renew` (`crates/run-store-sqlite/src/lease.rs`) and of the hosts
that write under the epoch it grants them. Acquisition is two store calls, a read and a
compare-and-set from exactly the value read, so any number of other calls may come between them.

`Cluster` is a store with the hosts on it: what each has read, which epochs each was granted, and
what was committed under which epoch. `Cluster.act` is one store call of one process: reading a
lease, acquiring from a value that was read, or any other call, made under epochs that its caller was
granted. Nothing is asked of the clocks.

`Moves` is what one act does to a run's lease: it stays, its holder renews it, or it goes to the next
epoch. Headline result: `one_writer_per_epoch`.
-/

namespace NexusFlow.Host

open NexusFlow.Run
open NexusFlow.Lib

/-! ## `acquire_or_renew` -/

/-- `LEASE_EXPIRY`, in seconds. -/
def leaseExpiry : Secs := 30

/-- `expiry_ms`. -/
def expiryMs : Int := leaseExpiry * 1000

/-- What `acquire_or_renew` does about the value it has read: keeps a lease it holds with half the
expiry left, or writes one. -/
inductive Acquisition
  | keep (held : Lease)
  | write (lease : Lease)

/-- `acquire_or_renew` up to its compare-and-set. -/
def acquisition (run : RunId) (ownerId : String) (now : Timestamp) (current : Option Value) :
    Except StoreError Acquisition := do
  let write (epoch : Epoch) : Acquisition := .write ⟨ownerId, epoch, now.plus leaseExpiry⟩
  match current with
  | none => .ok (write 1)
  | some value =>
    let held ← decodeLease (ownerKey run) value
    let remaining := held.expiresAt - now
    if remaining ≤ 0 then .ok (write (held.epoch + 1))
    else if held.ownerId ≠ ownerId then .error (.casFailed (ownerKey run))
    else if expiryMs / 2 ≤ remaining then .ok (.keep held)
    else .ok (write held.epoch)

/-! ## The hosts on a store -/

/-- A write that committed under an epoch: an `append`, or an entry of the effect ledger. -/
structure Commit where
  run : RunId
  epoch : Epoch
  owner : String
  entry : Bool
deriving DecidableEq

/-- A store and what its hosts know: the leases they have read, the epochs they were granted, and the
writes that committed, oldest first. -/
structure Cluster where
  store : Store
  reads : List (String × RunId × Option Value)
  granted : List (String × RunId × Epoch)
  commits : List Commit

/-- A new file, and hosts that have not seen it. -/
def Cluster.start : Cluster := ⟨.empty, [], [], []⟩

/-- The epoch a compare-and-set of an effect's entry is written under. -/
def Cas.epoch (item : Cas) : Option (RunId × Epoch) :=
  if effectPrefix.isPrefixOf item.key then
    match effectRun item.key, item.to with
    | some run, some (.entry entry) => some (run, entry.epoch)
    | _, _ => none
  else none

/-- The epochs a call is made under, each with whether it is an entry's. -/
def Call.epochs : Call → List (RunId × Epoch × Bool)
  | .append run _ fence _ _ cas =>
    (run, fence, false) :: (cas.filterMap Cas.epoch).map fun e => (e.1, e.2, true)
  | .enqueue _ _ cas => (cas.filterMap Cas.epoch).map fun e => (e.1, e.2, true)
  | .compareAndSet key «from» «to» =>
    ([Cas.mk key «from» «to»].filterMap Cas.epoch).map fun e => (e.1, e.2, true)

/-- Whether the call is a compare-and-set of an owner key. -/
def Call.movesOwner : Call → Bool
  | .compareAndSet key _ _ => isOwnerKey key
  | _ => false

/-- One store call of one process. -/
inductive Act
  | read (host : String) (run : RunId)
  | acquire (host : String) (run : RunId) (now : Timestamp) (seen : Option Value)
  | call (host : String) (c : Call)

/-- **One store call of one process.** A host acquires from a value it has read, and makes its other
calls under epochs it was granted; owner keys change only by acquiring. -/
def Cluster.act (c : Cluster) : Act → Cluster
  | .read host run => { c with reads := (host, run, c.store.get (ownerKey run)) :: c.reads }
  | .acquire host run now seen =>
    if (host, run, seen) ∈ c.reads then
      match acquisition run host now seen with
      | .error _ => c
      | .ok (.keep held) => { c with granted := (host, run, held.epoch) :: c.granted }
      | .ok (.write lease) =>
        match c.store.compareAndSet (ownerKey run) seen (some (.lease lease)) with
        | (store, .ok ()) => { c with store, granted := (host, run, lease.epoch) :: c.granted }
        | (_, .error _) => c
    else c
  | .call host call =>
    if call.movesOwner = false ∧ ∀ e ∈ call.epochs, (host, e.1, e.2.1) ∈ c.granted then
      { c with
        store := call.apply c.store
        commits := if call.commits c.store then
            c.commits ++ call.epochs.map fun e => ⟨e.1, e.2.1, host, e.2.2⟩
          else c.commits }
    else c

/-- The hosts after some calls. -/
def Cluster.acts (c : Cluster) (acts : List Act) : Cluster := acts.foldl Cluster.act c

/-- The lease of a run. -/
def Store.lease (s : Store) (run : RunId) : Option Lease :=
  match s.kv.get (ownerKey run) with
  | some (.lease lease) => some lease
  | _ => none

/-! ## Owner keys -/

theorem ownerKey_inj {run run' : RunId} (h : ownerKey run = ownerKey run') : run = run' :=
  List.append_cancel_left h

theorem isOwnerKey_ownerKey (run : RunId) : isOwnerKey (ownerKey run) = true :=
  List.isPrefixOf_iff_prefix.mpr (List.prefix_append _ _)

/-- A list of compare-and-sets that names no owner key leaves them all. -/
theorem applyCasList_owner {kv kv' : KeyMap Key Value} {cas : List Cas}
    (hcas : ∀ item ∈ cas, isOwnerKey item.key = false) (h : applyCasList kv cas = .ok kv')
    (run : RunId) : kv'.get (ownerKey run) = kv.get (ownerKey run) := by
  refine applyCasList_induct (P := fun m => m.get (ownerKey run) = kv.get (ownerKey run)) ?_ rfl h
  intro m m' item hmem hm hitem
  obtain ⟨-, -, -, -, rfl⟩ := applyCas_ok hitem
  rw [get_writeValue, if_neg, hm]
  intro hkey
  have := hcas item hmem
  rw [← hkey, isOwnerKey_ownerKey] at this
  cases this

theorem checkCall_owner {events : List Envelope} {cas : List Cas}
    (h : checkCall events cas = .ok ()) : ∀ item ∈ cas, isOwnerKey item.key = false := by
  unfold checkCall at h
  cases hfind : cas.find? fun item => isOwnerKey item.key with
  | some item =>
    rw [hfind] at h
    split at h <;> cases h
  | none =>
    intro item hmem
    simpa using List.find?_eq_none.mp hfind item hmem

/-- **A call that is no acquisition leaves every lease.** -/
theorem Call.apply_owner {s : Store} {c : Call} (hc : c.movesOwner = false) (run : RunId) :
    (c.apply s).kv.get (ownerKey run) = s.kv.get (ownerKey run) := by
  have hmove := c.move s
  generalize c.apply s = s' at hmove ⊢
  generalize c.commits s = done at hmove
  cases hmove with
  | nothing => rfl
  | consumed _ _ => rfl
  | written hguard _ hw => exact applyCasList_owner (checkCall_owner hguard.call) hw.kv run
  | enqueued he => exact applyCasList_owner (checkCall_owner he.call) he.kv run
  | @set key «from» «to» kv hkv =>
    refine @applyCasList_owner _ _ [⟨key, «from», «to»⟩] ?_ ?_ run
    · intro item hmem
      rw [List.mem_singleton.mp hmem]
      exact hc
    · simp only [applyCasList, hkv]
      rfl

/-! ## How a lease moves -/

/-- **What one act does to the lease of a run**: where there was one there is one, at the same epoch
with the same owner, or at a later epoch. -/
def Moves (s s' : Store) : Prop :=
  ∀ run l, s.lease run = some l → ∃ l', s'.lease run = some l' ∧ l.epoch ≤ l'.epoch ∧
    (l'.epoch = l.epoch → l'.ownerId = l.ownerId)

theorem Moves.refl (s : Store) : Moves s s := fun _ l h => ⟨l, h, le_rfl, fun _ => rfl⟩

theorem Moves.trans {s s' s'' : Store} (h : Moves s s') (h' : Moves s' s'') : Moves s s'' := by
  intro run l hl
  obtain ⟨l', hl', hle, howner⟩ := h run l hl
  obtain ⟨l'', hl'', hle', howner'⟩ := h' run l' hl'
  refine ⟨l'', hl'', hle.trans hle', fun heq => ?_⟩
  have hmid : l''.epoch = l'.epoch := le_antisymm (heq.le.trans hle) hle'
  rw [howner' hmid, howner (hmid.symm.trans heq)]

theorem Moves.of_owner {s s' : Store}
    (h : ∀ run, s'.kv.get (ownerKey run) = s.kv.get (ownerKey run)) : Moves s s' := by
  intro run l hl
  refine ⟨l, ?_, le_rfl, fun _ => rfl⟩
  unfold Store.lease at hl ⊢
  rwa [h run]

theorem lease_eq_some {s : Store} {run : RunId} {l : Lease} :
    s.lease run = some l ↔ s.kv.get (ownerKey run) = some (.lease l) := by
  unfold Store.lease
  split
  · rename_i heq
    rw [heq]
    simp
  · rename_i hnot
    constructor
    · intro h
      cases h
    · intro h
      exact absurd h (hnot l)

/-- What an acquisition writes over a value: the first epoch over nothing, the next one over a lease,
or the same one over its own. -/
theorem acquisition_write {run : RunId} {host : String} {now : Timestamp} {seen : Option Value}
    {lease : Lease} (h : acquisition run host now seen = .ok (.write lease)) :
    lease.ownerId = host ∧ (seen = none ∨ ∃ held, seen = some (.lease held) ∧
      (lease.epoch = held.epoch + 1 ∨ lease.epoch = held.epoch ∧ held.ownerId = host)) := by
  unfold acquisition at h
  cases seen with
  | none =>
    cases h
    exact ⟨rfl, Or.inl rfl⟩
  | some value =>
    obtain ⟨held, hheld, hplan⟩ := bind_eq_ok h
    cases value with
    | lease l =>
      cases hheld
      simp only at hplan
      split_ifs at hplan with hexpired hother hfresh
      · cases hplan
        exact ⟨rfl, Or.inr ⟨_, rfl, Or.inl rfl⟩⟩
      · cases hplan
      · cases hplan
        exact ⟨rfl, Or.inr ⟨_, rfl, Or.inr ⟨rfl, not_not.mp hother⟩⟩⟩
    | _ => cases hheld

theorem acquisition_keep {run : RunId} {host : String} {now : Timestamp} {seen : Option Value}
    {held : Lease} (h : acquisition run host now seen = .ok (.keep held)) :
    seen = some (.lease held) ∧ held.ownerId = host := by
  unfold acquisition at h
  cases seen with
  | none => cases h
  | some value =>
    obtain ⟨l, hheld, hplan⟩ := bind_eq_ok h
    cases value with
    | lease l =>
      cases hheld
      simp only at hplan
      split_ifs at hplan with hexpired hother hfresh
      · cases hplan
      · cases hplan
        exact ⟨rfl, not_not.mp hother⟩
      · cases hplan
    | _ => cases hheld

/-! ## The invariant -/

/-- The epoch was `owner`'s, and the run's lease has not gone back behind it. -/
def Behind (s : Store) (run : RunId) (owner : String) (epoch : Epoch) : Prop :=
  ∃ l, s.lease run = some l ∧ epoch ≤ l.epoch ∧ (epoch = l.epoch → owner = l.ownerId)

theorem Behind.moves {s s' : Store} (hm : Moves s s') {run : RunId} {owner : String}
    {epoch : Epoch} (h : Behind s run owner epoch) : Behind s' run owner epoch := by
  obtain ⟨l, hl, hle, howner⟩ := h
  obtain ⟨l', hl', hle', howner'⟩ := hm run l hl
  refine ⟨l', hl', hle.trans hle', fun heq => ?_⟩
  have hmid : l'.epoch = l.epoch := le_antisymm (heq.symm.le.trans hle) hle'
  rw [howner' hmid, howner (heq.trans hmid)]

/-- Two writes in the order they committed. -/
def Commit.Before (a b : Commit) : Prop :=
  a.run = b.run → a.epoch ≤ b.epoch ∧ (a.epoch = b.epoch → a.owner = b.owner)

/-- **What holds of the hosts on a store**: whatever a host has read, was granted or has written
under is behind the lease, and the writes stand in the order of their epochs. -/
structure Cluster.Fenced (c : Cluster) : Prop where
  reads : ∀ host run l, (host, run, some (.lease l)) ∈ c.reads →
    Behind c.store run l.ownerId l.epoch
  granted : ∀ host run epoch, (host, run, epoch) ∈ c.granted → Behind c.store run host epoch
  commits : ∀ k ∈ c.commits, Behind c.store k.run k.owner k.epoch
  order : c.commits.Pairwise Commit.Before

theorem Cluster.Fenced.moves {c : Cluster} (h : c.Fenced) {s' : Store} (hm : Moves c.store s') :
    ({ c with store := s' } : Cluster).Fenced where
  reads host run l hmem := (h.reads host run l hmem).moves hm
  granted host run epoch hmem := (h.granted host run epoch hmem).moves hm
  commits k hmem := (h.commits k hmem).moves hm
  order := h.order

theorem Cluster.Fenced.grant {c : Cluster} (h : c.Fenced) {host : String} {run : RunId}
    {epoch : Epoch} (hb : Behind c.store run host epoch) :
    ({ c with granted := (host, run, epoch) :: c.granted } : Cluster).Fenced where
  reads := h.reads
  granted := by
    intro host' run' epoch' hmem
    rcases List.mem_cons.mp hmem with heq | hmem
    · cases heq
      exact hb
    · exact h.granted host' run' epoch' hmem
  commits := h.commits
  order := h.order

/-! ## What a call committed under -/

theorem currentEpoch_eq {s : Store} {run : RunId} {epoch : Epoch}
    (h : currentEpoch s.kv run = .ok (some epoch)) : ∃ l, s.lease run = some l ∧ l.epoch = epoch := by
  unfold currentEpoch at h
  unfold Store.lease
  cases hkv : s.kv.get (ownerKey run) with
  | none => rw [hkv] at h; cases h
  | some value =>
    rw [hkv] at h
    cases value with
    | lease l =>
      cases h
      exact ⟨l, rfl, rfl⟩
    | _ => cases h

theorem applyCas_epoch {kv kv' : KeyMap Key Value} {item : Cas} (h : applyCas kv item = .ok kv')
    {run : RunId} {epoch : Epoch} (he : item.epoch = some (run, epoch)) :
    currentEpoch kv run = .ok (some epoch) := by
  obtain ⟨-, -, heffect, -, -⟩ := applyCas_ok h
  unfold Cas.epoch at he
  unfold checkEffect at heffect
  split_ifs at he with hprefix
  rw [if_pos hprefix] at heffect
  split at he
  · rename_i run' entry hrun hto
    cases he
    rw [hto] at heffect
    unfold checkEffectWrite at heffect
    rw [hrun] at heffect
    obtain ⟨current, hcurrent, hreq⟩ := bind_eq_ok heffect
    rw [hcurrent, require_eq_ok hreq]
  · cases he

theorem applyCasList_epoch {cas : List Cas} (hcas : ∀ item ∈ cas, isOwnerKey item.key = false) :
    ∀ {kv kv' : KeyMap Key Value}, applyCasList kv cas = .ok kv' → ∀ item ∈ cas,
      ∀ run epoch, item.epoch = some (run, epoch) → currentEpoch kv run = .ok (some epoch) := by
  induction cas with
  | nil => intro _ _ _ item hmem; cases hmem
  | cons first rest ih =>
    intro kv kv' h item hmem run epoch he
    obtain ⟨mid, hmid, h⟩ := bind_eq_ok h
    rcases List.mem_cons.mp hmem with rfl | hmem
    · exact applyCas_epoch hmid he
    · have hnext := ih (fun i hi => hcas i (List.mem_cons_of_mem _ hi)) h item hmem run epoch he
      have hkeep := @applyCasList_owner kv mid [first]
        (fun i hi => hcas i (List.mem_singleton.mp hi ▸ List.mem_cons_self))
        (by simp only [applyCasList, hmid]; rfl) run
      unfold currentEpoch at hnext ⊢
      rwa [hkeep] at hnext

/-- **A call that writes is made under the epochs of its runs' leases.** -/
theorem Call.commits_epochs {s : Store} {c : Call} (hc : c.movesOwner = false)
    (h : c.commits s = true) :
    ∀ e ∈ c.epochs, ∃ l, s.lease e.1 = some l ∧ l.epoch = e.2.1 := by
  have hentries : ∀ {cas : List Cas} {kv : KeyMap Key Value},
      (∀ item ∈ cas, isOwnerKey item.key = false) → applyCasList s.kv cas = .ok kv →
      ∀ e ∈ (cas.filterMap Cas.epoch).map fun e => (e.1, e.2, true),
        ∃ l, s.lease e.1 = some l ∧ l.epoch = e.2.1 := by
    intro cas kv hcas hkv e he
    obtain ⟨⟨run, epoch⟩, hmem, rfl⟩ := List.mem_map.mp he
    obtain ⟨item, hitem, hepoch⟩ := List.mem_filterMap.mp hmem
    exact currentEpoch_eq (applyCasList_epoch hcas hkv item hitem run epoch hepoch)
  have hmove := c.move s
  rw [h] at hmove
  generalize c.apply s = s' at hmove
  cases hmove with
  | written hguard _ hw =>
    intro e he
    rcases List.mem_cons.mp he with rfl | he
    · exact currentEpoch_eq hguard.epoch
    · exact hentries (checkCall_owner hguard.call) hw.kv e he
  | enqueued hq => exact hentries (checkCall_owner hq.call) hq.kv
  | @set key «from» «to» kv hkv =>
    refine @hentries [⟨key, «from», «to»⟩] kv ?_ ?_
    · intro item hmem
      rw [List.mem_singleton.mp hmem]
      exact hc
    · simp only [applyCasList, hkv]
      rfl

/-! ## One act -/

/-- **An acquisition that succeeds moves the lease**, and grants its epoch. -/
theorem acquire_moves {s : Store} {run : RunId} {host : String} {now : Timestamp}
    {seen : Option Value} {lease : Lease} {kv : KeyMap Key Value}
    (hplan : acquisition run host now seen = .ok (.write lease))
    (hcas : applyCas s.kv ⟨ownerKey run, seen, some (.lease lease)⟩ = .ok kv) :
    Moves s { s with kv } ∧ Behind { s with kv } run host lease.epoch := by
  obtain ⟨hfrom, -, -, -, rfl⟩ := applyCas_ok hcas
  obtain ⟨howner, hepoch⟩ := acquisition_write hplan
  have hwritten : ({ s with kv := writeValue s.kv (ownerKey run) (some (.lease lease)) } : Store).lease
      run = some lease := by
    rw [lease_eq_some]
    exact (get_writeValue _ _ _ _).trans (if_pos rfl)
  refine ⟨fun run' l hl => ?_, lease, hwritten, le_rfl, fun _ => howner.symm⟩
  by_cases hrun : run' = run
  · subst hrun
    rw [lease_eq_some, hfrom] at hl
    refine ⟨lease, hwritten, ?_⟩
    obtain hnone | ⟨held, hheld, hepoch⟩ := hepoch
    · rw [hnone] at hl
      cases hl
    · rw [hheld] at hl
      cases hl
      obtain hnext | ⟨hsame, hmine⟩ := hepoch
      · exact ⟨hnext ▸ Nat.le_succ _, fun heq => absurd (hnext.symm.trans heq) (Nat.succ_ne_self _)⟩
      · exact ⟨hsame.symm.le, fun _ => howner.trans hmine.symm⟩
  · refine ⟨l, ?_, le_rfl, fun _ => rfl⟩
    rw [lease_eq_some] at hl ⊢
    exact ((get_writeValue _ _ _ _).trans (if_neg fun h => hrun (ownerKey_inj h))).trans hl

/-- **One act keeps the fence, and moves each lease only forward.** -/
theorem Cluster.Fenced.act {c : Cluster} (h : c.Fenced) (a : Act) :
    (c.act a).Fenced ∧ Moves c.store (c.act a).store := by
  cases a with
  | read host run =>
    refine ⟨⟨?_, h.granted, h.commits, h.order⟩, .refl _⟩
    intro host' run' l hmem
    rcases List.mem_cons.mp hmem with heq | hmem
    · simp only [Prod.mk.injEq] at heq
      obtain ⟨-, rfl, hget⟩ := heq
      exact ⟨l, lease_eq_some.mpr hget.symm, le_rfl, fun _ => rfl⟩
    · exact h.reads host' run' l hmem
  | acquire host run now seen =>
    simp only [Cluster.act]
    split_ifs with hread
    · cases hplan : acquisition run host now seen with
      | error _ => exact ⟨h, .refl _⟩
      | ok plan =>
        cases plan with
        | keep held =>
          obtain ⟨rfl, rfl⟩ := acquisition_keep hplan
          exact ⟨h.grant (h.reads _ _ _ hread), .refl _⟩
        | write lease =>
          rcases c.store.compareAndSet_cases (ownerKey run) seen (some (.lease lease)) with
            ⟨error, hmove⟩ | ⟨kv, hkv, hmove⟩
          · simp only [hmove]
            exact ⟨h, .refl _⟩
          · simp only [hmove]
            obtain ⟨hmoves, hbehind⟩ := acquire_moves hplan hkv
            exact ⟨(h.moves hmoves).grant hbehind, hmoves⟩
    · exact ⟨h, .refl _⟩
  | call host call =>
    simp only [Cluster.act]
    split_ifs with hmay hcommits
    · obtain ⟨howner, hgranted⟩ := hmay
      have hmoves : Moves c.store (call.apply c.store) :=
        .of_owner fun run => Call.apply_owner howner run
      have hunder := Call.commits_epochs howner hcommits
      -- What the call was granted and commits under is the lease itself.
      have hheld : ∀ e ∈ call.epochs, ∃ l, c.store.lease e.1 = some l ∧ l.epoch = e.2.1 ∧
          host = l.ownerId := by
        intro e he
        obtain ⟨l, hl, hepoch⟩ := hunder e he
        obtain ⟨l', hl', -, hmine⟩ := h.granted _ _ _ (hgranted e he)
        rw [hl] at hl'
        cases hl'
        exact ⟨l, hl, hepoch, hmine hepoch.symm⟩
      refine ⟨⟨(h.moves hmoves).reads, (h.moves hmoves).granted, ?_, ?_⟩, hmoves⟩
      · intro k hk
        rcases List.mem_append.mp hk with hk | hk
        · exact (h.moves hmoves).commits k hk
        · obtain ⟨e, he, rfl⟩ := List.mem_map.mp hk
          exact (h.granted _ _ _ (hgranted e he)).moves hmoves
      · refine List.pairwise_append.mpr ⟨h.order, ?_, ?_⟩
        · refine List.pairwise_map.mpr (List.pairwise_of_forall_mem_list fun e he e' he' => ?_)
          intro hrun
          obtain ⟨l, hl, hepoch, -⟩ := hheld e he
          obtain ⟨l', hl', hepoch', -⟩ := hheld e' he'
          rw [show e'.1 = e.1 from hrun.symm, hl] at hl'
          cases hl'
          exact ⟨(hepoch.symm.trans hepoch').le, fun _ => rfl⟩
        · intro k hk k' hk' hrun
          obtain ⟨e, he, rfl⟩ := List.mem_map.mp hk'
          obtain ⟨l, hl, hepoch, hmine⟩ := hheld e he
          obtain ⟨l', hl', hle, howner'⟩ := h.commits k hk
          rw [show k.run = e.1 from hrun, hl] at hl'
          cases hl'
          exact ⟨hepoch ▸ hle, fun heq => (howner' (heq.trans hepoch.symm)).trans hmine.symm⟩
    · obtain ⟨howner, -⟩ := hmay
      have hmoves : Moves c.store (call.apply c.store) :=
        .of_owner fun run => Call.apply_owner howner run
      exact ⟨h.moves hmoves, hmoves⟩
    · exact ⟨h, .refl _⟩

/-! ## Whole histories -/

theorem Cluster.Fenced.acts (acts : List Act) : ∀ {c : Cluster}, c.Fenced →
    (c.acts acts).Fenced ∧ Moves c.store (c.acts acts).store := by
  induction acts with
  | nil => exact fun h => ⟨h, .refl _⟩
  | cons a acts ih =>
    intro c h
    obtain ⟨hnext, hmoves⟩ := h.act a
    obtain ⟨hlast, hrest⟩ := ih hnext
    exact ⟨hlast, hmoves.trans hrest⟩

theorem Cluster.start_fenced : Cluster.start.Fenced where
  reads _ _ _ hmem := nomatch hmem
  granted _ _ _ hmem := nomatch hmem
  commits _ hmem := nomatch hmem
  order := .nil

/-- **One writer per epoch.** In every history of any hosts on one store, whatever their clocks say
and however their calls interleave: the lease of a run, once there, only ever goes on, its epoch never
falling, and an epoch is its owner's for ever; two writes that committed under one epoch of a run,
appends or effect entries, are of one owner; and the writes of a run committed in the order of their
epochs, so none under an older epoch ever follows one under a newer. -/
theorem one_writer_per_epoch (acts more : List Act) :
    (∀ run l, ((Cluster.start.acts acts).store.lease run) = some l →
      ∃ l', ((Cluster.start.acts acts).acts more).store.lease run = some l' ∧ l.epoch ≤ l'.epoch ∧
        (l'.epoch = l.epoch → l'.ownerId = l.ownerId)) ∧
    (∀ a ∈ (Cluster.start.acts acts).commits, ∀ b ∈ (Cluster.start.acts acts).commits,
      a.run = b.run → a.epoch = b.epoch → a.owner = b.owner) ∧
    (Cluster.start.acts acts).commits.Pairwise fun a b => a.run = b.run → a.epoch ≤ b.epoch := by
  obtain ⟨h, -⟩ := Cluster.start_fenced.acts acts
  refine ⟨(h.acts more).2, fun a ha b hb hrun hepoch => ?_, h.order.imp fun hab hrun => (hab hrun).1⟩
  obtain ⟨i, hi, rfl⟩ := List.getElem_of_mem ha
  obtain ⟨j, hj, rfl⟩ := List.getElem_of_mem hb
  rcases Nat.lt_trichotomy i j with hij | rfl | hij
  · exact (List.pairwise_iff_getElem.mp h.order i j hi hj hij hrun).2 hepoch
  · rfl
  · exact ((List.pairwise_iff_getElem.mp h.order j i hj hi hij hrun.symm).2 hepoch.symm).symm

end NexusFlow.Host
