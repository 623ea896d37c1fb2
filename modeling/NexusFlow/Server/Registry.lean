import Mathlib.Algebra.Order.Ring.Int
import Mathlib.Data.List.Nodup
import Mathlib.Logic.Function.Basic
import Mathlib.Logic.Relation
import Mathlib.Tactic.SplitIfs
import NexusFlow.Lib.Program

/-!
# The prefix registry

Model of the relay's claim-if-free prefix coordinator on one stream: `crates/server/src/registry.rs`
(`SqlitePrefixRegistry::register`, `candidate_prefix`) and the DynamoDB half of
`crates/server/src/store_ddb.rs:1434-1855`.

* SQLite: the registrations of a process stand behind a mutex, so each is one step on the rows of
  `prefix_claims` (`sqliteRegister`).
* DynamoDB: a registration is a program (`register`) of consistent reads and of claim transactions
  over two items, `prefix#<prefix>` and `uuid#<replica_uuid>`. Any number of them run at once. A
  transaction that was sent takes effect whole or not at all, at any later time, whatever its sender
  was told; a cancellation carries any codes, but for one thing: an item's condition is reported
  failed only where the item stands. Items are never deleted.

Storage failures of SQLite and the wall clock's readings are not modelled: the budget's answer is
arbitrary.
-/

namespace NexusFlow.Server.Registry

open NexusFlow.Lib

/-! ## Candidates -/

/-- `ALPHABET`. -/
def alphabet : List Char := "0123456789abcdefghjkmnpqrstvwxyz".toList

/-- `REASSIGN_ATTEMPTS`. -/
def reassignAttempts : Nat := 100000

/-- One turn of FNV-1a. -/
def mix (h : UInt64) (b : UInt8) : UInt64 := (h ^^^ b.toUInt64) * 0x100000001b3

/-- `u32::to_le_bytes`. -/
def leBytes (n : Nat) : List UInt8 := [0, 8, 16, 24].map fun shift => UInt8.ofNat (n / 2 ^ shift)

/-- `candidate_prefix`: derived from the replica's uuid and the attempt. -/
def candidatePrefix (replicaUuid : String) (attempt : Nat) : String :=
  let h := (replicaUuid.toUTF8.toList ++ leBytes attempt).foldl mix 0xcbf29ce484222325
  String.ofList ([0, 1, 2, 3].map fun i =>
    alphabet.getD ((h >>> UInt64.ofNat (i * 5)) &&& 0x1f).toNat '0')

/-! ## Answers -/

/-- `RegisterOutcome`. -/
inductive RegisterOutcome
  | registered
  | reassigned (newPrefix : String)
  deriving DecidableEq, Repr

/-- `StoreError`. -/
abbrev StoreError : Type := String

/-- The prefix an answer to a request names. -/
def RegisterOutcome.names (requested : String) : RegisterOutcome → String
  | registered => requested
  | reassigned newPrefix => newPrefix

/-- `stable_outcome`: what a replica is told that owns a prefix already. -/
def stableOutcome (existing requested : String) : RegisterOutcome :=
  if existing = requested then .registered else .reassigned existing

theorem names_stableOutcome (existing requested : String) :
    (stableOutcome existing requested).names requested = existing := by
  unfold stableOutcome
  split_ifs with h
  · exact h.symm
  · rfl

/-! ## SQLite -/

/-- The rows of `prefix_claims` of the stream: the prefix and its `replica_uuid`. -/
abbrev Claims : Type := List (String × String)

namespace Claims

/-- `SELECT prefix FROM prefix_claims WHERE … replica_uuid = ?2`. -/
def owned (c : Claims) (replicaUuid : String) : Option String :=
  (c.find? fun row => row.2 == replicaUuid).map Prod.fst

/-- `prefix_taken`. -/
def taken (c : Claims) (pre : String) : Bool := c.any fun row => row.1 == pre

/-- `claim`. -/
def claim (c : Claims) (pre replicaUuid : String) : Claims := c ++ [(pre, replicaUuid)]

end Claims

/-- The loop over candidates: `left` of them from `attempt` on. -/
def reassign (c : Claims) (replicaUuid : String) : Nat → Nat → Except StoreError RegisterOutcome × Claims
  | 0, _ => (.error "prefix space exhausted", c)
  | left + 1, attempt =>
    let cand := candidatePrefix replicaUuid attempt
    if c.taken cand then reassign c replicaUuid left (attempt + 1)
    else (.ok (.reassigned cand), c.claim cand replicaUuid)

/-- `SqlitePrefixRegistry::register`. -/
def sqliteRegister (c : Claims) (pre replicaUuid : String) :
    Except StoreError RegisterOutcome × Claims :=
  match c.owned replicaUuid with
  | some existing => (.ok (stableOutcome existing pre), c)
  | none =>
    if c.taken pre then reassign c replicaUuid reassignAttempts 0
    else (.ok .registered, c.claim pre replicaUuid)

/-! ## DynamoDB -/

/-- `prefix_sk`. -/
def prefixSk (pre : String) : String := "prefix#" ++ pre

/-- `uuid_sk`. -/
def uuidSk (replicaUuid : String) : String := "uuid#" ++ replicaUuid

/-- An item of the registry table, the attributes a registration writes. -/
structure RegistryItem where
  replicaUuid : Option String
  pre : Option String
  deriving DecidableEq, Repr

/-- The items of the stream's partition, by sort key. -/
abbrev Items : Type := String → Option RegistryItem

/-- `ClaimOutcome`. -/
inductive ClaimOutcome
  | claimed
  | prefixTaken
  | uuidRace
  | retryable
  deriving DecidableEq, Repr

/-- What a `TransactWriteItems` comes back with: its codes when it was cancelled. -/
inductive ClaimReply
  | ok
  | cancelled (prefixItemCode uuidItemCode : Option String)
  | failed (text : String)
  deriving DecidableEq, Repr

/-- `CLAIM_ATTEMPTS`. -/
def claimAttempts : Nat := 5

/-- The code of a condition that does not hold. -/
def conditionalCheckFailed : String := "ConditionalCheckFailed"

/-- `is_retryable_code`. -/
def isRetryableCode (code : Option String) : Bool :=
  code == some "TransactionConflict" || code == some "ThrottlingError" ||
    code == some "ProvisionedThroughputExceeded"

/-- `classify_cancellation`. -/
def classifyCancellation (prefixItemCode uuidItemCode : Option String) :
    Except StoreError ClaimOutcome :=
  if uuidItemCode = some conditionalCheckFailed then .ok .uuidRace
  else if prefixItemCode = some conditionalCheckFailed then .ok .prefixTaken
  else if isRetryableCode prefixItemCode || isRetryableCode uuidItemCode then .ok .retryable
  else .error "transaction cancelled for a reason other than an ordinary claim-if-free collision"

/-- The end of `try_claim`. -/
def ClaimReply.classify : ClaimReply → Except StoreError ClaimOutcome
  | ok => .ok .claimed
  | cancelled prefixItemCode uuidItemCode => classifyCancellation prefixItemCode uuidItemCode
  | failed text => .error text

/-- What a registration asks. -/
inductive Call
  /-- The consistent read of `owned_prefix`. -/
  | ownedPrefix (replicaUuid : String)
  /-- The transaction of `try_claim`. -/
  | tryClaim (pre replicaUuid : String)
  /-- Whether `REGISTER_BUDGET` has passed. -/
  | elapsed
  deriving DecidableEq, Repr

/-- What it is answered. -/
abbrev Reply : Call → Type
  | .ownedPrefix _ => Except StoreError (Option String)
  | .tryClaim _ _ => ClaimReply
  | .elapsed => Bool

/-- A piece of a registration. -/
abbrev Registering (α : Type) : Type := Prog Call Reply α

/-- One call of a registration. -/
def ask (c : Call) : Registering (Reply c) := Prog.perform c

/-- `retry_claim`, with `left` attempts. -/
def retryClaim (pre replicaUuid : String) : Nat → Registering (Except StoreError ClaimOutcome)
  | 0 => pure (.error "register: claim attempts were all cancelled by conflict or throughput limits")
  | left + 1 => do
    let r ← ask (.tryClaim pre replicaUuid)
    match ClaimReply.classify r with
    | .error e => pure (.error e)
    | .ok .retryable => retryClaim pre replicaUuid left
    | .ok settled => pure (.ok settled)

/-- `claim_with_retry`. -/
def claimWithRetry (pre replicaUuid : String) : Registering (Except StoreError ClaimOutcome) :=
  retryClaim pre replicaUuid claimAttempts

/-- `resolve_uuid_race`. -/
def resolveUuidRace (requested replicaUuid : String) :
    Registering (Except StoreError RegisterOutcome) := do
  match ← ask (.ownedPrefix replicaUuid) with
  | .error e => pure (.error e)
  | .ok (some existing) => pure (.ok (stableOutcome existing requested))
  | .ok none => pure (.error "register: the uuid item vanished")

/-- Step 3: the walk over candidates, `left` of them from `attempt` on. -/
def walkCandidates (pre replicaUuid : String) :
    Nat → Nat → Registering (Except StoreError RegisterOutcome)
  | 0, _ => pure (.error "prefix space exhausted")
  | left + 1, attempt => do
    let spent ← ask .elapsed
    if spent = true then pure (.error "register: exceeded the budget")
    else
      let cand := candidatePrefix replicaUuid attempt
      match ← claimWithRetry cand replicaUuid with
      | .error e => pure (.error e)
      | .ok .claimed => pure (.ok (.reassigned cand))
      | .ok .uuidRace => resolveUuidRace pre replicaUuid
      | .ok _ => walkCandidates pre replicaUuid left (attempt + 1)

/-- `DynamoDbPrefixRegistry::register`. -/
def register (pre replicaUuid : String) : Registering (Except StoreError RegisterOutcome) := do
  match ← ask (.ownedPrefix replicaUuid) with
  | .error e => pure (.error e)
  | .ok (some existing) => pure (.ok (stableOutcome existing pre))
  | .ok none =>
    match ← claimWithRetry pre replicaUuid with
    | .error e => pure (.error e)
    | .ok .claimed => pure (.ok .registered)
    | .ok .uuidRace => resolveUuidRace pre replicaUuid
    | .ok _ => walkCandidates pre replicaUuid reassignAttempts 0

/-! ## The table -/

namespace Items

/-- The prefix item says this replica owns it. -/
def PrefixOf (t : Items) (replicaUuid pre : String) : Prop :=
  (t (prefixSk pre)).bind RegistryItem.replicaUuid = some replicaUuid

/-- The uuid item says this is the replica's prefix. -/
def UuidOf (t : Items) (replicaUuid pre : String) : Prop :=
  (t (uuidSk replicaUuid)).bind RegistryItem.pre = some pre

/-- The replica owns the prefix, as either item has it. -/
def Owns (t : Items) (replicaUuid pre : String) : Prop :=
  t.PrefixOf replicaUuid pre ∨ t.UuidOf replicaUuid pre

/-- What `owned_prefix` reads: `parse_s` refuses an item without its attribute. -/
def ownedPrefix (t : Items) (replicaUuid : String) : Except StoreError (Option String) :=
  match t (uuidSk replicaUuid) with
  | none => .ok none
  | some item =>
    match item.pre with
    | some pre => .ok (some pre)
    | none => .error "missing attribute prefix"

/-- Both conditions of a claim hold: `attribute_not_exists`. -/
def Free (t : Items) (pre replicaUuid : String) : Prop :=
  t (prefixSk pre) = none ∧ t (uuidSk replicaUuid) = none

/-- Both puts of a claim. -/
def commit (t : Items) (pre replicaUuid : String) : Items :=
  Function.update (Function.update t (prefixSk pre) (some ⟨some replicaUuid, none⟩))
    (uuidSk replicaUuid) (some ⟨none, some pre⟩)

end Items

/-! ## Many registrations at once -/

/-- A registration under way: what was asked, and what is left of it. -/
structure Registration where
  pre : String
  replicaUuid : String
  rest : Registering (Except StoreError RegisterOutcome)

/-- A registration that was answered. -/
structure Answered where
  pre : String
  replicaUuid : String
  result : Except StoreError RegisterOutcome

/-- The registry and its callers: the items, the claims that were sent and the ones that took effect,
the registrations under way and the answers given, oldest first. -/
structure World (κ : Type) where
  items : Items
  sent : List (String × String)
  committed : List (String × String)
  calls : κ → Option Registration
  answers : List Answered

/-- Nobody registered yet. -/
def World.start (κ : Type) : World κ := ⟨fun _ => none, [], [], fun _ => none, []⟩

variable {κ : Type} [DecidableEq κ]

/-- What a call can be answered: a read says what stands, or fails; a claim succeeds only where it
took effect, and its cancellation names only conditions that do not hold. -/
def Admits (w : World κ) : (c : Call) → Reply c → Prop
  | .ownedPrefix u, r => r = w.items.ownedPrefix u ∨ ∃ e, r = .error e
  | .tryClaim p u, r =>
    match r with
    | .ok => (p, u) ∈ w.committed
    | .cancelled prefixItemCode uuidItemCode =>
      (prefixItemCode = some conditionalCheckFailed → (w.items (prefixSk p)).isSome) ∧
        (uuidItemCode = some conditionalCheckFailed → (w.items (uuidSk u)).isSome)
    | .failed _ => True
  | .elapsed, _ => True

/-- One step of the registry and its callers. -/
inductive Step : World κ → World κ → Prop
  /-- A registration begins. -/
  | start {w : World κ} (i : κ) (pre replicaUuid : String) (hfree : w.calls i = none) :
    Step w { w with
      calls := Function.update w.calls i (some ⟨pre, replicaUuid, register pre replicaUuid⟩) }
  /-- It sends a claim. -/
  | send {w : World κ} {i : κ} {g : Registration} {p u : String}
    {k : ClaimReply → Registering (Except StoreError RegisterOutcome)}
    (hcall : w.calls i = some g) (hask : g.rest = .call (.tryClaim p u) k) :
    Step w { w with sent := w.sent ++ [(p, u)] }
  /-- A claim that was sent takes effect. -/
  | commit {w : World κ} {p u : String} (hsent : (p, u) ∈ w.sent) (hfree : w.items.Free p u) :
    Step w { w with items := w.items.commit p u, committed := w.committed ++ [(p, u)] }
  /-- It hears an answer. -/
  | reply {w : World κ} {i : κ} {g : Registration} {c : Call}
    {k : Reply c → Registering (Except StoreError RegisterOutcome)} (r : Reply c)
    (hcall : w.calls i = some g) (hask : g.rest = .call c k) (hadm : Admits w c r) :
    Step w { w with calls := Function.update w.calls i (some { g with rest := k r }) }
  /-- It answers. -/
  | answer {w : World κ} {i : κ} {g : Registration} {r : Except StoreError RegisterOutcome}
    (hcall : w.calls i = some g) (hret : g.rest = .ret r) :
    Step w { w with
      calls := Function.update w.calls i none
      answers := w.answers ++ [⟨g.pre, g.replicaUuid, r⟩] }
  /-- It is given up. -/
  | drop {w : World κ} (i : κ) : Step w { w with calls := Function.update w.calls i none }

/-- A run of the registry. -/
abbrev Runs : World κ → World κ → Prop := Relation.ReflTransGen Step

/-! ### Ownership -/

/-- Both items of a claim stand or neither, and each names the other. -/
def Items.Paired (t : Items) : Prop := ∀ u p, t.PrefixOf u p ↔ t.UuidOf u p

theorem Items.Paired.owns {t : Items} (h : t.Paired) {u p : String} : t.Owns u p ↔ t.UuidOf u p := by
  unfold Items.Owns
  rw [h u p]
  exact or_self_iff

/-- One prefix, one owner. -/
theorem Items.Paired.owner_unique {t : Items} (h : t.Paired) {u v p : String} (hu : t.Owns u p)
    (hv : t.Owns v p) : u = v := by
  have hu := (h u p).mpr (h.owns.mp hu)
  have hv := (h v p).mpr (h.owns.mp hv)
  exact Option.some.inj (hu.symm.trans hv)

/-- One owner, one prefix. -/
theorem Items.Paired.prefix_unique {t : Items} (h : t.Paired) {u p q : String} (hp : t.Owns u p)
    (hq : t.Owns u q) : p = q :=
  Option.some.inj ((h.owns.mp hp).symm.trans (h.owns.mp hq))

theorem prefixSk_inj {p q : String} : prefixSk p = prefixSk q ↔ p = q := by
  unfold prefixSk
  rw [String.ext_iff, String.ext_iff]
  simp

theorem uuidSk_inj {u v : String} : uuidSk u = uuidSk v ↔ u = v := by
  unfold uuidSk
  rw [String.ext_iff, String.ext_iff]
  simp

theorem prefixSk_ne_uuidSk (p u : String) : prefixSk p ≠ uuidSk u := by
  unfold prefixSk uuidSk
  rw [Ne, String.ext_iff]
  simp

namespace Items

variable {t : Items} {p u : String}

theorem commit_prefixSk (q : String) :
    t.commit p u (prefixSk q) = if q = p then some ⟨some u, none⟩ else t (prefixSk q) := by
  unfold commit
  rw [Function.update_of_ne (prefixSk_ne_uuidSk q u), Function.update_apply]
  exact if_congr prefixSk_inj rfl rfl

theorem commit_uuidSk (v : String) :
    t.commit p u (uuidSk v) = if v = u then some ⟨none, some p⟩ else t (uuidSk v) := by
  unfold commit
  rw [Function.update_apply, Function.update_of_ne (prefixSk_ne_uuidSk p v).symm]
  exact if_congr uuidSk_inj rfl rfl

/-- What stands keeps standing. -/
def Grows (t t' : Items) : Prop := ∀ sk item, t sk = some item → t' sk = some item

theorem Grows.refl (t : Items) : t.Grows t := fun _ _ h => h

theorem Grows.trans {a b c : Items} (h : a.Grows b) (h' : b.Grows c) : a.Grows c :=
  fun sk item hs => h' sk item (h sk item hs)

theorem UuidOf.grows {t' : Items} (h : t.UuidOf u p) (hg : t.Grows t') : t'.UuidOf u p := by
  obtain ⟨item, hitem, hp⟩ := Option.bind_eq_some_iff.mp h
  exact Option.bind_eq_some_iff.mpr ⟨item, hg _ _ hitem, hp⟩

theorem grows_commit (hfree : t.Free p u) : t.Grows (t.commit p u) := by
  intro sk item hsk
  unfold commit
  rw [Function.update_apply, Function.update_apply]
  split_ifs with h1 h2
  · rw [h1, hfree.2] at hsk
    cases hsk
  · rw [h2, hfree.1] at hsk
    cases hsk
  · exact hsk

theorem uuidOf_commit : (t.commit p u).UuidOf u p := by
  unfold UuidOf
  rw [commit_uuidSk, if_pos rfl]
  rfl

/-- **A claim keeps the two items together.** -/
theorem Paired.commit (h : t.Paired) (hfree : t.Free p u) : (t.commit p u).Paired := by
  intro v q
  unfold PrefixOf UuidOf
  rw [commit_prefixSk, commit_uuidSk]
  have hv : ∀ q, t.UuidOf u q → False := by
    intro q hq
    unfold UuidOf at hq
    rw [hfree.2] at hq
    cases hq
  have hq : ∀ v, t.PrefixOf v p → False := by
    intro v hv
    unfold PrefixOf at hv
    rw [hfree.1] at hv
    cases hv
  split_ifs with h1 h2 h2
  · subst h1 h2
    exact ⟨fun _ => rfl, fun _ => rfl⟩
  · refine ⟨fun he => absurd (Option.some.inj he).symm h2, fun he => ?_⟩
    exact (hq v ((h v p).mpr (h1 ▸ he))).elim
  · refine ⟨fun he => ?_, fun he => absurd (Option.some.inj he).symm h1⟩
    exact (hv q ((h u q).mp (h2 ▸ he))).elim
  · exact h v q

theorem ownedPrefix_eq_some (h : t.ownedPrefix u = .ok (some p)) : t.UuidOf u p := by
  unfold ownedPrefix at h
  split at h
  · cases h
  · next item hitem =>
    split at h
    · next q hq =>
      cases h
      exact Option.bind_eq_some_iff.mpr ⟨item, hitem, hq⟩
    · cases h

end Items

/-! ### What a registration may count on -/

/-- Among others, the items only grow; a read that finds a prefix, and a claim that succeeds, say
what the uuid item has. -/
def shared : Prog.Discipline Call Reply Items where
  rely := Items.Grows
  pre _ _ := True
  post
    | .ownedPrefix u, _, r, t' => ∀ p, r = .ok (some p) → t'.UuidOf u p
    | .tryClaim p u, _, r, t' => r = .ok → t'.UuidOf u p
    | .elapsed, _, _, _ => True

/-- The answer names the prefix the replica owns. -/
def Names (pre replicaUuid : String) (r : Except StoreError RegisterOutcome) (t : Items) : Prop :=
  ∀ o, r = .ok o → t.UuidOf replicaUuid (o.names pre)

/-- What a cancellation is read as: a lost race or a taken prefix on the item's own code only. -/
theorem classifyCancellation_ok {pc uc : Option String} {o : ClaimOutcome}
    (h : classifyCancellation pc uc = .ok o) :
    o = .uuidRace ∧ uc = some conditionalCheckFailed ∨
      o = .prefixTaken ∧ pc = some conditionalCheckFailed ∨ o = .retryable := by
  unfold classifyCancellation at h
  split_ifs at h with huuid hprefix hretry
  · cases h
    exact .inl ⟨rfl, huuid⟩
  · cases h
    exact .inr (.inl ⟨rfl, hprefix⟩)
  · cases h
    exact .inr (.inr rfl)

theorem ClaimReply.classify_claimed {r : ClaimReply} (h : r.classify = .ok .claimed) : r = .ok := by
  cases r with
  | ok => rfl
  | cancelled pc uc =>
    rcases classifyCancellation_ok h with ⟨ho, _⟩ | ⟨ho, _⟩ | ho <;> cases ho
  | failed text => cases h

theorem wp_retryClaim (p u : String) (n : Nat) (t : Items) :
    (retryClaim p u n).wp shared (fun r t' => r = .ok .claimed → t'.UuidOf u p) t := by
  induction n generalizing t with
  | zero => exact Prog.wp_pure fun _ _ h => by cases h
  | succ n ih =>
    refine Prog.wp_perform fun t' _ => ⟨trivial, fun r t'' hpost => ?_⟩
    cases hc : ClaimReply.classify r with
    | error e => exact Prog.wp_pure fun _ _ h => by cases h
    | ok o =>
      cases o with
      | claimed =>
        have hown := hpost (ClaimReply.classify_claimed hc)
        exact Prog.wp_pure fun _ hg _ => hown.grows hg
      | prefixTaken => exact Prog.wp_pure fun _ _ h => by cases h
      | uuidRace => exact Prog.wp_pure fun _ _ h => by cases h
      | retryable => exact ih t''

theorem names_stable {pre u existing : String} {t : Items} (h : t.UuidOf u existing) :
    Names pre u (.ok (stableOutcome existing pre)) t := by
  rintro o ⟨⟩
  rwa [names_stableOutcome]

theorem Names.grows {pre u : String} {r : Except StoreError RegisterOutcome} {t t' : Items}
    (h : Names pre u r t) (hg : t.Grows t') : Names pre u r t' := fun o ho => (h o ho).grows hg

theorem names_error (pre u e : String) (t : Items) : Names pre u (.error e) t := by
  rintro o ⟨⟩

theorem wp_resolveUuidRace (pre u : String) (t : Items) :
    (resolveUuidRace pre u).wp shared (Names pre u) t := by
  refine Prog.wp_perform fun t' _ => ⟨trivial, fun r t'' hpost => ?_⟩
  cases r with
  | error e => exact Prog.wp_pure fun s _ => names_error pre u e s
  | ok found =>
    cases found with
    | none => exact Prog.wp_pure fun s _ => names_error pre u _ s
    | some existing => exact Prog.wp_pure fun s hg => (names_stable (hpost existing rfl)).grows hg

theorem wp_walkCandidates (pre u : String) (left attempt : Nat) (t : Items) :
    (walkCandidates pre u left attempt).wp shared (Names pre u) t := by
  induction left generalizing attempt t with
  | zero => exact Prog.wp_pure fun s _ => names_error pre u _ s
  | succ left ih =>
    refine Prog.wp_perform fun t' _ => ⟨trivial, fun r t'' hpost => ?_⟩
    cases r with
    | true => exact Prog.wp_pure fun s _ => names_error pre u _ s
    | false =>
      refine Prog.wp_bind Items.Grows.refl (Prog.wp_mono ?_ (wp_retryClaim _ u claimAttempts t''))
      rintro (e | o) s hclaim
      · exact Prog.wp_pure fun s _ => names_error pre u e s
      · cases o with
        | claimed =>
          refine Prog.wp_pure fun s' hg => Names.grows ?_ hg
          rintro o ⟨⟩
          exact hclaim rfl
        | uuidRace => exact wp_resolveUuidRace pre u s
        | prefixTaken => exact ih (attempt + 1) s
        | retryable => exact ih (attempt + 1) s

/-- **Whatever the others do, an answer names the prefix the replica owns.** -/
theorem wp_register (pre u : String) (t : Items) :
    (register pre u).wp shared (Names pre u) t := by
  refine Prog.wp_perform fun t' _ => ⟨trivial, fun r t'' hpost => ?_⟩
  cases r with
  | error e => exact Prog.wp_pure fun s _ => names_error pre u e s
  | ok found =>
    cases found with
    | some existing => exact Prog.wp_pure fun s hg => (names_stable (hpost existing rfl)).grows hg
    | none =>
      refine Prog.wp_bind Items.Grows.refl (Prog.wp_mono ?_ (wp_retryClaim _ u claimAttempts t''))
      rintro (e | o) s hclaim
      · exact Prog.wp_pure fun s _ => names_error pre u e s
      · cases o with
        | claimed =>
          refine Prog.wp_pure fun s' hg => Names.grows ?_ hg
          rintro o ⟨⟩
          exact hclaim rfl
        | uuidRace => exact wp_resolveUuidRace pre u s
        | prefixTaken => exact wp_walkCandidates pre u reassignAttempts 0 s
        | retryable => exact wp_walkCandidates pre u reassignAttempts 0 s

/-! ### Every run -/

/-- What every run maintains. -/
structure Inv (w : World κ) : Prop where
  paired : w.items.Paired
  committed : ∀ c ∈ w.committed, w.items.UuidOf c.2 c.1
  calls : ∀ i g, w.calls i = some g → g.rest.wp shared (Names g.pre g.replicaUuid) w.items
  answers : ∀ a ∈ w.answers, Names a.pre a.replicaUuid a.result w.items

omit [DecidableEq κ] in
theorem inv_start : Inv (World.start κ) where
  paired u p := ⟨fun h => (by cases h), fun h => (by cases h)⟩
  committed c hc := by cases hc
  calls i g hg := by cases hg
  answers a ha := by cases ha

omit [DecidableEq κ] in
/-- An answer the table admits is what the registration may count on. -/
theorem Inv.post {w : World κ} (hw : Inv w) {c : Call} {r : Reply c} (h : Admits w c r) :
    shared.post c w.items r w.items := by
  cases c with
  | ownedPrefix u =>
    rintro p rfl
    rcases h with h | ⟨e, he⟩
    · exact Items.ownedPrefix_eq_some h.symm
    · cases he
  | tryClaim p u =>
    rintro rfl
    exact hw.committed _ h
  | elapsed => trivial

/-- A registration moves on; nothing else does. -/
theorem Inv.setCall {w : World κ} (hw : Inv w) (i : κ) {o : Option Registration}
    (ho : ∀ g, o = some g → g.rest.wp shared (Names g.pre g.replicaUuid) w.items) :
    Inv { w with calls := Function.update w.calls i o } where
  paired := hw.paired
  committed := hw.committed
  calls j g hg := by
    change Function.update w.calls i o j = some g at hg
    by_cases hj : j = i
    · subst hj
      rw [Function.update_self] at hg
      exact ho g hg
    · rw [Function.update_of_ne hj] at hg
      exact hw.calls j g hg
  answers := hw.answers

theorem Inv.step {w w' : World κ} (hw : Inv w) (h : Step w w') : Inv w' := by
  cases h with
  | start i pre u _ =>
    refine hw.setCall i ?_
    rintro g ⟨⟩
    exact wp_register pre u w.items
  | send hcall hask => exact ⟨hw.paired, hw.committed, hw.calls, hw.answers⟩
  | commit hsent hfree =>
    have hgrow := Items.grows_commit hfree
    refine ⟨hw.paired.commit hfree, ?_, ?_, fun a ha => (hw.answers a ha).grows hgrow⟩
    · intro c hc
      rcases List.mem_append.mp hc with hc | hc
      · exact (hw.committed c hc).grows hgrow
      · rw [List.mem_singleton.mp hc]
        exact Items.uuidOf_commit
    · exact fun j g hg => Prog.wp_stable (fun _ _ _ => Items.Grows.trans) (hw.calls j g hg) hgrow
  | @reply i g c k r hcall hask hadm =>
    refine hw.setCall i ?_
    rintro g' ⟨⟩
    have hg := hw.calls i g hcall
    rw [hask] at hg
    exact (hg w.items (Items.Grows.refl _)).2 r w.items (hw.post hadm)
  | @answer i g r hcall hret =>
    have hstep := hw.setCall (o := none) i (fun g hg => by cases hg)
    refine ⟨hstep.paired, hstep.committed, hstep.calls, ?_⟩
    intro a ha
    rcases List.mem_append.mp ha with ha | ha
    · exact hw.answers a ha
    · rw [List.mem_singleton.mp ha]
      have hg := hw.calls i g hcall
      rw [hret] at hg
      exact hg w.items (Items.Grows.refl _)
  | drop i => exact hw.setCall i fun g hg => by cases hg

theorem Inv.run {w w' : World κ} (hw : Inv w) (h : Runs w w') : Inv w' := by
  induction h with
  | refl => exact hw
  | tail _ hstep ih => exact ih.step hstep

/-! ## One call after another -/

/-- A call of a registration that is alone: a claim takes effect or not, and is answered as in a run. -/
def Alone : (c : Call) → Items → Reply c → Items → Prop
  | .ownedPrefix u, t, r, t' => t' = t ∧ (r = t.ownedPrefix u ∨ ∃ e, r = .error e)
  | .tryClaim p u, t, r, t' =>
    match r with
    | .ok => t.Free p u ∧ t' = t.commit p u
    | .cancelled prefixItemCode uuidItemCode =>
      (t' = t ∨ t.Free p u ∧ t' = t.commit p u) ∧
        (prefixItemCode = some conditionalCheckFailed → (t' (prefixSk p)).isSome) ∧
        (uuidItemCode = some conditionalCheckFailed → (t' (uuidSk u)).isSome)
    | .failed _ => t' = t ∨ t.Free p u ∧ t' = t.commit p u
  | .elapsed, t, _, t' => t' = t

/-- Registrations one after another, each settled without an error. -/
inductive Settled : Items → List (String × String × RegisterOutcome) → Items → Prop
  | nil (t : Items) : Settled t [] t
  | cons {t t' t'' : Items} {pre u : String} {o : RegisterOutcome}
    {more : List (String × String × RegisterOutcome)}
    (hrun : Prog.Exec Alone (register pre u) t (.ok o) t') (hmore : Settled t' more t'') :
    Settled t ((pre, u, o) :: more) t''

/-- The same calls on SQLite. -/
def sqliteCalls (c : Claims) : List (String × String) → List (Except StoreError RegisterOutcome) × Claims
  | [] => ([], c)
  | (pre, u) :: more =>
    let (r, c) := sqliteRegister c pre u
    let (rs, c) := sqliteCalls c more
    (r :: rs, c)

/-- The items hold what the rows hold. -/
structure Agrees (t : Items) (c : Claims) : Prop where
  taken : ∀ p, (t (prefixSk p)).isSome = c.taken p
  owned : ∀ u, t (uuidSk u) = (c.owned u).map fun p => ⟨none, some p⟩

theorem agrees_nil : Agrees (fun _ => none) [] := ⟨fun _ => rfl, fun _ => rfl⟩

theorem Claims.taken_claim (c : Claims) (p u q : String) :
    (c.claim p u).taken q = (c.taken q || p == q) := by
  unfold taken claim
  rw [List.any_append]
  simp

theorem Claims.owned_claim {c : Claims} {p u v : String} (hu : c.owned u = none) :
    (c.claim p u).owned v = if v = u then some p else c.owned v := by
  have hnone : (c.find? fun row => row.2 == u) = none := Option.map_eq_none_iff.mp hu
  unfold owned claim
  rw [List.find?_append]
  split_ifs with h
  · subst h
    rw [hnone]
    simp
  · have hlast : [(p, u)].find? (fun row => row.2 == v) = none := by
      simp [Ne.symm h]
    rw [hlast, Option.or_none]

namespace Agrees

variable {t : Items} {c : Claims} {p u : String}

theorem free_iff (h : Agrees t c) : t.Free p u ↔ c.taken p = false ∧ c.owned u = none := by
  unfold Items.Free
  rw [← h.taken p, h.owned u, Option.map_eq_none_iff]
  cases t (prefixSk p) <;> simp

theorem commit (h : Agrees t c) (hu : c.owned u = none) : Agrees (t.commit p u) (c.claim p u) where
  taken q := by
    rw [Items.commit_prefixSk, Claims.taken_claim, ← h.taken q]
    split_ifs with hq
    · subst hq
      simp
    · have : (p == q) = false := by simp [Ne.symm hq]
      rw [this, Bool.or_false]
  owned v := by
    rw [Items.commit_uuidSk, Claims.owned_claim hu, h.owned v]
    split_ifs <;> rfl

theorem ownedPrefix (h : Agrees t c) : t.ownedPrefix u = .ok (c.owned u) := by
  unfold Items.ownedPrefix
  rw [h.owned u]
  cases c.owned u <;> rfl

end Agrees

/-- A registration that is alone. -/
def alone : Prog.Discipline Call Reply Items where
  rely := Eq
  pre _ _ := True
  post := Alone

/-- SQLite gives the same answer and keeps the same claims. -/
def Same (c : Claims) (pre u : String) (r : Except StoreError RegisterOutcome) (t : Items) : Prop :=
  ∀ o, r = .ok o → (sqliteRegister c pre u).1 = .ok o ∧ Agrees t (sqliteRegister c pre u).2

theorem same_error (c : Claims) (pre u e : String) (t : Items) : Same c pre u (.error e) t := by
  rintro o ⟨⟩

/-- The replica's claim took effect, whatever the registration was told. -/
structure Finished (c : Claims) (pre u : String) (t : Items) (existing : String) : Prop where
  answer : (sqliteRegister c pre u).1 = .ok (stableOutcome existing pre)
  claims : Agrees t (sqliteRegister c pre u).2
  owned : t.ownedPrefix u = .ok (some existing)

/-- Of a replica that owns a prefix, no further claim takes effect. -/
theorem wp_retryClaim_owned {u : String} {t : Items} (hown : t (uuidSk u) ≠ none) (q : String)
    (n : Nat) : (retryClaim q u n).wp alone
      (fun r t' => t' = t ∧ r ≠ .ok .claimed ∧ r ≠ .ok .retryable) t := by
  have hstay : ∀ t', (t' = t ∨ t.Free q u ∧ t' = t.commit q u) → t' = t := by
    rintro t' (h | ⟨hfree, _⟩)
    · exact h
    · exact absurd hfree.2 hown
  induction n with
  | zero =>
    refine Prog.wp_pure ?_
    rintro _ rfl
    exact ⟨rfl, (by rintro ⟨⟩), (by rintro ⟨⟩)⟩
  | succ n ih =>
    refine Prog.wp_perform ?_
    rintro _ rfl
    refine ⟨trivial, fun r t' hpost => ?_⟩
    cases r with
    | ok => exact absurd hpost.1.2 hown
    | failed text =>
      obtain rfl := hstay t' hpost
      refine Prog.wp_pure ?_
      rintro _ rfl
      exact ⟨rfl, (by rintro ⟨⟩), (by rintro ⟨⟩)⟩
    | cancelled pc uc =>
      obtain rfl := hstay t' hpost.1
      have hcases : ClaimReply.classify (.cancelled pc uc) = classifyCancellation pc uc := rfl
      cases hc : classifyCancellation pc uc with
      | error e =>
        simp only [hcases, hc]
        refine Prog.wp_pure ?_
        rintro _ rfl
        exact ⟨rfl, (by rintro ⟨⟩), (by rintro ⟨⟩)⟩
      | ok o =>
        simp only [hcases, hc]
        cases o with
        | claimed => exact absurd (ClaimReply.classify_claimed (hcases.trans hc)) (by rintro ⟨⟩)
        | retryable => exact ih
        | prefixTaken =>
          refine Prog.wp_pure ?_
          rintro _ rfl
          exact ⟨rfl, (by rintro ⟨⟩), (by rintro ⟨⟩)⟩
        | uuidRace =>
          refine Prog.wp_pure ?_
          rintro _ rfl
          exact ⟨rfl, (by rintro ⟨⟩), (by rintro ⟨⟩)⟩

/-- What became of a claim of a replica that owns nothing. -/
def ClaimEnd (t : Items) (q u : String) (r : Except StoreError ClaimOutcome) (t' : Items) : Prop :=
  match r with
  | .ok .claimed => t.Free q u ∧ t' = t.commit q u
  | .ok .uuidRace => t.Free q u ∧ t' = t.commit q u
  | .ok .prefixTaken => t' = t ∧ t (prefixSk q) ≠ none ∨ t.Free q u ∧ t' = t.commit q u
  | .ok .retryable => False
  | .error _ => True

theorem commit_uuidSk_ne_none (t : Items) (q u : String) : t.commit q u (uuidSk u) ≠ none := by
  rw [Items.commit_uuidSk, if_pos rfl]
  rintro ⟨⟩

theorem wp_retryClaim_unowned {u : String} {t : Items} (hown : t (uuidSk u) = none) (q : String)
    (n : Nat) : (retryClaim q u n).wp alone (ClaimEnd t q u) t := by
  induction n with
  | zero => exact Prog.wp_pure fun _ _ => trivial
  | succ n ih =>
    refine Prog.wp_perform ?_
    rintro _ rfl
    refine ⟨trivial, fun r t' hpost => ?_⟩
    cases r with
    | ok =>
      refine Prog.wp_pure ?_
      rintro _ rfl
      exact hpost
    | failed text => exact Prog.wp_pure fun _ _ => trivial
    | cancelled pc uc =>
      obtain ⟨hmoved, hpc, huc⟩ := hpost
      have hcases : ClaimReply.classify (.cancelled pc uc) = classifyCancellation pc uc := rfl
      cases hc : classifyCancellation pc uc with
      | error e =>
        simp only [hcases, hc]
        exact Prog.wp_pure fun _ _ => trivial
      | ok o =>
        simp only [hcases, hc]
        rcases classifyCancellation_ok hc with ⟨rfl, hcode⟩ | ⟨rfl, hcode⟩ | rfl
        · refine Prog.wp_pure ?_
          rintro _ rfl
          rcases hmoved with rfl | hmoved
          · exact absurd hown (Option.isSome_iff_ne_none.mp (huc hcode))
          · exact hmoved
        · refine Prog.wp_pure ?_
          rintro _ rfl
          rcases hmoved with rfl | hmoved
          · exact .inl ⟨rfl, Option.isSome_iff_ne_none.mp (hpc hcode)⟩
          · exact .inr hmoved
        · rcases hmoved with rfl | ⟨hfree, rfl⟩
          · exact ih
          · -- it took effect behind a retryable code: no later claim of this replica does
            refine Prog.wp_mono ?_ (wp_retryClaim_owned (commit_uuidSk_ne_none t q u) q n)
            rintro (e | o) s ⟨rfl, h1, h2⟩
            · trivial
            · cases o with
              | claimed => exact absurd rfl h1
              | retryable => exact absurd rfl h2
              | prefixTaken => exact .inr ⟨hfree, rfl⟩
              | uuidRace => exact ⟨hfree, rfl⟩

section Alone

variable {c : Claims} {pre u : String} {t : Items}

theorem wp_resolveUuidRace_alone {existing : String} (h : Finished c pre u t existing) :
    (resolveUuidRace pre u).wp alone (Same c pre u) t := by
  refine Prog.wp_perform ?_
  rintro _ rfl
  refine ⟨trivial, ?_⟩
  rintro r _ ⟨rfl, rfl | ⟨e, rfl⟩⟩
  · simp only [h.owned]
    refine Prog.wp_pure ?_
    rintro _ rfl o ⟨⟩
    exact ⟨h.answer, h.claims⟩
  · exact Prog.wp_pure fun s _ => same_error c pre u e s

theorem Finished.uuidSk_ne_none {existing : String} (h : Finished c pre u t existing) :
    t (uuidSk u) ≠ none := by
  intro hnone
  have := h.owned
  unfold Items.ownedPrefix at this
  rw [hnone] at this
  cases this

theorem wp_walkCandidates_finished {existing : String} (h : Finished c pre u t existing)
    (left attempt : Nat) : (walkCandidates pre u left attempt).wp alone (Same c pre u) t := by
  induction left generalizing attempt with
  | zero => exact Prog.wp_pure fun s _ => same_error c pre u _ s
  | succ left ih =>
    refine Prog.wp_perform ?_
    rintro _ rfl
    refine ⟨trivial, ?_⟩
    rintro r t rfl
    cases r with
    | true => exact Prog.wp_pure fun s _ => same_error c pre u _ s
    | false =>
      refine Prog.wp_bind (fun _ => rfl)
        (Prog.wp_mono ?_ (wp_retryClaim_owned h.uuidSk_ne_none _ claimAttempts))
      rintro (e | o) s ⟨rfl, h1, h2⟩
      · exact Prog.wp_pure fun s _ => same_error c pre u e s
      · cases o with
        | claimed => exact absurd rfl h1
        | retryable => exact absurd rfl h2
        | prefixTaken => exact ih (attempt + 1)
        | uuidRace => exact wp_resolveUuidRace_alone h

/-- A claim that took effect is the one SQLite makes. -/
theorem Agrees.finished (h : Agrees t c) (hown : c.owned u = none) {q : String}
    (hsql : sqliteRegister c pre u = (.ok (stableOutcome q pre), c.claim q u)) :
    Finished c pre u (t.commit q u) q where
  answer := by rw [hsql]
  claims := by
    rw [hsql]
    exact h.commit hown
  owned := by
    rw [(h.commit hown).ownedPrefix, Claims.owned_claim hown, if_pos rfl]

theorem Agrees.uuidSk_eq_none (h : Agrees t c) (hown : c.owned u = none) : t (uuidSk u) = none := by
  rw [h.owned u, hown]
  rfl

theorem wp_walkCandidates_alone (h : Agrees t c) (hown : c.owned u = none)
    (hpre : c.taken pre = true) {left attempt : Nat}
    (hsql : sqliteRegister c pre u = reassign c u left attempt) :
    (walkCandidates pre u left attempt).wp alone (Same c pre u) t := by
  induction left generalizing attempt with
  | zero => exact Prog.wp_pure fun s _ => same_error c pre u _ s
  | succ left ih =>
    refine Prog.wp_perform ?_
    rintro _ rfl
    refine ⟨trivial, ?_⟩
    rintro r t rfl
    cases r with
    | true => exact Prog.wp_pure fun s _ => same_error c pre u _ s
    | false =>
      refine Prog.wp_bind (fun _ => rfl)
        (Prog.wp_mono ?_ (wp_retryClaim_unowned (h.uuidSk_eq_none hown) _ claimAttempts))
      -- where the claim took effect, its candidate is the first free one, and not the request
      have hfinished : ∀ s, t.Free (candidatePrefix u attempt) u ∧
          s = t.commit (candidatePrefix u attempt) u →
          Finished c pre u s (candidatePrefix u attempt) := by
        rintro s ⟨hfree, rfl⟩
        have htaken := (h.free_iff.mp hfree).1
        have hne : candidatePrefix u attempt ≠ pre := by
          intro he
          rw [he, hpre] at htaken
          cases htaken
        refine h.finished hown ?_
        rw [hsql, reassign, if_neg (by rw [htaken]; simp), stableOutcome, if_neg hne]
      have hnext : c.taken (candidatePrefix u attempt) = true →
          sqliteRegister c pre u = reassign c u left (attempt + 1) := by
        intro htaken
        rw [hsql, reassign, if_pos htaken]
      rintro (e | o) s hend
      · exact Prog.wp_pure fun s _ => same_error c pre u e s
      · cases o with
        | claimed =>
          have hf := hfinished s hend
          refine Prog.wp_pure ?_
          rintro _ rfl o ⟨⟩
          refine ⟨?_, hf.claims⟩
          rw [hf.answer, stableOutcome, if_neg]
          intro he
          have htaken := (h.free_iff.mp hend.1).1
          rw [he, hpre] at htaken
          cases htaken
        | retryable => exact hend.elim
        | uuidRace => exact wp_resolveUuidRace_alone (hfinished s hend)
        | prefixTaken =>
          rcases hend with ⟨rfl, hstands⟩ | hend
          · refine ih (hnext ?_)
            rw [← h.taken, Option.isSome_iff_ne_none]
            exact hstands
          · exact wp_walkCandidates_finished (hfinished s hend) left (attempt + 1)

/-- **A registration that is alone settles as SQLite does.** -/
theorem wp_register_alone (h : Agrees t c) : (register pre u).wp alone (Same c pre u) t := by
  refine Prog.wp_perform ?_
  rintro _ rfl
  refine ⟨trivial, ?_⟩
  rintro r t ⟨rfl, rfl | ⟨e, rfl⟩⟩
  · rw [h.ownedPrefix]
    cases hown : c.owned u with
    | some existing =>
      refine Prog.wp_pure ?_
      rintro _ rfl o ⟨⟩
      simp only [sqliteRegister, hown]
      exact ⟨trivial, h⟩
    | none =>
      refine Prog.wp_bind (fun _ => rfl)
        (Prog.wp_mono ?_ (wp_retryClaim_unowned (h.uuidSk_eq_none hown) pre claimAttempts))
      have hfinished : ∀ s, t.Free pre u ∧ s = t.commit pre u → Finished c pre u s pre := by
        rintro s ⟨hfree, rfl⟩
        refine h.finished hown ?_
        rw [sqliteRegister, hown, stableOutcome, if_pos rfl]
        exact if_neg (by rw [(h.free_iff.mp hfree).1]; simp)
      have hwalk : c.taken pre = true →
          sqliteRegister c pre u = reassign c u reassignAttempts 0 := by
        intro htaken
        rw [sqliteRegister, hown]
        exact if_pos htaken
      rintro (e | o) s hend
      · exact Prog.wp_pure fun s _ => same_error c pre u e s
      · cases o with
        | claimed =>
          have hf := hfinished s hend
          refine Prog.wp_pure ?_
          rintro _ rfl o ⟨⟩
          refine ⟨?_, hf.claims⟩
          rw [hf.answer, stableOutcome, if_pos rfl]
        | retryable => exact hend.elim
        | uuidRace => exact wp_resolveUuidRace_alone (hfinished s hend)
        | prefixTaken =>
          rcases hend with ⟨rfl, hstands⟩ | hend
          · have htaken : c.taken pre = true := by
              rw [← h.taken, Option.isSome_iff_ne_none]
              exact hstands
            exact wp_walkCandidates_alone h hown htaken (hwalk htaken)
          · exact wp_walkCandidates_finished (hfinished s hend) reassignAttempts 0
  · exact Prog.wp_pure fun s _ => same_error c pre u e s

end Alone

theorem Settled.same {t t' : Items} {c : Claims} {calls : List (String × String × RegisterOutcome)}
    (hrun : Settled t calls t') (h : Agrees t c) :
    (sqliteCalls c (calls.map fun x => (x.1, x.2.1))).1 = calls.map fun x => .ok x.2.2 := by
  induction hrun generalizing c with
  | nil t => rfl
  | @cons t t' t'' pre u o more hrun _ ih =>
    obtain ⟨hanswer, hagrees⟩ := Prog.exec_wp (fun _ => rfl) (fun _ _ _ _ => id)
      (wp_register_alone (u := u) h) hrun o rfl
    change (sqliteRegister c pre u).1 :: (sqliteCalls (sqliteRegister c pre u).2 _).1 = _
    rw [hanswer, ih hagrees]
    rfl

/-- **A registration alone is a run**: what `Alone` allows is a run of the registry. -/
theorem runs_of_exec {w : World κ} {i : κ} {g : Registration}
    {p : Registering (Except StoreError RegisterOutcome)} {t t' : Items}
    {r : Except StoreError RegisterOutcome} (hexec : Prog.Exec Alone p t r t')
    (hcall : w.calls i = some g) (hrest : g.rest = p) (hitems : w.items = t) :
    ∃ w', Runs w w' ∧ w'.items = t' ∧ w'.calls i = some { g with rest := .ret r } ∧
      w'.answers = w.answers := by
  induction hexec generalizing w g with
  | ret a s =>
    refine ⟨w, .refl, hitems, ?_, rfl⟩
    rw [hcall, ← hrest]
  | @call e k s s' s'' q a hstep _ ih =>
    subst hitems
    -- the world in which the call has had its effect and is about to be answered
    have hmid : ∃ v, Runs w v ∧ v.items = s' ∧ v.calls i = some g ∧ v.answers = w.answers ∧
        Admits v e q := by
      cases e with
      | ownedPrefix u => exact ⟨w, .refl, hstep.1.symm, hcall, rfl, hstep.2⟩
      | elapsed => exact ⟨w, .refl, hstep.symm, hcall, rfl, trivial⟩
      | tryClaim pre u =>
        have hcommit : w.items.Free pre u → s' = w.items.commit pre u → ∃ v, Runs w v ∧
            v.items = s' ∧ v.calls i = some g ∧ v.answers = w.answers ∧ (pre, u) ∈ v.committed := by
          intro hfree hs
          refine ⟨{ w with
            sent := w.sent ++ [(pre, u)]
            items := w.items.commit pre u
            committed := w.committed ++ [(pre, u)] }, ?_, hs.symm, hcall, rfl, ?_⟩
          · refine .tail (.single (.send hcall hrest)) ?_
            exact .commit (List.mem_append_right _ List.mem_cons_self) hfree
          · exact List.mem_append_right _ List.mem_cons_self
        cases q with
        | ok =>
          obtain ⟨v, hrun, hv, hc, ha, hm⟩ := hcommit hstep.1 hstep.2
          exact ⟨v, hrun, hv, hc, ha, hm⟩
        | cancelled pc uc =>
          obtain ⟨hmoved, hcodes⟩ := hstep
          rcases hmoved with hs | ⟨hfree, hs⟩
          · subst hs
            exact ⟨w, .refl, rfl, hcall, rfl, hcodes⟩
          · obtain ⟨v, hrun, hv, hc, ha, _⟩ := hcommit hfree hs
            refine ⟨v, hrun, hv, hc, ha, ?_⟩
            rw [← hv] at hcodes
            exact hcodes
        | failed text =>
          rcases hstep with hs | ⟨hfree, hs⟩
          · exact ⟨w, .refl, hs.symm, hcall, rfl, trivial⟩
          · obtain ⟨v, hrun, hv, hc, ha, _⟩ := hcommit hfree hs
            exact ⟨v, hrun, hv, hc, ha, trivial⟩
    obtain ⟨v, hrun, hv, hc, ha, hadm⟩ := hmid
    obtain ⟨w', hrun', hw', hc', ha'⟩ := ih (w := { v with
      calls := Function.update v.calls i (some { g with rest := k q }) })
      (g := { g with rest := k q }) (Function.update_self i _ _) rfl hv
    exact ⟨w', (hrun.tail (.reply q hc hrest hadm)).trans hrun', hw', hc', ha'.trans ha⟩

/-- From a registry with a free caller, a registration alone runs to its answer. -/
theorem runs_of_register {w : World κ} {i : κ} (hfree : w.calls i = none) {pre u : String} {t' : Items}
    {r : Except StoreError RegisterOutcome}
    (hexec : Prog.Exec Alone (register pre u) w.items r t') :
    ∃ w', Runs w w' ∧ w'.items = t' ∧ w'.calls i = none ∧
      w'.answers = w.answers ++ [⟨pre, u, r⟩] := by
  obtain ⟨v, hrun, hv, hc, ha⟩ := runs_of_exec (w := { w with
    calls := Function.update w.calls i (some ⟨pre, u, register pre u⟩) }) hexec
    (Function.update_self i _ _) rfl rfl
  refine ⟨_, ((Relation.ReflTransGen.single (.start i pre u hfree)).trans hrun).tail
    (.answer hc rfl), hv, Function.update_self i _ _, ?_⟩
  change v.answers ++ _ = _
  rw [ha]

/-! ### SQLite's rows -/

/-- Each prefix and each replica stands in one row. -/
def Claims.Apart (c : Claims) : Prop := (c.map Prod.fst).Nodup ∧ (c.map Prod.snd).Nodup

theorem Claims.taken_iff {c : Claims} {p : String} : c.taken p = true ↔ p ∈ c.map Prod.fst := by
  simp [taken]

theorem Claims.owned_eq_none {c : Claims} {u : String} : c.owned u = none ↔ u ∉ c.map Prod.snd := by
  unfold owned
  rw [Option.map_eq_none_iff, List.find?_eq_none, List.mem_map]
  constructor
  · rintro h ⟨row, hrow, rfl⟩
    exact h row hrow (beq_self_eq_true row.2)
  · intro h row hrow hu
    exact h ⟨row, hrow, eq_of_beq hu⟩

theorem Claims.mem_of_owned {c : Claims} {p u : String} (h : c.owned u = some p) : (p, u) ∈ c := by
  obtain ⟨row, hrow, rfl⟩ := Option.map_eq_some_iff.mp h
  have hu : row.2 = u := by simpa using List.find?_some hrow
  rw [← hu]
  exact List.mem_of_find?_eq_some hrow

theorem Claims.Apart.claim {c : Claims} (h : c.Apart) {p u : String} (hp : c.taken p = false)
    (hu : c.owned u = none) : (c.claim p u).Apart := by
  unfold Claims.Apart Claims.claim
  rw [List.map_append, List.map_append]
  constructor
  · refine h.1.append (List.nodup_singleton p) ?_
    intro q hq hq'
    rw [List.map_singleton, List.mem_singleton] at hq'
    subst hq'
    rw [Claims.taken_iff.mpr hq] at hp
    cases hp
  · refine h.2.append (List.nodup_singleton u) ?_
    intro v hv hv'
    rw [List.map_singleton, List.mem_singleton] at hv'
    subst hv'
    exact Claims.owned_eq_none.mp hu hv

/-- What a registration leaves: rows that only grow, kept apart, and an answer that names its row. -/
structure Registered (c : Claims) (pre u : String) (r : Except StoreError RegisterOutcome)
    (c' : Claims) : Prop where
  grows : ∀ row ∈ c, row ∈ c'
  apart : c.Apart → c'.Apart
  names : ∀ o, r = .ok o → (o.names pre, u) ∈ c'

theorem registered_claim {c : Claims} {pre u p : String} (hp : c.taken p = false)
    (hu : c.owned u = none) {o : RegisterOutcome} (ho : o.names pre = p) :
    Registered c pre u (.ok o) (c.claim p u) where
  grows row hrow := List.mem_append_left _ hrow
  apart h := h.claim hp hu
  names := by
    rintro _ ⟨⟩
    rw [ho]
    exact List.mem_append_right _ List.mem_cons_self

theorem registered_reassign {c : Claims} {u : String} (pre : String) (hu : c.owned u = none)
    (left attempt : Nat) :
    Registered c pre u (reassign c u left attempt).1 (reassign c u left attempt).2 := by
  induction left generalizing attempt with
  | zero => exact ⟨fun _ h => h, fun h => h, by rintro o ⟨⟩⟩
  | succ left ih =>
    rw [reassign]
    by_cases h : c.taken (candidatePrefix u attempt) = true
    · rw [if_pos h]
      exact ih (attempt + 1)
    · rw [if_neg h]
      exact registered_claim (Bool.eq_false_iff.mpr h) hu rfl

theorem registered_sqliteRegister (c : Claims) (pre u : String) :
    Registered c pre u (sqliteRegister c pre u).1 (sqliteRegister c pre u).2 := by
  unfold sqliteRegister
  cases hown : c.owned u with
  | some existing =>
    refine ⟨fun _ h => h, fun h => h, ?_⟩
    rintro o ⟨⟩
    rw [names_stableOutcome]
    exact Claims.mem_of_owned hown
  | none =>
    by_cases h : c.taken pre = true
    · simp only [h, if_true]
      exact registered_reassign pre hown reassignAttempts 0
    · simp only [h]
      exact registered_claim (Bool.eq_false_iff.mpr h) hown rfl

/-- The calls, with their answers. -/
def sqliteAnswers (c : Claims) (calls : List (String × String)) : List Answered :=
  (calls.zip (sqliteCalls c calls).1).map fun x => ⟨x.1.1, x.1.2, x.2⟩

theorem sqliteCalls_registered (c : Claims) (calls : List (String × String)) :
    (∀ row ∈ c, row ∈ (sqliteCalls c calls).2) ∧ (c.Apart → (sqliteCalls c calls).2.Apart) ∧
      ∀ a ∈ sqliteAnswers c calls, ∀ o, a.result = .ok o →
        (o.names a.pre, a.replicaUuid) ∈ (sqliteCalls c calls).2 := by
  induction calls generalizing c with
  | nil => exact ⟨fun _ h => h, fun h => h, by rintro a ⟨⟩⟩
  | cons call calls ih =>
    obtain ⟨pre, u⟩ := call
    have hfirst := registered_sqliteRegister c pre u
    obtain ⟨hgrow, hapart, hnames⟩ := ih (sqliteRegister c pre u).2
    refine ⟨fun row h => hgrow row (hfirst.grows row h), fun h => hapart (hfirst.apart h), ?_⟩
    rintro a ha o ho
    change a ∈ ⟨pre, u, (sqliteRegister c pre u).1⟩ :: sqliteAnswers (sqliteRegister c pre u).2 calls
      at ha
    rcases List.mem_cons.mp ha with rfl | ha
    · exact hgrow _ (hfirst.names o ho)
    · exact hnames a ha o ho

/-! ## The registry -/

/-- **No two replicas share a prefix.** In every run of the DynamoDB registry, a prefix has one owner
and an owner one prefix; every answer names the prefix its replica owns from then on, so all answers
to one replica agree. On SQLite the same holds of every sequence of calls. And where a sequence of
calls settles without an error on DynamoDB, SQLite gives the same outcomes. -/
theorem registry_one_owner {w : World κ} (hrun : Runs (World.start κ) w) {t : Items}
    {settled : List (String × String × RegisterOutcome)}
    (hsettled : Settled (fun _ => none) settled t) (calls : List (String × String)) :
    ((∀ u v p, w.items.Owns u p → w.items.Owns v p → u = v) ∧
      (∀ u p q, w.items.Owns u p → w.items.Owns u q → p = q) ∧
      (∀ a ∈ w.answers, ∀ o, a.result = .ok o → w.items.Owns a.replicaUuid (o.names a.pre)) ∧
      ∀ a ∈ w.answers, ∀ b ∈ w.answers, a.replicaUuid = b.replicaUuid → ∀ o o', a.result = .ok o →
        b.result = .ok o' → o.names a.pre = o'.names b.pre) ∧
      ((sqliteCalls [] calls).2.Apart ∧ ∀ a ∈ sqliteAnswers [] calls, ∀ o, a.result = .ok o →
        (o.names a.pre, a.replicaUuid) ∈ (sqliteCalls [] calls).2) ∧
      (sqliteCalls [] (settled.map fun x => (x.1, x.2.1))).1 = settled.map fun x => .ok x.2.2 := by
  have hw := inv_start.run hrun
  have howns : ∀ a ∈ w.answers, ∀ o, a.result = .ok o →
      w.items.Owns a.replicaUuid (o.names a.pre) :=
    fun a ha o ho => hw.paired.owns.mpr (hw.answers a ha o ho)
  obtain ⟨_, hapart, hnames⟩ := sqliteCalls_registered [] calls
  refine ⟨⟨fun u v p => hw.paired.owner_unique, fun u p q => hw.paired.prefix_unique, howns, ?_⟩,
    ⟨hapart ⟨List.nodup_nil, List.nodup_nil⟩, hnames⟩, hsettled.same agrees_nil⟩
  intro a ha b hb hab o o' ho ho'
  have hb := howns b hb o' ho'
  rw [← hab] at hb
  exact hw.paired.prefix_unique (howns a ha o ho) hb

/-- The table with one claim. -/
def oneClaim : Items := Items.commit (fun _ => none) "aaaa" "u1"

/-- The first replica claims its prefix. -/
theorem exec_first :
    Prog.Exec Alone (register "aaaa" "u1") (fun _ => none) (.ok .registered) oneClaim := by
  have hread : Alone (.ownedPrefix "u1") (fun _ => none) (.ok none) (fun _ => none) :=
    ⟨rfl, .inl rfl⟩
  have hclaim : Alone (.tryClaim "aaaa" "u1") (fun _ => none) .ok oneClaim := ⟨⟨rfl, rfl⟩, rfl⟩
  exact .call hread (.call hclaim (.ret _ _))

/-- The second one asks for the same, loses a transaction to a conflict, and is given another. -/
theorem exec_second : Prog.Exec Alone (register "aaaa" "u2") oneClaim
    (.ok (.reassigned (candidatePrefix "u2" 0))) (oneClaim.commit (candidatePrefix "u2" 0) "u2") := by
  have hread : Alone (.ownedPrefix "u2") oneClaim (.ok none) oneClaim :=
    ⟨rfl, .inl (by decide)⟩
  have hconflict : Alone (.tryClaim "aaaa" "u2") oneClaim
      (.cancelled (some "TransactionConflict") none) oneClaim :=
    ⟨.inl rfl, (by decide), (by decide)⟩
  have htaken : Alone (.tryClaim "aaaa" "u2") oneClaim
      (.cancelled (some conditionalCheckFailed) none) oneClaim :=
    ⟨.inl rfl, (fun _ => by decide +kernel), (by decide)⟩
  have hclock : Alone .elapsed oneClaim false oneClaim := rfl
  have hfree : oneClaim.Free (candidatePrefix "u2" 0) "u2" := by
    constructor <;> decide +kernel
  have hclaim : Alone (.tryClaim (candidatePrefix "u2" 0) "u2") oneClaim .ok
      (oneClaim.commit (candidatePrefix "u2" 0) "u2") := ⟨hfree, rfl⟩
  exact .call hread (.call hconflict (.call htaken (.call hclock (.call hclaim (.ret _ _)))))

/-- Two replicas ask for one prefix: the second one loses a conflict, finds the prefix taken and is
given its first candidate, on both backends. -/
theorem registry_one_owner_second : ∃ w : World Unit, Runs (World.start Unit) w ∧
    w.answers.map Answered.result = [.ok .registered, .ok (.reassigned (candidatePrefix "u2" 0))] ∧
    w.items.Owns "u2" (candidatePrefix "u2" 0) ∧
    (sqliteCalls [] [("aaaa", "u1"), ("aaaa", "u2")]).1 =
      [.ok .registered, .ok (.reassigned (candidatePrefix "u2" 0))] := by
  obtain ⟨v, hrun, hv, hfree, ha⟩ := runs_of_register (w := World.start Unit) (i := ()) rfl exec_first
  have hsecond := exec_second
  rw [← hv] at hsecond
  obtain ⟨w, hrun', hw, _, ha'⟩ := runs_of_register hfree hsecond
  rw [ha] at ha'
  have hsettled : Settled (fun _ => none) [("aaaa", "u1", .registered),
      ("aaaa", "u2", .reassigned (candidatePrefix "u2" 0))] _ :=
    .cons exec_first (.cons exec_second (.nil _))
  obtain ⟨⟨_, _, hnames, _⟩, _, hsame⟩ :=
    registry_one_owner (hrun.trans hrun') hsettled [("aaaa", "u1")]
  refine ⟨w, hrun.trans hrun', by rw [ha']; rfl, ?_, hsame⟩
  refine hnames ⟨"aaaa", "u2", .ok (.reassigned (candidatePrefix "u2" 0))⟩ ?_
    (.reassigned (candidatePrefix "u2" 0)) rfl
  rw [ha']
  exact List.mem_append_right _ List.mem_cons_self

end NexusFlow.Server.Registry
