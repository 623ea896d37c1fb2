import Mathlib.Logic.Relation
import NexusFlow.Chat.Holders

/-!
# The consolidation claim

Model of `crates/chat/src/consolidation_claim.rs:94-149`. The callers that complete a thread race for
its round, which is the thread and the version of its `expects_reply_from` register. The winner of a
round retargets the register; when that fails it hands the claim back, and the statement that does so
deletes the row of the round the register is at *then*, whoever won it.

`World` is one device: the folded views, `synthesis_claims`, and the rounds callers have won and not
released. A step is one statement. The retarget, a re-declaration, a merge and every other write of
the message domain are the folding of one op.

* `one_consolidation`: in every run whose releases are timely (the register is still at the
  releaser's round, or at one nobody has a row for), each round has at most one winner, no claim is
  freed by another caller, and a round without a winner can be claimed.
* `late_release_frees`: a release that is not timely frees another caller's claim.
* `late_release_two_winners`: with it a round has two winners.
-/

namespace NexusFlow.Chat

open NexusFlow.Foundation NexusFlow.Core MessageReducer Relation

/-! ## The statements -/

/-- A round: the thread, and the version of its `expects_reply_from` register. -/
abbrev Round : Type := String × Int × Int

/-- The rows of `synthesis_claims`, with their `claimed`. -/
abbrev Claims : Type := List (Round × String)

/-- The round has a row. -/
def Claims.has (claims : Claims) (round : Round) : Bool := claims.any fun e => e.1 == round

/-- The version of the `expects_reply_from` register in a row of `threads`. -/
def expectsOf (row : Row) : Option (Int × Int) := do
  return (← (row "expects_reply_from_v").int?, ← (row "expects_reply_from_site").int?)

/-- `expects_version`. -/
def expectsVersion (views : Db) (thread : String) : Option (Int × Int) :=
  (views.get "threads" (threadKey thread)).bind expectsOf

/-- A character of a JSON string, as `serde_json` writes it. -/
def jsonChar (c : Char) : List Char :=
  match c with
  | '"' => ['\\', '"']
  | '\\' => ['\\', '\\']
  | '\n' => ['\\', 'n']
  | '\r' => ['\\', 'r']
  | '\t' => ['\\', 't']
  | _ =>
    if c.toNat = 8 then ['\\', 'b']
    else if c.toNat = 12 then ['\\', 'f']
    else if c.toNat < 32 then
      ['\\', 'u', '0', '0', Nat.digitChar (c.toNat / 16), Nat.digitChar (c.toNat % 16)]
    else [c]

/-- `serde_json::to_string(&[marker])`. -/
def markerJson (marker : String) : String :=
  String.ofList (['[', '"'] ++ marker.toList.flatMap jsonChar ++ ['"', ']'])

/-- The thread's register is the marker. -/
def isMarked (row : Row) (marker : String) : Bool :=
  row "expects_reply_from" == .text (markerJson marker)

/-- `claim_consolidation`: whether this caller won, and the claims after it. -/
def claimConsolidation (views : Db) (claims : Claims) (thread marker now : String) :
    Bool × Claims :=
  match views.get "threads" (threadKey thread) with
  | none => (false, claims)
  | some row =>
    if isMarked row marker then (false, claims)
    else match expectsOf row with
      | none => (false, claims)
      | some version =>
        if Claims.has claims (thread, version) then (false, claims)
        else (true, ((thread, version), now) :: claims)

/-- `release_consolidation_claim`: the row of the round the register is at now. -/
def releaseConsolidationClaim (views : Db) (claims : Claims) (thread : String) : Claims :=
  match expectsVersion views thread with
  | none => claims
  | some version => claims.filter fun e => e.1 != (thread, version)

/-! ## Runs -/

/-- One device. -/
structure World (ι : Type) where
  views : Db
  claims : Claims
  /-- The rounds won and not released, with the caller. -/
  held : List (ι × Round)

/-- A device whose store was just opened. -/
def World.fresh (ι : Type) : World ι := ⟨Db.empty, [], []⟩

/-- One op folded into the views. -/
def foldOp (json : Envelopes) (views : Db) (op : Op) : Db :=
  applySqlite chatDdl views ((messageReducer json).changesOf op)

variable {ι : Type}

/-- A call of `claim_consolidation`. -/
def World.claim (w : World ι) (caller : ι) (thread marker now : String) : World ι :=
  match claimConsolidation w.views w.claims thread marker now with
  | (false, _) => w
  | (true, claims) => { w with
      claims := claims
      held := match expectsVersion w.views thread with
        | none => w.held
        | some version => (caller, thread, version) :: w.held }

/-- A call of `release_consolidation_claim` by the winner of a round. -/
def World.release [DecidableEq ι] (w : World ι) (caller : ι) (round : Round) : World ι :=
  { w with
    claims := releaseConsolidationClaim w.views w.claims round.1
    held := w.held.erase (caller, round) }

/-- One statement of one caller, or one op of the message domain. The releases are those `ok`
allows. -/
inductive ClaimStep [DecidableEq ι] (json : Envelopes) (ok : World ι → Round → Prop) : World ι → World ι → Prop
  | claim {w : World ι} (caller : ι) (thread marker now : String) :
    ClaimStep json ok w (w.claim caller thread marker now)
  | fold {w : World ι} (op : Op) : ClaimStep json ok w { w with views := foldOp json w.views op }
  | release {w : World ι} (caller : ι) (round : Round) (hheld : (caller, round) ∈ w.held)
      (hok : ok w round) : ClaimStep json ok w (w.release caller round)

/-- The register is still at the round, or at one that has no row in `synthesis_claims`. -/
def Timely (w : World ι) (round : Round) : Prop :=
  ∀ version, expectsVersion w.views round.1 = some version →
    version = round.2 ∨ Claims.has w.claims (round.1, version) = false

/-- What is expected of the claims. -/
structure OneConsolidation (w : World ι) : Prop where
  /-- A round has one winner that has not released it. -/
  one : (w.held.map Prod.snd).Nodup
  /-- No winner's claim was freed by another caller. -/
  kept : ∀ caller round, (caller, round) ∈ w.held → Claims.has w.claims round = true
  /-- A round without a winner, and not yet retargeted, can be claimed. -/
  claimable : ∀ thread marker now row version,
    w.views.get "threads" (threadKey thread) = some row → isMarked row marker = false →
    expectsVersion w.views thread = some version →
    (∀ caller, (caller, thread, version) ∉ w.held) →
    (claimConsolidation w.views w.claims thread marker now).1 = true

/-! ## The register only advances -/

/-- What a change of a `threads` row does to the version of its `expects_reply_from` register. -/
structure Advances (c : Change) : Prop where
  first : ∃ version, expectsOf (rowAfter chatDdl c none) = some version
  next : ∀ row version, expectsOf row = some version →
    ∃ version', expectsOf (rowAfter chatDdl c (some row)) = some version' ∧
      toLex version ≤ toLex version'

theorem expectsOf_congr {row row' : Row}
    (h : ∀ col ∈ ["expects_reply_from_v", "expects_reply_from_site"], row col = row' col) :
    expectsOf row = expectsOf row' := by
  unfold expectsOf
  rw [h _ (by simp), h _ (by simp)]

/-- A change that keeps off the register's version. -/
theorem advances_beside {c : Change} (hc : c.WF) (htable : c.table = "threads")
    (hkey : ∃ id, c.key = threadKey id)
    (hoff : ∀ col ∈ ["expects_reply_from_v", "expects_reply_from_site"],
      col ∉ c.effect.writes.map Prod.fst) : Advances c := by
  obtain ⟨id, hkey⟩ := hkey
  constructor
  · refine ⟨(0, 0), ?_⟩
    rw [rowAfter_none hc, expectsOf_congr fun col hcol => assign_of_notMem (hoff col hcol), htable,
      hkey]
    rfl
  · intro row version h
    refine ⟨version, ?_, le_rfl⟩
    rcases rowAfter_some_cases chatDdl c row with he | he
    · rw [he, h]
    · rw [he, expectsOf_congr fun col hcol => assign_of_notMem (hoff col hcol), h]

theorem storedVersion_of_expectsOf {row : Row} {version : Int × Int}
    (h : expectsOf row = some version) :
    storedVersion row ["expects_reply_from_v", "expects_reply_from_site"] =
      some [version.1, version.2] := by
  simp only [expectsOf, bind, Option.bind_eq_some_iff] at h
  obtain ⟨v, hv, s, hs, h⟩ := h
  cases h
  simp [storedVersion, List.mapM_cons, hv, hs]

/-- The register's own change. -/
theorem advances_expects {op : Op} (hf : op.field = "expects_reply_from") :
    Advances (lww op "threads" "thread_id") := by
  have hwf : (lww op "threads" "thread_id").WF := (lww_off_root (by rw [hf]; decide)).2.1
  have hassign : ∀ row, expectsOf (assign row (lww op "threads" "thread_id").effect.writes) =
      some (op.lamport, op.site) := by
    intro row
    unfold lww
    rw [hf]
    rfl
  constructor
  · exact ⟨_, by rw [rowAfter_none hwf, hassign]⟩
  · intro row version h
    rw [rowAfter_register (c := lww op "threads" "thread_id") rfl]
    split_ifs with hw
    · refine ⟨_, hassign row, ?_⟩
      have hstored : storedVersion row ((lww op "threads" "thread_id").effect.version.map Prod.fst) =
          some [version.1, version.2] := by
        unfold lww
        rw [hf]
        exact storedVersion_of_expectsOf h
      have hlt : [version.1, version.2] < [op.lamport, op.site] := hw _ hstored
      refine (Prod.Lex.toLex_lt_toLex.mpr ?_).le
      simpa [List.cons_lt_cons_iff] using hlt
    · exact ⟨version, h, le_rfl⟩

variable {json : Envelopes}

/-- **Every change to `threads` advances the register, or leaves it.** -/
theorem advances_of_mem {op : Op} {c : Change} (hc : c ∈ (messageReducer json).changesOf op)
    (ht : c.table = "threads") : Advances c := by
  obtain ⟨hf, hkind, ⟨_, hopen⟩ | ⟨htype, rfl⟩⟩ := mem_changesOf_threads.mp ⟨hc, ht⟩
  · have hclaim := (mem_threadOpen hopen).2.1
    refine advances_beside (hclaim.wf (by decide)) ht ⟨_, hclaim.key⟩ ?_
    rw [hclaim.writes]
    decide
  · have hfield := field_of_folds hf hkind htype
    by_cases he : op.field = "expects_reply_from"
    · exact advances_expects he
    · refine advances_beside (lww_off_root hfield).2.1 rfl ⟨_, rfl⟩ ?_
      have hoff : ∀ f ∈ threadFields, f ≠ "expects_reply_from" →
          ∀ col ∈ ["expects_reply_from_v", "expects_reply_from_site"],
            col ∉ [f, f ++ "_v", f ++ "_site"] := by decide
      exact hoff op.field hfield he

/-- Folding changes advances the register of a row, and never drops the row. -/
theorem fold_advances {cs : List Change} (hcs : ∀ c ∈ cs, Advances c) (o : Option Row)
    (ho : ∀ row, o = some row → ∃ version, expectsOf row = some version) :
    (∀ row, cs.foldl (fun o c => some (rowAfter chatDdl c o)) o = some row →
      ∃ version, expectsOf row = some version) ∧
    ∀ version, o.bind expectsOf = some version → ∃ version',
      (cs.foldl (fun o c => some (rowAfter chatDdl c o)) o).bind expectsOf = some version' ∧
        toLex version ≤ toLex version' := by
  induction cs generalizing o with
  | nil => exact ⟨ho, fun version h => ⟨version, h, le_rfl⟩⟩
  | cons c cs ih =>
    have hc := hcs c List.mem_cons_self
    have ih := ih (fun d hd => hcs d (List.mem_cons_of_mem c hd)) (some (rowAfter chatDdl c o))
      fun row hrow => by
        cases hrow
        cases o with
        | none => exact hc.first
        | some row =>
          obtain ⟨version, hv⟩ := ho row rfl
          obtain ⟨version', hv', _⟩ := hc.next row version hv
          exact ⟨version', hv'⟩
    refine ⟨ih.1, fun version h => ?_⟩
    obtain ⟨row, rfl, hv⟩ := Option.bind_eq_some_iff.mp h
    obtain ⟨v', hv', hle⟩ := hc.next row version hv
    obtain ⟨v'', hv'', hle'⟩ := ih.2 v' hv'
    exact ⟨v'', hv'', hle.trans hle'⟩

/-- The rows of `threads` carry a version. -/
def Versioned (views : Db) : Prop := ∀ thread row,
  views.get "threads" (threadKey thread) = some row → ∃ version, expectsOf row = some version

variable (json) in
/-- **A folded op only advances a round.** -/
theorem foldOp_advances {views : Db} (hv : Versioned views) (op : Op) :
    Versioned (foldOp json views op) ∧ ∀ thread version, expectsVersion views thread = some version →
      ∃ version', expectsVersion (foldOp json views op) thread = some version' ∧
        toLex version ≤ toLex version' := by
  have hrow : ∀ thread, (foldOp json views op).get "threads" (threadKey thread) =
      (((messageReducer json).changesOf op).filter fun c =>
        c.table = "threads" ∧ c.key = threadKey thread).foldl
          (fun o c => some (rowAfter chatDdl c o)) (views.get "threads" (threadKey thread)) := by
    intro thread
    rw [foldOp, get_applySqlite, View.foldl_step_row]
  have hadv : ∀ thread, ∀ c ∈ ((messageReducer json).changesOf op).filter fun c =>
      c.table = "threads" ∧ c.key = threadKey thread, Advances c := by
    intro thread c hc
    obtain ⟨hc, hat⟩ := List.mem_filter.mp hc
    exact advances_of_mem hc (of_decide_eq_true hat).1
  constructor
  · intro thread row h
    rw [hrow] at h
    exact (fold_advances (hadv thread) _ (hv thread)).1 row h
  · intro thread version h
    unfold expectsVersion at h ⊢
    rw [hrow]
    exact (fold_advances (hadv thread) _ (hv thread)).2 version h

/-! ## What a step does -/

section Steps

variable {w : World ι} {claims : Claims} {round : Round}

@[simp] theorem has_cons {now : String} {other : Round} :
    Claims.has ((other, now) :: claims) round = true ↔ other = round ∨ Claims.has claims round = true := by
  simp [Claims.has]

@[simp] theorem has_erased {other : Round} :
    Claims.has (claims.filter fun e => e.1 != other) round = true ↔
      round ≠ other ∧ Claims.has claims round = true := by
  simp only [Claims.has, List.any_eq_true, List.mem_filter, bne_iff_ne, beq_iff_eq]
  constructor
  · rintro ⟨e, ⟨he, hne⟩, rfl⟩
    exact ⟨hne, e, he, rfl⟩
  · rintro ⟨hne, e, he, rfl⟩
    exact ⟨e, ⟨he, hne⟩, rfl⟩

/-- **A claim** changes nothing, or takes the thread's current round, which had no row. -/
theorem claim_cases (w : World ι) (caller : ι) (thread marker now : String) :
    w.claim caller thread marker now = w ∨
      ∃ version, expectsVersion w.views thread = some version ∧
        Claims.has w.claims (thread, version) = false ∧
        w.claim caller thread marker now = { w with
          claims := ((thread, version), now) :: w.claims
          held := (caller, thread, version) :: w.held } := by
  unfold World.claim claimConsolidation
  cases hrow : w.views.get "threads" (threadKey thread) with
  | none => exact .inl rfl
  | some row =>
    have hversion : expectsVersion w.views thread = expectsOf row := by
      rw [expectsVersion, hrow]
      rfl
    rw [hversion]
    cases hmark : isMarked row marker with
    | true => exact .inl (by simp [hmark])
    | false =>
      cases hv : expectsOf row with
      | none => exact .inl (by simp [hmark, hv])
      | some version =>
        cases hhas : Claims.has w.claims (thread, version) with
        | true => exact .inl (by simp [hmark, hv, hhas])
        | false => exact .inr ⟨version, rfl, hhas, by simp [hmark, hv, hhas]⟩

/-- What every timely run maintains. -/
structure ClaimInv (w : World ι) : Prop where
  versioned : Versioned w.views
  one : (w.held.map Prod.snd).Nodup
  kept : ∀ caller round, (caller, round) ∈ w.held → Claims.has w.claims round = true
  /-- No row is of a round still to come. -/
  past : ∀ round, Claims.has w.claims round = true →
    ∃ version, expectsVersion w.views round.1 = some version ∧ toLex round.2 ≤ toLex version
  /-- The row of the current round has a winner that has not released it. -/
  owned : ∀ round, Claims.has w.claims round = true →
    expectsVersion w.views round.1 = some round.2 → ∃ caller, (caller, round) ∈ w.held

theorem ClaimInv.fresh : ClaimInv (World.fresh ι) where
  versioned _ _ h := by cases h
  one := List.nodup_nil
  kept _ _ h := by cases h
  past _ h := by cases h
  owned _ h := by cases h

theorem ClaimInv.claim (hw : ClaimInv w) (caller : ι) (thread marker now : String) :
    ClaimInv (w.claim caller thread marker now) := by
  rcases claim_cases w caller thread marker now with h | ⟨version, hv, hfree, h⟩
  · rwa [h]
  · rw [h]
    refine ⟨hw.versioned, ?_, fun c r hmem => ?_, fun r hr => ?_, fun r hr hcur => ?_⟩
    · rw [List.map_cons, List.nodup_cons]
      refine ⟨fun hmem => ?_, hw.one⟩
      obtain ⟨⟨c, r⟩, hheld, rfl⟩ := List.mem_map.mp hmem
      have hrow := hw.kept c _ hheld
      rw [hfree] at hrow
      cases hrow
    · rcases List.mem_cons.mp hmem with heq | hheld
      · cases heq
        exact has_cons.mpr (.inl rfl)
      · exact has_cons.mpr (.inr (hw.kept c r hheld))
    · rcases has_cons.mp hr with rfl | hr
      · exact ⟨version, hv, le_rfl⟩
      · exact hw.past r hr
    · rcases has_cons.mp hr with rfl | hr
      · exact ⟨caller, List.mem_cons_self⟩
      · obtain ⟨c, hc⟩ := hw.owned r hr hcur
        exact ⟨c, List.mem_cons_of_mem _ hc⟩

/-- When the register moved on, no row is of the round it moved to. -/
theorem ClaimInv.fold (hw : ClaimInv w) (op : Op) :
    ClaimInv { w with views := foldOp json w.views op } := by
  obtain ⟨hversioned, hadv⟩ := foldOp_advances json hw.versioned op
  refine ⟨hversioned, hw.one, hw.kept, fun r hr => ?_, fun r hr hcur => ?_⟩
  · obtain ⟨v, hv, hle⟩ := hw.past r hr
    obtain ⟨v', hv', hle'⟩ := hadv r.1 v hv
    exact ⟨v', hv', hle.trans hle'⟩
  · obtain ⟨v, hv, hle⟩ := hw.past r hr
    obtain ⟨v', hv', hle'⟩ := hadv r.1 v hv
    obtain rfl : v' = r.2 := Option.some.inj (hv'.symm.trans hcur)
    have heq : v = r.2 := toLex.injective (le_antisymm hle' hle)
    exact hw.owned r hr (by rw [hv, heq])

theorem ClaimInv.release [DecidableEq ι] (hw : ClaimInv w) {caller : ι} {round : Round}
    (hheld : (caller, round) ∈ w.held) (ht : Timely w round) : ClaimInv (w.release caller round) := by
  have hnd : w.held.Nodup := List.Nodup.of_map _ hw.one
  have hother : ∀ c r, (c, r) ∈ w.held.erase (caller, round) → (c, r) ∈ w.held ∧ r ≠ round := by
    intro c r hmem
    rw [hnd.mem_erase_iff] at hmem
    refine ⟨hmem.2, fun heq => hmem.1 ?_⟩
    exact List.inj_on_of_nodup_map hw.one hmem.2 hheld heq
  -- the statement removes the releaser's own row, or none
  have hrows : ∀ r, Claims.has (releaseConsolidationClaim w.views w.claims round.1) r = true ↔
      Claims.has w.claims r = true ∧ (expectsVersion w.views round.1 = some round.2 → r ≠ round) := by
    intro r
    unfold releaseConsolidationClaim
    cases hv : expectsVersion w.views round.1 with
    | none => simp
    | some version =>
      simp only [has_erased, Option.some.injEq]
      rcases ht version hv with rfl | hfree
      · simp [and_comm]
      · constructor
        · rintro ⟨hne, hr⟩
          exact ⟨hr, fun heq => by rwa [heq] at hne⟩
        · rintro ⟨hr, _⟩
          refine ⟨?_, hr⟩
          rintro rfl
          rw [hfree] at hr
          cases hr
  refine ⟨hw.versioned, hw.one.sublist (List.erase_sublist.map _), fun c r hmem => ?_,
    fun r hr => hw.past r ((hrows r).mp hr).1, fun r hr hcur => ?_⟩
  · obtain ⟨hc, hne⟩ := hother c r hmem
    exact (hrows r).mpr ⟨hw.kept c r hc, fun _ => hne⟩
  · obtain ⟨hr, hne⟩ := (hrows r).mp hr
    obtain ⟨c, hc⟩ := hw.owned r hr hcur
    have hrne : r ≠ round := by
      rintro rfl
      exact hne hcur rfl
    refine ⟨c, ?_⟩
    change (c, r) ∈ w.held.erase (caller, round)
    rw [hnd.mem_erase_iff]
    exact ⟨fun heq => hrne (Prod.mk.inj heq).2, hc⟩

theorem ClaimInv.step [DecidableEq ι] {w' : World ι} (hw : ClaimInv w) (h : ClaimStep json Timely w w') :
    ClaimInv w' := by
  cases h with
  | claim caller thread marker now => exact hw.claim caller thread marker now
  | fold op => exact hw.fold op
  | release caller round hheld hok => exact hw.release hheld hok

theorem ClaimInv.run [DecidableEq ι] {w' : World ι} (hw : ClaimInv w)
    (h : ReflTransGen (ClaimStep json Timely) w w') : ClaimInv w' := by
  induction h with
  | refl => exact hw
  | tail _ hstep ih => exact ih.step hstep

theorem ClaimInv.oneConsolidation (hw : ClaimInv w) : OneConsolidation w where
  one := hw.one
  kept := hw.kept
  claimable thread marker now row version hrow hmark hv hnobody := by
    have hfree : Claims.has w.claims (thread, version) = false := by
      rw [Bool.eq_false_iff]
      intro hhas
      obtain ⟨caller, hc⟩ := hw.owned (thread, version) hhas hv
      exact hnobody caller hc
    have hrv : expectsOf row = some version := by
      rw [expectsVersion, hrow] at hv
      exact hv
    unfold claimConsolidation
    simp [hrow, hmark, hrv, hfree]

end Steps

/-! ## Every run -/

/-- **One consolidation a round**, along every run whose releases are timely, whatever the callers and
however their statements interleave. -/
theorem one_consolidation [DecidableEq ι] {w : World ι}
    (h : ReflTransGen (ClaimStep json Timely) (World.fresh ι) w) : OneConsolidation w :=
  (ClaimInv.fresh.run h).oneConsolidation

/-- **A release that is not timely frees another caller's claim.** -/
theorem late_release_frees [DecidableEq ι] {w : World ι}
    (h : ReflTransGen (ClaimStep json Timely) (World.fresh ι) w) (caller : ι)
    {round : Round} (hlate : ¬ Timely w round) :
    ∃ other current, current ≠ round ∧ (other, current) ∈ (w.release caller round).held ∧
      Claims.has (w.release caller round).claims current = false := by
  have hw := ClaimInv.fresh.run h
  unfold Timely at hlate
  push Not at hlate
  obtain ⟨version, hv, hne, hhas⟩ := hlate
  have hhas := Bool.eq_true_of_not_eq_false hhas
  obtain ⟨other, hother⟩ := hw.owned (round.1, version) hhas hv
  have hcur : (round.1, version) ≠ round := fun heq => hne (congrArg Prod.snd heq)
  refine ⟨other, (round.1, version), hcur, ?_, ?_⟩
  · exact (List.mem_erase_of_ne fun heq => hcur (Prod.mk.inj heq).2).mpr hother
  · rw [Bool.eq_false_iff]
    change ¬ Claims.has (releaseConsolidationClaim w.views w.claims round.1) _ = true
    rw [releaseConsolidationClaim, hv]
    simp

/-- The thread is opened, by alice. -/
def threadOpened : Op := chatOp "T" 1 1 "thread" "m-T" "root" "open" "root" "alice"

/-- Alice expects bob's reply. -/
def expectsBob (opId : String) (lamport : Int) : Op :=
  chatOp opId lamport 1 "thread" "m-T" "expects_reply_from" "set" (markerJson "local/bob") "alice"

/-- The world after one more op. -/
def World.folded (w : World String) (op : Op) : World String :=
  { w with views := foldOp sampleJson w.views op }

/-- One caller wins the round, the thread is declared anew, and another caller wins the new round. -/
def declaredAnew : World String :=
  (((((World.fresh String).folded threadOpened).folded (expectsBob "U" 2)).claim
    "one" "m-T" "local/__synth__" "t").folded (expectsBob "V" 3)).claim
    "two" "m-T" "local/__synth__" "t"

/-- The first caller, whose retarget failed, releases; a third one claims. -/
def releasedLate : World String :=
  (declaredAnew.release "one" ("m-T", 2, 1)).claim "three" "m-T" "local/__synth__" "t"

/-- The statements that lead to two winners of one round. -/
theorem run_declaredAnew (ok : World String → Round → Prop) :
    ReflTransGen (ClaimStep sampleJson ok) (World.fresh String) declaredAnew := by
  refine .tail (.tail (.tail (.tail (.tail .refl (.fold _)) (.fold _)) (.claim "one" _ _ _))
    (.fold _)) (.claim "two" _ _ _)

/-- **A late release lets two callers consolidate one round.** -/
theorem late_release_two_winners :
    ReflTransGen (ClaimStep sampleJson fun _ _ => True) (World.fresh String) releasedLate ∧
      releasedLate.held = [("three", "m-T", 3, 1), ("two", "m-T", 3, 1)] ∧
      ¬ OneConsolidation releasedLate := by
  have hheld : releasedLate.held = [("three", "m-T", 3, 1), ("two", "m-T", 3, 1)] := by
    decide
  refine ⟨?_, hheld, fun h => ?_⟩
  · refine .tail (.tail (run_declaredAnew _) (.release "one" ("m-T", 2, 1) ?_ trivial))
      (.claim "three" _ _ _)
    decide
  · have hone := h.one
    rw [hheld] at hone
    exact absurd hone (by decide)

/-- Up to the release, each round has its one winner. -/
theorem one_consolidation_declaredAnew : OneConsolidation declaredAnew := by
  have hrun := run_declaredAnew Timely
  exact one_consolidation hrun

end NexusFlow.Chat
