import NexusFlow.Run.Questions
import NexusFlow.Host.Log

/-!
# The keys of a log

Every event of a log stands under a key, and a key stands in a log once. An input comes with its key
(`KeyOf` lists the formats of `crates/run-host`); a decision stands under its input's key and its
index, a question under its own id, a row set aside under `poison/<run>/<key>`. The four kinds are
told apart by the first and the last piece of the key (`LogKey`).

Headline result: `block_keys_new`. The block an input is folded with holds no key that is in the log
already, unless the input itself is: no decision key the engine emits ever equals one.
-/

namespace NexusFlow.Host

open NexusFlow.Run
open NexusFlow.Lib

/-! ## Pieces -/

/-- What stands before the first `/`. -/
def firstPiece (key : Key) : Text := (key.splitOn '/').head?.getD []

/-- What stands after the last `/`. -/
def lastPiece (key : Key) : Text := (key.splitOn '/').getLast?.getD []

theorem splitOn_cons_pieces (key : Key) : ∃ first rest, key.splitOn '/' = first :: rest := by
  cases h : key.splitOn '/' with
  | nil => exact absurd h (List.splitOn_ne_nil _ _)
  | cons first rest => exact ⟨first, rest, rfl⟩

theorem firstPiece_slash (a b : Text) : firstPiece (a ++ '/' :: b) = firstPiece a := by
  obtain ⟨first, rest, h⟩ := splitOn_cons_pieces a
  unfold firstPiece
  rw [List.splitOn_append_cons_self, h]
  rfl

theorem lastPiece_slash (a b : Text) : lastPiece (a ++ '/' :: b) = lastPiece b := by
  obtain ⟨first, rest, h⟩ := splitOn_cons_pieces b
  unfold lastPiece
  rw [List.splitOn_append_cons_self, h, List.getLast?_append_cons]

theorem firstPiece_self {a : Text} (h : '/' ∉ a) : firstPiece a = a := by
  unfold firstPiece
  rw [List.splitOn_eq_singleton h]
  rfl

theorem lastPiece_self {a : Text} (h : '/' ∉ a) : lastPiece a = a := by
  unfold lastPiece
  rw [List.splitOn_eq_singleton h]
  rfl

/-- Two keys that end in a piece after a `/` agree before it. -/
theorem slash_piece_inj {a b p q : Text} (hp : '/' ∉ p) (hq : '/' ∉ q)
    (h : a ++ '/' :: p = b ++ '/' :: q) : a = b ∧ p = q := by
  have hsplit := congrArg (List.splitOn '/') h
  rw [List.splitOn_append_cons_self, List.splitOn_append_cons_self, List.splitOn_eq_singleton hp,
    List.splitOn_eq_singleton hq] at hsplit
  obtain ⟨hab, hpq⟩ := List.append_inj' hsplit rfl
  have hjoin : ∀ t : Text, ['/'].intercalate (t.splitOn '/') = t := fun _ =>
    List.intercalate_splitOn '/'
  refine ⟨?_, (List.cons.inj hpq).1⟩
  rw [← hjoin a, hab, hjoin]

/-! ## The keys of inputs -/

/-- The first pieces of the keys inputs come with. -/
def inputHeads : List String :=
  ["commissioned", "root_opened", "claim_taken", "claim_busy", "claim_released", "tree_prepared",
    "tree_refused", "tree_parked", "delivered", "nudged", "stop_signalled", "fact", "timer", "input"]

/-- A key an input may come with: it begins as one, and does not end as a decision's. -/
def isInputKey (key : Key) : Bool :=
  (inputHeads.map String.toList).contains (firstPiece key) && (lastPiece key).head? != some 'd'

/-- A text after a first piece. -/
def slash (head : String) (rest : Text) : Text := head.toList ++ '/' :: rest

/-- `RunId::parse`, as far as a key reads it: `r-`, and no `/`. -/
structure IsRunId (run : RunId) : Prop where
  start : "r-".toList <+: run
  noSlash : '/' ∉ run

/-- A number, an instant or a ULID as a key holds it: it begins with a digit or a sign. -/
structure IsStamp (text : Text) : Prop where
  start : ∃ c, text.head? = some c ∧ (c.isDigit = true ∨ c = '-' ∨ c = '+')
  noSlash : '/' ∉ text

/-- The key of an owed delivery: `owed_deliveries`. -/
inductive DeliveryKey (run : RunId) : Key → Prop
  | result : DeliveryKey run (slash "result" run)
  | park : DeliveryKey run (slash "park" run)
  | escalated (s : Slot) : DeliveryKey run
      (slash "question" (slash "escalated" (s.sessionKey run)))
  | ceiling (s : StepId) (v p : Nat) : DeliveryKey run
      (slash "question" (Emit.ceilingKey run s v p))

/-- **The key an input of a run comes with**, as each place of the host and the bridge formats it. -/
inductive KeyOf (run : RunId) : EventBody → Key → Prop
  | commissioned {w f : String} {p : LivenessPolicy} {t : MessageId} {q : String} :
      KeyOf run (.commissioned w f p t q) (slash "commissioned" run)
  | rootOpened {t m : MessageId} : KeyOf run (.rootOpened t m) (slash "root_opened" run)
  | claimTaken : KeyOf run .claimTaken (slash "claim_taken" run)
  | claimBusy {holder : RunId} (changes : Nat) :
      KeyOf run (.claimBusy holder) (slash "claim_busy" (run ++ '/' :: decimal changes))
  | claimReleased : KeyOf run .claimReleased (slash "claim_released" run)
  | treePrepared {base : Base} {found : Option ParkOutcome} :
      KeyOf run (.treePrepared base found) (slash "tree_prepared" run)
  | treeRefused {reason : TreeRefusal} (refusals : Nat) :
      KeyOf run (.treeRefused reason) (slash "tree_refused" (run ++ '/' :: decimal refusals))
  | treeParked {outcome : ParkOutcome} :
      KeyOf run (.treeParked outcome) (slash "tree_parked" run)
  | delivered {m : MessageId} {effect : Key} (h : DeliveryKey run effect) :
      KeyOf run (.delivered m) (deliveredKey effect)
  | nudged {session : SessionKey} {since : Text} (h : IsStamp since) :
      KeyOf run (.nudged session) (slash "nudged" (session ++ '/' :: since))
  | stopSignalled {session : SessionKey} {nth : Nat} {signal : StopKind} :
      KeyOf run (.stopSignalled session nth signal)
        (slash "stop_signalled" (session ++ '/' :: decimal nth))
  | fact {session : SessionKey} {f : SessionFact} (offset : Nat) :
      KeyOf run (.sessionFact session f) (slash "fact" (session ++ '/' :: decimal offset))
  | factStopped {session : SessionKey} {f : SessionFact} :
      KeyOf run (.sessionFact session f) (slash "fact" (session ++ '/' :: "stopped".toList))
  | factStartLost {session : SessionKey} {f : SessionFact} :
      KeyOf run (.sessionFact session f) (slash "fact" (session ++ '/' :: "start-lost".toList))
  | timer {timer : Text} {fireAt : Timestamp} {instant : Text} (h : IsStamp instant) :
      KeyOf run (.timerFired timer fireAt) (slash "timer" (timer ++ '/' :: instant))
  | reply {session : SessionKey} {m : MessageId} {escalate rework : Bool} {ulid : Text}
      (h : IsStamp ulid) :
      KeyOf run (.reply session m escalate rework) (slash "input" (run ++ '/' :: ulid))
  | answer {question : Key} {disposition : Disposition} {m : MessageId} {ulid : Text}
      (h : IsStamp ulid) :
      KeyOf run (.answer question disposition m) (slash "input" (run ++ '/' :: ulid))
  | resume {slot : Option Slot} {ulid : Text} (h : IsStamp ulid) :
      KeyOf run (.resume slot) (slash "input" (run ++ '/' :: ulid))
  | resumeRun {ulid : Text} (h : IsStamp ulid) :
      KeyOf run .resumeRun (slash "input" (run ++ '/' :: ulid))
  | withdrawn {m : Option MessageId} {«by» : WithdrawnBy} {ulid : Text} (h : IsStamp ulid) :
      KeyOf run (.withdrawn m «by») (slash "input" (run ++ '/' :: ulid))

/-- A piece that does not begin as a decision's index. -/
def Ends (piece : Text) : Prop := '/' ∉ piece ∧ piece.head? ≠ some 'd'

theorem IsRunId.ends {run : RunId} (h : IsRunId run) : Ends run := by
  obtain ⟨rest, rfl⟩ := h.start
  exact ⟨h.noSlash, by simp⟩

theorem IsStamp.ends {text : Text} (h : IsStamp text) : Ends text := by
  refine ⟨h.noSlash, fun hd => ?_⟩
  obtain ⟨c, hc, hstart⟩ := h.start
  rw [hc] at hd
  cases hd
  rcases hstart with hdigit | hsign | hsign
  · cases hdigit
  · cases hsign
  · cases hsign

theorem isStamp_decimal (n : Nat) : IsStamp (decimal n) := by
  refine ⟨?_, slash_notMem_decimal n⟩
  cases hd : decimal n with
  | nil => exact absurd hd Nat.toDigits_ne_nil
  | cons c rest =>
    refine ⟨c, rfl, Or.inl ?_⟩
    exact Nat.isDigit_of_mem_toDigits (by decide) (by decide) (hd ▸ List.mem_cons_self)

/-- A key that begins as an input's and does not end as a decision's is an input's. -/
theorem isInputKey_of {head : String} {rest : Text} (hhead : head ∈ inputHeads)
    (hlast : (lastPiece rest).head? ≠ some 'd') : isInputKey (slash head rest) = true := by
  have hno : ∀ head ∈ inputHeads, '/' ∉ head.toList := by decide
  unfold isInputKey slash
  rw [firstPiece_slash, firstPiece_self (hno head hhead), lastPiece_slash, Bool.and_eq_true,
    bne_iff_ne, List.contains_iff_mem]
  exact ⟨List.mem_map_of_mem hhead, hlast⟩

theorem lastPiece_ends {piece : Text} (h : Ends piece) (before : Text) :
    (lastPiece (before ++ '/' :: piece)).head? ≠ some 'd' := by
  rw [lastPiece_slash, lastPiece_self h.1]
  exact h.2

theorem lastPiece_sessionKey (run : RunId) (s : Slot) :
    (lastPiece (s.sessionKey run)).head? ≠ some 'd' := by
  have heq : s.sessionKey run = (run ++ '/' :: (s.step.text ++ '/' :: ('v' :: decimal s.visit ++
      '/' :: s.member.text))) ++ '/' :: ('a' :: decimal s.attempt) := by
    simp [Slot.sessionKey, joinSlash, List.intercalate, Slot.pieces]
  rw [heq]
  refine lastPiece_ends ⟨?_, by simp⟩ _
  simpa using slash_notMem_decimal s.attempt

theorem lastPiece_ceilingKey (run : RunId) (s : StepId) (v p : Nat) :
    (lastPiece (Emit.ceilingKey run s v p)).head? ≠ some 'd' := by
  have heq : Emit.ceilingKey run s v p = ("ceiling".toList ++ '/' :: (run ++ '/' :: (s.text ++
      '/' :: ('v' :: decimal v)))) ++ '/' :: ('p' :: decimal p) := by
    simp [Emit.ceilingKey, joinSlash, List.intercalate]
  rw [heq]
  refine lastPiece_ends ⟨?_, by simp⟩ _
  simpa using slash_notMem_decimal p

theorem DeliveryKey.lastPiece {run : RunId} (hrun : IsRunId run) {effect : Key}
    (h : DeliveryKey run effect) : (lastPiece effect).head? ≠ some 'd' := by
  cases h with
  | result => exact lastPiece_ends hrun.ends _
  | park => exact lastPiece_ends hrun.ends _
  | escalated s =>
    unfold slash
    rw [lastPiece_slash, lastPiece_slash]
    exact lastPiece_sessionKey run s
  | ceiling s v p =>
    unfold slash
    rw [lastPiece_slash]
    exact lastPiece_ceilingKey run s v p

theorem deliveredKey_eq (effect : Key) : deliveredKey effect = slash "delivered" effect := by
  have heq : deliveredPrefix = "delivered".toList ++ ['/'] := by decide
  unfold deliveredKey slash
  rw [heq, List.append_assoc]
  rfl

/-- **Every key the host and the bridge format is an input's.** -/
theorem KeyOf.isInputKey {run : RunId} (hrun : IsRunId run) {body : EventBody} {key : Key}
    (h : KeyOf run body key) : isInputKey key = true := by
  have hone : ∀ {head : String}, head ∈ inputHeads → Host.isInputKey (slash head run) = true := by
    intro head hhead
    refine isInputKey_of hhead ?_
    rw [lastPiece_self hrun.ends.1]
    exact hrun.ends.2
  have htwo : ∀ {head : String} {mid piece : Text}, head ∈ inputHeads → Ends piece →
      Host.isInputKey (slash head (mid ++ '/' :: piece)) = true :=
    fun hhead hpiece => isInputKey_of hhead (lastPiece_ends hpiece _)
  have hstopped : Ends "stopped".toList := ⟨by decide, by decide⟩
  have hstartLost : Ends "start-lost".toList := ⟨by decide, by decide⟩
  cases h with
  | commissioned => exact hone (by decide)
  | rootOpened => exact hone (by decide)
  | claimTaken => exact hone (by decide)
  | claimBusy n => exact htwo (by decide) (isStamp_decimal n).ends
  | claimReleased => exact hone (by decide)
  | treePrepared => exact hone (by decide)
  | treeRefused n => exact htwo (by decide) (isStamp_decimal n).ends
  | treeParked => exact hone (by decide)
  | delivered hd =>
    rw [deliveredKey_eq]
    exact isInputKey_of (by decide) (hd.lastPiece hrun)
  | nudged hs => exact htwo (by decide) hs.ends
  | stopSignalled => exact htwo (by decide) (isStamp_decimal _).ends
  | fact n => exact htwo (by decide) (isStamp_decimal n).ends
  | factStopped => exact htwo (by decide) hstopped
  | factStartLost => exact htwo (by decide) hstartLost
  | timer hs => exact htwo (by decide) hs.ends
  | reply hs => exact htwo (by decide) hs.ends
  | answer hs => exact htwo (by decide) hs.ends
  | resume hs => exact htwo (by decide) hs.ends
  | resumeRun hs => exact htwo (by decide) hs.ends
  | withdrawn hs => exact htwo (by decide) hs.ends

/-! ## The keys of a log -/

/-- **What a key of a log is**, in the state its log folds to and with the keys of the log. -/
inductive LogKey (st : RunState) (logged : List Key) : Key → Prop
  | input {key : Key} (h : isInputKey key = true) : LogKey st logged key
  | decision {key : Key} (h : isInputKey key = true) (hmem : key ∈ logged) (i : Nat) :
      LogKey st logged (key ++ '/' :: ('d' :: decimal i))
  | question {q : Question} (hq : q ∈ st.questions) : LogKey st logged q.id
  | poison {key : Key} (h : isInputKey key = true) : LogKey st logged (poisonKey st.run key)

theorem LogKey.aside {st : RunState} {logged : List Key} {run : RunId} (hrun : st.run = run)
    {key : Key} (h : isInputKey key = true) : LogKey st logged (poisonKey run key) := hrun ▸ .poison h

theorem decisionKey_of_none {d : Decision} (h : d.question? = none) (key : Key) (i : Nat) :
    decisionKey key i d = key ++ '/' :: ('d' :: decimal i) := by
  have heq : "/d".toList = ['/', 'd'] := rfl
  have hplain : decisionKey key i d = key ++ "/d".toList ++ decimal i := by
    cases d with
    | escalated question slot message => cases h
    | ceiling question step pass lastVerdict => cases h
    | _ => rfl
  rw [hplain, heq, List.append_assoc]
  rfl

theorem decisionKey_of_some {d : Decision} {id : Key} (h : d.question? = some id) (key : Key)
    (i : Nat) : decisionKey key i d = id := by
  cases d with
  | escalated question slot message => exact Option.some.inj h
  | ceiling question step pass lastVerdict => exact Option.some.inj h
  | _ => cases h

/-! ### Telling them apart -/

theorem firstPiece_poisonKey (run : RunId) (key : Key) :
    firstPiece (poisonKey run key) = "poison".toList := by
  have heq : poisonKey run key = "poison".toList ++ '/' :: (run ++ '/' :: key) := by
    have hpoison : "poison/".toList = "poison".toList ++ ['/'] := by decide
    unfold poisonKey
    rw [hpoison, List.append_assoc, List.append_assoc]
    rfl
  rw [heq, firstPiece_slash]
  exact firstPiece_self (by decide)

theorem firstPiece_question {st : RunState} (hinv : Inv st) {q : Question} (hq : q ∈ st.questions) :
    firstPiece q.id = "escalated".toList ∨ firstPiece q.id = "ceiling".toList := by
  rcases question_id hinv hq with ⟨s, hid⟩ | ⟨s, v, p, hid⟩
  · left
    have hescalated : "escalated/".toList = "escalated".toList ++ ['/'] := by decide
    rw [hid, hescalated, List.append_assoc, List.singleton_append, firstPiece_slash]
    exact firstPiece_self (by decide)
  · right
    have heq : Emit.ceilingKey st.run s v p = "ceiling".toList ++ '/' ::
        joinSlash [st.run, s.text, 'v' :: decimal v, 'p' :: decimal p] := by
      simp [Emit.ceilingKey, joinSlash, List.intercalate]
    rw [hid, heq, firstPiece_slash]
    exact firstPiece_self (by decide)

/-- The first piece of an input's key is none of the others'. -/
theorem isInputKey_first {key : Key} (h : isInputKey key = true) :
    firstPiece key ≠ "poison".toList ∧ firstPiece key ≠ "escalated".toList ∧
      firstPiece key ≠ "ceiling".toList := by
  have hmem := List.contains_iff_mem.mp ((Bool.and_eq_true _ _).mp h).1
  have hall : ∀ first ∈ inputHeads.map String.toList, first ≠ "poison".toList ∧
      first ≠ "escalated".toList ∧ first ≠ "ceiling".toList := by decide
  exact hall _ hmem

theorem isInputKey_not_decision {key : Key} (h : isInputKey key = true) (k : Key) (i : Nat) :
    key ≠ k ++ '/' :: ('d' :: decimal i) := by
  rintro rfl
  have hlast := ((Bool.and_eq_true _ _).mp h).2
  rw [lastPiece_slash, lastPiece_self (by simpa using slash_notMem_decimal i)] at hlast
  exact absurd hlast (by simp)

theorem decision_inj {k key : Key} {i j : Nat}
    (h : k ++ '/' :: ('d' :: decimal i) = key ++ '/' :: ('d' :: decimal j)) : k = key :=
  (slash_piece_inj (by simpa using slash_notMem_decimal i) (by simpa using slash_notMem_decimal j) h).1

theorem LogKey.mono {st st' : RunState} {logged logged' : List Key} {key : Key}
    (h : LogKey st logged key) (hrun : st'.run = st.run)
    (hids : ∀ q ∈ st.questions, ∃ q' ∈ st'.questions, q'.id = q.id)
    (hlogged : ∀ k ∈ logged, k ∈ logged') : LogKey st' logged' key := by
  cases h with
  | input h => exact .input h
  | decision h hmem i => exact .decision h (hlogged _ hmem) i
  | question hq =>
    obtain ⟨q', hq', hid⟩ := hids _ hq
    exact hid ▸ .question hq'
  | poison h => exact hrun ▸ .poison h

theorem poisonKey_inj {run : RunId} {k key : Key} (h : poisonKey run k = poisonKey run key) :
    k = key := by
  unfold poisonKey at h
  exact (List.cons.inj (List.append_cancel_left h)).2

/-- What a logged `poison` names is an input. -/
theorem LogKey.parked {st : RunState} {logged : List Key} (hinv : Inv st) {run : RunId}
    (hrun : st.run = run) {k : Key} (h : LogKey st logged (poisonKey run k)) :
    isInputKey k = true := by
  subst hrun
  have hfirst := firstPiece_poisonKey st.run k
  generalize hk : poisonKey st.run k = key at h hfirst
  cases h with
  | input h => exact absurd hfirst (isInputKey_first h).1
  | decision h _ i =>
    rw [firstPiece_slash] at hfirst
    exact absurd hfirst (isInputKey_first h).1
  | question hq =>
    rcases firstPiece_question hinv hq with h | h
    · exact absurd (hfirst.symm.trans h) (by decide)
    · exact absurd (hfirst.symm.trans h) (by decide)
  | poison h =>
    rw [poisonKey_inj hk]
    exact h

/-- The first piece of a decision's key is its input's, or a question's. -/
theorem firstPiece_decisionKey {st : RunState} {input : Event} (hnext : Inv (step st input))
    {d : Decision} (hd : d ∈ decide st input) (key : Key) (i : Nat) :
    (d.question? = none ∧ firstPiece (decisionKey key i d) = firstPiece key) ∨
      firstPiece (decisionKey key i d) = "escalated".toList ∨
      firstPiece (decisionKey key i d) = "ceiling".toList := by
  cases hq : d.question? with
  | none =>
    left
    rw [decisionKey_of_none hq]
    exact ⟨rfl, firstPiece_slash _ _⟩
  | some id =>
    right
    rw [decisionKey_of_some hq]
    obtain ⟨q, hmem, rfl⟩ := question_asked hd hq
    exact firstPiece_question hnext hmem

/-- Of the keys of a block only its input's is an input's, and none sets a row aside. -/
theorem block_key_kind {st : RunState} {input : Event} {seq : Nat} (hinv : Inv st)
    (hkey : isInputKey input.key = true) {e : Event} (he : e ∈ reduce st seq input) :
    (isInputKey e.key = true → e.key = input.key) ∧ ∀ run k, e.key ≠ poisonKey run k := by
  obtain ⟨hpoison, -, -⟩ := isInputKey_first hkey
  rcases List.mem_cons.mp he with rfl | he
  · refine ⟨fun _ => rfl, fun run k heq => hpoison ?_⟩
    rw [← firstPiece_poisonKey run k, ← heq]
  · obtain ⟨i, d, hd, -, hek⟩ := mem_decisionEvents he
    have hfirst := firstPiece_decisionKey (hinv.step _) hd input.key i
    rw [hek]
    refine ⟨fun hin => ?_, fun run k heq => ?_⟩
    · obtain ⟨-, hescalated, hceiling⟩ := isInputKey_first hin
      rcases hfirst with ⟨hq, -⟩ | hq | hq
      · rw [decisionKey_of_none hq] at hin
        exact absurd rfl (isInputKey_not_decision hin _ _)
      · exact absurd hq hescalated
      · exact absurd hq hceiling
    · rw [heq, firstPiece_poisonKey] at hfirst
      rcases hfirst with ⟨-, hq⟩ | hq | hq
      · exact hpoison hq.symm
      · exact absurd hq (by decide)
      · exact absurd hq (by decide)

/-- The keys of a block are keys of a log. -/
theorem block_keys {st : RunState} {input : Event} {seq : Nat} {logged : List Key}
    (hkey : isInputKey input.key = true) (hin : input.key ∈ logged) :
    ∀ e ∈ reduce st seq input,
      LogKey (step st { input with seq := seq + 1 }) logged e.key := by
  intro e he
  rcases List.mem_cons.mp he with rfl | he
  · exact .input hkey
  · obtain ⟨i, d, hd, -, hek⟩ := mem_decisionEvents he
    rw [hek]
    cases hq : d.question? with
    | none =>
      rw [decisionKey_of_none hq]
      exact .decision hkey hin i
    | some id =>
      rw [decisionKey_of_some hq]
      obtain ⟨q, hmem, rfl⟩ := question_asked hd hq
      exact .question hmem

/-- **The block of an input that is new is new**: no decision key equals a key already logged. -/
theorem block_keys_new {st : RunState} {logged : List Key} {input : Event} {seq : Nat}
    (hinv : Inv st) (hlogged : ∀ k ∈ logged, LogKey st logged k)
    (hkey : isInputKey input.key = true) (hnew : input.key ∉ logged) :
    ∀ e ∈ reduce st seq input, e.key ∉ logged := by
  intro e he hmem
  rcases List.mem_cons.mp he with rfl | he
  · exact hnew hmem
  · obtain ⟨i, d, hd, -, hek⟩ := mem_decisionEvents he
    rw [hek] at hmem
    have hclass := hlogged _ hmem
    obtain ⟨hpoison, hescalated, hceiling⟩ := isInputKey_first hkey
    cases hq : d.question? with
    | none =>
      rw [decisionKey_of_none hq] at hclass hmem
      have hfirst : firstPiece (input.key ++ '/' :: ('d' :: decimal i)) = firstPiece input.key :=
        firstPiece_slash _ _
      generalize hk : input.key ++ '/' :: ('d' :: decimal i) = k at hclass hfirst
      cases hclass with
      | input h => exact isInputKey_not_decision h _ _ hk.symm
      | decision _ hin j =>
        rw [decision_inj hk] at hnew
        exact hnew hin
      | question hq =>
        rcases firstPiece_question hinv hq with h | h
        · exact hescalated (hfirst.symm.trans h)
        · exact hceiling (hfirst.symm.trans h)
      | poison _ => exact hpoison (hfirst.symm.trans (firstPiece_poisonKey _ _))
    | some id =>
      rw [decisionKey_of_some hq] at hclass
      have hnext := hinv.step { input with seq := seq + 1 }
      have hfirst : firstPiece id = "escalated".toList ∨ firstPiece id = "ceiling".toList := by
        obtain ⟨q, hmem, rfl⟩ := question_asked hd hq
        exact firstPiece_question hnext hmem
      have hinput : ∀ {k : Key}, isInputKey k = true → firstPiece k = firstPiece id → False := by
        intro k hk heq
        obtain ⟨-, hescalated, hceiling⟩ := isInputKey_first hk
        rw [heq] at hescalated hceiling
        exact hfirst.elim hescalated hceiling
      cases hclass with
      | input h => exact hinput h rfl
      | decision h _ j => exact hinput h (firstPiece_slash _ _).symm
      | question hq' => exact question_new hnext hd hq _ hq' rfl
      | poison _ =>
        rw [firstPiece_poisonKey] at hfirst
        revert hfirst
        decide

end NexusFlow.Host
