import Mathlib.Logic.Basic
import NexusFlow.Lib.Trace

/-!
# Programs that make calls

A program is a tree of calls: each node names a call, and the reply picks the branch (`Prog`). What a
call does is left to whoever runs the program, and other parties move between two calls.

* `wp`: a program under a discipline. Before each call the state may have moved along `rely`; the
  program owes the call's `pre` there, and may count on its `post` afterwards.
* `Returns`: what holds of every result, whatever the replies.
* `Exec`: a program that runs alone, each call as `step` says.
* `Recorded`: a program run up to some point, and the record of its calls with their replies.
* `Calls`: what every call of a program is like, whatever the replies.
* `runFor`, `runAt`, `exchanges`: a program at a machine that answers each call, cut off after some
  calls, or to its end.

Results: both compose along `bind` (`wp_bind`, `returns_bind`), what a program is owed stays true
while others move (`wp_stable`), a program run alone ends as its discipline says (`exec_wp`), and at
every point of a recorded run each call was owed its `pre` (`recorded_wp`). So it is at a machine,
wherever the run dies (`runFor_wp`, `exchanges_wp`).
-/

namespace NexusFlow.Lib

/-- A program over calls `E` with replies `R`. -/
inductive Prog (E : Type) (R : E → Type) (α : Type)
  | ret (a : α)
  | call (e : E) (k : R e → Prog E R α)

namespace Prog

variable {E : Type} {R : E → Type} {α β : Type}

/-- Run one program, then the one its result picks. -/
def bind : Prog E R α → (α → Prog E R β) → Prog E R β
  | ret a, f => f a
  | call e k, f => call e fun r => (k r).bind f

instance : Monad (Prog E R) where
  pure := ret
  bind := bind

/-- One call. -/
def perform (e : E) : Prog E R (R e) := call e ret

/-- Every result is so, whatever the replies. -/
def Returns (Q : α → Prop) : Prog E R α → Prop
  | ret a => Q a
  | call _ k => ∀ r, (k r).Returns Q

theorem returns_pure {Q : α → Prop} {a : α} : Returns Q (pure a : Prog E R α) ↔ Q a := Iff.rfl

theorem returns_bind {Q : β → Prop} (p : Prog E R α) (f : α → Prog E R β) :
    Returns Q (p >>= f) ↔ Returns (fun a => Returns Q (f a)) p := by
  change Returns Q (p.bind f) ↔ _
  induction p with
  | ret a => exact Iff.rfl
  | call e k ih => exact forall_congr' ih

theorem returns_perform {Q : β → Prop} (e : E) (f : R e → Prog E R β) :
    Returns Q (perform e >>= f) ↔ ∀ r, Returns Q (f r) := Iff.rfl

theorem Returns.mono {P Q : α → Prop} (h : ∀ a, P a → Q a) {p : Prog E R α} (hp : Returns P p) :
    Returns Q p := by
  induction p with
  | ret a => exact h a hp
  | call e k ih => exact fun r => ih r (hp r)

/-! ## Programs among others -/

variable {σ : Type*}

/-- What others may do between two calls, what a call needs, and what it gives. -/
structure Discipline (E : Type) (R : E → Type) (σ : Type*) where
  rely : σ → σ → Prop
  pre : E → σ → Prop
  post : (e : E) → σ → R e → σ → Prop

/-- The program keeps to the discipline from this state on, and ends as `Q` says. -/
def wp (D : Discipline E R σ) (Q : α → σ → Prop) : Prog E R α → σ → Prop
  | ret a, s => ∀ s', D.rely s s' → Q a s'
  | call e k, s => ∀ s', D.rely s s' → D.pre e s' ∧ ∀ r s'', D.post e s' r s'' → (k r).wp D Q s''

variable {D : Discipline E R σ}

/-- **Others may move first.** -/
theorem wp_stable (htrans : ∀ a b c, D.rely a b → D.rely b c → D.rely a c) {Q : α → σ → Prop}
    {p : Prog E R α} {s s' : σ} (h : p.wp D Q s) (hs : D.rely s s') : p.wp D Q s' := by
  cases p with
  | ret a => exact fun t ht => h t (htrans _ _ _ hs ht)
  | call e k => exact fun t ht => h t (htrans _ _ _ hs ht)

theorem wp_mono {P Q : α → σ → Prop} (h : ∀ a s, P a s → Q a s) {p : Prog E R α} {s : σ}
    (hp : p.wp D P s) : p.wp D Q s := by
  induction p generalizing s with
  | ret a => exact fun s' hs => h a s' (hp s' hs)
  | call e k ih =>
    intro s' hs
    obtain ⟨hpre, hk⟩ := hp s' hs
    exact ⟨hpre, fun r s'' hpost => ih r (hk r s'' hpost)⟩

theorem wp_pure {Q : α → σ → Prop} {a : α} {s : σ} (h : ∀ s', D.rely s s' → Q a s') :
    wp D Q (pure a : Prog E R α) s := h

/-- **Sequencing.** -/
theorem wp_bind (hrefl : ∀ s, D.rely s s) {Q : β → σ → Prop} {p : Prog E R α}
    {f : α → Prog E R β} {s : σ} (h : p.wp D (fun a s => (f a).wp D Q s) s) :
    (p >>= f).wp D Q s := by
  change (p.bind f).wp D Q s
  induction p generalizing s with
  | ret a => exact h s (hrefl s)
  | call e k ih =>
    intro s' hs
    obtain ⟨hpre, hk⟩ := h s' hs
    exact ⟨hpre, fun r s'' hpost => ih r (hk r s'' hpost)⟩

theorem wp_perform {Q : β → σ → Prop} {e : E} {f : R e → Prog E R β} {s : σ}
    (h : ∀ s', D.rely s s' → D.pre e s' ∧ ∀ r s'', D.post e s' r s'' → (f r).wp D Q s'') :
    (perform e >>= f).wp D Q s := h

/-! ## Programs alone -/

/-- The program runs from a state to a result and a state, nobody moving in between. -/
inductive Exec (step : (e : E) → σ → R e → σ → Prop) : Prog E R α → σ → α → σ → Prop
  | ret (a : α) (s : σ) : Exec step (ret a) s a s
  | call {e : E} {k : R e → Prog E R α} {s s' s'' : σ} {r : R e} {a : α}
    (hstep : step e s r s') (hk : Exec step (k r) s' a s'') : Exec step (call e k) s a s''

theorem exec_wp (hrefl : ∀ s, D.rely s s) {step : (e : E) → σ → R e → σ → Prop}
    (hstep : ∀ e s r s', step e s r s' → D.post e s r s') {Q : α → σ → Prop} {p : Prog E R α}
    {s s' : σ} {a : α} (h : p.wp D Q s) (hrun : Exec step p s a s') : Q a s' := by
  induction hrun with
  | ret a s => exact h s (hrefl s)
  | call hs _ ih => exact ih ((h _ (hrefl _)).2 _ _ (hstep _ _ _ _ hs))

/-! ## Programs on record -/

/-- A call and the reply it got. -/
structure Exchange (E : Type) (R : E → Type) where
  call : E
  reply : R call

/-- The program makes these calls and gets these replies, each one `honest`; the last program is
what is left of it. -/
inductive Recorded (honest : (e : E) → R e → Prop) :
    Prog E R α → List (Exchange E R) → Prog E R α → Prop
  | nil (p : Prog E R α) : Recorded honest p [] p
  | cons {e : E} {k : R e → Prog E R α} {r : R e} {log : List (Exchange E R)} {rest : Prog E R α}
    (hr : honest e r) (hk : Recorded honest (k r) log rest) :
    Recorded honest (call e k) (⟨e, r⟩ :: log) rest

/-- The discipline of a recorded run: the state is the record. -/
def onRecord (honest : (e : E) → R e → Prop) (pre : E → List (Exchange E R) → Prop) :
    Discipline E R (List (Exchange E R)) where
  rely a b := a = b
  pre := pre
  post e log r log' := honest e r ∧ log' = log ++ [⟨e, r⟩]

variable {honest : (e : E) → R e → Prop} {pre : E → List (Exchange E R) → Prop}
  {Q : α → List (Exchange E R) → Prop} {p rest : Prog E R α} {log log' : List (Exchange E R)}

theorem onRecord_rely (log : List (Exchange E R)) : (onRecord honest pre).rely log log := rfl

/-- One recorded call. -/
theorem wp_recorded {e : E} {f : R e → Prog E R α} (hpre : pre e log)
    (h : ∀ r, honest e r → (f r).wp (onRecord honest pre) Q (log ++ [⟨e, r⟩])) :
    (perform e >>= f).wp (onRecord honest pre) Q log := by
  refine wp_perform fun log' hlog => ?_
  obtain rfl : log = log' := hlog
  exact ⟨hpre, fun r log'' hpost => hpost.2 ▸ h r hpost.1⟩

theorem wp_recorded_pure {a : α} (h : Q a log) :
    (pure a : Prog E R α).wp (onRecord honest pre) Q log :=
  wp_pure fun log' hlog => by
    obtain rfl : log = log' := hlog
    exact h

/-- **Every call of a recorded run was owed its `pre`**, and what is left still keeps to the
discipline. -/
theorem recorded_wp (hp : p.wp (onRecord honest pre) Q log) (hrun : Recorded honest p log' rest)
    (hlog : Always (fun before x => pre x.call before) log) :
    Always (fun before x => pre x.call before) (log ++ log') ∧
      rest.wp (onRecord honest pre) Q (log ++ log') := by
  induction hrun generalizing log with
  | nil p =>
    rw [List.append_nil]
    exact ⟨hlog, hp⟩
  | @cons e k r log₁ rest hr hk ih =>
    obtain ⟨hpre, hnext⟩ := hp log rfl
    have h := ih (hnext r _ ⟨hr, rfl⟩) (always_snoc.mpr ⟨hlog, hpre⟩)
    rwa [List.append_assoc, List.singleton_append] at h

/-- Run a program against an environment that answers by what it was asked before. -/
def record (answer : List (Exchange E R) → (e : E) → R e) :
    Nat → List (Exchange E R) → Prog E R α → List (Exchange E R) × Prog E R α
  | 0, _, p => ([], p)
  | _ + 1, _, ret a => ([], ret a)
  | n + 1, before, call e k =>
    let x : Exchange E R := ⟨e, answer before e⟩
    let (log, rest) := record answer n (before ++ [x]) (k x.reply)
    (x :: log, rest)

theorem recorded_record {answer : List (Exchange E R) → (e : E) → R e}
    (h : ∀ before e, honest e (answer before e)) (n : Nat) (before : List (Exchange E R))
    (p : Prog E R α) :
    Recorded honest p (record answer n before p).1 (record answer n before p).2 := by
  induction n generalizing before p with
  | zero => exact .nil p
  | succ n ih =>
    cases p with
    | ret a => exact .nil _
    | call e k => exact .cons (h before e) (ih _ _)

/-! ## Programs against a machine -/

/-- One program after another; their results joined. -/
def collect {ι : Type} (f : ι → Prog E R (List α)) : List ι → Prog E R (List α)
  | [] => ret []
  | i :: l => (f i).bind fun a => (collect f l).bind fun rest => ret (a ++ rest)

/-- One program after another. -/
def each {ι : Type} (f : ι → Prog E R Unit) : List ι → Prog E R Unit
  | [] => ret ()
  | i :: l => (f i).bind fun _ => each f l

/-- Every call the program may make is so, whatever the replies. -/
def Calls (P : E → Prop) : Prog E R α → Prop
  | ret _ => True
  | call e k => P e ∧ ∀ r, (k r).Calls P

section Calls

variable {P : E → Prop}

theorem calls_pure (a : α) : Calls P (pure a : Prog E R α) := trivial

theorem calls_bind {p : Prog E R α} {f : α → Prog E R β} (hp : p.Calls P)
    (hf : ∀ a, (f a).Calls P) : (p >>= f).Calls P := by
  change (p.bind f).Calls P
  induction p with
  | ret a => exact hf a
  | call e k ih => exact ⟨hp.1, fun r => ih r (hp.2 r)⟩

theorem calls_perform {e : E} {f : R e → Prog E R β} (he : P e) (hf : ∀ r, (f r).Calls P) :
    (perform e >>= f).Calls P := ⟨he, hf⟩

theorem calls_each {ι : Type} {f : ι → Prog E R Unit} {l : List ι}
    (hf : ∀ i ∈ l, (f i).Calls P) : (each f l).Calls P := by
  induction l with
  | nil => trivial
  | cons i l ih =>
    exact calls_bind (hf i List.mem_cons_self) fun _ =>
      ih fun j hj => hf j (List.mem_cons_of_mem i hj)

theorem calls_collect {ι : Type} {f : ι → Prog E R (List α)} {l : List ι}
    (hf : ∀ i ∈ l, (f i).Calls P) : (collect f l).Calls P := by
  induction l with
  | nil => trivial
  | cons i l ih =>
    refine calls_bind (hf i List.mem_cons_self) fun a => ?_
    exact calls_bind (ih fun j hj => hf j (List.mem_cons_of_mem i hj)) fun _ => trivial

/-- A program whose calls all keep a property of the state keeps it. -/
theorem wp_of_calls {Q : σ → Prop} (hrely : ∀ s s', D.rely s s' → Q s → Q s')
    (hpre : ∀ e s, P e → Q s → D.pre e s)
    (hpost : ∀ e s r s', P e → Q s → D.post e s r s' → Q s') {p : Prog E R α} (hp : p.Calls P)
    {s : σ} (hs : Q s) : p.wp D (fun _ s => Q s) s := by
  induction p generalizing s with
  | ret a => exact fun s' h => hrely s s' h hs
  | call e k ih =>
    intro s' h
    have hs' := hrely s s' h hs
    exact ⟨hpre e s' hp.1 hs', fun r s'' hr => ih r (hp.2 r) (hpost e s' r s'' hp.1 hs' hr)⟩

end Calls

section Machine

variable (answer : σ → (e : E) → R e × σ)

/-- The discipline of a program alone at a machine. -/
def atMachine (pre : E → σ → Prop) : Discipline E R σ where
  rely := Eq
  pre := pre
  post e s r s' := answer s e = (r, s')

/-- The state after at most `n` calls: the program may die there. -/
def runFor : ℕ → Prog E R α → σ → σ
  | 0, _, s => s
  | _ + 1, ret _, s => s
  | n + 1, call e k, s => runFor n (k (answer s e).1) (answer s e).2

/-- The result of the whole run, and the state after it. -/
def runAt : Prog E R α → σ → α × σ
  | ret a, s => (a, s)
  | call e k, s => runAt (k (answer s e).1) (answer s e).2

/-- The calls of the whole run, with their replies. -/
def exchanges : Prog E R α → σ → List (Exchange E R)
  | ret _, _ => []
  | call e k, s => ⟨e, (answer s e).1⟩ :: exchanges (k (answer s e).1) (answer s e).2

variable {answer} {pre : E → σ → Prop} {Q : α → σ → Prop} {p : Prog E R α} {s : σ}

theorem atMachine_rely (s : σ) : (atMachine answer pre).rely s s := rfl

theorem wp_atMachine {β : Type} {Q : β → σ → Prop} {e : E} {f : R e → Prog E R β}
    (hpre : pre e s) (h : (f (answer s e).1).wp (atMachine answer pre) Q (answer s e).2) :
    (perform e >>= f).wp (atMachine answer pre) Q s := by
  refine wp_perform fun s' hs => ?_
  obtain rfl : s = s' := hs
  refine ⟨hpre, fun r s'' hr => ?_⟩
  have hr : answer s e = (r, s'') := hr
  rw [hr] at h
  exact h

theorem wp_atMachine_pure {a : α} (h : Q a s) :
    (pure a : Prog E R α).wp (atMachine answer pre) Q s :=
  wp_pure fun s' hs => by
    obtain rfl : s = s' := hs
    exact h

/-- **A run may die anywhere**: what holds before each call and at the end holds there. -/
theorem runFor_wp {I : σ → Prop} (hp : p.wp (atMachine answer pre) (fun _ s => I s) s)
    (hI : ∀ e s, pre e s → I s) (n : ℕ) : I (runFor answer n p s) := by
  induction n generalizing p s with
  | zero =>
    cases p with
    | ret a => exact hp s rfl
    | call e k => exact hI e s (hp s rfl).1
  | succ n ih =>
    cases p with
    | ret a => exact hp s rfl
    | call e k => exact ih ((hp s rfl).2 _ _ rfl)

/-- Each call of a run was owed its `pre`, and was answered in that state. -/
theorem exchanges_wp (hp : p.wp (atMachine answer pre) Q s) {x : Exchange E R}
    (hx : x ∈ exchanges answer p s) : ∃ s', pre x.call s' ∧ x.reply = (answer s' x.call).1 := by
  induction p generalizing s with
  | ret a => cases hx
  | call e k ih =>
    obtain ⟨hpre, hk⟩ := hp s rfl
    rcases List.mem_cons.mp hx with rfl | hx
    · exact ⟨s, hpre, rfl⟩
    · exact ih _ (hk _ _ rfl) hx

/-- **A whole run** ends as the discipline says. -/
theorem runAt_wp (hp : p.wp (atMachine answer pre) Q s) :
    Q (runAt answer p s).1 (runAt answer p s).2 := by
  induction p generalizing s with
  | ret a => exact hp s rfl
  | call e k ih => exact ih _ ((hp s rfl).2 _ _ rfl)

theorem runAt_bind {f : α → Prog E R β} : runAt answer (p >>= f) s =
    runAt answer (f (runAt answer p s).1) (runAt answer p s).2 := by
  change runAt answer (p.bind f) s = _
  induction p generalizing s with
  | ret a => rfl
  | call e k ih => exact ih _

/-- A program that only looks: its result is that of the run, the state what it was. -/
theorem wp_reads {P : E → Prop} (hstay : ∀ e, P e → (answer s e).2 = s) (hp : p.Calls P)
    (hpre : ∀ e, P e → pre e s) (h : Q (runAt answer p s).1 s) :
    p.wp (atMachine answer pre) Q s := by
  induction p with
  | ret a => exact wp_atMachine_pure h
  | call e k ih =>
    rintro s' rfl
    refine ⟨hpre e hp.1, fun r s'' hr => ?_⟩
    have hr : answer s e = (r, s'') := hr
    have hs : s'' = s := by rw [← hstay e hp.1, hr]
    have hk : (k r).Calls P := hp.2 r
    rw [hs]
    refine ih r hk ?_
    rwa [runAt, hr, hs] at h

theorem runAt_reads {P : E → Prop} (hstay : ∀ e, P e → (answer s e).2 = s) (hp : p.Calls P) :
    (runAt answer p s).2 = s := by
  have hwp : p.wp (atMachine answer fun _ _ => True) (fun _ s' => s' = s) s :=
    wp_reads hstay hp (fun _ _ => trivial) rfl
  exact runAt_wp hwp

end Machine

end Prog

end NexusFlow.Lib
