import NexusFlow.Run.Ending
import NexusFlow.Run.Runs
import NexusFlow.Run.Shift

/-!
# Runs under another clock

Model side of `tests/determinism.rs`. A run fed the same items with every instant moved by `d` decides
the same lists, owes the same effects and reaches the same states, moved (`handled_shift`), as long as
no addition stopped at the last writable instant: `Timestamp::plus` stops there, so that instant does
not move with the clock (`handled_shift_last`).

Each function of `decide` makes of two lists that correspond two that correspond, or writes a decision
an addition stopped in (`Moved`); what it writes once stays (`Open`).
-/

namespace NexusFlow.Run

open NexusFlow.Lib

/-! ## Instants -/

/-- The years the wire form can write. -/
def Writable (t : Timestamp) : Prop := firstWritableMillis ≤ t ∧ t ≤ lastWritableMillis

instance (t : Timestamp) : Decidable (Writable t) := by
  unfold Writable
  infer_instance

/-- The instant a decision reckons from a span. -/
def Decision.reckoned : Decision → Option Timestamp
  | .timerSet _ fireAt _ => some fireAt
  | .held _ _ «until» _ => some «until»
  | _ => none

/-- Every instant of a decision. -/
def Decision.instants : Decision → List Timestamp
  | .timerSet _ fireAt _ => [fireAt]
  | .liveness _ _ since => [since]
  | .held _ _ «until» resetsAt => «until» :: resetsAt.toList
  | _ => []

/-- The instant of a session's fact. -/
def SessionFact.instants : SessionFact → List Timestamp
  | .ended (.usageLimit resetsAt) => resetsAt.toList
  | _ => []

/-- Every instant of an input's body. -/
def EventBody.instants : EventBody → List Timestamp
  | .sessionFact _ fact => fact.instants
  | .timerFired _ fireAt => [fireAt]
  | .decision x => x.instants
  | _ => []

/-- Every instant of an item. -/
def Item.instants : Item → List Timestamp
  | .input event => event.now :: event.body.instants
  | .poison now => [now]

def Item.shift (d : Int) : Item → Item
  | .input event => .input (event.shift d)
  | .poison now => .poison (now + d)

/-- What `Timestamp::plus` adds for a span. -/
def advance (span : Secs) : Int := min (span * 1000 : Int) lastWritableMillis

theorem advance_nonneg (span : Secs) : 0 ≤ advance span :=
  le_min (Int.mul_nonneg (Int.natCast_nonneg span) (by decide)) (by decide)

theorem plus_eq_min {now : Timestamp} (h : firstWritableMillis ≤ now) (span : Secs) :
    now.plus span = min (now + advance span) lastWritableMillis := by
  have hspan := advance_nonneg span
  unfold Timestamp.plus Timestamp.fromUnixMillis
  rw [← advance, if_neg (by omega)]
  split_ifs with hlast
  · exact (min_eq_right hlast.le).symm
  · exact (min_eq_left (not_lt.mp hlast)).symm

/-- A sum that stops at `last`, but did not, moves with its summand. -/
theorem min_add_shift {now span last d : Int} (hlast : min (now + span) last ≠ last)
    (hle : min (now + span) last + d ≤ last) :
    min (now + d + span) last = min (now + span) last + d := by
  omega

/-- **An addition that did not stop** moves with its instant. -/
theorem plus_shift {now : Timestamp} {d : Int} (h : firstWritableMillis ≤ now)
    (hd : firstWritableMillis ≤ now + d) {span : Secs} (hlast : now.plus span ≠ lastWritableMillis)
    (hmoved : Writable (now.plus span + d)) :
    Timestamp.plus (now + d) span = now.plus span + d := by
  obtain ⟨-, hle⟩ := hmoved
  rw [plus_eq_min h] at hlast hle ⊢
  rw [plus_eq_min hd]
  exact min_add_shift hlast hle

/-- A window whose chosen instant is not its last moves with its ends. -/
theorem window_shift {now t least most last d : Int} (ht : t + d ≤ last)
    (hlast : min (max t (min (now + least) last)) (min (now + most) last) ≠ last)
    (hle : min (max t (min (now + least) last)) (min (now + most) last) + d ≤ last) :
    min (max (t + d) (min (now + d + least) last)) (min (now + d + most) last) =
      min (max t (min (now + least) last)) (min (now + most) last) + d := by
  omega

/-- **A hold** whose end is not the last writable instant moves with its input. -/
theorem holdUntil_shift {now : Timestamp} {d : Int} (h : firstWritableMillis ≤ now)
    (hd : firstWritableMillis ≤ now + d) {policy : LivenessPolicy} {resetsAt : Option Timestamp}
    (hreset : ∀ t ∈ resetsAt, t + d ≤ lastWritableMillis)
    (hlast : Emit.holdUntil policy now resetsAt ≠ lastWritableMillis)
    (hmoved : Writable (Emit.holdUntil policy now resetsAt + d)) :
    Emit.holdUntil policy (now + d) (resetsAt.map (· + d)) =
      Emit.holdUntil policy now resetsAt + d := by
  cases resetsAt with
  | none => exact plus_shift h hd hlast hmoved
  | some t =>
    obtain ⟨-, hle⟩ := hmoved
    simp only [Emit.holdUntil, Option.map_some, plus_eq_min h, plus_eq_min hd] at hlast hle ⊢
    exact window_shift (hreset t rfl) hlast hle

/-! ## Lists that correspond -/

/-- A decision whose instant is reckoned exactly, and can be moved. -/
def Decision.Exact (d : Int) (x : Decision) : Prop :=
  ∀ t ∈ x.reckoned, t ≠ lastWritableMillis ∧ Writable (t + d)

namespace Emit

variable {before start : RunState} {now : Timestamp} {d : Int}

/-- The list and its state, moved. -/
def shift (d : Int) (e : Emit before start now) :
    Emit (before.shift d) (start.shift d) (now + d) where
  state := e.state.shift d
  out := e.out.map (Decision.shift d)
  folded := by rw [foldDecisions_shift, e.folded]

theorem ext_out {e e' : Emit before start now} (h : e.out = e'.out) : e = e' := by
  obtain ⟨state, out, folded⟩ := e
  obtain ⟨state', out', folded'⟩ := e'
  obtain rfl : out = out' := h
  obtain rfl : state = state' := folded.symm.trans folded'
  rfl

@[simp] theorem state_shift (e : Emit before start now) : (e.shift d).state = e.state.shift d := rfl

theorem push_shift (e : Emit before start now) (x : Decision) :
    (e.shift d).push (x.shift d) = (e.push x).shift d := by
  apply ext_out
  show e.out.map (Decision.shift d) ++ [x.shift d] = (e.out ++ [x]).map (Decision.shift d)
  rw [List.map_append, List.map_singleton]

/-- `e'` is `e` moved, or `e` has written a decision whose instant does not move with it. -/
def Moved (e : Emit before start now) (e' : Emit (before.shift d) (start.shift d) (now + d)) :
    Prop :=
  e' = e.shift d ∨ ∃ x ∈ e.out, ¬ x.Exact d

theorem Moved.of_eq {e : Emit before start now}
    {e' : Emit (before.shift d) (start.shift d) (now + d)} (h : e' = e.shift d) : Moved e e' :=
  .inl h

theorem Open.mem {e e' : Emit before start now} (h : Open e e') {x : Decision} (hx : x ∈ e.out) :
    x ∈ e'.out := by
  obtain ⟨ds, heq, -⟩ := h
  rw [heq]
  exact List.mem_append_left ds hx

variable {e f : Emit before start now} {e' f' : Emit (before.shift d) (start.shift d) (now + d)}

theorem Moved.refl (e : Emit before start now) : Moved e (e.shift d) := .inl rfl

/-- What a function makes of lists that correspond is to be looked at on a moved list only. -/
theorem Moved.step (h : Moved e e') (hopen : Open e f) (hstep : e' = e.shift d → Moved f f') :
    Moved f f' := by
  obtain heq | ⟨x, hx, hbad⟩ := h
  · exact hstep heq
  · exact .inr ⟨x, hopen.mem hx, hbad⟩

theorem Moved.push (h : Moved e e') {x : Decision} (hx : x.isFinished = false) :
    Moved (e.push x) (e'.push (x.shift d)) := by
  refine h.step (.push (.refl e) hx) ?_
  rintro rfl
  exact .inl (push_shift e x)

theorem Moved.foldl {α : Type} {f : Emit before start now → α → Emit before start now}
    {g : Emit (before.shift d) (start.shift d) (now + d) → α →
      Emit (before.shift d) (start.shift d) (now + d)}
    (hstep : ∀ x {e e'}, Moved e e' → Moved (f e x) (g e' x)) (xs : List α) :
    ∀ {e : Emit before start now} {e'}, Moved e e' → Moved (xs.foldl f e) (xs.foldl g e') := by
  induction xs with
  | nil => exact id
  | cons x xs ih => exact fun h => ih (hstep x h)

/-- A step that is taken or not. -/
theorem Moved.ite (h : Moved e e') (c : Bool) (hstep : Moved f f') :
    Moved (if c then f else e) (if c then f' else e') := by
  cases c with
  | true => exact hstep
  | false => exact h

/-! ## Timers -/

theorem clearTimer_shift (e : Emit before start now) (timer : Text) :
    (e.shift d).clearTimer timer = (e.clearTimer timer).shift d := by
  unfold clearTimer
  rw [state_shift, RunState.timers_shift, KeyMap.contains_mapValues]
  split_ifs
  · exact push_shift e (.timerCleared timer)
  · rfl

theorem clearTimers_shift (timers : List Text) : ∀ e : Emit before start now,
    timers.foldl clearTimer (e.shift d) = (timers.foldl clearTimer e).shift d := by
  induction timers with
  | nil => exact fun _ => rfl
  | cons timer timers ih =>
    intro e
    rw [List.foldl_cons, List.foldl_cons, clearTimer_shift]
    exact ih _

theorem clearSlotTimers_shift (e : Emit before start now) (slot : Slot) :
    (e.shift d).clearSlotTimers slot = (e.clearSlotTimers slot).shift d := by
  unfold clearSlotTimers
  rw [state_shift, RunState.timers_shift, KeyMap.keys_mapValues]
  exact clearTimers_shift _ e

theorem Moved.clearTimer (h : Moved e e') (timer : Text) :
    Moved (e.clearTimer timer) (e'.clearTimer timer) := by
  refine h.step (.clearTimer (.refl e) timer) ?_
  rintro rfl
  exact .inl (clearTimer_shift e timer)

theorem Moved.clearSlotTimer (h : Moved e e') (slot : Slot) (purpose : TimerPurpose) :
    Moved (e.clearSlotTimer slot purpose) (e'.clearSlotTimer slot purpose) := h.clearTimer _

theorem Moved.clearSlotTimers (h : Moved e e') (slot : Slot) :
    Moved (e.clearSlotTimers slot) (e'.clearSlotTimers slot) := by
  refine h.step (.clearSlotTimers (.refl e) slot) ?_
  rintro rfl
  exact .inl (clearSlotTimers_shift e slot)

section Clock

variable (hn : firstWritableMillis ≤ now) (hd : firstWritableMillis ≤ now + d)
include hn hd

/-- **A timer** a span away is set the same span away, or the addition stopped. -/
theorem Moved.setTimer (h : Moved e e') (timer : Text) (span : Secs) (purpose : TimerPurpose) :
    Moved (e.setTimer timer span purpose) (e'.setTimer timer span purpose) := by
  by_cases hx : (Decision.timerSet timer (now.plus span) purpose).Exact d
  · obtain ⟨hlast, hmoved⟩ := hx _ rfl
    unfold Emit.setTimer Emit.setTimerAt
    rw [plus_shift hn hd hlast hmoved]
    exact h.push rfl
  · exact .inr ⟨_, List.mem_append_right _ (List.mem_singleton_self _), hx⟩

theorem Moved.setSlotTimer (h : Moved e e') (slot : Slot) (span : Secs) (purpose : TimerPurpose) :
    Moved (e.setSlotTimer slot span purpose) (e'.setSlotTimer slot span purpose) :=
  h.setTimer hn hd _ span purpose

/-- A timer whose span is read off the policy. -/
theorem Moved.setPolicyTimer (h : Moved e e') (timer : Text) (span : LivenessPolicy → Secs)
    (purpose : TimerPurpose) : Moved (e.setTimer timer (span e.state.policy) purpose)
      (e'.setTimer timer (span e'.state.policy) purpose) := by
  refine h.step (.setTimer (.refl e) timer _ purpose) ?_
  rintro rfl
  exact (Moved.refl e).setTimer hn hd timer _ purpose

/-! ## Routes -/

theorem Moved.armSlot (h : Moved e e') (slot : Slot) :
    Moved (e.armSlot slot) (e'.armSlot slot) := by
  refine h.step (.armSlot (.refl e) slot) ?_
  rintro rfl
  unfold Emit.armSlot
  rw [state_shift, RunState.personaIsLive_shift]
  split_ifs
  · exact .refl e
  · exact (Moved.refl e).setSlotTimer hn hd slot _ _

theorem Moved.armReady (h : Moved e e') : Moved e.armReady e'.armReady := by
  refine h.step (.armReady (.refl e)) ?_
  rintro rfl
  have hpending : ((e.state.shift d).slots.filter fun r => r.state = .pending).map
      SlotRecord.slot = (e.state.slots.filter fun r => r.state = .pending).map SlotRecord.slot := by
    rw [RunState.slots_shift, List.filter_map, List.map_map]
    simp only [Function.comp_def, SlotRecord.state_shift, SlotState.eq_pending_iff_shift,
      SlotRecord.slot_shift]
  unfold Emit.armReady
  rw [state_shift, hpending, RunState.treePrepared_shift]
  split_ifs
  · exact Moved.foldl (fun slot _ _ h => h.armSlot hn hd slot) _ (.refl e)
  · exact .refl e

theorem Moved.startStep (h : Moved e e') (step : Text) :
    Moved (e.startStep step) (e'.startStep step) := by
  refine h.step (.startStep (.refl e) step) ?_
  rintro rfl
  unfold Emit.startStep
  rw [state_shift, RunState.flow_shift]
  cases e.state.flow.step step with
  | none => exact .refl e
  | some s => exact ((Moved.refl e).push rfl).armReady hn hd

theorem Moved.restart (h : Moved e e') (slot : Slot) : Moved (e.restart slot) (e'.restart slot) :=
  (h.push rfl).armReady hn hd

omit hn hd in
theorem Moved.finishRun (h : Moved e e') (outcome : Outcome) (reason : ReasonCode) :
    Moved (e.finishRun outcome reason) (e'.finishRun outcome reason) := by
  refine h.step (.finishRun (.refl e) outcome reason) ?_
  rintro rfl
  have hpush := push_shift (d := d) e (.finishing outcome (some reason))
  simp only [Decision.shift] at hpush
  unfold Emit.finishRun
  rw [hpush]
  generalize e.push (.finishing outcome (some reason)) = pushed
  have hentries : (pushed.state.shift d).timers.entries =
      pushed.state.timers.entries.map fun entry => (entry.1, entry.2.shift d) := rfl
  dsimp only
  rw [state_shift, hentries, List.filter_map, List.map_map]
  exact .inl (clearTimers_shift _ pushed)

theorem Moved.rework (h : Moved e e') («from» : StepId) («to» : Text) (pass : Nat) :
    Moved (e.rework «from» «to» pass) (e'.rework «from» «to» pass) :=
  (h.push rfl).startStep hn hd _

omit hn hd in
theorem Moved.ceiling (h : Moved e e') (step : StepId) (visit pass : Nat) :
    Moved (e.ceiling step visit pass) (e'.ceiling step visit pass) := by
  refine h.step (.ceiling (.refl e) step visit pass) ?_
  rintro rfl
  unfold Emit.ceiling
  rw [state_shift, RunState.verdictOf_shift, RunState.run_shift]
  cases e.state.verdictOf step.text with
  | none => exact .refl e
  | some verdict => exact (Moved.refl e).push rfl

theorem Moved.oneMorePass (h : Moved e e') (step : StepId) (pass : Nat) :
    Moved (e.oneMorePass step pass) (e'.oneMorePass step pass) := by
  refine h.step (.oneMorePass (.refl e) step pass) ?_
  rintro rfl
  unfold Emit.oneMorePass
  rw [state_shift, RunState.flow_shift]
  cases (e.state.flow.step step.text).bind StepDef.onNeedsRework with
  | none => exact .refl e
  | some target => exact (Moved.refl e).rework hn hd step target pass

theorem Moved.accept (h : Moved e e') (step : StepId) :
    Moved (e.accept step) (e'.accept step) := by
  refine h.step (.accept (.refl e) step) ?_
  rintro rfl
  unfold Emit.accept
  rw [state_shift, RunState.flow_shift]
  cases (e.state.flow.step step.text).bind StepDef.next with
  | none => exact (Moved.refl e).finishRun _ _
  | some next => exact (Moved.refl e).startStep hn hd next

theorem Moved.finishStep (h : Moved e e') (step : StepId) (visit : Nat) (needsRework : Bool) :
    Moved (e.finishStep step visit needsRework) (e'.finishStep step visit needsRework) := by
  refine h.step (.finishStep (.refl e) step visit needsRework) ?_
  rintro rfl
  have hpush := push_shift (d := d) e (.stepFinished step visit
    (if needsRework then .needsRework else .pass))
  simp only [Decision.shift] at hpush
  unfold Emit.finishStep
  rw [hpush]
  generalize e.push (.stepFinished step visit
    (if needsRework then .needsRework else .pass)) = pushed
  dsimp only
  rw [state_shift, RunState.flow_shift, RunState.passOf_shift]
  cases pushed.state.flow.step step.text with
  | none => exact .refl pushed
  | some s =>
    dsimp only
    split
    · split_ifs
      · exact (Moved.refl pushed).rework hn hd step _ _
      · exact (Moved.refl pushed).ceiling step visit _
    · cases s.next with
      | none => exact (Moved.refl pushed).finishRun _ _
      | some next => exact (Moved.refl pushed).startStep hn hd next

omit hn hd in
theorem memberVerdicts_shift (st : RunState) (s : StepDef) (step : StepId) (visit : Nat) :
    memberVerdicts (st.shift d) s step visit = memberVerdicts st s step visit := by
  have hmember : (fun member => ((st.shift d).latest step visit member).bind memberVerdict) =
      fun member => (st.latest step visit member).bind memberVerdict := by
    funext member
    rw [RunState.latest_shift, Option.bind_map]
    refine congrArg (Option.bind _) (funext fun r => ?_)
    obtain ⟨slot, state⟩ := r
    cases state with
    | replied message escalate needsRework => cases escalate <;> rfl
    | _ => rfl
  unfold memberVerdicts
  rw [hmember]

theorem Moved.afterReply (h : Moved e e') (slot : Slot) :
    Moved (e.afterReply slot) (e'.afterReply slot) := by
  refine h.step (.afterReply (.refl e) slot) ?_
  rintro rfl
  unfold Emit.afterReply
  rw [state_shift, RunState.currentStep_shift, RunState.visits_shift, RunState.flow_shift,
    RunState.latest_shift]
  simp only [memberVerdicts_shift]
  split_ifs
  · exact .refl e
  · cases e.state.flow.step slot.step.text with
    | none => exact .refl e
    | some s =>
      dsimp only
      cases memberVerdicts e.state s slot.step slot.visit with
      | none => exact .refl e
      | some replies =>
        dsimp only
        split_ifs
        · cases e.state.latest slot.step slot.visit SYNTH with
          | none => exact ((Moved.refl e).push rfl).armReady hn hd
          | some r =>
            simp only [Option.map_some, SlotRecord.state_shift, SlotState.isReplied_shift]
            split_ifs
            · exact (Moved.refl e).finishStep hn hd _ _ _
            · exact .refl e
        · exact (Moved.refl e).finishStep hn hd _ _ _

/-! ## Sessions -/

omit hn hd in
theorem recordAt_find_shift (st : RunState) (key : SessionKey) :
    (st.shift d).recordAt ((st.shift d).find key) =
      (st.recordAt (st.find key)).map (SlotRecord.shift d) := by
  rw [RunState.find_shift, RunState.recordAt_shift]

theorem Moved.nudged (h : Moved e e') (key : SessionKey) :
    Moved (e.nudged key) (e'.nudged key) := by
  refine h.step (.nudged (.refl e) key) ?_
  rintro rfl
  unfold Emit.nudged
  rw [state_shift, recordAt_find_shift]
  cases e.state.recordAt (e.state.find key) with
  | none => exact .refl e
  | some r => exact (Moved.refl e).setSlotTimer hn hd r.slot _ _

theorem Moved.stopSignalled (h : Moved e e') (key : SessionKey) :
    Moved (e.stopSignalled key) (e'.stopSignalled key) := by
  refine h.step (.stopSignalled (.refl e) key) ?_
  rintro rfl
  unfold Emit.stopSignalled
  rw [state_shift, recordAt_find_shift]
  cases e.state.recordAt (e.state.find key) with
  | none => exact .refl e
  | some r =>
    have hsent : ((r.shift d).state.ladder.map Ladder.signalsSent).getD 0 =
        (r.state.ladder.map Ladder.signalsSent).getD 0 := by
      rw [SlotRecord.state_shift, SlotState.ladder_shift, Option.map_map]
      rfl
    simp only [Option.map_some, hsent, SlotRecord.slot_shift, RunState.policy_shift]
    split_ifs
    · exact (Moved.refl e).setTimer hn hd _ _ _
    · exact .refl e

omit hn hd in
theorem Moved.groupLingering (h : Moved e e') (slot : Slot) (was : SlotState) :
    Moved (e.groupLingering slot was) (e'.groupLingering slot (was.shift d)) := by
  cases was with
  | stopping ladder after => exact h
  | replied message escalate needsRework process overdue ladder => exact h.clearSlotTimer slot _
  | _ => exact (h.clearSlotTimers slot).push rfl

theorem Moved.rearmClosed (h : Moved e e') (slot : Slot) (wasQuiet : Bool)
    (beat : Option HeartbeatKind) :
    Moved (e.rearmClosed slot wasQuiet beat) (e'.rearmClosed slot wasQuiet beat) := by
  have hclear := (h.clearSlotTimer slot .subprocessIdle).clearSlotTimer slot .callBound
  unfold Emit.rearmClosed
  exact hclear.ite _ (hclear.setPolicyTimer hn hd _ LivenessPolicy.quietAfter _)

theorem Moved.rearmOpen (h : Moved e e') (slot : Slot) (blind sampling wasQuiet : Bool)
    (beat : Option HeartbeatKind) : Moved (e.rearmOpen slot blind sampling wasQuiet beat)
      (e'.rearmOpen slot blind sampling wasQuiet beat) := by
  unfold Emit.rearmOpen
  have hquiet := h.clearSlotTimer slot .quiet
  have hblind := hquiet.ite blind (hquiet.clearSlotTimer slot .subprocessIdle)
  have hsampling := hblind.ite sampling (hblind.clearSlotTimer slot .callBound)
  have hidle := hsampling.ite (!blind && (wasQuiet || beat == some .callsOpen ||
    beat == some .subprocessMoved))
    (hsampling.setPolicyTimer hn hd (slotTimer .subprocessIdle slot) LivenessPolicy.subprocessIdle
      .subprocessIdle)
  exact hidle.ite _ (hidle.setPolicyTimer hn hd _ LivenessPolicy.callBound _)

omit hn hd in
theorem callOpen_shift (s : SlotState) : callOpen (s.shift d) = callOpen s := by
  cases s with
  | running session openCall => cases openCall <;> rfl
  | _ => rfl

omit hn hd in
theorem wasQuiet_shift (s : SlotState) : wasQuiet (s.shift d) = wasQuiet s := by
  cases s <;> rfl

theorem Moved.rearm (h : Moved e e') (r : SlotRecord) (wasQuiet : Bool)
    (beat : Option HeartbeatKind) :
    Moved (e.rearm r wasQuiet beat) (e'.rearm (r.shift d) wasQuiet beat) := by
  have hclear := h.ite wasQuiet (h.clearSlotTimer r.slot .confirm)
  simp only [Emit.rearm, SlotRecord.state_shift, callOpen_shift, SlotRecord.slot_shift]
  split
  · exact hclear.rearmOpen hn hd r.slot r.blind r.sampling wasQuiet beat
  · exact hclear.rearmClosed hn hd r.slot wasQuiet beat

theorem Moved.restartOrPark (h : Moved e e') (r : SlotRecord) (exhausted : ReasonCode) :
    Moved (e.restartOrPark r exhausted) (e'.restartOrPark (r.shift d) exhausted) := by
  refine h.step (.restartOrPark (.refl e) r exhausted) ?_
  rintro rfl
  have hrestarts : (r.shift d).restarts = r.restarts := rfl
  unfold Emit.restartOrPark
  rw [hrestarts, SlotRecord.slot_shift, state_shift, RunState.policy_shift, RunState.flow_shift]
  split_ifs
  · exact (Moved.refl e).restart hn hd r.slot
  · exact (Moved.refl e).push rfl

/-- **A hold** is as long, or an addition stopped. -/
theorem Moved.hold (h : Moved e e') (r : SlotRecord) (reason : ReasonCode)
    {resetsAt : Option Timestamp} (hreset : ∀ t ∈ resetsAt, t + d ≤ lastWritableMillis) :
    Moved (e.hold r reason resetsAt) (e'.hold (r.shift d) reason (resetsAt.map (· + d))) := by
  refine h.step (.hold (.refl e) r reason resetsAt) ?_
  rintro rfl
  have hholds : (r.shift d).holds = r.holds := rfl
  unfold Emit.hold
  rw [hholds, SlotRecord.slot_shift, state_shift, RunState.policy_shift, Option.isNone_map]
  split_ifs
  · exact (Moved.refl e).push rfl
  · let x : Decision := .held r.slot reason (holdUntil e.state.policy now resetsAt) resetsAt
    by_cases hx : x.Exact d
    · obtain ⟨hlast, hmoved⟩ := hx _ rfl
      rw [holdUntil_shift hn hd hreset hlast hmoved]
      exact ((Moved.refl e).push (x := x) rfl).push rfl
    · refine .inr ⟨x, ?_, hx⟩
      exact List.mem_append_left _ (List.mem_append_right _ (List.mem_singleton_self x))

theorem Moved.endedUnordered (h : Moved e e') (r : SlotRecord) {cause : EndCause}
    (hcause : ∀ t ∈ (SessionFact.ended cause).instants, t + d ≤ lastWritableMillis) :
    Moved (e.endedUnordered r cause) (e'.endedUnordered (r.shift d) (cause.shift d)) := by
  cases cause with
  | usageLimit resetsAt =>
    exact h.hold hn hd r .usageLimit fun t ht => hcause t (Option.mem_toList.mpr ht)
  | providerUnavailable =>
    exact h.hold hn hd r .providerUnavailable fun t ht => (Option.not_mem_none t ht).elim
  | permissionRefused rule program => exact h.push rfl
  | _ => exact h.restartOrPark hn hd r _

theorem Moved.ended (h : Moved e e') (r : SlotRecord) (was : SlotState) {cause : EndCause}
    (hcause : ∀ t ∈ (SessionFact.ended cause).instants, t + d ≤ lastWritableMillis) :
    Moved (e.ended r was cause) (e'.ended (r.shift d) (was.shift d) (cause.shift d)) := by
  refine h.step (.ended (.refl e) r was cause) ?_
  rintro rfl
  unfold Emit.ended
  dsimp only
  rw [SlotRecord.slot_shift, clearSlotTimers_shift, state_shift, RunState.isFinishing_shift]
  generalize e.clearSlotTimers r.slot = cleared
  split_ifs
  · exact .refl cleared
  · cases was with
    | replied message escalate needsRework process overdue ladder =>
      exact (Moved.refl cleared).armReady hn hd
    | stopping ladder after =>
      cases after with
      | nothing => exact (Moved.refl cleared).armReady hn hd
      | restart exhausted => exact (Moved.refl cleared).restartOrPark hn hd r exhausted
    | _ => exact (Moved.refl cleared).endedUnordered hn hd r hcause

theorem Moved.factOn (h : Moved e e') (was : SlotState) (r : SlotRecord) {f : SessionFact}
    (hf : ∀ t ∈ f.instants, t + d ≤ lastWritableMillis) :
    Moved (e.factOn was r f) (e'.factOn (was.shift d) (r.shift d) (f.shift d)) := by
  have hquiet : ∀ beat, Moved (if wasQuiet was then e.rearm r true beat else e)
      (if wasQuiet (was.shift d) then e'.rearm (r.shift d) true beat else e') := by
    intro beat
    rw [wasQuiet_shift]
    exact h.ite _ (h.rearm hn hd r true beat)
  cases f with
  | started session =>
    cases was with
    | starting deadline =>
      exact (h.clearSlotTimer r.slot .startDeadline).setPolicyTimer hn hd _
        LivenessPolicy.quietAfter .quiet
    | _ => exact h
  | heartbeat beat =>
    cases beat with
    | unknown raw => exact hquiet none
    | _ =>
      unfold Emit.factOn
      simp only [SessionFact.shift, wasQuiet_shift]
      exact h.rearm hn hd r (wasQuiet was) _
  | usage => exact hquiet none
  | permissionRefused rule program => exact hquiet none
  | groupLingering pids => exact h.groupLingering r.slot was
  | ended cause => exact h.ended hn hd r was hf
  | unknown => exact h

theorem Moved.fact (h : Moved e e') (key : SessionKey) {f : SessionFact}
    (hf : ∀ t ∈ f.instants, t + d ≤ lastWritableMillis) :
    Moved (e.fact key f) (e'.fact key (f.shift d)) := by
  refine h.step (.fact (.refl e) key f) ?_
  rintro rfl
  unfold Emit.fact
  rw [state_shift, RunState.find_shift, RunState.recordAt_shift, RunState.recordAt_shift]
  cases before.recordAt (e.state.find key) with
  | none => exact .refl e
  | some was =>
    cases e.state.recordAt (e.state.find key) with
    | none => exact .refl e
    | some r => exact (Moved.refl e).factOn hn hd was.state r hf

omit hn hd in
theorem Moved.escalate (h : Moved e e') (key : SessionKey) (r : SlotRecord) :
    Moved (e.escalate key r) (e'.escalate key (r.shift d)) := by
  obtain ⟨slot, state⟩ := r
  cases state with
  | replied message escalate needsRework =>
    cases escalate with
    | true => exact h.push rfl
    | false => exact h
  | _ => exact h

theorem Moved.reply (h : Moved e e') (key : SessionKey) : Moved (e.reply key) (e'.reply key) := by
  refine h.step (.reply (.refl e) key) ?_
  rintro rfl
  unfold Emit.reply
  rw [state_shift, recordAt_find_shift]
  cases e.state.recordAt (e.state.find key) with
  | none => exact .refl e
  | some r =>
    have hwind := ((Moved.refl (d := d) e).clearSlotTimers r.slot).setPolicyTimer hn hd
      (slotTimer .windDown r.slot) LivenessPolicy.stopGrace .windDown
    exact (hwind.escalate key r).afterReply hn hd r.slot

/-! ## Timers that fire -/

theorem Moved.rootPeriod (h : Moved e e') : Moved e.rootPeriod e'.rootPeriod := by
  refine h.step (.rootPeriod (.refl e)) ?_
  rintro rfl
  unfold Emit.rootPeriod
  rw [state_shift, RunState.policy_shift, RunState.rootPeriods_shift]
  split_ifs
  · exact (Moved.refl e).push rfl
  · exact (Moved.refl e).setPolicyTimer hn hd _ LivenessPolicy.rootDeadline _

omit hn hd in
theorem Moved.conclude (h : Moved e e') (slot : Slot) (reason : ReasonCode) :
    Moved (e.conclude slot reason) (e'.conclude slot reason) :=
  h.push (x := .liveness slot reason now) rfl

theorem Moved.quiet (h : Moved e e') (slot : Slot) : Moved (e.quiet slot) (e'.quiet slot) :=
  (h.conclude slot .quiet).setPolicyTimer hn hd _ LivenessPolicy.confirmWithin .confirm

theorem Moved.callBound (h : Moved e e') (slot : Slot) :
    Moved (e.callBound slot) (e'.callBound slot) := by
  refine h.step (.callBound (.refl e) slot) ?_
  rintro rfl
  have hblind : ((e.state.shift d).recordAt ((e.state.shift d).findSlot slot)).any
      SlotRecord.blind = (e.state.recordAt (e.state.findSlot slot)).any SlotRecord.blind := by
    rw [RunState.findSlot_shift, RunState.recordAt_shift, Option.any_map]
    rfl
  unfold Emit.callBound
  rw [state_shift, hblind]
  split_ifs
  · exact ((Moved.refl e).clearSlotTimer slot .subprocessIdle).quiet hn hd slot
  · exact .refl e

omit hn hd in
theorem Moved.graceOver (h : Moved e e') (timer : Text) (slot : Slot) :
    Moved (e.graceOver timer slot) (e'.graceOver timer slot) := by
  refine h.step (.graceOver (.refl e) timer slot) ?_
  rintro rfl
  have hforced : (((e.state.shift d).recordAt ((e.state.shift d).findSlot slot)).bind
      fun r => r.state.ladder).any Ladder.forced =
      ((e.state.recordAt (e.state.findSlot slot)).bind fun r => r.state.ladder).any
        Ladder.forced := by
    rw [RunState.findSlot_shift, RunState.recordAt_shift, Option.bind_map]
    cases e.state.recordAt (e.state.findSlot slot) with
    | none => rfl
    | some r =>
      simp only [Option.bind_some, Function.comp, SlotRecord.state_shift, SlotState.ladder_shift,
        Option.any_map]
      rfl
  unfold Emit.graceOver
  rw [state_shift, hforced]
  dsimp only
  split_ifs
  · exact .refl e
  · exact .refl e
  · exact (Moved.refl e).push rfl

theorem Moved.fire (h : Moved e e') (timer : Text) (purpose : TimerPurpose)
    (slot : Option Slot) : Moved (e.fire timer purpose slot) (e'.fire timer purpose slot) := by
  cases slot with
  | none =>
    cases purpose with
    | rootDeadline => exact h.rootPeriod hn hd
    | treeWindow => exact h.push rfl
    | _ => exact h
  | some slot =>
    cases purpose with
    | rootDeadline => exact h.rootPeriod hn hd
    | treeWindow => exact h.push rfl
    | startDeadline => exact h.conclude slot .startFailed
    | quiet => exact h.quiet hn hd slot
    | subprocessIdle => exact (h.clearSlotTimer slot .callBound).quiet hn hd slot
    | callBound => exact h.callBound hn hd slot
    | confirm => exact (h.clearSlotTimers slot).conclude slot .hung
    | stopGrace => exact h.graceOver timer slot
    | holdRetry => exact h.restart hn hd slot
    | windDown => exact h

theorem Moved.timerFired (h : Moved e e') (timer : Text) (fireAt : Timestamp) :
    Moved (e.timerFired timer fireAt) (e'.timerFired timer (fireAt + d)) := by
  unfold Emit.timerFired
  rw [RunState.timers_shift, KeyMap.get_mapValues, isDeferred_shift]
  cases before.timers.get timer with
  | none => exact h
  | some armed =>
    dsimp only [Option.map_some]
    split_ifs
    · exact h.setPolicyTimer hn hd timer LivenessPolicy.wakeJump armed.purpose
    · exact h.fire hn hd timer armed.purpose _

/-! ## Inputs -/

omit hn hd in
theorem finished_shift (e : Emit before start now) : (e.shift d).finished = e.finished.shift d := by
  unfold finished
  rw [state_shift, RunState.phase_shift]
  cases e.state.phase with
  | finishing outcome reason tree => exact push_shift e (.finished outcome reason)
  | _ => rfl

theorem Moved.answer (h : Moved e e') (question : Key) (disposition : Disposition) :
    Moved (e.answer question disposition) (e'.answer question disposition) := by
  have hasked : ((before.shift d).questions.find? fun q => q.id == question).map Question.asked =
      (before.questions.find? fun q => q.id == question).map Question.asked := by
    show ((before.questions.map (Question.shift d)).find? _).map _ = _
    rw [List.find?_map, Option.map_map]
    rfl
  unfold Emit.answer
  rw [hasked]
  cases (before.questions.find? fun q => q.id == question).map Question.asked with
  | none => exact h
  | some asked =>
    cases asked with
    | escalation slot message => exact h.restart hn hd slot
    | ceiling step pass lastVerdict =>
      cases disposition with
      | «continue» => exact h.oneMorePass hn hd step pass
      | accept => exact h.accept hn hd step
      | unknown raw => exact h

theorem Moved.resume (h : Moved e e') (slot : Option Slot) :
    Moved (e.resume slot) (e'.resume slot) := by
  unfold Emit.resume
  rw [resumeTarget_shift, RunState.recordAt_shift]
  cases before.recordAt (resumeTarget before slot) with
  | none => exact h
  | some r =>
    have hcondition : (r.shift d).condition = r.condition.map (SlotCondition.shift d) := rfl
    dsimp only [Option.map_some]
    rw [hcondition]
    cases r.condition with
    | none => exact h
    | some condition =>
      cases condition with
      | held reason «until» order => exact (h.clearSlotTimer r.slot .holdRetry).restart hn hd r.slot
      | parked reason order since =>
        dsimp only [Option.map_some, SlotCondition.shift]
        split_ifs
        · exact h
        · exact h.restart hn hd r.slot

theorem Moved.resumeRun (h : Moved e e') : Moved e.resumeRun e'.resumeRun := by
  have hreason : (before.shift d).condition.map RunCondition.reason =
      before.condition.map RunCondition.reason := by
    show (before.condition.map (RunCondition.shift d)).map _ = _
    rw [Option.map_map]
    rfl
  unfold Emit.resumeRun
  rw [hreason]
  split
  · exact h.setPolicyTimer hn hd _ LivenessPolicy.rootDeadline _
  · exact h.setPolicyTimer hn hd _ LivenessPolicy.treeWindow _
  · exact h

omit hn hd in
theorem Moved.withdrawn (h : Moved e e') («by» : WithdrawnBy) :
    Moved (e.withdrawn «by») (e'.withdrawn «by») := by
  unfold Emit.withdrawn
  rw [RunState.isFinishing_shift]
  split_ifs
  · exact h.push rfl
  · exact h.finishRun _ _

theorem Moved.claimTaken (h : Moved e e') : Moved e.claimTaken e'.claimTaken := by
  refine h.step (.claimTaken (.refl e)) ?_
  rintro rfl
  unfold Emit.claimTaken
  rw [state_shift, RunState.flow_shift]
  cases e.state.flow.steps.head? with
  | none => exact (Moved.refl e).setPolicyTimer hn hd _ LivenessPolicy.treeWindow _
  | some first =>
    exact ((Moved.refl e).startStep hn hd first.id.text).setPolicyTimer hn hd _
      LivenessPolicy.treeWindow _

omit hn hd in
theorem Moved.treeRefused (h : Moved e e') (reason : TreeRefusal) :
    Moved (e.treeRefused reason) (e'.treeRefused reason) := by
  have hnone : (before.shift d).condition.isNone = before.condition.isNone := Option.isNone_map
  unfold Emit.treeRefused
  rw [hnone]
  split_ifs
  · exact (h.clearTimer treeWindowTimer).push rfl
  · exact h

/-- **Every input** makes of a moved list a moved list, or an addition stopped. -/
theorem input_moved (e : Emit before start now) {body : EventBody}
    (hbody : ∀ t ∈ body.instants, t + d ≤ lastWritableMillis) :
    Moved (e.input body) ((e.shift d).input (body.shift d)) := by
  have h := Moved.refl (d := d) e
  cases body with
  | commissioned workspaceId flow policy rootThread requester =>
    exact (h.push rfl).setPolicyTimer hn hd _ LivenessPolicy.rootDeadline _
  | rootOpened thread message =>
    show Moved (if e.state.phase = .created then _ else e) (if e.state.phase = .created then _ else _)
    split_ifs
    · exact (h.clearTimer rootDeadlineTimer).push rfl
    · exact h
  | claimTaken => exact h.claimTaken hn hd
  | claimBusy holder => exact h.push rfl
  | claimReleased => exact .inl (finished_shift e)
  | treePrepared base found => exact (h.clearTimer treeWindowTimer).armReady hn hd
  | treeRefused reason => exact h.treeRefused reason
  | nudged key => exact h.nudged hn hd key
  | stopSignalled key nth signal => exact h.stopSignalled hn hd key
  | sessionFact key fact => exact h.fact hn hd key hbody
  | reply key message escalate needsRework => exact h.reply hn hd key
  | answer question disposition message => exact h.answer hn hd question disposition
  | resume slot => exact h.resume hn hd slot
  | resumeRun => exact h.resumeRun hn hd
  | withdrawn message «by» => exact h.withdrawn «by»
  | timerFired timer fireAt => exact h.timerFired hn hd timer fireAt
  | _ => exact h

end Clock

end Emit

/-! ## Runs -/

/-- What a run made of one item: its decisions, then the effects owed and the state. -/
structure Handled where
  item : Item
  decisions : List Decision
  effects : List Effect
  state : RunState
deriving DecidableEq

/-- `item` handled in the state `st`. -/
def Item.handle (st : RunState) (item : Item) : Handled where
  item
  decisions := item.decisions st
  effects := pendingEffects (item.apply st)
  state := item.apply st

/-- A run, item by item. -/
def handled (st : RunState) : List Item → List Handled
  | [] => []
  | item :: items => item.handle st :: handled (item.apply st) items

namespace Handled

def shift (d : Int) (x : Handled) : Handled where
  item := x.item.shift d
  decisions := x.decisions.map (Decision.shift d)
  effects := x.effects
  state := x.state.shift d

/-- Every instant of the item and of its decisions. -/
def instants (x : Handled) : List Timestamp :=
  x.item.instants ++ x.decisions.flatMap Decision.instants

/-- Its instants can be moved by `d`, and no addition stopped. -/
structure Steady (d : Int) (x : Handled) : Prop where
  writable : ∀ t ∈ x.item.instants, Writable t
  moved : ∀ t ∈ x.instants, Writable (t + d)
  added : ∀ y ∈ x.decisions, ∀ t ∈ y.reckoned, t ≠ lastWritableMillis

end Handled

theorem Decision.reckoned_instants {x : Decision} {t : Timestamp} (h : t ∈ x.reckoned) :
    t ∈ x.instants := by
  cases x with
  | timerSet timer fireAt purpose =>
    obtain rfl := Option.some.inj h
    exact List.mem_singleton_self _
  | held slot reason «until» resetsAt =>
    obtain rfl := Option.some.inj h
    exact List.mem_cons_self
  | _ => exact (Option.not_mem_none t h).elim

theorem Handled.Steady.exact {d : Int} {x : Handled} (h : x.Steady d) {y : Decision}
    (hy : y ∈ x.decisions) : y.Exact d := fun t ht =>
  ⟨h.added y hy t ht, h.moved t (List.mem_append_right _
    (List.mem_flatMap.mpr ⟨y, hy, y.reckoned_instants ht⟩))⟩

/-- **One list of decisions**, under another clock. -/
theorem decide_shift {d : Int} {st : RunState} {input : Event}
    (h : ((Item.input input).handle st).Steady d) :
    decide (st.shift d) (input.shift d) = (decide st input).map (Decision.shift d) := by
  have hn : firstWritableMillis ≤ input.now := (h.writable _ List.mem_cons_self).1
  have hd : firstWritableMillis ≤ input.now + d :=
    (h.moved _ (List.mem_append_left _ List.mem_cons_self)).1
  have hbody : ∀ t ∈ input.body.instants, t + d ≤ lastWritableMillis := fun t ht =>
    (h.moved t (List.mem_append_left _ (List.mem_cons_of_mem _ ht))).2
  unfold decide
  rw [ignoredReason_shift]
  cases hignored : ignoredReason st input with
  | some reason => rfl
  | none =>
    have hout : (emitted st input).out = decide st input := by
      unfold decide
      rw [hignored]
    -- the moved input is folded into the moved state
    have hemitted : ∀ start : RunState, start = (applyInput st input).shift d →
        ((⟨start, [], rfl⟩ : Emit (st.shift d) start (input.now + d)).input
          (input.body.shift d)).out = (emitted st input).out.map (Decision.shift d) := by
      rintro _ rfl
      obtain heq | ⟨x, hx, hbad⟩ := (Emit.start st input).input_moved hn hd hbody
      · exact congrArg Emit.out heq
      · have hx' : x ∈ decide st input := by rwa [← hout]
        exact absurd (h.exact hx') hbad
    exact hemitted _ (applyInput_shift st input)

/-- **One item** under another clock. -/
theorem Item.handle_shift {d : Int} {st : RunState} {item : Item}
    (h : (item.handle st).Steady d) : (item.shift d).handle (st.shift d) = (item.handle st).shift d := by
  have hdecisions : (item.shift d).decisions (st.shift d) =
      (item.decisions st).map (Decision.shift d) := by
    cases item with
    | input input => exact decide_shift h
    | poison now => rfl
  have happly : (item.shift d).apply (st.shift d) = (item.apply st).shift d := by
    cases item with
    | input input =>
      show foldDecisions (applyInput (st.shift d) (input.shift d)) (input.now + d)
        (decide (st.shift d) (input.shift d)) = _
      rw [decide_shift h, applyInput_shift, foldDecisions_shift]
      rfl
    | poison now => exact applyDecision_shift st (.parked none .poisonInput) now
  unfold Item.handle Handled.shift
  simp only [hdecisions, happly, pendingEffects_shift]

theorem handled_shift_from {d : Int} (items : List Item) : ∀ {st : RunState},
    (∀ x ∈ handled st items, x.Steady d) →
      handled (st.shift d) (items.map (Item.shift d)) =
        (handled st items).map (Handled.shift d) := by
  induction items with
  | nil => exact fun _ => rfl
  | cons item items ih =>
    intro st h
    obtain ⟨hitem, hitems⟩ := List.forall_mem_cons.mp h
    have hhandle := Item.handle_shift hitem
    have happly : (item.shift d).apply (st.shift d) = (item.apply st).shift d :=
      congrArg Handled.state hhandle
    rw [List.map_cons, handled, handled, List.map_cons, hhandle, happly, ih hitems]

/-- **Decisions depend on time through differences**: a run fed the same items with every instant
moved by `d` decides, owes and reaches the same, moved. -/
theorem handled_shift {d : Int} {run : RunId} {flow : FlowDef} {items : List Item}
    (h : ∀ x ∈ handled (.initial run flow) items, x.Steady d) :
    handled (.initial run flow) (items.map (Item.shift d)) =
      (handled (.initial run flow) items).map (Handled.shift d) :=
  handled_shift_from items h

/-! ## Two runs -/

instance (d : Int) (x : Handled) : Decidable (x.Steady d) :=
  decidable_of_iff ((∀ t ∈ x.item.instants, Writable t) ∧ (∀ t ∈ x.instants, Writable (t + d)) ∧
    ∀ y ∈ x.decisions, ∀ t ∈ y.reckoned.toList, t ≠ lastWritableMillis)
    ⟨fun ⟨hw, hm, ha⟩ => ⟨hw, hm, fun y hy t ht => ha y hy t (Option.mem_toList.mpr ht)⟩,
      fun ⟨hw, hm, ha⟩ => ⟨hw, hm, fun y hy t ht => ha y hy t (Option.mem_toList.mp ht)⟩⟩

/-- The solo flow's run up to a session that meets a usage limit. -/
def soloLimited : List Item := soloStart ++ [
  inputAt 1000 (.sessionFact (soloKey 1) (.started "s")),
  inputAt 2000 (.sessionFact (soloKey 1) (.ended (.usageLimit (some 5000)))),
  inputAt 62000 (.timerFired (slotTimer .holdRetry (soloSlot 1)) 62000)]

theorem handled_shift_solo :
    handled (.initial ['r'] soloFlow) (soloLimited.map (Item.shift 777777777)) =
      (handled (.initial ['r'] soloFlow) soloLimited).map (Handled.shift 777777777) :=
  handled_shift (by decide)

/-- A commission whose policy gives the root as long as a `u64` can say. -/
def patientCommission : List Item := [
  inputAt 60000 (.commissioned "" "" { LivenessPolicy.default with
    rootDeadline := 18446744073709551615 } "" "")]

/-- **The last writable instant does not move**: the deadline of the root stops there under both
clocks, and every instant of the run can be moved back by a second. -/
theorem handled_shift_last :
    compile soloDecl soloReview = .ok soloFlow ∧
    (∀ x ∈ handled (.initial ['r'] soloFlow) patientCommission,
      (∀ t ∈ x.item.instants, Writable t) ∧ ∀ t ∈ x.instants, Writable (t + -1000)) ∧
    handled (.initial ['r'] soloFlow) (patientCommission.map (Item.shift (-1000))) ≠
      (handled (.initial ['r'] soloFlow) patientCommission).map (Handled.shift (-1000)) :=
  ⟨compile_solo, by decide, by decide⟩

end NexusFlow.Run
