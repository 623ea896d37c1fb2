import NexusFlow.Run.Front
import NexusFlow.Run.Signals

/-!
# Timers and slot states

What an armed timer says about its slot, in every state of a run. `Coh` has which timers a state may
and must have armed; here are the parts that need the history of a slot: a start deadline and a
hold's retry are armed for the instant the slot names, and a grace is armed only as far as its
round's signals have come (`Rung`), where `stop_signalled` answers a signal that is owed.
-/

namespace NexusFlow.Run

open NexusFlow.Lib

/-! ## Graces -/

/-- How far a ladder's round has come, and which graces may be armed there. -/
structure Rung (g : Nat → Bool) (r : SlotRecord) : Prop where
  first : ∀ l, r.state.ladder = some l → g 1 = true → l.signalsSent = 1 ∧ l.fired = .none
  second : ∀ l, r.state.ladder = some l → g 2 = true → 2 ≤ l.signalsSent
  unsent : ∀ l, r.state.ladder = some l → l.signalsSent = 0 → l.fired = .none
  stuck : r.condition.any SlotCondition.isWouldNotStop = true → g 1 = false ∧ g 2 = false ∧
    ∃ l, r.state.ladder = some l ∧ 2 ≤ l.signalsSent ∧ l.forced = false

section

variable {st st' : RunState} {input : Event} {r r' x : SlotRecord} {g g' : Nat → Bool}

theorem Rung.not_stuck (h : Rung g r) (hl : r.state.ladder = none) :
    r.condition.any SlotCondition.isWouldNotStop = false := by
  by_contra hstuck
  rw [Bool.not_eq_false] at hstuck
  obtain ⟨-, -, l, hsome, -⟩ := h.stuck hstuck
  rw [hl] at hsome
  cases hsome

theorem Rung.of_none (hl : r.state.ladder = none)
    (hc : r.condition.any SlotCondition.isWouldNotStop = false) : Rung g r := by
  refine ⟨fun l h => ?_, fun l h => ?_, fun l h => ?_, fun h => ?_⟩
  · rw [hl] at h
    cases h
  · rw [hl] at h
    cases h
  · rw [hl] at h
    cases h
  · rw [hc] at h
    cases h

/-- A ladder at its start, with no grace armed. -/
theorem Rung.of_new {l : Ladder} (hl : r.state.ladder = some l) (hfired : l.fired = .none)
    (hc : r.condition.any SlotCondition.isWouldNotStop = false)
    (hg : g 1 = false ∧ g 2 = false) : Rung g r := by
  refine ⟨fun l' _ h => ?_, fun l' _ h => ?_, fun l' h _ => ?_, fun h => ?_⟩
  · rw [hg.1] at h
    cases h
  · rw [hg.2] at h
    cases h
  · rw [hl] at h
    cases h
    exact hfired
  · rw [hc] at h
    cases h

/-- The same ladder and condition, with no grace more. -/
theorem Rung.congr (h : Rung g r) (hl : x.state.ladder = r.state.ladder)
    (hc : x.condition.any SlotCondition.isWouldNotStop = true →
      r.condition.any SlotCondition.isWouldNotStop = true)
    (hg : ∀ n, g' n = true → g n = true) : Rung g' x := by
  have hoff : ∀ {n}, g n = false → g' n = false := by
    intro n hn
    by_contra hne
    rw [Bool.not_eq_false] at hne
    rw [hg n hne] at hn
    cases hn
  refine ⟨fun l hs hn => ?_, fun l hs hn => ?_, fun l hs => ?_, fun hs => ?_⟩
  · exact h.first l (hl ▸ hs) (hg _ hn)
  · exact h.second l (hl ▸ hs) (hg _ hn)
  · exact h.unsent l (hl ▸ hs)
  · obtain ⟨h1, h2, l, hsome, hrest⟩ := h.stuck (hc hs)
    exact ⟨hoff h1, hoff h2, l, hl.trans hsome, hrest⟩

/-- The next signal of a round is owed only as far as the graces have fired. -/
theorem Ladder.owed_spec {l : Ladder} (h : l.owed.isSome = true) :
    l.signalsSent = 0 ∨ l.signalsSent = 1 ∧ l.fired ≠ .none ∨
      l.signalsSent = 2 ∧ l.forced = true := by
  obtain ⟨since, forced, sent, total, fired⟩ := l
  unfold Ladder.owed stopSignal at h
  simp only at h ⊢
  split at h <;> simp_all

theorem Rung.signalled {l : Ladder} (h : Rung g r) (hl : r.state.ladder = some l)
    (howed : l.owed.isSome = true) :
    Rung (fun n => n == l.signalsSent + 1 && n ≤ 2 || g n) r.applySignal := by
  have hladder := SlotRecord.applySignal_ladder hl
  have hfirst := h.first l hl
  have hsecond := h.second l hl
  have hunsent := h.unsent l hl
  have howed' := Ladder.owed_spec howed
  have hsent : min (l.signalsSent + 1) 255 = l.signalsSent + 1 := by omega
  refine ⟨fun l' hs hn => ?_, fun l' hs hn => ?_, fun l' hs hzero => ?_, fun hstuck => ?_⟩
  · rw [hladder] at hs
    cases hs
    simp only [Bool.or_eq_true, Bool.and_eq_true, beq_iff_eq, decide_eq_true_eq] at hn
    rcases hn with ⟨hn, -⟩ | hn
    · exact ⟨by simp only; omega, hunsent (by omega)⟩
    · obtain ⟨hone, hnone⟩ := hfirst hn
      rcases howed' with hz | ⟨-, hne⟩ | ⟨hz, -⟩
      · omega
      · exact absurd hnone hne
      · omega
  · rw [hladder] at hs
    cases hs
    simp only [Bool.or_eq_true, Bool.and_eq_true, beq_iff_eq, decide_eq_true_eq] at hn
    simp only
    rcases hn with ⟨hn, -⟩ | hn
    · omega
    · have := hsecond hn
      omega
  · rw [hladder] at hs
    cases hs
    simp only at hzero
    omega
  · -- A stop that gave up owes no signal.
    obtain ⟨-, -, l', hl', hsent', hforced⟩ := h.stuck hstuck
    rw [hl] at hl'
    cases hl'
    rcases howed' with hz | ⟨hz, -⟩ | ⟨-, hz⟩
    · omega
    · omega
    · rw [hforced] at hz
      cases hz

/-- A grace that fired is not armed, and the ladder knows. -/
theorem Rung.fired {l : Ladder} {n : Nat} (h : Rung g r) (hl : r.state.ladder = some l)
    (hn : n = 1 ∨ n = 2) (harmed : g n = true) (hx : x.state.ladder = some (l.fire n))
    (hc : x.condition.any SlotCondition.isWouldNotStop = true → n = 2 ∧ l.forced = false) :
    Rung (fun m => m != n && g m) x := by
  have hfirst := h.first l hl
  have hsecond := h.second l hl
  have hsent : n ≤ l.signalsSent := by
    rcases hn with rfl | rfl
    · exact (hfirst harmed).1.ge
    · exact hsecond harmed
  refine ⟨fun l' hs hm => ?_, fun l' hs hm => ?_, fun l' hs hzero => ?_, fun hstuck => ?_⟩
  · rw [Bool.and_eq_true, bne_iff_ne] at hm
    have := (hfirst hm.2).1
    rcases hn with rfl | rfl
    · exact absurd rfl hm.1
    · omega
  · rw [hx] at hs
    cases hs
    rw [Bool.and_eq_true] at hm
    exact hsecond hm.2
  · rw [hx] at hs
    cases hs
    have : l.signalsSent = 0 := hzero
    omega
  · obtain ⟨rfl, hforced⟩ := hc hstuck
    refine ⟨?_, rfl, _, hx, hsent, hforced⟩
    by_contra hone
    rw [Bool.not_eq_false, Bool.and_eq_true] at hone
    have := (hfirst hone.2).1
    omega

/-- **What a session's input does to the rungs of its stop**, where `stop_signalled` answers a
signal that is owed. -/
theorem SlotMove.rung (hmove : SlotMove st input r x g) (hc : Coherent st r)
    (h : Rung (st.graceArmed r.slot) r)
    (howed : ∀ nth signal l, input.body = .stopSignalled (st.sessionKey r.slot) nth signal →
      r.state.ladder = some l → l.owed.isSome = true) : Rung g x := by
  have hoff : r.state.ladder = none → ∀ n, st.graceArmed r.slot n = false := by
    intro hl n
    by_contra hne
    rw [Bool.not_eq_false] at hne
    have := hc.grace n hne
    rw [hl] at this
    cases this
  -- A stop begins where none was.
  have hnew : ∀ {y : SlotRecord} {l : Ladder} {g : Nat → Bool}, r.state.ladder = none →
      y.condition = r.condition → y.state.ladder = some l → l.fired = .none →
      (∀ n, g n = true → st.graceArmed r.slot n = true) → Rung g y := by
    intro y l g hl hcond hy hfired hg
    refine .of_new hy hfired (by rw [hcond]; exact h.not_stuck hl) ⟨?_, ?_⟩ <;>
    · by_contra hne
      rw [Bool.not_eq_false] at hne
      have := hg _ hne
      rw [hoff hl] at this
      cases this
  have hreply : ∀ {y : SlotRecord} {now : Timestamp}, y.state = r.state →
      y.condition = r.condition → r.state.isReplied = true →
      Rung (st.graceArmed r.slot) (y.startReplyStop now st.withdrawn) := by
    intro y now hs hcond hrep
    have hy := ladder_startReplyStop (x := y) (by rw [hs]; exact hrep) now st.withdrawn
    have hcond' : (y.startReplyStop now st.withdrawn).condition = r.condition := by
      unfold SlotRecord.startReplyStop
      split <;> exact hcond
    rw [hs] at hy
    cases hl : r.state.ladder with
    | none =>
      rw [hl] at hy
      exact hnew hl hcond' hy rfl fun _ => id
    | some l =>
      rw [hl] at hy
      exact h.congr (hy.trans hl.symm) (by rw [hcond']; exact id) fun _ => id
  cases hmove with
  | nudged _ hs => exact h.congr (by rw [hs]; rfl) id fun _ => id
  | signalled hb hl hnth => exact h.signalled hl (howed _ _ _ hb hl)
  | started _ hs => exact h.congr (by rw [hs]; rfl) id fun _ => id
  | startedStopping _ _ => exact h.congr rfl id fun _ => id
  | startedEnded _ hs _ => exact hnew (by rw [hs]; rfl) rfl rfl rfl fun _ => id
  | @sign f _ hsign hacc =>
    have hcond : (r.applyFact (st.isSuperseded r) st.withdrawn input.now f).condition
        = r.condition := sign_condition hsign _ _ _
    refine h.congr ?_ (by rw [hcond]; exact id) fun _ => id
    rcases sign_state hsign hacc (st.isSuperseded r) st.withdrawn input.now with
      heq | ⟨hwork, session, openCall, heq⟩
    · rw [heq]
    · rw [heq, SlotState.isWorking_ladder hwork]
      rfl
  | lingering _ hwork =>
    exact hnew (SlotState.isWorking_ladder hwork) rfl rfl rfl fun _ => (fun h => by cases h)
  | lingeringReplied _ hrep _ => exact hreply rfl rfl hrep
  | lingeringStopping _ _ => exact h.congr rfl id fun _ => id
  | ended _ hlive =>
    refine .of_none ?_ rfl
    unfold SlotRecord.end'
    cases hs : r.state <;> rfl
  | replied _ hwork _ => exact .of_none rfl (h.not_stuck (SlotState.isWorking_ladder hwork))
  | resumed _ hcond _ _ =>
    unfold SlotRecord.applyResume
    split
    · rename_i hstuck
      obtain ⟨h1, h2, l, hl, -⟩ := h.stuck hstuck
      exact .of_new (l := { l with signalsSent := 0, fired := .none })
        (by simp only [SlotState.mapLadder_ladder, hl, Option.map_some]) rfl rfl ⟨h1, h2⟩
    · exact h.congr rfl (fun h => by cases h) fun _ => id
  | deferred _ _ _ _ _ => exact h
  | deferredStart _ hs => exact h.congr (by rw [hs]; rfl) id fun _ => id
  | startFailed _ hs => exact hnew (by rw [hs]; rfl) rfl rfl rfl fun _ => id
  | quiet _ hs => exact h.congr (by rw [hs]; rfl) id fun _ => id
  | callBound _ _ => exact h
  | hung _ hs =>
    refine hnew ?_ rfl rfl rfl fun _ => (fun h => by cases h)
    cases hq : r.state <;> first | rfl | (rw [hq] at hs; cases hs)
  | @grace l n _ _ _ harmed hn hl hpark =>
    refine h.fired hl hn harmed (by rw [SlotState.mapLadder_ladder, hl]; rfl) fun hstuck => ?_
    obtain ⟨h1, h2, -⟩ := h.stuck hstuck
    rcases hn with rfl | rfl
    · rw [h1] at harmed
      cases harmed
    · rw [h2] at harmed
      cases harmed
  | wouldNotStop _ _ harmed hl hforced =>
    exact h.fired hl (Or.inr rfl) harmed (by rw [SlotState.mapLadder_ladder, hl]; rfl)
      fun _ => ⟨rfl, hforced⟩
  | windDown _ hrep _ _ => exact hreply rfl rfl hrep
  | retry _ _ _ _ => exact h

/-- The end of the run keeps a ladder or begins one. -/
theorem Rung.finish (h : Rung g r) (hoff : r.state.ladder = none → g 1 = false ∧ g 2 = false)
    (forced : Bool) (now : Timestamp) : Rung g (r.finish forced now) := by
  have hnone : (r.finish forced now).condition = none := rfl
  cases hl : r.state.ladder with
  | some l =>
    refine h.congr ?_ (by rw [hnone]; exact fun h => by cases h) fun _ => id
    unfold SlotRecord.finish
    cases hs : r.state <;> first | rfl | (rw [hs] at hl; cases hl)
  | none =>
    cases hl' : (r.finish forced now).state.ladder with
    | none => exact .of_none hl' rfl
    | some l =>
      refine .of_new hl' ?_ rfl (hoff hl)
      unfold SlotRecord.finish at hl'
      cases hs : r.state with
      | stopping l after => rw [hs] at hl; cases hl
      | replied m esc rew process overdue l₀ =>
        rw [hs] at hl
        simp only [hs] at hl'
        rw [show l₀ = none from hl] at hl'
        cases hl'
      | _ => simp only [hs] at hl'; cases hl' <;> rfl

/-- A withdrawal forces what is under way. -/
theorem Rung.withdrawn (h : Rung g r) : Rung g r.applyWithdrawn := by
  have hcond : r.applyWithdrawn.condition.any SlotCondition.isWouldNotStop = false := by
    unfold SlotRecord.applyWithdrawn
    simp only
    split
    · rfl
    · rename_i hne
      rwa [Bool.not_eq_true] at hne
  cases hl : r.state.ladder with
  | none =>
    refine .of_none ?_ hcond
    rw [SlotRecord.applyWithdrawn_of_none hl]
    exact hl
  | some l =>
    have hl' := SlotRecord.applyWithdrawn_ladder hl
    refine ⟨fun l' hs => ?_, fun l' hs => ?_, fun l' hs => ?_, fun hs => ?_⟩
    · rw [hl'] at hs
      cases hs
      exact h.first l hl
    · rw [hl'] at hs
      cases hs
      exact h.second l hl
    · rw [hl'] at hs
      cases hs
      exact h.unsent l hl
    · rw [hcond] at hs
      cases hs

/-- `stop_signalled` is accepted only for a signal that is owed. -/
def OwedSignal (st : RunState) (input : Event) : Prop :=
  ∀ key nth signal, input.body = .stopSignalled key nth signal →
    ∃ kind, .stopSession key kind nth ∈ pendingEffects st

theorem OwedSignal.owed (h : OwedSignal st input) (hord : Ordered st.ids) (hr : r ∈ st.slots)
    {nth : Nat} {signal : StopKind} {l : Ladder}
    (hb : input.body = .stopSignalled (st.sessionKey r.slot) nth signal)
    (hl : r.state.ladder = some l) : l.owed.isSome = true := by
  obtain ⟨kind, hmem⟩ := h _ _ _ hb
  obtain ⟨y, hy, l', hkey, hl', howed, -⟩ := owed_stop hmem
  have hslot : y.slot = r.slot := (sessionKey_injective hkey).symm
  rw [RunState.record_unique hord hy hr hslot, hl] at hl'
  cases hl'
  rw [howed]
  rfl

/-- **Every change of a record keeps its rungs.** -/
theorem Change.rung (hchange : Change st input st' r r') (hslot : r.slot = r'.slot)
    (hc : Coherent st r) (h : Rung (st.graceArmed r.slot) r)
    (howed : ∀ nth signal l, input.body = .stopSignalled (st.sessionKey r.slot) nth signal →
      r.state.ladder = some l → l.owed.isSome = true) : Rung (st'.graceArmed r'.slot) r' := by
  rw [← hslot]
  have hsame : SameTimers st st' r.slot →
      ∀ n, st'.graceArmed r.slot n = true → st.graceArmed r.slot n = true := by
    intro ht n
    unfold RunState.graceArmed
    rw [ht _ rfl]
    exact id
  have hkept : (∀ t : TimerId, t.slot? = some r.slot →
      st'.timer t = (st.timer t).filter fun a => keepsFinishing (t.text, a)) →
      ∀ n, st'.graceArmed r.slot n = true → st.graceArmed r.slot n = true := by
    intro ht n hn
    unfold RunState.graceArmed at hn ⊢
    rw [ht _ rfl] at hn
    obtain ⟨a, ha⟩ := Option.isSome_iff_exists.mp hn
    rw [(Option.filter_eq_some_iff.mp ha).1]
    rfl
  have hoff : r.state.ladder = none →
      st.graceArmed r.slot 1 = false ∧ st.graceArmed r.slot 2 = false := by
    intro hl
    constructor <;>
    · by_contra hne
      rw [Bool.not_eq_false] at hne
      have := hc.grace _ hne
      rw [hl] at this
      cases this
  cases hchange with
  | stays hstays =>
    cases hstays with
    | same heq ht =>
      subst heq
      exact h.congr rfl id (hsame ht)
    | starts d hs heq ht =>
      have hl : r.state.ladder = none := by rw [hs]; rfl
      exact heq ▸ .of_none rfl (h.not_stuck hl)
  | @moves x g hmove hg hends =>
    have hx : Rung (st'.graceArmed r.slot) x := by
      have := hmove.rung hc h howed
      rwa [← funext hg] at this
    cases hends with
    | here heq => exact heq ▸ hx
    | @parked reason order cause hs hreason heq =>
      subst heq
      refine .of_none (by rw [hs]; rfl) ?_
      cases reason <;> first | rfl | exact absurd rfl hreason
    | held hs heq _ => exact heq ▸ .of_none (by rw [hs]; rfl) rfl
    | isOver hs heq => exact heq ▸ hx.congr rfl (fun h => by cases h) fun _ => id
  | finishes hf =>
    rw [hf.eq]
    exact (h.finish hoff _ _).congr rfl id (hkept hf.timers)
  | withdrawn _ _ hf =>
    rw [hf.eq]
    refine (h.withdrawn.finish (fun hl => hoff ?_) _ _).congr rfl id (hkept hf.timers)
    rw [SlotRecord.applyWithdrawn_state, SlotState.mapLadder_ladder, Option.map_eq_none_iff] at hl
    exact hl
  | forced _ _ heq ht =>
    subst heq
    exact h.withdrawn.congr rfl id (hsame ht)

/-! ## Instants -/

/-- A slot's start deadline and its hold's retry are armed for the instants the slot names. -/
structure Timed (st : RunState) (r : SlotRecord) : Prop where
  deadline : ∀ d, r.state = .starting d →
    st.timer (.slot .startDeadline r.slot) = some ⟨d, .startDeadline⟩
  retry : ¬ Later st.ids r.slot → ∀ reason «until» order,
    r.condition = some (.held reason «until» order) →
      st.timer (.slot .holdRetry r.slot) = some ⟨«until», .holdRetry⟩

/-- A sign of life that finds no session at work leaves the timers alone. -/
theorem sign_timers (h : Coh st) (hacc : ignoredReason st input = none) {f : SessionFact}
    (hr : r ∈ st.slots) (hb : input.body = .sessionFact (st.sessionKey r.slot) f)
    (hsign : f.isSign = true)
    (hs : (∃ d, r.state = .starting d) ∨ ∃ cause, r.state = .ended cause) (t : TimerId) :
    (emitted st input).state.timer t = st.timer t := by
  have hfound := (found_iff h).mpr ⟨hr, rfl⟩
  obtain ⟨-, htimer, hemit⟩ := fact_start h hacc hb hfound
  obtain ⟨y, hy, hig⟩ := accepted_sessionFact hacc hb
  obtain rfl : r = y := Option.some.inj (hfound.symm.trans hy)
  have hnot : Emit.wasQuiet r.state = false := by
    rcases hs with ⟨d, hs⟩ | ⟨cause, hs⟩ <;> rw [hs] <;> rfl
  rw [hemit, ← htimer]
  cases f with
  | heartbeat k =>
    have := outOfState_none hig
    rcases hs with ⟨d, hs⟩ | ⟨cause, hs⟩ <;> simp [hs] at this
  | usage => simp only [Emit.factOn, hnot, Bool.false_eq_true, if_false]
  | permissionRefused rule program =>
    simp only [Emit.factOn, hnot, Bool.false_eq_true, if_false]
  | _ => cases hsign

/-- A start deadline that is put off is put off for the slot too. -/
theorem deferredStart_timer (h : Coh st) (hacc : ignoredReason st input = none)
    {fireAt : Timestamp} (hr : r ∈ st.slots)
    (hb : input.body = .timerFired (slotTimer .startDeadline r.slot) fireAt) {y : SlotRecord}
    (hy : y ∈ (emitted st input).state.slots) (hslot : y.slot = r.slot) {d : Timestamp}
    (hs : y.state = .starting d) :
    (emitted st input).state.timer (.slot .startDeadline r.slot) = some ⟨d, .startDeadline⟩ := by
  obtain ⟨a, ha, rfl⟩ := accepted_timerFired hacc hb
  have ha : st.timer (.slot .startDeadline r.slot) = some a := ha
  have hb : input.body = .timerFired (TimerId.slot .startDeadline r.slot).text a.fireAt := hb
  obtain ⟨u, htext, hfits, -⟩ := h.known _ _ ha
  cases TimerId.text_injective (t := .slot .startDeadline r.slot) htext
  cases hdef : isDeferred st (TimerId.slot .startDeadline r.slot).text a.fireAt input.now with
  | true =>
    have hstart := firing_start hacc hb ha
    rw [if_pos hdef] at hstart
    have hord : Ordered (Emit.start st input).state.ids := by
      rw [hstart]
      exact h.ordered
    have hstate : (emitted st input).state = (Emit.start st input).state.startSlot r.slot
        (input.now.plus (Emit.start st input).state.policy.wakeJump) := by
      rw [firing_emitted hb ha, if_pos hdef, show a.purpose = .startDeadline from hfits.1]
      exact state_setStartDeadline (Emit.start st input) hord r.slot _
    rw [hstate] at hy ⊢
    obtain ⟨z, -, rfl⟩ := RunState.mem_upd.mp hy
    have hz : z.slot = r.slot := by
      by_contra hne
      rw [if_neg hne] at hslot
      exact hne hslot
    rw [if_pos hz] at hs
    rw [timer_startSlot, if_pos rfl]
    unfold SlotRecord.armStart at hs
    split at hs
    · cases hs
      rfl
    · cases hs
      rfl
    · rename_i hnot
      exact absurd hs (hnot d)
  | false =>
    obtain ⟨hstart, hemit⟩ := fired_start hacc hb ha hfits hdef
    have hmay := (h.slots r hr).may .startDeadline (by rw [ha]; rfl)
    obtain ⟨-, d', hs'⟩ | ⟨hne, -⟩ | ⟨hne, -⟩ | ⟨hne, -⟩ | ⟨hne, -⟩ | ⟨hne, -⟩ | ⟨hne, -⟩ :=
      SlotRecord.mayArm_state hmay
    any_goals cases hne
    rw [hemit] at hy
    have hland := startFailed_lands (e := Emit.start st input) h hr hstart hs'
    rcases hland.replaces.mem_iff.mp hy with rfl | ⟨-, hne⟩
    · cases hs
    · exact absurd hslot hne

theorem not_deferred_retry (h : Coh st) (s : Slot) (fireAt now : Timestamp) :
    isDeferred st (slotTimer .holdRetry s) fireAt now = false := by
  unfold isDeferred
  split
  · rfl
  · rename_i a ha
    obtain ⟨u, htext, hfits, -⟩ := h.known _ _ ha
    cases TimerId.text_injective (t := .slot .holdRetry s) htext
    rw [show a.purpose = .holdRetry from hfits.1]
    rfl

theorem Starts.later {now : Timestamp} {mid : RunState} {s : Slot} (h : Restarts now mid s st') :
    Later st'.ids s := by
  obtain ⟨new, ho, hnew⟩ := opened_of_stepStarted mid s.step s.visit (s.attempt + 1) [s.member] now
  refine ⟨⟨s.step, s.visit, s.member, s.attempt + 1⟩, ?_, rfl, Nat.lt_succ_self _⟩
  rw [h.arms.keeps_ids, ho.ids, hnew]
  exact List.mem_append_right _ List.mem_cons_self

/-- The retry of a hold is the next attempt. -/
theorem Transition.retry_later (ht : Transition st input st') (h : Coh st) {s : Slot}
    {fireAt : Timestamp} (hb : input.body = .timerFired (slotTimer .holdRetry s) fireAt) :
    Later st'.ids s := by
  have htext : ∀ {t : TimerId} {at' : Timestamp}, input.body = .timerFired t.text at' →
      t = .slot .holdRetry s := by
    intro t at' hb'
    rw [hb] at hb'
    injection hb' with htext _
    exact (TimerId.text_injective (t := .slot .holdRetry s) htext).symm
  cases ht with
  | run hm =>
    cases hm with
    | attended hb' hsteady hknown hslot hattends =>
      cases hattends with
      | deferred hb' hnone _ _ _ =>
        rw [htext hb'] at hnone
        cases hnone
      | rootPeriod hb' _ _ _ _ => cases htext (t := .rootDeadline) hb'
      | windowOver hb' _ _ _ _ => cases htext (t := .treeWindow) hb'
      | refusalKept hb' _ _ _ _ => rw [hb] at hb'; cases hb'
      | refused hb' _ _ _ _ _ => rw [hb] at hb'; cases hb'
      | resumed hb' _ _ _ _ _ => rw [hb] at hb'; cases hb'
    | _ => simp_all
  | @slot r r' g st' hmove hland hsettles =>
    exfalso
    have hslot : ∀ {t : TimerId} {at' : Timestamp}, input.body = .timerFired t.text at' →
        t.slot? = some r.slot → False := by
      intro t at' hb' hs
      rw [htext hb'] at hs
      cases hs
      have := hsettles.retry fireAt hb
      rw [not_deferred_retry h] at this
      cases this
    cases hmove with
    | deferred hb' hs _ _ _ => exact hslot hb' hs
    | deferredStart hb' _ => exact hslot (t := .slot .startDeadline r.slot) hb' rfl
    | startFailed hb' _ => exact hslot (t := .slot .startDeadline r.slot) hb' rfl
    | quiet hb' _ => exact hslot (t := .slot _ r.slot) hb' rfl
    | callBound hb' _ => exact hslot (t := .slot .callBound r.slot) hb' rfl
    | hung hb' _ => exact hslot (t := .slot .confirm r.slot) hb' rfl
    | grace hb' _ _ _ _ _ => exact hslot (t := .grace _ r.slot) hb' rfl
    | wouldNotStop hb' _ _ _ _ => exact hslot (t := .grace 2 r.slot) hb' rfl
    | windDown hb' _ _ _ => exact hslot (t := .slot .windDown r.slot) hb' rfl
    | retry hb' _ _ _ => exact hslot (t := .slot .holdRetry r.slot) hb' rfl
    | _ => simp_all
  | @retried r g at' cause mid st' hb' _ _ _ _ _ _ _ hre =>
    have := htext (t := .slot .holdRetry r.slot) hb'
    cases this
    exact Starts.later hre
  | _ => simp_all

/-- What fires a slot's timer finds it armed. -/
theorem armed_of_fired (hacc : ignoredReason st input = none) {t : TimerId} {fireAt : Timestamp}
    (hb : input.body = .timerFired t.text fireAt) : (st.timer t).isSome = true := by
  obtain ⟨a, ha, -⟩ := accepted_timerFired hacc hb
  have ha : st.timer t = some a := ha
  rw [ha]
  rfl

/-- A slot that is starting after an input was starting before it, or its deadline was put off. -/
theorem SlotMove.starting (hmove : SlotMove st input r x g) (hc : Coherent st r)
    (hacc : ignoredReason st input = none) {d : Timestamp} (hs : x.state = .starting d) :
    (∃ fireAt, input.body = .timerFired (slotTimer .startDeadline r.slot) fireAt) ∨
      r.state = .starting d ∧
        ∃ f, f.isSign = true ∧ input.body = .sessionFact (st.sessionKey r.slot) f := by
  have hladder : ∀ {s : SlotState} {f : Ladder → Ladder}, s.ladder.isSome = true →
      s.mapLadder f ≠ .starting d := by
    intro s f hsome heq
    cases s with
    | stopping l after => cases heq
    | replied m esc rew process overdue l => cases heq
    | _ => cases hsome
  have hreply : ∀ {y : SlotRecord} {now : Timestamp} {forced : Bool}, y.state.isReplied = true →
      (y.startReplyStop now forced).state ≠ .starting d := by
    intro y now forced hrep heq
    unfold SlotRecord.startReplyStop at heq
    cases hy : y.state with
    | replied m esc rew process overdue l => simp only [hy] at heq; cases heq
    | _ => rw [hy] at hrep; cases hrep
  cases hmove with
  | deferredStart hb _ => exact Or.inl ⟨_, hb⟩
  | @sign f hb hsign hig =>
    rcases sign_state hsign hig (st.isSuperseded r) st.withdrawn input.now with
      heq | ⟨-, session, openCall, heq⟩
    · exact Or.inr ⟨heq.symm.trans hs, f, hsign, hb⟩
    · rw [heq] at hs
      cases hs
  | signalled _ hl _ => exact absurd hs (hladder (by rw [hl]; rfl))
  | grace _ _ _ _ hl _ => exact absurd hs (hladder (by rw [hl]; rfl))
  | wouldNotStop _ _ _ hl _ => exact absurd hs (hladder (by rw [hl]; rfl))
  | lingeringReplied _ hrep _ => exact absurd hs (hreply hrep)
  | windDown _ hrep _ _ => exact absurd hs (hreply hrep)
  | startedStopping _ hs' => rw [hs'] at hs; cases hs
  | lingeringStopping _ hs' => rw [hs'] at hs; cases hs
  | retry _ hs' _ _ => rw [hs'] at hs; cases hs
  | ended _ _ =>
    unfold SlotRecord.end' at hs
    cases hr : r.state <;> simp [hr] at hs
  | @resumed slot _ c hcond hlast _ =>
    -- A condition stands on a stop or on an end.
    exfalso
    have hfits := hc.condition hlast c hcond
    have hstate : r.state = .starting d := by
      unfold SlotRecord.applyResume at hs
      split at hs
      · rename_i hstuck
        rw [hcond, Option.any_some] at hstuck
        rw [if_pos hstuck] at hfits
        exact absurd hs (hladder hfits)
      · exact hs
    rw [hstate] at hfits
    split at hfits
    · cases hfits
    · obtain ⟨cause, hended⟩ := hfits
      cases hended
  | @deferred t fireAt hb ht hdef harmed hne =>
    exfalso
    cases t with
    | rootDeadline => cases ht
    | treeWindow => cases ht
    | grace n s =>
      cases ht
      have := hc.grace n harmed
      rw [hs] at this
      cases this
    | slot p s =>
      cases ht
      have hmay := hc.may p harmed
      simp only [SlotRecord.mayArm, hs, List.mem_singleton] at hmay
      exact hne r.slot (by rw [hmay])
  | callBound hb _ =>
    have hmay := hc.may .callBound (armed_of_fired (t := .slot .callBound r.slot) hacc hb)
    simp [SlotRecord.mayArm, hs] at hmay
  | _ => cases hs

/-- A hold that stands after an input stood before it: the input was a sign of life, or the hold's
retry. -/
theorem SlotMove.held (hmove : SlotMove st input r x g) (hcoh : Coh st) (hc : Coherent st r)
    (hacc : ignoredReason st input = none) (hlast : ¬ Later st.ids r.slot) {reason : ReasonCode}
    {«until» : Timestamp} {order : Nat} (hcond : x.condition = some (.held reason «until» order)) :
    (∃ fireAt, input.body = .timerFired (slotTimer .holdRetry r.slot) fireAt) ∨
      r.condition = some (.held reason «until» order) ∧ (∃ cause, r.state = .ended cause) ∧
        ∃ f, f.isSign = true ∧ input.body = .sessionFact (st.sessionKey r.slot) f := by
  have hfits : ∀ {y : SlotRecord}, y.condition = r.condition →
      y.condition = some (.held reason «until» order) → ∃ cause, r.state = .ended cause := by
    intro y hy hcond
    exact hc.condition hlast _ (hy.symm.trans hcond)
  have hworking : ∀ {y : SlotRecord}, y.condition = r.condition →
      y.condition = some (.held reason «until» order) → r.state.isLive = true → False := by
    intro y hy hcond hlive
    obtain ⟨cause, hs⟩ := hfits hy hcond
    rw [hs] at hlive
    cases hlive
  have hladder : ∀ {y : SlotRecord}, y.condition = r.condition →
      y.condition = some (.held reason «until» order) → r.state.ladder.isSome = true → False :=
    fun hy hcond hl => hworking hy hcond (hc.alive hl)
  have hstop : ∀ (y : SlotRecord) (now : Timestamp) (forced : Bool),
      (y.startReplyStop now forced).condition = y.condition := by
    intro y now forced
    unfold SlotRecord.startReplyStop
    split <;> rfl
  cases hmove with
  | retry hb _ _ _ => exact Or.inl ⟨_, hb⟩
  | @sign f hb hsign hig =>
    have heq := sign_condition (r := r) hsign (st.isSuperseded r) st.withdrawn input.now
    exact Or.inr ⟨heq.symm.trans hcond, hfits heq hcond, f, hsign, hb⟩
  | nudged _ hs => exact (hworking rfl hcond (by rw [hs]; rfl)).elim
  | signalled _ hl _ => exact (hladder rfl hcond (by rw [hl]; rfl)).elim
  | started _ hs => exact (hworking rfl hcond (by rw [hs]; rfl)).elim
  | startedStopping _ hs => exact (hworking rfl hcond (by rw [hs]; rfl)).elim
  | startedEnded _ _ hlater => exact absurd hlater hlast
  | lingering _ hwork => exact (hworking rfl hcond (SlotState.isWorking_spec hwork).2.2.2).elim
  | lingeringReplied _ _ hlive =>
    rw [hstop] at hcond
    exact (hworking rfl hcond hlive).elim
  | lingeringStopping _ hs => exact (hworking rfl hcond (by rw [hs]; rfl)).elim
  | ended _ _ => cases hcond
  | replied _ hwork _ => exact (hworking rfl hcond (SlotState.isWorking_spec hwork).2.2.2).elim
  | resumed _ _ _ _ =>
    unfold SlotRecord.applyResume at hcond
    split at hcond <;> cases hcond
  | @deferred t fireAt hb ht hdef harmed hne =>
    exfalso
    obtain ⟨cause, hs⟩ := hfits rfl hcond
    cases t with
    | rootDeadline => cases ht
    | treeWindow => cases ht
    | grace n s =>
      cases ht
      have := hc.grace n harmed
      rw [hs] at this
      cases this
    | slot p s =>
      cases ht
      have hmay := hc.may p harmed
      simp only [SlotRecord.mayArm, hs, hcond, Option.any_some, SlotCondition.isHeld, if_true,
        List.mem_singleton] at hmay
      subst hmay
      rw [show (TimerId.slot .holdRetry r.slot).text = slotTimer .holdRetry r.slot from rfl,
        not_deferred_retry hcoh] at hdef
      cases hdef
  | deferredStart _ hs => exact (hworking rfl hcond (by rw [hs]; rfl)).elim
  | startFailed _ hs => exact (hworking rfl hcond (by rw [hs]; rfl)).elim
  | quiet _ hs => exact (hworking rfl hcond (by rw [hs]; rfl)).elim
  | callBound hb _ =>
    obtain ⟨cause, hs⟩ := hfits rfl hcond
    have hmay := hc.may .callBound (armed_of_fired (t := .slot .callBound r.slot) hacc hb)
    simp [SlotRecord.mayArm, hs] at hmay
  | hung _ hs =>
    refine (hworking rfl hcond ?_).elim
    cases hq : r.state <;> first | rfl | (rw [hq] at hs; cases hs)
  | grace _ _ _ _ hl _ => exact (hladder rfl hcond (by rw [hl]; rfl)).elim
  | wouldNotStop _ _ _ _ _ => cases hcond
  | windDown _ _ hlive _ => exact (hworking (hstop _ _ _) hcond hlive).elim

/-- **Every change of a record keeps its instants.** -/
theorem Change.timed (hchange : Change st input st' r r') (hslot : r.slot = r'.slot)
    (h : Timed st r) (hr : r ∈ st.slots) (hr' : r' ∈ st'.slots) (hinv : Inv st) (hinv' : Inv st')
    (hacc : ignoredReason st input = none) (heq : st' = step st input)
    (ht : Transition st input st') : Timed st' r' := by
  have hc := hinv.coh.slots r hr
  have hlast : ¬ Later st'.ids r'.slot → ¬ Later st.ids r.slot := by
    intro hnot hlater
    exact hnot (hslot ▸ hlater.mono fun _ => ht.ids_mono)
  have hheld : ¬ Later st'.ids r'.slot → ∀ {reason «until» order},
      r.condition = some (.held reason «until» order) → ∃ cause, r.state = .ended cause :=
    fun hnot _ _ _ hcond => hc.condition (hlast hnot) _ hcond
  have hsame : SameTimers st st' r.slot → r'.state = r.state →
      (∀ reason «until» order, r'.condition = some (.held reason «until» order) →
        r.condition = some (.held reason «until» order)) → Timed st' r' := by
    intro htimers hstate hcond
    refine ⟨fun d hs => ?_, fun hnot reason «until» order hcond' => ?_⟩
    · rw [← hslot, htimers _ rfl]
      exact h.deadline d (hstate ▸ hs)
    · rw [← hslot, htimers _ rfl]
      exact h.retry (hlast hnot) _ _ _ (hcond _ _ _ hcond')
  have hover : st'.isOver = true → r'.condition = none → Timed st' r' := by
    intro hover hnone
    refine ⟨fun d hs => ?_, fun _ _ _ _ hcond => ?_⟩
    · have := ((hinv'.coh.slots r' hr').isOver hover).1
      rw [hs] at this
      cases this
    · rw [hnone] at hcond
      cases hcond
  have hfinishing : st'.isFinishing = true → st'.isOver = true := by
    intro hfin
    unfold RunState.isOver
    rw [hfin]
    rfl
  cases hchange with
  | stays hstays =>
    cases hstays with
    | same heq' htimers => exact hsame htimers (by rw [heq']) fun _ _ _ => by rw [heq']; exact id
    | starts d hs heq' harmed =>
      subst heq'
      refine ⟨fun d' hs' => ?_, fun hnot reason «until» order hcond => ?_⟩
      · cases hs'
        exact harmed.armed
      · obtain ⟨cause, hended⟩ := hheld hnot hcond
        rw [hs] at hended
        cases hended
  | finishes hf => exact hover (hfinishing hf.fin) (by rw [hf.eq]; rfl)
  | withdrawn _ _ hf => exact hover (hfinishing hf.fin) (by rw [hf.eq]; rfl)
  | forced _ _ heq' htimers =>
    subst heq'
    refine ⟨fun d hs => ?_, fun hnot reason «until» order hcond => ?_⟩
    · rw [htimers _ rfl]
      refine h.deadline d ?_
      rw [SlotRecord.applyWithdrawn_state] at hs
      cases hr : r.state <;> rw [hr] at hs <;> first | exact hs | cases hs
    · rw [htimers _ rfl]
      refine h.retry (hlast hnot) reason _ order ?_
      unfold SlotRecord.applyWithdrawn at hcond
      simp only at hcond
      split at hcond
      · cases hcond
      · exact hcond
  | @moves x g hmove hg hends =>
    have hstep : st' = (emitted st input).state := heq.trans (step_eq_state hacc)
    have hends' := hends.state
    refine ⟨fun d hs => ?_, fun hnot reason «until» order hcond => ?_⟩
    · rw [hends'] at hs
      rcases hmove.starting hc hacc hs with ⟨fireAt, hb⟩ | ⟨hs', f, hsign, hb⟩
      · rw [← hslot, hstep]
        exact deferredStart_timer hinv.coh hacc hr hb (hstep ▸ hr') hslot.symm (hends' ▸ hs)
      · rw [← hslot, hstep, sign_timers hinv.coh hacc hr hb hsign (Or.inl ⟨d, hs'⟩)]
        exact h.deadline d hs'
    · cases hends with
      | here heq' =>
        subst heq'
        rcases hmove.held hinv.coh hc hacc (hlast hnot) hcond with
          ⟨fireAt, hb⟩ | ⟨hcond', hended, f, hsign, hb⟩
        · exact absurd (hslot ▸ ht.retry_later hinv.coh hb) hnot
        · rw [← hslot, hstep, sign_timers hinv.coh hacc hr hb hsign (Or.inr hended)]
          exact h.retry (hlast hnot) _ _ _ hcond'
      | parked _ _ heq' => subst heq'; cases hcond
      | held _ heq' hretry =>
        subst heq'
        cases hcond
        exact hretry
      | isOver _ heq' => subst heq'; cases hcond

end

/-! ## In every run -/

/-- **In every state of a run** the instants of deadlines and retries are the slots' own. -/
theorem Reaches.timed {run : RunId} {flow : FlowDef} {log : List Entry} {st : RunState}
    (hwf : flow.WF) (h : Reaches run flow log st) : ∀ r ∈ st.slots, Timed st r := by
  refine Reaches.induct hwf (P := fun _ st => ∀ r ∈ st.slots, Timed st r) ?_ ?_ ?_ ?_ h
  · exact fun r hr => absurd hr List.not_mem_nil
  · exact fun _ _ _ _ _ hP _ => hP
  · intro _ st now _ _ hP r hr
    exact ⟨(hP r hr).deadline, (hP r hr).retry⟩
  · intro _ st input st' _ hinv hinv' hP hacc heq ht r' hr'
    rcases ht.changes hinv hinv'.coh hacc r' hr' with
      ⟨-, n, hnew, hslot, -, hstate⟩ | ⟨r, hr, hslot, hchange⟩
    · refine ⟨fun d hs => ?_, fun _ reason «until» order hcond => ?_⟩
      · rcases hstate with rfl | ⟨d', rfl, harmed⟩
        · rw [hnew.1] at hs
          cases hs
        · cases hs
          exact harmed
      · rcases hstate with rfl | ⟨d', rfl, -⟩ <;>
        · rw [show _ = none from hnew.2] at hcond
          cases hcond
    · exact hchange.timed hslot (hP r hr) hr hr' hinv hinv' hacc heq ht

/-- Every `stop_signalled` that was accepted answered a signal that was owed. -/
def SignalsOwed (log : List Entry) : Prop :=
  Always (fun _ e => ∀ input, e.Accepts input → OwedSignal e.before input) log

theorem Reaches.rungs {run : RunId} {flow : FlowDef} {log : List Entry} {st : RunState}
    (hwf : flow.WF) (h : Reaches run flow log st) (howed : SignalsOwed log) :
    ∀ r ∈ st.slots, Rung (st.graceArmed r.slot) r := by
  revert howed
  refine Reaches.induct hwf (P := fun log st => SignalsOwed log →
    ∀ r ∈ st.slots, Rung (st.graceArmed r.slot) r) ?_ ?_ ?_ ?_ h
  · exact fun _ r hr => absurd hr List.not_mem_nil
  · exact fun _ _ _ _ _ hP _ howed => hP (always_snoc.mp howed).1
  · intro _ st now _ _ hP howed r hr
    exact hP (always_snoc.mp howed).1 r hr
  · intro _ st input st' _ hinv hinv' hP hacc heq ht howed r' hr'
    obtain ⟨hlog, hlast⟩ := always_snoc.mp howed
    rcases ht.changes hinv hinv'.coh hacc r' hr' with
      ⟨-, n, hnew, hslot, -, hstate⟩ | ⟨r, hr, hslot, hchange⟩
    · have hcond : n.condition.any SlotCondition.isWouldNotStop = false := by rw [hnew.2]; rfl
      rcases hstate with rfl | ⟨d, rfl, -⟩
      · exact .of_none (by rw [hnew.1]; rfl) hcond
      · exact .of_none rfl hcond
    · refine hchange.rung hslot (hinv.coh.slots r hr) (hP hlog r hr) fun nth signal l hb hl => ?_
      exact (hlast input ⟨rfl, hacc⟩).owed hinv.coh.ordered hr hb hl

/-- The timer of this id is armed. -/
def RunState.armed (st : RunState) (timer : Text) : Prop := (st.timers.get timer).isSome = true

/-- **Timers and slot states agree.** -/
structure TimersAgree (st : RunState) : Prop where
  known : ∀ timer, st.armed timer → timer = rootDeadlineTimer ∨ timer = treeWindowTimer ∨
    ∃ r ∈ st.slots, (∃ p, timer = slotTimer p r.slot) ∨ ∃ n, timer = graceTimer n r.slot
  startDeadline : ∀ r ∈ st.slots, ∀ fireAt,
    (st.timers.get (slotTimer .startDeadline r.slot)).map ArmedTimer.fireAt = some fireAt ↔
      r.state = .starting fireAt
  quiet : ∀ r ∈ st.slots, st.armed (slotTimer .quiet r.slot) ↔
    ∃ session, r.state = .running session none
  subprocessIdle : ∀ r ∈ st.slots, st.armed (slotTimer .subprocessIdle r.slot) →
    ∃ session call, r.state = .running session (some call)
  callBound : ∀ r ∈ st.slots, st.armed (slotTimer .callBound r.slot) →
    ∃ session call, r.state = .running session (some call)
  confirm : ∀ r ∈ st.slots, st.armed (slotTimer .confirm r.slot) ↔ Emit.wasQuiet r.state = true
  windDown : ∀ r ∈ st.slots, st.armed (slotTimer .windDown r.slot) ↔
    ∃ m escalate needsRework overdue, r.state = .replied m escalate needsRework .live overdue none
  stopGrace : ∀ r ∈ st.slots, ∀ n, st.armed (graceTimer n r.slot) →
    ∃ l, r.state.ladder = some l ∧ n ≤ l.signalsSent
  holdRetry : ∀ r ∈ st.slots, ∀ fireAt,
    (st.timers.get (slotTimer .holdRetry r.slot)).map ArmedTimer.fireAt = some fireAt ↔
      st.isSuperseded r = false ∧ ∃ reason order, r.condition = some (.held reason fireAt order)
  treeWindow : st.armed treeWindowTimer → st.phase = .running .unprepared ∧
    ∀ c, st.condition = some c → c.reason = .poisonInput
  finishing : st.isFinishing = true → ∀ timer a, st.timers.get timer = some a →
    a.purpose = .stopGrace ∨ a.purpose = .windDown

section

variable {st : RunState} {r : SlotRecord}

theorem Coh.known_timer (h : Coh st) {timer : Text} (ha : st.armed timer) :
    timer = rootDeadlineTimer ∨ timer = treeWindowTimer ∨
      ∃ r ∈ st.slots, (∃ p, timer = slotTimer p r.slot) ∨ ∃ n, timer = graceTimer n r.slot := by
  obtain ⟨a, ha⟩ := Option.isSome_iff_exists.mp ha
  obtain ⟨t, rfl, -, hmem⟩ := h.known _ _ ha
  cases t with
  | rootDeadline => exact Or.inl rfl
  | treeWindow => exact Or.inr (Or.inl rfl)
  | slot p s =>
    obtain ⟨r, hr, rfl⟩ := RunState.mem_ids.mp (hmem s rfl)
    exact Or.inr (Or.inr ⟨r, hr, Or.inl ⟨p, rfl⟩⟩)
  | grace n s =>
    obtain ⟨r, hr, rfl⟩ := RunState.mem_ids.mp (hmem s rfl)
    exact Or.inr (Or.inr ⟨r, hr, Or.inr ⟨n, rfl⟩⟩)

/-- A start deadline is armed for the deadline of a slot that is starting. -/
theorem Timed.startDeadline_iff (h : Timed st r) (hc : Coherent st r) (fireAt : Timestamp) :
    (st.timers.get (slotTimer .startDeadline r.slot)).map ArmedTimer.fireAt = some fireAt ↔
      r.state = .starting fireAt := by
  constructor
  · intro hmap
    obtain ⟨a, ha, hat⟩ := Option.map_eq_some_iff.mp hmap
    have harmed : (st.timer (.slot .startDeadline r.slot)).isSome = true :=
      Option.isSome_iff_exists.mpr ⟨a, ha⟩
    have hstate := SlotRecord.mayArm_state (hc.may _ harmed)
    simp only [true_and, reduceCtorEq, false_and, or_false] at hstate
    obtain ⟨d, hs⟩ := hstate
    have heq : some a = some ⟨d, .startDeadline⟩ := ha.symm.trans (h.deadline d hs)
    cases heq
    exact hat ▸ hs
  · intro hs
    have : st.timers.get (slotTimer .startDeadline r.slot) = _ := h.deadline _ hs
    rw [this]
    rfl

/-- A retry is armed for the instant of the hold of a seat's latest attempt. -/
theorem Timed.holdRetry_iff (h : Timed st r) (hcoh : Coh st) (hr : r ∈ st.slots)
    (fireAt : Timestamp) :
    (st.timers.get (slotTimer .holdRetry r.slot)).map ArmedTimer.fireAt = some fireAt ↔
      st.isSuperseded r = false ∧
        ∃ reason order, r.condition = some (.held reason fireAt order) := by
  have hsup := RunState.isSuperseded_eq hcoh.ordered hr
  constructor
  · intro hmap
    obtain ⟨a, ha, hat⟩ := Option.map_eq_some_iff.mp hmap
    have harmed : (st.timer (.slot .holdRetry r.slot)).isSome = true :=
      Option.isSome_iff_exists.mpr ⟨a, ha⟩
    have hlast := (hcoh.slots r hr).retry harmed
    have hstate := SlotRecord.mayArm_state ((hcoh.slots r hr).may _ harmed)
    simp only [true_and, reduceCtorEq, false_and, false_or] at hstate
    obtain ⟨hheld, -⟩ := hstate
    refine ⟨?_, ?_⟩
    · rw [Bool.eq_false_iff]
      exact fun hs => hlast (hsup.mp hs)
    · cases hcond : r.condition with
      | none => rw [hcond] at hheld; cases hheld
      | some c =>
        cases c with
        | parked reason order since => rw [hcond] at hheld; cases hheld
        | held reason «until» order =>
          have heq : some a = some ⟨«until», .holdRetry⟩ :=
            ha.symm.trans (h.retry hlast _ _ _ hcond)
          cases heq
          exact ⟨reason, order, by rw [← hat]⟩
  · rintro ⟨hnot, reason, order, hcond⟩
    have hlast : ¬ Later st.ids r.slot := by
      intro hlater
      rw [hsup.mpr hlater] at hnot
      cases hnot
    have : st.timers.get (slotTimer .holdRetry r.slot) = _ := h.retry hlast _ _ _ hcond
    rw [this]
    rfl

/-- A finishing run waits for stops and for sessions that wind down, and for nothing else. -/
theorem Coh.finishing_timers (hcoh : Coh st) (hfront : Front st) (hearly : Early st)
    (hfin : st.isFinishing = true) {timer : Text} {a : ArmedTimer}
    (ha : st.timers.get timer = some a) : a.purpose = .stopGrace ∨ a.purpose = .windDown := by
  have hover : st.isOver = true := by
    unfold RunState.isOver
    rw [hfin]
    rfl
  obtain ⟨t, rfl, hfits, hmem⟩ := hcoh.known _ _ ha
  have harmed : (st.timer t).isSome = true := Option.isSome_iff_exists.mpr ⟨a, ha⟩
  unfold RunState.isFinishing at hfin
  cases t with
  | rootDeadline =>
    rw [hearly.root harmed] at hfin
    cases hfin
  | treeWindow =>
    rw [hfront.window harmed] at hfin
    cases hfin
  | grace n s => exact Or.inl hfits.1
  | slot p s =>
    right
    obtain ⟨r, hr, rfl⟩ := RunState.mem_ids.mp (hmem s rfl)
    obtain ⟨hret, hheld⟩ := (hcoh.slots r hr).isOver hover
    rw [hfits.1]
    obtain ⟨-, d, hs⟩ | ⟨-, d, hs⟩ | ⟨-, -, d, c, hs⟩ | ⟨-, -, d, c, hs⟩ | ⟨-, hq⟩ | ⟨hp, -⟩ |
      ⟨-, hheld', -⟩ := SlotRecord.mayArm_state ((hcoh.slots r hr).may p harmed)
    · rw [hs] at hret; cases hret
    · rw [hs] at hret; cases hret
    · rw [hs] at hret; cases hret
    · rw [hs] at hret; cases hret
    · cases hs : r.state with
      | quiet since openCall => rw [hs] at hret; cases hret
      | nudged now openCall => rw [hs] at hret; cases hret
      | _ => rw [hs] at hq; cases hq
    · exact hp
    · rw [hheld] at hheld'; cases hheld'

end

/-- **In every run that is commissioned first and in which `stop_signalled` answers owed signals
only, timers and slot states agree in every state.** -/
theorem timers_and_slots_agree {decl review : ChannelDecl} {flow : FlowDef}
    (hc : compile decl review = .ok flow) {run : RunId} {log : List Entry} {st : RunState}
    (h : Reaches run flow log st) (hfirst : CommissionedFirst log) (howed : SignalsOwed log) :
    TimersAgree st := by
  have hwf := compile_wf hc
  have hcoh := (h.inv hwf).coh
  have htimed := h.timed hwf
  have hfront := h.front hwf
  have hearly := h.early hwf hfirst
  -- A timer of a purpose is armed only where `mayArm` has it, and `mayArm_state` says where.
  have hmay : ∀ r ∈ st.slots, ∀ p, st.armed (slotTimer p r.slot) → p ∈ r.mayArm :=
    fun r hr p ha => (hcoh.slots r hr).may p ha
  have hmust : ∀ r ∈ st.slots, ∀ p ∈ r.mustArm, st.armed (slotTimer p r.slot) :=
    fun r hr p hp => (hcoh.slots r hr).must p hp
  refine ⟨fun _ => hcoh.known_timer, fun r hr => (htimed r hr).startDeadline_iff (hcoh.slots r hr),
    ?_, ?_, ?_, ?_, ?_, ?_, fun r hr => (htimed r hr).holdRetry_iff hcoh hr, ?_,
    fun hfin _ _ => hcoh.finishing_timers hfront hearly hfin⟩
  · intro r hr
    constructor
    · intro ha
      simpa using SlotRecord.mayArm_state (hmay r hr _ ha)
    · rintro ⟨session, hs⟩
      exact hmust r hr _ (by simp [SlotRecord.mustArm, hs])
  · intro r hr ha
    have := SlotRecord.mayArm_state (hmay r hr _ ha)
    simp only [true_and, reduceCtorEq, false_and, or_false, false_or] at this
    exact this.2
  · intro r hr ha
    have := SlotRecord.mayArm_state (hmay r hr _ ha)
    simp only [true_and, reduceCtorEq, false_and, or_false, false_or] at this
    exact this.2
  · intro r hr
    constructor
    · intro ha
      simpa using SlotRecord.mayArm_state (hmay r hr _ ha)
    · intro hq
      refine hmust r hr _ ?_
      unfold SlotRecord.mustArm
      cases hs : r.state <;> first | exact List.mem_singleton.mpr rfl | (rw [hs] at hq; cases hq)
  · intro r hr
    constructor
    · intro ha
      simpa using SlotRecord.mayArm_state (hmay r hr _ ha)
    · rintro ⟨m, esc, rew, overdue, hs⟩
      exact hmust r hr _ (by simp [SlotRecord.mustArm, hs])
  · intro r hr n ha
    obtain ⟨l, hl⟩ := Option.isSome_iff_exists.mp ((hcoh.slots r hr).grace n ha)
    refine ⟨l, hl, ?_⟩
    obtain ⟨a, ha'⟩ := Option.isSome_iff_exists.mp ha
    obtain ⟨t, htext, hfits, -⟩ := hcoh.known _ _ ha'
    cases TimerId.text_injective (t := .grace n r.slot) htext
    have hrung := h.rungs hwf howed r hr
    rcases hfits.2 with rfl | rfl
    · exact (hrung.first l hl ha).1.ge
    · exact hrung.second l hl ha
  · intro ha
    refine ⟨hfront.window ha, fun c hcond => hearly.clear ha _ ?_⟩
    unfold RunState.parkReason
    rw [hcond]
    rfl

/-- The solo run commissioned after it was withdrawn: it finishes with its root's deadline armed. -/
def lateCommission : List Item := [
  inputAt 0 (.withdrawn none .requester),
  inputAt 0 (.commissioned "" "" .default "" "")]

/-- The solo run parked by the host while its tree is prepared: the window stays open. -/
def poisonedWindow : List Item := soloStart.take 3 ++ [.poison 0]

/-- **Neither is excluded by the engine itself.** -/
theorem timers_disagree :
    compile soloDecl soloReview = .ok soloFlow ∧
    (∃ log, Reaches ['r'] soloFlow log (soloState lateCommission)) ∧
    (soloState lateCommission).isFinishing = true ∧
    ((soloState lateCommission).timers.get rootDeadlineTimer).map ArmedTimer.purpose
      = some .rootDeadline ∧
    (∃ log, Reaches ['r'] soloFlow log (soloState poisonedWindow)) ∧
    ((soloState poisonedWindow).timers.get treeWindowTimer).isSome = true ∧
    (soloState poisonedWindow).condition.isSome = true :=
  ⟨compile_solo, ⟨_, reaches_solo _⟩, by decide, by decide, ⟨_, reaches_solo _⟩,
    by decide, by decide⟩

/-- A commission comes to a new run. -/
def Entry.commissionsNew (e : Entry) : Bool :=
  match e.item with
  | .input ⟨_, _, _, .commissioned ..⟩ => e.before.phase = .created
  | _ => true

/-- The signal of a stop was owed. -/
def Entry.signalsOwed (e : Entry) : Bool :=
  match e.item with
  | .input ⟨_, _, _, .stopSignalled key nth _⟩ => .stopSession key .term nth ∈ pendingEffects e.before
  | _ => true

/-- In the run of one stop the agreement holds: the signal was owed, and its grace is armed. -/
theorem timers_agree_solo : (soloState signalledItems).armed (graceTimer 1 (soloSlot 1)) ∧
    TimersAgree (soloState signalledItems) := by
  have hfirst : (soloLog signalledItems).all Entry.commissionsNew = true := by decide
  have howed : (soloLog signalledItems).all Entry.signalsOwed = true := by decide
  rw [List.all_eq_true] at hfirst howed
  refine ⟨by unfold RunState.armed; decide,
    timers_and_slots_agree compile_solo (reaches_solo _) ?_ ?_⟩
  · rintro before e after heq ⟨seq, now, key, body⟩ w f p t q ⟨hitem, -⟩ rfl
    have := hfirst e (by rw [heq]; exact List.mem_append_right _ List.mem_cons_self)
    simpa [Entry.commissionsNew, hitem] using this
  · rintro before e after heq ⟨seq, now, key', body⟩ ⟨hitem, -⟩ key nth signal rfl
    have := howed e (by rw [heq]; exact List.mem_append_right _ List.mem_cons_self)
    exact ⟨.term, by simpa [Entry.signalsOwed, hitem] using this⟩

end NexusFlow.Run
