import NexusFlow.Run.Finish
import NexusFlow.Host.Calls

/-!
# The timer index and the log

`crates/run-store-sqlite/src/timers.rs` keeps a row for each timer id, armed, cleared or fired, from
the events of each `append`; the engine keeps `state.timers`, a map, from the same events. `Agrees`
says that the armed rows are the entries of the map.

Decisions keep `Agrees` whatever the state (`Agrees.decision`). A firing does where the guard lets it
through exactly when the row is armed for its instant (`Agrees.input`); the one other reason to
ignore it is a run that is over, which has no timer left.

Headline result: `timer_index_agrees`, for every store, whoever called it, whose log of the run is the
beginning of an engine's log.
-/

namespace NexusFlow.Host

open NexusFlow.Run
open NexusFlow.Lib

/-! ## The armed rows -/

namespace Timers

/-- What is armed for a timer: the instant and the purpose of its row. -/
def armed (rows : KeyMap Text TimerRow) (timer : Text) : Option (Timestamp × Text) :=
  (rows.get timer).bind fun row => if row.state = .armed then some (row.fireAt, row.purpose) else none

theorem armed_insert (rows : KeyMap Text TimerRow) (timer id : Text) (row : TimerRow) :
    armed (rows.insert timer row) id
      = if id = timer then (if row.state = .armed then some (row.fireAt, row.purpose) else none)
        else armed rows id := by
  unfold armed
  rw [KeyMap.get_insert]
  split_ifs <;> simp_all

theorem armed_arm (rows : KeyMap Text TimerRow) (timer id : Text) (fireAt : Timestamp)
    (purpose : TimerPurpose) :
    armed (arm rows timer fireAt purpose) id
      = if id = timer then some (fireAt, purpose.asStr) else armed rows id := by
  unfold arm
  rw [armed_insert]
  rfl

theorem armed_clear (rows : KeyMap Text TimerRow) (timer id : Text) :
    armed (clear rows timer) id = if id = timer then none else armed rows id := by
  unfold clear
  cases hrow : rows.get timer with
  | none =>
    by_cases hid : id = timer
    · rw [if_pos hid, hid]
      simp only [armed, hrow, Option.bind_none]
    · rw [if_neg hid]
  | some row =>
    by_cases harmed : row.state = .armed
    · simp only [harmed, if_true]
      rw [armed_insert]
      rfl
    · simp only [harmed, if_false]
      by_cases hid : id = timer
      · rw [if_pos hid, hid]
        simp only [armed, hrow, Option.bind_some, harmed, if_false]
      · rw [if_neg hid]

theorem armed_fire (rows : KeyMap Text TimerRow) (timer id : Text) (fireAt : Timestamp) :
    armed (fire rows timer fireAt) id
      = if id = timer ∧ (armed rows timer).map Prod.fst = some fireAt then none
        else armed rows id := by
  unfold fire
  cases hrow : rows.get timer with
  | none =>
    have hnone : armed rows timer = none := by simp only [armed, hrow, Option.bind_none]
    rw [if_neg]
    rw [hnone]
    rintro ⟨-, h⟩
    cases h
  | some row =>
    by_cases hfires : row.state = .armed ∧ row.fireAt = fireAt
    · have hsome : (armed rows timer).map Prod.fst = some fireAt := by
        simp only [armed, hrow, Option.bind_some, hfires.1, if_true, Option.map_some, hfires.2]
      simp only [hfires, and_self, if_true]
      rw [armed_insert]
      simp only [hsome, and_true]
      rfl
    · have hnot : (armed rows timer).map Prod.fst ≠ some fireAt := by
        intro h
        simp only [armed, hrow, Option.bind_some] at h
        split_ifs at h with harmed
        · exact hfires ⟨harmed, Option.some.inj h⟩
        · cases h
      simp only [hfires, hnot, if_false, and_false]

theorem armed_foldl_clear (timers : List Text) : ∀ (rows : KeyMap Text TimerRow) (id : Text),
    armed (timers.foldl clear rows) id = if id ∈ timers then none else armed rows id := by
  induction timers with
  | nil => intro rows id; simp
  | cons timer timers ih =>
    intro rows id
    rw [List.foldl_cons, ih, armed_clear]
    by_cases hmem : id ∈ timers
    · simp [hmem]
    · by_cases hid : id = timer <;> simp [hmem, hid]

/-- After `finished` nothing is armed. -/
theorem armed_clearAll (rows : KeyMap Text TimerRow) (id : Text) : armed (clearAll rows) id = none := by
  unfold clearAll
  rw [armed_foldl_clear]
  split_ifs with hmem
  · rfl
  · unfold armed
    cases hrow : rows.get id with
    | none => rfl
    | some row =>
      have hnot : row.state ≠ .armed := by
        intro harmed
        refine hmem (List.mem_map.mpr ⟨(id, row), List.mem_filter.mpr ⟨?_, ?_⟩, rfl⟩)
        · exact (rows.mem_entries_iff id row).mpr hrow
        · exact decide_eq_true harmed
      simp only [Option.bind_some, hnot, if_false]

end Timers

/-! ## Agreement -/

/-- The timers a state has armed, in the words of the index. -/
def foldedTimer (st : RunState) (timer : Text) : Option (Timestamp × Text) :=
  (st.timers.get timer).map fun a => (a.fireAt, a.purpose.asStr)

/-- **The armed rows are the folded timers.** -/
def Agrees (rows : KeyMap Text TimerRow) (st : RunState) : Prop :=
  ∀ timer, Timers.armed rows timer = foldedTimer st timer

theorem modifyRecord_timers (st : RunState) (s : Slot) (f : SlotRecord → SlotRecord) :
    (st.modifyRecord s f).timers = st.timers := by
  unfold RunState.modifyRecord
  split <;> rfl

/-- The decisions that change what is armed are the three the index reads. -/
theorem applyDecision_timers (st : RunState) (d : Decision) (now : Timestamp) :
    (applyDecision st d now).timers = match d with
      | .timerSet timer fireAt purpose => st.timers.insert timer ⟨fireAt, purpose⟩
      | .timerCleared timer => st.timers.erase timer
      | .finished _ _ => .empty
      | _ => st.timers := by
  cases d with
  | stepStarted step visit attempt members =>
    obtain ⟨new, heq, -, -⟩ := applyStepStarted_eq st step visit attempt members now
    rw [applyDecision, heq]
  | timerSet timer fireAt purpose =>
    simp only [applyDecision]
    split
    · unfold armStart
      split
      · rfl
      · exact modifyRecord_timers _ _ _
    · rfl
  | liveness slot reason since => exact modifyRecord_timers _ _ _
  | held slot reason «until» resetsAt => exact modifyRecord_timers (takeOrder st) _ _
  | parked slot reason =>
    cases slot with
    | some slot => exact modifyRecord_timers (takeOrder st) _ _
    | none => rfl
  | _ => rfl

theorem applyFiring_timers (st : RunState) (timer : Text) (purpose : TimerPurpose)
    (now : Timestamp) : (applyFiring st timer purpose now).timers = st.timers := by
  cases purpose with
  | stopGrace =>
    simp only [applyFiring]
    split
    · rfl
    · exact modifyRecord_timers _ _ _
  | windDown =>
    simp only [applyFiring]
    split
    · rfl
    · exact modifyRecord_timers _ _ _
  | _ => rfl

/-- A firing alone, of the inputs, changes what is armed. -/
theorem applyBody_timers (st : RunState) (input : Event) :
    (applyBody st input).timers = match input.body with
      | .timerFired timer _ => st.timers.erase timer
      | _ => st.timers := by
  cases hb : input.body with
  | delivered message => simp only [applyBody, hb]; split <;> rfl
  | nudged key => simp only [applyBody, hb]; split <;> rfl
  | stopSignalled key nth signal => simp only [applyBody, hb]; split <;> rfl
  | sessionFact key f => simp only [applyBody, hb]; split <;> rfl
  | reply key m esc rew => simp only [applyBody, hb]; split <;> rfl
  | answer question disposition m =>
    simp only [applyBody, hb, applyAnswer]
    split <;> rfl
  | resume slot => simp only [applyBody, hb]; split <;> rfl
  | timerFired timer fireAt =>
    simp only [applyBody, hb]
    split
    · rfl
    · split
      · rfl
      · exact applyFiring_timers _ _ _ _
  | _ => simp only [applyBody, hb]

theorem foldedTimer_insert {st : RunState} {timers : KeyMap Text ArmedTimer} {timer : Text}
    {fireAt : Timestamp} {purpose : TimerPurpose} (h : st.timers = timers.insert timer ⟨fireAt, purpose⟩)
    (id : Text) : foldedTimer st id = if id = timer then some (fireAt, purpose.asStr)
      else (timers.get id).map fun a => (a.fireAt, a.purpose.asStr) := by
  unfold foldedTimer
  rw [h, KeyMap.get_insert]
  split_ifs <;> rfl

theorem foldedTimer_erase {st : RunState} {timers : KeyMap Text ArmedTimer} {timer : Text}
    (h : st.timers = timers.erase timer) (id : Text) : foldedTimer st id = if id = timer then none
      else (timers.get id).map fun a => (a.fireAt, a.purpose.asStr) := by
  unfold foldedTimer
  rw [h, KeyMap.get_erase]
  split_ifs <;> rfl

theorem Agrees.of_eq {rows : KeyMap Text TimerRow} {st st' : RunState} (h : Agrees rows st)
    (heq : st'.timers = st.timers) : Agrees rows st' := by
  intro timer
  rw [h timer]
  unfold foldedTimer
  rw [heq]

/-- **A decision keeps the agreement.** -/
theorem Agrees.decision {rows : KeyMap Text TimerRow} {st : RunState} (h : Agrees rows st)
    {event : Event} {d : Decision} (hb : event.body = .decision d) :
    Agrees (Timers.applyEvent rows event) (evolve st event) := by
  have hstate : evolve st event = applyDecision st d event.now := by
    unfold evolve
    rw [hb]
  have htimers := applyDecision_timers st d event.now
  rw [hstate]
  unfold Timers.applyEvent
  rw [hb]
  cases d with
  | timerSet timer fireAt purpose =>
    intro id
    rw [foldedTimer_insert htimers, Timers.armed_arm, h id]
    rfl
  | timerCleared timer =>
    intro id
    rw [foldedTimer_erase htimers, Timers.armed_clear, h id]
    rfl
  | finished outcome reason =>
    intro id
    rw [Timers.armed_clearAll]
    unfold foldedTimer
    rw [htimers]
    rfl
  | _ => exact h.of_eq htimers

/-- The firing of an instant that no timer is armed for is ignored. -/
theorem ignored_of_stale {st : RunState} {event : Event} {timer : Text} {fireAt : Timestamp}
    (hb : event.body = .timerFired timer fireAt)
    (hstale : (st.timers.get timer).map ArmedTimer.fireAt ≠ some fireAt) :
    (ignoredReason st event).isSome = true := by
  cases hfin : st.isFinished with
  | true => simp [ignoredReason, hfin]
  | false => simp [ignoredReason, hfin, hb, hstale]

/-- **An input keeps the agreement**, the run's timers being gone once it is over. -/
theorem Agrees.input {rows : KeyMap Text TimerRow} {st : RunState} (h : Agrees rows st)
    (hover : st.isFinished = true → ∀ timer, st.timers.get timer = none) {event : Event}
    (hin : isDecision event.body = false) :
    Agrees (Timers.applyEvent rows event) (evolve st event) := by
  rw [evolve_input hin]
  unfold applyInput
  cases hb : event.body with
  | decision d => rw [hb] at hin; cases hin
  | timerFired timer fireAt =>
    have hrows : Timers.applyEvent rows event = Timers.fire rows timer fireAt := by
      unfold Timers.applyEvent
      rw [hb]
    have harmed : (Timers.armed rows timer).map Prod.fst
        = (st.timers.get timer).map ArmedTimer.fireAt := by
      rw [h timer, foldedTimer, Option.map_map]
      rfl
    have hbody := applyBody_timers st event
    rw [hb] at hbody
    rw [hrows]
    intro id
    rw [Timers.armed_fire, harmed, h id]
    split_ifs with hfires hign hign
    · -- Armed for this instant and ignored: the run is over, and has no timer.
      obtain ⟨rfl, hfires⟩ := hfires
      cases hfin : st.isFinished with
      | true =>
        rw [hover hfin] at hfires
        cases hfires
      | false =>
        simp [ignoredReason, hfin, hb, hfires] at hign
    · rw [foldedTimer_erase hbody, if_pos hfires.1]
    · rfl
    · have hstale : (st.timers.get timer).map ArmedTimer.fireAt = some fireAt := by
        by_contra hne
        exact hign (ignored_of_stale hb hne)
      have hid : id ≠ timer := fun hid => hfires ⟨hid, hstale⟩
      rw [foldedTimer_erase hbody, if_neg hid]
      rfl
  | _ =>
    have hbody := applyBody_timers st event
    rw [hb] at hbody
    have hrows : Timers.applyEvent rows event = rows := by
      unfold Timers.applyEvent
      rw [hb]
    rw [hrows]
    split_ifs
    · exact h
    · exact h.of_eq hbody

/-! ## Whole logs -/

/-- The rows the events of a log leave. -/
def Timers.index (log : List Event) : KeyMap Text TimerRow := log.foldl Timers.applyEvent .empty

theorem Agrees.decisions (events : List Event) : ∀ {rows : KeyMap Text TimerRow} {st : RunState},
    Agrees rows st → (∀ e ∈ events, isDecision e.body = true) →
      Agrees (events.foldl Timers.applyEvent rows) (events.foldl evolve st) := by
  induction events with
  | nil => exact fun h _ => h
  | cons event events ih =>
    intro rows st h hall
    have hevent := hall event List.mem_cons_self
    have hnext : Agrees (Timers.applyEvent rows event) (evolve st event) := by
      cases hb : event.body with
      | decision d => exact h.decision hb
      | _ => rw [hb] at hevent; cases hevent
    exact ih hnext fun e he => hall e (List.mem_cons_of_mem _ he)

theorem decisionEvents_decision (input : Event) (ds : List Decision) (index : Nat) :
    ∀ e ∈ decisionEvents input index ds, isDecision e.body = true := by
  intro e he
  obtain ⟨_, d, _, hb, _⟩ := mem_decisionEvents he
  rw [hb]
  rfl

/-- The beginnings of a longer log are those of the shorter one, and the whole of it with a beginning
of what follows. -/
theorem prefix_append_cases {α : Type} {p log block : List α} (h : p <+: log ++ block) :
    p <+: log ∨ ∃ q, q <+: block ∧ p = log ++ q := by
  rcases List.prefix_or_prefix_of_prefix h (List.prefix_append log block) with hp | ⟨q, rfl⟩
  · exact Or.inl hp
  · exact Or.inr ⟨q, (List.prefix_append_right_inj log).mp h, rfl⟩

/-- **The index agrees with the log at each of its events.** -/
theorem Trace.agrees {run : RunId} {flow : FlowDef} (hwf : flow.WF) {log : List Event}
    (h : Trace run flow log) : ∀ p, p <+: log → Agrees (Timers.index p) (foldLog run flow p) := by
  have hsplit : ∀ (log q : List Event), Timers.index (log ++ q)
      = q.foldl Timers.applyEvent (Timers.index log) := fun _ _ => List.foldl_append
  induction h with
  | nil =>
    intro p hp
    rw [List.prefix_nil.mp hp]
    exact fun _ => rfl
  | @input log h input hin ih =>
    intro p hp
    rcases prefix_append_cases hp with hp | ⟨q, hq, rfl⟩
    · exact ih p hp
    · have hlog := ih log List.prefix_rfl
      rw [hsplit, foldLog_append]
      cases q with
      | nil => exact hlog
      | cons event q =>
        obtain ⟨hevent, hq⟩ := List.cons_prefix_cons.mp hq
        have hover : (foldLog run flow log).isFinished = true →
            ∀ timer, (foldLog run flow log).timers.get timer = none := by
          obtain ⟨entries, hr⟩ := h.reaches
          intro hfin timer
          cases hphase : (foldLog run flow log).phase with
          | finished o reason =>
            rw [((hr.settled hwf).2 o reason hphase).noTimer]
            rfl
          | _ =>
            unfold RunState.isFinished at hfin
            rw [hphase] at hfin
            cases hfin
        have hnext : Agrees (Timers.applyEvent (Timers.index log) event)
            (evolve (foldLog run flow log) event) := by
          rw [hevent]
          exact hlog.input hover hin
        refine hnext.decisions q fun e he => ?_
        exact decisionEvents_decision _ _ _ e (hq.subset he)
  | @poison log h now key ih =>
    intro p hp
    rcases prefix_append_cases hp with hp | ⟨q, hq, rfl⟩
    · exact ih p hp
    · rw [hsplit, foldLog_append]
      refine (ih log List.prefix_rfl).decisions q fun e he => ?_
      rw [List.mem_singleton.mp (hq.subset he)]
      rfl

/-! ## The store -/

theorem Timers.apply_eq (rows : KeyMap Text TimerRow) (events : List Envelope) :
    Timers.apply rows events = (events.map Envelope.toEvent).foldl Timers.applyEvent rows := by
  unfold Timers.apply
  rw [List.foldl_map]

/-- The index reads no position. -/
theorem Timers.apply_positioned (lastSeq : Nat) (events : List Envelope)
    (rows : KeyMap Text TimerRow) : Timers.apply rows (positioned lastSeq events)
      = Timers.apply rows events := by
  unfold Timers.apply positioned
  rw [List.foldl_map]
  have hgen : ∀ (events : List Envelope) (n : Nat) (rows : KeyMap Text TimerRow),
      (events.zipIdx n).foldl (fun rows e =>
        Timers.applyEvent rows ({ e.1 with seq := lastSeq + 1 + e.2 } : Envelope).toEvent) rows
        = events.foldl (fun rows event => Timers.applyEvent rows event.toEvent) rows := by
    intro events
    induction events with
    | nil => exact fun _ _ => rfl
    | cons event events ih => exact fun n rows => ih (n + 1) _
  exact hgen events 0 rows

/-- **Whoever calls a store, its index is that of its log.** -/
theorem Store.Reached.index {s : Store} (h : s.Reached) (run : RunId) :
    s.timers run = Timers.index (s.load run) := by
  induction h with
  | empty => rfl
  | @call s h c ih =>
    have hmove := c.move s
    generalize c.apply s = s' at hmove ⊢
    generalize c.commits s = done at hmove
    cases hmove with
    | nothing => exact ih
    | consumed _ _ => exact ih
    | @written at_ _ _ events _ _ _ _ _ hw =>
      obtain ⟨row, -, -, -, hevents⟩ := hw.row
      unfold Store.load
      rw [hw.timers, hevents]
      by_cases hrun : run = at_
      · subst hrun
        rw [setRun_self, setRun_self, List.map_append, ih, Timers.index, Timers.index,
          List.foldl_append, ← Timers.apply_eq, Timers.apply_positioned]
        rfl
      · rw [setRun_other _ _ hrun, setRun_other _ _ hrun]
        exact ih
    | enqueued he =>
      unfold Store.load
      rw [he.timers, he.events]
      exact ih
    | set _ => exact ih

/-! ## What is due -/

theorem parsePurpose_asStr (p : TimerPurpose) : parsePurpose p.asStr = some p := by
  cases p <;> rfl

theorem parsePurpose_eq_some {text : Text} {p : TimerPurpose} :
    parsePurpose text = some p ↔ text = p.asStr := by
  constructor
  · intro h
    have := List.find?_some h
    exact (beq_iff_eq.mp this).symm
  · rintro rfl
    exact parsePurpose_asStr p

theorem Timers.armed_eq_some {rows : KeyMap Text TimerRow} {timer : Text} {fireAt : Timestamp}
    {text : Text} : armed rows timer = some (fireAt, text) ↔
      rows.get timer = some ⟨fireAt, text, .armed⟩ := by
  unfold armed
  cases rows.get timer with
  | none => simp
  | some row =>
    obtain ⟨fireAt', text', state⟩ := row
    cases state <;> simp

theorem Timers.mem_due {rows : KeyMap Text TimerRow} {now : Timestamp} {timer : Text}
    {a : ArmedTimer} : (timer, a) ∈ due rows now ↔
      armed rows timer = some (a.fireAt, a.purpose.asStr) ∧ a.fireAt ≤ now := by
  unfold due
  rw [List.mem_mergeSort, List.mem_filterMap, Timers.armed_eq_some, ← KeyMap.mem_entries_iff]
  constructor
  · rintro ⟨⟨id, fireAt, text, state⟩, hmem, hrow⟩
    simp only [Option.ite_none_right_eq_some, Option.map_eq_some_iff, Prod.mk.injEq] at hrow
    obtain ⟨⟨rfl, hnow⟩, purpose, hpurpose, rfl, rfl⟩ := hrow
    rw [parsePurpose_eq_some] at hpurpose
    subst hpurpose
    exact ⟨hmem, hnow⟩
  · rintro ⟨hmem, hnow⟩
    refine ⟨_, hmem, ?_⟩
    simp only [hnow, and_self, if_true, parsePurpose_asStr, Option.map_some]

theorem Timers.nodup_due (rows : KeyMap Text TimerRow) (now : Timestamp) :
    (due rows now).Nodup := by
  refine (List.mergeSort_perm _ _).nodup_iff.mpr (List.Nodup.filterMap ?_ rows.nodup.of_map)
  rintro ⟨id, fireAt, text, state⟩ ⟨id', fireAt', text', state'⟩ ⟨timer, a⟩ h h'
  simp only [Option.mem_def, Option.ite_none_right_eq_some, Option.map_eq_some_iff,
    Prod.mk.injEq] at h h'
  obtain ⟨⟨rfl, -⟩, p, hp, rfl, rfl⟩ := h
  obtain ⟨⟨rfl, -⟩, p', hp', rfl, heq⟩ := h'
  cases heq
  rw [parsePurpose_eq_some.mp hp, parsePurpose_eq_some.mp hp']

/-- **The due rows are the folded timers whose instant has come.** -/
theorem Agrees.due {rows : KeyMap Text TimerRow} {st : RunState} (h : Agrees rows st)
    (now : Timestamp) :
    (Timers.due rows now).Perm (st.timers.entries.filter fun e => e.2.fireAt ≤ now) := by
  refine (List.perm_ext_iff_of_nodup (Timers.nodup_due rows now)
    (st.timers.nodup.of_map.filter _)).mpr ?_
  rintro ⟨timer, a⟩
  rw [Timers.mem_due, h timer, List.mem_filter, KeyMap.mem_entries_iff]
  unfold foldedTimer
  simp only [Option.map_eq_some_iff, Prod.mk.injEq, decide_eq_true_eq]
  constructor
  · rintro ⟨⟨b, hb, hfire, hpurpose⟩, hnow⟩
    have heq := parsePurpose_eq_some.mpr hpurpose
    rw [parsePurpose_asStr, Option.some.injEq] at heq
    obtain ⟨bFire, bPurpose⟩ := b
    subst heq hfire
    exact ⟨hb, hnow⟩
  · rintro ⟨hget, hnow⟩
    exact ⟨⟨a, hget, rfl, rfl⟩, hnow⟩

/-! ## Stale firings -/

/-- The block of an ignored input: the input and one decision. -/
theorem reduce_of_ignored {st : RunState} {seq : Nat} {event : Event} {reason : ReasonCode}
    (h : ignoredReason st { event with seq := seq + 1 } = some reason) :
    reduce st seq event = [{ event with seq := seq + 1 },
      ⟨seq + 2, event.now, event.key ++ "/d".toList ++ decimal 0,
        .decision (.ignored (seq + 1) reason)⟩] := by
  unfold reduce Run.decide
  simp only [h]
  rfl

theorem Agrees.stale {rows : KeyMap Text TimerRow} {st : RunState} (h : Agrees rows st)
    {event : Event} {timer : Text} {fireAt : Timestamp} (hb : event.body = .timerFired timer fireAt)
    (hstale : (st.timers.get timer).map ArmedTimer.fireAt ≠ some fireAt) (seq : Nat) :
    (reduce st seq event).foldl evolve st = st ∧
      (reduce st seq event).foldl Timers.applyEvent rows = rows := by
  have hign := @ignored_of_stale _ { event with seq := seq + 1 } _ _ hb hstale
  obtain ⟨reason, hreason⟩ := Option.isSome_iff_exists.mp hign
  constructor
  · rw [foldl_reduce st seq (by rw [hb]; rfl)]
    exact step_of_ignored hign
  · have hnot : ∀ row, rows.get timer = some row → ¬ (row.state = .armed ∧ row.fireAt = fireAt) := by
      rintro ⟨fire, text, state⟩ hrow ⟨rfl, rfl⟩
      have hagree := h timer
      rw [Timers.armed_eq_some.mpr hrow, foldedTimer, eq_comm, Option.map_eq_some_iff] at hagree
      obtain ⟨a, ha, heq⟩ := hagree
      cases heq
      exact hstale (by rw [ha]; rfl)
    have hfire : Timers.fire rows timer fireAt = rows := by
      unfold Timers.fire
      cases hrow : rows.get timer with
      | none => rfl
      | some row => exact if_neg (hnot row hrow)
    rw [reduce_of_ignored hreason]
    simp only [List.foldl_cons, List.foldl_nil, Timers.applyEvent, hb]
    exact hfire

/-! ## The claim -/

/-- **The timer index never disagrees with the log.** Of every store, whoever called it, whose log of
a run is the beginning of an engine's log, cut anywhere: the armed rows are the timers of the fold;
what is due is exactly the folded timers whose instant has come; and the firing of an instant that no
timer is armed for, folded with its decisions, changes neither. -/
theorem timer_index_agrees {decl review : ChannelDecl} {flow : FlowDef}
    (hc : compile decl review = .ok flow) {s : Store} (hs : s.Reached) {run : RunId}
    {log : List Event} (ht : Trace run flow log) (hlog : s.load run <+: log) :
    (∀ timer fireAt text, (s.timers run).get timer = some ⟨fireAt, text, .armed⟩ ↔
      ∃ purpose, (foldLog run flow (s.load run)).timers.get timer = some ⟨fireAt, purpose⟩ ∧
        text = purpose.asStr) ∧
    (∀ now, (Timers.due (s.timers run) now).Perm
      ((foldLog run flow (s.load run)).timers.entries.filter fun e => e.2.fireAt ≤ now)) ∧
    ∀ (event : Event) (seq : Nat) (timer : Text) (fireAt : Timestamp),
      event.body = .timerFired timer fireAt →
      ((foldLog run flow (s.load run)).timers.get timer).map ArmedTimer.fireAt ≠ some fireAt →
      let st := foldLog run flow (s.load run)
      (reduce st seq event).foldl evolve st = st ∧
        (reduce st seq event).foldl Timers.applyEvent (s.timers run) = s.timers run := by
  have hagrees : Agrees (s.timers run) (foldLog run flow (s.load run)) := by
    rw [hs.index run]
    exact ht.agrees (compile_wf hc) _ hlog
  refine ⟨fun timer fireAt text => ?_, hagrees.due, fun event seq timer fireAt hb hstale => ?_⟩
  · rw [← Timers.armed_eq_some, hagrees timer]
    unfold foldedTimer
    simp only [Option.map_eq_some_iff, Prod.mk.injEq]
    constructor
    · rintro ⟨⟨fire, purpose⟩, hget, rfl, rfl⟩
      exact ⟨purpose, hget, rfl⟩
    · rintro ⟨purpose, hget, rfl⟩
      exact ⟨_, hget, rfl, rfl⟩
  · exact hagrees.stale hb hstale seq

/-- A store whose run `r` is commissioned: its lease taken, the first block appended. -/
def commissionedStore : Store :=
  let first := reduce (.initial ['r'] soloFlow) 0 ⟨0, 0, ['c'], .commissioned "" "" .default "" ""⟩
  (Call.append ['r'] 0 1 (first.map fun e => ⟨e, 1⟩) [] []).apply
    ((Call.compareAndSet (ownerKey ['r']) none (some (.lease ⟨"h", 1, 30000⟩))).apply .empty)

/-- The root deadline of a run just commissioned is due at its instant and not before. -/
theorem root_deadline_is_due :
    (Timers.due (commissionedStore.timers ['r']) 59999).length = 0 ∧
    (Timers.due (commissionedStore.timers ['r']) 60000).length = 1 := by
  have hs : commissionedStore.Reached := by
    unfold commissionedStore
    exact (Store.Reached.empty.call _).call _
  have ht : Trace ['r'] soloFlow (commissionedStore.load ['r']) := by
    have h := @Trace.input ['r'] soloFlow _ .nil
      ⟨0, 0, ['c'], .commissioned "" "" .default "" ""⟩ rfl
    convert h using 1
    decide
  have h := (timer_index_agrees compile_solo hs ht List.prefix_rfl).2.1
  constructor
  · rw [(h 59999).length_eq]
    decide
  · rw [(h 60000).length_eq]
    decide

end NexusFlow.Host
