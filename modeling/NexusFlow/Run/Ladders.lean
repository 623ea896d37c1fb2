import NexusFlow.Run.Changes

/-!
# What an input does to a stop

`LadderMove` says what one accepted input does to the ladder of one slot: it begins with the slot's
stop, counts signals and graces, starts a new round on a person's `resume`, is forced by a withdrawal
and is dropped with the session's end. `Transition.ladders` proves that nothing else happens to any
ladder, and `Transition.graces` that a grace is armed by a signal and by nothing else.
-/

namespace NexusFlow.Run

open NexusFlow.Lib

/-- No stop of this attempt has begun, and it is not over. -/
def SlotState.isUnsignalled (s : SlotState) : Bool :=
  s.ladder.isNone && (s.isLive || s = .pending)

/-- **What an accepted input does to one slot's ladder.** -/
inductive LadderMove (st : RunState) (input : Event) (st' : RunState) (r r' : SlotRecord) : Prop
  | keeps (h : r'.state.ladder = r.state.ladder)
      (hun : r'.state.isUnsignalled = true → r.state.isUnsignalled = true)
  | begins {now : Timestamp} {forced : Bool} (hun : r.state.isUnsignalled = true)
      (h : r'.state.ladder = some (.new now forced)) (hforced : forced = true → st'.withdrawn = true)
  | revives {cause : EndCause} {id : String} {forced : Bool}
      (hb : input.body = .sessionFact (st.sessionKey r.slot) (.started id))
      (hs : r.state = .ended cause) (h : r'.state.ladder = some (.new input.now forced))
      (hforced : forced = true → st'.withdrawn = true)
  | signals {l : Ladder} {nth : Nat} {signal : StopKind}
      (hb : input.body = .stopSignalled (st.sessionKey r.slot) nth signal)
      (hl : r.state.ladder = some l) (hnth : nth = l.total + 1)
      (h : r'.state.ladder = some { l with
        signalsSent := min (l.signalsSent + 1) 255, total := l.total + 1 })
  | fires {l : Ladder} {n : Nat} {fireAt : Timestamp}
      (hb : input.body = .timerFired (graceTimer n r.slot) fireAt)
      (hdef : isDeferred st (graceTimer n r.slot) fireAt input.now = false)
      (harmed : st.graceArmed r.slot n = true) (hl : r.state.ladder = some l)
      (h : r'.state.ladder = some (l.fire n))
  | resumes {l : Ladder} {slot : Option Slot} (hb : input.body = .resume slot)
      (hl : r.state.ladder = some l)
      (h : r'.state.ladder = some { l with signalsSent := 0, fired := .none })
  | forces {l : Ladder} {m : Option MessageId} {who : WithdrawnBy}
      (hb : input.body = .withdrawn m who) (hl : r.state.ladder = some l)
      (h : r'.state.ladder = some { l with forced := true }) (hw : st'.withdrawn = true)
  | drops (h : r'.state.ladder = none) (hun : r'.state.isUnsignalled = false)

section

variable {st st' mid : RunState} {input : Event} {r r' : SlotRecord} {g : Nat → Bool}

theorem SlotState.isWorking_unsignalled {s : SlotState} (h : s.isWorking = true) :
    s.isUnsignalled = true := by
  cases s <;> first | rfl | cases h

theorem ladder_startReplyStop {x : SlotRecord} (h : x.state.isReplied = true) (now : Timestamp)
    (forced : Bool) :
    (x.startReplyStop now forced).state.ladder = some (x.state.ladder.getD (.new now forced)) := by
  unfold SlotRecord.startReplyStop
  cases hs : x.state with
  | replied m esc rew process overdue l => rfl
  | _ => rw [hs] at h; cases h

/-- A reply's stop begins, unless it is under way. -/
theorem LadderMove.replyStop {x : SlotRecord} (hx : x.state = r.state)
    (hrep : r.state.isReplied = true) (hlive : r.state.isLive = true) (now : Timestamp)
    (hw : st'.withdrawn = st.withdrawn) :
    LadderMove st input st' r (x.startReplyStop now st.withdrawn) := by
  have h := ladder_startReplyStop (x := x) (by rw [hx]; exact hrep) now st.withdrawn
  rw [hx] at h
  cases hl : r.state.ladder with
  | none =>
    rw [hl] at h
    refine .begins ?_ h fun hf => by rw [hw]; exact hf
    unfold SlotState.isUnsignalled
    rw [hl, hlive]
    rfl
  | some l =>
    rw [hl] at h
    refine .keeps (h.trans hl.symm) fun hun => ?_
    unfold SlotState.isUnsignalled at hun
    rw [h] at hun
    cases hun

/-- **What a session's input does to its ladder.** -/
theorem SlotMove.ladder (h : SlotMove st input r r' g) (hw : st'.withdrawn = st.withdrawn) :
    LadderMove st input st' r r' := by
  have hnew : ∀ {x : SlotRecord} {l : Ladder} {after : AfterStop}, r.state.isWorking = true →
      x.state = .stopping l after → l = .new input.now st.withdrawn →
        LadderMove st input st' r x := by
    intro x l after hwork hs hl
    refine .begins (SlotState.isWorking_unsignalled hwork) (by rw [hs, hl]; rfl) fun hf => ?_
    rw [hw]
    exact hf
  cases h with
  | nudged _ hs => exact .keeps (by rw [hs]; rfl) fun _ => by rw [hs]; rfl
  | signalled hb hl hnth =>
    exact .signals hb hl hnth (SlotRecord.applySignal_ladder hl)
  | started _ hs => exact .keeps (by rw [hs]; rfl) fun _ => by rw [hs]; rfl
  | startedStopping _ _ => exact .keeps rfl id
  | startedEnded hb hs _ => exact .revives hb hs rfl fun hf => by rw [hw]; exact hf
  | sign _ hsign hacc =>
    rcases sign_state hsign hacc (st.isSuperseded r) st.withdrawn input.now with
      h | ⟨hwork, session, openCall, h⟩
    · exact .keeps (by rw [h]) (by rw [h]; exact id)
    · refine .keeps ?_ fun _ => SlotState.isWorking_unsignalled hwork
      rw [h, SlotState.isWorking_ladder hwork]
      rfl
  | lingering _ hwork => exact hnew hwork rfl rfl
  | @lingeringReplied pids _ hrep hlive =>
    exact .replyStop (r := r) (x := { r with lastFact := some input.now, pids }) rfl hrep hlive _ hw
  | lingeringStopping _ _ => exact .keeps rfl id
  | ended _ _ =>
    refine .drops ?_ ?_
    · unfold SlotRecord.end'
      cases hs : r.state <;> rfl
    · unfold SlotRecord.end'
      cases hs : r.state <;> rfl
  | replied _ hwork _ =>
    refine .keeps ?_ fun _ => SlotState.isWorking_unsignalled hwork
    rw [SlotState.isWorking_ladder hwork]
    rfl
  | resumed hb _ _ _ =>
    unfold SlotRecord.applyResume
    split
    · cases hl : r.state.ladder with
      | none =>
        have hnone : (r.state.mapLadder fun l => { l with signalsSent := 0, fired := .none })
            = r.state := by
          cases hs : r.state with
          | stopping l after => rw [hs] at hl; cases hl
          | replied m esc rew process overdue l =>
            rw [hs] at hl
            cases hl
            rfl
          | _ => rfl
        exact .keeps (by simp only [hnone]) (by simp only [hnone]; exact id)
      | some l =>
        refine .resumes hb hl ?_
        simp only [SlotState.mapLadder_ladder, hl]
        rfl
    · exact .keeps rfl id
  | deferred _ _ _ _ _ => exact .keeps rfl id
  | deferredStart _ hs => exact .keeps (by rw [hs]; rfl) fun _ => by rw [hs]; rfl
  | startFailed _ hs => exact hnew (by rw [hs]; rfl) rfl rfl
  | quiet _ hs => exact .keeps (by rw [hs]; rfl) fun _ => by rw [hs]; rfl
  | callBound _ _ => exact .keeps rfl id
  | hung _ hq =>
    refine hnew ?_ rfl rfl
    cases hs : r.state <;> rw [hs] at hq <;> first | rfl | cases hq
  | grace hb hdef harmed _ hl _ =>
    refine .fires hb hdef harmed hl ?_
    simp only [SlotState.mapLadder_ladder, hl]
    rfl
  | wouldNotStop hb hdef harmed hl _ =>
    refine .fires hb hdef harmed hl ?_
    simp only [SlotState.mapLadder_ladder, hl]
    rfl
  | windDown _ hrep hlive _ => exact .replyStop rfl hrep hlive _ hw
  | retry _ _ _ _ => exact .keeps rfl id

theorem Starts.withdrawn {now : Timestamp} {step : StepId} {visit attempt : Nat}
    {members : List Handle} (h : Starts now mid step visit attempt members st') :
    st'.withdrawn = mid.withdrawn := by
  obtain ⟨new, ho, -⟩ := opened_of_stepStarted mid step visit attempt members now
  rw [h.arms.keeps RunState.withdrawn fun _ _ _ => rfl, ho.eq]

/-! ## Withdrawals -/

/-- **A withdrawal is the requester's or the owner's input, and is never taken back.** -/
theorem Transition.withdraws (ht : Transition st input st') : st'.withdrawn = st.withdrawn ∨
    ((∃ m who, input.body = .withdrawn m who) ∧ st'.withdrawn = true) := by
  cases ht with
  | run hm =>
    left
    cases hm with
    | attended _ hsteady _ _ _ => exact steady_keeps hsteady RunState.withdrawn fun _ => rfl
    | _ => rfl
  | claimed _ _ _ hbegins _ => exact Or.inl hbegins.withdrawn
  | prepared _ _ harms _ =>
    have hw := harms.keeps RunState.withdrawn fun _ _ _ => rfl
    exact Or.inl hw
  | slot _ hland _ => exact Or.inl (hland.replaces.keeps RunState.withdrawn fun _ => rfl)
  | @ended r g cause mid st' hb hmove hland hlive hj hafter =>
    left
    have hmid : mid.withdrawn = st.withdrawn :=
      hland.replaces.keeps RunState.withdrawn fun _ => rfl
    rw [← hmid]
    split at hafter
    · rw [hafter]
    · cases hafter with
      | isOver _ harms _ => exact harms.keeps RunState.withdrawn fun _ _ _ => rfl
      | restart _ _ _ hre => exact hre.withdrawn
      | park _ _ hp => exact hp.replaces.keeps RunState.withdrawn fun _ => rfl
      | hold _ _ _ _ hp _ => exact hp.replaces.keeps RunState.withdrawn fun _ => rfl
  | @replied r r' g m esc rew mid asked st' hb hr' hwork hmove hland hasked hcoh hafter =>
    left
    have hkeeps : asked.withdrawn = st.withdrawn := by
      rw [hasked, ← hland.replaces.keeps RunState.withdrawn fun _ => rfl]
      split <;> rfl
    rw [← hkeeps]
    cases hafter with
    | elsewhere _ => rfl
    | waits _ _ _ => rfl
    | consolidates _ _ _ _ _ hs => exact hs.withdrawn
    | waitsSynthesis _ _ _ _ _ _ => rfl
    | @done _ replies _ _ _ _ _ hf =>
      generalize replies.any id = needsRework at hf
      cases hf with
      | rework _ _ hre =>
        obtain ⟨d', -, hs⟩ := hre
        exact hs.withdrawn
      | ceiling _ _ _ => rfl
      | next _ _ _ hs => exact hs.withdrawn
      | last _ _ => rfl
  | resumed _ _ _ _ hland _ hre =>
    exact Or.inl (hre.withdrawn.trans (hland.replaces.keeps RunState.withdrawn fun _ => rfl))
  | retried _ _ _ _ _ _ hland _ hre =>
    exact Or.inl (hre.withdrawn.trans (hland.replaces.keeps RunState.withdrawn fun _ => rfl))
  | answered _ _ _ _ _ _ _ _ _ hre => exact Or.inl hre.withdrawn
  | continued _ _ _ _ _ _ _ _ hre =>
    obtain ⟨d', -, hs⟩ := hre
    exact Or.inl hs.withdrawn
  | acceptedNext _ _ _ _ _ _ _ _ _ hs => exact Or.inl hs.withdrawn
  | acceptedLast _ _ _ _ _ _ _ _ => exact Or.inl rfl
  | withdrawn hb _ _ => exact Or.inr ⟨⟨_, _, hb⟩, rfl⟩
  | forced hb _ _ => exact Or.inr ⟨⟨_, _, hb⟩, rfl⟩

/-! ## What a change does to a ladder -/

theorem LadderMove.congr (h : LadderMove st input st' r r') {x : SlotRecord}
    (hx : x.state = r'.state) : LadderMove st input st' r x := by
  cases h with
  | keeps h hun => exact .keeps (hx ▸ h) (hx ▸ hun)
  | begins hun h hf => exact .begins hun (hx ▸ h) hf
  | revives hb hs h hf => exact .revives hb hs (hx ▸ h) hf
  | signals hb hl hnth h => exact .signals hb hl hnth (hx ▸ h)
  | fires hb hdef harmed hl h => exact .fires hb hdef harmed hl (hx ▸ h)
  | resumes hb hl h => exact .resumes hb hl (hx ▸ h)
  | forces hb hl h hf => exact .forces hb hl (hx ▸ h) hf
  | drops h hun => exact .drops (hx ▸ h) (hx ▸ hun)

theorem LadderMove.finish (x : SlotRecord) (forced : Bool) (now : Timestamp)
    (hf : forced = true → st'.withdrawn = true) :
    LadderMove st input st' x (x.finish forced now) := by
  have hworking : x.state.isWorking = true →
      (x.finish forced now).state.ladder = some (.new now forced) →
        LadderMove st input st' x (x.finish forced now) :=
    fun hwork h => .begins (SlotState.isWorking_unsignalled hwork) h hf
  cases hs : x.state with
  | pending =>
    have heq : (x.finish forced now).state = .ended .stoppedByHost := by
      simp only [SlotRecord.finish, hs]
    exact .drops (by rw [heq]; rfl) (by rw [heq]; rfl)
  | stopping l after =>
    refine .keeps (by simp only [SlotRecord.finish, hs]; rfl) fun hun => ?_
    simp only [SlotRecord.finish, hs] at hun
    cases hun
  | replied m esc rew process overdue l =>
    have heq : (x.finish forced now).state = x.state := by simp only [SlotRecord.finish, hs]
    exact .keeps (by rw [heq]) (by rw [heq]; exact id)
  | ended cause =>
    have heq : (x.finish forced now).state = x.state := by simp only [SlotRecord.finish, hs]
    exact .keeps (by rw [heq]) (by rw [heq]; exact id)
  | _ => exact hworking (by rw [hs]; rfl) (by simp only [SlotRecord.finish, hs]; rfl)

theorem SlotRecord.applyWithdrawn_state (x : SlotRecord) :
    x.applyWithdrawn.state = x.state.mapLadder fun l => { l with forced := true } := rfl

theorem SlotRecord.applyWithdrawn_of_none {x : SlotRecord} (hl : x.state.ladder = none) :
    x.applyWithdrawn.state = x.state := by
  rw [SlotRecord.applyWithdrawn_state]
  cases hs : x.state with
  | stopping l after => rw [hs] at hl; cases hl
  | replied m esc rew process overdue l =>
    rw [hs] at hl
    cases hl
    rfl
  | _ => rfl

theorem SlotRecord.applyWithdrawn_ladder {x : SlotRecord} {l : Ladder}
    (hl : x.state.ladder = some l) :
    x.applyWithdrawn.state.ladder = some { l with forced := true } := by
  rw [SlotRecord.applyWithdrawn_state, SlotState.mapLadder_ladder, hl]
  rfl

/-- A withdrawal forces the stop under way. -/
theorem LadderMove.withdrawn {x : SlotRecord} {m : Option MessageId} {who : WithdrawnBy}
    (hb : input.body = .withdrawn m who) (hw : st'.withdrawn = true) :
    LadderMove st input st' x x.applyWithdrawn := by
  cases hl : x.state.ladder with
  | some l => exact .forces hb hl (SlotRecord.applyWithdrawn_ladder hl) hw
  | none =>
    have heq := SlotRecord.applyWithdrawn_of_none hl
    exact .keeps (by rw [heq]) (by rw [heq]; exact id)

theorem LadderMove.withdrawn_finish {x : SlotRecord} {m : Option MessageId} {who : WithdrawnBy}
    (hb : input.body = .withdrawn m who) (hw : st'.withdrawn = true) (now : Timestamp) :
    LadderMove st input st' x (x.applyWithdrawn.finish true now) := by
  cases hl : x.state.ladder with
  | some l =>
    have hforced := SlotRecord.applyWithdrawn_ladder hl
    refine .forces hb hl ?_ hw
    rw [← hforced]
    cases hs : x.applyWithdrawn.state with
    | stopping l after => simp only [SlotRecord.finish, hs]; rfl
    | replied m esc rew process overdue l => simp only [SlotRecord.finish, hs]
    | _ => rw [hs] at hforced; cases hforced
  | none =>
    have hfinish : (x.applyWithdrawn.finish true now).state = (x.finish true now).state := by
      unfold SlotRecord.finish
      simp only [SlotRecord.applyWithdrawn_of_none hl]
    exact (LadderMove.finish x true now fun _ => hw).congr hfinish

theorem EndsAs.state {now : Timestamp} {x : SlotRecord} (h : EndsAs st' now x r') :
    r'.state = x.state := by
  cases h with
  | here h => rw [h]
  | parked _ _ h => rw [h]
  | held _ h _ => rw [h]
  | isOver _ h => rw [h]

/-- **What an accepted input does to one slot's ladder.** -/
theorem Change.ladder (h : Change st input st' r r')
    (hw : st'.withdrawn = st.withdrawn ∨ ∃ m who, input.body = .withdrawn m who) :
    LadderMove st input st' r r' := by
  cases h with
  | stays h =>
    cases h with
    | same h _ =>
      rw [h]
      exact .keeps rfl id
    | starts d hs h _ =>
      rw [h]
      exact .keeps (by rw [hs]; rfl) fun _ => by rw [hs]; rfl
  | moves hmove _ h =>
    have hsame : st'.withdrawn = st.withdrawn := by
      rcases hw with hw | ⟨m, who, hb⟩
      · exact hw
      · exfalso
        cases hmove <;> simp_all
    exact (hmove.ladder hsame).congr h.state
  | finishes h =>
    rw [h.eq]
    exact .finish r _ _ id
  | withdrawn hb hw h =>
    rw [h.eq, hw]
    exact .withdrawn_finish hb hw _
  | forced hb hw h _ =>
    rw [h]
    exact .withdrawn hb hw

/-- What an input does to the ladders of a whole state. -/
def LaddersMove (st : RunState) (input : Event) (st' : RunState) : Prop :=
  ∀ r' ∈ st'.slots,
    (r'.slot ∉ st.ids ∧ (r'.state = .pending ∨ ∃ d, r'.state = .starting d)) ∨
      ∃ r ∈ st.slots, r.slot = r'.slot ∧ LadderMove st input st' r r'

/-- **What an accepted input does to every ladder of a run.** -/
theorem Transition.ladders (ht : Transition st input st') (h : Inv st) (h' : Coh st')
    (hacc : ignoredReason st input = none) : LaddersMove st input st' := by
  have hw : st'.withdrawn = st.withdrawn ∨ ∃ m who, input.body = .withdrawn m who := by
    rcases ht.withdraws with hw | ⟨hb, -⟩
    · exact Or.inl hw
    · exact Or.inr hb
  intro r' hr'
  rcases ht.changes h h' hacc r' hr' with ⟨hnot, n, hnew, -, -, heq⟩ | ⟨r, hr, hslot, hchange⟩
  · refine Or.inl ⟨hnot, ?_⟩
    rcases heq with heq | ⟨d, heq, -⟩
    · rw [heq]
      exact Or.inl hnew.1
    · rw [heq]
      exact Or.inr ⟨d, rfl⟩
  · exact Or.inr ⟨r, hr, hslot, hchange.ladder hw⟩

/-! ## Graces -/

/-- The grace `n` of this slot is the one a signal has just armed. -/
def SignalArms (st : RunState) (input : Event) (s : Slot) (n : Nat) : Prop :=
  ∃ r ∈ st.slots, r.slot = s ∧ ∃ l nth signal, r.state.ladder = some l ∧
    input.body = .stopSignalled (st.sessionKey s) nth signal ∧ n = l.signalsSent + 1 ∧ n ≤ 2

theorem SlotMove.graces (h : SlotMove st input r r' g) (hr : r ∈ st.slots) {n : Nat}
    (hg : g n = true) : st.graceArmed r.slot n = true ∨ SignalArms st input r.slot n := by
  cases h with
  | signalled hb hl _ =>
    simp only [Bool.or_eq_true, Bool.and_eq_true, beq_iff_eq, decide_eq_true_eq] at hg
    rcases hg with ⟨hn, hle⟩ | hg
    · exact Or.inr ⟨r, hr, rfl, _, _, _, hl, hb, hn, hle⟩
    · exact Or.inl hg
  | lingering _ _ => cases hg
  | ended _ _ => cases hg
  | replied _ _ _ => cases hg
  | hung _ _ => cases hg
  | grace _ _ _ _ _ _ =>
    rw [Bool.and_eq_true] at hg
    exact Or.inl hg.2
  | wouldNotStop _ _ _ _ _ =>
    rw [Bool.and_eq_true] at hg
    exact Or.inl hg.2
  | _ => exact Or.inl hg

/-- **A grace is armed by a signal and by nothing else.** -/
theorem Transition.graces (ht : Transition st input st') (hinv : Inv st) (hcoh' : Coh st')
    (hacc : ignoredReason st input = none) {s : Slot} {n : Nat}
    (h : st'.graceArmed s n = true) : st.graceArmed s n = true ∨ SignalArms st input s n := by
  have hsame : ∀ {a : RunState}, SameTimers a st' s → a.graceArmed s n = true := by
    intro a hsame
    unfold RunState.graceArmed at h ⊢
    rwa [← hsame (.grace n s) rfl]
  obtain ⟨a, ha⟩ := Option.isSome_iff_exists.mp h
  obtain ⟨t, htext, -, hmem⟩ := hcoh'.known _ _ ha
  cases TimerId.text_injective (t := .grace n s) htext
  obtain ⟨r', hr', rfl⟩ := RunState.mem_ids.mp (hmem s rfl)
  rcases ht.changes hinv hcoh' hacc r' hr' with ⟨-, x, -, -, hnone, -⟩ | ⟨r, hr, hslot, hchange⟩
  · have := hnone (.grace n r'.slot) rfl (by exact fun h => by cases h)
    rw [this] at ha
    cases ha
  rw [← hslot] at h hsame ⊢
  cases hchange with
  | stays hs =>
    cases hs with
    | same _ hs => exact Or.inl (hsame hs)
    | starts d _ _ hd =>
      left
      unfold RunState.graceArmed at h ⊢
      rwa [← hd.other (.grace n r.slot) rfl (by exact fun h => by cases h)]
  | moves hmove hg _ =>
    rw [hg] at h
    exact hmove.graces hr h
  | finishes hf =>
    left
    unfold RunState.graceArmed at h ⊢
    rw [hf.timers _ rfl] at h
    obtain ⟨b, hb⟩ := Option.isSome_iff_exists.mp h
    rw [(Option.filter_eq_some_iff.mp hb).1]
    rfl
  | withdrawn _ _ hf =>
    left
    unfold RunState.graceArmed at h ⊢
    rw [hf.timers _ rfl] at h
    obtain ⟨b, hb⟩ := Option.isSome_iff_exists.mp h
    rw [(Option.filter_eq_some_iff.mp hb).1]
    rfl
  | forced _ _ _ hs => exact Or.inl (hsame hs)

end

end NexusFlow.Run
