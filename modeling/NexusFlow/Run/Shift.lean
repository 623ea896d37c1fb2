import NexusFlow.Run.Decide

/-!
# A state under another clock

Every instant of an event, a decision or a state moved by one difference (`shift`), and what reads or
changes a state commuting with it: the guard (`ignoredReason_shift`), the effects
(`pendingEffects_shift`), an input (`applyInput_shift`) and a decision (`applyDecision_shift`). An
instant is compared with another one only, never with a fixed one.

`ShiftedRuns` moves what `decide` returns.
-/

namespace NexusFlow.Run

open NexusFlow.Lib

/-! ## Moved -/

section Moved

variable (d : Int)

def EndCause.shift : EndCause → EndCause
  | .usageLimit resetsAt => .usageLimit (resetsAt.map (· + d))
  | cause => cause

def SessionFact.shift : SessionFact → SessionFact
  | .ended cause => .ended (cause.shift d)
  | fact => fact

def Decision.shift : Decision → Decision
  | .timerSet timer fireAt purpose => .timerSet timer (fireAt + d) purpose
  | .liveness slot reason since => .liveness slot reason (since + d)
  | .held slot reason «until» resetsAt =>
    .held slot reason («until» + d) (resetsAt.map (· + d))
  | decision => decision

def EventBody.shift : EventBody → EventBody
  | .sessionFact key fact => .sessionFact key (fact.shift d)
  | .timerFired timer fireAt => .timerFired timer (fireAt + d)
  | .decision x => .decision (x.shift d)
  | body => body

def Event.shift (input : Event) : Event :=
  { input with now := input.now + d, body := input.body.shift d }

def RunCondition.shift (c : RunCondition) : RunCondition := { c with since := c.since + d }

def FinishedStep.shift (f : FinishedStep) : FinishedStep := { f with now := f.now + d }

def ArmedTimer.shift (t : ArmedTimer) : ArmedTimer := { t with fireAt := t.fireAt + d }

def Question.shift (q : Question) : Question := { q with since := q.since + d }

def Ladder.shift (l : Ladder) : Ladder := { l with since := l.since + d }

def SlotState.shift : SlotState → SlotState
  | .pending => .pending
  | .starting deadline => .starting (deadline + d)
  | .running session openCall => .running session (openCall.map (· + d))
  | .quiet since openCall => .quiet (since + d) (openCall.map (· + d))
  | .nudged now openCall => .nudged (now + d) (openCall.map (· + d))
  | .stopping ladder after => .stopping (ladder.shift d) after
  | .replied message escalate needsRework process overdue ladder =>
    .replied message escalate needsRework process overdue (ladder.map (Ladder.shift d))
  | .ended cause => .ended (cause.shift d)

def SlotCondition.shift : SlotCondition → SlotCondition
  | .held reason «until» order => .held reason («until» + d) order
  | .parked reason order since => .parked reason order (since + d)

def SlotRecord.shift (r : SlotRecord) : SlotRecord :=
  { r with
    state := r.state.shift d
    createdAt := r.createdAt + d
    condition := r.condition.map (SlotCondition.shift d)
    lastFact := r.lastFact.map (· + d) }

/-- The state with every instant moved by `d`. -/
def RunState.shift (st : RunState) : RunState :=
  { st with
    condition := st.condition.map (RunCondition.shift d)
    slots := st.slots.map (SlotRecord.shift d)
    finishedSteps := st.finishedSteps.map (FinishedStep.shift d)
    questions := st.questions.map (Question.shift d)
    timers := st.timers.mapValues (ArmedTimer.shift d)
    claimSince := st.claimSince.map (· + d) }

end Moved

variable {d : Int} (st : RunState)

/-! ## Slots -/

namespace SlotState

@[simp] theorem isLive_shift (s : SlotState) : (s.shift d).isLive = s.isLive := by
  cases s <;> rfl

@[simp] theorem ladder_shift (s : SlotState) :
    (s.shift d).ladder = s.ladder.map (Ladder.shift d) := by
  cases s <;> rfl

@[simp] theorem isReplied_shift (s : SlotState) : (s.shift d).isReplied = s.isReplied := by
  cases s <;> rfl

theorem mapLadder_shift {f : Ladder → Ladder} (h : ∀ l, f (l.shift d) = (f l).shift d)
    (s : SlotState) : (s.shift d).mapLadder f = (s.mapLadder f).shift d := by
  cases s with
  | stopping ladder after => exact congrArg (SlotState.stopping · after) (h ladder)
  | replied message escalate needsRework process overdue ladder =>
    cases ladder with
    | none => rfl
    | some ladder =>
      exact congrArg (fun l => SlotState.replied message escalate needsRework process overdue
        (some l)) (h ladder)
  | _ => rfl

theorem eq_pending_iff_shift (s : SlotState) : s.shift d = .pending ↔ s = .pending := by
  cases s <;> simp [shift]

end SlotState

@[simp] theorem SlotCondition.order_shift (c : SlotCondition) : (c.shift d).order = c.order := by
  cases c <;> rfl

@[simp] theorem SlotCondition.isWouldNotStop_shift (c : SlotCondition) :
    (c.shift d).isWouldNotStop = c.isWouldNotStop := by
  cases c with
  | held reason «until» order => rfl
  | parked reason order since => cases reason <;> rfl

@[simp] theorem SlotRecord.slot_shift (r : SlotRecord) : (r.shift d).slot = r.slot := rfl

@[simp] theorem SlotRecord.state_shift (r : SlotRecord) :
    (r.shift d).state = r.state.shift d := rfl

@[simp] theorem SlotRecord.any_isWouldNotStop_shift (r : SlotRecord) :
    (r.shift d).condition.any SlotCondition.isWouldNotStop =
      r.condition.any SlotCondition.isWouldNotStop := by
  show (r.condition.map (SlotCondition.shift d)).any _ = _
  cases r.condition <;> simp

/-! ## Lookups -/

namespace RunState

@[simp] theorem slots_shift : (st.shift d).slots = st.slots.map (SlotRecord.shift d) := rfl

@[simp] theorem run_shift : (st.shift d).run = st.run := rfl

@[simp] theorem flow_shift : (st.shift d).flow = st.flow := rfl

@[simp] theorem policy_shift : (st.shift d).policy = st.policy := rfl

@[simp] theorem phase_shift : (st.shift d).phase = st.phase := rfl

@[simp] theorem visits_shift : (st.shift d).visits = st.visits := rfl

@[simp] theorem currentStep_shift : (st.shift d).currentStep = st.currentStep := rfl

@[simp] theorem rootPeriods_shift : (st.shift d).rootPeriods = st.rootPeriods := rfl

@[simp] theorem isFinishing_shift : (st.shift d).isFinishing = st.isFinishing := rfl

@[simp] theorem treePrepared_shift : (st.shift d).treePrepared = st.treePrepared := rfl

@[simp] theorem passOf_shift (step : Text) : (st.shift d).passOf step = st.passOf step := rfl

@[simp] theorem timers_shift :
    (st.shift d).timers = st.timers.mapValues (ArmedTimer.shift d) := rfl

@[simp] theorem openQuestions_shift :
    (st.shift d).openQuestions = st.openQuestions.map (Question.shift d) := by
  unfold openQuestions
  exact List.filter_map

@[simp] theorem find_shift (key : SessionKey) : (st.shift d).find key = st.find key := by
  unfold find
  rw [slots_shift, List.findIdx?_map]
  rfl

@[simp] theorem findSlot_shift (s : Slot) : (st.shift d).findSlot s = st.findSlot s := by
  unfold findSlot
  rw [slots_shift, List.findIdx?_map]
  rfl

@[simp] theorem recordAt_shift (i : Option Nat) :
    (st.shift d).recordAt i = (st.recordAt i).map (SlotRecord.shift d) := by
  cases i with
  | none => rfl
  | some i => exact List.getElem?_map

@[simp] theorem latest_shift (step : StepId) (visit : Nat) (member : Handle) :
    (st.shift d).latest step visit member =
      (st.latest step visit member).map (SlotRecord.shift d) := by
  unfold latest
  rw [slots_shift, ← List.map_reverse, List.find?_map]
  rfl

@[simp] theorem isSuperseded_shift (r : SlotRecord) :
    (st.shift d).isSuperseded (r.shift d) = st.isSuperseded r := by
  unfold isSuperseded
  rw [SlotRecord.slot_shift, latest_shift, Option.any_map]
  rfl

@[simp] theorem personaIsLive_shift (member : Handle) :
    (st.shift d).personaIsLive member = st.personaIsLive member := by
  unfold personaIsLive
  rw [slots_shift, List.any_map]
  simp [Function.comp_def]

@[simp] theorem anyLive_shift : (st.shift d).anyLive = st.anyLive := by
  unfold anyLive
  rw [slots_shift, List.any_map]
  simp [Function.comp_def]

@[simp] theorem verdictOf_shift (step : Text) : (st.shift d).verdictOf step = st.verdictOf step := by
  unfold verdictOf
  show (st.visits.get step).bind _ = _
  refine congrArg _ (funext fun visit => ?_)
  dsimp only
  rw [slots_shift, ← List.map_reverse, List.filter_map, List.findSome?_map]
  refine congrArg (List.findSome? · _) (funext fun r => ?_)
  simp only [Function.comp, SlotRecord.state_shift]
  cases r.state <;> rfl

theorem modify_map {α β : Type} {m : α → β} {f : α → α} {g : β → β} (h : ∀ a, g (m a) = m (f a))
    (i : Nat) (l : List α) : (l.map m).modify i g = (l.modify i f).map m := by
  refine List.ext_getElem? fun j => ?_
  simp only [List.getElem?_modify, List.getElem?_map]
  cases l[j]? with
  | none => rfl
  | some a =>
    by_cases hj : i = j
    · simp [hj, h]
    · simp [hj]

theorem modifySlot_shift (i : Nat) {f g : SlotRecord → SlotRecord}
    (h : ∀ r, g (r.shift d) = (f r).shift d) :
    (st.shift d).modifySlot i g = (st.modifySlot i f).shift d := by
  unfold modifySlot shift
  simp only [modify_map h]

theorem modifyRecord_shift (s : Slot) {f g : SlotRecord → SlotRecord}
    (h : ∀ r, g (r.shift d) = (f r).shift d) :
    (st.shift d).modifyRecord s g = (st.modifyRecord s f).shift d := by
  unfold modifyRecord
  rw [findSlot_shift]
  cases st.findSlot s with
  | none => rfl
  | some i => exact modifySlot_shift st i h

end RunState

/-! ## Effects -/

@[simp] theorem Ladder.owed_shift (l : Ladder) : (l.shift d).owed = l.owed := rfl

@[simp] theorem stopEffect_shift (r : SlotRecord) (key : SessionKey) :
    stopEffect (r.shift d) key = stopEffect r key := by
  unfold stopEffect
  rw [SlotRecord.state_shift, SlotState.ladder_shift]
  cases r.state.ladder <;> rfl

@[simp] theorem lastVerdict_shift : lastVerdict (st.shift d) = lastVerdict st := by
  unfold lastVerdict
  have hsteps : (st.shift d).finishedSteps = st.finishedSteps.map (FinishedStep.shift d) := rfl
  rw [hsteps, ← List.map_reverse, List.findSome?_map]
  simp only [Function.comp_def, RunState.verdictOf_shift]
  rfl

@[simp] theorem resultDeliveries_shift (outcome : Outcome) (parked : ParkOutcome) :
    resultDeliveries (st.shift d) outcome parked = resultDeliveries st outcome parked := by
  unfold resultDeliveries
  simp only [RunState.verdictOf_shift, lastVerdict_shift]
  rfl

@[simp] theorem owedDeliveries_shift : owedDeliveries (st.shift d) = owedDeliveries st := by
  unfold owedDeliveries
  simp only [RunState.openQuestions_shift, resultDeliveries_shift, List.map_map]
  rfl

@[simp] theorem deliverEffects_shift : deliverEffects (st.shift d) = deliverEffects st := by
  unfold deliverEffects
  rw [owedDeliveries_shift]
  rfl

theorem slotEffect_shift (r : SlotRecord) :
    slotEffect (st.shift d) (r.shift d) = slotEffect st r := by
  unfold slotEffect
  rw [stopEffect_shift, SlotRecord.state_shift]
  cases r.state <;> rfl

theorem stops_shift : ((st.shift d).slots.filterMap fun r => stopEffect r ((st.shift d).sessionKey
    r.slot)) = st.slots.filterMap fun r => stopEffect r (st.sessionKey r.slot) := by
  rw [RunState.slots_shift, List.filterMap_map]
  refine congrArg (List.filterMap · _) (funext fun r => ?_)
  exact stopEffect_shift r _

theorem runningEffects_shift (tree : TreePhase) :
    runningEffects (st.shift d) tree = runningEffects st tree := by
  have hslots : (st.shift d).slots.filterMap (slotEffect (st.shift d)) =
      st.slots.filterMap (slotEffect st) := by
    rw [RunState.slots_shift, List.filterMap_map]
    exact congrArg (List.filterMap · _) (funext fun r => slotEffect_shift st r)
  have hcondition : (st.shift d).condition.isSome = st.condition.isSome := Option.isSome_map
  unfold runningEffects
  rw [hslots, hcondition, deliverEffects_shift]
  rfl

theorem finishingEffects_shift (tree : ParkPhase) (occasion : Outcome) :
    finishingEffects (st.shift d) tree occasion = finishingEffects st tree occasion := by
  unfold finishingEffects
  rw [stops_shift, deliverEffects_shift, RunState.anyLive_shift]
  rfl

/-- **The effects owed** name no instant. -/
theorem pendingEffects_shift : pendingEffects (st.shift d) = pendingEffects st := by
  have hphase : (st.shift d).phase = st.phase := rfl
  have hcondition : (st.shift d).condition.isNone = st.condition.isNone := Option.isNone_map
  unfold pendingEffects
  rw [hphase, hcondition]
  cases st.phase with
  | running tree => exact runningEffects_shift st tree
  | finishing outcome reason tree => exact finishingEffects_shift st tree outcome
  | _ => rfl

@[simp] theorem readyToRelease_shift : readyToRelease (st.shift d) = readyToRelease st := by
  unfold readyToRelease
  rw [RunState.anyLive_shift, owedDeliveries_shift]
  rfl

/-! ## The guard -/

@[simp] theorem isHold_shift (cause : EndCause) : isHold (cause.shift d) = isHold cause := by
  cases cause <;> rfl

/-- **A deferral** is a matter of a difference. -/
theorem isDeferred_shift (timer : Text) (fireAt now : Timestamp) :
    isDeferred (st.shift d) timer (fireAt + d) (now + d) = isDeferred st timer fireAt now := by
  unfold isDeferred
  rw [RunState.timers_shift, KeyMap.get_mapValues]
  rw [Int.add_sub_add_right]
  cases st.timers.get timer <;> rfl

@[simp] theorem isCurrentCondition_shift (i : Nat) :
    isCurrentCondition (st.shift d) i = isCurrentCondition st i := by
  unfold isCurrentCondition
  rw [RunState.slots_shift, List.getElem?_map, Option.any_map]
  refine congrArg (Option.any · _) (funext fun r => ?_)
  simp only [RunState.isSuperseded_shift]
  congr 1
  exact Option.isSome_map

theorem conditionOrder_shift (i : Nat) : conditionOrder (st.shift d) i = conditionOrder st i := by
  unfold conditionOrder
  rw [RunState.slots_shift, List.getElem?_map]
  cases st.slots[i]? with
  | none => rfl
  | some r =>
    show ((r.condition.map (SlotCondition.shift d)).map SlotCondition.order).getD 0 =
      (r.condition.map SlotCondition.order).getD 0
    cases r.condition <;> simp

@[simp] theorem resumeTarget_shift (slot : Option Slot) :
    resumeTarget (st.shift d) slot = resumeTarget st slot := by
  have hcurrent : isCurrentCondition (st.shift d) = isCurrentCondition st :=
    funext fun i => isCurrentCondition_shift st i
  have horder : conditionOrder (st.shift d) = conditionOrder st :=
    funext fun i => conditionOrder_shift st i
  cases slot with
  | some slot => simp only [resumeTarget, RunState.findSlot_shift, hcurrent]
  | none => simp only [resumeTarget, hcurrent, horder, RunState.slots_shift, List.length_map]

theorem factIgnored_shift (r : SlotRecord) (fact : SessionFact) :
    factIgnored (st.shift d) (r.shift d) (fact.shift d) = factIgnored st r fact := by
  cases fact with
  | started session =>
    unfold factIgnored
    simp only [SessionFact.shift, SlotRecord.state_shift, RunState.isSuperseded_shift]
    cases r.state <;> rfl
  | groupLingering pids =>
    unfold factIgnored
    simp only [SessionFact.shift, SlotRecord.state_shift, SlotState.isLive_shift]
  | heartbeat kind =>
    unfold factIgnored
    simp only [SessionFact.shift, SlotRecord.state_shift]
    cases r.state <;> rfl
  | ended cause =>
    unfold factIgnored
    simp only [SessionFact.shift, SlotRecord.state_shift]
    cases r.state with
    | replied message escalate needsRework process overdue ladder => cases process <;> rfl
    | _ => rfl
  | _ => rfl

theorem replyIgnored_shift (r : SlotRecord) :
    replyIgnored (st.shift d) (r.shift d) = replyIgnored st r := by
  have hfinishing : (st.shift d).isFinishing = st.isFinishing := rfl
  unfold replyIgnored
  rw [SlotRecord.state_shift, SlotState.isReplied_shift, RunState.isSuperseded_shift, hfinishing]
  cases r.state <;> rfl

theorem deliveryKey_shift (input : Event) : deliveryKey (input.shift d) = deliveryKey input := rfl

/-- **The guard** lets the same inputs pass. -/
theorem ignoredReason_shift (input : Event) :
    ignoredReason (st.shift d) (input.shift d) = ignoredReason st input := by
  obtain ⟨seq, now, key, body⟩ := input
  have hfinished : (st.shift d).isFinished = st.isFinished := rfl
  have hfinishing : (st.shift d).isFinishing = st.isFinishing := rfl
  unfold ignoredReason
  rw [hfinished, hfinishing]
  refine if_congr Iff.rfl rfl ?_
  cases body with
  | claimReleased => simp only [Event.shift, EventBody.shift, readyToRelease_shift]
  | delivered message =>
    simp only [Event.shift, EventBody.shift, owedDeliveries_shift]
    rfl
  | nudged key =>
    simp only [Event.shift, EventBody.shift, RunState.find_shift, RunState.recordAt_shift]
    cases st.recordAt (st.find key) with
    | none => rfl
    | some r =>
      simp only [Option.map_some, SlotRecord.state_shift]
      cases r.state <;> rfl
  | stopSignalled key nth signal =>
    simp only [Event.shift, EventBody.shift, RunState.find_shift, RunState.recordAt_shift]
    cases st.recordAt (st.find key) with
    | none => rfl
    | some r =>
      simp only [Option.map_some, SlotRecord.state_shift, SlotState.ladder_shift, Option.any_map]
      rfl
  | sessionFact key fact =>
    simp only [Event.shift, EventBody.shift, RunState.find_shift, RunState.recordAt_shift]
    cases st.recordAt (st.find key) with
    | none => rfl
    | some r => exact factIgnored_shift st r fact
  | reply key message escalate needsRework =>
    simp only [Event.shift, EventBody.shift, RunState.find_shift, RunState.recordAt_shift]
    cases st.recordAt (st.find key) with
    | none => rfl
    | some r => exact replyIgnored_shift st r
  | answer question disposition message =>
    simp only [Event.shift, EventBody.shift, RunState.openQuestions_shift, List.any_map]
    rfl
  | resume slot => simp only [Event.shift, EventBody.shift, resumeTarget_shift]
  | resumeRun =>
    have hcondition : (st.shift d).condition.isSome = st.condition.isSome := Option.isSome_map
    simp only [Event.shift, EventBody.shift, hcondition]
  | withdrawn message «by» =>
    simp only [Event.shift, EventBody.shift, RunState.slots_shift, List.any_map,
      Function.comp_def, SlotRecord.state_shift, SlotState.ladder_shift, Option.any_map]
    rfl
  | timerFired timer fireAt =>
    simp only [Event.shift, EventBody.shift, RunState.timers_shift, KeyMap.get_mapValues]
    cases st.timers.get timer with
    | none => rfl
    | some armed =>
      -- two instants are equal exactly where the moved ones are
      have hiff : some (armed.fireAt + d) = some (fireAt + d) ↔ some armed.fireAt = some fireAt := by
        simp
      exact if_congr hiff rfl rfl
  | _ => rfl

/-! ## Inputs -/

namespace SlotRecord

theorem revive_shift (r : SlotRecord) : (r.shift d).revive = r.revive.shift d := by
  obtain ⟨slot, state⟩ := r
  cases state <;> rfl

theorem setOpenCall_shift (r : SlotRecord) (value : Option Timestamp) :
    (r.shift d).setOpenCall (value.map (· + d)) = (r.setOpenCall value).shift d := by
  obtain ⟨slot, state⟩ := r
  cases state with
  | running session openCall => cases value <;> cases openCall <;> rfl
  | _ => rfl

theorem beat_shift (r : SlotRecord) (now : Timestamp) (kind : HeartbeatKind) :
    (r.shift d).beat (now + d) kind = (r.beat now kind).shift d := by
  cases kind with
  | callsOpen => exact setOpenCall_shift r (some now)
  | callsClosed => exact setOpenCall_shift r none
  | _ => rfl

theorem startReplyStop_shift (r : SlotRecord) (now : Timestamp) (forced : Bool) :
    (r.shift d).startReplyStop (now + d) forced = (r.startReplyStop now forced).shift d := by
  obtain ⟨slot, state⟩ := r
  cases state with
  | replied message escalate needsRework process overdue ladder => cases ladder <;> rfl
  | _ => rfl

theorem end'_shift (r : SlotRecord) (cause : EndCause) :
    (r.shift d).end' (cause.shift d) = (r.end' cause).shift d := by
  obtain ⟨slot, state⟩ := r
  cases state <;> cases cause <;> rfl

theorem applyFact_shift (r : SlotRecord) (superseded forced : Bool) (now : Timestamp)
    (fact : SessionFact) : (r.shift d).applyFact superseded forced (now + d) (fact.shift d) =
      (r.applyFact superseded forced now fact).shift d := by
  cases fact with
  | started session =>
    obtain ⟨slot, state⟩ := r
    cases state with
    | ended cause => cases superseded <;> rfl
    | _ => rfl
  | heartbeat kind =>
    refine Eq.trans ?_ (beat_shift _ now kind)
    exact congrArg (fun r => SlotRecord.beat r (now + d) kind)
      (revive_shift { r with lastFact := some now })
  | usage => exact revive_shift { r with lastFact := some now }
  | permissionRefused rule program =>
    exact revive_shift { r with lastFact := some now, refused := refusal rule program }
  | groupLingering pids =>
    exact startReplyStop_shift { r with lastFact := some now, pids } now forced
  | ended cause => exact end'_shift { r with lastFact := some now } cause
  | unknown => rfl

theorem applyResume_shift (r : SlotRecord) : (r.shift d).applyResume = r.applyResume.shift d := by
  have hladder := SlotState.mapLadder_shift (d := d)
    (f := fun l => { l with signalsSent := 0, fired := .none }) (fun _ => rfl) r.state
  unfold applyResume
  rw [any_isWouldNotStop_shift, state_shift, hladder]
  split_ifs <;> rfl

theorem applyWithdrawn_shift (r : SlotRecord) :
    (r.shift d).applyWithdrawn = r.applyWithdrawn.shift d := by
  have hladder := SlotState.mapLadder_shift (d := d)
    (f := fun l => { l with forced := true }) (fun _ => rfl) r.state
  unfold applyWithdrawn
  rw [any_isWouldNotStop_shift, state_shift, hladder]
  cases r.condition.any SlotCondition.isWouldNotStop <;> rfl

theorem applySignal_shift (r : SlotRecord) : (r.shift d).applySignal = r.applySignal.shift d := by
  have hladder := SlotState.mapLadder_shift (d := d)
    (f := fun l => { l with signalsSent := min (l.signalsSent + 1) 255, total := l.total + 1 })
    (fun _ => rfl) r.state
  unfold applySignal
  rw [state_shift, hladder]
  rfl

theorem applyReply_shift (r : SlotRecord) (edge : Bool) (message : MessageId)
    (escalate needsRework : Bool) : (r.shift d).applyReply edge message escalate needsRework =
      (r.applyReply edge message escalate needsRework).shift d := rfl

end SlotRecord

theorem applyAnswer_shift (question : Key) (disposition : Disposition) (message : MessageId) :
    applyAnswer (st.shift d) question disposition message =
      (applyAnswer st question disposition message).shift d := by
  have hfind : (st.shift d).questions.findIdx? (fun q => q.id == question) =
      st.questions.findIdx? fun q => q.id == question := List.findIdx?_map
  unfold applyAnswer
  rw [hfind]
  cases st.questions.findIdx? fun q => q.id == question with
  | none => rfl
  | some i =>
    have hasked : ((st.shift d).questions[i]?).map Question.asked =
        (st.questions[i]?).map Question.asked := by
      show ((st.questions.map (Question.shift d))[i]?).map _ = _
      rw [List.getElem?_map, Option.map_map]
      rfl
    have hmodify : (st.shift d).questions.modify i (fun q => { q with answered := true }) =
        (st.questions.modify i fun q => { q with answered := true }).map (Question.shift d) :=
      RunState.modify_map (m := Question.shift d) (f := fun q => { q with answered := true })
        (fun _ => rfl) i st.questions
    let marked : RunState :=
      { st with questions := st.questions.modify i fun q => { q with answered := true } }
    have hverdict : ∀ step, (marked.shift d).verdictOf step = marked.verdictOf step :=
      fun step => RunState.verdictOf_shift marked step
    simp only [hasked, hmodify]
    cases (st.questions[i]?).map Question.asked with
    | none => rfl
    | some asked =>
      cases asked with
      | escalation slot asking => rfl
      | ceiling step pass lastVerdict =>
        cases disposition with
        | accept => exact congrArg (fun verdict => { marked.shift d with
            pendingStart := Option.map (StartCause.accept message) verdict }) (hverdict step.text)
        | _ => rfl

theorem applyFiring_shift (timer : Text) (purpose : TimerPurpose) (now : Timestamp) :
    applyFiring (st.shift d) timer purpose (now + d) =
      (applyFiring st timer purpose now).shift d := by
  cases purpose with
  | stopGrace =>
    unfold applyFiring
    dsimp only
    cases timerSlot timer with
    | none => rfl
    | some slot =>
      refine st.modifyRecord_shift slot fun r => ?_
      obtain ⟨slot, state⟩ := r
      cases state with
      | replied message escalate needsRework process overdue ladder => cases ladder <;> rfl
      | _ => rfl
  | windDown =>
    unfold applyFiring
    dsimp only
    cases timerSlot timer with
    | none => rfl
    | some slot => exact st.modifyRecord_shift slot fun r => r.startReplyStop_shift now st.withdrawn
  | _ => rfl

/-- **The body of an input** does the same to a moved state. -/
theorem applyBody_shift (input : Event) :
    applyBody (st.shift d) (input.shift d) = (applyBody st input).shift d := by
  obtain ⟨seq, now, key, body⟩ := input
  cases body with
  | delivered message =>
    unfold applyBody
    rw [deliveryKey_shift]
    simp only [Event.shift, EventBody.shift]
    cases deliveryKey ⟨seq, now, key, .delivered message⟩ <;> rfl
  | nudged key =>
    unfold applyBody
    simp only [Event.shift, EventBody.shift, RunState.find_shift]
    cases st.find key with
    | none => rfl
    | some i =>
      refine st.modifySlot_shift i fun r => ?_
      obtain ⟨slot, state⟩ := r
      cases state <;> rfl
  | stopSignalled key nth signal =>
    unfold applyBody
    simp only [Event.shift, EventBody.shift, RunState.find_shift]
    cases st.find key with
    | none => rfl
    | some i => exact st.modifySlot_shift i SlotRecord.applySignal_shift
  | sessionFact key fact =>
    unfold applyBody
    simp only [Event.shift, EventBody.shift, RunState.find_shift]
    cases st.find key with
    | none => rfl
    | some i =>
      refine st.modifySlot_shift i fun r => ?_
      rw [RunState.isSuperseded_shift]
      exact r.applyFact_shift (st.isSuperseded r) st.withdrawn now fact
  | reply key message escalate needsRework =>
    unfold applyBody
    simp only [Event.shift, EventBody.shift, RunState.find_shift]
    cases st.find key with
    | none => rfl
    | some i => exact st.modifySlot_shift i fun r => rfl
  | answer question disposition message => exact applyAnswer_shift st question disposition message
  | resume slot =>
    unfold applyBody
    simp only [Event.shift, EventBody.shift, resumeTarget_shift]
    cases resumeTarget st slot with
    | none => rfl
    | some i => exact st.modifySlot_shift i SlotRecord.applyResume_shift
  | withdrawn message «by» =>
    unfold applyBody
    have hslots : (st.slots.map (SlotRecord.shift d)).map SlotRecord.applyWithdrawn =
        (st.slots.map SlotRecord.applyWithdrawn).map (SlotRecord.shift d) := by
      rw [List.map_map, List.map_map]
      exact List.map_congr_left fun r _ => r.applyWithdrawn_shift
    simp only [Event.shift, EventBody.shift, RunState.slots_shift, hslots]
    rfl
  | timerFired timer fireAt =>
    let fired : RunState := { st with timers := st.timers.erase timer }
    have hfired : ({ st.shift d with timers := (st.shift d).timers.erase timer } : RunState) =
        fired.shift d := by
      show ({ st.shift d with
        timers := (st.timers.mapValues (ArmedTimer.shift d)).erase timer } : RunState) = _
      rw [KeyMap.erase_mapValues]
      rfl
    unfold applyBody
    simp only [Event.shift, EventBody.shift, isDeferred_shift]
    rw [hfired, RunState.timers_shift, KeyMap.get_mapValues]
    cases st.timers.get timer with
    | none => rfl
    | some armed =>
      simp only [Option.map_some]
      split_ifs
      · rfl
      · exact applyFiring_shift fired timer armed.purpose now
  | _ => rfl

/-- **An input** does the same to a moved state. -/
theorem applyInput_shift (input : Event) :
    applyInput (st.shift d) (input.shift d) = (applyInput st input).shift d := by
  unfold applyInput
  rw [ignoredReason_shift, applyBody_shift]
  split_ifs <;> rfl

/-! ## Decisions -/

@[simp] theorem memberReply_shift (step : StepId) (visit : Nat) (member : Handle) :
    memberReply (st.shift d) step visit member = memberReply st step visit member := by
  unfold memberReply
  rw [RunState.latest_shift, Option.bind_map]
  refine congrArg (Option.bind _) (funext fun r => ?_)
  obtain ⟨slot, state⟩ := r
  cases state <;> rfl

@[simp] theorem firstTurn_shift (step : StepId) (member : Handle) (visit : Nat)
    (cause : Option StartCause) :
    firstTurn (st.shift d) step member visit cause = firstTurn st step member visit cause := by
  have hsynthesis : synthesisTurn (st.shift d) step visit = synthesisTurn st step visit := by
    have hreply : memberReply (st.shift d) step visit = memberReply st step visit :=
      funext fun member => memberReply_shift st step visit member
    unfold synthesisTurn
    rw [hreply]
    rfl
  have hverdict : (st.shift d).verdictOf = st.verdictOf :=
    funext fun step => RunState.verdictOf_shift st step
  unfold firstTurn
  rw [hsynthesis, hverdict]
  rfl

theorem spendAttempt_shift (r prior : SlotRecord) (cause : Option StartCause)
    (declaredResume : Bool) : spendAttempt (r.shift d) (prior.shift d) cause declaredResume =
      (spendAttempt r prior cause declaredResume).shift d := by
  obtain ⟨slot, state⟩ := prior
  cases state with
  | ended ending =>
    cases cause with
    | none =>
      unfold spendAttempt
      simp only [SlotRecord.shift, SlotState.shift, isHold_shift]
      have hcomplete : ending.shift d = .turnComplete ↔ ending = .turnComplete := by
        cases ending <;> simp [EndCause.shift]
      simp only [hcomplete]
      split_ifs <;> rfl
    | some cause =>
      have hcomplete : ending.shift d = .turnComplete ↔ ending = .turnComplete := by
        cases ending <;> simp [EndCause.shift]
      cases cause with
      | answer message => rfl
      | _ =>
        unfold spendAttempt
        simp only [SlotRecord.shift, SlotState.shift, isHold_shift, hcomplete]
        split_ifs <;> rfl
  | _ =>
    cases cause with
    | none => rfl
    | some cause => cases cause <;> rfl

theorem nextAttempt_shift (r prior : SlotRecord) (cause : Option StartCause)
    (declaredResume : Bool) : nextAttempt (r.shift d) (prior.shift d) cause declaredResume =
      (nextAttempt r prior cause declaredResume).shift d := by
  have hfresh : (prior.shift d).fresh = prior.fresh := rfl
  unfold nextAttempt
  rw [spendAttempt_shift, hfresh]
  cases prior.fresh <;> rfl

theorem newRecord_shift (step : StepId) (visit attempt : Nat) (member : Handle)
    (cause : Option StartCause) (now : Timestamp) :
    newRecord (st.shift d) step visit attempt member cause (now + d) =
      (newRecord st step visit attempt member cause now).shift d := by
  unfold newRecord
  rw [RunState.latest_shift, firstTurn_shift]
  cases st.latest step visit member with
  | none => rfl
  | some prior =>
    exact nextAttempt_shift (freshRecord ⟨step, visit, member, attempt⟩ _ now) prior cause _

theorem startMembers_shift (step : StepId) (visit attempt : Nat) (cause : Option StartCause)
    (now : Timestamp) (members : List Handle) :
    members.foldl (startMember step visit attempt cause (now + d)) (st.shift d) =
      (members.foldl (startMember step visit attempt cause now) st).shift d := by
  induction members generalizing st with
  | nil => rfl
  | cons member members ih =>
    have hstart : startMember step visit attempt cause (now + d) (st.shift d) member =
        (startMember step visit attempt cause now st member).shift d := by
      unfold startMember
      rw [newRecord_shift, RunState.slots_shift]
      unfold RunState.shift
      simp only [List.map_append, List.map_cons, List.map_nil]
    rw [List.foldl_cons, List.foldl_cons, hstart]
    exact ih _

theorem openCall_shift (s : SlotState) : (s.shift d).openCall = s.openCall.map (· + d) := by
  cases s <;> rfl

theorem SlotRecord.armStart_shift (r : SlotRecord) (deadline : Timestamp) :
    (r.shift d).armStart (deadline + d) = (r.armStart deadline).shift d := by
  obtain ⟨slot, state⟩ := r
  cases state <;> rfl

theorem SlotRecord.finish_shift (r : SlotRecord) (forced : Bool) (now : Timestamp) :
    (r.shift d).finish forced (now + d) = (r.finish forced now).shift d := by
  obtain ⟨slot, state⟩ := r
  cases state <;> rfl

theorem armStart_shift (timer : Text) (deadline : Timestamp) :
    armStart (st.shift d) timer (deadline + d) = (armStart st timer deadline).shift d := by
  unfold armStart
  cases timerSlot timer with
  | none => rfl
  | some slot => exact st.modifyRecord_shift slot fun r => r.armStart_shift deadline

/-- **A decision** does the same to a moved state. -/
theorem applyDecision_shift (decision : Decision) (now : Timestamp) :
    applyDecision (st.shift d) (decision.shift d) (now + d) =
      (applyDecision st decision now).shift d := by
  cases decision with
  | stepStarted step visit attempt members =>
    unfold applyDecision
    simp only [Decision.shift]
    unfold applyStepStarted
    refine Eq.trans ?_ (startMembers_shift _ step visit attempt st.pendingStart now members)
    rfl
  | stepFinished step visit outcome =>
    show ({ st.shift d with finishedSteps := st.finishedSteps.map (FinishedStep.shift d) ++ _ } :
      RunState) = RunState.shift d { st with finishedSteps := st.finishedSteps ++ _ }
    unfold RunState.shift
    simp only [List.map_append, List.map_cons, List.map_nil]
    rfl
  | rework «from» «to» declaring pass =>
    let passed : RunState := { st with passes := st.passes.insert declaring.text pass }
    exact congrArg (fun verdict => { passed.shift d with
      pendingStart := Option.map StartCause.rework verdict }) (passed.verdictOf_shift from.text)
  | escalated question slot message =>
    show ({ st.shift d with questions := st.questions.map (Question.shift d) ++ _ } : RunState) =
      RunState.shift d { st with questions := st.questions ++ _ }
    unfold RunState.shift
    simp only [List.map_append, List.map_cons, List.map_nil]
    rfl
  | ceiling question step pass lastVerdict =>
    show ({ st.shift d with questions := st.questions.map (Question.shift d) ++ _ } : RunState) =
      RunState.shift d { st with questions := st.questions ++ _ }
    unfold RunState.shift
    simp only [List.map_append, List.map_cons, List.map_nil]
    rfl
  | timerSet timer fireAt purpose =>
    let armed : RunState := { st with timers := st.timers.insert timer ⟨fireAt, purpose⟩ }
    have harmed : ({ st.shift d with
        timers := (st.shift d).timers.insert timer ⟨fireAt + d, purpose⟩ } : RunState) =
        armed.shift d := by
      have hinsert := KeyMap.insert_mapValues (ArmedTimer.shift d) st.timers timer ⟨fireAt, purpose⟩
      exact congrArg (fun timers => { st.shift d with timers }) hinsert
    unfold applyDecision
    simp only [Decision.shift]
    rw [harmed]
    split_ifs
    · exact armStart_shift armed timer fireAt
    · rfl
  | timerCleared timer =>
    show ({ st.shift d with
      timers := (st.timers.mapValues (ArmedTimer.shift d)).erase timer } : RunState) = _
    rw [KeyMap.erase_mapValues]
    rfl
  | liveness slot reason since =>
    refine st.modifyRecord_shift slot fun r => ?_
    rw [SlotRecord.state_shift, openCall_shift]
    split_ifs <;> rfl
  | held slot reason «until» resetsAt =>
    refine (takeOrder st).modifyRecord_shift slot fun r => ?_
    rw [Option.isNone_map]
    rfl
  | parked slot reason =>
    cases slot with
    | none => rfl
    | some slot => exact (takeOrder st).modifyRecord_shift slot fun r => rfl
  | finishing outcome reason =>
    have hslots : (st.slots.map (SlotRecord.shift d)).map
        (fun r => r.finish st.withdrawn (now + d)) =
        (st.slots.map fun r => r.finish st.withdrawn now).map (SlotRecord.shift d) := by
      rw [List.map_map, List.map_map]
      exact List.map_congr_left fun r _ => r.finish_shift st.withdrawn now
    show applyFinishing _ outcome reason (now + d) = _
    unfold applyFinishing
    rw [RunState.slots_shift]
    exact congrArg (fun slots => { st.shift d with
      phase := .finishing outcome reason .unparked, condition := none, treeCancelOwed := false,
      slots }) hslots
  | _ => rfl

/-- Decisions folded one after another do the same to a moved state. -/
theorem foldDecisions_shift (now : Timestamp) (ds : List Decision) :
    foldDecisions (st.shift d) (now + d) (ds.map (Decision.shift d)) =
      (foldDecisions st now ds).shift d := by
  induction ds generalizing st with
  | nil => rfl
  | cons decision ds ih =>
    unfold foldDecisions at ih ⊢
    rw [List.map_cons, List.foldl_cons, List.foldl_cons, applyDecision_shift]
    exact ih _

end NexusFlow.Run
