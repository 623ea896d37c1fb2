import NexusFlow.Run.Effects

/-!
# Which inputs change nothing

Model of `crates/run-engine/src/guard.rs`. `decide` answers an input that `ignoredReason` names a
reason for with one `ignored`, and folding such an input changes no state: both ask here.
-/

namespace NexusFlow.Run

/-- `DELIVERED_PREFIX`. -/
def deliveredPrefix : Text := "delivered/".toList

/-- `delivered_key`: the key a host enqueues a `delivered` input under. -/
def deliveredKey (effectKey : Key) : Key := deliveredPrefix ++ effectKey

/-- `delivery_key`: the key of the effect a `delivered` input records. -/
def deliveryKey (input : Event) : Option Key :=
  if deliveredPrefix <+: input.key then some (input.key.drop deliveredPrefix.length) else none

/-- `is_permanent`: a refusal no retry can clear. -/
def isPermanent : TreeRefusal → Bool
  | .notARepository | .foreignDirectory | .unknown => true
  | .midSequence | .git => false

/-- `is_hold`: the end causes that are a hold rather than a failure. -/
def isHold : EndCause → Bool
  | .usageLimit _ | .providerUnavailable => true
  | _ => false

/-- The timers `is_deferred` calls destructive. -/
def TimerPurpose.isDestructive : TimerPurpose → Bool
  | .startDeadline | .confirm | .stopGrace | .windDown | .treeWindow | .rootDeadline => true
  | .quiet | .subprocessIdle | .callBound | .holdRetry => false

/-- `is_deferred`: whether this destructive timer fired so far past its instant that it is put
off by `wake_jump`. -/
def isDeferred (st : RunState) (timer : Text) (fireAt now : Timestamp) : Bool :=
  match st.timers.get timer with
  | none => false
  | some armed => armed.purpose.isDestructive && decide (millis st.policy.wakeJump < now - fireAt)

/-- Whether the record at `i` holds a condition a `resume` can act on. -/
def isCurrentCondition (st : RunState) (i : Nat) : Bool :=
  (st.slots[i]?).any fun r => r.condition.isSome && !st.isSuperseded r

/-- The age of the condition on the record at `i`. -/
def conditionOrder (st : RunState) (i : Nat) : Nat :=
  ((st.slots[i]?.bind SlotRecord.condition).map SlotCondition.order).getD 0

/-- `resume_target`: the named slot's condition, or without one the oldest there is. -/
def resumeTarget (st : RunState) : Option Slot → Option Nat
  | some slot => (st.findSlot slot).filter (isCurrentCondition st)
  | none =>
    minByKey (conditionOrder st) ((List.range st.slots.length).filter (isCurrentCondition st))

/-- `out_of_state(applies)`. -/
def outOfState (applies : Bool) : Option ReasonCode := if applies then none else some .outOfState

/-- `fact_ignored`. -/
def factIgnored (st : RunState) (r : SlotRecord) : SessionFact → Option ReasonCode
  | .started _ =>
    outOfState (match r.state with
      | .starting _ | .stopping _ _ => true
      | .ended _ => st.isSuperseded r
      | _ => false)
  | .heartbeat _ =>
    outOfState (match r.state with
      | .running _ _ | .quiet _ _ | .nudged _ _ => true
      | _ => false)
  | .usage | .permissionRefused _ _ => none
  | .groupLingering _ => outOfState r.state.isLive
  | .ended _ =>
    match r.state with
    | .ended _ => some .finalState
    | .pending => some .outOfState
    | .replied _ _ _ .ended _ _ => some .finalState
    | _ => none
  | .unknown => some .outOfState

/-- `reply_ignored`. -/
def replyIgnored (st : RunState) (r : SlotRecord) : Option ReasonCode :=
  if r.state.isReplied then some .duplicateReply
  else if st.isSuperseded r then some .lateReplyAfterSkip
  else if st.isFinishing then some .alreadyFinishing
  else
    match r.state with
    | .ended _ => some .finalState
    | .stopping _ _ => some .lateReplyAfterSkip
    | .pending => some .outOfState
    | _ => none

/-- Whether an answer with this disposition is one the question takes: `accept` at a ceiling only,
and an unknown one never. -/
def Question.takes (q : Question) : Disposition → Bool
  | .continue => true
  | .accept =>
    match q.asked with
    | .escalation _ _ => false
    | .ceiling _ _ _ => true
  | .unknown _ => false

/-- `ignored_reason`: why this input changes nothing, or `none` when it is to be acted on. -/
def ignoredReason (st : RunState) (input : Event) : Option ReasonCode :=
  if st.isFinished then some .finalState
  else
    let finishing : Option ReasonCode := if st.isFinishing then some .alreadyFinishing else none
    match input.body with
    | .commissioned .. => outOfState !st.commissioned
    | .rootOpened _ _ =>
      outOfState (st.rootMessage.isNone && (match st.phase with
        | .created | .finishing _ _ _ => true
        | _ => false))
    | .claimTaken =>
      finishing.or (outOfState (match st.phase with
        | .queued _ => true
        | _ => false))
    | .claimBusy holder =>
      finishing.or (outOfState (match st.phase with
        | .queued behind => behind != some holder
        | _ => false))
    | .claimReleased => outOfState (readyToRelease st)
    | .treePrepared _ _ | .treeRefused _ =>
      finishing.or (outOfState (decide (st.phase = .running .unprepared)))
    | .treeParked _ =>
      outOfState (match st.phase with
        | .finishing _ _ .unparked => true
        | _ => false)
    | .delivered _ =>
      outOfState ((deliveryKey input).any fun key =>
        (owedDeliveries st).any fun owed => owed.1 == key)
    | .nudged key =>
      match st.recordAt (st.find key) with
      | none => some .unknownSession
      | some r =>
        outOfState (match r.state with
          | .quiet _ _ => true
          | _ => false)
    | .stopSignalled key nth _ =>
      match st.recordAt (st.find key) with
      | none => some .unknownSession
      | some r => outOfState (r.state.ladder.any fun l => nth == l.total + 1)
    | .sessionFact key fact =>
      match st.recordAt (st.find key) with
      | none => some .unknownSession
      | some r => factIgnored st r fact
    | .reply key _ _ _ =>
      match st.recordAt (st.find key) with
      | none => some .unknownSession
      | some r => replyIgnored st r
    | .answer question disposition _ =>
      finishing.or (outOfState (st.openQuestions.any fun q =>
        q.id == question && q.takes disposition))
    | .resume slot => finishing.or (outOfState (resumeTarget st slot).isSome)
    | .resumeRun => finishing.or (outOfState st.condition.isSome)
    | .withdrawn _ _ =>
      let openStop := st.slots.any fun r => r.state.ladder.any fun l => !l.forced
      if st.isFinishing && !openStop then some .alreadyFinishing else none
    | .timerFired timer fireAt =>
      if (st.timers.get timer).map ArmedTimer.fireAt = some fireAt then none
      else some .staleTimer
    | .decision _ | .unknown => some .outOfState

end NexusFlow.Run
