import NexusFlow.Run.Runs

/-!
# The way out of a run

Finishing (`finishing_effects`, `ready_to_release`, `withdrawn` and `finished`): stops, then the
park, then the deliveries, then the release. `Exits` is one turn of the loop a host drives a
finishing run with, "answer the first pending effect; if none is owed, report the end of some live
slot", and `toGo` counts what is left of it. `exits_toGo` shows that every turn is accepted and takes
from the count, `exits_exists` that there is a turn while the run is not finished.
-/

namespace NexusFlow.Run

open NexusFlow.Lib

variable {st st' : RunState} {input : Event}

/-! ## How a run's phase moves -/

/-- **Where an accepted input takes the phase**: out of a run that goes on only by finishing, and
from there by the park to the release. -/
inductive PhaseMove (st st' : RunState) : Prop
  | goesOn (h : st'.isOver = false)
  | finishing (o : Outcome) (reason : Option ReasonCode) (hover : st.isOver = false)
      (h : st'.phase = .finishing o reason .unparked)
  | keeps (h : st'.phase = st.phase) (hparked : st'.parked = st.parked)
  | parks (o : Outcome) (reason : Option ReasonCode) (park : ParkOutcome)
      (hphase : st.phase = .finishing o reason .unparked)
      (h : st'.phase = .finishing o reason (.parked park)) (hparked : st'.parked = some park)
  | releases (o : Outcome) (reason : Option ReasonCode) (tree : ParkPhase)
      (hphase : st.phase = .finishing o reason tree) (hready : readyToRelease st = true)
      (h : st' = { st with phase := .finished o reason, timers := .empty })

theorem Transition.phase (ht : Transition st input st') (hacc : ignoredReason st input = none) :
    PhaseMove st st' := by
  cases ht with
  | run hm =>
    cases hm with
    | commissioned _ _ => exact .keeps rfl rfl
    | rootOpened _ _ _ => exact .goesOn rfl
    | rootOpenedLate _ _ _ => exact .keeps rfl rfl
    | claimBusy _ _ => exact .goesOn rfl
    | released _ hphase hready => exact .releases _ _ _ hphase hready rfl
    | treeParked _ hphase => exact .parks _ _ _ hphase rfl rfl
    | delivered _ _ _ => exact .keeps rfl rfl
    | attended _ hsteady _ _ _ =>
      exact .keeps (steady_keeps hsteady RunState.phase fun _ => rfl)
        (steady_keeps hsteady RunState.parked fun _ => rfl)
  | claimed _ hphase _ hbegins _ =>
    have hover : ({ st with claimSince := some input.now } : RunState).isOver = false := by
      unfold RunState.isOver RunState.isFinishing RunState.isFinished
      rw [show ({ st with claimSince := some input.now } : RunState).phase = _ from hphase]
      rfl
    exact .goesOn (hbegins.isOver hover)
  | prepared _ _ harms _ =>
    refine .goesOn (isOver_running (t := .prepared) ?_)
    exact harms.keeps RunState.phase fun _ _ _ => rfl
  | slot _ hland _ =>
    exact .keeps hland.replaces.phase_eq (hland.replaces.keeps RunState.parked fun _ => rfl)
  | @ended r g cause mid st' hb hmove hland hlive hj hafter =>
    have hmid := hland.replaces.phase_eq
    have hpark := hland.replaces.keeps RunState.parked fun _ => rfl
    split at hafter
    · rw [hafter]
      exact .keeps hmid hpark
    · rename_i hfin
      have hover : mid.isOver = false := by
        rw [hland.replaces.isOver_eq]
        exact isOver_eq_false (by simpa using hfin) (accepted_not_finished hacc)
      cases hafter with
      | isOver _ harms _ =>
        refine .goesOn ?_
        rw [harms.keeps RunState.isOver fun _ _ _ => rfl]
        exact hover
      | restart _ _ _ hre => exact .goesOn (hre.isOver hover)
      | park _ _ hp => exact .goesOn (hp.replaces.isOver_eq.trans hover)
      | hold _ _ _ _ hp _ => exact .goesOn (hp.replaces.isOver_eq.trans hover)
  | @replied r r' g m esc rew mid asked st' hb hr' hw hmove hland hasked hcoh hafter =>
    have hstart : st.isOver = false := isOver_eq_false (accepted_reply hacc hb).choose_spec.2.2
      (accepted_not_finished hacc)
    have hover : asked.isOver = false := by
      have hmid : mid.isOver = false := hland.replaces.isOver_eq.trans hstart
      rw [hasked]
      split
      · exact hmid
      · exact hmid
    cases hafter with
    | elsewhere _ => exact .goesOn hover
    | waits _ _ _ => exact .goesOn hover
    | consolidates _ _ _ _ _ hs => exact .goesOn (hs.isOver hover)
    | waitsSynthesis _ _ _ _ _ _ => exact .goesOn hover
    | @done _ replies _ _ _ _ _ hf =>
      generalize replies.any id = needsRework at hf
      cases hf with
      | rework _ _ hre =>
        obtain ⟨d', -, hb⟩ := hre
        exact .goesOn (hb.isOver hover)
      | ceiling _ _ _ => exact .goesOn hover
      | next _ _ _ hb => exact .goesOn (hb.isOver hover)
      | last _ _ => exact .finishing _ _ hstart rfl
  | resumed _ _ _ _ hland hj hre => exact .goesOn (hre.isOver hj.isOver)
  | retried _ _ _ _ hover _ hland _ hre =>
    exact .goesOn (hre.isOver (hland.replaces.isOver_eq.trans hover))
  | answered _ _ _ _ _ _ _ hfin _ hre =>
    have hover : st.isOver = false := isOver_eq_false hfin (accepted_not_finished hacc)
    exact .goesOn (hre.isOver hover)
  | continued _ _ _ _ _ _ hfin _ hre =>
    have hover : st.isOver = false := isOver_eq_false hfin (accepted_not_finished hacc)
    obtain ⟨d', -, hb⟩ := hre
    exact .goesOn (hb.isOver hover)
  | acceptedNext _ _ _ _ _ _ _ hfin _ hb =>
    have hover : st.isOver = false := isOver_eq_false hfin (accepted_not_finished hacc)
    exact .goesOn (hb.isOver hover)
  | acceptedLast _ _ _ _ _ _ hfin _ =>
    exact .finishing _ _ (isOver_eq_false hfin (accepted_not_finished hacc)) rfl
  | withdrawn _ hfin _ =>
    exact .finishing _ _ (isOver_eq_false hfin (accepted_not_finished hacc)) rfl
  | forced _ _ _ => exact .keeps rfl rfl

/-! ## What a finished run has behind it -/

/-- The keys of the deliveries a park leaves owed. -/
def deliveryKeys (run : RunId) (outcome : Outcome) (parked : ParkOutcome) : List Key :=
  let notice : List Key := match outcome, parked with
    | .withdrawn, _ => []
    | _, .committed _ _ | _, .onOwnBranch _ _ => ["park/".toList ++ run]
    | _, _ => []
  ("result/".toList ++ run) :: notice

theorem resultDeliveries_keys (st : RunState) (o : Outcome) (p : ParkOutcome) :
    (resultDeliveries st o p).map Prod.fst = deliveryKeys st.run o p := by
  unfold resultDeliveries deliveryKeys
  cases o <;> cases p <;> rfl

theorem owedDeliveries_keys {o : Outcome} {reason : Option ReasonCode} {p : ParkOutcome}
    (hphase : st.phase = .finishing o reason (.parked p)) :
    (owedDeliveries st).map Prod.fst = if st.rootMessage.isNone then []
      else (deliveryKeys st.run o p).filter fun k => !st.delivered.contains k := by
  unfold owedDeliveries
  split
  · rfl
  · simp only [hphase]
    rw [← resultDeliveries_keys, List.filter_map]
    rfl

/-- **What a finished run has behind it.** -/
structure Settled (st : RunState) (o : Outcome) : Prop where
  noneLive : st.anyLive = false
  noTimer : st.timers = .empty
  parked : ∃ p, st.parked = some p ∧
    (st.rootMessage.isSome = true → ∀ key ∈ deliveryKeys st.run o p, key ∈ st.delivered)

theorem settled_of_ready {o : Outcome} {reason : Option ReasonCode}
    (hpark : ∀ o reason p, st.phase = .finishing o reason (.parked p) → st.parked = some p)
    {tree : ParkPhase} (hphase : st.phase = .finishing o reason tree)
    (hready : readyToRelease st = true) :
    Settled { st with phase := .finished o reason, timers := .empty } o := by
  obtain ⟨o', reason', p, hphase', hlive, howed⟩ := readyToRelease_spec hready
  rw [hphase] at hphase'
  cases hphase'
  refine ⟨hlive, rfl, p, hpark _ _ _ hphase, fun hroot key hkey => ?_⟩
  have hkeys := owedDeliveries_keys hphase
  rw [howed, if_neg (by rw [Option.isNone_iff_eq_none]; exact Option.isSome_iff_ne_none.mp hroot)]
    at hkeys
  have := List.filter_eq_nil_iff.mp hkeys.symm key hkey
  simpa using this

/-- The park is recorded where the phase says so, and a finished run is settled. -/
theorem Reaches.settled {run : RunId} {flow : FlowDef} {log : List Entry} (hwf : flow.WF)
    (h : Reaches run flow log st) :
    (∀ o reason p, st.phase = .finishing o reason (.parked p) → st.parked = some p) ∧
      ∀ o reason, st.phase = .finished o reason → Settled st o := by
  refine Reaches.induct hwf (P := fun _ st =>
    (∀ o reason p, st.phase = .finishing o reason (.parked p) → st.parked = some p) ∧
      ∀ o reason, st.phase = .finished o reason → Settled st o) ?_ ?_ ?_ ?_ h
  · have hphase : (RunState.initial run flow).phase = .created := rfl
    rw [hphase]
    exact ⟨fun _ _ _ h => (by cases h), fun _ _ h => (by cases h)⟩
  · exact fun _ _ _ _ _ hP _ => hP
  · intro _ st now _ _ hP
    rw [Item.apply_poison]
    exact ⟨hP.1, fun o reason hphase => ⟨(hP.2 o reason hphase).noneLive,
      (hP.2 o reason hphase).noTimer, (hP.2 o reason hphase).parked⟩⟩
  · intro _ st input st' _ _ _ hP hacc _ ht
    have hnot : ∀ o reason, st.phase ≠ .finished o reason := by
      intro o reason hphase
      have := accepted_not_finished hacc
      unfold RunState.isFinished at this
      rw [hphase] at this
      cases this
    cases ht.phase hacc with
    | goesOn hover =>
      unfold RunState.isOver RunState.isFinishing RunState.isFinished at hover
      constructor
      · intro o reason p hphase
        rw [hphase] at hover
        cases hover
      · intro o reason hphase
        rw [hphase] at hover
        cases hover
    | finishing o reason hover hphase =>
      rw [hphase]
      exact ⟨fun _ _ _ h => (by cases h), fun _ _ h => (by cases h)⟩
    | keeps hphase hparked =>
      rw [hphase, hparked]
      exact ⟨hP.1, fun o reason hp => absurd hp (hnot o reason)⟩
    | parks o reason park hphase hphase' hparked =>
      rw [hphase', hparked]
      constructor
      · intro _ _ _ heq
        cases heq
        rfl
      · exact fun _ _ h => (by cases h)
    | releases o reason tree hphase hready heq =>
      subst heq
      constructor
      · exact fun _ _ _ h => (by cases h)
      · intro _ _ heq
        cases heq
        exact settled_of_ready hP.1 hphase hready

/-! ## One turn of the loop -/

/-- The input that reports an effect a finishing run owes. -/
inductive Answers : Effect → Event → Prop
  | signalled {key : SessionKey} {kind : StopKind} {nth : Nat} {input : Event}
      (h : input.body = .stopSignalled key nth kind) : Answers (.stopSession key kind nth) input
  | parked {workspace : String} {occasion : Outcome} {outcome : ParkOutcome} {input : Event}
      (h : input.body = .treeParked outcome) : Answers (.parkTree workspace occasion) input
  | delivered {thread message : MessageId} {body : DeliverBody} {key : Key} {input : Event}
      (h : input.body = .delivered message) (hkey : input.key = deliveredKey key) :
      Answers (.deliver thread body key) input
  | released {workspace : String} {input : Event} (h : input.body = .claimReleased) :
      Answers (.releaseClaim workspace) input

/-- **One turn of the loop**: the first pending effect is answered; if none is owed, some live slot
is reported ended. -/
inductive Exits (st : RunState) (input : Event) : Prop
  | answer {effect : Effect} {rest : List Effect} (h : pendingEffects st = effect :: rest)
      (ha : Answers effect input)
  | ended {r : SlotRecord} {cause : EndCause} (h : pendingEffects st = []) (hr : r ∈ st.slots)
      (hlive : r.state.isLive = true)
      (hb : input.body = .sessionFact (st.sessionKey r.slot) (.ended cause))

/-- A run of the loop. -/
inductive Exiting : RunState → List Event → RunState → Prop
  | nil (st : RunState) : Exiting st [] st
  | cons {st st' : RunState} {input : Event} {inputs : List Event} (hfin : st.isFinishing = true)
      (h : Exits st input) (ht : Exiting (step st input) inputs st') :
      Exiting st (input :: inputs) st'

/-! ## What is left of the loop -/

/-- The signals a live slot may still be owed, and its end. -/
def SlotRecord.toGo (r : SlotRecord) : Nat :=
  if r.state.isLive then 1 + (r.state.ladder.elim 0 fun l => 3 - l.signalsSent) else 0

/-- The turns left to a finishing run. -/
def RunState.toGo (st : RunState) : Nat :=
  match st.phase with
  | .finishing _ _ .unparked => (st.slots.map SlotRecord.toGo).sum + 4
  | .finishing _ _ (.parked _) =>
    (st.slots.map SlotRecord.toGo).sum + (owedDeliveries st).length + 1
  | _ => 0

theorem RunState.toGo_parked {o : Outcome} {reason : Option ReasonCode} {p : ParkOutcome}
    (hphase : st.phase = .finishing o reason (.parked p)) :
    st.toGo = (st.slots.map SlotRecord.toGo).sum + (owedDeliveries st).length + 1 := by
  unfold RunState.toGo
  rw [hphase]

theorem SlotRecord.toGo_le (r : SlotRecord) :
    r.toGo ≤ if r.state.isLive then 4 else 0 := by
  unfold SlotRecord.toGo
  split
  · cases r.state.ladder with
    | none => exact (by decide : 1 + 0 ≤ 4)
    | some l =>
      show 1 + (3 - l.signalsSent) ≤ 4
      omega
  · exact le_refl _

theorem deliveryKeys_length (run : RunId) (o : Outcome) (p : ParkOutcome) :
    (deliveryKeys run o p).length ≤ 2 := by
  unfold deliveryKeys
  cases o <;> cases p <;> simp

theorem owedDeliveries_length {o : Outcome} {reason : Option ReasonCode} {p : ParkOutcome}
    (hphase : st.phase = .finishing o reason (.parked p)) : (owedDeliveries st).length ≤ 2 := by
  rw [← List.length_map Prod.fst, owedDeliveries_keys hphase]
  split
  · exact Nat.zero_le _
  · exact (List.length_filter_le _ _).trans (deliveryKeys_length _ _ _)

/-- Four turns for each live slot, then the park, two deliveries and the release. -/
theorem RunState.toGo_le (st : RunState) :
    st.toGo ≤ 4 * (st.slots.filter fun r => r.state.isLive).length + 4 := by
  have hsum : ∀ slots : List SlotRecord, (slots.map SlotRecord.toGo).sum
      ≤ 4 * (slots.filter fun r => r.state.isLive).length := by
    intro slots
    induction slots with
    | nil => exact le_refl _
    | cons r slots ih =>
      have hr := r.toGo_le
      rw [List.map_cons, List.sum_cons, List.filter_cons]
      split at hr
      · rename_i hlive
        rw [if_pos hlive, List.length_cons]
        omega
      · rename_i hlive
        rw [if_neg hlive]
        omega
  have := hsum st.slots
  unfold RunState.toGo
  split
  · omega
  · rename_i hphase
    have := owedDeliveries_length hphase
    omega
  · omega

/-- One record replaced changes a sum by what it weighs. -/
theorem sum_replace {slots : List SlotRecord} {r r' : SlotRecord} (w : SlotRecord → Nat)
    (hnd : (slots.map SlotRecord.slot).Nodup) (hr : r ∈ slots) :
    ((slots.map fun x => if x.slot = r.slot then r' else x).map w).sum + w r
      = (slots.map w).sum + w r' := by
  induction slots with
  | nil => cases hr
  | cons x slots ih =>
    rw [List.map_cons, List.nodup_cons] at hnd
    rcases List.mem_cons.mp hr with rfl | hr
    · have hrest : (slots.map fun x => if x.slot = r.slot then r' else x) = slots := by
        conv_rhs => rw [← List.map_id slots]
        refine List.map_congr_left fun y hy => ?_
        have hne : y.slot ≠ r.slot := fun heq => hnd.1 (heq ▸ List.mem_map.mpr ⟨y, hy, rfl⟩)
        rw [if_neg hne]
        rfl
      rw [List.map_cons, if_pos rfl, hrest, List.map_cons, List.map_cons, List.sum_cons,
        List.sum_cons]
      omega
    · have hne : x.slot ≠ r.slot := fun heq => hnd.1 (heq ▸ List.mem_map.mpr ⟨r, hr, rfl⟩)
      have := ih hnd.2 hr
      rw [List.map_cons, if_neg hne, List.map_cons, List.map_cons, List.sum_cons, List.sum_cons]
      omega

/-- A lighter record makes what is left less. -/
theorem Replaces.toGo_lt {r r' : SlotRecord} (hrep : Replaces st st' r r') (hord : Ordered st.ids)
    (hfin : st.isFinishing = true) (hlt : r'.toGo < r.toGo) : st'.toGo < st.toGo := by
  have hsum := @sum_replace _ _ r' SlotRecord.toGo hord.nodup hrep.mem
  have hslots : st'.slots = st.slots.map fun x => if x.slot = r.slot then r' else x := hrep.slots_eq
  rw [← hslots] at hsum
  have hphase := hrep.phase_eq
  unfold RunState.toGo
  rw [hphase]
  cases hp : st.phase with
  | finishing o reason tree =>
    cases tree with
    | unparked =>
      simp only
      omega
    | parked p =>
      have howed : (owedDeliveries st').length = (owedDeliveries st).length := by
        have hkeys := congrArg List.length (owedDeliveries_keys hp)
        have hkeys' := congrArg List.length (owedDeliveries_keys (hphase.trans hp))
        rw [hrep.keeps RunState.run fun _ => rfl, hrep.keeps RunState.rootMessage fun _ => rfl,
          hrep.keeps RunState.delivered fun _ => rfl, ← hkeys] at hkeys'
        simpa only [List.length_map] using hkeys'
      simp only
      omega
  | _ =>
    unfold RunState.isFinishing at hfin
    rw [hp] at hfin
    cases hfin

/-! ## Every turn is accepted, and takes from what is left -/

theorem finishing_phase (hfin : st.isFinishing = true) :
    ∃ o reason tree, st.phase = .finishing o reason tree := by
  unfold RunState.isFinishing at hfin
  split at hfin
  · rename_i o reason tree hphase
    exact ⟨o, reason, tree, hphase⟩
  · cases hfin

theorem isFinished_of_finishing (hfin : st.isFinishing = true) : st.isFinished = false := by
  obtain ⟨o, reason, tree, hphase⟩ := finishing_phase hfin
  unfold RunState.isFinished
  rw [hphase]

/-- What a finishing run owes: stops while a slot is live, then the park, the deliveries and the
release, each once the one before is recorded. -/
theorem finishing_owes (hfin : st.isFinishing = true) {effect : Effect}
    (h : effect ∈ pendingEffects st) :
    (∃ r l kind, r ∈ st.slots ∧ r.state.ladder = some l ∧ l.owed = some kind ∧
      st.anyLive = true ∧ effect = .stopSession (st.sessionKey r.slot) kind (l.total + 1)) ∨
    (∃ o reason, st.phase = .finishing o reason .unparked ∧ st.anyLive = false ∧
      effect = .parkTree st.workspace o) ∨
    (∃ o reason p d, st.phase = .finishing o reason (.parked p) ∧ st.anyLive = false ∧
      d ∈ owedDeliveries st ∧ effect = .deliver (st.rootThread.getD "") d.2 d.1) ∨
    (readyToRelease st = true ∧ effect = .releaseClaim st.workspace) := by
  obtain ⟨o, reason, tree, hphase⟩ := finishing_phase hfin
  unfold pendingEffects at h
  simp only [hphase, finishingEffects] at h
  split at h
  · rename_i hlive
    left
    obtain ⟨r, hr, heff⟩ := List.mem_filterMap.mp h
    obtain ⟨l, hl, heff⟩ := Option.bind_eq_some_iff.mp heff
    obtain ⟨kind, hkind, rfl⟩ := Option.map_eq_some_iff.mp heff
    exact ⟨r, l, kind, hr, hl, hkind, hlive, rfl⟩
  rename_i hlive
  rw [Bool.not_eq_true] at hlive
  split at h
  · rename_i htree
    subst htree
    exact .inr (.inl ⟨o, reason, hphase, hlive, List.mem_singleton.mp h⟩)
  rename_i htree
  obtain ⟨p, rfl⟩ : ∃ p, tree = .parked p := by
    cases tree with
    | unparked => exact absurd rfl htree
    | parked p => exact ⟨p, rfl⟩
  split at h
  · obtain ⟨d, hd, rfl⟩ := List.mem_map.mp h
    exact .inr (.inr (.inl ⟨o, reason, p, d, hphase, hlive, hd, rfl⟩))
  · rename_i hnone
    refine .inr (.inr (.inr ⟨?_, List.mem_singleton.mp h⟩))
    have hempty : owedDeliveries st = [] := by
      simpa [deliverEffects] using hnone
    unfold readyToRelease
    rw [hphase]
    simp only [hlive, hempty]
    rfl

/-- A finishing run that owes nothing waits for a live slot. -/
theorem live_of_owes_nothing (hfin : st.isFinishing = true) (h : pendingEffects st = []) :
    st.anyLive = true := by
  obtain ⟨o, reason, tree, hphase⟩ := finishing_phase hfin
  by_contra hlive
  unfold pendingEffects at h
  simp only [hphase, finishingEffects, if_neg hlive] at h
  split at h
  · cases h
  · split at h
    · rename_i hne
      exact hne h
    · cases h

/-- The end of a live slot is always taken. -/
theorem ended_accepted (h : Coh st) (hopen : st.isFinished = false) {r : SlotRecord}
    (hr : r ∈ st.slots) (hlive : r.state.isLive = true) {cause : EndCause}
    (hb : input.body = .sessionFact (st.sessionKey r.slot) (.ended cause)) :
    ignoredReason st input = none := by
  have hfound : st.recordAt (st.find (st.sessionKey r.slot)) = some r :=
    (RunState.recordAt_find h.ordered).mpr ⟨hr, rfl⟩
  unfold ignoredReason
  simp only [hopen, Bool.false_eq_true, if_false, hb, hfound, factIgnored]
  cases hs : r.state with
  | replied m esc rew process overdue l =>
    cases process with
    | live => rfl
    | ended => rw [hs] at hlive; cases hlive
  | pending => rw [hs] at hlive; cases hlive
  | ended c => rw [hs] at hlive; cases hlive
  | _ => rfl

/-- So is the signal a ladder counts next. -/
theorem stopSignalled_accepted (h : Coh st) (hopen : st.isFinished = false) {r : SlotRecord}
    (hr : r ∈ st.slots) {l : Ladder} (hl : r.state.ladder = some l) {kind : StopKind}
    (hb : input.body = .stopSignalled (st.sessionKey r.slot) (l.total + 1) kind) :
    ignoredReason st input = none := by
  have hfound : st.recordAt (st.find (st.sessionKey r.slot)) = some r :=
    (RunState.recordAt_find h.ordered).mpr ⟨hr, rfl⟩
  unfold ignoredReason
  simp only [hopen, Bool.false_eq_true, if_false, hb, hfound, hl, Option.any_some, beq_self_eq_true]
  rfl

theorem delivered_accepted (hopen : st.isFinished = false) {m : MessageId} {key : Key}
    (hb : input.body = .delivered m) (hkey : input.key = deliveredKey key)
    (howed : ∃ d ∈ owedDeliveries st, d.1 = key) :
    ignoredReason st input = none ∧ deliveryKey input = some key := by
  have hdelivery : deliveryKey input = some key := by
    unfold deliveryKey deliveredKey at *
    rw [hkey, if_pos (List.prefix_append _ _), List.drop_left]
  refine ⟨?_, hdelivery⟩
  obtain ⟨d, hd, rfl⟩ := howed
  have hany : (owedDeliveries st).any (fun owed => owed.1 == d.1) = true :=
    List.any_eq_true.mpr ⟨d, hd, beq_self_eq_true _⟩
  unfold ignoredReason
  simp only [hopen, Bool.false_eq_true, if_false, hb, hdelivery, Option.any_some, hany]
  rfl

/-! ### The transitions of a turn -/

theorem Transition.signalled (ht : Transition st input st') {key : SessionKey} {nth : Nat}
    {signal : StopKind} (hb : input.body = .stopSignalled key nth signal) :
    ∃ r l g, st.sessionKey r.slot = key ∧ r.state.ladder = some l ∧ nth = l.total + 1 ∧
      Landed st st' r r.applySignal g := by
  cases ht with
  | run hm => cases hm <;> simp_all
  | slot hmove hland hsettles =>
    cases hmove with
    | signalled hb' hl hnth =>
      rw [hb] at hb'
      cases hb'
      exact ⟨_, _, _, rfl, hl, hnth, hland⟩
    | _ => simp_all
  | _ => simp_all

theorem Transition.ended_finishing (ht : Transition st input st') {key : SessionKey}
    {cause : EndCause} (hb : input.body = .sessionFact key (.ended cause))
    (hfin : st.isFinishing = true) :
    ∃ r g, st.sessionKey r.slot = key ∧ r.state.isLive = true ∧
      Landed st st' r (r.ended input.now cause) g := by
  cases ht with
  | run hm => cases hm <;> simp_all
  | slot hmove hland hsettles => exact absurd hb (hsettles.ended _ _)
  | ended hb' hmove hland hlive hj h =>
    rw [hb] at hb'
    cases hb'
    rw [if_pos hfin] at h
    subst h
    exact ⟨_, _, rfl, hlive, hland⟩
  | _ => simp_all

theorem Transition.treeParked (ht : Transition st input st') {outcome : ParkOutcome}
    (hb : input.body = .treeParked outcome) :
    ∃ o reason, st.phase = .finishing o reason .unparked ∧
      st' = { st with parked := some outcome, phase := .finishing o reason (.parked outcome) } := by
  cases ht with
  | run hm =>
    cases hm with
    | treeParked hb' hphase =>
      rw [hb] at hb'
      cases hb'
      exact ⟨_, _, hphase, rfl⟩
    | _ => simp_all
  | slot hmove _ _ => cases hmove <;> simp_all
  | _ => simp_all

theorem Transition.delivered (ht : Transition st input st') {m : MessageId} {key : Key}
    (hb : input.body = .delivered m) (hkey : deliveryKey input = some key) :
    st' = { st with
      delivered := if key ∈ st.delivered then st.delivered else key :: st.delivered } := by
  cases ht with
  | run hm =>
    cases hm with
    | delivered _ hkey' _ =>
      rw [hkey] at hkey'
      cases hkey'
      rfl
    | _ => simp_all
  | slot hmove _ _ => cases hmove <;> simp_all
  | _ => simp_all

theorem Transition.released (ht : Transition st input st') (hb : input.body = .claimReleased) :
    ∃ o reason tree, st.phase = .finishing o reason tree ∧ readyToRelease st = true ∧
      st' = { st with phase := .finished o reason, timers := .empty } := by
  cases ht with
  | run hm =>
    cases hm with
    | released _ hphase hready => exact ⟨_, _, _, hphase, hready, rfl⟩
    | _ => simp_all
  | slot hmove _ _ => cases hmove <;> simp_all
  | _ => simp_all

theorem SlotRecord.applySignal_toGo {r : SlotRecord} {l : Ladder} {kind : StopKind}
    (halive : r.state.isLive = true) (hl : r.state.ladder = some l)
    (howed : l.owed = some kind) : r.applySignal.toGo < r.toGo := by
  have hlive : r.applySignal.state.isLive = true := (SlotState.mapLadder_live _ _).trans halive
  have hladder := SlotRecord.applySignal_ladder hl
  have hsent : l.signalsSent ≤ 2 := by
    unfold Ladder.owed stopSignal at howed
    split at howed <;> first | omega | cases howed
  unfold SlotRecord.toGo
  rw [if_pos hlive, if_pos halive, hladder, hl]
  simp only [Option.elim_some]
  omega

theorem SlotRecord.ended_toGo {r : SlotRecord} (hlive : r.state.isLive = true) (now : Timestamp)
    (cause : EndCause) : (r.ended now cause).toGo < r.toGo := by
  have hended : (r.ended now cause).state.isLive = false := by
    unfold SlotRecord.ended SlotRecord.end'
    cases hs : r.state <;> rfl
  unfold SlotRecord.toGo
  rw [if_neg (by rw [hended]; exact Bool.false_ne_true), if_pos hlive]
  omega

/-- A delivery recorded is owed no more. -/
theorem owedDeliveries_delivered {o : Outcome} {reason : Option ReasonCode} {p : ParkOutcome}
    (hphase : st.phase = .finishing o reason (.parked p)) {d : Key × DeliverBody}
    (hd : d ∈ owedDeliveries st) :
    (owedDeliveries { st with delivered := if d.1 ∈ st.delivered then st.delivered
      else d.1 :: st.delivered }).length < (owedDeliveries st).length := by
  have hkeys := owedDeliveries_keys hphase
  have hkeys' := @owedDeliveries_keys { st with delivered := if d.1 ∈ st.delivered then
    st.delivered else d.1 :: st.delivered } _ _ _ hphase
  have hmem : d.1 ∈ (owedDeliveries st).map Prod.fst := List.mem_map.mpr ⟨d, hd, rfl⟩
  have hroot : st.rootMessage.isNone ≠ true := by
    intro hnone
    rw [hkeys, if_pos hnone] at hmem
    cases hmem
  rw [hkeys, if_neg hroot, List.mem_filter] at hmem
  have hnew : d.1 ∉ st.delivered := by simpa using hmem.2
  have hlen := congrArg List.length hkeys
  have hlen' := congrArg List.length hkeys'
  rw [List.length_map, if_neg hroot] at hlen hlen'
  rw [hlen, hlen']
  simp only [if_neg hnew]
  have hsub : ((deliveryKeys st.run o p).filter fun k => !(d.1 :: st.delivered).contains k)
      = ((deliveryKeys st.run o p).filter fun k => !st.delivered.contains k).filter
        fun k => k ≠ d.1 := by
    rw [List.filter_filter]
    refine List.filter_congr fun k _ => ?_
    simp
  rw [hsub]
  refine List.length_filter_lt_length_iff_exists.mpr ⟨d.1, ?_, by simp⟩
  exact List.mem_filter.mpr ⟨hmem.1, hmem.2⟩

/-- **Every turn of the loop is accepted and takes from what is left**, and the run goes on
finishing until it is finished. -/
theorem exits_toGo (h : Inv st) (hfin : st.isFinishing = true) (hx : Exits st input) :
    (step st input).toGo < st.toGo ∧
      ((step st input).isFinishing = true ∨ (step st input).isFinished = true) := by
  have hopen := isFinished_of_finishing hfin
  have hgo : ∀ {r r' : SlotRecord}, Replaces st (step st input) r r' → r'.toGo < r.toGo →
      (step st input).toGo < st.toGo ∧
        ((step st input).isFinishing = true ∨ (step st input).isFinished = true) := by
    intro r r' hrep hlt
    exact ⟨hrep.toGo_lt h.coh.ordered hfin hlt, Or.inl (hrep.isFinishing_eq.trans hfin)⟩
  cases hx with
  | ended hnone hr hlive hb =>
    have hacc := ended_accepted h.coh hopen hr hlive hb
    obtain ⟨r', g, hkey, hlive', hland⟩ :=
      (step_transition h.coh h.route hacc).1.ended_finishing hb hfin
    exact hgo hland.replaces (SlotRecord.ended_toGo hlive' _ _)
  | @answer effect rest heff ha =>
    have hmem : effect ∈ pendingEffects st := by
      rw [heff]
      exact List.mem_cons_self
    rcases finishing_owes hfin hmem with ⟨r, l, kind, hr, hl, howed, -, rfl⟩ |
      ⟨o, reason, hphase, hlive, rfl⟩ | ⟨o, reason, p, d, hphase, hlive, hd, rfl⟩ | ⟨hready, rfl⟩
    · cases ha with
      | signalled hb =>
        have hacc := stopSignalled_accepted h.coh hopen hr hl hb
        obtain ⟨r', l', g, hkey, hl', hnth, hland⟩ :=
          (step_transition h.coh h.route hacc).1.signalled hb
        have hslot : r' = r :=
          RunState.record_unique h.coh.ordered hland.replaces.mem hr (sessionKey_injective hkey)
        subst hslot
        exact hgo hland.replaces (SlotRecord.applySignal_toGo
          ((h.coh.slots _ hr).alive (by rw [hl]; rfl)) hl howed)
    · cases ha with
      | @parked _ _ outcome _ hb =>
        have hacc : ignoredReason st input = none := by
          unfold ignoredReason
          simp only [hopen, Bool.false_eq_true, if_false, hb, hphase]
          rfl
        obtain ⟨o', reason', hphase', heq⟩ := (step_transition h.coh h.route hacc).1.treeParked hb
        rw [hphase] at hphase'
        cases hphase'
        have hle := @owedDeliveries_length { st with
          parked := some outcome, phase := .finishing o reason (.parked outcome) } _ _ _ rfl
        rw [heq]
        refine ⟨?_, Or.inl rfl⟩
        unfold RunState.toGo
        rw [hphase]
        simp only
        omega
    · cases ha with
      | delivered hb hkey =>
        obtain ⟨hacc, hdel⟩ := delivered_accepted hopen hb hkey ⟨d, hd, rfl⟩
        have heq := (step_transition h.coh h.route hacc).1.delivered hb hdel
        have hphase' : (step st input).phase = .finishing o reason (.parked p) := by
          rw [heq]
          exact hphase
        have hslots : (step st input).slots = st.slots := by rw [heq]
        have hlt := owedDeliveries_delivered hphase hd
        rw [← heq] at hlt
        refine ⟨?_, Or.inl ?_⟩
        · rw [RunState.toGo_parked hphase, RunState.toGo_parked hphase', hslots]
          omega
        · unfold RunState.isFinishing
          rw [hphase']
    · cases ha with
      | released hb =>
        have hacc : ignoredReason st input = none := by
          unfold ignoredReason
          simp only [hopen, Bool.false_eq_true, if_false, hb, hready]
          rfl
        obtain ⟨o, reason, tree, hphase, -, heq⟩ :=
          (step_transition h.coh h.route hacc).1.released hb
        rw [heq]
        refine ⟨?_, Or.inr rfl⟩
        unfold RunState.toGo
        rw [hphase]
        cases tree <;> simp only <;> omega

/-- While the run is not finished there is a turn to take. -/
theorem exits_exists (hfin : st.isFinishing = true) : ∃ input, Exits st input := by
  cases heff : pendingEffects st with
  | nil =>
    obtain ⟨r, hr, hlive⟩ := List.any_eq_true.mp (live_of_owes_nothing hfin heff)
    exact ⟨⟨0, 0, [], .sessionFact (st.sessionKey r.slot) (.ended .stoppedByHost)⟩,
      .ended heff hr hlive rfl⟩
  | cons effect rest =>
    have hmem : effect ∈ pendingEffects st := by
      rw [heff]
      exact List.mem_cons_self
    rcases finishing_owes hfin hmem with ⟨r, l, kind, -, -, -, -, rfl⟩ |
      ⟨o, reason, -, -, rfl⟩ | ⟨o, reason, p, d, -, -, -, rfl⟩ | ⟨-, rfl⟩
    · exact ⟨⟨0, 0, [], .stopSignalled (st.sessionKey r.slot) (l.total + 1) kind⟩,
        .answer heff (.signalled rfl)⟩
    · exact ⟨⟨0, 0, [], .treeParked .notHeld⟩, .answer heff (.parked rfl)⟩
    · exact ⟨⟨0, 0, deliveredKey d.1, .delivered ""⟩, .answer heff (.delivered rfl rfl)⟩
    · exact ⟨⟨0, 0, [], .claimReleased⟩, .answer heff (.released rfl)⟩

/-! ## The human exit -/

theorem Transition.withdrawal (ht : Transition st input st') {m : Option MessageId}
    {who : WithdrawnBy} (hb : input.body = .withdrawn m who) :
    (st.isFinishing = true ∧ st' = st.withdraw) ∨ (st.isFinishing = false ∧
      st' = st.withdraw.finishing .withdrawn (Emit.withdrawnReason who) input.now) := by
  cases ht with
  | run hm => cases hm <;> simp_all
  | slot hmove _ _ => cases hmove <;> simp_all
  | withdrawn hb' hfin _ =>
    rw [hb] at hb'
    cases hb'
    exact Or.inr ⟨hfin, rfl⟩
  | forced _ hfin _ => exact Or.inl ⟨hfin, rfl⟩
  | _ => simp_all

theorem pendingEffects_finished (h : st.isFinished = true) : pendingEffects st = [] := by
  unfold RunState.isFinished at h
  unfold pendingEffects
  split at h
  · rename_i hphase
    rw [hphase]
  · cases h

/-- A run of the loop is a run of the engine. -/
theorem Exiting.reaches {inputs : List Event} (h : Exiting st inputs st') {run : RunId}
    {flow : FlowDef} {log : List Entry} (hr : Reaches run flow log st) :
    ∃ log', Reaches run flow log' st' := by
  induction h generalizing log with
  | nil st => exact ⟨log, hr⟩
  | @cons st st' input inputs hfin hx _ ih => exact ih (hr.step (.input input))

/-- The loop runs out, with what is left at the start. -/
theorem Exiting.length_le {inputs : List Event} (h : Exiting st inputs st') (hinv : Inv st)
    (hover : st.isFinishing = true ∨ st.isFinished = true) :
    inputs.length + st'.toGo ≤ st.toGo ∧ Inv st' ∧
      (st'.isFinishing = true ∨ st'.isFinished = true) := by
  induction h with
  | nil st => exact ⟨by simp, hinv, hover⟩
  | cons hfin hx _ ih =>
    obtain ⟨hlt, hnext⟩ := exits_toGo hinv hfin hx
    obtain ⟨hle, hrest⟩ := ih (hinv.step _) hnext
    refine ⟨?_, hrest⟩
    rw [List.length_cons]
    omega

/-- It reaches the end. -/
theorem exiting_finishes : ∀ (n : Nat) {st : RunState}, st.toGo ≤ n → Inv st →
    (st.isFinishing = true ∨ st.isFinished = true) →
    ∃ inputs st', Exiting st inputs st' ∧ st'.isFinished = true := by
  intro n
  induction n with
  | zero =>
    intro st hle hinv hover
    rcases hover with hfin | hdone
    · obtain ⟨input, hx⟩ := exits_exists hfin
      have := (exits_toGo hinv hfin hx).1
      omega
    · exact ⟨[], st, .nil st, hdone⟩
  | succ n ih =>
    intro st hle hinv hover
    rcases hover with hfin | hdone
    · obtain ⟨input, hx⟩ := exits_exists hfin
      obtain ⟨hlt, hnext⟩ := exits_toGo hinv hfin hx
      obtain ⟨inputs, st', hex, hdone⟩ := ih (by omega) (hinv.step input) hnext
      exact ⟨input :: inputs, st', .cons hfin hx hex, hdone⟩
    · exact ⟨[], st, .nil st, hdone⟩

/-- A withdrawal leaves the run finishing, with its outcome kept or set to `withdrawn`. -/
theorem withdrawn_finishing (h : Inv st) (hopen : st.isFinished = false) {m : Option MessageId}
    {who : WithdrawnBy} (hb : input.body = .withdrawn m who) :
    ∃ o, (step st input).isFinishing = true ∧ (step st input).outcome = some o ∧
      (st.outcome = some o ∨ (st.outcome = none ∧ o = .withdrawn)) := by
  cases hi : ignoredReason st input with
  | some reason =>
    have hfin : st.isFinishing = true := by
      unfold ignoredReason at hi
      simp only [hopen, Bool.false_eq_true, if_false, hb] at hi
      split at hi
      · rename_i hcond
        rw [Bool.and_eq_true] at hcond
        exact hcond.1
      · cases hi
    rw [step_of_ignored (by rw [hi]; rfl)]
    obtain ⟨o, reason, tree, hphase⟩ := finishing_phase hfin
    have hout : st.outcome = some o := by
      unfold RunState.outcome
      rw [hphase]
    exact ⟨o, hfin, hout, Or.inl hout⟩
  | none =>
    cases (step_transition h.coh h.route hi).1.withdrawal hb with
    | inl hforced =>
      obtain ⟨hfin, heq⟩ := hforced
      rw [heq]
      obtain ⟨o, reason, tree, hphase⟩ := finishing_phase hfin
      have hout : st.outcome = some o := by
        unfold RunState.outcome
        rw [hphase]
      exact ⟨o, hfin, hout, Or.inl hout⟩
    | inr hnew =>
      obtain ⟨hfin, heq⟩ := hnew
      rw [heq]
      refine ⟨.withdrawn, rfl, rfl, Or.inr ⟨?_, rfl⟩⟩
      unfold RunState.outcome
      unfold RunState.isFinishing at hfin
      unfold RunState.isFinished at hopen
      cases hp : st.phase with
      | finishing o reason tree => rw [hp] at hfin; cases hfin
      | finished o reason => rw [hp] at hopen; cases hopen
      | _ => rfl

/-- **The human exit never closes.** From every state a run of a compiled flow reaches: a withdrawal
leaves it finishing; the loop of `Exits` ends finished, whatever is chosen on the way, within four
turns for each live slot and four more; it owes the park only with no slot live, a delivery only
with the park recorded, the release only with every delivery made; and a finished run has no live
slot, its park recorded, its deliveries made, nothing owed and no timer, and no input changes it. -/
theorem human_exit_never_closes {decl review : ChannelDecl} {flow : FlowDef}
    (hc : compile decl review = .ok flow) {run : RunId} {log : List Entry} {st : RunState}
    (h : Reaches run flow log st) :
    (st.commissioned = true → st.isFinished = false →
      ∀ (input : Event) (m : Option MessageId) (who : WithdrawnBy),
        input.body = .withdrawn m who → ∃ o, (step st input).isFinishing = true ∧
          (step st input).outcome = some o ∧
          (st.outcome = some o ∨ (st.outcome = none ∧ o = .withdrawn))) ∧
    (st.isFinishing = true →
      (∃ inputs st', Exiting st inputs st' ∧ st'.isFinished = true) ∧
      ∀ inputs st', Exiting st inputs st' →
        inputs.length ≤ 4 * (st.slots.filter fun r => r.state.isLive).length + 4 ∧
        (st'.isFinished = true ∨ (st'.isFinishing = true ∧ ∃ input, Exits st' input)) ∧
        (∀ workspace o, .parkTree workspace o ∈ pendingEffects st' → st'.anyLive = false) ∧
        (∀ thread body key, .deliver thread body key ∈ pendingEffects st' →
          st'.anyLive = false ∧ st'.parked.isSome = true) ∧
        ∀ workspace, .releaseClaim workspace ∈ pendingEffects st' →
          st'.anyLive = false ∧ st'.parked.isSome = true ∧ owedDeliveries st' = []) ∧
    (∀ o reason, st.phase = .finished o reason →
      Settled st o ∧ owedDeliveries st = [] ∧ pendingEffects st = [] ∧
        ∀ input, step st input = st) := by
  have hwf := compile_wf hc
  have hinv := h.inv hwf
  refine ⟨fun _ hopen input m who hb => withdrawn_finishing hinv hopen hb, fun hfin =>
    ⟨exiting_finishes _ (le_refl _) hinv (Or.inl hfin), fun inputs st' hex => ?_⟩, ?_⟩
  · obtain ⟨hle, hinv', hover⟩ := hex.length_le hinv (Or.inl hfin)
    have hpark := (hex.reaches h).choose_spec.settled hwf
    have hfinishing : pendingEffects st' ≠ [] → st'.isFinishing = true := by
      intro hne
      rcases hover with hf | hd
      · exact hf
      · exact absurd (pendingEffects_finished hd) hne
    refine ⟨hle.trans' (Nat.le_add_right _ _) |>.trans st.toGo_le, ?_, ?_, ?_, ?_⟩
    · rcases hover with hf | hd
      · exact Or.inr ⟨hf, exits_exists hf⟩
      · exact Or.inl hd
    · intro workspace o hmem
      rcases finishing_owes (hfinishing (List.ne_nil_of_mem hmem)) hmem with
        ⟨_, _, _, _, _, _, _, heq⟩ | ⟨_, _, _, hlive, _⟩ | ⟨_, _, _, _, _, _, _, heq⟩ | ⟨_, heq⟩
      · cases heq
      · exact hlive
      · cases heq
      · cases heq
    · intro thread body key hmem
      rcases finishing_owes (hfinishing (List.ne_nil_of_mem hmem)) hmem with
        ⟨_, _, _, _, _, _, _, heq⟩ | ⟨_, _, _, _, heq⟩ | ⟨_, _, p, _, hphase, hlive, _, _⟩ | ⟨_, heq⟩
      · cases heq
      · cases heq
      · refine ⟨hlive, ?_⟩
        rw [hpark.1 _ _ _ hphase]
        rfl
      · cases heq
    · intro workspace hmem
      rcases finishing_owes (hfinishing (List.ne_nil_of_mem hmem)) hmem with
        ⟨_, _, _, _, _, _, _, heq⟩ | ⟨_, _, _, _, heq⟩ | ⟨_, _, _, _, _, _, _, heq⟩ | ⟨hready, _⟩
      · cases heq
      · cases heq
      · cases heq
      · obtain ⟨o, reason, p, hphase, hlive, howed⟩ := readyToRelease_spec hready
        refine ⟨hlive, ?_, howed⟩
        rw [hpark.1 _ _ _ hphase]
        rfl
  · intro o reason hphase
    have hdone : st.isFinished = true := by
      unfold RunState.isFinished
      rw [hphase]
    refine ⟨(h.settled hwf).2 o reason hphase, ?_, pendingEffects_finished hdone, fun input => ?_⟩
    · unfold owedDeliveries
      rw [hphase]
      split <;> rfl
    · refine step_of_ignored ?_
      unfold ignoredReason
      rw [if_pos hdone]
      rfl

/-- A run withdrawn as soon as it is commissioned has the way out, and `open_root` is still owed
before it. -/
theorem human_exit_solo :
    pendingEffects (soloState (soloStart.take 1)) = [.openRoot ['r']] ∧
    (step (soloState (soloStart.take 1)) ⟨1, 0, [], .withdrawn none .requester⟩).isFinishing
      = true ∧
    ∃ inputs st', Exiting
      (soloState (soloStart.take 1 ++ [inputAt 0 (.withdrawn none .requester)])) inputs st' ∧
        st'.isFinished = true := by
  refine ⟨by decide, ?_, ?_⟩
  · obtain ⟨o, hfin, -, -⟩ := (human_exit_never_closes compile_solo
      (reaches_solo (soloStart.take 1))).1 (by decide) (by decide)
        ⟨1, 0, [], .withdrawn none .requester⟩ none .requester rfl
    exact hfin
  · exact ((human_exit_never_closes compile_solo (reaches_solo
      (soloStart.take 1 ++ [inputAt 0 (.withdrawn none .requester)]))).2.1
        (by decide)).1

end NexusFlow.Run
