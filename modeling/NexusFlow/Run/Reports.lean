import NexusFlow.Run.Front
import NexusFlow.Run.Owed

/-!
# What is owed can be reported

`pending_effects` (`effects.rs`) derives what a run owes from its state, `ignored_reason`
(`guard.rs`) says which results it takes. `Reports` pairs each effect with the input that reports
its success. In every state of a run the report of an owed effect is taken, ends the debt, and leaves
what other sessions are owed (`owed_is_reported`).
-/

namespace NexusFlow.Run

open NexusFlow.Lib

/-- The input that reports an effect's success. -/
inductive Reports : Effect → Event → Prop
  | rootOpened {run : RunId} {thread message : MessageId} {input : Event}
      (hb : input.body = .rootOpened thread message) : Reports (.openRoot run) input
  | claimTaken {workspace : String} {input : Event} (hb : input.body = .claimTaken) :
      Reports (.takeClaim workspace) input
  | treePrepared {workspace : String} {base : Base} {found : Option ParkOutcome} {input : Event}
      (hb : input.body = .treePrepared base found) : Reports (.prepareTree workspace) input
  | treeRefused {workspace : String} {reason : TreeRefusal} {input : Event}
      (hb : input.body = .treeRefused reason) : Reports (.cancelTree workspace) input
  | treeParked {workspace : String} {occasion : Outcome} {outcome : ParkOutcome} {input : Event}
      (hb : input.body = .treeParked outcome) : Reports (.parkTree workspace occasion) input
  | claimReleased {workspace : String} {input : Event} (hb : input.body = .claimReleased) :
      Reports (.releaseClaim workspace) input
  | started {key : SessionKey} {turn : List TurnPart} {resume : Bool} {id : String} {input : Event}
      (hb : input.body = .sessionFact key (.started id)) :
      Reports (.startSession key turn resume) input
  | nudged {key : SessionKey} {text : String} {input : Event} (hb : input.body = .nudged key) :
      Reports (.nudgeSession key text) input
  | stopSignalled {key : SessionKey} {kind signal : StopKind} {nth : Nat} {input : Event}
      (hb : input.body = .stopSignalled key nth signal) : Reports (.stopSession key kind nth) input
  | delivered {thread message : MessageId} {body : DeliverBody} {key : Key} {input : Event}
      (hb : input.body = .delivered message) (hkey : input.key = deliveredKey key) :
      Reports (.deliver thread body key) input

section

variable {st st' : RunState} {input : Event} {effect : Effect} {r : SlotRecord}

/-- The phases in which a session may be owed something. -/
def Phase.hasSessions : Phase → Bool
  | .running .prepared | .finishing _ _ _ => true
  | _ => false

/-! ## The report is taken -/

/-- **The report of what is owed is taken.** -/
theorem Reports.accepted (hrep : Reports effect input) (howes : Owes st effect) (h : Coh st)
    (hfront : Front st) (hopen : st.isFinished = false) : ignoredReason st input = none := by
  have hfound : ∀ {r : SlotRecord}, r ∈ st.slots →
      st.recordAt (st.find (st.sessionKey r.slot)) = some r :=
    fun hr => (RunState.recordAt_find h.ordered).mpr ⟨hr, rfl⟩
  have hnot : ∀ {p : Phase}, st.phase = p → p.hasSessions = false → st.isFinishing = false := by
    intro p hphase hno
    unfold RunState.isFinishing
    rw [hphase]
    cases p with
    | finishing o reason tree => cases hno
    | _ => rfl
  cases howes with
  | openRoot hphase hroot =>
    cases hrep with
    | rootOpened hb =>
      unfold ignoredReason
      simp only [hopen, Bool.false_eq_true, if_false, hb, hphase, hroot]
      rfl
  | takeClaim hphase =>
    cases hrep with
    | claimTaken hb =>
      unfold ignoredReason
      simp only [hopen, Bool.false_eq_true, if_false, hb, hnot hphase rfl, hphase]
      rfl
  | prepareTree hphase =>
    cases hrep with
    | treePrepared hb =>
      unfold ignoredReason
      simp only [hopen, Bool.false_eq_true, if_false, hb, hnot hphase rfl, hphase]
      rfl
  | cancelTree hcancel =>
    cases hrep with
    | treeRefused hb =>
      have hphase := hfront.cancel hcancel
      unfold ignoredReason
      simp only [hopen, Bool.false_eq_true, if_false, hb, hnot hphase rfl, hphase]
      rfl
  | parkTree hphase hlive =>
    cases hrep with
    | treeParked hb =>
      unfold ignoredReason
      simp only [hopen, Bool.false_eq_true, if_false, hb, hphase]
      rfl
  | releaseClaim hready =>
    cases hrep with
    | claimReleased hb =>
      unfold ignoredReason
      simp only [hopen, Bool.false_eq_true, if_false, hb, hready]
      rfl
  | startSession hr hs =>
    cases hrep with
    | started hb =>
      unfold ignoredReason
      simp only [hopen, Bool.false_eq_true, if_false, hb, hfound hr, factIgnored, hs]
      rfl
  | nudgeSession hr hs =>
    cases hrep with
    | nudged hb =>
      unfold ignoredReason
      simp only [hopen, Bool.false_eq_true, if_false, hb, hfound hr, hs]
      rfl
  | stopSession hr hl howed =>
    cases hrep with
    | stopSignalled hb => exact stopSignalled_accepted h hopen hr hl hb
  | deliver hd =>
    cases hrep with
    | delivered hb hkey => exact (delivered_accepted hopen hb hkey ⟨_, hd, rfl⟩).1

/-! ## The report ends the debt -/

theorem Transition.rootOpened (ht : Transition st input st') {t m : MessageId}
    (hb : input.body = .rootOpened t m) (hphase : st.phase = .created) :
    st'.phase = .queued none := by
  cases ht with
  | run hm =>
    cases hm with
    | rootOpened _ _ _ => rfl
    | rootOpenedLate _ hfin _ =>
      unfold RunState.isFinishing at hfin
      rw [hphase] at hfin
      cases hfin
    | _ => simp_all
  | slot hmove _ _ => cases hmove <;> simp_all
  | _ => simp_all

theorem Transition.claimTaken (ht : Transition st input st') (hb : input.body = .claimTaken) :
    st'.phase = .running .unprepared := by
  cases ht with
  | run hm => cases hm <;> simp_all
  | claimed _ hphase _ hbegins _ =>
    show _ = _
    refine (Starts.phase hbegins).trans ?_
    rw [show ({ st with claimSince := some input.now } : RunState).phase = _ from hphase]
    rfl
  | slot hmove _ _ => cases hmove <;> simp_all
  | _ => simp_all

theorem Transition.treePrepared (ht : Transition st input st') {base : Base}
    {found : Option ParkOutcome} (hb : input.body = .treePrepared base found) :
    st'.phase = .running .prepared := by
  cases ht with
  | run hm => cases hm <;> simp_all
  | prepared _ _ harms _ => exact harms.sameFront.phase
  | slot hmove _ _ => cases hmove <;> simp_all
  | _ => simp_all

theorem Transition.treeRefused (ht : Transition st input st') {reason : TreeRefusal}
    (hb : input.body = .treeRefused reason) : st'.treeCancelOwed = false := by
  cases ht with
  | run hm =>
    cases hm with
    | attended _ _ _ _ hattends =>
      cases hattends with
      | refusalKept _ _ _ hcancel _ => exact hcancel
      | refused _ _ _ hcancel _ _ => exact hcancel
      | _ => simp_all
    | _ => simp_all
  | slot hmove _ _ => cases hmove <;> simp_all
  | _ => simp_all

theorem Transition.started (ht : Transition st input st') {key : SessionKey} {id : String}
    (hb : input.body = .sessionFact key (.started id)) :
    ∃ r r' g, st.sessionKey r.slot = key ∧ Landed st st' r r' g ∧ ∀ d, r'.state ≠ .starting d := by
  cases ht with
  | run hm => cases hm <;> simp_all
  | slot hmove hland hsettles =>
    cases hmove with
    | started hb' hs =>
      rw [hb] at hb'
      cases hb'
      exact ⟨_, _, _, rfl, hland, (fun _ h => by cases h)⟩
    | startedStopping hb' hs =>
      rw [hb] at hb'
      cases hb'
      exact ⟨_, _, _, rfl, hland, fun d heq => by simp_all⟩
    | startedEnded hb' hs _ =>
      rw [hb] at hb'
      cases hb'
      exact ⟨_, _, _, rfl, hland, (fun _ h => by cases h)⟩
    | sign hb' hsign _ =>
      rw [hb] at hb'
      cases hb'
      cases hsign
    | _ => simp_all
  | _ => simp_all

theorem Transition.nudged (ht : Transition st input st') {key : SessionKey}
    (hb : input.body = .nudged key) :
    ∃ r r' g, st.sessionKey r.slot = key ∧ Landed st st' r r' g ∧
      ∀ since openCall, r'.state ≠ .quiet since openCall := by
  cases ht with
  | run hm => cases hm <;> simp_all
  | slot hmove hland hsettles =>
    cases hmove with
    | nudged hb' hs =>
      rw [hb] at hb'
      cases hb'
      exact ⟨_, _, _, rfl, hland, (fun _ _ h => by cases h)⟩
    | _ => simp_all
  | _ => simp_all

/-- What an owed effect of the run's own says of the run. -/
theorem Owes.front (h : Owes st effect) :
    match effect with
    | .openRoot _ => st.phase = .created
    | .takeClaim _ => ∃ b, st.phase = .queued b
    | .prepareTree _ => st.phase = .running .unprepared
    | .cancelTree _ => st.treeCancelOwed = true
    | _ => True := by
  cases h with
  | openRoot hphase _ => exact hphase
  | takeClaim hphase => exact ⟨_, hphase⟩
  | prepareTree hphase => exact hphase
  | cancelTree hcancel => exact hcancel
  | _ => trivial

theorem Owes.starting {key : SessionKey} {turn : List TurnPart} {resume : Bool}
    (h : Owes st (.startSession key turn resume)) :
    ∃ r ∈ st.slots, key = st.sessionKey r.slot ∧ ∃ d, r.state = .starting d := by
  cases h with
  | startSession hr hs => exact ⟨_, hr, rfl, _, hs⟩

theorem Owes.quiet {key : SessionKey} {text : String} (h : Owes st (.nudgeSession key text)) :
    ∃ r ∈ st.slots, key = st.sessionKey r.slot ∧ ∃ since openCall, r.state = .quiet since openCall := by
  cases h with
  | nudgeSession hr hs => exact ⟨_, hr, rfl, _, _, hs⟩

theorem Owes.stopping {key : SessionKey} {kind : StopKind} {nth : Nat}
    (h : Owes st (.stopSession key kind nth)) :
    ∃ r ∈ st.slots, key = st.sessionKey r.slot ∧ ∃ l, r.state.ladder = some l ∧
      nth = l.total + 1 := by
  cases h with
  | stopSession hr hl howed => exact ⟨_, hr, rfl, _, hl, rfl⟩

theorem Owes.undelivered {thread : MessageId} {body : DeliverBody} {key : Key}
    (h : Owes st (.deliver thread body key)) : key ∉ st.delivered := by
  cases h with
  | deliver hd =>
    unfold owedDeliveries at hd
    split at hd
    · cases hd
    · simpa using (List.mem_filter.mp hd).2

/-- The record that moved is the one the session's key names. -/
theorem Landed.of_key {x x' y : SlotRecord} {g : Nat → Bool} (h : Landed st st' x x' g)
    (hy : y ∈ st'.slots) (hkey : st.sessionKey x.slot = st'.sessionKey y.slot) : y = x' := by
  have hrun : st'.run = st.run := h.replaces.keeps RunState.run fun _ => rfl
  unfold RunState.sessionKey at hkey
  rw [hrun] at hkey
  have hslot := sessionKey_injective hkey
  rcases h.replaces.mem_iff.mp hy with rfl | ⟨-, hne⟩
  · rfl
  · exact absurd hslot.symm hne

/-- A report about one session leaves what other sessions are owed. -/
theorem Landed.keeps_owed {x x' : SlotRecord} {g : Nat → Bool} (h : Landed st st' x x' g)
    (hcoh : Coh st) {other : Effect} (hs : other.session? ≠ none)
    (hne : other.session? ≠ some (st.sessionKey x.slot)) (hother : other ∈ pendingEffects st) :
    other ∈ pendingEffects st' := by
  have hrep := h.replaces
  have hrun : st'.run = st.run := hrep.keeps RunState.run fun _ => rfl
  have hkey : ∀ s, st'.sessionKey s = st.sessionKey s := by
    intro s
    unfold RunState.sessionKey
    rw [hrun]
  have hstays : ∀ {r : SlotRecord}, r ∈ st.slots → other.session? = some (st.sessionKey r.slot) →
      r ∈ st'.slots := by
    intro r hr hr'
    refine hrep.mem_iff.mpr (Or.inr ⟨hr, ?_⟩)
    intro heq
    rw [hr', heq] at hne
    exact hne rfl
  have hstop : ∀ {r : SlotRecord} {key : SessionKey}, stopEffect r key = some other →
      other.session? = some key ∧ r.state.ladder.isSome = true := by
    intro r key heff
    obtain ⟨l, hl, heff⟩ := Option.bind_eq_some_iff.mp heff
    obtain ⟨kind, -, rfl⟩ := Option.map_eq_some_iff.mp heff
    exact ⟨rfl, by rw [hl]; rfl⟩
  rw [pending_session_iff hs] at hother ⊢
  cases hother with
  | @running r hphase hcancel hr heff =>
    have hsession : other.session? = some (st.sessionKey r.slot) := by
      unfold slotEffect at heff
      split at heff
      · cases heff
        rfl
      · cases heff
        rfl
      · exact (hstop heff).1
    refine .running (hrep.phase_eq.trans hphase)
      ((hrep.keeps RunState.treeCancelOwed fun _ => rfl).trans hcancel) (hstays hr hsession) ?_
    unfold slotEffect at heff ⊢
    simpa only [hkey] using heff
  | @finishing o reason tree r hphase hlive hr heff =>
    obtain ⟨hsession, hladder⟩ := hstop heff
    have hr' := hstays hr hsession
    refine .finishing (hrep.phase_eq.trans hphase) ?_ hr' (by rw [hkey]; exact heff)
    exact List.any_eq_true.mpr ⟨r, hr', (hcoh.slots r hr).alive hladder⟩

end

/-- **What a run owes can always be reported.** In every state of a run, the input that reports the
success of an effect that is pending is acted on, the effect is pending no more once it is folded
with its decisions, and what is pending for another session stays pending. -/
theorem owed_is_reported {decl review : ChannelDecl} {flow : FlowDef}
    (hc : compile decl review = .ok flow) {run : RunId} {log : List Entry} {st : RunState}
    (h : Reaches run flow log st) {effect : Effect} (heff : effect ∈ pendingEffects st)
    {input : Event} (hrep : Reports effect input) :
    ignoredReason st input = none ∧ effect ∉ pendingEffects (step st input) ∧
      ∀ other ∈ pendingEffects st, other.session? ≠ none → other.session? ≠ effect.session? →
        other ∈ pendingEffects (step st input) := by
  have hwf := compile_wf hc
  have hinv := h.inv hwf
  have hcoh := hinv.coh
  have hfront := h.front hwf
  have howes := owes_of_pending heff
  have hopen : st.isFinished = false := by
    by_contra hfin
    rw [Bool.not_eq_false] at hfin
    unfold RunState.isFinished at hfin
    unfold pendingEffects at heff
    cases hp : st.phase <;> simp [hp] at hfin heff
  have hacc := hrep.accepted howes hcoh hfront hopen
  have ht := (step_transition hcoh hinv.route hacc).1
  refine ⟨hacc, ?_⟩
  generalize step st input = st' at ht
  -- No session's effect is pending where the tree is not prepared and no stop is waited for.
  have hidle : (∀ {o : Effect}, OwesSession st o → False) → ∀ other ∈ pendingEffects st,
      other.session? ≠ none → other.session? ≠ effect.session? → other ∈ pendingEffects st' :=
    fun hno other hother hs _ => (hno ((pending_session_iff hs).mp hother)).elim
  have hphases : ∀ {p : Phase}, st.phase = p → p.hasSessions = false →
      ∀ {o : Effect}, OwesSession st o → False := by
    intro p hphase hno o ho
    rw [← hphase] at hno
    cases ho with
    | running hphase' _ _ _ => rw [hphase'] at hno; cases hno
    | finishing hphase' _ _ _ => rw [hphase'] at hno; cases hno
  have hover : st.anyLive = false → st.phase ≠ .running .prepared →
      ∀ {o : Effect}, OwesSession st o → False := by
    intro hlive hrun o ho
    cases ho with
    | running hphase' _ _ _ => exact hrun hphase'
    | finishing _ hlive' _ _ => rw [hlive] at hlive'; cases hlive'
  cases howes with
  | openRoot hphase _ =>
    cases hrep with
    | rootOpened hb =>
      refine ⟨fun hmem => ?_, hidle (hphases hphase rfl)⟩
      have hcreated : st'.phase = .created := (owes_of_pending hmem).front
      rw [ht.rootOpened hb hphase] at hcreated
      cases hcreated
  | takeClaim hphase =>
    cases hrep with
    | claimTaken hb =>
      refine ⟨fun hmem => ?_, hidle (hphases hphase rfl)⟩
      obtain ⟨b, hqueued⟩ : ∃ b, st'.phase = .queued b := (owes_of_pending hmem).front
      rw [ht.claimTaken hb] at hqueued
      cases hqueued
  | prepareTree hphase =>
    cases hrep with
    | treePrepared hb =>
      refine ⟨fun hmem => ?_, hidle (hphases hphase rfl)⟩
      have hun : st'.phase = .running .unprepared := (owes_of_pending hmem).front
      rw [ht.treePrepared hb] at hun
      cases hun
  | cancelTree hcancel =>
    cases hrep with
    | treeRefused hb =>
      refine ⟨fun hmem => ?_, hidle (hphases (hfront.cancel hcancel) rfl)⟩
      have howed : st'.treeCancelOwed = true := (owes_of_pending hmem).front
      rw [ht.treeRefused hb] at howed
      cases howed
  | parkTree hphase hlive =>
    cases hrep with
    | treeParked hb =>
      refine ⟨fun hmem => ?_, hidle (hover hlive (by rw [hphase]; exact Phase.noConfusion))⟩
      obtain ⟨o, reason, -, rfl⟩ := ht.treeParked hb
      cases owes_of_pending hmem with
      | parkTree hun _ => cases hun
  | releaseClaim hready =>
    cases hrep with
    | claimReleased hb =>
      obtain ⟨o, reason, park, hphase, hlive, -⟩ := readyToRelease_spec hready
      refine ⟨fun hmem => ?_, hidle (hover hlive (by rw [hphase]; exact Phase.noConfusion))⟩
      obtain ⟨o, reason, tree, -, -, rfl⟩ := ht.released hb
      cases hmem
  | startSession hr hs =>
    cases hrep with
    | started hb =>
      obtain ⟨x, x', g, hkey, hland, hstate⟩ := ht.started hb
      refine ⟨fun hmem => ?_, fun other hother hs hne => hland.keeps_owed hcoh hs ?_ hother⟩
      · obtain ⟨y, hy, hkey', d, hd⟩ := (owes_of_pending hmem).starting
        rw [hland.of_key hy (hkey.trans hkey')] at hd
        exact hstate d hd
      · rw [hkey]
        exact hne
  | nudgeSession hr hs =>
    cases hrep with
    | nudged hb =>
      obtain ⟨x, x', g, hkey, hland, hstate⟩ := ht.nudged hb
      refine ⟨fun hmem => ?_, fun other hother hs hne => hland.keeps_owed hcoh hs ?_ hother⟩
      · obtain ⟨y, hy, hkey', since, openCall, hq⟩ := (owes_of_pending hmem).quiet
        rw [hland.of_key hy (hkey.trans hkey')] at hq
        exact hstate since openCall hq
      · rw [hkey]
        exact hne
  | stopSession hr hl howed =>
    cases hrep with
    | stopSignalled hb =>
      obtain ⟨x, l', g, hkey, hl', hnth, hland⟩ := ht.signalled hb
      refine ⟨fun hmem => ?_, fun other hother hs hne => hland.keeps_owed hcoh hs ?_ hother⟩
      · -- The next signal of the ladder has the next number.
        obtain ⟨y, hy, hkey', l, hladder, hnext⟩ := (owes_of_pending hmem).stopping
        rw [hland.of_key hy (hkey.trans hkey'), SlotRecord.applySignal_ladder hl'] at hladder
        cases hladder
        simp only at hnext
        omega
      · rw [hkey]
        exact hne
  | @deliver d hd =>
    cases hrep with
    | delivered hb hkey =>
      have hdel := (delivered_accepted hopen hb hkey ⟨d, hd, rfl⟩).2
      obtain rfl := ht.delivered hb hdel
      refine ⟨fun hmem => (owes_of_pending hmem).undelivered ?_, fun other hother hs _ => ?_⟩
      · show d.1 ∈ if d.1 ∈ st.delivered then st.delivered else d.1 :: st.delivered
        split
        · assumption
        · exact List.mem_cons_self
      · rw [pending_session_iff hs] at hother ⊢
        cases hother with
        | running hphase hcancel hr heff => exact .running hphase hcancel hr heff
        | finishing hphase hlive hr heff => exact .finishing hphase hlive hr heff

/-- The first session of the solo run is owed its start, and reports it. -/
theorem start_is_reported :
    .startSession (soloKey 1) [⟨.root, some ""⟩, ⟨.obligation, none⟩] false
      ∈ pendingEffects (soloState soloStart) ∧
    .startSession (soloKey 1) [⟨.root, some ""⟩, ⟨.obligation, none⟩] false
      ∉ pendingEffects (step (soloState soloStart)
        ⟨0, 0, [], .sessionFact (soloKey 1) (.started "s")⟩) :=
  ⟨by decide, (owed_is_reported compile_solo (reaches_solo _) (by decide)
    (.started rfl)).2.1⟩

end NexusFlow.Run
