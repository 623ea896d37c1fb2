import NexusFlow.Run.Runs

/-!
# What becomes of each record

`Change` says what one accepted input does to one slot's record and to that slot's timers: nothing,
the start of a slot that waited, the move the input names (`SlotMove`) with the park or the hold it
ends in, the end of the run, or a withdrawal. `Transition.changes` proves that every record of the
state an input leaves is new or comes about by one `Change`; what holds of every record in every run
is proved by its cases.
-/

namespace NexusFlow.Run

open NexusFlow.Lib

/-- The timers of a slot are the same. -/
def SameTimers (st st' : RunState) (s : Slot) : Prop :=
  ∀ t : TimerId, t.slot? = some s → st'.timer t = st.timer t

/-- The slot's start deadline is armed, and no other timer of it changed. -/
structure DeadlineArmed (st st' : RunState) (s : Slot) (d : Timestamp) : Prop where
  armed : st'.timer (.slot .startDeadline s) = some ⟨d, .startDeadline⟩
  other : ∀ t : TimerId, t.slot? = some s → t ≠ .slot .startDeadline s → st'.timer t = st.timer t

/-- A record that stayed as it was, or that waited and starts. -/
inductive Stays (st st' : RunState) (r r' : SlotRecord) : Prop
  | same (h : r' = r) (ht : SameTimers st st' r.slot)
  | starts (d : Timestamp) (hs : r.state = .pending) (h : r' = { r with state := .starting d })
      (ht : DeadlineArmed st st' r.slot d)

/-- A record that was not there: it waits, or starts. -/
def Fresh (st st' : RunState) (r' : SlotRecord) : Prop :=
  r'.slot ∉ st.ids ∧ ∃ n : SlotRecord, n.IsNew ∧ n.slot = r'.slot ∧
    (∀ t : TimerId, t.slot? = some r'.slot → t ≠ .slot .startDeadline r'.slot →
      st'.timer t = none) ∧
    (r' = n ∨ ∃ d, r' = { n with state := .starting d } ∧
      st'.timer (.slot .startDeadline r'.slot) = some ⟨d, .startDeadline⟩)

/-- What the move of a record ends in. -/
inductive EndsAs (st' : RunState) (now : Timestamp) (x r' : SlotRecord) : Prop
  | here (h : r' = x)
  | parked {reason : ReasonCode} {order : Nat} {cause : EndCause} (hs : x.state = .ended cause)
      (hreason : reason ≠ .wouldNotStop)
      (h : r' = { x with condition := some (.parked reason order now) })
  | held {reason : ReasonCode} {order holds : Nat} {«until» : Timestamp} {cause : EndCause}
      (hs : x.state = .ended cause)
      (h : r' = { x with holds, condition := some (.held reason «until» order) })
      (hretry : st'.timer (.slot .holdRetry x.slot) = some ⟨«until», .holdRetry⟩)
  | isOver (hs : x.state.isReplied = true) (h : r' = { x with condition := none })

/-- The run is over: every record is finished, and the timers of stops alone are kept. -/
structure Finishes (st st' : RunState) (now : Timestamp) (r x r' : SlotRecord) : Prop where
  isOver : st.isOver = false
  fin : st'.isFinishing = true
  eq : r' = x.finish st'.withdrawn now
  timers : ∀ t : TimerId, t.slot? = some r.slot →
    st'.timer t = (st.timer t).filter fun a => keepsFinishing (t.text, a)

/-- **What an accepted input does to one record and to its slot's timers.** -/
inductive Change (st : RunState) (input : Event) (st' : RunState) (r r' : SlotRecord) : Prop
  | stays (h : Stays st st' r r')
  | moves {x : SlotRecord} {g : Nat → Bool} (hmove : SlotMove st input r x g)
      (hg : ∀ n, st'.graceArmed r.slot n = g n) (h : EndsAs st' input.now x r')
  | finishes (h : Finishes st st' input.now r r r')
  | withdrawn {m : Option MessageId} {who : WithdrawnBy} (hb : input.body = .withdrawn m who)
      (hw : st'.withdrawn = true) (h : Finishes st st' input.now r r.applyWithdrawn r')
  | forced {m : Option MessageId} {who : WithdrawnBy} (hb : input.body = .withdrawn m who)
      (hw : st'.withdrawn = true) (h : r' = r.applyWithdrawn) (ht : SameTimers st st' r.slot)

/-- Every record of the state an input leaves. -/
def Changes (st : RunState) (input : Event) (st' : RunState) : Prop :=
  ∀ r' ∈ st'.slots, Fresh st st' r' ∨ ∃ r ∈ st.slots, r.slot = r'.slot ∧ Change st input st' r r'

section

variable {st mid st' : RunState} {input : Event} {r r' x : SlotRecord} {g : Nat → Bool}

/-! ## Starts -/

theorem SameTimers.refl (st : RunState) (s : Slot) : SameTimers st st s := fun _ _ => rfl

theorem SameTimers.trans {s : Slot} (h : SameTimers st mid s) (h' : SameTimers mid st' s) :
    SameTimers st st' s := fun t ht => (h' t ht).trans (h t ht)

theorem SameTimers.of_eq {s : Slot} (h : st'.timers = st.timers) : SameTimers st st' s := by
  intro t _
  unfold RunState.timer
  rw [h]

theorem Stays.slot (h : Stays st st' r r') : r'.slot = r.slot := by
  cases h with
  | same h _ => rw [h]
  | starts d _ h _ => rw [h]

/-- What came before left the slot's timers alone. -/
theorem Stays.after (h : Stays mid st' r r') (ht : SameTimers st mid r.slot) :
    Stays st st' r r' := by
  cases h with
  | same h ht' => exact .same h (ht.trans ht')
  | starts d hs h ht' =>
    exact .starts d hs h ⟨ht'.armed, fun t hslot hne => (ht'.other t hslot hne).trans (ht t hslot)⟩

/-- What comes after leaves the slot's timers alone. -/
theorem Stays.seen (h : Stays st mid r r') (ht : SameTimers mid st' r.slot) :
    Stays st st' r r' := by
  cases h with
  | same h ht' => exact .same h (ht'.trans ht)
  | starts d hs h ht' =>
    exact .starts d hs h ⟨(ht _ rfl).trans ht'.armed,
      fun t hslot hne => (ht t hslot).trans (ht'.other t hslot hne)⟩

theorem Fresh.seen (h : Fresh st mid r') (ht : SameTimers mid st' r'.slot) : Fresh st st' r' := by
  obtain ⟨hnot, n, hnew, hslot, hnone, hstate⟩ := h
  refine ⟨hnot, n, hnew, hslot, fun t hs hne => (ht t hs).trans (hnone t hs hne), ?_⟩
  rcases hstate with heq | ⟨d, heq, hd⟩
  · exact Or.inl heq
  · exact Or.inr ⟨d, heq, (ht _ rfl).trans hd⟩

theorem timer_startSlot (st : RunState) (s : Slot) (d : Timestamp) (t : TimerId) :
    (st.startSlot s d).timer t
      = if t = .slot .startDeadline s then some ⟨d, .startDeadline⟩ else st.timer t :=
  RunState.timer_arm _ _ _

theorem Arms.stays (hord : Ordered st.ids) (h : Arms st st') :
    ∀ r' ∈ st'.slots, ∃ r ∈ st.slots, Stays st st' r r' := by
  induction h with
  | refl => exact fun r' hr' => ⟨r', hr', .same rfl (.refl _ _)⟩
  | @start st st' r₀ hr₀ hp hprep hpersona d h ih =>
    intro r' hr'
    have hrep := replaces_startSlot hord hr₀ hp d
    obtain ⟨y, hy, hstays⟩ := ih (hrep.ids_eq ▸ hord) r' hr'
    rcases hrep.mem_iff.mp hy with rfl | ⟨hy, hne⟩
    · -- The slot that starts is not waiting any more.
      cases hstays with
      | starts _ hs _ _ => cases hs
      | same heq ht =>
        refine ⟨r₀, hr₀, .starts d hp heq ⟨?_, fun t hslot hne => ?_⟩⟩
        · exact (ht _ rfl).trans ((timer_startSlot st _ d _).trans (if_pos rfl))
        · exact (ht _ hslot).trans ((timer_startSlot st _ d _).trans (if_neg hne))
    · refine ⟨y, hy, hstays.after fun t hslot => ?_⟩
      refine (timer_startSlot st _ d t).trans (if_neg ?_)
      rintro rfl
      exact hne (Option.some.inj hslot).symm

theorem Starts.stays {now : Timestamp} {step : StepId} {visit attempt : Nat}
    {members : List Handle} (h : Starts now mid step visit attempt members st') (hmid : Coh mid)
    (hord : Ordered st'.ids) :
    ∀ r' ∈ st'.slots, Fresh mid st' r' ∨ ∃ r ∈ mid.slots, Stays mid st' r r' := by
  obtain ⟨new, ho, -⟩ := opened_of_stepStarted mid step visit attempt members now
  have hids : st'.ids = mid.ids ++ new.map SlotRecord.slot := by
    rw [h.arms.keeps_ids, ho.ids]
  have hopened : Ordered
      (applyDecision mid (.stepStarted step visit attempt members) now).ids := by
    rw [← h.arms.keeps_ids]
    exact hord
  have htimers : ∀ s, SameTimers mid
      (applyDecision mid (.stepStarted step visit attempt members) now) s :=
    fun s => .of_eq (by rw [ho.eq])
  intro r' hr'
  obtain ⟨y, hy, hstays⟩ := h.arms.stays hopened r' hr'
  rw [ho.slots, List.mem_append] at hy
  rcases hy with hy | hy
  · exact Or.inr ⟨y, hy, hstays.after (htimers _)⟩
  · left
    have hnot : y.slot ∉ mid.ids := by
      have hnd := hord.nodup
      rw [hids, List.nodup_append] at hnd
      exact fun hmem => hnd.2.2 _ hmem _ (List.mem_map.mpr ⟨y, hy, rfl⟩) rfl
    have hnone : ∀ t : TimerId, t.slot? = some y.slot → mid.timer t = none :=
      fun t ht => hmid.known.timer_none ht hnot
    have hslot := hstays.slot
    refine ⟨hslot ▸ hnot, y, ho.isNew y hy, hslot.symm, ?_, ?_⟩
    · intro t ht hne
      rw [hslot] at ht hne
      cases hstays.after (htimers _) with
      | same _ hsame => exact (hsame t ht).trans (hnone t ht)
      | starts d _ _ harmed => exact (harmed.other t ht hne).trans (hnone t ht)
    · cases hstays with
      | same heq _ => exact Or.inl heq
      | starts d _ heq harmed => exact Or.inr ⟨d, heq, hslot ▸ harmed.armed⟩

/-! ## Moves -/

theorem Changes.of_stays (h : ∀ r' ∈ st'.slots,
      Fresh mid st' r' ∨ ∃ r ∈ mid.slots, Stays mid st' r r') (hslots : mid.slots = st.slots)
    (htimers : ∀ s, SameTimers st mid s) : Changes st input st' := by
  have hids : mid.ids = st.ids := by
    unfold RunState.ids
    rw [hslots]
  intro r' hr'
  rcases h r' hr' with ⟨hnot, hnew⟩ | ⟨r, hr, hstays⟩
  · exact Or.inl ⟨hids ▸ hnot, hnew⟩
  · exact Or.inr ⟨r, hslots ▸ hr, hstays.slot.symm, .stays (hstays.after (htimers _))⟩

theorem Replaces.sameTimers (hrep : Replaces st mid r x) {s : Slot} (hne : s ≠ r.slot) :
    SameTimers st mid s := by
  intro t ht
  refine hrep.other t ?_
  rw [ht]
  exact fun heq => hne (Option.some.inj heq)

/-- A move, and what starts after it. -/
theorem Changes.of_move (hmove : SlotMove st input r x g) (hland : Landed st mid r x g)
    (hx : x.state ≠ .pending) (h : ∀ r' ∈ st'.slots,
      Fresh mid st' r' ∨ ∃ r ∈ mid.slots, Stays mid st' r r') : Changes st input st' := by
  have hrep := hland.replaces
  intro r' hr'
  rcases h r' hr' with ⟨hnot, hnew⟩ | ⟨y, hy, hstays⟩
  · exact Or.inl ⟨hrep.ids_eq ▸ hnot, hnew⟩
  rcases hrep.mem_iff.mp hy with rfl | ⟨hy, hne⟩
  · refine Or.inr ⟨r, hrep.mem, hrep.slot.symm.trans hstays.slot.symm, ?_⟩
    cases hstays with
    | starts _ hs _ _ => exact absurd hs hx
    | same heq ht =>
      refine .moves hmove (fun n => ?_) (.here heq)
      rw [← hland.graces n]
      unfold RunState.graceArmed
      rw [ht _ (by rw [hrep.slot]; rfl)]
  · exact Or.inr ⟨y, hy, hstays.slot.symm, .stays (hstays.after (hrep.sameTimers hne))⟩

/-- A move, and the park or the hold it ends in. -/
theorem Changes.of_condition (hmove : SlotMove st input r x g) (hland : Landed st mid r x g)
    (hland' : Landed mid st' x r' fun _ => false) (hg : ∀ n, g n = false)
    (hends : EndsAs st' input.now x r') : Changes st input st' := by
  have hrep := hland.replaces
  have hrep' := hland'.replaces
  intro y hy
  right
  rcases hrep'.mem_iff.mp hy with rfl | ⟨hy, hne'⟩
  · refine ⟨r, hrep.mem, hrep.slot.symm.trans hrep'.slot.symm, .moves hmove (fun n => ?_) hends⟩
    rw [hg, ← hland'.graces n, hrep.slot]
  rcases hrep.mem_iff.mp hy with rfl | ⟨hy, hne⟩
  · exact absurd rfl hne'
  · exact ⟨y, hy, rfl, .stays (.same rfl
      ((hrep.sameTimers hne).trans (hrep'.sameTimers (hrep.slot.symm ▸ hne))))⟩

/-! ## The end of the run -/

theorem Changes.same {y : RunState} (hslots : y.slots = st.slots) (ht : ∀ s, SameTimers st y s) :
    Changes st input y := by
  intro r' hr'
  exact Or.inr ⟨r', hslots ▸ hr', rfl, .stays (.same rfl (ht _))⟩

/-- The end of the run right after a reply. -/
theorem Changes.of_last {o : Outcome} {reason : ReasonCode} (hover : st.isOver = false)
    (hmove : SlotMove st input r x g) (hland : Landed st mid r x g) (hg : ∀ n, g n = false)
    (hx : x.state.isReplied = true) (hslots : st'.slots = mid.slots)
    (htimers : st'.timers = mid.timers) :
    Changes st input (st'.finishing o reason input.now) := by
  have hrep := hland.replaces
  have hread : ∀ t : TimerId, (st'.finishing o reason input.now).timer t
      = (mid.timer t).filter fun a => keepsFinishing (t.text, a) := by
    intro t
    rw [timer_finishing]
    unfold RunState.timer
    rw [htimers]
  intro r' hr'
  obtain ⟨y, hy, rfl⟩ := List.mem_map.mp hr'
  have hy' : y ∈ st'.slots := hy
  rw [hslots] at hy'
  right
  rcases hrep.mem_iff.mp hy' with rfl | ⟨hy', hne⟩
  · refine ⟨r, hrep.mem, hrep.slot.symm, .moves hmove (fun n => ?_) (.isOver hx ?_)⟩
    · have hnone : mid.graceArmed r.slot n = false := (hland.graces n).trans (hg n)
      unfold RunState.graceArmed at hnone ⊢
      rw [hg, hread, Option.isSome_eq_false_iff.mp hnone |> Option.isNone_iff_eq_none.mp]
      rfl
    · have hstate := SlotRecord.finish_replied hx st'.withdrawn input.now
      show ({ y with condition := none, state := (y.finish st'.withdrawn input.now).state } :
        SlotRecord) = _
      rw [hstate]
  · refine ⟨y, hy', rfl, .finishes ⟨hover, rfl, rfl, fun t ht => ?_⟩⟩
    rw [hread, hrep.sameTimers hne t ht]

/-! ## Every transition -/

theorem disarm_sameTimers {t : TimerId} (ht : t.slot? = none) (s : Slot) :
    SameTimers st (st.disarm t) s := by
  intro u hu
  refine (RunState.timer_disarm _ _).trans (if_neg ?_)
  rintro rfl
  rw [ht] at hu
  cases hu

theorem arm_sameTimers {t : TimerId} (ht : t.slot? = none) (a : ArmedTimer) (s : Slot) :
    SameTimers st (st.arm t a) s := by
  intro u hu
  refine (RunState.timer_arm _ _ _).trans (if_neg ?_)
  rintro rfl
  rw [ht] at hu
  cases hu

/-- A run that is over watches no slot that is not live. -/
theorem Coh.timer_of_not_live (h : Coh st) (hover : st.isOver = true) (hlive : st.anyLive = false)
    {t : TimerId} {s : Slot} (ht : t.slot? = some s) : st.timer t = none := by
  cases ha : st.timer t with
  | none => rfl
  | some a =>
    exfalso
    obtain ⟨u, htext, hfits, hmem⟩ := h.known _ _ ha
    cases TimerId.text_injective htext
    obtain ⟨r, hr, rfl⟩ := RunState.mem_ids.mp (hmem s ht)
    have hc := h.slots r hr
    have hnot := RunState.anyLive_false hlive hr
    have hsome : (st.timer t).isSome = true := by rw [ha]; rfl
    cases t with
    | rootDeadline => cases ht
    | treeWindow => cases ht
    | grace n s =>
      cases ht
      have := hc.alive (hc.grace n hsome)
      rw [hnot] at this
      cases this
    | slot p s =>
      cases ht
      have hmay := hc.may p hsome
      obtain ⟨hret, hheld⟩ := hc.isOver hover
      unfold SlotRecord.mayArm at hmay
      cases hs : r.state with
      | ended cause => simp [hs, hheld] at hmay
      | replied m esc rew process overdue l =>
        rw [hs] at hnot
        cases process with
        | live => cases hnot
        | ended => simp [hs] at hmay
      | stopping l after => simp [hs] at hmay
      | _ => rw [hs] at hret; cases hret

theorem SlotMove.clears_graces (hmove : SlotMove st input r x g) {key : SessionKey}
    (hb : (∃ cause, input.body = .sessionFact key (.ended cause)) ∨
      ∃ m esc rew, input.body = .reply key m esc rew) (n : Nat) : g n = false := by
  cases hmove with
  | ended _ _ => rfl
  | replied _ _ _ => rfl
  | lingering _ _ => rfl
  | hung _ _ => rfl
  | sign hb' hsign _ =>
    rcases hb with ⟨cause, hb⟩ | ⟨m, esc, rew, hb⟩
    · rw [hb] at hb'
      cases hb'
      cases hsign
    · rw [hb] at hb'
      cases hb'
  | _ => simp_all

/-- **What an accepted input does to every record of a run.** -/
theorem Transition.changes (ht : Transition st input st') (h : Inv st) (h' : Coh st')
    (hacc : ignoredReason st input = none) : Changes st input st' := by
  cases ht with
  | run hm =>
    cases hm with
    | commissioned _ _ => exact .same rfl fun s => arm_sameTimers (t := .rootDeadline) rfl _ s
    | rootOpened _ _ _ => exact .same rfl fun s => disarm_sameTimers (t := .rootDeadline) rfl s
    | rootOpenedLate _ _ _ => exact .same rfl fun s => .of_eq rfl
    | claimBusy _ _ => exact .same rfl fun s => .of_eq rfl
    | released _ hphase hready =>
      obtain ⟨-, -, -, -, hlive, -⟩ := readyToRelease_spec hready
      have hover : st.isOver = true := by
        unfold RunState.isOver RunState.isFinishing
        rw [hphase]
        rfl
      refine .same rfl fun s t ht => ?_
      exact (h.coh.timer_of_not_live hover hlive ht).symm
    | treeParked _ _ => exact .same rfl fun s => .of_eq rfl
    | delivered _ _ _ => exact .same rfl fun s => .of_eq rfl
    | attended _ hsteady _ hslot _ =>
      refine .same (steady_keeps hsteady RunState.slots fun _ => rfl) fun s t ht => hslot t ?_
      rw [ht]
      exact fun h => by cases h
  | @claimed b d mid a _ _ _ hbegins _ =>
    have hmid : Coh { st with claimSince := some input.now } := h.coh.aside rfl rfl rfl rfl rfl rfl rfl
    have hsame := fun s => @arm_sameTimers mid .treeWindow rfl a s
    refine .of_stays (fun r' hr' => ?_)
      (show ({ st with claimSince := some input.now } : RunState).slots = st.slots from rfl)
      fun s => .of_eq rfl
    rcases hbegins.stays hmid h'.ordered r' hr' with hnew | ⟨r, hr, hstays⟩
    · exact Or.inl (hnew.seen (hsame _))
    · exact Or.inr ⟨r, hr, hstays.seen (hsame _)⟩
  | @prepared base found st' _ _ harms _ =>
    have hord : Ordered (st.prepared base found).ids := h.coh.ordered
    refine .of_stays (fun r' hr' => Or.inr (harms.stays hord r' hr'))
      (show (st.prepared base found).slots = st.slots from rfl) fun s => ?_
    exact disarm_sameTimers (t := .treeWindow) rfl s
  | slot hmove hland _ =>
    intro r' hr'
    right
    rcases hland.replaces.mem_iff.mp hr' with rfl | ⟨hy, hne⟩
    · exact ⟨_, hland.replaces.mem, hland.replaces.slot.symm, .moves hmove hland.graces (.here rfl)⟩
    · exact ⟨r', hy, rfl, .stays (.same rfl (hland.replaces.sameTimers hne))⟩
  | @ended r g cause mid st' hb hmove hland hlive hj hafter =>
    have hnot : (r.ended input.now cause).state ≠ .pending := by
      unfold SlotRecord.ended SlotRecord.end'
      cases hs : r.state <;> exact fun h => by cases h
    split at hafter
    · subst hafter
      refine .of_move hmove hland hnot fun r' hr' => Or.inr ⟨r', hr', .same rfl (.refl _ _)⟩
    · cases hafter with
      | isOver _ harms _ =>
        exact .of_move hmove hland hnot fun r' hr' =>
          Or.inr (harms.stays hland.coh.ordered r' hr')
      | restart _ _ _ hre => exact .of_move hmove hland hnot (hre.stays hland.coh h'.ordered)
      | park hwas hreason hp =>
        exact .of_condition hmove hland hp (hmove.clears_graces (Or.inl ⟨_, hb⟩))
          (.parked (hj hwas).state hreason rfl)
      | hold hwas _ _ _ hp hretry =>
        exact .of_condition hmove hland hp (hmove.clears_graces (Or.inl ⟨_, hb⟩))
          (.held (hj hwas).state rfl hretry)
  | @replied r r' g m esc rew mid asked st' hb hr' hwork hmove hland hasked hcoh hafter =>
    have hover : st.isOver = false := isOver_eq_false (accepted_reply hacc hb).choose_spec.2.2
      (accepted_not_finished hacc)
    have hkeeps : asked.slots = mid.slots ∧ asked.timers = mid.timers := by
      rw [hasked]
      split <;> exact ⟨rfl, rfl⟩
    have hreplied : r'.state.isReplied = true := by rw [hr']; rfl
    have hnot : r'.state ≠ .pending := by
      intro hs
      rw [hs] at hreplied
      cases hreplied
    -- What starts after the reply, from the state with its question asked.
    have hstarts : ∀ {a b : RunState}, (∀ x ∈ b.slots, Fresh a b x ∨ ∃ y ∈ a.slots, Stays a b y x) →
        a.slots = asked.slots → a.timers = asked.timers → Changes st input b := by
      intro a b hb hslots htimers
      refine .of_move hmove hland hnot fun x hx => ?_
      rcases hb x hx with ⟨hfresh, hnew⟩ | ⟨y, hy, hstays⟩
      · refine Or.inl ⟨?_, hnew⟩
        unfold RunState.ids at hfresh ⊢
        rwa [hslots, hkeeps.1] at hfresh
      · rw [hslots, hkeeps.1] at hy
        exact Or.inr ⟨y, hy, hstays.after (.of_eq (htimers.trans hkeeps.2))⟩
    have hstay : Changes st input asked :=
      hstarts (fun x hx => Or.inr ⟨x, hx, .same rfl (.refl _ _)⟩) rfl rfl
    cases hafter with
    | elsewhere _ => exact hstay
    | waits _ _ _ => exact hstay
    | consolidates _ _ _ _ _ hs => exact hstarts (hs.stays hcoh h'.ordered) rfl rfl
    | waitsSynthesis _ _ _ _ _ _ => exact hstay
    | @done _ replies _ _ _ _ _ hf =>
      generalize replies.any id = needsRework at hf
      cases hf with
      | rework _ _ hre =>
        obtain ⟨d', -, hs⟩ := hre
        exact hstarts (hs.stays ((hcoh.finishStep _ _ _ _).rework _ _ _ _) h'.ordered) rfl rfl
      | ceiling _ _ _ =>
        exact hstarts (a := asked) (fun x hx => Or.inr ⟨x, hx, .same rfl (.of_eq rfl)⟩) rfl rfl
      | next _ _ _ hs => exact hstarts (hs.stays (hcoh.finishStep _ _ _ _) h'.ordered) rfl rfl
      | last _ _ =>
        exact .of_last hover hmove hland
          (hmove.clears_graces (Or.inr ⟨_, _, _, hb⟩)) hreplied hkeeps.1 hkeeps.2
  | @resumed r c g slot cause mid st' hb hc hw hmove hland hj hre =>
    exact .of_move hmove hland (by rw [hj.state]; exact fun h => by cases h)
      (hre.stays hland.coh h'.ordered)
  | @retried r g fireAt cause mid st' hb hs hc hlast hover hmove hland hretry hre =>
    exact .of_move hmove hland (by rw [hs]; exact fun h => by cases h)
      (hre.stays hland.coh h'.ordered)
  | answered _ _ _ _ _ _ _ _ hcoh hre =>
    exact .of_stays (hre.stays hcoh h'.ordered) rfl fun s => .of_eq rfl
  | continued _ _ _ _ _ _ _ hcoh hre =>
    obtain ⟨d', -, hs⟩ := hre
    exact .of_stays (hs.stays (hcoh.rework _ _ _ _) h'.ordered) rfl fun s => .of_eq rfl
  | acceptedNext _ _ _ _ _ _ _ _ hcoh hs =>
    exact .of_stays (hs.stays hcoh h'.ordered) rfl fun s => .of_eq rfl
  | acceptedLast _ _ _ _ _ _ hfin _ =>
    have hover : st.isOver = false := isOver_eq_false hfin (accepted_not_finished hacc)
    intro r' hr'
    obtain ⟨y, hy, rfl⟩ := List.mem_map.mp hr'
    exact Or.inr ⟨y, hy, rfl, .finishes ⟨hover, rfl, rfl, fun t _ => timer_finishing _ _ _ _ t⟩⟩
  | withdrawn hb hfin _ =>
    have hover : st.isOver = false := isOver_eq_false hfin (accepted_not_finished hacc)
    intro r' hr'
    obtain ⟨y, hy, rfl⟩ := List.mem_map.mp hr'
    obtain ⟨z, hz, rfl⟩ := List.mem_map.mp hy
    exact Or.inr ⟨z, hz, rfl, .withdrawn hb rfl
      ⟨hover, rfl, rfl, fun t _ => timer_finishing st.withdraw _ _ _ t⟩⟩
  | forced hb _ _ =>
    intro r' hr'
    obtain ⟨y, hy, rfl⟩ := List.mem_map.mp hr'
    exact Or.inr ⟨y, hy, rfl, .forced hb rfl rfl (.of_eq rfl)⟩

end

end NexusFlow.Run
