import NexusFlow.Run.Ending
import NexusFlow.Host.Claims

/-!
# The release of a claim

Whether a claim outlives its run. A run gives its claim up before it is finished: `finished` is the
answer to `claim_released` (`finished_of_decide`), and a host reports that only when it found the claim
of the run's workspace another's, or absent, or gave it up.

* `claim_left_behind`: `take_claims` does not ask for the lease again before its compare-and-set, as
  every other effect does, so a host that stalled takes the absent claim of a run that has given it up
  and is finished.
* `claim_released_by_its_run`: where no host does so, no claim is held by a finished run.

The workspace a release names is the one the log's commission named, and the workspace a claim is
taken in is that of the run's row; `Commissioned` is why these are the same.
-/

namespace NexusFlow.Host

open NexusFlow.Run
open NexusFlow.Lib

/-! ## The commission of a log -/

section Commission

variable {run : RunId} {flow : FlowDef} {log p : List Event}

/-- The workspace the first event of a log names. -/
def logWorkspace (log : List Event) : Option String :=
  log.head?.bind fun e => commissionedWorkspace e.body

/-- What the event is not, no fold of it changes. -/
theorem evolve_given (st : RunState) {e : Event} (h : commissionedWorkspace e.body = none) :
    (evolve st e).given = st.given := by
  cases hd : isDecision e.body with
  | false =>
    rw [evolve_input hd]
    refine applyInput_given st fun w f p t q hb => ?_
    rw [hb] at h
    cases h
  | true =>
    cases hb : e.body with
    | decision d =>
      have heq : evolve st e = applyDecision st d e.now := by
        unfold evolve
        rw [hb]
      rw [heq]
      exact applyDecision_given st d e.now
    | _ => rw [hb] at hd; cases hd

theorem foldl_evolve_given (events : List Event)
    (h : ∀ e ∈ events, commissionedWorkspace e.body = none) :
    ∀ st : RunState, (events.foldl evolve st).given = st.given := by
  induction events with
  | nil => exact fun _ => rfl
  | cons e events ih =>
    intro st
    rw [List.foldl_cons, ih fun e' he' => h e' (List.mem_cons_of_mem _ he')]
    exact evolve_given st (h e List.mem_cons_self)

/-- **A run is what its first event made it**: every longer beginning of its log agrees. -/
theorem foldLog_given (hfirst : ∀ e ∈ log.tail, commissionedWorkspace e.body = none)
    (hp : p <+: log) (hne : p ≠ []) : (foldLog run flow p).given = (foldLog run flow log).given := by
  obtain ⟨rest, rfl⟩ := hp
  cases p with
  | nil => exact absurd rfl hne
  | cons e p =>
    rw [List.cons_append, List.tail_cons] at hfirst
    unfold foldLog
    rw [List.cons_append, List.foldl_cons, List.foldl_cons, foldl_evolve_given _ hfirst]
    exact foldl_evolve_given _ (fun e' he' => hfirst e' (List.mem_append_left _ he')) _

theorem ne_nil_of_commissioned (h : (foldLog run flow log).commissioned = true) : log ≠ [] := by
  rintro rfl
  cases h

/-- The workspace of a run that is commissioned is the one its first event names. -/
theorem logWorkspace_of_commissioned
    (hfirst : ∀ e ∈ log.tail, commissionedWorkspace e.body = none)
    (h : (foldLog run flow log).commissioned = true) :
    logWorkspace log = some (foldLog run flow log).workspace := by
  cases log with
  | nil => cases h
  | cons e log =>
    have hgiven : (foldLog run flow (e :: log)).given = (evolve (.initial run flow) e).given :=
      foldl_evolve_given log hfirst _
    have hcommissioned : (foldLog run flow (e :: log)).commissioned =
        (evolve (.initial run flow) e).commissioned := congrArg (fun g => g.2.2.1) hgiven
    have hworkspace : (foldLog run flow (e :: log)).workspace =
        (evolve (.initial run flow) e).workspace := congrArg (fun g => g.2.2.2) hgiven
    rw [hcommissioned] at h
    rw [hworkspace]
    unfold logWorkspace
    rw [List.head?_cons, Option.bind_some]
    cases hb : e.body with
    | commissioned w f p t q =>
      have hi : ignoredReason (.initial run flow) e = none := by
        simp only [ignoredReason, hb]
        rfl
      unfold evolve applyInput applyBody
      simp only [hb, hi]
      rfl
    | _ =>
      have hsame : (evolve (.initial run flow) e).commissioned =
          (RunState.initial run flow).commissioned :=
        congrArg (fun g => g.2.2.1) (evolve_given _ (by rw [hb]; rfl))
      rw [hsame] at h
      cases h

end Commission

/-! ## The commission of a store's runs -/

/-- **The commission of a log is its first event, and names the workspace of the run's row.** -/
structure Commissioned (s : Store) : Prop where
  first : ∀ run, ∀ e ∈ (s.load run).tail, commissionedWorkspace e.body = none
  row : ∀ run w, logWorkspace (s.load run) = some w → s.workspace run = some w

theorem checkCommissionedPosition_ok {events : List Envelope} {lastSeq : Nat} {row : Option RunRow}
    (h : checkCommissionedPosition events lastSeq row = .ok ()) {e : Envelope} {i : Nat}
    (he : (e, i) ∈ events.zipIdx) {w : String} (hw : commissionedWorkspace e.body = some w) :
    lastSeq = 0 ∧ i = 0 ∧ ∀ r, row = some r → r.workspaceId = w := by
  unfold checkCommissionedPosition at h
  simp only at h
  split_ifs at h with hbad
  rw [Bool.not_eq_true, List.any_eq_false] at hbad
  have hne := hbad (e, i) he
  simp only [hw, Bool.or_eq_true, decide_eq_true_eq, not_or, not_not] at hne
  obtain ⟨⟨hlast, hi⟩, hrow⟩ := hne
  refine ⟨hlast, hi, fun r hr => ?_⟩
  rw [hr, Option.any_some] at hrow
  simpa using hrow

theorem Written.commissioned {s s' : Store} {run : RunId} {events : List Envelope}
    {consume : List Key} {cas : List Cas} (h : Commissioned s)
    (hlast : s.lastSeq run = (s.load run).length) (hw : Written s run events consume cas s')
    (hload : ∀ other, s'.load other =
      s.load other ++ if other = run then events.map Envelope.toEvent else []) :
    Commissioned s' := by
  obtain ⟨row, hrow, hposition, hrows, -⟩ := hw.row
  have hseq : row.lastSeq = (s.load run).length := (openRow_lastSeq hrow).trans hlast
  have hindex : ∀ i e w, events[i]? = some e → commissionedWorkspace e.body = some w →
      (s.load run).length = 0 ∧ i = 0 ∧ ∀ r, s.rows run = some r → r.workspaceId = w := by
    intro i e w hi hbody
    rw [← hseq]
    exact checkCommissionedPosition_ok hposition (List.mk_mem_zipIdx_iff_getElem?.mpr hi) hbody
  have hself := hload run
  rw [if_pos rfl] at hself
  refine ⟨fun other e he => ?_, fun other w hother => ?_⟩
  · by_cases hrun : other = run
    · subst hrun
      rw [hself] at he
      obtain ⟨i, hi⟩ := List.mem_iff_getElem?.mp he
      rw [List.getElem?_tail] at hi
      by_cases hold : i + 1 < (s.load other).length
      · rw [List.getElem?_append_left hold, ← List.getElem?_tail] at hi
        exact h.first other e (List.mem_of_getElem? hi)
      · rw [List.getElem?_append_right (Nat.le_of_not_lt hold), List.getElem?_map,
          Option.map_eq_some_iff] at hi
        obtain ⟨env, henv, rfl⟩ := hi
        cases hbody : commissionedWorkspace env.body with
        | none => rfl
        | some w =>
          obtain ⟨hzero, hi, -⟩ := hindex _ env w henv hbody
          omega
    · rw [hload, if_neg hrun, List.append_nil] at he
      exact h.first other e he
  · by_cases hrun : other = run
    · subst hrun
      unfold Store.workspace
      rw [hrows, setRun_self]
      suffices hid : row.workspaceId = w from congrArg some hid
      rw [hself] at hother
      cases hlog : s.load other with
      | cons e log =>
        have hold : logWorkspace (s.load other) = some w := by
          rw [hlog] at hother ⊢
          exact hother
        exact openRow_workspace hrow (h.row other w hold)
      | nil =>
        rw [hlog, List.nil_append] at hother
        cases events with
        | nil => cases hother
        | cons first rest =>
          have hbody : commissionedWorkspace first.body = some w := hother
          cases hr : s.rows other with
          | some r =>
            have hw : s.workspace other = some w := by
              unfold Store.workspace
              rw [hr]
              exact congrArg some ((hindex 0 first w rfl hbody).2.2 r hr)
            exact openRow_workspace hrow hw
          | none =>
            simp only [openRow, hr, createRun, hbody] at hrow
            cases hrow
            rfl
    · rw [hload, if_neg hrun, List.append_nil] at hother
      exact hw.workspace other w (h.row other w hother)

section Released

variable {flow : RunId → FlowDef} {codec : Codec}

theorem HostMove.commissioned {c c' : Hosts} {a : HostAct} (hm : HostMove flow codec c a c')
    (hkept : c.Kept flow codec) (h : Commissioned c.store) : Commissioned c'.store := by
  cases hm with
  | @committed _ _ _ _ v r input s' _ _ _ _ _ _ _ hw hload =>
    refine hw.commissioned h (hkept.lastSeq v.run) fun other => ?_
    rw [map_blockOf]
    exact hload other
  | @aside _ _ _ _ _ v r s' _ _ _ _ hw hload => exact hw.commissioned h (hkept.lastSeq v.run) hload
  | enqueued he =>
    have hload := load_of_events he.events
    refine ⟨fun run => ?_, fun run w hw => ?_⟩
    · rw [hload]
      exact h.first run
    · rw [hload] at hw
      exact he.workspace run w (h.row run w hw)
  | _ => exact ⟨h.first, h.row⟩

/-- A run is queued once its root is open. -/
theorem Trace.opened {run : RunId} {flow : FlowDef} {log : List Event} (hwf : flow.WF)
    (h : Trace run flow log) :
    (∃ e ∈ log, e.body.ctorIdx = (EventBody.rootOpened "" "").ctorIdx) ∨
      (foldLog run flow log).phase = .created ∨ (foldLog run flow log).isOver = true := by
  induction h with
  | nil => exact Or.inr (Or.inl rfl)
  | @input log h input hin ih =>
    rcases ih with ⟨e, he, hb⟩ | hphase
    · exact Or.inl ⟨e, List.mem_append_left _ he, hb⟩
    · obtain ⟨entries, hr⟩ := h.reaches
      have hinv := hr.inv hwf
      rw [foldLog_append, foldl_reduce _ _ hin]
      cases hi : ignoredReason (foldLog run flow log) { input with seq := log.length + 1 } with
      | some reason =>
        rw [step_of_ignored (by rw [hi]; rfl)]
        exact Or.inr hphase
      | none =>
        have hfront := (step_transition hinv.coh hinv.route hi).1.front hinv hi
        rcases hphase with hcreated | hover
        · have hnot : ∀ {p : Phase}, (foldLog run flow log).phase = p → p = .created := fun hp =>
            hp.symm.trans hcreated
          cases hfront with
          | same hs => exact Or.inr (Or.inl (hs.phase.trans hcreated))
          | commissioned _ hp _ _ _ => exact Or.inr (Or.inl (hp.trans hcreated))
          | opened hb _ _ _ _ _ _ =>
            refine Or.inl ⟨_, List.mem_append_right _ List.mem_cons_self, ?_⟩
            rw [show input.body = _ from hb]
            rfl
          | busy _ hp _ _ _ _ _ => cases hnot hp
          | claimed _ hp _ _ _ _ => cases hnot hp
          | prepared hp _ _ _ _ _ => cases hnot hp
          | attends hp _ => exact Or.inr (Or.inl (hp.trans hcreated))
          | finishes _ hover' _ _ _ _ => exact Or.inr (Or.inr (RunState.isOver_of_finishing hover'))
          | isOver _ hover' _ _ _ _ => exact Or.inr (Or.inr hover')
        · exact Or.inr (Or.inr (hfront.stays_over hover))
  | @poison log h now key ih =>
    rcases ih with ⟨e, he, hb⟩ | hphase
    · exact Or.inl ⟨e, List.mem_append_left _ he, hb⟩
    · right
      rw [foldLog_append, foldl_poisonEvent, Item.apply_poison]
      exact hphase

/-- A log that holds `finished` holds `claim_released`. -/
theorem Trace.released {run : RunId} {flow : FlowDef} {log : List Event} (h : Trace run flow log)
    {e : Event} (he : e ∈ log) (hfin : isFinishedBody e.body = true) :
    ∃ e' ∈ log, e'.body = .claimReleased := by
  induction h with
  | nil => cases he
  | @input log _ input hin ih =>
    rcases List.mem_append.mp he with he | he
    · obtain ⟨e', he', hb⟩ := ih he
      exact ⟨e', List.mem_append_left _ he', hb⟩
    · refine ⟨_, List.mem_append_right _ List.mem_cons_self, ?_⟩
      rcases List.mem_cons.mp he with rfl | he
      · cases hb : input.body with
        | decision d => rw [hb] at hin; cases hin
        | claimReleased => rfl
        | _ => rw [show _ = input.body from rfl, hb] at hfin; cases hfin
      · obtain ⟨_, d, hd, hb, -⟩ := mem_decisionEvents he
        rw [hb] at hfin
        cases d with
        | finished o reason => exact finished_of_decide hd
        | _ => cases hfin
  | poison _ now key ih =>
    rcases List.mem_append.mp he with he | he
    · obtain ⟨e', he', hb⟩ := ih he
      exact ⟨e', List.mem_append_left _ he', hb⟩
    · rw [List.mem_singleton.mp he] at hfin
      cases hfin

/-! ## Where a claim is -/

/-- The act takes the absent claim of a run that has given it up. -/
def Claims.takesReleased (c : Claims) : ClaimAct → Bool
  | .take look =>
    match c.looked[look]? with
    | some (run, key, none) => c.released.contains run && (c.hosts.store.get key).isNone
    | _ => false
  | _ => false

/-- The key is the claim of the run's workspace. -/
structure Owns (st : RunState) (key : Key) : Prop where
  commissioned : st.commissioned = true
  key : key = claimKey st.workspace

/-- **What holds of the claims where none is taken again**: a run holds, or will take or give up, the
claim of its own workspace only, and holds none once a host found or made it free. -/
structure Claims.Returned (flow : RunId → FlowDef) (codec : Codec) (c : Claims) : Prop where
  kept : c.hosts.Kept flow codec
  commissioned : Commissioned c.hosts.store
  opened : ∀ run, Seen c.hosts run (.rootOpened "" "") → (c.state flow run).commissioned = true
  looked : ∀ run key holder, (run, key, holder) ∈ c.looked → Owns (c.state flow run) key
  holds : ∀ w run, c.hosts.store.get (claimKey w) = some (.text run) → Owns (c.state flow run) (claimKey w)
  releasing : ∀ run key, (run, key) ∈ c.releasing → Owns (c.state flow run) key
  seen : ∀ run, Seen c.hosts run .claimReleased → run ∈ c.released
  released : ∀ run ∈ c.released, ∀ w, c.hosts.store.get (claimKey w) ≠ some (.text run)

/-- A run that is commissioned stays so, in its workspace. -/
theorem commissioned_mono {s s' : Store} {run : RunId} {flow : FlowDef} (h' : Commissioned s')
    (hlog : ∃ block, s'.load run = s.load run ++ block)
    (h : (foldLog run flow (s.load run)).commissioned = true) :
    (foldLog run flow (s'.load run)).given = (foldLog run flow (s.load run)).given := by
  obtain ⟨block, hload⟩ := hlog
  refine (foldLog_given (h'.first run) ?_ (ne_nil_of_commissioned h)).symm
  rw [hload]
  exact List.prefix_append _ _

theorem Owns.mono {c c' : Claims} {run : RunId} {key : Key} (h : Owns (c.state flow run) key)
    (h' : Commissioned c'.hosts.store)
    (hlog : ∃ block, c'.hosts.store.load run = c.hosts.store.load run ++ block) :
    Owns (c'.state flow run) key := by
  have hgiven := commissioned_mono h' hlog h.commissioned
  have hcommissioned : (c'.state flow run).commissioned = (c.state flow run).commissioned :=
    congrArg (fun g => g.2.2.1) hgiven
  have hworkspace : (c'.state flow run).workspace = (c.state flow run).workspace :=
    congrArg (fun g => g.2.2.2) hgiven
  refine ⟨hcommissioned.trans h.commissioned, ?_⟩
  rw [hworkspace]
  exact h.key

/-- What a host has folded of a run that has begun says what the run is. -/
theorem Claims.Returned.view {c : Claims} (h : c.Returned flow codec) {v : View}
    (hv : v ∈ c.hosts.views) (hne : v.state ≠ .initial v.run (flow v.run)) :
    v.state.given = (c.state flow v.run).given := by
  obtain ⟨p, hp, -, hstate, -⟩ := h.kept.views v hv
  rw [hstate]
  refine foldLog_given (h.commissioned.first v.run) hp ?_
  rintro rfl
  exact hne hstate

/-- **A call apart from claims.** -/
theorem Claims.Returned.host {c : Claims} (h : c.Returned flow codec) {a : HostAct}
    (ha : a.apart = true) :
    ({ c with hosts := c.hosts.act flow codec a } : Claims).Returned flow codec := by
  have hmove := h.kept.move a
  have hframe := hmove.frame ha
  have hcommissioned := hmove.commissioned h.kept h.commissioned
  have hlog : ∀ run, ∃ block,
      (c.hosts.act flow codec a).store.load run = c.hosts.store.load run ++ block := by
    intro run
    obtain ⟨block, hload, -⟩ := hframe.log run
    exact ⟨block, hload⟩
  have howns : ∀ {run key}, Owns (c.state flow run) key →
      Owns (({ c with hosts := c.hosts.act flow codec a } : Claims).state flow run) key :=
    fun {run _} ho => ho.mono hcommissioned (hlog run)
  have hclaim : ∀ w, (c.hosts.act flow codec a).store.get (claimKey w) =
      c.hosts.store.get (claimKey w) := fun w => hframe.claim _ (isClaimKey_claimKey w)
  refine ⟨h.kept.act a, hcommissioned, fun run hseen => ?_, fun run key holder hmem => ?_,
    fun w run hget => ?_, fun run key hmem => ?_, fun run hseen => ?_, fun run hmem w => ?_⟩
  · have hbefore := h.opened run (hframe.seen rfl hseen)
    have hgiven := commissioned_mono hcommissioned (hlog run) hbefore
    exact (congrArg (fun g => g.2.2.1) hgiven).trans hbefore
  · exact howns (h.looked run key holder hmem)
  · exact howns (h.holds w run ((hclaim w).symm.trans hget))
  · exact howns (h.releasing run key hmem)
  · exact h.seen run (hframe.seen rfl hseen)
  · rw [show (c.hosts.act flow codec a).store.get (claimKey w) = _ from hclaim w]
    exact h.released run hmem w

/-- **An input that reports what a host did.** -/
theorem Claims.Returned.report {c : Claims} (h : c.Returned flow codec) {run : RunId}
    (event : Envelope)
    (hroot : event.body.ctorIdx = (EventBody.rootOpened "" "").ctorIdx →
      (c.state flow run).commissioned = true)
    (hrelease : event.body.ctorIdx = EventBody.claimReleased.ctorIdx → run ∈ c.released) :
    (c.withStore (c.hosts.store.enqueue run event []).1).Returned flow codec := by
  have hcases := c.hosts.store.enqueue_cases run event []
  generalize c.hosts.store.enqueue run event [] = answer at hcases ⊢
  cases hcases with
  | refused error => exact h
  | duplicate _ => exact h
  | accepted s' he =>
    have hload := load_of_events he.events
    have hkv : s'.kv = c.hosts.store.kv := (Except.ok.inj he.kv).symm
    have hmove : HostMove flow codec c.hosts (.enqueue run event [])
        { c.hosts with store := s' } := .enqueued he
    have hcommissioned : Commissioned s' := hmove.commissioned h.kept h.commissioned
    have hstate : ∀ other, (c.withStore s').state flow other = c.state flow other := by
      intro other
      unfold Claims.state
      rw [show (c.withStore s').hosts.store.load other = _ from hload other]
    have howns : ∀ {other key}, Owns (c.state flow other) key →
        Owns ((c.withStore s').state flow other) key := fun {other _} ho => (hstate other).symm ▸ ho
    have hget : ∀ key, (c.withStore s').hosts.store.get key = c.hosts.store.get key := by
      intro key
      unfold Store.get
      rw [show (c.withStore s').hosts.store.kv = _ from hkv]
    -- What is new in an inbox is this event.
    have hseen : ∀ {other body}, Seen (c.withStore s').hosts other body →
        Seen c.hosts other body ∨ other = run ∧ event.body.ctorIdx = body.ctorIdx := by
      rintro other body (⟨e, hmem, hb⟩ | hrows | ⟨e, hmem, hb⟩)
      · rcases mem_inbox_enqueued he hmem with hmem | ⟨rfl, hbe⟩
        · exact Or.inl (Or.inl ⟨e, hmem, hb⟩)
        · exact Or.inr ⟨rfl, hbe ▸ hb⟩
      · exact Or.inl (Or.inr (Or.inl hrows))
      · rw [show (c.withStore s').hosts.store.load other = _ from hload other] at hmem
        exact Or.inl (Or.inr (Or.inr ⟨e, hmem, hb⟩))
    refine ⟨h.kept.same hload he.lastSeq, hcommissioned, fun other hs => ?_,
      fun other key holder hmem => howns (h.looked other key holder hmem), fun w other hw => ?_,
      fun other key hmem => howns (h.releasing other key hmem), fun other hs => ?_,
      fun other hmem w => ?_⟩
    · rw [hstate]
      rcases hseen hs with hs | ⟨rfl, hb⟩
      · exact h.opened other hs
      · exact hroot hb
    · exact howns (h.holds w other ((hget _).symm.trans hw))
    · rcases hseen hs with hs | ⟨rfl, hb⟩
      · exact h.seen other hs
      · exact hrelease hb
    · rw [hget]
      exact h.released other hmem w

theorem Claims.Returned.openRoot {c : Claims} (h : c.Returned flow codec) (view : Nat)
    (message : MessageId) (now : Timestamp) :
    (c.openRoot view message now).Returned flow codec := by
  unfold Claims.openRoot
  split
  · exact h
  · rename_i v hv
    split_ifs with howed
    · refine h.report _ (fun _ => ?_) fun hb => by cases hb
      have hcommissioned : v.state.commissioned = true := by
        have howes := owes_of_pending howed
        generalize v.run = run at howes
        cases howes with
        | openRoot _ _ hcommissioned => exact hcommissioned
      have hgiven := h.view (List.mem_of_getElem? hv) fun heq => by
        rw [heq] at hcommissioned
        cases hcommissioned
      exact (congrArg (fun g => g.2.2.1) hgiven.symm).trans hcommissioned
    · exact h

/-- The claim a queued run looks at is that of its workspace. -/
theorem Claims.Returned.look {c : Claims} (h : c.Returned flow codec) (hwf : ∀ run, (flow run).WF)
    (view : Nat) : (c.look view).Returned flow codec := by
  unfold Claims.look
  split
  · exact h
  · rename_i v hv
    split
    · rename_i b w hphase hw
      refine ⟨h.kept, h.commissioned, h.opened, fun run key holder hmem => ?_, h.holds, h.releasing,
        h.seen, h.released⟩
      rcases List.mem_append.mp hmem with hmem | hmem
      · exact h.looked run key holder hmem
      · have heq := List.mem_singleton.mp hmem
        cases heq
        obtain ⟨p, hp, htrace, hstate, -⟩ := h.kept.views v (List.mem_of_getElem? hv)
        rw [hstate] at hphase
        have hopened : ∃ e ∈ p, e.body.ctorIdx = (EventBody.rootOpened "" "").ctorIdx := by
          rcases htrace.opened (hwf v.run) with hopened | hcreated | hover
          · exact hopened
          · rw [hcreated] at hphase
            cases hphase
          · unfold RunState.isOver RunState.isFinishing RunState.isFinished at hover
            rw [hphase] at hover
            cases hover
        obtain ⟨e, he, hb⟩ := hopened
        have hcommissioned := h.opened v.run (Or.inr (Or.inr ⟨e, hp.subset he, hb⟩))
        refine ⟨hcommissioned, ?_⟩
        have hrow := h.commissioned.row v.run _
          (logWorkspace_of_commissioned (h.commissioned.first v.run) hcommissioned)
        rw [hw] at hrow
        rw [Option.some.inj hrow]
        rfl
    · exact h

/-- The store moved, and the logs and inboxes did not. -/
theorem Claims.Returned.withKv {c : Claims} (h : c.Returned flow codec) {kv : KeyMap Key Value}
    {released : List RunId} (hsub : ∀ run ∈ c.released, run ∈ released)
    (hholds : ∀ w run, kv.get (claimKey w) = some (.text run) → Owns (c.state flow run) (claimKey w))
    (hfree : ∀ run ∈ released, ∀ w, kv.get (claimKey w) ≠ some (.text run)) :
    ({ c.withStore { c.hosts.store with kv } with released } : Claims).Returned flow codec where
  kept := ⟨h.kept.trace, h.kept.reads, h.kept.lastSeq, h.kept.views⟩
  commissioned := ⟨h.commissioned.first, h.commissioned.row⟩
  opened := h.opened
  looked := h.looked
  holds := hholds
  releasing := h.releasing
  seen run hseen := hsub run (h.seen run hseen)
  released := hfree

theorem Claims.Returned.take {c : Claims} (h : c.Returned flow codec) (look : Nat)
    (hfresh : c.takesReleased (.take look) = false) : (c.take look).Returned flow codec := by
  unfold Claims.take
  split
  · exact h
  · split_ifs
    · exact ⟨h.kept, h.commissioned, h.opened, h.looked, h.holds, h.releasing, h.seen, h.released⟩
    · exact h
  · rename_i run key hlook
    rcases c.hosts.store.compareAndSet_cases key none (some (.text run)) with
      ⟨error, hmove⟩ | ⟨kv, hkv, hmove⟩
    · simp only [hmove]
      exact h
    · simp only [hmove]
      obtain ⟨hfrom, -, -, -, rfl⟩ := applyCas_ok hkv
      have howns := h.looked run key none (List.mem_of_getElem? hlook)
      have hnot : run ∉ c.released := by
        simp only [Claims.takesReleased, hlook] at hfresh
        rw [show c.hosts.store.get key = none from hfrom] at hfresh
        simpa using hfresh
      have hnext := @Claims.Returned.withKv _ _ _ h
        (writeValue c.hosts.store.kv key (some (.text run))) c.released (fun _ => id) (fun w other hget => ?_) fun other hmem w hget => ?_
      · exact ⟨hnext.kept, hnext.commissioned, hnext.opened, hnext.looked, hnext.holds,
          hnext.releasing, hnext.seen, hnext.released⟩
      · rw [get_writeValue] at hget
        split_ifs at hget with hkey
        · cases hget
          rw [hkey]
          exact howns
        · exact h.holds w other hget
      · rw [get_writeValue] at hget
        split_ifs at hget with hkey
        · cases hget
          exact hnot hmem
        · exact h.released other hmem w hget

/-- A run that finds the claim of its workspace free, or another's, holds none. -/
theorem Claims.Returned.lookRelease {c : Claims} (h : c.Returned flow codec) (view : Nat) :
    (c.lookRelease view).Returned flow codec := by
  unfold Claims.lookRelease
  split
  · exact h
  · rename_i v hv
    split
    · exact h
    · rename_i w howed
      have hworkspace : w = v.state.workspace := by
        unfold releaseOwed at howed
        obtain ⟨effect, hmem, heff⟩ := List.exists_of_findSome?_eq_some howed
        cases effect with
        | releaseClaim w' =>
          cases heff
          cases owes_of_pending hmem
          rfl
        | _ => cases heff
      have hgiven := h.view (List.mem_of_getElem? hv) fun heq => by
        have hover := (allOver_of_releaseOwed howed).isOver
        rw [heq] at hover
        cases hover
      split_ifs with hheld
      · refine ⟨h.kept, h.commissioned, h.opened, h.looked, h.holds, fun run key hmem => ?_, h.seen,
          h.released⟩
        rcases List.mem_append.mp hmem with hmem | hmem
        · exact h.releasing run key hmem
        · have heq := List.mem_singleton.mp hmem
          cases heq
          exact h.holds w v.run hheld
      · refine ⟨h.kept, h.commissioned, h.opened, h.looked, h.holds, h.releasing, fun run hseen => ?_,
          fun run hmem w' hget => ?_⟩
        · exact List.mem_append_left _ (h.seen run hseen)
        · rcases List.mem_append.mp hmem with hmem | hmem
          · exact h.released run hmem w' hget
          · rw [List.mem_singleton.mp hmem] at hget
            have hkey := (h.holds w' v.run hget).key
            rw [← show v.state.workspace = (c.state flow v.run).workspace from
              congrArg (fun g => g.2.2.2) hgiven, ← hworkspace] at hkey
            rw [hkey] at hget
            exact hheld hget

theorem Claims.Returned.release {c : Claims} (h : c.Returned flow codec) (place : Nat) :
    (c.release place).Returned flow codec := by
  unfold Claims.release
  split
  · exact h
  · rename_i run key hplace
    rcases c.hosts.store.compareAndSet_cases key (some (.text run)) none with
      ⟨error, hmove⟩ | ⟨kv, hkv, hmove⟩
    · simp only [hmove]
      exact h
    · simp only [hmove]
      obtain ⟨-, -, -, -, rfl⟩ := applyCas_ok hkv
      have howns := h.releasing run key (List.mem_of_getElem? hplace)
      refine h.withKv (fun _ hmem => List.mem_append_left _ hmem) (fun w other hget => ?_)
        fun other hmem w hget => ?_
      · rw [get_writeValue] at hget
        split_ifs at hget with hkey
        exact h.holds w other hget
      · rw [get_writeValue] at hget
        split_ifs at hget with hkey
        rcases List.mem_append.mp hmem with hmem | hmem
        · exact h.released other hmem w hget
        · rw [List.mem_singleton.mp hmem] at hget
          exact hkey ((h.holds w run hget).key.trans howns.key.symm)

/-- **One act that takes no claim again.** -/
theorem Claims.Returned.act {c : Claims} (h : c.Returned flow codec) (hwf : ∀ run, (flow run).WF)
    (a : ClaimAct) (hfresh : c.takesReleased a = false) :
    (c.act flow codec a).Returned flow codec := by
  cases a with
  | host a =>
    simp only [Claims.act]
    split_ifs with ha
    · exact h.host ha
    · exact h
  | openRoot view message now => exact h.openRoot view message now
  | look view => exact h.look hwf view
  | take look => exact h.take look hfresh
  | reportTaken place now =>
    simp only [Claims.act]
    split
    · exact h
    · exact h.report _ (fun hb => by cases hb) fun hb => by cases hb
  | lookRelease view => exact h.lookRelease view
  | release place => exact h.release place
  | reportReleased place now =>
    simp only [Claims.act]
    split
    · exact h
    · rename_i run hrun
      exact h.report _ (fun hb => by cases hb) fun _ => List.mem_of_getElem? hrun

theorem Claims.start_returned : Claims.start.Returned flow codec where
  kept := Hosts.start_kept
  commissioned := ⟨fun _ _ he => (List.not_mem_nil he).elim, fun _ _ hw => by cases hw⟩
  opened run hseen := (not_seen_start run _ hseen).elim
  looked _ _ _ hmem := (List.not_mem_nil hmem).elim
  holds _ _ hget := by cases hget
  releasing _ _ hmem := (List.not_mem_nil hmem).elim
  seen run hseen := (not_seen_start run _ hseen).elim
  released _ hmem := (List.not_mem_nil hmem).elim

/-- **A claim is given up by its own run.** For any number of hosts whose ticks stall, lose their lease
and go on, however their store calls interleave, where no host takes an absent claim for a run that
has given it up: a run that holds a claim has no `finished` in its log. -/
theorem claim_released_by_its_run
    (hc : ∀ run, ∃ decl review, compile decl review = .ok (flow run)) {c : Claims}
    (h : Claims.Reached flow codec (fun c a => c.takesReleased a = false) c) {w : String}
    {run : RunId} (hheld : c.hosts.store.get (claimKey w) = some (.text run)) :
    ∀ e ∈ c.hosts.store.load run, isFinishedBody e.body = false := by
  have hwf : ∀ run, (flow run).WF := fun run => by
    obtain ⟨decl, review, hc⟩ := hc run
    exact compile_wf hc
  have hreturned : c.Returned flow codec := by
    clear hheld
    induction h with
    | start => exact Claims.start_returned
    | act _ a ha ih => exact ih.act hwf a ha
  intro e he
  by_contra hfin
  obtain ⟨e', he', hb⟩ := (hreturned.kept.trace run).released he (by simpa using hfin)
  have hseen : Seen c.hosts run .claimReleased :=
    Or.inr (Or.inr ⟨e', he', congrArg EventBody.ctorIdx hb⟩)
  exact hreturned.released run (hreturned.seen run hseen) w hheld

end Released

/-! ## A claim left behind -/

/-- The run `r` holds its claim and has not ended. -/
theorem running_run_unfinished :
    let c := Claims.start.acts (fun _ => soloFlow) plainCodec runningActs
    c.hosts.store.get (claimKey "w") = some (.text ['r']) ∧
      ∀ e ∈ c.hosts.store.load ['r'], isFinishedBody e.body = false := by
  intro c
  have hreached : Claims.Reached (fun _ => soloFlow) plainCodec
      (fun c a => c.takesReleased a = false) c :=
    Claims.Reached.acts (fun _ _ h => (Bool.not_eq_true' _).mp h) runningActs .start
      (show Claims.allMeet _ _ (fun c a => !c.takesReleased a) _ _ = true by decide)
  have hheld : c.hosts.store.get (claimKey "w") = some (.text ['r']) := by decide
  exact ⟨hheld, claim_released_by_its_run (fun _ => ⟨_, _, compile_solo⟩) hreached hheld⟩

/-- The host `a` stalls once it has read the claim of the queued run `r`. The host `b` takes the run
over, which is withdrawn, parked, delivered, found to hold no claim and finished. Then `a` goes on. -/
def stalledActs : List ClaimAct := queuedActs ++ [
  .host (.compareAndSet (ownerKey ['r']) (some (.lease ⟨"a", 1, 30000⟩))
    (some (.lease ⟨"b", 2, 60000⟩))),
  otherInput "input/r/1" (.withdrawn none .requester),
  .host (.load "b" ['r']), .host (.next "b" ['r']), .host (.fold 3 2 2 []),
  otherInput "tree_parked/r" (.treeParked .notHeld),
  .host (.next "b" ['r']), .host (.fold 4 3 2 []),
  otherInput "delivered/result/r" (.delivered ""),
  .host (.next "b" ['r']), .host (.fold 5 4 2 []),
  .lookRelease 6, .reportReleased 0 0,
  .host (.next "b" ['r']), .host (.fold 6 5 2 []),
  .take 0]

/-- **A claim is left behind**: a finished run holds it, and nothing will give it up. -/
theorem claim_left_behind :
    ¬ ∀ (flow : RunId → FlowDef) (codec : Codec) (acts : List ClaimAct) (w : String) (run : RunId),
      (∀ run, ∃ decl review, compile decl review = .ok (flow run)) →
      (Claims.start.acts flow codec acts).hosts.store.get (claimKey w) = some (.text run) →
      ∀ e ∈ (Claims.start.acts flow codec acts).hosts.store.load run,
        isFinishedBody e.body = false := by
  intro h
  have hall := h (fun _ => soloFlow) plainCodec stalledActs "w" ['r']
    (fun _ => ⟨_, _, compile_solo⟩) (by decide)
  have hany : ((Claims.start.acts (fun _ => soloFlow) plainCodec stalledActs).hosts.store.load
      ['r']).any (fun e => isFinishedBody e.body) = true := by decide
  obtain ⟨e, he, hfin⟩ := List.any_eq_true.mp hany
  rw [hall e he] at hfin
  cases hfin

end NexusFlow.Host
