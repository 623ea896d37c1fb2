import NexusFlow.Run.Claimed
import NexusFlow.Run.Owed
import NexusFlow.Host.Hosts

/-!
# The claim on a workspace

Model of `take_claims` and `release_claim` (`crates/run-host/src/effects.rs`): the value
`claim/<workspace>` that names the run whose working copy it is. Both are a read of the claim, a
compare-and-set, and the input that reports it, three store calls, and a host may stall or lose its
lease between any two of them. `Claims` is the hosts of a store with what they have found out about
claims; `Claims.act` is one store call.

* `one_run_in_a_workspace`: a run that is `Running` or has a live session holds its claim. Once held,
  a claim is given up only when the run is over and no session of it lives, which is for ever
  (`Held.mono`).

Whether a claim outlives its run is settled in `Released`.
-/

namespace NexusFlow.Host

open NexusFlow.Run
open NexusFlow.Lib

/-! ## `take_claims` and `release_claim` -/

/-- `claim/<workspace>`. -/
def claimKey (workspace : String) : Key := "claim/".toList ++ workspace.toList

/-- A key of a claim. -/
def isClaimKey (key : Key) : Bool := "claim/".toList.isPrefixOf key

/-- `root_opened/<run>`. -/
def rootOpenedInput (run : RunId) (thread message : MessageId) (now : Timestamp) : Envelope :=
  ⟨⟨0, now, "root_opened/".toList ++ run, .rootOpened thread message⟩, contractV⟩

/-- `claim_taken/<run>`. -/
def claimTakenInput (run : RunId) (now : Timestamp) : Envelope :=
  ⟨⟨0, now, "claim_taken/".toList ++ run, .claimTaken⟩, contractV⟩

/-- `claim_released/<run>`. -/
def claimReleasedInput (run : RunId) (now : Timestamp) : Envelope :=
  ⟨⟨0, now, "claim_released/".toList ++ run, .claimReleased⟩, contractV⟩

/-- The hosts of a store, and where they are in their claims: what `take_claims` read of the claim of
a queued run, the claims it found its own or took, what `release_claim` found its own, and the claims
it found another's or gave up. -/
structure Claims where
  hosts : Hosts
  looked : List (RunId × Key × Option Value)
  taken : List RunId
  releasing : List (RunId × Key)
  released : List RunId

/-- A new file. -/
def Claims.start : Claims := ⟨.start, [], [], [], []⟩

/-- One store call of one process. -/
inductive ClaimAct
  | host (a : HostAct)
  | openRoot (view : Nat) (message : MessageId) (now : Timestamp)
  | look (view : Nat)
  | take (look : Nat)
  | reportTaken (place : Nat) (now : Timestamp)
  | lookRelease (view : Nat)
  | release (place : Nat)
  | reportReleased (place : Nat) (now : Timestamp)

/-- The inputs that report what a host did on the way to a claim and back. -/
def isReport : EventBody → Bool
  | .rootOpened _ _ | .claimTaken | .claimReleased => true
  | _ => false

/-- The calls that have nothing to do with claims: the reports and the keys are the host's own. -/
def HostAct.apart : HostAct → Bool
  | .load _ _ | .next _ _ => true
  | .fold _ _ _ cas | .setAside _ _ _ _ cas => cas.all fun item => !isClaimKey item.key
  | .enqueue _ event cas =>
    !isReport event.body && cas.all fun item => !isClaimKey item.key
  | .compareAndSet key _ _ => !isClaimKey key

/-- The workspace of a run, as its row has it. -/
def Store.workspace (s : Store) (run : RunId) : Option String := (s.rows run).map RunRow.workspaceId

/-- The state with another store. -/
def Claims.withStore (c : Claims) (store : Store) : Claims :=
  { c with hosts := { c.hosts with store } }

/-- `open_root`, its report: of a run that owes its root. -/
def Claims.openRoot (c : Claims) (view : Nat) (message : MessageId) (now : Timestamp) : Claims :=
  match c.hosts.views[view]? with
  | none => c
  | some v =>
    if .openRoot v.run ∈ pendingEffects v.state then
      c.withStore (c.hosts.store.enqueue v.run
        (rootOpenedInput v.run (v.state.rootThread.getD "") message now) []).1
    else c

/-- `take_claims`, its read: of a run that is queued. -/
def Claims.look (c : Claims) (view : Nat) : Claims :=
  match c.hosts.views[view]? with
  | none => c
  | some v =>
    match v.state.phase, c.hosts.store.workspace v.run with
    | .queued _, some workspace =>
      { c with looked := c.looked ++
          [(v.run, claimKey workspace, c.hosts.store.get (claimKey workspace))] }
    | _, _ => c

/-- `take_claims`, what it does about the holder: a key that holds this run is the claim taken, and
an absent one is taken. -/
def Claims.take (c : Claims) (look : Nat) : Claims :=
  match c.looked[look]? with
  | none => c
  | some (run, _, some holder) => if holder = .text run then { c with taken := c.taken ++ [run] } else c
  | some (run, key, none) =>
    match c.hosts.store.compareAndSet key none (some (.text run)) with
    | (store, .ok ()) => { c.withStore store with taken := c.taken ++ [run] }
    | (_, .error _) => c

/-- The workspace whose claim a state owes to give up. -/
def releaseOwed (st : RunState) : Option String :=
  (pendingEffects st).findSome? fun
    | .releaseClaim workspace => some workspace
    | _ => none

/-- `release_claim`, its read: a key that holds another run or nothing is the release already done. -/
def Claims.lookRelease (c : Claims) (view : Nat) : Claims :=
  match c.hosts.views[view]? with
  | none => c
  | some v =>
    match releaseOwed v.state with
    | none => c
    | some workspace =>
      if c.hosts.store.get (claimKey workspace) = some (.text v.run) then
        { c with releasing := c.releasing ++ [(v.run, claimKey workspace)] }
      else { c with released := c.released ++ [v.run] }

/-- `release_claim`, its compare-and-set. -/
def Claims.release (c : Claims) (place : Nat) : Claims :=
  match c.releasing[place]? with
  | none => c
  | some (run, key) =>
    match c.hosts.store.compareAndSet key (some (.text run)) none with
    | (store, .ok ()) => { c.withStore store with released := c.released ++ [run] }
    | (_, .error _) => c

section Model

variable (flow : RunId → FlowDef) (codec : Codec)

/-- **One store call of one process.** -/
def Claims.act (c : Claims) : ClaimAct → Claims
  | .host a => if a.apart then { c with hosts := c.hosts.act flow codec a } else c
  | .openRoot view message now => c.openRoot view message now
  | .look view => c.look view
  | .take look => c.take look
  | .reportTaken place now =>
    match c.taken[place]? with
    | none => c
    | some run => c.withStore (c.hosts.store.enqueue run (claimTakenInput run now) []).1
  | .lookRelease view => c.lookRelease view
  | .release place => c.release place
  | .reportReleased place now =>
    match c.released[place]? with
    | none => c
    | some run => c.withStore (c.hosts.store.enqueue run (claimReleasedInput run now) []).1

/-- The states reached by acts that each meet a condition. -/
inductive Claims.Reached (P : Claims → ClaimAct → Prop) : Claims → Prop
  | start : Claims.Reached P .start
  | act {c : Claims} (h : Claims.Reached P c) (a : ClaimAct) (ha : P c a) :
      Claims.Reached P (c.act flow codec a)

/-- The claims after some acts. -/
def Claims.acts (c : Claims) (acts : List ClaimAct) : Claims := acts.foldl (Claims.act flow codec) c

/-- Each of some acts meets a condition when it comes. -/
def Claims.allMeet (p : Claims → ClaimAct → Bool) (c : Claims) : List ClaimAct → Bool
  | [] => true
  | a :: acts => p c a && (c.act flow codec a).allMeet p acts

/-- The fold of a run's log. -/
def Claims.state (c : Claims) (run : RunId) : RunState :=
  foldLog run (flow run) (c.hosts.store.load run)

/-- The act folds a `started` of a session that had ended. -/
def Claims.foldsLate (c : Claims) : ClaimAct → Bool
  | .host (.fold view row _ _) =>
    match c.hosts.hand view row with
    | none => false
    | some (v, r) => (codec.readBack r.toEvent).any fun input => lateStart v.state input
  | _ => false

end Model

/-! ## What a call apart from claims leaves -/

section Frame

variable {flow : RunId → FlowDef} {codec : Codec}

/-- An input of this kind has come: it waits, was read, or is in the log. -/
def Seen (c : Hosts) (run : RunId) (body : EventBody) : Prop :=
  (∃ e ∈ c.store.inbox run, e.body.ctorIdx = body.ctorIdx) ∨
    (∃ host e, (host, run, e) ∈ c.rows ∧ e.body.ctorIdx = body.ctorIdx) ∨
    ∃ e ∈ c.store.load run, e.body.ctorIdx = body.ctorIdx

theorem isReport_kind {a b : EventBody} (h : a.ctorIdx = b.ctorIdx) : isReport a = isReport b := by
  cases a <;> cases b <;> first | rfl | cases h

/-- **How a log grows**: by the block of an input that was read, or by a row set aside. -/
inductive Grows (flow : RunId → FlowDef) (codec : Codec) (c : Hosts) (run : RunId) :
    List Event → Prop
  | none : Grows flow codec c run []
  | input {host : String} {row : Envelope} {input : Event} (hrow : (host, run, row) ∈ c.rows)
      (hread : codec.readBack row.toEvent = some input) (hin : isDecision input.body = false) :
      Grows flow codec c run
        (reduce (foldLog run (flow run) (c.store.load run)) (c.store.load run).length input)
  | aside (now : Timestamp) (key : Key) :
      Grows flow codec c run [poisonEvent run (c.store.load run).length now key]

/-- What a call that has nothing to do with claims does. -/
structure Frame (flow : RunId → FlowDef) (codec : Codec) (c c' : Hosts) : Prop where
  workspace : ∀ run w, c.store.workspace run = some w → c'.store.workspace run = some w
  claim : ∀ key, isClaimKey key = true → c'.store.kv.get key = c.store.kv.get key
  inbox : ∀ run, ∀ e ∈ c'.store.inbox run, e ∈ c.store.inbox run ∨ isReport e.body = false
  rows : ∀ host run e, (host, run, e) ∈ c'.rows → (host, run, e) ∈ c.rows ∨ e ∈ c.store.inbox run
  log : ∀ run, ∃ block, c'.store.load run = c.store.load run ++ block ∧
    Grows flow codec c run block
  views : ∀ v ∈ c'.views, v ∈ c.views ∨
    v.state = foldLog v.run (flow v.run) (c'.store.load v.run)

theorem openRow_workspace {s : Store} {run : RunId} {events : List Envelope} {row : RunRow} {w : String}
    (h : openRow s run events = .ok row) (hw : s.workspace run = some w) : row.workspaceId = w := by
  unfold Store.workspace at hw
  obtain ⟨r, hr, rfl⟩ := Option.map_eq_some_iff.mp hw
  unfold openRow at h
  rw [hr] at h
  cases h
  rfl

theorem enqueueRow_workspace {s : Store} {run : RunId} {event : Envelope} {row : RunRow} {w : String}
    (h : enqueueRow s run event = .ok row) (hw : s.workspace run = some w) : row.workspaceId = w := by
  unfold Store.workspace at hw
  obtain ⟨r, hr, rfl⟩ := Option.map_eq_some_iff.mp hw
  unfold enqueueRow at h
  rw [hr] at h
  cases hb : commissionedWorkspace event.body with
  | none => rw [hb] at h; cases h; rfl
  | some w' => rw [hb] at h; cases h

theorem setRun_workspace {s s' : Store} {run : RunId} {row : RunRow}
    (hrows : s'.rows = setRun s.rows run (some row))
    (hrow : ∀ w, s.workspace run = some w → row.workspaceId = w) (other : RunId) (w : String)
    (hw : s.workspace other = some w) : s'.workspace other = some w := by
  unfold Store.workspace
  rw [hrows]
  by_cases hother : other = run
  · subst hother
    rw [setRun_self]
    exact congrArg some (hrow w hw)
  · rw [setRun_other _ _ hother]
    exact hw

theorem Written.workspace {s s' : Store} {run : RunId} {events : List Envelope} {consume : List Key}
    {cas : List Cas} (h : Written s run events consume cas s') (other : RunId) (w : String)
    (hw : s.workspace other = some w) : s'.workspace other = some w := by
  obtain ⟨row, hrow, -, hrows, -⟩ := h.row
  refine setRun_workspace hrows (fun w' hw' => ?_) other w hw
  have heq : row.workspaceId = w' := openRow_workspace hrow hw'
  exact heq

theorem Enqueues.workspace {s s' : Store} {run : RunId} {event : Envelope} {cas : List Cas}
    (h : Enqueues s run event cas s') (other : RunId) (w : String)
    (hw : s.workspace other = some w) : s'.workspace other = some w := by
  obtain ⟨row, hrow, hrows⟩ := h.row
  exact setRun_workspace hrows (fun _ hw' => enqueueRow_workspace hrow hw') other w hw

/-- A list of compare-and-sets that names no claim leaves them all. -/
theorem applyCasList_claim {kv kv' : KeyMap Key Value} {cas : List Cas}
    (hcas : ∀ item ∈ cas, isClaimKey item.key = false) (h : applyCasList kv cas = .ok kv')
    {key : Key} (hkey : isClaimKey key = true) : kv'.get key = kv.get key := by
  refine applyCasList_induct (P := fun m => m.get key = kv.get key) ?_ rfl h
  intro m m' item hmem hm hitem
  obtain ⟨-, -, -, -, rfl⟩ := applyCas_ok hitem
  rw [get_writeValue, if_neg, hm]
  rintro rfl
  rw [hcas item hmem] at hkey
  cases hkey

theorem mem_deleteRows {inbox : List Envelope} {consume : List Key} {e : Envelope}
    (h : e ∈ deleteRows inbox consume) : e ∈ inbox := List.mem_of_mem_filter h

theorem mem_inbox_deleted {s : Store} {at_ run : RunId} {consume : List Key} {e : Envelope}
    (h : e ∈ setRun s.inbox at_ (deleteRows (s.inbox at_) consume) run) : e ∈ s.inbox run := by
  by_cases hrun : run = at_
  · subst hrun
    rw [setRun_self] at h
    exact mem_deleteRows h
  · rwa [setRun_other _ _ hrun] at h

theorem mem_inbox_enqueued {s s' : Store} {at_ run : RunId} {event : Envelope} {cas : List Cas}
    (h : Enqueues s at_ event cas s') {e : Envelope} (he : e ∈ s'.inbox run) :
    e ∈ s.inbox run ∨ (run = at_ ∧ e.body = event.body) := by
  rw [h.inbox] at he
  by_cases hrun : run = at_
  · subst hrun
    rw [setRun_self] at he
    rcases List.mem_append.mp he with he | he
    · exact Or.inl he
    · rw [List.mem_singleton.mp he]
      exact Or.inr ⟨rfl, rfl⟩
  · rw [setRun_other _ _ hrun] at he
    exact Or.inl he

theorem all_apart {cas : List Cas} (h : (cas.all fun item => !isClaimKey item.key) = true) :
    ∀ item ∈ cas, isClaimKey item.key = false := by
  intro item hmem
  simpa using List.all_eq_true.mp h item hmem

/-- **What a call apart from claims does.** -/
theorem HostMove.frame {c c' : Hosts} {a : HostAct} (hm : HostMove flow codec c a c')
    (ha : a.apart = true) : Frame flow codec c c' := by
  have hstill : ∀ run, ∃ block, c.store.load run = c.store.load run ++ block ∧
      Grows flow codec c run block := fun run => ⟨[], (List.append_nil _).symm, .none⟩
  cases hm with
  | nothing =>
    exact ⟨fun _ _ => id, fun _ _ => rfl, fun _ _ => Or.inl, fun _ _ _ => Or.inl, hstill,
      fun _ => Or.inl⟩
  | loaded =>
    refine ⟨fun _ _ => id, fun _ _ => rfl, fun _ _ => Or.inl, fun _ _ _ => Or.inl, hstill,
      fun v hv => ?_⟩
    rcases List.mem_append.mp hv with hv | hv
    · exact Or.inl hv
    · rw [List.mem_singleton.mp hv]
      exact Or.inr rfl
  | read hrow =>
    refine ⟨fun _ _ => id, fun _ _ => rfl, fun _ _ => Or.inl, fun host run e he => ?_, hstill,
      fun _ => Or.inl⟩
    rcases List.mem_append.mp he with he | he
    · exact Or.inl he
    · have heq := List.mem_singleton.mp he
      cases heq
      exact Or.inr hrow
  | @committed _ _ _ cas v r input s' hhand hread hin hstate hseq _ _ hw hload =>
    refine ⟨hw.workspace, fun key hkey => applyCasList_claim (all_apart ha) hw.kv hkey,
      fun run e he => ?_, fun _ _ _ => Or.inl, fun run => ⟨_, hload run, ?_⟩, fun w hw' => ?_⟩
    · rw [show s'.inbox = _ from hw.inbox] at he
      exact Or.inl (mem_inbox_deleted he)
    · split_ifs with hrun
      · subst hrun
        rw [hstate, hseq]
        exact .input (Hosts.hand_mem hhand).2 hread hin
      · exact .none
    · rcases List.mem_append.mp hw' with hw' | hw'
      · exact Or.inl hw'
      · rw [List.mem_singleton.mp hw']
        right
        simp only [View.after, hload, if_true]
        rw [foldLog_append, ← hstate]
  | @aside _ _ now _ cas v r s' _ hseq _ _ hw hload =>
    refine ⟨hw.workspace, fun key hkey => applyCasList_claim (all_apart ha) hw.kv hkey,
      fun run e he => ?_, fun _ _ _ => Or.inl, fun run => ⟨_, hload run, ?_⟩, fun _ => Or.inl⟩
    · rw [show s'.inbox = _ from hw.inbox] at he
      exact Or.inl (mem_inbox_deleted he)
    · split_ifs with hrun
      · subst hrun
        rw [hseq]
        exact .aside now r.key
      · exact .none
  | foldedBefore _ _ _ _ _ _ =>
    exact ⟨fun _ _ => id, fun _ _ => rfl, fun _ _ he => Or.inl (mem_inbox_deleted he),
      fun _ _ _ => Or.inl, hstill, fun _ => Or.inl⟩
  | asideBefore _ _ =>
    exact ⟨fun _ _ => id, fun _ _ => rfl, fun _ _ he => Or.inl (mem_inbox_deleted he),
      fun _ _ _ => Or.inl, hstill, fun _ => Or.inl⟩
  | @enqueued run event cas s' he =>
    simp only [HostAct.apart, Bool.and_eq_true, Bool.not_eq_true'] at ha
    refine ⟨he.workspace, fun key hkey => applyCasList_claim (all_apart ha.2) he.kv hkey,
      fun other e hmem => ?_, fun _ _ _ => Or.inl, fun other => ?_, fun _ => Or.inl⟩
    · rcases mem_inbox_enqueued he hmem with hold | ⟨-, hbody⟩
      · exact Or.inl hold
      · rw [hbody]
        exact Or.inr ha.1
    · rw [show (Hosts.mk s' c.views c.rows).store.load other = _ from load_of_events he.events other]
      exact hstill other
  | @set key «from» «to» kv hkv =>
    refine ⟨fun _ _ => id, fun k hk => ?_, fun _ _ => Or.inl, fun _ _ _ => Or.inl, hstill,
      fun _ => Or.inl⟩
    refine @applyCasList_claim _ _ [⟨key, «from», «to»⟩] ?_ ?_ _ hk
    · intro item hmem
      rw [List.mem_singleton.mp hmem]
      simpa [HostAct.apart] using ha
    · simp only [applyCasList, hkv]
      rfl

/-- A report reaches a host and the log only through the inbox. -/
theorem Frame.seen {c c' : Hosts} (h : Frame flow codec c c') {run : RunId} {body : EventBody}
    (hbody : isReport body = true) (hs : Seen c' run body) : Seen c run body := by
  rcases hs with ⟨e, he, hb⟩ | ⟨host, e, he, hb⟩ | ⟨e, he, hb⟩
  · rcases h.inbox run e he with he | hno
    · exact Or.inl ⟨e, he, hb⟩
    · rw [isReport_kind hb, hbody] at hno
      cases hno
  · rcases h.rows host run e he with he | he
    · exact Or.inr (Or.inl ⟨host, e, he, hb⟩)
    · exact Or.inl ⟨e, he, hb⟩
  · obtain ⟨block, hload, hgrows⟩ := h.log run
    rw [hload] at he
    have hnot : isDecision e.body = false := by
      have := (isReport_kind hb).trans hbody
      cases hd : e.body with
      | decision d => rw [hd] at this; cases this
      | _ => rfl
    rcases List.mem_append.mp he with he | he
    · exact Or.inr (Or.inr ⟨e, he, hb⟩)
    · cases hgrows with
      | none => cases he
      | @input host row input hrow hread _ =>
        rcases List.mem_cons.mp he with rfl | he
        · exact Or.inr (Or.inl ⟨host, row, hrow, (codec.kind hread).symm.trans hb⟩)
        · rw [decisionEvents_decision _ _ _ e he] at hnot
          cases hnot
      | aside now key =>
        rw [List.mem_singleton.mp he] at hnot
        cases hnot

end Frame

/-! ## One run at a time -/

section Exclusive

variable {flow : RunId → FlowDef} {codec : Codec}

/-- **The run holds the claim of its workspace**, or nothing of it will ever run again. -/
def Held (flow : RunId → FlowDef) (c : Claims) (run : RunId) : Prop :=
  ∃ w, c.hosts.store.workspace run = some w ∧
    (c.hosts.store.get (claimKey w) = some (.text run) ∨ AllOver (c.state flow run))

theorem Held.mono {c c' : Claims} {run : RunId} (h : Held flow c run)
    (hworkspace : ∀ w, c.hosts.store.workspace run = some w →
      c'.hosts.store.workspace run = some w)
    (hover : AllOver (c.state flow run) → AllOver (c'.state flow run))
    (hclaim : ∀ w, c.hosts.store.get (claimKey w) = some (.text run) →
      c'.hosts.store.get (claimKey w) = some (.text run) ∨ AllOver (c'.state flow run)) :
    Held flow c' run := by
  obtain ⟨w, hw, hheld⟩ := h
  refine ⟨w, hworkspace w hw, ?_⟩
  rcases hheld with hheld | hheld
  · exact hclaim w hheld
  · exact Or.inr (hover hheld)

/-- Some host knows that the run had its claim. -/
def TakenSeen (c : Claims) (run : RunId) : Prop :=
  run ∈ c.taken ∨ (∃ key, (run, key, some (.text run)) ∈ c.looked) ∨ Seen c.hosts run .claimTaken

/-- **What holds of the claims of a store.** -/
structure Claims.Exclusive (flow : RunId → FlowDef) (codec : Codec) (c : Claims) : Prop where
  kept : c.hosts.Kept flow codec
  looked : ∀ run key holder, (run, key, holder) ∈ c.looked →
    ∃ w, c.hosts.store.workspace run = some w ∧ key = claimKey w
  taken : ∀ run, TakenSeen c run → Held flow c run
  releasing : ∀ run key, (run, key) ∈ c.releasing → AllOver (c.state flow run)
  views : ∀ v ∈ c.hosts.views, AllOver v.state → AllOver (c.state flow v.run)

theorem isClaimKey_claimKey (w : String) : isClaimKey (claimKey w) = true :=
  List.isPrefixOf_iff_prefix.mpr (List.prefix_append _ _)

theorem claimKey_inj {w w' : String} (h : claimKey w = claimKey w') : w = w' :=
  String.toList_injective (List.append_cancel_left h)

/-- A release that is owed is of a run that is over. -/
theorem allOver_of_releaseOwed {st : RunState} {w : String} (h : releaseOwed st = some w) :
    AllOver st := by
  unfold releaseOwed at h
  obtain ⟨effect, hmem, heff⟩ := List.exists_of_findSome?_eq_some h
  cases effect with
  | releaseClaim w' =>
    cases owes_of_pending hmem with
    | releaseClaim hready =>
      obtain ⟨o, reason, park, hphase, hlive, -⟩ := readyToRelease_spec hready
      refine ⟨?_, hlive⟩
      unfold RunState.isOver RunState.isFinishing
      rw [hphase]
      rfl
  | _ => cases heff

/-- A run that is over stays so by any call that folds no late `started`. -/
theorem HostMove.allOver {c c' : Hosts} {a : HostAct} (hm : HostMove flow codec c a c')
    (hwf : ∀ run, (flow run).WF) (hkept : c.Kept flow codec)
    (hlate : ∀ view row fence cas v r input, a = .fold view row fence cas →
      c.hand view row = some (v, r) → codec.readBack r.toEvent = some input →
      lateStart v.state input = false) {run : RunId}
    (h : AllOver (foldLog run (flow run) (c.store.load run))) :
    AllOver (foldLog run (flow run) (c'.store.load run)) := by
  cases hm with
  | @committed view row fence cas v r input s' hhand hread hin hstate _ _ _ _ hload =>
    rw [hload]
    split_ifs with hrun
    · subst hrun
      obtain ⟨entries, hr⟩ := (hkept.trace v.run).reaches
      rw [← hstate] at h hr
      rw [foldLog_append, ← hstate, foldl_reduce _ _ hin]
      exact h.step (hr.inv (hwf v.run)) (hlate view row fence cas v r input rfl hhand hread)
    · rw [List.append_nil]
      exact h
  | @aside _ _ now _ _ v r s' _ _ _ _ _ hload =>
    rw [hload]
    split_ifs with hrun
    · rw [foldLog_append, foldl_poisonEvent, Item.apply_poison]
      exact ⟨h.isOver, h.none⟩
    · rw [List.append_nil]
      exact h
  | enqueued he =>
    rw [load_of_events he.events]
    exact h
  | _ => exact h

/-- **A call apart from claims keeps them exclusive.** -/
theorem Claims.Exclusive.host {c : Claims} (h : c.Exclusive flow codec)
    (hwf : ∀ run, (flow run).WF) {a : HostAct} (ha : a.apart = true)
    (hlate : c.foldsLate codec (.host a) = false) :
    ({ c with hosts := c.hosts.act flow codec a } : Claims).Exclusive flow codec := by
  have hmove := h.kept.move a
  have hframe := hmove.frame ha
  have hover : ∀ run, AllOver (c.state flow run) →
      AllOver (({ c with hosts := c.hosts.act flow codec a } : Claims).state flow run) := by
    intro run hrun
    refine hmove.allOver hwf h.kept ?_ hrun
    rintro view row fence cas v r input rfl hhand hread
    unfold Claims.foldsLate at hlate
    simpa only [hhand, hread, Option.any_some] using hlate
  refine ⟨h.kept.act a, fun run key holder hmem => ?_, fun run hseen => ?_,
    fun run key hmem => hover run (h.releasing run key hmem), fun v hv hdone => ?_⟩
  · obtain ⟨w, hw, hkey⟩ := h.looked run key holder hmem
    exact ⟨w, hframe.workspace run w hw, hkey⟩
  · have hseen' : TakenSeen c run := by
      rcases hseen with hseen | hseen | hseen
      · exact Or.inl hseen
      · exact Or.inr (Or.inl hseen)
      · exact Or.inr (Or.inr (hframe.seen rfl hseen))
    refine (h.taken run hseen').mono (hframe.workspace run) (hover run) fun w hclaim => ?_
    left
    exact (hframe.claim _ (isClaimKey_claimKey w)).trans hclaim
  · rcases hframe.views v hv with hv | hstate
    · exact hover v.run (h.views v hv hdone)
    · rw [hstate] at hdone
      exact hdone

/-- The store moved, and the log and the rows of the runs did not. -/
theorem Claims.Exclusive.withKv {c : Claims} (h : c.Exclusive flow codec) {kv : KeyMap Key Value}
    (hclaim : ∀ run w, TakenSeen c run → c.hosts.store.get (claimKey w) = some (.text run) →
      kv.get (claimKey w) = some (.text run) ∨ AllOver (c.state flow run)) :
    (c.withStore { c.hosts.store with kv }).Exclusive flow codec where
  kept := ⟨h.kept.trace, h.kept.reads, h.kept.lastSeq, h.kept.views⟩
  looked := h.looked
  taken run hseen := (h.taken run hseen).mono (fun _ => id) id fun w => hclaim run w hseen
  releasing := h.releasing
  views := h.views

/-- A run the hosts come to know as claimed. -/
theorem Claims.Exclusive.know {c : Claims} (h : c.Exclusive flow codec) {run : RunId}
    (hheld : Held flow c run) :
    ({ c with taken := c.taken ++ [run] } : Claims).Exclusive flow codec where
  kept := h.kept
  looked := h.looked
  taken := by
    intro other hseen
    rcases hseen with hseen | hseen | hseen
    · rcases List.mem_append.mp hseen with hseen | hseen
      · exact h.taken other (Or.inl hseen)
      · rw [List.mem_singleton.mp hseen]
        exact hheld
    · exact h.taken other (Or.inr (Or.inl hseen))
    · exact h.taken other (Or.inr (Or.inr hseen))
  releasing := h.releasing
  views := h.views

/-- An input that reports a claim, or its release. -/
theorem Claims.Exclusive.report {c : Claims} (h : c.Exclusive flow codec) {run : RunId}
    (event : Envelope)
    (hbody : event.body.ctorIdx = EventBody.claimTaken.ctorIdx → Held flow c run) :
    (c.withStore (c.hosts.store.enqueue run event []).1).Exclusive flow codec := by
  have hcases := c.hosts.store.enqueue_cases run event []
  generalize c.hosts.store.enqueue run event [] = answer at hcases ⊢
  cases hcases with
  | refused error => exact h
  | duplicate _ => exact h
  | accepted s' he =>
    have hload := load_of_events he.events
    have hkv : s'.kv = c.hosts.store.kv := (Except.ok.inj he.kv).symm
    have hheld : ∀ other, Held flow c other → Held flow (c.withStore s') other := by
      intro other hother
      refine hother.mono (he.workspace other) (fun hov => ?_) fun w hw => Or.inl ?_
      · unfold Claims.state
        rw [show (c.withStore s').hosts.store.load other = _ from hload other]
        exact hov
      · unfold Store.get
        rw [show (c.withStore s').hosts.store.kv = _ from hkv]
        exact hw
    refine ⟨h.kept.same hload he.lastSeq, fun r key holder hmem => ?_, fun other hseen => ?_,
      fun r key hmem => ?_, fun v hv hdone => ?_⟩
    · obtain ⟨w, hw, hkey⟩ := h.looked r key holder hmem
      exact ⟨w, he.workspace r w hw, hkey⟩
    · rcases hseen with hseen | hseen | ⟨e, hmem, hb⟩ | hseen | ⟨e, hmem, hb⟩
      · exact hheld other (h.taken other (Or.inl hseen))
      · exact hheld other (h.taken other (Or.inr (Or.inl hseen)))
      · rcases mem_inbox_enqueued he hmem with hmem | ⟨rfl, hbe⟩
        · exact hheld other (h.taken other (Or.inr (Or.inr (Or.inl ⟨e, hmem, hb⟩))))
        · exact hheld other (hbody (hbe ▸ hb))
      · exact hheld other (h.taken other (Or.inr (Or.inr (Or.inr (Or.inl hseen)))))
      · rw [show (c.withStore s').hosts.store.load other = _ from hload other] at hmem
        exact hheld other (h.taken other (Or.inr (Or.inr (Or.inr (Or.inr ⟨e, hmem, hb⟩)))))
    · unfold Claims.state
      rw [show (c.withStore s').hosts.store.load r = _ from hload r]
      exact h.releasing r key hmem
    · unfold Claims.state
      rw [show (c.withStore s').hosts.store.load v.run = _ from hload v.run]
      exact h.views v hv hdone

theorem Claims.Exclusive.openRoot {c : Claims} (h : c.Exclusive flow codec) (view : Nat)
    (message : MessageId) (now : Timestamp) :
    (c.openRoot view message now).Exclusive flow codec := by
  unfold Claims.openRoot
  split
  · exact h
  · split_ifs
    · exact h.report _ fun hb => by cases hb
    · exact h

theorem Claims.Exclusive.look {c : Claims} (h : c.Exclusive flow codec) (view : Nat) :
    (c.look view).Exclusive flow codec := by
  unfold Claims.look
  split
  · exact h
  · rename_i v hv
    split
    · rename_i b w hphase hw
      refine ⟨h.kept, fun run key holder hmem => ?_, fun run hseen => ?_, h.releasing, h.views⟩
      · rcases List.mem_append.mp hmem with hmem | hmem
        · exact h.looked run key holder hmem
        · have heq := List.mem_singleton.mp hmem
          cases heq
          exact ⟨w, hw, rfl⟩
      · rcases hseen with hseen | ⟨key, hmem⟩ | hseen
        · exact h.taken run (Or.inl hseen)
        · rcases List.mem_append.mp hmem with hmem | hmem
          · exact h.taken run (Or.inr (Or.inl ⟨key, hmem⟩))
          · have heq := List.mem_singleton.mp hmem
            simp only [Prod.mk.injEq] at heq
            obtain ⟨rfl, -, hget⟩ := heq
            exact ⟨w, hw, Or.inl hget.symm⟩
        · exact h.taken run (Or.inr (Or.inr hseen))
    · exact h

theorem Claims.Exclusive.take {c : Claims} (h : c.Exclusive flow codec) (look : Nat) :
    (c.take look).Exclusive flow codec := by
  unfold Claims.take
  split
  · exact h
  · rename_i run key holder hlook
    split_ifs with hholder
    · subst hholder
      refine h.know (h.taken run (Or.inr (Or.inl ⟨key, List.mem_of_getElem? hlook⟩)))
    · exact h
  · rename_i run key hlook
    rcases c.hosts.store.compareAndSet_cases key none (some (.text run)) with
      ⟨error, hmove⟩ | ⟨kv, hkv, hmove⟩
    · simp only [hmove]
      exact h
    · simp only [hmove]
      obtain ⟨w, hw, rfl⟩ := h.looked run key none (List.mem_of_getElem? hlook)
      obtain ⟨hfrom, -, -, -, rfl⟩ := applyCas_ok hkv
      have hnext : (c.withStore { c.hosts.store with
          kv := writeValue c.hosts.store.kv (claimKey w) (some (.text run)) }).Exclusive flow codec := by
        refine h.withKv fun other w' _ hclaim => ?_
        rw [get_writeValue]
        split_ifs with hkey
        · rw [hkey] at hclaim
          have hnone : c.hosts.store.get (claimKey w) = none := hfrom
          rw [hnone] at hclaim
          cases hclaim
        · exact Or.inl hclaim
      refine hnext.know ⟨w, hw, Or.inl ?_⟩
      exact (get_writeValue _ _ _ _).trans (if_pos rfl)

theorem Claims.Exclusive.lookRelease {c : Claims} (h : c.Exclusive flow codec) (view : Nat) :
    (c.lookRelease view).Exclusive flow codec := by
  unfold Claims.lookRelease
  split
  · exact h
  · rename_i v hv
    split
    · exact h
    · rename_i w hw
      have hover := h.views v (List.mem_of_getElem? hv) (allOver_of_releaseOwed hw)
      split_ifs
      · refine ⟨h.kept, h.looked, h.taken, fun run key hmem => ?_, h.views⟩
        rcases List.mem_append.mp hmem with hmem | hmem
        · exact h.releasing run key hmem
        · have heq := List.mem_singleton.mp hmem
          cases heq
          exact hover
      · exact ⟨h.kept, h.looked, h.taken, h.releasing, h.views⟩

theorem Claims.Exclusive.release {c : Claims} (h : c.Exclusive flow codec) (place : Nat) :
    (c.release place).Exclusive flow codec := by
  unfold Claims.release
  split
  · exact h
  · rename_i run key hplace
    rcases c.hosts.store.compareAndSet_cases key (some (.text run)) none with
      ⟨error, hmove⟩ | ⟨kv, hkv, hmove⟩
    · simp only [hmove]
      exact h
    · simp only [hmove]
      obtain ⟨hfrom, -, -, -, rfl⟩ := applyCas_ok hkv
      have hnext : (c.withStore { c.hosts.store with
          kv := writeValue c.hosts.store.kv key none }).Exclusive flow codec := by
        refine h.withKv fun other w' _ hclaim => ?_
        rw [get_writeValue]
        split_ifs with hkey
        · -- The claim that is given up is of the run that is over.
          have hrun : c.hosts.store.get (claimKey w') = some (.text run) := hkey ▸ hfrom
          rw [hrun] at hclaim
          cases hclaim
          exact Or.inr (h.releasing run key (List.mem_of_getElem? hplace))
        · exact Or.inl hclaim
      exact ⟨hnext.kept, hnext.looked, hnext.taken, hnext.releasing, hnext.views⟩

/-- **One act keeps the claims exclusive.** -/
theorem Claims.Exclusive.act {c : Claims} (h : c.Exclusive flow codec)
    (hwf : ∀ run, (flow run).WF) (a : ClaimAct) (hlate : c.foldsLate codec a = false) :
    (c.act flow codec a).Exclusive flow codec := by
  cases a with
  | host a =>
    simp only [Claims.act]
    split_ifs with ha
    · exact h.host hwf ha hlate
    · exact h
  | openRoot view message now => exact h.openRoot view message now
  | look view => exact h.look view
  | take look => exact h.take look
  | reportTaken place now =>
    simp only [Claims.act]
    split
    · exact h
    · rename_i run hrun
      exact h.report _ fun _ => h.taken run (Or.inl (List.mem_of_getElem? hrun))
  | lookRelease view => exact h.lookRelease view
  | release place => exact h.release place
  | reportReleased place now =>
    simp only [Claims.act]
    split
    · exact h
    · exact h.report _ fun hb => by cases hb

theorem not_seen_start (run : RunId) (body : EventBody) : ¬ Seen Claims.start.hosts run body := by
  rintro (⟨e, hmem, -⟩ | ⟨host, e, hmem, -⟩ | ⟨e, hmem, -⟩)
  · exact List.not_mem_nil hmem
  · exact List.not_mem_nil hmem
  · exact List.not_mem_nil hmem

theorem not_takenSeen_start (run : RunId) : ¬ TakenSeen Claims.start run := by
  rintro (hmem | ⟨key, hmem⟩ | hseen)
  · exact List.not_mem_nil hmem
  · exact List.not_mem_nil hmem
  · exact not_seen_start run _ hseen

theorem Claims.Reached.exclusive (hwf : ∀ run, (flow run).WF) {c : Claims}
    (h : Claims.Reached flow codec (fun c a => c.foldsLate codec a = false) c) :
    c.Exclusive flow codec := by
  induction h with
  | start =>
    refine ⟨Hosts.start_kept, fun _ _ _ hmem => (List.not_mem_nil hmem).elim, fun run hseen => ?_,
      fun _ _ hmem => (List.not_mem_nil hmem).elim, fun _ hmem => (List.not_mem_nil hmem).elim⟩
    exact (not_takenSeen_start run hseen).elim
  | act _ a ha ih => exact ih.act hwf a ha

/-- What runs, or lives, has folded `claim_taken`. -/
theorem Trace.claimed {run : RunId} {flow : FlowDef} {log : List Event} (hwf : flow.WF)
    (h : Trace run flow log) :
    (∃ e ∈ log, e.body = .claimTaken) ∨ Unclaimed (foldLog run flow log) := by
  induction h with
  | nil => exact Or.inr ⟨rfl, rfl, rfl⟩
  | @input log h input hin ih =>
    rcases ih with ⟨e, he, hb⟩ | hu
    · exact Or.inl ⟨e, List.mem_append_left _ he, hb⟩
    · obtain ⟨entries, hr⟩ := h.reaches
      have hinv := hr.inv hwf
      rw [foldLog_append, foldl_reduce _ _ hin]
      cases hi : ignoredReason (foldLog run flow log) { input with seq := log.length + 1 } with
      | some reason =>
        rw [step_of_ignored (by rw [hi]; rfl)]
        exact Or.inr hu
      | none =>
        rcases hu.transition (step_transition hinv.coh hinv.route hi).1 with hb | hu'
        · exact Or.inl ⟨_, List.mem_append_right _ List.mem_cons_self, hb⟩
        · exact Or.inr hu'
  | @poison log h now key ih =>
    rcases ih with ⟨e, he, hb⟩ | hu
    · exact Or.inl ⟨e, List.mem_append_left _ he, hb⟩
    · right
      rw [foldLog_append, foldl_poisonEvent, Item.apply_poison]
      exact ⟨hu.slots, hu.questions, hu.phase⟩

/-- **One run at a time in a working copy.** For any number of hosts and runs, however their store
calls interleave and wherever a host stalls or crashes, no session reporting `started` after its end:
a run whose log folds to `Running`, or has a live slot, holds the claim of its workspace; so no two
runs of one workspace are ever `Running`, or have live sessions, at once. -/
theorem one_run_in_a_workspace
    (hc : ∀ run, ∃ decl review, compile decl review = .ok (flow run)) {c : Claims}
    (h : Claims.Reached flow codec (fun c a => c.foldsLate codec a = false) c) :
    (∀ run, (c.state flow run).phase.isRunning = true ∨ (c.state flow run).anyLive = true →
      ∃ w, c.hosts.store.workspace run = some w ∧
        c.hosts.store.get (claimKey w) = some (.text run)) ∧
    ∀ run run', c.hosts.store.workspace run = c.hosts.store.workspace run' →
      ((c.state flow run).phase.isRunning = true ∨ (c.state flow run).anyLive = true) →
      ((c.state flow run').phase.isRunning = true ∨ (c.state flow run').anyLive = true) →
      run = run' := by
  have hwf : ∀ run, (flow run).WF := fun run => by
    obtain ⟨decl, review, hc⟩ := hc run
    exact compile_wf hc
  have hex := h.exclusive hwf
  have hclaim : ∀ run,
      (c.state flow run).phase.isRunning = true ∨ (c.state flow run).anyLive = true →
      ∃ w, c.hosts.store.workspace run = some w ∧
        c.hosts.store.get (claimKey w) = some (.text run) := by
    intro run hruns
    have hlogged : ∃ e ∈ c.hosts.store.load run,
        e.body.ctorIdx = EventBody.claimTaken.ctorIdx := by
      rcases (hex.kept.trace run).claimed (hwf run) with ⟨e, he, hb⟩ | hu
      · exact ⟨e, he, congrArg EventBody.ctorIdx hb⟩
      · rcases hruns with hrun | hlive
        · have := hu.phase
          rw [show foldLog run (flow run) (c.hosts.store.load run) = c.state flow run from rfl,
            hrun] at this
          cases this
        · unfold RunState.anyLive Claims.state at hlive
          rw [hu.slots] at hlive
          cases hlive
    obtain ⟨w, hw, hheld⟩ := hex.taken run (Or.inr (Or.inr (Or.inr (Or.inr hlogged))))
    refine ⟨w, hw, hheld.resolve_right fun hover => ?_⟩
    rcases hruns with hrun | hlive
    · have hno := hover.isOver
      unfold RunState.isOver RunState.isFinishing RunState.isFinished at hno
      unfold Phase.isRunning at hrun
      split at hrun
      · rename_i tree hphase
        rw [hphase] at hno
        cases hno
      · cases hrun
    · rw [hover.none] at hlive
      cases hlive
  refine ⟨hclaim, fun run run' hsame hruns hruns' => ?_⟩
  obtain ⟨w, hw, hheld⟩ := hclaim run hruns
  obtain ⟨w', hw', hheld'⟩ := hclaim run' hruns'
  rw [hsame, hw'] at hw
  cases hw
  rw [hheld'] at hheld
  cases hheld
  rfl

/-- Acts that each meet a condition reach a state reached so. -/
theorem Claims.Reached.acts {P : Claims → ClaimAct → Prop} {p : Claims → ClaimAct → Bool}
    (hp : ∀ c a, p c a = true → P c a) (acts : List ClaimAct) : ∀ {c : Claims},
    Claims.Reached flow codec P c → c.allMeet flow codec p acts = true →
      Claims.Reached flow codec P (c.acts flow codec acts) := by
  induction acts with
  | nil => exact fun h _ => h
  | cons a acts ih =>
    intro c h hall
    obtain ⟨hfirst, hrest⟩ := (Bool.and_eq_true _ _).mp hall
    exact ih (h.act a (hp c a hfirst)) hrest

end Exclusive

/-! ## A run of the solo flow -/

/-- An input of another process. -/
def otherInput (key : String) (body : EventBody) : ClaimAct :=
  .host (.enqueue ['r'] ⟨⟨0, 0, key.toList, body⟩, contractV⟩ [])

/-- The host `a` gets the run `r` of the workspace `w` to the queue and reads its claim. -/
def queuedActs : List ClaimAct := [
  .host (.compareAndSet (ownerKey ['r']) none (some (.lease ⟨"a", 1, 30000⟩))),
  otherInput "commissioned/r" (.commissioned "w" "" .default "" ""),
  .host (.load "a" ['r']), .host (.next "a" ['r']), .host (.fold 0 0 1 []),
  .openRoot 1 "" 0,
  .host (.next "a" ['r']), .host (.fold 1 1 1 []),
  .look 2]

/-- It takes the claim, and the run starts. -/
def runningActs : List ClaimAct := queuedActs ++ [
  .take 0, .reportTaken 0 0,
  .host (.next "a" ['r']), .host (.fold 2 2 1 [])]

/-- A run that is running holds its claim. -/
theorem running_run_holds :
    let c := Claims.start.acts (fun _ => soloFlow) plainCodec runningActs
    (c.state (fun _ => soloFlow) ['r']).phase.isRunning = true ∧
      ∃ w, c.hosts.store.workspace ['r'] = some w ∧
        c.hosts.store.get (claimKey w) = some (.text ['r']) := by
  intro c
  have hreached : Claims.Reached (fun _ => soloFlow) plainCodec
      (fun c a => c.foldsLate plainCodec a = false) c :=
    Claims.Reached.acts (fun _ _ h => (Bool.not_eq_true' _).mp h) runningActs .start
      (show Claims.allMeet _ _ (fun c a => !c.foldsLate plainCodec a) _ _ = true by decide)
  have hruns : (c.state (fun _ => soloFlow) ['r']).phase.isRunning = true := by decide
  exact ⟨hruns, (one_run_in_a_workspace (fun _ => ⟨_, _, compile_solo⟩) hreached).1 ['r']
    (Or.inl hruns)⟩

end NexusFlow.Host
