import NexusFlow.Host.TimerIndex

/-!
# The hosts of a store

Model of `loaded_state`, `step_input`, `reduce`, `commit_input` and `consume_poison`
(`crates/run-host/src/fold.rs`) for any number of hosts and any other process on one store. Each act
is one store call. What a host has read stays in its memory: the states it folded (`View`) and the
rows it took from the inbox; it may act on any of it at any later time. So a host that stalls, that
lost its lease, whose state is stale or that crashes is a host that acts late or not at all.

A row is read back from its stored text by a `Codec`, the `serde` of an event.

Headline result: `log_is_engine_trace`. A view is always the fold of a beginning of the log; an
`append` goes through only at the log's end (`expected_seq`), so what is decided on is its fold.

The runs of this model fold: `withdraw_exit`, the way out of a run that does not, is left out, and so
are a decision of a newer version and a panic.
-/

namespace NexusFlow.Host

open NexusFlow.Run
open NexusFlow.Lib

/-! ## Reading back -/

/-- An event written and read back: `none` when it does not decode. What was read once reads the same
again, a decision of this version reads as it was written, and the position, the key and the kind of
the body are fields of their own. -/
structure Codec where
  readBack : Event → Option Event
  stable : ∀ {e e' : Event}, readBack e = some e' → readBack e' = some e'
  decision : ∀ {e : Event} {d : Decision}, e.body = .decision d → readBack e = some e
  moved : ∀ {e e' : Event} (n : Nat), readBack e = some e' →
    readBack { e with seq := n } = some { e' with seq := n }
  key : ∀ {e e' : Event}, readBack e = some e' → e'.key = e.key
  kind : ∀ {e e' : Event}, readBack e = some e' → e'.body.ctorIdx = e.body.ctorIdx

/-- A text that reads as it was written. -/
def plainCodec : Codec where
  readBack := some
  stable h := by cases h; rfl
  decision _ := rfl
  moved _ h := by cases h; rfl
  key h := by cases h; rfl
  kind h := by cases h; rfl

/-- `CONTRACT_V`: the version the events of this host carry. -/
def contractV : Nat := 1

/-! ## Hosts -/

/-- A state a host has folded: `state`, and its `seq`. -/
structure View where
  host : String
  run : RunId
  state : RunState
  seq : Nat

/-- A store and what its hosts have read. -/
structure Hosts where
  store : Store
  views : List View
  rows : List (String × RunId × Envelope)

/-- A new file, and hosts that have read nothing. -/
def Hosts.start : Hosts := ⟨.empty, [], []⟩

/-- `state.seq` after some events. -/
def seqAfter (seq : Nat) (events : List Event) : Nat := events.foldl (fun _ e => e.seq) seq

/-- The block of an input as `append` gets it: the decisions carry this version. -/
def blockOf (v : Nat) : List Event → List Envelope
  | [] => []
  | input :: decisions => ⟨input, v⟩ :: decisions.map fun e => ⟨e, contractV⟩

/-- One store call of one process. What a host acts on it names by its place in the memory. -/
inductive HostAct
  | load (host : String) (run : RunId)
  | next (host : String) (run : RunId)
  | fold (view row : Nat) (fence : Epoch) (cas : List Cas)
  | setAside (view row : Nat) (now : Timestamp) (fence : Epoch) (cas : List Cas)
  | enqueue (run : RunId) (event : Envelope) (cas : List Cas)
  | compareAndSet (key : Key) («from» «to» : Option Value)

/-- A state and a row of one host and one run. -/
def Hosts.hand (c : Hosts) (view row : Nat) : Option (View × Envelope) :=
  match c.views[view]?, c.rows[row]? with
  | some v, some (host, run, r) => if host = v.host ∧ run = v.run then some (v, r) else none
  | _, _ => none

section Model

variable (flow : RunId → FlowDef) (codec : Codec)

/-- `load(run, 0)`, read back. -/
def readLog (s : Store) (run : RunId) : Option (List Event) := (s.load run).mapM codec.readBack

/-- `loaded_state`: the fold of the log as it reads. -/
def Hosts.load (c : Hosts) (host : String) (run : RunId) : Hosts :=
  match readLog codec c.store run with
  | some log =>
    { c with views := c.views ++ [⟨host, run, foldLog run (flow run) log, seqAfter 0 log⟩] }
  | none => c

/-- `next_input`. -/
def Hosts.next (c : Hosts) (host : String) (run : RunId) : Hosts :=
  match c.store.nextInput run with
  | some row => { c with rows := c.rows ++ [(host, run, row)] }
  | none => c

/-- The state a host caches once its block is in the log. -/
def View.after (view : View) (events : List Event) : View :=
  ⟨view.host, view.run, events.foldl evolve view.state, seqAfter view.seq events⟩

/-- `commit_input`, of a row taken from the inbox and a state it was decided on. -/
def Hosts.commitInput (c : Hosts) (view : View) (row : Envelope) (input : Event) (fence : Epoch)
    (cas : List Cas) : Hosts :=
  let events := reduce view.state view.seq input
  match c.store.append view.run view.seq fence (blockOf row.v events) [row.key] cas with
  | (store, .ok ()) => { c with store, views := c.views ++ [view.after events] }
  | (store, .error _) => { c with store }

/-- `consume_poison`, of a row taken from the inbox. -/
def Hosts.consumePoison (c : Hosts) (view : View) (row : Envelope) (now : Timestamp) (fence : Epoch)
    (cas : List Cas) : Hosts :=
  { c with
    store := (c.store.append view.run view.seq fence
      [⟨poisonEvent view.run view.seq now row.key, contractV⟩] [row.key] cas).1 }

/-- **One store call of one process.** -/
def Hosts.act (c : Hosts) : HostAct → Hosts
  | .load host run => c.load flow codec host run
  | .next host run => c.next host run
  | .fold view row fence cas =>
    match c.hand view row with
    | none => c
    | some (v, r) =>
      match codec.readBack r.toEvent with
      | none => c
      -- A decision is not an input.
      | some input => if isDecision input.body then c else c.commitInput v r input fence cas
  | .setAside view row now fence cas =>
    match c.hand view row with
    | none => c
    | some (v, r) => c.consumePoison v r now fence cas
  | .enqueue run event cas => { c with store := (c.store.enqueue run event cas).1 }
  | .compareAndSet key «from» «to» =>
    { c with store := (c.store.compareAndSet key «from» «to»).1 }

/-- The hosts after some calls. -/
def Hosts.acts (c : Hosts) (acts : List HostAct) : Hosts := acts.foldl (Hosts.act flow codec) c

end Model

/-! ## The positions of a log -/

/-- The events stand at the positions after `n`. -/
def Numbered (n : Nat) (events : List Event) : Prop :=
  events.map (fun e => e.seq) = List.range' (n + 1) events.length

theorem Numbered.append {n : Nat} {log more : List Event} (h : Numbered n log)
    (h' : Numbered (n + log.length) more) : Numbered n (log ++ more) := by
  unfold Numbered at *
  rw [List.map_append, h, h', List.length_append, ← List.range'_append_1]
  congr 2
  omega

theorem decisionEvents_length (input : Event) (ds : List Decision) : ∀ index,
    (decisionEvents input index ds).length = ds.length := by
  induction ds with
  | nil => exact fun _ => rfl
  | cons d ds ih => exact fun index => congrArg (· + 1) (ih (index + 1))

theorem decisionEvents_numbered (input : Event) (ds : List Decision) : ∀ index,
    Numbered (input.seq + index) (decisionEvents input index ds) := by
  induction ds with
  | nil => exact fun _ => rfl
  | cons d ds ih =>
    intro index
    have htail := ih (index + 1)
    unfold Numbered at *
    rw [decisionEvents, List.map_cons, htail, List.length_cons, List.range'_succ]
    congr 1
    exact Nat.add_right_comm _ 1 _

theorem reduce_numbered (st : RunState) (seq : Nat) (input : Event) :
    Numbered seq (reduce st seq input) := by
  have htail := decisionEvents_numbered { input with seq := seq + 1 }
    (Run.decide st { input with seq := seq + 1 }) 0
  unfold Numbered at *
  rw [reduce, List.map_cons, htail, List.length_cons, List.range'_succ]

/-- **A log of the engine has no gap.** -/
theorem Trace.numbered {run : RunId} {flow : FlowDef} {log : List Event} (h : Trace run flow log) :
    Numbered 0 log := by
  induction h with
  | nil => rfl
  | @input log h input hin ih =>
    refine ih.append ?_
    rw [Nat.zero_add]
    exact reduce_numbered _ _ _
  | @poison log h now key ih =>
    refine ih.append ?_
    rw [Nat.zero_add]
    rfl

theorem foldl_range'_last (k : Nat) : ∀ n, (List.range' (n + 1) k).foldl (fun _ m => m) n = n + k := by
  induction k with
  | zero => exact fun _ => rfl
  | succ k ih =>
    intro n
    rw [List.range'_succ, List.foldl_cons, ih (n + 1)]
    omega

theorem seqAfter_numbered {n : Nat} {events : List Event} (h : Numbered n events) :
    seqAfter n events = n + events.length := by
  have hfold : seqAfter n events = (events.map fun e => e.seq).foldl (fun _ m => m) n := by
    unfold seqAfter
    rw [List.foldl_map]
  rw [hfold, h]
  exact foldl_range'_last _ _

theorem positioned_numbered {n : Nat} {events : List Envelope}
    (h : Numbered n (events.map Envelope.toEvent)) : positioned n events = events := by
  unfold positioned
  have hgen : ∀ (events : List Envelope) (k : Nat),
      Numbered (n + k) (events.map Envelope.toEvent) →
      (events.zipIdx k).map (fun e => ({ e.1 with seq := n + 1 + e.2 } : Envelope)) = events := by
    intro events
    induction events with
    | nil => exact fun _ _ => rfl
    | cons event events ih =>
      intro k hk
      unfold Numbered at hk
      rw [List.map_cons, List.map_cons, List.length_cons, List.range'_succ, List.cons.injEq] at hk
      obtain ⟨hhead, htail⟩ := hk
      rw [List.zipIdx_cons, List.map_cons, ih (k + 1) htail]
      congr 1
      obtain ⟨⟨seq, now, key, body⟩, v⟩ := event
      have : seq = n + 1 + k := by
        have : seq = n + k + 1 := hhead
        omega
      simp only [this]
  exact hgen events 0 h

/-! ## What a call does to a log -/

theorem load_of_events {s s' : Store} (h : s'.events = s.events) (run : RunId) :
    s'.load run = s.load run := by
  unfold Store.load
  rw [h]

/-- The length of a log as the row of its run has it. -/
def Store.lastSeq (s : Store) (run : RunId) : Nat := ((s.rows run).map RunRow.lastSeq).getD 0

theorem openRow_lastSeq {s : Store} {run : RunId} {events : List Envelope} {row : RunRow}
    (h : openRow s run events = .ok row) : row.lastSeq = s.lastSeq run := by
  unfold Store.lastSeq
  unfold openRow at h
  cases hrow : s.rows run with
  | some r =>
    rw [hrow] at h
    cases h
    rfl
  | none =>
    rw [hrow] at h
    cases events with
    | nil => cases h
    | cons first rest =>
      simp only [createRun] at h
      split at h
      · cases h
        rfl
      · cases h

theorem enqueueRow_lastSeq {s : Store} {run : RunId} {event : Envelope} {row : RunRow}
    (h : enqueueRow s run event = .ok row) : row.lastSeq = s.lastSeq run := by
  unfold Store.lastSeq
  unfold enqueueRow at h
  split at h
  · cases h
    simp_all
  · cases h
  · cases h
  · cases h
    simp_all

/-- **A batch that is written follows the log**, where it was numbered to. -/
theorem Written.load {s s' : Store} {run : RunId} {events : List Envelope} {consume : List Key}
    {cas : List Cas} (h : Written s run events consume cas s')
    (hnum : Numbered (s.lastSeq run) (events.map Envelope.toEvent)) (other : RunId) :
    s'.load other = s.load other ++ if other = run then events.map Envelope.toEvent else [] := by
  obtain ⟨row, hrow, -, -, hevents⟩ := h.row
  rw [openRow_lastSeq hrow, positioned_numbered hnum] at hevents
  unfold Store.load
  rw [hevents]
  by_cases hother : other = run
  · subst hother
    rw [setRun_self, List.map_append, if_pos rfl]
  · rw [setRun_other _ _ hother, if_neg hother, List.append_nil]

theorem Written.lastSeq {s s' : Store} {run : RunId} {events : List Envelope} {consume : List Key}
    {cas : List Cas} (h : Written s run events consume cas s') (other : RunId) :
    s'.lastSeq other = s.lastSeq other + if other = run then events.length else 0 := by
  obtain ⟨row, hrow, -, hrows, -⟩ := h.row
  unfold Store.lastSeq
  rw [hrows]
  by_cases hother : other = run
  · subst hother
    rw [setRun_self, if_pos rfl]
    exact congrArg (· + events.length) (openRow_lastSeq hrow)
  · rw [setRun_other _ _ hother, if_neg hother]
    rfl

/-- A call that is no `append` leaves the logs. -/
theorem Enqueues.lastSeq {s s' : Store} {run : RunId} {event : Envelope} {cas : List Cas}
    (h : Enqueues s run event cas s') (other : RunId) : s'.lastSeq other = s.lastSeq other := by
  obtain ⟨row, hrow, hrows⟩ := h.row
  unfold Store.lastSeq
  rw [hrows]
  by_cases hother : other = run
  · subst hother
    rw [setRun_self]
    exact enqueueRow_lastSeq hrow
  · rw [setRun_other _ _ hother]

/-! ## The invariant -/

section Kept

variable {flow : RunId → FlowDef} {codec : Codec}

/-- **What holds of a store and its hosts**: every log is the engine's and reads as it is, the row of
a run has its length, and every view is the fold of a beginning of the log that was once all of it. -/
structure Hosts.Kept (flow : RunId → FlowDef) (codec : Codec) (c : Hosts) : Prop where
  trace : ∀ run, Trace run (flow run) (c.store.load run)
  reads : ∀ run, ∀ e ∈ c.store.load run, codec.readBack e = some e
  lastSeq : ∀ run, c.store.lastSeq run = (c.store.load run).length
  views : ∀ v ∈ c.views, ∃ p, p <+: c.store.load v.run ∧ Trace v.run (flow v.run) p ∧
    v.state = foldLog v.run (flow v.run) p ∧ v.seq = p.length

theorem Hosts.Kept.readLog {c : Hosts} (h : c.Kept flow codec) (run : RunId) :
    readLog codec c.store run = some (c.store.load run) := by
  have hread := h.reads run
  unfold Host.readLog
  generalize c.store.load run = log at hread ⊢
  induction log with
  | nil => rfl
  | cons e log ih =>
    rw [List.mapM_cons, hread e List.mem_cons_self,
      ih fun e' he' => hread e' (List.mem_cons_of_mem _ he')]
    rfl

/-- What leaves the logs keeps the rest. -/
theorem Hosts.Kept.same {c : Hosts} (h : c.Kept flow codec) {s' : Store}
    (hload : ∀ run, s'.load run = c.store.load run)
    (hseq : ∀ run, s'.lastSeq run = c.store.lastSeq run) {rows : List (String × RunId × Envelope)} :
    (Hosts.mk s' c.views rows).Kept flow codec where
  trace run := hload run ▸ h.trace run
  reads run := hload run ▸ h.reads run
  lastSeq run := by rw [hseq, hload, h.lastSeq]
  views v hv := hload v.run ▸ h.views v hv

theorem map_blockOf (v : Nat) (events : List Event) :
    (blockOf v events).map Envelope.toEvent = events := by
  cases events with
  | nil => rfl
  | cons input decisions =>
    rw [blockOf, List.map_cons, List.map_map]
    exact congrArg (input :: ·) (List.map_id _)

/-- A view whose `append` goes through is the fold of the whole log. -/
theorem Hosts.Kept.current {c : Hosts} (h : c.Kept flow codec) {v : View} (hv : v ∈ c.views)
    (hseq : c.store.lastSeq v.run = v.seq) :
    v.state = foldLog v.run (flow v.run) (c.store.load v.run) ∧
      v.seq = (c.store.load v.run).length := by
  obtain ⟨p, hp, -, hstate, hlen⟩ := h.views v hv
  have hwhole : p = c.store.load v.run := by
    refine hp.eq_of_length ?_
    rw [← hlen, ← hseq, h.lastSeq]
  rw [← hwhole]
  exact ⟨hstate, hlen⟩

/-- **A block that is written goes on a trace**, and what was cached before stays a beginning. -/
theorem Hosts.Kept.written {c : Hosts} (h : c.Kept flow codec) {run : RunId} {s' : Store}
    {events : List Envelope} {consume : List Key} {cas : List Cas}
    (hw : Written c.store run events consume cas s')
    (hnum : Numbered (c.store.lastSeq run) (events.map Envelope.toEvent))
    (htrace : Trace run (flow run) (c.store.load run ++ events.map Envelope.toEvent))
    (hreads : ∀ e ∈ events.map Envelope.toEvent, codec.readBack e = some e) :
    (Hosts.mk s' c.views c.rows).Kept flow codec := by
  have hload := hw.load hnum
  refine ⟨fun other => ?_, fun other e he => ?_, fun other => ?_, fun v hv => ?_⟩
  · rw [hload]
    split_ifs with hother
    · subst hother
      exact htrace
    · rw [List.append_nil]
      exact h.trace other
  · rw [hload] at he
    rcases List.mem_append.mp he with he | he
    · exact h.reads other e he
    · split_ifs at he
      · exact hreads e he
      · cases he
  · rw [hw.lastSeq, hload, List.length_append, h.lastSeq]
    split_ifs
    · rw [List.length_map]
    · rfl
  · obtain ⟨p, hp, htrace, hstate, hlen⟩ := h.views v hv
    refine ⟨p, ?_, htrace, hstate, hlen⟩
    rw [hload]
    exact hp.trans (List.prefix_append _ _)

/-- The events of a block read as they are. -/
theorem reads_reduce {row input : Event} (hread : codec.readBack row = some input) (st : RunState)
    (seq : Nat) : ∀ e ∈ reduce st seq input, codec.readBack e = some e := by
  intro e he
  rcases List.mem_cons.mp he with rfl | he
  · exact codec.moved (seq + 1) (codec.stable hread)
  · cases hb : e.body with
    | decision d => exact codec.decision hb
    | _ =>
      have := decisionEvents_decision _ _ _ e he
      rw [hb] at this
      cases this

theorem Hosts.hand_mem {c : Hosts} {view row : Nat} {v : View} {r : Envelope}
    (h : c.hand view row = some (v, r)) : v ∈ c.views ∧ (v.host, v.run, r) ∈ c.rows := by
  unfold Hosts.hand at h
  split at h
  · rename_i w host run e hview hrow
    split_ifs at h with hmine
    cases h
    obtain ⟨rfl, rfl⟩ := hmine
    exact ⟨List.mem_of_getElem? hview, List.mem_of_getElem? hrow⟩
  · cases h

/-- **What one act does.** A block that is written is decided on the fold of the log, and stands after
it. -/
inductive HostMove (flow : RunId → FlowDef) (codec : Codec) (c : Hosts) : HostAct → Hosts → Prop
  | nothing (a : HostAct) : HostMove flow codec c a c
  | loaded {host : String} {run : RunId} :
      HostMove flow codec c (.load host run) { c with
        views := c.views ++
          [⟨host, run, foldLog run (flow run) (c.store.load run), (c.store.load run).length⟩] }
  | read {host : String} {run : RunId} {row : Envelope} (h : row ∈ c.store.inbox run) :
      HostMove flow codec c (.next host run) { c with rows := c.rows ++ [(host, run, row)] }
  | committed {view row : Nat} {fence : Epoch} {cas : List Cas} {v : View} {r : Envelope}
      {input : Event} {s' : Store} (hhand : c.hand view row = some (v, r))
      (hread : codec.readBack r.toEvent = some input) (hin : isDecision input.body = false)
      (hstate : v.state = foldLog v.run (flow v.run) (c.store.load v.run))
      (hseq : v.seq = (c.store.load v.run).length)
      (hguard : Guarded c.store v.run v.seq fence (blockOf r.v (reduce v.state v.seq input)) cas)
      (hnew : duplicateOf (c.store.events v.run) (blockOf r.v (reduce v.state v.seq input)) = none)
      (hw : Written c.store v.run (blockOf r.v (reduce v.state v.seq input)) [r.key] cas s')
      (hload : ∀ run, s'.load run = c.store.load run ++
        if run = v.run then reduce v.state v.seq input else []) :
      HostMove flow codec c (.fold view row fence cas)
        { c with store := s', views := c.views ++ [v.after (reduce v.state v.seq input)] }
  | aside {view row : Nat} {now : Timestamp} {fence : Epoch} {cas : List Cas} {v : View}
      {r : Envelope} {s' : Store} (hhand : c.hand view row = some (v, r))
      (hseq : v.seq = (c.store.load v.run).length)
      (hnew : duplicateOf (c.store.events v.run)
        [⟨poisonEvent v.run v.seq now r.key, contractV⟩] = none)
      (hguard : Guarded c.store v.run v.seq fence
        [⟨poisonEvent v.run v.seq now r.key, contractV⟩] cas)
      (hw : Written c.store v.run [⟨poisonEvent v.run v.seq now r.key, contractV⟩] [r.key] cas s')
      (hload : ∀ run, s'.load run = c.store.load run ++
        if run = v.run then [poisonEvent v.run v.seq now r.key] else []) :
      HostMove flow codec c (.setAside view row now fence cas) { c with store := s' }
  | foldedBefore {view row : Nat} {fence : Epoch} {cas : List Cas} {v : View} {r : Envelope}
      {input : Event} {seq : Nat} (hhand : c.hand view row = some (v, r))
      (hread : codec.readBack r.toEvent = some input) (hin : isDecision input.body = false)
      (hstate : v.state = foldLog v.run (flow v.run) (c.store.load v.run))
      (hseq : v.seq = (c.store.load v.run).length)
      (hdup : duplicateOf (c.store.events v.run) (blockOf r.v (reduce v.state v.seq input))
        = some seq) :
      HostMove flow codec c (.fold view row fence cas) { c with
        store := { c.store with
          inbox := setRun c.store.inbox v.run (deleteRows (c.store.inbox v.run) [r.key]) } }
  | asideBefore {view row : Nat} {now : Timestamp} {fence : Epoch} {cas : List Cas} {v : View}
      {r : Envelope} {seq : Nat} (hhand : c.hand view row = some (v, r))
      (hdup : duplicateOf (c.store.events v.run)
        [⟨poisonEvent v.run v.seq now r.key, contractV⟩] = some seq) :
      HostMove flow codec c (.setAside view row now fence cas) { c with
        store := { c.store with
          inbox := setRun c.store.inbox v.run (deleteRows (c.store.inbox v.run) [r.key]) } }
  | enqueued {run : RunId} {event : Envelope} {cas : List Cas} {s' : Store}
      (h : Enqueues c.store run event cas s') :
      HostMove flow codec c (.enqueue run event cas) { c with store := s' }
  | set {key : Key} {«from» «to» : Option Value} {kv : KeyMap Key Value}
      (h : applyCas c.store.kv ⟨key, «from», «to»⟩ = .ok kv) :
      HostMove flow codec c (.compareAndSet key «from» «to») { c with store := { c.store with kv } }

theorem Hosts.Kept.moveFold {c : Hosts} (h : c.Kept flow codec) {view row : Nat} {v : View}
    {r : Envelope} {input : Event} (hhand : c.hand view row = some (v, r))
    (hread : codec.readBack r.toEvent = some input) (hin : isDecision input.body = false)
    (fence : Epoch) (cas : List Cas) :
    HostMove flow codec c (.fold view row fence cas) (c.commitInput v r input fence cas) := by
  simp only [Hosts.commitInput]
  have hcases := c.store.append_cases v.run v.seq fence
    (blockOf r.v (reduce v.state v.seq input)) [r.key] cas
  generalize c.store.append v.run v.seq fence
    (blockOf r.v (reduce v.state v.seq input)) [r.key] cas = answer at hcases ⊢
  cases hcases with
  | refused error => exact .nothing _
  | duplicate seq hguard hdup =>
    obtain ⟨hstate, hseq⟩ := h.current (Hosts.hand_mem hhand).1 hguard.seq
    exact .foldedBefore hhand hread hin hstate hseq hdup
  | written s' hguard hnew hw =>
    obtain ⟨hstate, hseq⟩ := h.current (Hosts.hand_mem hhand).1 hguard.seq
    refine .committed hhand hread hin hstate hseq hguard hnew hw fun run => ?_
    rw [hw.load ?_ run, map_blockOf]
    rw [map_blockOf, show c.store.lastSeq v.run = v.seq from hguard.seq]
    exact reduce_numbered _ _ _

theorem Hosts.Kept.moveAside {c : Hosts} (h : c.Kept flow codec) {view row : Nat} {v : View}
    {r : Envelope} (hhand : c.hand view row = some (v, r)) (now : Timestamp) (fence : Epoch)
    (cas : List Cas) :
    HostMove flow codec c (.setAside view row now fence cas) (c.consumePoison v r now fence cas) := by
  unfold Hosts.consumePoison
  have hcases := c.store.append_cases v.run v.seq fence
    [⟨poisonEvent v.run v.seq now r.key, contractV⟩] [r.key] cas
  generalize c.store.append v.run v.seq fence
    [⟨poisonEvent v.run v.seq now r.key, contractV⟩] [r.key] cas = answer at hcases ⊢
  cases hcases with
  | refused error => exact .nothing _
  | duplicate seq hguard hdup => exact .asideBefore hhand hdup
  | written s' hguard hnew hw =>
    obtain ⟨-, hseq⟩ := h.current (Hosts.hand_mem hhand).1 hguard.seq
    refine .aside hhand hseq hnew hguard hw fun run => ?_
    rw [hw.load ?_ run]
    · rfl
    · rw [show c.store.lastSeq v.run = v.seq from hguard.seq]
      rfl

/-- **One act is a move.** -/
theorem Hosts.Kept.move {c : Hosts} (h : c.Kept flow codec) (a : HostAct) :
    HostMove flow codec c a (c.act flow codec a) := by
  cases a with
  | load host run =>
    have hlen : seqAfter 0 (c.store.load run) = (c.store.load run).length := by
      rw [seqAfter_numbered (h.trace run).numbered, Nat.zero_add]
    simp only [Hosts.act, Hosts.load, h.readLog, hlen]
    exact .loaded
  | next host run =>
    simp only [Hosts.act, Hosts.next]
    split
    · rename_i row hrow
      exact .read (List.mem_of_mem_head? hrow)
    · exact .nothing _
  | fold view row fence cas =>
    simp only [Hosts.act]
    split
    · exact .nothing _
    · rename_i v r hhand
      split
      · exact .nothing _
      · rename_i input hread
        split_ifs with hdec
        · exact .nothing _
        · exact h.moveFold hhand hread (by simpa using hdec) fence cas
  | setAside view row now fence cas =>
    simp only [Hosts.act]
    split
    · exact .nothing _
    · rename_i v r hhand
      exact h.moveAside hhand now fence cas
  | enqueue run event cas =>
    simp only [Hosts.act]
    have hcases := c.store.enqueue_cases run event cas
    generalize c.store.enqueue run event cas = answer at hcases ⊢
    cases hcases with
    | refused error => exact .nothing _
    | duplicate _ => exact .nothing _
    | accepted s' he => exact .enqueued he
  | compareAndSet key «from» «to» =>
    simp only [Hosts.act]
    rcases c.store.compareAndSet_cases key «from» «to» with ⟨error, hmove⟩ | ⟨kv, hkv, hmove⟩
    · rw [hmove]
      exact .nothing _
    · rw [hmove]
      exact .set hkv

/-- **One act keeps the invariant.** -/
theorem Hosts.Kept.act {c : Hosts} (h : c.Kept flow codec) (a : HostAct) :
    (c.act flow codec a).Kept flow codec := by
  have hmove := h.move a
  generalize c.act flow codec a = c' at hmove
  cases hmove with
  | nothing => exact h
  | loaded =>
    refine ⟨h.trace, h.reads, h.lastSeq, fun v hv => ?_⟩
    rcases List.mem_append.mp hv with hv | hv
    · exact h.views v hv
    · rw [List.mem_singleton.mp hv]
      exact ⟨_, List.prefix_rfl, h.trace _, rfl, rfl⟩
  | read _ => exact ⟨h.trace, h.reads, h.lastSeq, h.views⟩
  | @committed _ _ _ _ v r input s' _ hread hin hstate hseq hguard _ hw hload =>
    have hevents := map_blockOf r.v (reduce v.state v.seq input)
    have hnum : Numbered (c.store.lastSeq v.run)
        ((blockOf r.v (reduce v.state v.seq input)).map Envelope.toEvent) := by
      rw [hevents, show c.store.lastSeq v.run = v.seq from hguard.seq]
      exact reduce_numbered _ _ _
    have htrace : Trace v.run (flow v.run) (c.store.load v.run ++
        (blockOf r.v (reduce v.state v.seq input)).map Envelope.toEvent) := by
      rw [hevents, hstate, hseq]
      exact .input (h.trace v.run) input hin
    have hreads : ∀ e ∈ (blockOf r.v (reduce v.state v.seq input)).map Envelope.toEvent,
        codec.readBack e = some e := by
      rw [hevents]
      exact reads_reduce hread _ _
    have hkept := h.written hw hnum htrace hreads
    refine ⟨hkept.trace, hkept.reads, hkept.lastSeq, fun w hw' => ?_⟩
    rcases List.mem_append.mp hw' with hw' | hw'
    · exact hkept.views w hw'
    · rw [List.mem_singleton.mp hw']
      have hlog : s'.load v.run = c.store.load v.run ++ reduce v.state v.seq input := by
        rw [hload, if_pos rfl]
      refine ⟨s'.load v.run, List.prefix_rfl, hkept.trace v.run, ?_, ?_⟩
      · rw [hlog]
        simp only [View.after]
        rw [foldLog_append, ← hstate]
      · rw [hlog]
        simp only [View.after]
        rw [seqAfter_numbered (reduce_numbered _ _ _), List.length_append, hseq]
  | @aside _ _ _ _ _ v r s' _ hseq _ hguard hw _ =>
    refine h.written hw ?_ ?_ ?_
    · rw [show c.store.lastSeq v.run = v.seq from hguard.seq]
      rfl
    · rw [List.map_singleton, hseq]
      exact .poison (h.trace v.run) _ r.key
    · intro e he
      rw [List.mem_singleton.mp he]
      exact codec.decision rfl
  | foldedBefore _ _ _ _ _ _ => exact ⟨h.trace, h.reads, h.lastSeq, h.views⟩
  | asideBefore _ _ => exact ⟨h.trace, h.reads, h.lastSeq, h.views⟩
  | enqueued he => exact h.same (load_of_events he.events) he.lastSeq
  | set _ => exact ⟨h.trace, h.reads, h.lastSeq, h.views⟩

theorem Hosts.start_kept : Hosts.start.Kept flow codec where
  trace _ := .nil
  reads _ _ he := nomatch he
  lastSeq _ := rfl
  views _ hv := nomatch hv

theorem Hosts.Kept.acts (acts : List HostAct) : ∀ {c : Hosts}, c.Kept flow codec →
    (c.acts flow codec acts).Kept flow codec := by
  induction acts with
  | nil => exact id
  | cons a acts ih => exact fun h => ih (h.act a)

/-- **The log is always an engine trace.** Whatever any number of hosts and other processes do on one
store, on states and rows however old: each log is gap-free from 1 and made of blocks, each one input
with exactly the decisions `decide` returns on the fold of everything before it, or one
`parked { poison_input }`; every state a host has cached is the fold of the log read back up to its
place; and the state it caches after an `append` is the fold of the whole log read back. -/
theorem log_is_engine_trace (flow : RunId → FlowDef) (codec : Codec) (acts : List HostAct) :
    let c := Hosts.start.acts flow codec acts
    (∀ run, Trace run (flow run) (c.store.load run) ∧
      (c.store.load run).map (fun e => e.seq) = List.range' 1 (c.store.load run).length) ∧
    (∀ v ∈ c.views, ∃ log, readLog codec c.store v.run = some log ∧ v.seq ≤ log.length ∧
      v.state = foldLog v.run (flow v.run) (log.take v.seq)) ∧
    ∀ view row fence cas v', (c.act flow codec (.fold view row fence cas)).views = c.views ++ [v'] →
      ∃ log, readLog codec (c.act flow codec (.fold view row fence cas)).store v'.run = some log ∧
        v'.state = foldLog v'.run (flow v'.run) log := by
  intro c
  have h : c.Kept flow codec := Hosts.start_kept.acts acts
  refine ⟨fun run => ⟨h.trace run, ?_⟩, fun v hv => ?_, fun view row fence cas v' hv' => ?_⟩
  · exact (h.trace run).numbered
  · obtain ⟨p, ⟨rest, hp⟩, -, hstate, hlen⟩ := h.views v hv
    refine ⟨_, h.readLog v.run, ?_, ?_⟩
    · rw [← hp, List.length_append, hlen]
      exact Nat.le_add_right _ _
    · rw [← hp, hlen, List.take_left]
      exact hstate
  · refine ⟨_, (h.act (.fold view row fence cas)).readLog v'.run, ?_⟩
    have hsame : c.views ≠ c.views ++ [v'] := by simp
    have hmove := h.move (.fold view row fence cas)
    generalize c.act flow codec (.fold view row fence cas) = c' at hmove hv' ⊢
    cases hmove with
    | nothing => exact absurd hv' hsame
    | @committed _ _ _ _ v r input s' _ _ _ hstate _ _ _ _ hload =>
      have heq := List.append_cancel_left hv'
      cases heq
      simp only [View.after, hload, if_true]
      rw [foldLog_append, ← hstate]
    | foldedBefore _ _ _ _ _ _ => exact absurd hv' hsame

end Kept

end NexusFlow.Host
