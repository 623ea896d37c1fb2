import NexusFlow.Run.Runs

/-!
# The log of a run

Model of `evolve` (`crates/run-engine/src/evolve.rs`), of `decision_key` (`decide.rs`) and of
`Host::reduce` and `Host::consume_poison` (`crates/run-host/src/fold.rs`), which write a run's log:
one block for each input, the input followed by the decisions `decide` returns for it, and a block of
one event, `parked { poison_input }`, for an inbox row that is set aside.

`Trace` is a log made of such blocks, each decided on the fold of everything before it. Its fold is a
state the engine's runs reach (`Trace.reaches`), so what holds of every run holds of every log.

`evolve` refuses a decision of a newer version; every decision of this model is of this one.
-/

namespace NexusFlow.Host

open NexusFlow.Run

/-- `evolve`: applies one event of the log. -/
def evolve (st : RunState) (event : Event) : RunState :=
  match event.body with
  | .decision d => applyDecision st d event.now
  | _ => applyInput st event

/-- `fold(evolve, initial, log)`. -/
def foldLog (run : RunId) (flow : FlowDef) (log : List Event) : RunState :=
  log.foldl evolve (.initial run flow)

/-- `decision_key`: a question's id is the key of the event that asked. -/
def decisionKey (inputKey : Key) (index : Nat) : Decision → Key
  | .escalated question _ _ | .ceiling question _ _ _ => question
  | _ => inputKey ++ "/d".toList ++ decimal index

/-- The events of a list of decisions, from an index on. -/
def decisionEvents (input : Event) (index : Nat) : List Decision → List Event
  | [] => []
  | d :: ds =>
    ⟨input.seq + 1 + index, input.now, decisionKey input.key index d, .decision d⟩ ::
      decisionEvents input (index + 1) ds

/-- `Host::reduce`: the input at its place in the log, and the decisions on it. -/
def reduce (st : RunState) (seq : Nat) (input : Event) : List Event :=
  let logged : Event := { input with seq := seq + 1 }
  logged :: decisionEvents logged 0 (Run.decide st logged)

/-- `poison/<run>/<key>`: the key of the count of an input's failures, and of the event that sets
the input aside. -/
def poisonKey (run : RunId) (key : Key) : Key := "poison/".toList ++ run ++ '/' :: key

/-- `Host::consume_poison`: the event a row that would not fold is set aside by. -/
def poisonEvent (run : RunId) (seq : Nat) (now : Timestamp) (key : Key) : Event :=
  ⟨seq + 1, now, poisonKey run key, .decision (.parked none .poisonInput)⟩

/-- Whether the body is the reducer's own: a row that holds one is no input. -/
def isDecision : EventBody → Bool
  | .decision _ => true
  | _ => false

/-- **A log of the engine**: blocks, each decided on the fold of everything before it. -/
inductive Trace (run : RunId) (flow : FlowDef) : List Event → Prop
  | nil : Trace run flow []
  | input {log : List Event} (h : Trace run flow log) (input : Event)
      (hin : isDecision input.body = false) :
      Trace run flow (log ++ reduce (foldLog run flow log) log.length input)
  | poison {log : List Event} (h : Trace run flow log) (now : Timestamp) (key : Key) :
      Trace run flow (log ++ [poisonEvent run log.length now key])

/-! ## The fold of a block -/

/-- The events of a list of decisions carry them, each under its key. -/
theorem mem_decisionEvents {input e : Event} {ds : List Decision} : ∀ {index : Nat},
    e ∈ decisionEvents input index ds →
      ∃ i d, d ∈ ds ∧ e.body = .decision d ∧ e.key = decisionKey input.key i d := by
  induction ds with
  | nil => exact fun he => (List.not_mem_nil he).elim
  | cons d ds ih =>
    intro index he
    rcases List.mem_cons.mp he with rfl | he
    · exact ⟨index, d, List.mem_cons_self, rfl, rfl⟩
    · obtain ⟨i, d', hd', hb, hk⟩ := ih he
      exact ⟨i, d', List.mem_cons_of_mem _ hd', hb, hk⟩

theorem foldLog_append (run : RunId) (flow : FlowDef) (log more : List Event) :
    foldLog run flow (log ++ more) = more.foldl evolve (foldLog run flow log) :=
  List.foldl_append

theorem evolve_input {st : RunState} {event : Event} (h : isDecision event.body = false) :
    evolve st event = applyInput st event := by
  unfold evolve
  cases hb : event.body with
  | decision d => rw [hb] at h; cases h
  | _ => rfl

theorem foldl_decisionEvents (input : Event) (ds : List Decision) : ∀ (index : Nat) (st : RunState),
    (decisionEvents input index ds).foldl evolve st = foldDecisions st input.now ds := by
  induction ds with
  | nil => exact fun _ _ => rfl
  | cons d ds ih =>
    intro index st
    exact ih (index + 1) (applyDecision st d input.now)

/-- **Folding a block is one step of the engine.** -/
theorem foldl_reduce (st : RunState) (seq : Nat) {input : Event}
    (h : isDecision input.body = false) :
    (reduce st seq input).foldl evolve st = step st { input with seq := seq + 1 } := by
  have hinput : evolve st { input with seq := seq + 1 } = applyInput st { input with seq := seq + 1 } :=
    evolve_input h
  unfold reduce
  rw [List.foldl_cons, hinput, foldl_decisionEvents]
  rfl

theorem foldl_poisonEvent (st : RunState) (run : RunId) (seq : Nat) (now : Timestamp) (key : Key) :
    [poisonEvent run seq now key].foldl evolve st = (Item.poison now).apply st := rfl

/-- **The fold of a log is a state of the engine.** -/
theorem Trace.reaches {run : RunId} {flow : FlowDef} {log : List Event} (h : Trace run flow log) :
    ∃ entries, Reaches run flow entries (foldLog run flow log) := by
  induction h with
  | nil => exact ⟨[], .initial⟩
  | @input log h input hin ih =>
    obtain ⟨entries, hr⟩ := ih
    rw [foldLog_append, foldl_reduce _ _ hin]
    exact ⟨_, hr.step (.input _)⟩
  | @poison log h now key ih =>
    obtain ⟨entries, hr⟩ := ih
    rw [foldLog_append, foldl_poisonEvent]
    exact ⟨_, hr.step (.poison now)⟩

end NexusFlow.Host
