import NexusFlow.Run.Runs

/-!
# The questions of a run

A run asks with two decisions, `escalated` and `ceiling`, and never takes a question back: what it
has asked only grows, by what it decides (`asks_step`), and two questions never share an id
(`Ledger.questionIds`). So no decision asks under an id that was asked under before
(`question_new`).
-/

namespace NexusFlow.Run

open NexusFlow.Lib

/-- What has been asked, in order, answered or not. -/
def RunState.asks (st : RunState) : List (Key × Asked) := st.questions.map fun q => (q.id, q.asked)

/-- What a decision asks. -/
def Decision.asks : Decision → List (Key × Asked)
  | .escalated question slot message => [(question, .escalation slot message)]
  | .ceiling question step pass lastVerdict => [(question, .ceiling step pass lastVerdict)]
  | _ => []

theorem modifyRecord_asks (st : RunState) (s : Slot) (f : SlotRecord → SlotRecord) :
    (st.modifyRecord s f).asks = st.asks := by
  unfold RunState.modifyRecord
  split <;> rfl

/-- **A decision adds what it asks.** -/
theorem applyDecision_asks (st : RunState) (d : Decision) (now : Timestamp) :
    (applyDecision st d now).asks = st.asks ++ d.asks := by
  cases d with
  | stepStarted step visit attempt members =>
    obtain ⟨new, heq, -, -⟩ := applyStepStarted_eq st step visit attempt members now
    rw [applyDecision, heq]
    exact (List.append_nil _).symm
  | escalated question slot message => exact List.map_append
  | ceiling question step pass lastVerdict => exact List.map_append
  | timerSet timer fireAt purpose =>
    rw [show (Decision.timerSet timer fireAt purpose).asks = [] from rfl, List.append_nil]
    simp only [applyDecision]
    split
    · unfold armStart
      split
      · rfl
      · exact modifyRecord_asks _ _ _
    · rfl
  | liveness slot reason since =>
    exact (modifyRecord_asks _ _ _).trans (List.append_nil _).symm
  | held slot reason «until» resetsAt =>
    exact (modifyRecord_asks (takeOrder st) _ _).trans (List.append_nil _).symm
  | parked slot reason =>
    cases slot with
    | some slot => exact (modifyRecord_asks (takeOrder st) _ _).trans (List.append_nil _).symm
    | none => exact (List.append_nil _).symm
  | _ => exact (List.append_nil _).symm

theorem foldDecisions_asks (now : Timestamp) (ds : List Decision) : ∀ st : RunState,
    (foldDecisions st now ds).asks = st.asks ++ ds.flatMap Decision.asks := by
  induction ds with
  | nil => exact fun st => (List.append_nil _).symm
  | cons d ds ih =>
    intro st
    rw [List.flatMap_cons, ← List.append_assoc, ← applyDecision_asks st d now]
    exact ih _

theorem applyFiring_asks (st : RunState) (timer : Text) (purpose : TimerPurpose)
    (now : Timestamp) : (applyFiring st timer purpose now).asks = st.asks := by
  cases purpose with
  | stopGrace =>
    simp only [applyFiring]
    split
    · rfl
    · exact modifyRecord_asks _ _ _
  | windDown =>
    simp only [applyFiring]
    split
    · rfl
    · exact modifyRecord_asks _ _ _
  | _ => rfl

/-- A change of one entry that a reading does not see. -/
theorem map_modify_of_eq {α β : Type} {f : α → α} {g : α → β} (h : ∀ a, g (f a) = g a) (l : List α)
    (i : Nat) : (l.modify i f).map g = l.map g := by
  refine List.ext_getElem? fun j => ?_
  rw [List.getElem?_map, List.getElem?_map, List.getElem?_modify]
  split_ifs
  · cases l[j]? with
    | none => rfl
    | some a => exact congrArg some (h a)
  · cases l[j]? <;> rfl

/-- An answer marks its question, and leaves what was asked. -/
theorem applyAnswer_asks (st : RunState) (question : Key) (disposition : Disposition)
    (message : MessageId) : (applyAnswer st question disposition message).asks = st.asks := by
  unfold applyAnswer
  split
  · rfl
  · rename_i i _
    exact map_modify_of_eq (g := fun q : Question => (q.id, q.asked))
      (f := fun q => { q with answered := true }) (fun _ => rfl) st.questions i

/-- An input asks nothing of its own. -/
theorem applyInput_asks (st : RunState) (input : Event) : (applyInput st input).asks = st.asks := by
  unfold applyInput
  split
  · rfl
  · cases hb : input.body with
    | delivered message => simp only [applyBody, hb]; split <;> rfl
    | nudged key => simp only [applyBody, hb]; split <;> rfl
    | stopSignalled key nth signal => simp only [applyBody, hb]; split <;> rfl
    | sessionFact key f => simp only [applyBody, hb]; split <;> rfl
    | reply key m esc rew => simp only [applyBody, hb]; split <;> rfl
    | answer question disposition m =>
      simp only [applyBody, hb]
      exact applyAnswer_asks _ _ _ _
    | resume slot => simp only [applyBody, hb]; split <;> rfl
    | timerFired timer fireAt =>
      simp only [applyBody, hb]
      split
      · rfl
      · split
        · rfl
        · exact applyFiring_asks _ _ _ _
    | _ => simp only [applyBody, hb, RunState.asks]

/-- **What a step asks is what it decides.** -/
theorem asks_step (st : RunState) (input : Event) :
    (step st input).asks = st.asks ++ (decide st input).flatMap Decision.asks := by
  unfold step
  rw [foldDecisions_asks, applyInput_asks]

theorem asks_poison (st : RunState) (now : Timestamp) :
    ((Item.poison now).apply st).asks = st.asks :=
  (applyDecision_asks st _ now).trans (List.append_nil _)

/-- The id a decision asks under. -/
def Decision.question? : Decision → Option Key
  | .escalated question _ _ | .ceiling question _ _ _ => some question
  | _ => none

theorem mem_asks_of_question {d : Decision} {id : Key} (h : d.question? = some id) :
    ∃ asked, d.asks = [(id, asked)] := by
  cases d with
  | escalated question slot message => cases h; exact ⟨_, rfl⟩
  | ceiling question step pass lastVerdict => cases h; exact ⟨_, rfl⟩
  | _ => cases h

theorem mem_asks {st : RunState} {ask : Key × Asked} :
    ask ∈ st.asks ↔ ∃ q ∈ st.questions, q.id = ask.1 ∧ q.asked = ask.2 := by
  unfold RunState.asks
  rw [List.mem_map]
  exact exists_congr fun q => and_congr_right fun _ => Prod.ext_iff

/-- A question stays, answered or not. -/
theorem question_stays {st : RunState} (input : Event) {q : Question} (hq : q ∈ st.questions) :
    ∃ q' ∈ (step st input).questions, q'.id = q.id ∧ q'.asked = q.asked := by
  have hmem : (q.id, q.asked) ∈ (step st input).asks := by
    rw [asks_step]
    exact List.mem_append_left _ (mem_asks.mpr ⟨q, hq, rfl, rfl⟩)
  exact mem_asks.mp hmem

/-- What a decision asks is asked. -/
theorem question_asked {st : RunState} {input : Event} {d : Decision} (hd : d ∈ decide st input)
    {id : Key} (hid : d.question? = some id) : ∃ q ∈ (step st input).questions, q.id = id := by
  obtain ⟨asked, hasks⟩ := mem_asks_of_question hid
  have hmem : (id, asked) ∈ (step st input).asks := by
    rw [asks_step]
    refine List.mem_append_right _ (List.mem_flatMap.mpr ⟨d, hd, ?_⟩)
    rw [hasks]
    exact List.mem_singleton_self _
  obtain ⟨q, hq, hqid, -⟩ := mem_asks.mp hmem
  exact ⟨q, hq, hqid⟩

/-- **No decision asks under an id that was asked under before.** -/
theorem question_new {st : RunState} {input : Event} (hnext : Inv (step st input)) {d : Decision}
    (hd : d ∈ decide st input) {id : Key} (hid : d.question? = some id) :
    ∀ q ∈ st.questions, q.id ≠ id := by
  intro q hq heq
  obtain ⟨asked, hasks⟩ := mem_asks_of_question hid
  have hids := hnext.route.questionIds
  have hmap : ∀ st : RunState, st.questions.map Question.id = st.asks.map Prod.fst := by
    intro st
    unfold RunState.asks
    rw [List.map_map]
    rfl
  rw [hmap, asks_step, List.map_append, List.nodup_append] at hids
  refine hids.2.2 q.id ?_ id ?_ heq
  · rw [← hmap]
    exact List.mem_map_of_mem hq
  · refine List.mem_map.mpr ⟨(id, asked), List.mem_flatMap.mpr ⟨d, hd, ?_⟩, rfl⟩
    rw [hasks]
    exact List.mem_singleton_self _

/-- The form of a question's id. -/
theorem question_id {st : RunState} (hinv : Inv st) {q : Question} (hq : q ∈ st.questions) :
    (∃ s, q.id = "escalated/".toList ++ st.sessionKey s) ∨
      ∃ s v p, q.id = Emit.ceilingKey st.run s v p := by
  cases hasked : q.asked with
  | escalation s m => exact Or.inl ⟨s, (hinv.coh.asked q hq s m hasked).1⟩
  | ceiling step pass m =>
    obtain ⟨f, -, -, hid, -⟩ := hinv.route.ceilings q hq step pass m hasked
    exact Or.inr ⟨step, f.visit, pass, hid⟩

end NexusFlow.Run
