import Mathlib.Data.List.Chain
import NexusFlow.Sync.Engine

/-!
# A push is cut without loss

The two halves of a push request's making (`crates/sync/src/engine.rs:763-849`).
`split_by_body_size` cuts a page into runs whose bodies stay within the ceiling, and
`push_halving_on_413` pushes one run, halving it where the relay refuses it as too large.

The split is greedy: a batch ends only before an op that no longer fits into it (`Cut`). Whatever
the relay answers, what it has accepted is at every end the front of the run, and the watermark
stands at its last op (`Halved`); a run of `n` ops ends within `3 * n` calls.
-/

namespace NexusFlow.Sync

open NexusFlow.Foundation NexusFlow.Lib

/-! ## The body of a push -/

section Split

-- `serde_json::to_vec` of an op
variable (opJson : Op → List UInt8)

/-- `PushRequest` as it is sent: the ops' texts joined by commas, in the frame of the request. -/
def pushBody (ops : List Op) : List UInt8 :=
  "\x7b\"ops\":[".toUTF8.toList ++ List.intercalate [44] (ops.map opJson) ++ "]\x7d".toUTF8.toList

/-- `op_json_len`. -/
def opJsonLen (op : Op) : Nat := (opJson op).length

/-- The bytes of a run's body. -/
def bodyLen (run : Batch) : Nat := (pushBody opJson (run.map Prod.snd)).length

variable {opJson}

theorem bodyLen_eq (run : Batch) : bodyLen opJson run =
    pushBodyFrame + (List.intercalate [44] ((run.map Prod.snd).map opJson)).length := by
  have hopen : "\x7b\"ops\":[".toUTF8.toList.length = 8 := by decide +kernel
  have hclose : "]\x7d".toUTF8.toList.length = 2 := by decide +kernel
  unfold bodyLen pushBody pushBodyFrame
  rw [List.length_append, List.length_append, hopen, hclose]
  omega

theorem bodyLen_nil : bodyLen opJson [] = pushBodyFrame := bodyLen_eq []

theorem bodyLen_singleton (e : Int × Op) :
    bodyLen opJson [e] = pushBodyFrame + opJsonLen opJson e.2 := by
  rw [bodyLen_eq, List.map_singleton, List.map_singleton, List.intercalate_singleton]
  rfl

theorem length_intercalate_append {sep : List UInt8} {a b : List (List UInt8)} (ha : a ≠ [])
    (hb : b ≠ []) : (sep.intercalate (a ++ b)).length =
      (sep.intercalate a).length + sep.length + (sep.intercalate b).length := by
  induction a with
  | nil => exact absurd rfl ha
  | cons x a ih =>
    cases a with
    | nil =>
      rw [List.singleton_append, List.intercalate_cons_of_ne_nil hb, List.intercalate_singleton,
        List.length_append, List.length_append]
    | cons y a =>
      rw [List.cons_append, List.intercalate_cons_of_ne_nil (by simp), List.length_append,
        List.length_append, ih (List.cons_ne_nil y a),
        List.intercalate_cons_of_ne_nil (List.cons_ne_nil y a), List.length_append,
        List.length_append]
      omega

/-- Two runs in one body: one frame less, and a comma between them. -/
theorem bodyLen_append {a b : Batch} (ha : a ≠ []) (hb : b ≠ []) :
    bodyLen opJson (a ++ b) + pushBodyFrame = bodyLen opJson a + 1 + bodyLen opJson b := by
  rw [bodyLen_eq, bodyLen_eq, bodyLen_eq, List.map_append, List.map_append,
    length_intercalate_append (by simpa using ha) (by simpa using hb), List.length_singleton]
  omega

theorem frame_le_bodyLen (run : Batch) : pushBodyFrame ≤ bodyLen opJson run := by
  rw [bodyLen_eq]
  omega

/-- What the loop adds for one more op. -/
theorem bodyLen_snoc (run : Batch) (e : Int × Op) : bodyLen opJson (run ++ [e]) =
    bodyLen opJson run + (if run.isEmpty then 0 else 1) + opJsonLen opJson e.2 := by
  by_cases h : run = []
  · rw [h, List.nil_append, bodyLen_singleton, bodyLen_nil]
    rfl
  · have hsum := @bodyLen_append opJson _ _ h (List.cons_ne_nil e [])
    rw [bodyLen_singleton] at hsum
    rw [if_neg (by simpa using h)]
    omega

/-- More ops need more bytes. -/
theorem bodyLen_le_append (a b : Batch) : bodyLen opJson a ≤ bodyLen opJson (a ++ b) := by
  by_cases ha : a = []
  · rw [ha, bodyLen_nil]
    exact frame_le_bodyLen _
  by_cases hb : b = []
  · rw [hb, List.append_nil]
  have hsum := @bodyLen_append opJson _ _ ha hb
  have hframe := @frame_le_bodyLen opJson b
  omega

/-- An op alone needs no more than a run it is in. -/
theorem bodyLen_singleton_le {run : Batch} {e : Int × Op} (he : e ∈ run) :
    bodyLen opJson [e] ≤ bodyLen opJson run := by
  obtain ⟨a, b, rfl⟩ := List.append_of_mem he
  have hsnoc := @bodyLen_snoc opJson a e
  have hframe := @frame_le_bodyLen opJson a
  have hmono := @bodyLen_le_append opJson (a ++ [e]) b
  rw [List.append_assoc, List.singleton_append] at hmono
  rw [bodyLen_singleton]
  omega

/-! ## The split -/

/-- **The page is cut without loss.** The batches and the rest are the page; each batch is a run
within the ceiling, and no batch would fit in one body with the one before it; the cut stops before
the end exactly at the first op that is too large alone. -/
structure Cut (opJson : Op → List UInt8) (ceiling : Nat) (page rest : Batch) (cut : BodySplit) :
    Prop where
  pieces : cut.batches.flatten ++ rest = page
  runs : ∀ batch ∈ cut.batches, batch ≠ [] ∧ bodyLen opJson batch ≤ ceiling
  full : cut.batches.IsChain fun a b => ceiling < bodyLen opJson (a ++ b)
  stop : ∀ e ∈ cut.batches.flatten, bodyLen opJson [e] ≤ ceiling
  done : cut.tooLarge = none → rest = []
  tooLarge : ∀ id bytes, cut.tooLarge = some (id, bytes) → ∃ e more, rest = e :: more ∧
    id = e.2.opId ∧ bytes = bodyLen opJson [e] ∧ ceiling < bodyLen opJson [e]

/-- The first batch begins with the run. -/
def BodySplit.StartsWith (cut : BodySplit) (run : Batch) : Prop :=
  ∀ batch, cut.batches.head? = some batch → ∃ more, batch = run ++ more

/-- The split that ends with the open run as its last batch. -/
theorem cut_last {ceiling : Nat} {run rest : Batch} {tooLarge : Option (String × Nat)}
    (hrun : run ≠ [] → bodyLen opJson run ≤ ceiling) (hdone : tooLarge = none → rest = [])
    (hlarge : ∀ id bytes, tooLarge = some (id, bytes) → ∃ e more, rest = e :: more ∧
      id = e.2.opId ∧ bytes = bodyLen opJson [e] ∧ ceiling < bodyLen opJson [e]) :
    Cut opJson ceiling (run ++ rest) rest ⟨if run.isEmpty then [] else [run], tooLarge⟩ ∧
      BodySplit.StartsWith ⟨if run.isEmpty then [] else [run], tooLarge⟩ run := by
  by_cases hempty : run = []
  · subst hempty
    exact ⟨⟨rfl, by simp, List.IsChain.nil, by simp, hdone, hlarge⟩, fun _ h => by cases h⟩
  · rw [if_neg (by simpa using hempty)]
    refine ⟨⟨by simp, ?_, List.IsChain.singleton run, ?_, hdone, hlarge⟩, ?_⟩
    · intro batch hbatch
      rw [List.mem_singleton.mp hbatch]
      exact ⟨hempty, hrun hempty⟩
    · intro e he
      rw [List.flatten_singleton] at he
      exact (bodyLen_singleton_le he).trans (hrun hempty)
    · intro batch hbatch
      rw [← Option.some.inj hbatch]
      exact ⟨[], (List.append_nil run).symm⟩

/-- **The loop keeps the cut**: what it has open is within the ceiling. -/
theorem cut_splitLoop (ceiling : Nat) (run page : Batch)
    (hrun : run ≠ [] → bodyLen opJson run ≤ ceiling) :
    ∃ rest, Cut opJson ceiling (run ++ page) rest
        (splitLoop (opJsonLen opJson) ceiling run (bodyLen opJson run) page) ∧
      (splitLoop (opJsonLen opJson) ceiling run (bodyLen opJson run) page).StartsWith run := by
  induction page generalizing run with
  | nil => exact ⟨[], cut_last hrun (fun _ => rfl) (by simp)⟩
  | cons e page ih =>
    rw [splitLoop]
    dsimp only
    rw [← bodyLen_singleton, ← bodyLen_snoc]
    by_cases halone : ceiling < bodyLen opJson [e]
    · rw [if_pos halone]
      refine ⟨e :: page, cut_last hrun (fun h => by cases h) fun id bytes h => ?_⟩
      obtain ⟨rfl, rfl⟩ := Prod.mk.inj (Option.some.inj h)
      exact ⟨e, page, rfl, rfl, rfl, halone⟩
    rw [if_neg halone]
    by_cases hfull : ceiling < bodyLen opJson (run ++ [e])
    · rw [if_pos hfull]
      have hne : run ≠ [] := by
        rintro rfl
        exact halone hfull
      obtain ⟨rest, hcut, hstart⟩ := ih [e] fun _ => not_lt.mp halone
      generalize splitLoop (opJsonLen opJson) ceiling [e] (bodyLen opJson [e]) page = cut at *
      refine ⟨rest, ⟨?_, ?_, ?_, ?_, hcut.done, hcut.tooLarge⟩, fun batch hbatch => ?_⟩
      · rw [List.flatten_cons, List.append_assoc, hcut.pieces, List.singleton_append]
      · exact List.forall_mem_cons.mpr ⟨⟨hne, hrun hne⟩, hcut.runs⟩
      · refine List.isChain_cons.mpr ⟨fun batch hbatch => ?_, hcut.full⟩
        obtain ⟨more, rfl⟩ := hstart batch hbatch
        rw [← List.append_assoc]
        exact hfull.trans_le (bodyLen_le_append _ more)
      · rw [List.flatten_cons]
        intro x hx
        rcases List.mem_append.mp hx with hx | hx
        · exact (bodyLen_singleton_le hx).trans (hrun hne)
        · exact hcut.stop x hx
      · rw [← Option.some.inj hbatch]
        exact ⟨[], (List.append_nil run).symm⟩
    · rw [if_neg hfull]
      obtain ⟨rest, hcut, hstart⟩ := ih (run ++ [e]) fun _ => not_lt.mp hfull
      rw [List.append_assoc, List.singleton_append] at hcut
      refine ⟨rest, hcut, fun batch hbatch => ?_⟩
      obtain ⟨more, rfl⟩ := hstart batch hbatch
      exact ⟨e :: more, List.append_assoc run [e] more⟩

theorem cut_splitByBodySize (page : Batch) (ceiling : Nat) :
    ∃ rest, Cut opJson ceiling page rest
      (splitByBodySize (opJsonLen opJson) page ceiling) := by
  obtain ⟨rest, hcut, _⟩ := @cut_splitLoop opJson ceiling [] page fun h => absurd rfl h
  rw [bodyLen_nil] at hcut
  exact ⟨rest, hcut⟩

end Split

/-! ## The halving -/

/-- A call of a pass and what it was answered with. -/
abbrev Asked : Type := Prog.Exchange Call Reply

/-- The ops a call brought to the relay. -/
def accepted : Asked → List Op
  | ⟨.push ops, .ok ()⟩ => ops
  | _ => []

/-- What `push_halving_on_413` answers. -/
abbrev PushAnswer : Type := Except SyncError (Option (String × Nat))

/-- **A run was pushed without loss.** What the relay accepted is the front of the run, each op of
it once and in order; the watermark is at its last op; without an answer nothing is left; and the op
of an answer is the next one, which the relay refused alone with a 413. -/
structure Halved (opJsonLen : Op → Nat) (batch : Batch) (s : Pushing)
    (calls : List Asked) (answer : PushAnswer) (s' : Pushing) (done rest : Batch) :
    Prop where
  split : done ++ rest = batch
  accepted : calls.flatMap accepted = done.map Prod.snd
  mark : s'.marks =
    { s.marks with pushedThrough := (done.getLast?.map Prod.fst).getD s.marks.pushedThrough }
  pushed : s'.pushed = s.pushed + done.length
  all : answer = .ok none → rest = []
  refused : ∀ id bytes, answer = .ok (some (id, bytes)) → ∃ e more, rest = e :: more ∧
    id = e.2.opId ∧ bytes = pushBodyFrame + opJsonLen e.2 ∧
    ∃ err : TransportError, err.isTooLarge = true ∧
      (⟨.push [e.2], .error err⟩ : Asked) ∈ calls
  calls_lt : calls.length < 3 * batch.length

section Halving

variable {opJsonLen : Op → Nat} {head tail done rest : Batch} {s s₁ s' : Pushing}
  {calls calls' : List Asked} {answer : PushAnswer} {x : Asked}

/-- The first half ended the run: the second one is left. -/
theorem Halved.stopped (h : Halved opJsonLen head s calls answer s' done rest)
    (hanswer : answer ≠ .ok none) (hx : Sync.accepted x = []) (htail : tail ≠ []) :
    Halved opJsonLen (head ++ tail) s (x :: calls) answer s' done (rest ++ tail) where
  split := by rw [← List.append_assoc, h.split]
  accepted := by rw [List.flatMap_cons, hx, List.nil_append, h.accepted]
  mark := h.mark
  pushed := h.pushed
  all := fun hnone => absurd hnone hanswer
  refused := fun id bytes hsome => by
    obtain ⟨e, more, rfl, hid, hbytes, err, herr, hmem⟩ := h.refused id bytes hsome
    exact ⟨e, more ++ tail, rfl, hid, hbytes, err, herr, List.mem_cons_of_mem x hmem⟩
  calls_lt := by
    have hcalls := h.calls_lt
    have hpos := List.length_pos_of_ne_nil htail
    rw [List.length_cons, List.length_append]
    omega

/-- The first half went through: the second one decides. -/
theorem Halved.both (h : Halved opJsonLen head s calls (.ok none) s₁ done rest)
    {done' rest' : Batch}
    (h' : Halved opJsonLen tail s₁ calls' answer s' done' rest') (hx : Sync.accepted x = []) :
    Halved opJsonLen (head ++ tail) s (x :: (calls ++ calls')) answer s' (head ++ done') rest' := by
  obtain rfl := h.all rfl
  obtain rfl : done = head := by rw [← h.split, List.append_nil]
  exact {
    split := by rw [List.append_assoc, h'.split]
    accepted := by
      rw [List.flatMap_cons, hx, List.nil_append, List.flatMap_append, h.accepted, h'.accepted,
        List.map_append]
    mark := by
      rw [h'.mark, h.mark, List.getLast?_append]
      cases done'.getLast? <;> rfl
    pushed := by
      rw [h'.pushed, h.pushed, List.length_append]
      omega
    all := h'.all
    refused := fun id bytes hsome => by
      obtain ⟨e, more, hrest, hid, hbytes, err, herr, hmem⟩ := h'.refused id bytes hsome
      exact ⟨e, more, hrest, hid, hbytes, err, herr,
        List.mem_cons_of_mem x (List.mem_append_right calls hmem)⟩
    calls_lt := by
      have hcalls := h.calls_lt
      have hcalls' := h'.calls_lt
      rw [List.length_cons, List.length_append, List.length_append]
      omega }

/-- The relay took the whole run. -/
theorem Halved.taken {batch : Batch} (hne : batch ≠ []) (s : Pushing) {y : Asked}
    (hy : Sync.accepted y = []) (answer : PushAnswer)
    (hanswer : ∀ id bytes, answer ≠ .ok (some (id, bytes))) :
    Halved opJsonLen batch s [⟨.push (batch.map Prod.snd), .ok ()⟩, y] answer
      { marks := { s.marks with
          pushedThrough := (batch.getLast?.map Prod.fst).getD s.marks.pushedThrough }
        pushed := s.pushed + batch.length } batch [] where
  split := List.append_nil batch
  accepted := by
    rw [List.flatMap_cons, List.flatMap_cons, hy, List.flatMap_nil, List.append_nil,
      List.append_nil]
    rfl
  mark := rfl
  pushed := rfl
  all := fun _ => rfl
  refused := fun id bytes h => absurd h (hanswer id bytes)
  calls_lt := by
    have hpos := List.length_pos_of_ne_nil hne
    rw [List.length_cons, List.length_singleton]
    omega

/-- The relay took nothing. -/
theorem Halved.untouched {batch : Batch} (hne : batch ≠ []) (s : Pushing) {err : TransportError}
    {answer : PushAnswer} (hnone : answer ≠ .ok none)
    (hrefused : ∀ id bytes, answer = .ok (some (id, bytes)) → ∃ e, batch = [e] ∧
      id = e.2.opId ∧ bytes = pushBodyFrame + opJsonLen e.2 ∧ err.isTooLarge = true) :
    Halved opJsonLen batch s [⟨.push (batch.map Prod.snd), .error err⟩] answer s [] batch where
  split := rfl
  accepted := rfl
  mark := rfl
  pushed := rfl
  all := fun h => absurd h hnone
  refused := fun id bytes h => by
    obtain ⟨e, rfl, hid, hbytes, herr⟩ := hrefused id bytes h
    exact ⟨e, [], rfl, hid, hbytes, err, herr, List.mem_cons_self⟩
  calls_lt := by
    have hpos := List.length_pos_of_ne_nil hne
    rw [List.length_singleton]
    omega

/-! ### Every pattern of answers -/

/-- Any answers, and a bound on the calls. -/
abbrev anyAnswers (bound : Nat) : Prog.Discipline Call Reply (List Asked) :=
  Prog.onRecord (fun _ _ => True) fun _ before => before.length < bound

/-- A run that is pushed is pushed without loss, and within its calls. -/
theorem wp_pushHalvingOn413 (opJsonLen : Op → Nat) (bound : Nat) (batch : Batch)
    (hne : batch ≠ []) (s : Pushing) (before : List Asked)
    (hbound : before.length + 3 * batch.length ≤ bound + 1) :
    (pushHalvingOn413 opJsonLen batch s).wp (anyAnswers bound) (fun out record =>
      ∃ calls, record = before ++ calls ∧
        ∃ done rest, Halved opJsonLen batch s calls out.1 out.2 done rest) before := by
  -- along the halvings, which make the run shorter
  induction hlen : batch.length using Nat.strong_induction_on generalizing batch s before with
  | _ n ih =>
    subst hlen
    have hpos := List.length_pos_of_ne_nil hne
    rw [pushHalvingOn413]
    refine Prog.wp_recorded (by omega) fun reply _ => ?_
    cases reply with
    | ok u =>
      refine Prog.wp_recorded ?_ fun reply _ => ?_
      · rw [List.length_append, List.length_singleton]
        omega
      cases reply with
      | ok u =>
        refine Prog.wp_recorded_pure ⟨_, List.append_assoc _ _ _, batch, [], ?_⟩
        exact .taken hne s rfl _ (by simp)
      | error e =>
        refine Prog.wp_recorded_pure ⟨_, List.append_assoc _ _ _, batch, [], ?_⟩
        exact .taken hne s rfl _ (by simp)
    | error err =>
      by_cases hlarge : err.isTooLarge = true
      · by_cases hmany : 1 < batch.length
        · -- the halves, each shorter than the run
          have hsplit := List.take_append_drop (batch.length / 2) batch
          have hhead : (batch.take (batch.length / 2)).length = batch.length / 2 := by
            rw [List.length_take]
            omega
          have htail : (batch.drop (batch.length / 2)).length =
              batch.length - batch.length / 2 := List.length_drop
          generalize batch.take (batch.length / 2) = head at *
          generalize batch.drop (batch.length / 2) = tail at *
          have hheadNe : head ≠ [] := List.ne_nil_of_length_pos (by omega)
          have htailNe : tail ≠ [] := List.ne_nil_of_length_pos (by omega)
          subst hsplit
          rw [List.length_append] at hbound
          dsimp only
          rw [if_pos hlarge, dif_pos hmany]
          refine Prog.wp_bind (fun _ => rfl) (Prog.wp_mono (fun out record h => ?_)
            (ih head.length (by omega) head hheadNe s _ ?_ rfl))
          · obtain ⟨answer, s₁⟩ := out
            obtain ⟨calls, rfl, done, rest, hhalf⟩ := h
            have hcalls := hhalf.calls_lt
            have hstop : answer ≠ .ok none → ∃ more,
                before ++ [⟨.push ((head ++ tail).map Prod.snd), .error err⟩] ++ calls =
                  before ++ more ∧ ∃ done rest,
                    Halved opJsonLen (head ++ tail) s more answer s₁ done rest := fun hanswer =>
              ⟨_, List.append_assoc _ _ _, done, rest ++ tail, hhalf.stopped hanswer rfl htailNe⟩
            rcases answer with e | (_ | refused)
            · exact Prog.wp_recorded_pure (hstop (by simp))
            · refine Prog.wp_mono (fun out record h => ?_)
                (ih tail.length (by omega) tail htailNe s₁ _ ?_ rfl)
              · obtain ⟨calls', rfl, done', rest', htailHalf⟩ := h
                exact ⟨⟨.push ((head ++ tail).map Prod.snd), .error err⟩ :: (calls ++ calls'),
                  by simp, head ++ done', rest', hhalf.both htailHalf rfl⟩
              · rw [List.length_append, List.length_append, List.length_singleton]
                omega
            · exact Prog.wp_recorded_pure (hstop (by simp))
          · rw [List.length_append, List.length_singleton]
            omega
        · obtain ⟨e, rfl⟩ := List.length_eq_one_iff.mp (by omega : batch.length = 1)
          dsimp only
          rw [if_pos hlarge, dif_neg hmany]
          refine Prog.wp_recorded_pure ⟨_, rfl, [], [e], .untouched hne s (by simp) ?_⟩
          intro id bytes h
          obtain ⟨rfl, rfl⟩ := Prod.mk.inj (Option.some.inj (Except.ok.inj h))
          exact ⟨e, rfl, rfl, rfl, hlarge⟩
      · dsimp only
        rw [if_neg hlarge]
        exact Prog.wp_recorded_pure ⟨_, rfl, [], batch, .untouched hne s (by simp) (by simp)⟩

/-- At every point of a run the calls are within the bound, and its end is without loss. -/
theorem recorded_pushHalvingOn413 (opJsonLen : Op → Nat) {batch : Batch} (hne : batch ≠ [])
    (s : Pushing) {calls : List Asked} {left : Pass (PushAnswer × Pushing)}
    (hrun : Prog.Recorded (fun _ _ => True) (pushHalvingOn413 opJsonLen batch s) calls left) :
    calls.length < 3 * batch.length ∧ ∀ answer s', left = .ret (answer, s') →
      ∃ done rest, Halved opJsonLen batch s calls answer s' done rest := by
  have hpos := List.length_pos_of_ne_nil hne
  have hwp := wp_pushHalvingOn413 opJsonLen (3 * batch.length - 1) batch hne s []
    (by rw [List.length_nil]; omega)
  obtain ⟨howed, hend⟩ := Prog.recorded_wp hwp hrun (Always.nil _)
  rw [List.nil_append] at howed hend
  constructor
  · -- the last call was made within the bound
    rcases List.eq_nil_or_concat calls with rfl | ⟨front, x, rfl⟩
    · rw [List.length_nil]
      omega
    · rw [List.concat_eq_append] at howed ⊢
      have hlast := (always_snoc.mp howed).2
      rw [List.length_append, List.length_singleton]
      omega
  · rintro answer s' rfl
    obtain ⟨calls', hcalls, done, rest, hhalved⟩ := hend calls rfl
    obtain rfl : calls = calls' := hcalls
    exact ⟨done, rest, hhalved⟩

end Halving

/-! ## Pushes -/

/-- **A push is cut without loss**: every page into batches and a rest, under every ceiling, and
every batch into what the relay accepted and what it did not, whatever it answers. -/
theorem push_cut_without_loss (opJson : Op → List UInt8) :
    (∀ (page : Batch) (ceiling : Nat), ∃ rest,
      Cut opJson ceiling page rest (splitByBodySize (opJsonLen opJson) page ceiling)) ∧
    ∀ (batch : Batch) (s : Pushing) (calls : List Asked) (left : Pass (PushAnswer × Pushing)),
      batch ≠ [] →
      Prog.Recorded (fun _ _ => True) (pushHalvingOn413 (opJsonLen opJson) batch s) calls left →
      calls.length < 3 * batch.length ∧ ∀ answer s', left = .ret (answer, s') →
        ∃ done rest, Halved (opJsonLen opJson) batch s calls answer s' done rest :=
  ⟨cut_splitByBodySize, fun _ s _ _ hne hrun => recorded_pushHalvingOn413 _ hne s hrun⟩

/-- A row a relay refuses. -/
def refusedRow : Int × Op :=
  (4, { opId := "op-4", lamport := 4, site := 1, domain := "task", targetKind := "item"
        targetId := "a.b", field := "design", opType := "set", value := some "much", author := "ada"
        wallClock := "", keyId := none, sig := none })

/-- The one op of a run, refused with a 413: it is answered, and nothing moves. -/
theorem push_cut_without_loss_refused : ∃ done rest,
    Halved (opJsonLen fun _ => [0, 0]) [refusedRow] ⟨.start, 0⟩
      [⟨.push [refusedRow.2], .error ⟨pushTooLarge⟩⟩] (.ok (some ("op-4", 12))) ⟨.start, 0⟩
      done rest := by
  have hlarge : TransportError.isTooLarge ⟨pushTooLarge⟩ = true := by decide
  have hrun : Prog.Recorded (fun _ _ => True)
      (pushHalvingOn413 (opJsonLen fun _ => [0, 0]) [refusedRow] ⟨.start, 0⟩)
      [⟨.push [refusedRow.2], .error ⟨pushTooLarge⟩⟩]
      (.ret (.ok (some ("op-4", 12)), ⟨.start, 0⟩)) := by
    rw [pushHalvingOn413]
    refine .cons trivial ?_
    dsimp only [Prog.bind]
    rw [if_pos hlarge]
    exact .nil _
  exact ((push_cut_without_loss fun _ => [0, 0]).2 _ _ _ _ (List.cons_ne_nil _ _) hrun).2 _ _ rfl

end NexusFlow.Sync
