import NexusFlow.Foundation.View

/-!
# Who holds a register

A row, as the fold of the changes that name it, seen at the columns of one of its registers. Among the
changes that write the register, one that no other beats holds it: the columns are that change's
alone, whatever else was written to the row, before or after (`held_fold`). No column of it is left
from a change that lost.

It is assumed of the register that its version columns default to `NULL`, so that a row another
register created leaves it unwritten. Where the row is there before any of its registers is written,
they start at the version it was given, and only a member above that version takes one
(`heldAbove_fold`).
-/

namespace NexusFlow.Foundation

/-- The row shows everything the change writes. -/
def Change.ShownIn (c : Change) (row : Row) : Prop := assign row c.effect.writes = row

namespace Change

variable {c d : Change} {row : Row}

theorem ShownIn.of_assign (c : Change) (row : Row) : c.ShownIn (assign row c.effect.writes) :=
  assign_idem row _

/-- A column the change writes holds what the change wrote. -/
theorem ShownIn.column (h : c.ShownIn row) {col : String} {x : Cell}
    (hx : c.effect.writes.lookup col = some x) : row col = x := by
  rw [← h]
  simp only [assign, hx, Option.getD_some]

/-- Writing other columns leaves a change shown. -/
theorem ShownIn.beside (h : c.ShownIn row) (hd : DisjointColumns c d) :
    c.ShownIn (assign row d.effect.writes) := by
  unfold ShownIn
  rw [assign_comm, h]
  intro col x y hx hy
  have h1 := lookup_isSome_iff.mp (by rw [hx]; rfl : (d.effect.writes.lookup col).isSome = true)
  have h2 := lookup_isSome_iff.mp (by rw [hy]; rfl : (c.effect.writes.lookup col).isSome = true)
  exact absurd h1 (hd col h2)

theorem ShownIn.storedVersion (h : c.ShownIn row) (hc : c.WF) :
    Foundation.storedVersion row (c.effect.version.map Prod.fst) =
      some (c.effect.version.map Prod.snd) := by
  rw [← h]
  exact storedVersion_writes hc row

end Change

/-! ## Registers -/

/-- The changes that write one register: all write the same columns, under one version, and the
register is won in one way. Every other change of the row keeps off these columns. -/
structure IsRegister (member : Change → Prop) (columns names : List String) (w : Wins)
    (all : List Change) : Prop where
  wf : ∀ c ∈ all, c.WF
  others : ∀ c ∈ all, ¬ member c → ∀ col ∈ c.effect.writes.map Prod.fst, col ∉ columns
  writes : ∀ c ∈ all, member c → c.effect.writes.map Prod.fst = columns
  names : ∀ c ∈ all, member c → c.effect.version.map Prod.fst = names
  wins : ∀ c ∈ all, member c → ∃ cells version, c.effect = .register cells version w

/-- The changes in front are a register too. -/
theorem IsRegister.front {member : Change → Prop} {columns names : List String} {w : Wins}
    {cs ds : List Change} (hr : IsRegister member columns names w (cs ++ ds)) :
    IsRegister member columns names w cs where
  wf c hc := hr.wf c (List.mem_append_left _ hc)
  others c hc := hr.others c (List.mem_append_left _ hc)
  writes c hc := hr.writes c (List.mem_append_left _ hc)
  names c hc := hr.names c (List.mem_append_left _ hc)
  wins c hc := hr.wins c (List.mem_append_left _ hc)

/-- The versions of a member. -/
def Change.at (c : Change) : List Int := c.effect.version.map Prod.snd

/-- What a row shows of the register after the changes `cs`: the member that no other beats, or, when
none of them is a member, what the row began with. -/
def HeldAfter (member : Change → Prop) (columns : List String) (w : Wins) (seed : Row)
    (cs : List Change) (row : Row) : Prop :=
  (∃ c ∈ cs, member c ∧ c.ShownIn row ∧ ∀ d ∈ cs, member d → ¬ w.beats d.at c.at) ∨
  ((∀ c ∈ cs, ¬ member c) ∧ ∀ col ∈ columns, row col = seed col)

section Fold

variable {member : Change → Prop} {columns names : List String} {w : Wins} {ddl : Ddl}
  {seed row : Row} {cs : List Change} {c : Change}

/-- A change that is no member leaves the register's columns. -/
theorem assign_other (hother : ∀ col ∈ c.effect.writes.map Prod.fst, col ∉ columns) (row : Row) :
    ∀ col ∈ columns, assign row c.effect.writes col = row col := by
  intro col hcol
  have h : c.effect.writes.lookup col = none :=
    lookup_eq_none_iff.mpr fun hmem => hother col hmem hcol
  simp only [assign, h, Option.getD_none]

/-- What a change may make of a row that is there. -/
theorem rowAfter_some_cases (ddl : Ddl) (c : Change) (row : Row) :
    rowAfter ddl c (some row) = row ∨ rowAfter ddl c (some row) = assign row c.effect.writes := by
  cases he : c.effect with
  | ensure cells => exact .inl (by simp only [rowAfter, he])
  | put cells =>
    rw [← he]
    exact .inr (rowAfter_put he row)
  | register cells version w =>
    rw [← he, rowAfter_register he]
    split_ifs
    · exact .inr rfl
    · exact .inl rfl

/-- The row a change creates. -/
theorem heldAfter_first (hr : IsRegister member columns names w [c])
    (hseed : seed = seedRow ddl c.table c.key) :
    HeldAfter member columns w seed [c] (rowAfter ddl c none) := by
  have hc := List.mem_singleton_self c
  rw [rowAfter_none (hr.wf c hc), ← hseed]
  by_cases hm : member c
  · refine .inl ⟨c, hc, hm, .of_assign c seed, fun d hd _ => ?_⟩
    rw [List.mem_singleton.mp hd]
    exact w.beats_irrefl _
  · refine .inr ⟨fun d hd => ?_, assign_other (hr.others c hc hm) seed⟩
    rw [List.mem_singleton.mp hd]
    exact hm

/-- **A change of a row that is there** takes the register over or leaves it to its holder. -/
theorem heldAfter_next (hr : IsRegister member columns names w (cs ++ [c]))
    (hnull : storedVersion seed names = none) (hsub : ∀ n ∈ names, n ∈ columns)
    (h : HeldAfter member columns w seed cs row) :
    HeldAfter member columns w seed (cs ++ [c]) (rowAfter ddl c (some row)) := by
  have hc : c ∈ cs ++ [c] := List.mem_append_right _ (List.mem_singleton_self c)
  have hin : ∀ d ∈ cs, d ∈ cs ++ [c] := fun d hd => List.mem_append_left _ hd
  by_cases hm : member c
  · obtain ⟨cells, version, he⟩ := hr.wins c hc hm
    rw [rowAfter_register he]
    rcases h with ⟨b, hb, hmb, hshown, hbest⟩ | ⟨hnone, hrow⟩
    · -- the register is held by `b`, whose version the row stores
      have hstored := hshown.storedVersion (hr.wf b (hin b hb))
      rw [hr.names b (hin b hb) hmb] at hstored
      have hwrites : Writes row c.effect.version w ↔ w.beats c.at b.at := by
        unfold Writes
        rw [hr.names c hc hm, hstored]
        simp [Change.at]
      split_ifs with hw
      · have hbeats := hwrites.mp hw
        refine .inl ⟨c, hc, hm, .of_assign c row, fun d hd hmd => ?_⟩
        rcases List.mem_append.mp hd with hd | hd
        · exact w.not_beats_of_beats (hbest d hd hmd) hbeats
        · rw [List.mem_singleton.mp hd]
          exact w.beats_irrefl _
      · refine .inl ⟨b, hin b hb, hmb, hshown, fun d hd hmd => ?_⟩
        rcases List.mem_append.mp hd with hd | hd
        · exact hbest d hd hmd
        · rw [List.mem_singleton.mp hd]
          exact fun hbeats => hw (hwrites.mpr hbeats)
    · -- nobody wrote the register: its version columns still hold `NULL`
      have hstored : storedVersion row names = none := by
        rw [← hnull]
        exact storedVersion_congr fun n hn => hrow n (hsub n hn)
      have hw : Writes row c.effect.version w := by
        intro stored hs
        rw [hr.names c hc hm, hstored] at hs
        cases hs
      rw [if_pos hw]
      refine .inl ⟨c, hc, hm, .of_assign c row, fun d hd hmd => ?_⟩
      rcases List.mem_append.mp hd with hd | hd
      · exact absurd hmd (hnone d hd)
      · rw [List.mem_singleton.mp hd]
        exact w.beats_irrefl _
  · have hother := hr.others c hc hm
    have hlast : ∀ d ∈ cs ++ [c], member d → d ∈ cs := by
      intro d hd hmd
      rcases List.mem_append.mp hd with hd | hd
      · exact hd
      · rw [List.mem_singleton.mp hd] at hmd
        exact absurd hmd hm
    rcases h with ⟨b, hb, hmb, hshown, hbest⟩ | ⟨hnone, hrow⟩
    · refine .inl ⟨b, hin b hb, hmb, ?_, fun d hd hmd => hbest d (hlast d hd hmd) hmd⟩
      rcases rowAfter_some_cases ddl c row with h | h
      · rwa [h]
      · rw [h]
        refine hshown.beside fun col hcol hcol' => hother col hcol' ?_
        rwa [← hr.writes b (hin b hb) hmb]
    · refine .inr ⟨fun d hd hmd => hnone d (hlast d hd hmd) hmd, fun col hcol => ?_⟩
      rcases rowAfter_some_cases ddl c row with h | h
      · rw [h, hrow col hcol]
      · rw [h, assign_other hother row col hcol, hrow col hcol]

variable (ddl) in
/-- **Whoever no other beats holds the register**, in whatever order the changes of the row come. -/
theorem held_fold (hr : IsRegister member columns names w cs) {t : String} {k : Cells}
    (hat : ∀ c ∈ cs, c.table = t ∧ c.key = k)
    (hnull : storedVersion (seedRow ddl t k) names = none) (hsub : ∀ n ∈ names, n ∈ columns)
    (hne : cs ≠ []) :
    ∃ row, cs.foldl (fun o c => some (rowAfter ddl c o)) none = some row ∧
      HeldAfter member columns w (seedRow ddl t k) cs row := by
  induction cs using List.reverseRecOn with
  | nil => exact absurd rfl hne
  | append_singleton cs c ih =>
    obtain ⟨ht, hk⟩ := hat c (List.mem_append_right _ (List.mem_singleton_self c))
    rw [List.foldl_append, List.foldl_cons, List.foldl_nil]
    cases cs with
    | nil => exact ⟨_, rfl, heldAfter_first hr (by rw [ht, hk])⟩
    | cons d ds =>
      obtain ⟨row, hrow, hheld⟩ := ih hr.front
        (fun x hx => hat x (List.mem_append_left _ hx)) (List.cons_ne_nil d ds)
      rw [hrow]
      exact ⟨_, rfl, heldAfter_next hr hnull hsub hheld⟩

/-- A column no change of the row writes is the row's first. -/
theorem fold_frame {t : String} {k : Cells} (hat : ∀ c ∈ cs, c.table = t ∧ c.key = k)
    (hwf : ∀ c ∈ cs, c.WF) {col : String} (hcol : ∀ c ∈ cs, col ∉ c.effect.writes.map Prod.fst)
    (h : cs.foldl (fun o c => some (rowAfter ddl c o)) none = some row) :
    row col = seedRow ddl t k col := by
  induction cs using List.reverseRecOn generalizing row with
  | nil => cases h
  | append_singleton cs c ih =>
    have hc : c ∈ cs ++ [c] := List.mem_append_right _ (List.mem_singleton_self c)
    have ih := fun {row} => @ih row (fun x hx => hat x (List.mem_append_left _ hx))
      (fun x hx => hwf x (List.mem_append_left _ hx))
      (fun x hx => hcol x (List.mem_append_left _ hx))
    rw [List.foldl_append, List.foldl_cons, List.foldl_nil] at h
    rw [← Option.some.inj h]
    have hkeep : ∀ row : Row, assign row c.effect.writes col = row col :=
      fun _ => assign_of_notMem (hcol c hc)
    cases ho : cs.foldl (fun o c => some (rowAfter ddl c o)) none with
    | none => rw [rowAfter_none (hwf c hc), hkeep, (hat c hc).1, (hat c hc).2]
    | some before =>
      rcases rowAfter_some_cases ddl c before with h | h
      · rw [h, ih ho]
      · rw [h, hkeep, ih ho]

/-- A row that shows a change, and nothing else, is the row the change's own insert makes. -/
theorem eq_insertedRow (hc : c.WF) (hshown : c.ShownIn row)
    (hframe : ∀ col ∉ c.effect.writes.map Prod.fst, row col = seedRow ddl c.table c.key col) :
    row = insertedRow ddl c := by
  rw [insertedRow_eq hc]
  funext col
  by_cases hcol : col ∈ c.effect.writes.map Prod.fst
  · obtain ⟨x, hx⟩ := Option.isSome_iff_exists.mp (lookup_isSome_iff.mpr hcol)
    rw [hshown.column hx]
    simp only [assign, hx, Option.getD_some]
  · rw [hframe col hcol, assign_of_notMem hcol]

end Fold

/-! ## Registers that start at a version -/

/-- What a row shows of a register that starts at the version `base`: the member that no other beats,
or, when none of them beats `base`, what the row began with. -/
def HeldAbove (member : Change → Prop) (columns : List String) (w : Wins) (base : List Int)
    (seed : Row) (cs : List Change) (row : Row) : Prop :=
  (∃ c ∈ cs, member c ∧ w.beats c.at base ∧ c.ShownIn row ∧
    ∀ d ∈ cs, member d → ¬ w.beats d.at c.at) ∨
  ((∀ c ∈ cs, member c → ¬ w.beats c.at base) ∧ ∀ col ∈ columns, row col = seed col)

section Above

variable {member : Change → Prop} {columns names : List String} {w : Wins} {ddl : Ddl}
  {base : List Int} {seed row : Row} {cs : List Change} {c : Change}

/-- A member that beats whoever holds the register takes it over. -/
theorem heldAbove_member (hr : IsRegister member columns names w (cs ++ [c])) (hm : member c)
    (hbase : storedVersion seed names = some base) (hsub : ∀ n ∈ names, n ∈ columns)
    (h : HeldAbove member columns w base seed cs row) :
    HeldAbove member columns w base seed (cs ++ [c]) (rowAfter ddl c (some row)) := by
  have hc : c ∈ cs ++ [c] := List.mem_append_right _ (List.mem_singleton_self c)
  have hin : ∀ d ∈ cs, d ∈ cs ++ [c] := fun d hd => List.mem_append_left _ hd
  obtain ⟨cells, version, he⟩ := hr.wins c hc hm
  have hwrites : ∀ {stored}, storedVersion row names = some stored →
      (Writes row c.effect.version w ↔ w.beats c.at stored) := by
    intro stored hstored
    unfold Writes
    rw [hr.names c hc hm, hstored]
    simp [Change.at]
  rw [rowAfter_register he]
  rcases h with ⟨b, hb, hmb, habove, hshown, hbest⟩ | ⟨hnone, hrow⟩
  · have hstored := hshown.storedVersion (hr.wf b (hin b hb))
    rw [hr.names b (hin b hb) hmb] at hstored
    split_ifs with hw
    · have hbeats := (hwrites hstored).mp hw
      refine .inl ⟨c, hc, hm, w.beats_trans hbeats habove, .of_assign c row, fun d hd hmd => ?_⟩
      rcases List.mem_append.mp hd with hd | hd
      · exact w.not_beats_of_beats (hbest d hd hmd) hbeats
      · rw [List.mem_singleton.mp hd]
        exact w.beats_irrefl _
    · refine .inl ⟨b, hin b hb, hmb, habove, hshown, fun d hd hmd => ?_⟩
      rcases List.mem_append.mp hd with hd | hd
      · exact hbest d hd hmd
      · rw [List.mem_singleton.mp hd]
        exact fun hbeats => hw ((hwrites hstored).mpr hbeats)
  · -- nobody beat the version the register starts at, which the row still stores
    have hstored : storedVersion row names = some base := by
      rw [← hbase]
      exact storedVersion_congr fun n hn => hrow n (hsub n hn)
    split_ifs with hw
    · have hbeats := (hwrites hstored).mp hw
      refine .inl ⟨c, hc, hm, hbeats, .of_assign c row, fun d hd hmd => ?_⟩
      rcases List.mem_append.mp hd with hd | hd
      · exact w.not_beats_of_beats (hnone d hd hmd) hbeats
      · rw [List.mem_singleton.mp hd]
        exact w.beats_irrefl _
    · refine .inr ⟨fun d hd hmd => ?_, hrow⟩
      rcases List.mem_append.mp hd with hd | hd
      · exact hnone d hd hmd
      · rw [List.mem_singleton.mp hd]
        exact fun hbeats => hw ((hwrites hstored).mpr hbeats)

/-- A change that is no member leaves the register to its holder. -/
theorem heldAbove_other (hr : IsRegister member columns names w (cs ++ [c])) (hm : ¬ member c)
    (h : HeldAbove member columns w base seed cs row) :
    HeldAbove member columns w base seed (cs ++ [c]) (rowAfter ddl c (some row)) := by
  have hc : c ∈ cs ++ [c] := List.mem_append_right _ (List.mem_singleton_self c)
  have hother := hr.others c hc hm
  have hlast : ∀ d ∈ cs ++ [c], member d → d ∈ cs := by
    intro d hd hmd
    rcases List.mem_append.mp hd with hd | hd
    · exact hd
    · rw [List.mem_singleton.mp hd] at hmd
      exact absurd hmd hm
  rcases h with ⟨b, hb, hmb, habove, hshown, hbest⟩ | ⟨hnone, hrow⟩
  · have hin : b ∈ cs ++ [c] := List.mem_append_left _ hb
    refine .inl ⟨b, hin, hmb, habove, ?_, fun d hd hmd => hbest d (hlast d hd hmd) hmd⟩
    rcases rowAfter_some_cases ddl c row with h | h
    · rwa [h]
    · rw [h]
      refine hshown.beside fun col hcol hcol' => hother col hcol' ?_
      rwa [← hr.writes b hin hmb]
  · refine .inr ⟨fun d hd hmd => hnone d (hlast d hd hmd) hmd, fun col hcol => ?_⟩
    rcases rowAfter_some_cases ddl c row with h | h
    · rw [h, hrow col hcol]
    · rw [h, assign_other hother row col hcol, hrow col hcol]

variable (ddl) in
/-- **Whoever no other beats holds the register**, if it beats the version the register starts at, in
whatever order the changes of a row that is there come. -/
theorem heldAbove_fold (hr : IsRegister member columns names w cs)
    (hbase : storedVersion seed names = some base) (hsub : ∀ n ∈ names, n ∈ columns) :
    HeldAbove member columns w base seed cs
      (cs.foldl (fun row c => rowAfter ddl c (some row)) seed) := by
  induction cs using List.reverseRecOn with
  | nil => exact .inr ⟨fun _ hc => absurd hc List.not_mem_nil, fun _ _ => rfl⟩
  | append_singleton cs c ih =>
    rw [List.foldl_append, List.foldl_cons, List.foldl_nil]
    by_cases hm : member c
    · exact heldAbove_member hr hm hbase hsub (ih hr.front)
    · exact heldAbove_other hr hm (ih hr.front)

/-- A column no change of the row writes keeps what the row began with. -/
theorem foldl_rowAfter_frame {col : String} (hcol : ∀ c ∈ cs, col ∉ c.effect.writes.map Prod.fst) :
    cs.foldl (fun row c => rowAfter ddl c (some row)) seed col = seed col := by
  induction cs generalizing seed with
  | nil => rfl
  | cons c cs ih =>
    obtain ⟨hc, hcs⟩ := List.forall_mem_cons.mp hcol
    rw [List.foldl_cons, ih hcs]
    rcases rowAfter_some_cases ddl c seed with h | h
    · rw [h]
    · rw [h, assign_of_notMem hc]

end Above

end NexusFlow.Foundation
