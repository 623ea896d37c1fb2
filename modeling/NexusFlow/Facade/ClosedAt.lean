import NexusFlow.Facade.Assignments

/-!
# `closed_at` and the status

`closed_at` is kept in step with the status by three verbs: `update`, `claim` and `close`
(`crates/facade/src/write.rs:867-980,984-1072`). What the sheet says of each verb carries the rule
that the stamp is there exactly where the status is `closed` (`ClosedInSync`) through every run.

`update` is the exception. It writes its assignments in order, so the last `status` decides the
status, and it stamps by the first one it finds. `closed_at_in_sync` is the rule for runs in which no
update names two that differ in this; `closed_at_left_behind` is a run in which one does.
-/

namespace NexusFlow.Facade

open NexusFlow.Core NexusFlow.Foundation NexusFlow.Lib Fallible

/-! ## The rule -/

/-- The item is stamped exactly where it is closed. -/
def ItemRow.InSync (i : ItemRow) : Prop := i.closedAt.isSome = true ↔ i.status = some "closed"

/-- The rule on a sheet; an item that is not there has neither. -/
def ClosedInSync (sh : Sheet) : Prop :=
  ∀ id, (cellText (sh.reg id "closed_at")).isSome = true ↔
    cellText (sh.reg id "status") = some "closed"

theorem ClosedInSync.inSync {db : Db} (h : ClosedInSync (sheetOf db)) {id : String} {i : ItemRow}
    (hi : getItem db id = some i) : i.InSync := by
  obtain ⟨regs, hregs, _, _, hstatus, hclosed⟩ := getItem_eq_some hi
  have := h id
  unfold Sheet.reg at this
  rw [hregs] at this
  unfold ItemRow.InSync
  rw [hstatus, hclosed]
  exact this

/-- The rule looks at two registers of each item. -/
theorem ClosedInSync.congr {a b : Sheet} (h : ClosedInSync a)
    (hclosed : ∀ id, b.reg id "closed_at" = a.reg id "closed_at")
    (hstatus : ∀ id, b.reg id "status" = a.reg id "status") : ClosedInSync b := by
  intro id
  rw [hclosed, hstatus]
  exact h id

/-! ## The verbs -/

/-- Claiming the ancestors keeps the rule: an item that is flipped was open. -/
theorem ClosedInSync.claimedUp {a b : Sheet} (h : ClosedInSync a) (hup : ClaimedUp a b) :
    ClosedInSync b := by
  intro id
  rw [hup.toSameBut.reg (by decide) id]
  rcases hup.reg_status id with hsame | ⟨hopen, hprogress⟩
  · rw [hsame]
    exact h id
  · have hbefore := h id
    rw [hopen] at hbefore
    rw [hprogress]
    simpa [cellText] using hbefore

/-- An update's first and last assignment to the status both close the item, or neither does. -/
def StatusSettled (cfg : PluginConfig) : Call → Prop
  | .update _ _ _ sets => ((statusSets cfg sets).head? = some "closed" ↔
      (statusSets cfg sets).getLast? = some "closed")
  | _ => True

/-- What an update leaves in the two registers of its item, before it stamps. -/
theorem reg_assigned {sh : Sheet} {cal : Calendar} {cfg : PluginConfig} {id : String}
    {sets : List String} {p : ParsedSets} {parent : Option (String × ParentWriteMode)}
    (hp : parseSets cal cfg sets = .ok p) (id' : String) :
    (putParent id parent (setAll id p.parsed (setGiven id "type" p.typeWrite sh))).reg id'
        "closed_at" = sh.reg id' "closed_at" ∧
      (putParent id parent (setAll id p.parsed (setGiven id "type" p.typeWrite sh))).reg id'
        "status" = if id' = id then ((statusSets cfg sets).getLast?.map Cell.text).getD
          (sh.reg id' "status") else sh.reg id' "status" := by
  obtain ⟨hfields, hstatus⟩ := parseSets_ok hp
  have hlast : (p.parsed.filter (·.1 == "status")).getLast?.map (fun set => Cell.ofOption set.2) =
      (statusSets cfg sets).getLast?.map Cell.text := by
    have := congrArg (fun l : List (Option String) => l.getLast?.map Cell.ofOption) hstatus
    simpa [ParsedSets.given, List.getLast?_map, Function.comp_def, Cell.ofOption] using this
  rw [reg_putParent, reg_setAll, reg_setAll, hfields.filter_eq_nil (by decide), hlast,
    reg_setGiven_of_ne (by decide), reg_setGiven_of_ne (by decide)]
  exact ⟨by simp, rfl⟩

theorem reg_stampClosed (id now : String) (wasClosedAt newStatus : Option String) (sh : Sheet)
    (id' field : String) : (stampClosed id now wasClosedAt newStatus sh).reg id' field =
      if id' = id ∧ field = "closed_at" then
        newStatus.elim (sh.reg id' field) fun status =>
          if status = "closed" then .text now
          else if wasClosedAt.isSome then .null else sh.reg id' field
      else sh.reg id' field := by
  cases newStatus with
  | none => simp [stampClosed]
  | some status =>
    simp only [stampClosed, Option.elim_some]
    split_ifs <;> simp_all

/-- **An update keeps the rule** if it settles the status. -/
theorem ClosedInSync.update {sh : Sheet} {cal : Calendar} {cfg : PluginConfig} {id now : String}
    {sets : List String} {p : ParsedSets} {parent : Option (String × ParentWriteMode)}
    {wasClosedAt : Option String} (h : ClosedInSync sh) (hp : parseSets cal cfg sets = .ok p)
    (hsettled : (statusSets cfg sets).head? = some "closed" ↔
      (statusSets cfg sets).getLast? = some "closed")
    (hwas : wasClosedAt = cellText (sh.reg id "closed_at")) :
    ClosedInSync (updateSheet id now p parent wasClosedAt sh) := by
  have hnew : p.newStatus = (statusSets cfg sets).head? := by
    rw [newStatus_eq, (parseSets_ok hp).2, List.head?_map]
    cases (statusSets cfg sets).head? <;> rfl
  intro id'
  obtain ⟨hclosed, hstatus⟩ := @reg_assigned sh cal cfg id sets p parent hp id'
  unfold updateSheet
  have hother : ¬ (id' = id ∧ "status" = "closed_at") := fun h => absurd h.2 (by decide)
  rw [reg_stampClosed, reg_stampClosed, hclosed, hstatus, hnew, if_neg hother]
  by_cases hid : id' = id
  swap
  · rw [if_neg fun h => hid h.1, if_neg hid]
    exact h id'
  subst hid
  rw [if_pos ⟨rfl, rfl⟩, if_pos rfl]
  cases hlist : statusSets cfg sets with
  | nil => exact h id'
  | cons first rest =>
    obtain ⟨last, hlast⟩ : ∃ last, (first :: rest).getLast? = some last :=
      ⟨_, List.getLast?_eq_some_getLast (by simp)⟩
    rw [hlist, hlast, List.head?_cons, Option.some_inj, Option.some_inj] at hsettled
    rw [hlast, List.head?_cons, Option.elim_some, Option.map_some, Option.getD_some]
    split_ifs with hcloses hstamped
    · simp [cellText, hsettled.mp hcloses]
    · simpa [cellText] using fun h => hcloses (hsettled.mpr h)
    · -- it was not stamped before
      rw [← hwas]
      simpa [cellText, hstamped] using fun h => hcloses (hsettled.mpr h)

/-- A new item is open and not stamped. -/
theorem ClosedInSync.create {sh : Sheet} {id itemType title description priority : String}
    {design dod due defer : Option String} {parent : Option (String × ParentWriteMode)}
    {dependsOn : List String} (h : ClosedInSync sh) (hid : sh.items id = none) :
    ClosedInSync (createSheet id itemType title description priority design dod due defer parent
      dependsOn sh) := by
  intro id'
  unfold createSheet createItemSheet
  simp only [reg_addDeps, reg_putParent, Sheet.reg_set,
    reg_setGiven_of_ne (show "closed_at" ≠ "defer_until" by decide),
    reg_setGiven_of_ne (show "closed_at" ≠ "due" by decide),
    reg_setGiven_of_ne (show "closed_at" ≠ "completion_criterion" by decide),
    reg_setGiven_of_ne (show "closed_at" ≠ "design" by decide),
    reg_setGiven_of_ne (show "status" ≠ "defer_until" by decide),
    reg_setGiven_of_ne (show "status" ≠ "due" by decide),
    reg_setGiven_of_ne (show "status" ≠ "completion_criterion" by decide),
    reg_setGiven_of_ne (show "status" ≠ "design" by decide)]
  by_cases hnew : id' = id
  · subst hnew
    simp [Sheet.reg, hid, cellText]
  · simpa [hnew] using h id'

/-- `close` stamps what it closes. -/
theorem ClosedInSync.close {sh : Sheet} (h : ClosedInSync sh) (id now reason : String) :
    ClosedInSync (closeSheet id now reason sh) := by
  intro id'
  unfold closeSheet
  simp only [Sheet.reg_set]
  by_cases hid : id' = id
  · simp [hid, cellText]
  · simpa [hid] using h id'

/-- `claim` takes the stamp off. -/
theorem ClosedInSync.claim {sh : Sheet} {id : String} {assignee wasClosedAt : Option String}
    (h : ClosedInSync sh) (hwas : wasClosedAt = cellText (sh.reg id "closed_at")) :
    ClosedInSync (claimSheet id assignee wasClosedAt sh) := by
  intro id'
  unfold claimSheet
  dsimp only
  by_cases hid : id' = id
  · subst hid
    split_ifs with hstamped
    · simp [reg_setGiven_of_ne, cellText]
    · rw [hwas] at hstamped
      simpa [reg_setGiven_of_ne, cellText] using hstamped
  · split_ifs <;> simpa [reg_setGiven_of_ne, hid] using h id'

/-! ## Runs -/

theorem closedAt_eq {db : Db} {id : String} {i : ItemRow} (h : liveItem db id = some i) :
    i.closedAt = cellText ((sheetOf db).reg id "closed_at") := by
  obtain ⟨regs, hregs, _, _, _, hclosed⟩ := getItem_eq_some (liveItem_eq_some h)
  unfold Sheet.reg
  rw [hclosed, hregs]
  rfl

/-- **One accepted call keeps the rule** if it settles the status. -/
theorem closedInSync_step (env : Env) (cfg : PluginConfig) (c : Call) (s s' : Store)
    (_ : Alone s) (hsettled : StatusSettled cfg c) (heffect : c.Effect env cfg s s')
    (hshort : s'.file.log.length ≤ shortLog) (h : ClosedInSync (sheetOf s.file.views)) :
    ClosedInSync (sheetOf s'.file.views) := by
  have hsame : ∀ {f : Sheet → Sheet}, Wrote f s s' → (∀ sh, (f sh).reg = sh.reg) →
      ClosedInSync (sheetOf s'.file.views) := by
    intro f hwrote hf
    rw [hwrote.sheet hshort]
    exact h.congr (fun id => by rw [hf]) fun id => by rw [hf]
  cases c with
  | create =>
    obtain ⟨id, _, _, _, _, _, hid, _, _, _, hwrote⟩ := Created.effect heffect
    rw [hwrote.sheet hshort]
    exact h.create (getItem_eq_none.mp hid)
  | update =>
    obtain ⟨_, _, _, hitem, hp, _, _, _, hwrote⟩ := Updated.effect heffect
    rw [hwrote.sheet hshort]
    exact h.update hp hsettled (closedAt_eq hitem)
  | claim =>
    obtain ⟨_, hitem, hled⟩ := heffect
    exact (h.claim (closedAt_eq hitem)).claimedUp (hled.sheet hshort)
  | close =>
    obtain ⟨_, _, _, hwrote⟩ := heffect
    rw [hwrote.sheet hshort]
    exact h.close _ _ _
  | archive | unarchive =>
    have hled := Led.sheet heffect hshort
    exact h.congr (hled.reg (by decide)) (hled.reg (by decide))
  | depAdd => exact hsame (DepAdded.effect heffect) fun _ => rfl
  | _ => exact hsame heffect fun _ => rfl

/-- **The stamp is there exactly where the item is closed**, after every run of calls whose updates
settle the status. -/
theorem closed_at_in_sync {site : Int} {key : ReplicaKey} {ulids : Nat → String}
    (hulids : Ulids ulids) {s : Store}
    (hrun : Calls (fun cfg c _ => StatusSettled cfg c) (freshStore site key ulids) s)
    (hshort : s.file.log.length ≤ shortLog) :
    ∀ id i, getItem s.file.views id = some i → i.InSync := by
  intro id i hi
  have hfresh : ClosedInSync (sheetOf (freshStore site key ulids).file.views) := by
    rw [sheetOf_freshStore site key hulids]
    intro id
    simp [Sheet.reg, cellText]
  have hled := Calls.keep closedInSync_step (alone_freshStore site key hulids) hfresh hrun
  exact (hled.sheet hshort).inSync hi

/-! ## Two runs -/

/-- A plugin of tasks. -/
def taskPlugin : PluginConfig where
  priorityLabels := ["high", "low"]
  types := ⟨{"task"}, ⟨[], List.nodup_nil⟩, none⟩
  statuses := ⟨[("open", "Open"), ("in_progress", "In progress"), ("closed", "Closed")], by decide⟩
  typeLabels := ⟨[], List.nodup_nil⟩
  fields := ⟨[], List.nodup_nil⟩

/-- Every text is a date. -/
def plainEnv : Env := ⟨⟨fun _ => true, some⟩, 9, true, toString⟩

/-- A store nothing has been written to. -/
def plainStore : Store := freshStore 1 silentKey (letterIds 'p')

/-- A new item with nothing set. -/
def plainItem : NewItem := ⟨"", "high", none, none, none, none, none, [], []⟩

/-- A task is made, then updated. -/
def taskThen (sets : List String) : List Call :=
  [.create "aaaa" "2026-01-01" "alice" "task" "t" plainItem,
    .update "2026-01-02" "alice" "aaaa.0001" sets]

/-- Where two runs end. -/
theorem taskThen_runs :
    (((runAccepted plainEnv taskPlugin (taskThen ["status=closed"]) plainStore).any
      fun s => s.file.log.length ≤ shortLog) = true) ∧
    (((runAccepted plainEnv taskPlugin (taskThen ["status=closed", "status=open"])
      plainStore).any fun s => (getItem s.file.views "aaaa.0001").any
        fun i => i.status == some "open" && i.closedAt.isSome) = true) ∧
    statusSets taskPlugin ["status=closed"] = ["closed"] :=
  ⟨by decide +kernel, by decide +kernel, by decide +kernel⟩

/-- A task that is closed is in sync. -/
theorem closed_at_in_sync_closed : ∃ s, runAccepted plainEnv taskPlugin (taskThen ["status=closed"])
    plainStore = some s ∧ ∀ id i, getItem s.file.views id = some i → i.InSync := by
  have hrun := taskThen_runs.1
  obtain ⟨s, hs, hshort⟩ := (Option.any_eq_true _ _).mp hrun
  refine ⟨s, hs, closed_at_in_sync (ulids_letterIds (by decide)) (calls_of_runAccepted ?_ hs)
    (by simpa using hshort)⟩
  intro c hc _
  rcases List.mem_pair.mp hc with rfl | rfl
  · trivial
  · change (statusSets taskPlugin ["status=closed"]).head? = some "closed" ↔ _
    rw [taskThen_runs.2.2]
    decide

/-- **A stamp left behind**: one update names `closed`, then `open`; it stamps by the first and leaves
the status at the last. -/
theorem closed_at_left_behind : ¬ ∀ calls s, runAccepted plainEnv taskPlugin calls plainStore =
    some s → ∀ id i, getItem s.file.views id = some i → i.InSync := by
  intro hclaim
  have hrun := taskThen_runs.2.1
  obtain ⟨s, hs, hitem⟩ := (Option.any_eq_true _ _).mp hrun
  obtain ⟨i, hi, hbad⟩ := (Option.any_eq_true _ _).mp hitem
  rw [Bool.and_eq_true, beq_iff_eq] at hbad
  have := (hclaim _ s hs _ i hi).mp hbad.2
  rw [hbad.1] at this
  exact absurd this (by decide)

end NexusFlow.Facade
