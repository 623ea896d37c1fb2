import NexusFlow.Facade.LiveTree

/-!
# The archive cascades

`archive` and `unarchive` (`crates/facade/src/write.rs:1555-1630`) on a store with any history of
merges. Each root of a batch is judged on a store the roots before it have changed, so the account is
of the set stamped so far (`Stamped`, `Touches`): one root of either cascade adds to it what it
reaches and finds pending, and judges as it would have on the first store, but for what is stamped.

* `cascades_exact`: what a batch answers, root by root, and what it leaves, for every list of roots
  that reaches no `archived` cell a received op pins.
* `archive_leaves_pinned_visible`: such a cell.
-/

namespace NexusFlow.Facade

open NexusFlow.Core NexusFlow.Foundation NexusFlow.Lib Fallible Verb Relation

/-! ## The two cascades -/

/-- The two cascades. -/
inductive Cascade
  | archive
  | unarchive
  deriving DecidableEq, Repr

namespace Cascade

/-- The verb. -/
def run (env : Env) (now actor : String) (ids : List String) : Cascade → Verb BatchResult
  | .archive => Facade.archive env now actor ids
  | .unarchive => Facade.unarchive env now actor ids

/-- One root of the verb. -/
def root (env : Env) (now actor id : String) :
    Cascade → Verb (Except ArchiveReason (List String))
  | .archive => archiveRoot env now actor id
  | .unarchive => unarchiveRoot env actor id

/-- What the cascade leaves in `archived`. -/
def value (now : String) : Cascade → Option String
  | .archive => some now
  | .unarchive => none

/-- The cell of the item is still to be set. -/
def pending (i : ItemRow) : Cascade → Bool
  | .archive => i.archived.isNone
  | .unarchive => i.archived.isSome

/-- What a root takes with it: what hangs under it, or what it hangs under, through live items. -/
def reach (db : Db) (r x : String) : Cascade → Prop
  | .archive => ReflTransGen (LiveChild db) r x
  | .unarchive => ReflTransGen (LiveChild db) x r

/-- A root is live, and all that hangs under it through live items is closed or put away; or it is live
and put away. -/
def accepts (db : Db) (r : String) : Cascade → Prop
  | .archive => (liveItem db r).isSome = true ∧
      ∀ x i, ReflTransGen (LiveChild db) r x → liveItem db x = some i → closedForArchive i = true
  | .unarchive => ∃ i, liveItem db r = some i ∧ i.archived.isSome = true

end Cascade

/-- The item with its `archived` cell set. -/
def ItemRow.stamped (v : Option String) (i : ItemRow) : ItemRow := { i with archived := v }

/-- What one accepted root makes of an item. -/
def cascadedRow (c : Cascade) (v : Option String) (i : ItemRow) : ItemRow :=
  if c.pending i then i.stamped v else i

/-- **What a cascade is to do.** Each root is judged on the store the batch of those before it leaves
(`turns`); a refused one changes nothing, an accepted one stamps what it reaches and finds pending. -/
structure Exact (c : Cascade) (env : Env) (now actor : String) (ids : List String) (s : Store)
    (r : BatchResult) (s' : Store) : Prop where
  outcomes : r.outcomes.map RootOutcome.id = ids
  turns : ∀ before id after, ids = before ++ id :: after → ∃ rb t ra t' reason,
    c.run env now actor before s = (some (.ok rb), t) ∧
    c.run env now actor (before ++ [id]) s = (some (.ok ra), t') ∧
    r.outcomes[before.length]? = some ⟨id, reason⟩ ∧
    (reason = none ↔ c.accepts t.file.views id) ∧
    (reason ≠ none → t' = t) ∧
    (reason = none → ∀ x, (c.reach t.file.views id x →
        getItem t'.file.views x = (getItem t.file.views x).map (cascadedRow c (c.value now)) ∧
        ∃ i, getItem s'.file.views x = some i ∧ c.pending i = false) ∧
      (¬ c.reach t.file.views id x → getItem t'.file.views x = getItem t.file.views x))
  items : ∀ x, getItem s'.file.views x = if x ∈ r.affected then
    (getItem s.file.views x).map (ItemRow.stamped (c.value now)) else getItem s.file.views x
  affected : ∀ x, x ∈ r.affected ↔ ∃ i i', getItem s.file.views x = some i ∧
    getItem s'.file.views x = some i' ∧ i'.archived ≠ i.archived
  sorted : r.affected.Pairwise (· < ·)
  scans : ∀ t, t ≠ "items" → t ≠ "item_timestamps" → s'.file.views.scan t = s.file.views.scan t
  order : (s'.file.views.scan "items").map (· "id") = (s.file.views.scan "items").map (· "id")
  anyOrder : ∀ ids', (∀ x, x ∈ ids' ↔ x ∈ ids) → ∃ r' t, c.run env now actor ids' s =
    (some (.ok r'), t) ∧ r'.affected = r.affected ∧
    ∀ x, getItem t.file.views x = getItem s'.file.views x

/-! ## The set stamped so far -/

/-- The plan of a cascade. -/
def stampPlan (v : Option String) (touched : List String) : Plan :=
  fun x f => if f = "archived" ∧ x ∈ touched then some v else none

theorem stampPlan_nil (v : Option String) : stampPlan v [] = Plan.none := by
  funext x f
  simp [stampPlan, Plan.none]

theorem stampPlan_concat (v : Option String) (touched : List String) (x : String) :
    stampPlan v (touched ++ [x]) = (stampPlan v touched).set x "archived" v := by
  funext y f
  by_cases hf : f = "archived" <;> by_cases hy : y = x <;> simp [stampPlan, Plan.set, hf, hy]

/-- The items stamped between `s` and `t`, and nothing else written. -/
structure Stamped (v : Option String) (touched : List String) (s t : Store) : Prop where
  changed : Changed touched.length (stampPlan v touched) s t
  nodup : touched.Nodup
  known : ∀ x ∈ touched, (sheetOf s.file.views).items x ≠ none

/-- One item more. -/
theorem Stamped.stampOne {v : Option String} {touched : List String} {s t : Store} (hs : Merging s)
    (h : Stamped v touched s t) (hroom : 2 * s.file.ops.length ≤ roomyLog) {author : String}
    (hauthor : isAttributable author = true) {x : String} (hx : x ∉ touched)
    (hknown : (sheetOf s.file.views).items x ≠ none) :
    ∃ t', setField x "archived" v author t = (some (.ok ()), t') ∧
      Stamped v (touched ++ [x]) s t' := by
  have hle := length_le_log hs h.nodup h.known
  have hfield : "archived" ∈ itemLwwFields := by decide
  obtain ⟨t', hw, hchanged⟩ := h.changed.setField hauthor (by omega) hfield v hknown
  refine ⟨t', hw, ?_, ?_, fun y hy => ?_⟩
  · rw [stampPlan_concat, List.length_append, List.length_singleton]
    exact hchanged
  · rw [List.nodup_append]
    refine ⟨h.nodup, List.nodup_singleton x, ?_⟩
    rintro y hy z hz rfl
    exact hx (List.mem_singleton.mp hz ▸ hy)
  · rcases List.mem_append.mp hy with hy | hy
    · exact h.known y hy
    · exact List.mem_singleton.mp hy ▸ hknown

/-- **`stampArchived`** on items that are there and not stamped yet. -/
theorem Stamped.stampArchived {v : Option String} {touched : List String} {s t : Store}
    (hs : Merging s) (h : Stamped v touched s t) (hroom : 2 * s.file.ops.length ≤ roomyLog)
    {author : String} (hauthor : isAttributable author = true) {targets : List ItemRow}
    (hnodup : (targets.map ItemRow.id).Nodup)
    (hnew : ∀ i ∈ targets, i.id ∉ touched ∧ (sheetOf s.file.views).items i.id ≠ none) :
    ∃ t', stampArchived v author targets t = (some (.ok (targets.map ItemRow.id)), t') ∧
      Stamped v (touched ++ targets.map ItemRow.id) s t' := by
  obtain ⟨ids, t', hrun, rfl, hdone⟩ := mapM_returns
    (fun before done t' => done = before.map ItemRow.id ∧
      Stamped v (touched ++ before.map ItemRow.id) s t')
    (k := fun i : ItemRow => setField i.id "archived" v author >>= fun _ => pure i.id)
    (l := targets) (s := t) (fun before i rest done u hl hI => by
      obtain ⟨rfl, hu⟩ := hI
      have hi : i ∈ targets := hl ▸ List.mem_append_right before List.mem_cons_self
      have hfresh : i.id ∉ touched ++ before.map ItemRow.id := by
        rw [List.mem_append, not_or]
        refine ⟨(hnew i hi).1, fun hmem => ?_⟩
        rw [hl, List.map_append, List.map_cons] at hnodup
        exact (List.nodup_append.mp hnodup).2.2 _ hmem _ List.mem_cons_self rfl
      obtain ⟨u', hw, hu'⟩ := hu.stampOne hs hroom hauthor hfresh (hnew i hi).2
      refine ⟨i.id, u', bind_of_ok hw _, ?_, ?_⟩
      · rw [List.map_append, List.map_singleton]
      · rw [List.map_append, List.map_singleton, ← List.append_assoc]
        exact hu')
    ⟨rfl, by rw [List.map_nil, List.append_nil]; exact h⟩
  exact ⟨t', hrun, hdone⟩

/-! ## Reads while a batch is underway -/

section Reads

variable {v : Option String} {touched : List String} {s t : Store}

theorem Stamped.getItem_eq (h : Stamped v touched s t)
    (hfree : ∀ x ∈ touched, ¬ Pinned s x "archived") (x : String) :
    getItem t.file.views x = if x ∈ touched then
      (getItem s.file.views x).map (ItemRow.stamped v) else getItem s.file.views x := by
  have hwritten (i : ItemRow) :
      i.written (stampPlan v touched x) = if x ∈ touched then i.stamped v else i := by
    split_ifs with hx <;> simp [ItemRow.written, ItemRow.stamped, stampPlan, hx]
  rw [h.changed.getItem_eq]
  · cases getItem s.file.views x with
    | none => simp
    | some i =>
      rw [Option.map_some, hwritten]
      split_ifs <;> rfl
  · intro f w hw
    unfold stampPlan at hw
    split_ifs at hw with hx
    exact hx.1 ▸ hfree x hx.2

theorem Stamped.liveItem_eq (h : Stamped v touched s t)
    (hfree : ∀ x ∈ touched, ¬ Pinned s x "archived") (x : String) :
    liveItem t.file.views x = if x ∈ touched then
      (liveItem s.file.views x).map (ItemRow.stamped v) else liveItem s.file.views x := by
  unfold liveItem
  rw [h.getItem_eq hfree]
  split_ifs
  · cases getItem s.file.views x with
    | none => rfl
    | some i =>
      have hlive : (i.stamped v).isLive = i.isLive := rfl
      rw [Option.map_some, Option.filter_some, Option.filter_some, hlive]
      split_ifs <;> rfl
  · rfl

theorem Stamped.liveItem_isSome (h : Stamped v touched s t)
    (hfree : ∀ x ∈ touched, ¬ Pinned s x "archived") (x : String) :
    (liveItem t.file.views x).isSome = (liveItem s.file.views x).isSome := by
  rw [h.liveItem_eq hfree]
  split_ifs
  · rw [Option.isSome_map]
  · rfl

/-- The tree of live items stays as it is. -/
theorem Stamped.liveChild_eq (h : Stamped v touched s t)
    (hfree : ∀ x ∈ touched, ¬ Pinned s x "archived") :
    LiveChild t.file.views = LiveChild s.file.views := by
  funext a b
  unfold LiveChild
  rw [h.liveItem_isSome hfree, h.liveItem_eq hfree]
  split_ifs
  · simp [ItemRow.stamped]
  · rfl

theorem Stamped.reach_iff (h : Stamped v touched s t)
    (hfree : ∀ x ∈ touched, ¬ Pinned s x "archived") (c : Cascade) (r x : String) :
    c.reach t.file.views r x ↔ c.reach s.file.views r x := by
  cases c <;> simp only [Cascade.reach, h.liveChild_eq hfree]

theorem Stamped.knownIds_eq (h : Stamped v touched s t) :
    knownIds t.file.views = knownIds s.file.views := by
  have hids : (t.file.views.scan "items").filterMap (fun row => cellText (row "id")) =
      (s.file.views.scan "items").filterMap fun row => cellText (row "id") := by
    have horder := congrArg (List.filterMap cellText) h.changed.order
    rwa [List.filterMap_map, List.filterMap_map] at horder
  unfold knownIds itemIds
  rw [hids]

end Reads

/-! ## One root -/

/-- **A batch is underway**: stamped is what an accepted root among those done reaches and finds
pending, as the first store has it. -/
structure Underway (c : Cascade) (now : String) (before touched : List String) (s t : Store) : Prop
    extends Stamped (c.value now) touched s t where
  touches : ∀ x, x ∈ touched ↔ ∃ r ∈ before, c.accepts s.file.views r ∧
    c.reach s.file.views r x ∧ ∃ i, getItem s.file.views x = some i ∧ c.pending i = true
  free : ∀ x ∈ touched, ¬ Pinned s x "archived"

namespace Underway

variable {c : Cascade} {now : String} {before touched : List String} {s t : Store}

theorem reach_refl (c : Cascade) (db : Db) (r : String) : c.reach db r r := by
  cases c <;> exact .refl

theorem reach_trans {c : Cascade} {db : Db} {a b d : String} (h : c.reach db a b)
    (h' : c.reach db b d) : c.reach db a d := by
  cases c with
  | archive => exact ReflTransGen.trans h h'
  | unarchive => exact ReflTransGen.trans h' h

/-- An item stamped is not pending any more. -/
theorem pending_iff (h : Underway c now before touched s t) (x : String) :
    (∃ i, getItem t.file.views x = some i ∧ c.pending i = true) ↔
      x ∉ touched ∧ ∃ i, getItem s.file.views x = some i ∧ c.pending i = true := by
  rw [h.getItem_eq h.free]
  split_ifs with hx
  · simp only [hx, not_true_eq_false, false_and, iff_false]
    rintro ⟨i, hi, hp⟩
    obtain ⟨j, _, rfl⟩ := Option.map_eq_some_iff.mp hi
    cases c <;> simp [Cascade.pending, ItemRow.stamped, Cascade.value] at hp
  · simp [hx]

/-- A root judged underway is judged as on the first store, unless it was stamped. -/
theorem accepts_iff (h : Underway c now before touched s t) (r : String) :
    c.accepts t.file.views r ↔
      c.accepts s.file.views r ∧ (c = .unarchive → r ∉ touched) := by
  cases c with
  | archive =>
    have hclosed (x : String) (i : ItemRow) (hx : x ∈ touched)
        (hi : liveItem s.file.views x = some i) : closedForArchive i = true := by
      obtain ⟨r, _, haccepts, hreach, _⟩ := (h.touches x).mp hx
      exact haccepts.2 x i hreach hi
    simp only [Cascade.accepts, h.liveItem_isSome h.free, h.liveChild_eq h.free, reduceCtorEq,
      false_implies, and_true]
    refine and_congr_right fun _ => forall_congr' fun x => ?_
    rw [h.liveItem_eq h.free]
    split_ifs with hx
    · refine ⟨fun _ i _ hi => hclosed x i hx hi, fun hall i hway hi => ?_⟩
      obtain ⟨j, _, rfl⟩ := Option.map_eq_some_iff.mp hi
      simp [closedForArchive, ItemRow.stamped, Cascade.value]
    · rfl
  | unarchive =>
    simp only [Cascade.accepts, h.liveItem_eq h.free, true_implies]
    split_ifs with hx
    · simp [hx, ItemRow.stamped, Cascade.value]
    · simp [hx]

/-- A live root reaches live items. -/
theorem live_of_reach {db : Db} {r x : String} (hr : (liveItem db r).isSome = true)
    (h : c.reach db r x) : (liveItem db x).isSome = true := by
  cases c with
  | archive =>
    rcases ReflTransGen.cases_tail h with heq | ⟨_, _, hlast⟩
    · exact heq ▸ hr
    · exact hlast.right
  | unarchive =>
    rcases ReflTransGen.cases_head h with heq | ⟨_, hfirst, _⟩
    · exact heq ▸ hr
    · exact hfirst.1

theorem live_of_accepts {db : Db} {r : String} (h : c.accepts db r) :
    (liveItem db r).isSome = true := by
  cases c with
  | archive => exact h.1
  | unarchive =>
    obtain ⟨i, hi, _⟩ := h
    exact hi ▸ rfl

/-- What one accepted root stamps, from the items it looks at. -/
theorem stampTargets (hs : Merging s) (h : Underway c now before touched s t)
    (hroom : 2 * s.file.ops.length ≤ roomyLog) {author : String}
    (hauthor : isAttributable author = true) {id : String} {root : ItemRow} {found : List ItemRow}
    (hroot : liveItem t.file.views id = some root) (hnodup : (found.map ItemRow.id).Nodup)
    (hmem : ∀ i, i ∈ found ↔ liveItem t.file.views i.id = some i ∧ i.id ≠ id ∧
      c.reach t.file.views id i.id)
    (haccepts : c.accepts t.file.views id)
    (hfree : ∀ x, c.reach s.file.views id x → ¬ Pinned s x "archived") :
    ∃ more t', stampArchived (c.value now) author ((root :: found).filter (c.pending ·)) t =
        (some (.ok more), t') ∧
      Underway c now (before ++ [id]) (touched ++ more) s t' ∧
      ∀ x, x ∈ more ↔ c.reach t.file.views id x ∧
        ∃ i, getItem t.file.views x = some i ∧ c.pending i = true := by
  have hrootId : root.id = id := id_of_getItem (liveItem_eq_some hroot)
  have hall (i : ItemRow) : i ∈ root :: found ↔
      liveItem t.file.views i.id = some i ∧ c.reach t.file.views id i.id := by
    rw [List.mem_cons, hmem]
    constructor
    · rintro (rfl | ⟨hi, _, hreach⟩)
      · exact ⟨hrootId ▸ hroot, hrootId ▸ reach_refl c _ _⟩
      · exact ⟨hi, hreach⟩
    · rintro ⟨hi, hreach⟩
      by_cases hid : i.id = id
      · rw [hid, hroot, Option.some.injEq] at hi
        exact .inl hi.symm
      · exact .inr ⟨hi, hid, hreach⟩
  have htargets (x : String) : x ∈ ((root :: found).filter (c.pending ·)).map ItemRow.id ↔
      c.reach t.file.views id x ∧ ∃ i, getItem t.file.views x = some i ∧ c.pending i = true := by
    rw [List.mem_map]
    constructor
    · rintro ⟨i, hi, rfl⟩
      obtain ⟨hi, hp⟩ := List.mem_filter.mp hi
      exact ⟨((hall i).mp hi).2, i, liveItem_eq_some ((hall i).mp hi).1, hp⟩
    · rintro ⟨hreach, i, hi, hp⟩
      obtain rfl := id_of_getItem hi
      obtain ⟨j, hj⟩ := Option.isSome_iff_exists.mp (live_of_reach (hroot ▸ rfl) hreach)
      have hij : i = j := by simpa [hi] using (liveItem_eq_some hj)
      exact ⟨i, List.mem_filter.mpr ⟨(hall i).mpr ⟨hij ▸ hj, hreach⟩, hp⟩, rfl⟩
  have hreach (x : String) := h.reach_iff h.free c id x
  have honce : (((root :: found).filter (c.pending ·)).map ItemRow.id).Nodup := by
    refine List.Nodup.sublist (List.filter_sublist.map ItemRow.id) ?_
    rw [List.map_cons, List.nodup_cons]
    refine ⟨fun hin => ?_, hnodup⟩
    obtain ⟨i, hi, hid⟩ := List.mem_map.mp hin
    exact ((hmem i).mp hi).2.1 (hid.trans hrootId)
  obtain ⟨t', hrun, hstamped⟩ := h.toStamped.stampArchived hs hroom hauthor honce
    (fun i hi => by
      obtain ⟨_, hp⟩ := (htargets i.id).mp (List.mem_map_of_mem hi)
      obtain ⟨hnew, j, hj, _⟩ := (h.pending_iff _).mp hp
      refine ⟨hnew, ?_⟩
      rw [ne_eq, ← getItem_eq_none, hj]
      exact Option.some_ne_none j)
  refine ⟨_, t', hrun, ⟨hstamped, fun x => ?_, fun x hx => ?_⟩, htargets⟩
  · rw [List.mem_append, htargets, h.pending_iff, h.touches, hreach]
    have haccepts' := ((h.accepts_iff id).mp haccepts).1
    constructor
    · rintro (⟨r, hr, hx⟩ | ⟨hx, _, hp⟩)
      · exact ⟨r, List.mem_append_left _ hr, hx⟩
      · exact ⟨id, List.mem_append_right _ (List.mem_singleton_self id), haccepts', hx, hp⟩
    · rintro ⟨r, hr, hacc, hx, hp⟩
      by_cases hold : ∃ r ∈ before, c.accepts s.file.views r ∧ c.reach s.file.views r x ∧
          ∃ i, getItem s.file.views x = some i ∧ c.pending i = true
      · exact .inl hold
      · rcases List.mem_append.mp hr with hr | hr
        · exact absurd ⟨r, hr, hacc, hx, hp⟩ hold
        · rw [List.mem_singleton.mp hr] at hx
          exact .inr ⟨hx, hold, hp⟩
  · rcases List.mem_append.mp hx with hx | hx
    · exact h.free x hx
    · exact hfree x ((hreach x).mp ((htargets x).mp hx).1)

/-- A refused root leaves the batch where it is. -/
theorem refuse (h : Underway c now before touched s t) {id : String}
    (hrefused : ¬ c.accepts t.file.views id) :
    Underway c now (before ++ [id]) touched s t := by
  refine ⟨h.toStamped, fun x => (h.touches x).trans ⟨?_, ?_⟩, h.free⟩
  · rintro ⟨r, hr, hx⟩
    exact ⟨r, List.mem_append_left _ hr, hx⟩
  · rintro ⟨r, hr, hacc, hreach, hp⟩
    rcases List.mem_append.mp hr with hr | hr
    · exact ⟨r, hr, hacc, hreach, hp⟩
    · rw [List.mem_singleton] at hr
      subst hr
      -- refused though the first store would have it: an earlier root took it along
      have htaken : r ∈ touched := by
        by_contra hnot
        exact hrefused ((h.accepts_iff r).mpr ⟨hacc, fun _ => hnot⟩)
      obtain ⟨r', hr', hacc', hreach', _⟩ := (h.touches r).mp htaken
      exact ⟨r', hr', hacc', reach_trans hreach' hreach, hp⟩

/-- What one root of a batch comes to: refused, and the store left; or accepted, with what it reaches
and finds pending. -/
structure Turn (c : Cascade) (now : String) (before touched : List String) (s t : Store)
    (id : String) (out : Except ArchiveReason (List String)) (t' : Store) : Prop where
  underway : Underway c now (before ++ [id]) (touched ++ out.toOption.getD []) s t'
  judged : (c.accepts t.file.views id ∧ ∃ more, out = .ok more ∧ ∀ x, x ∈ more ↔
      c.reach t.file.views id x ∧ ∃ i, getItem t.file.views x = some i ∧ c.pending i = true) ∨
    (¬ c.accepts t.file.views id ∧ t' = t ∧ ∃ e, out = .error e)

theorem Turn.refused (h : Underway c now before touched s t) {id : String}
    (hno : ¬ c.accepts t.file.views id) (e : ArchiveReason) :
    Turn c now before touched s t id (.error e) t := by
  refine ⟨?_, .inr ⟨hno, rfl, e, rfl⟩⟩
  change Underway c now (before ++ [id]) (touched ++ []) s t
  rw [List.append_nil]
  exact h.refuse hno

/-- `archive_root`, past the reads. -/
theorem archiveRoot_eq {env : Env} (now author : String) {id : String} {root : ItemRow} {found : List ItemRow}
    (hitem : liveItem t.file.views id = some root)
    (hwalk : liveDescendants env.fuel t.file.views id = some found) :
    archiveRoot env now author id t =
      if !closedForArchive root then (some (.ok (.error .notClosed)), t)
      else if !found.all closedForArchive then (some (.ok (.error .hasOpenDescendants)), t)
      else (Facade.stampArchived (some now) author
        ((root :: found).filter fun i => i.archived.isNone) >>= fun ids => pure (.ok ids)) t := by
  have hwalked : walk (liveDescendants env.fuel · id) t = (some (.ok found), t) := by
    unfold walk
    rw [look_bind, hwalk]
    rfl
  unfold archiveRoot
  rw [look_bind, hitem]
  dsimp only
  split_ifs with h₁ h₂
  · rfl
  · rw [bind_of_ok hwalked, if_pos h₂]
    rfl
  · rw [bind_of_ok hwalked, if_neg h₂]

/-- `unarchive_root`, past the reads. -/
theorem unarchiveRoot_eq {env : Env} (author : String) {id : String} {root : ItemRow} {found : List ItemRow}
    (hitem : liveItem t.file.views id = some root)
    (hwalk : liveAncestors t.file.views env.fuel [root.id] root.belongsTo = some found) :
    unarchiveRoot env author id t =
      if root.archived.isNone then (some (.ok (.error .notArchived)), t)
      else (Facade.stampArchived none author
        ((root :: found).filter fun i => i.archived.isSome) >>= fun ids => pure (.ok ids)) t := by
  have hwalked : walk (fun db => liveAncestors db env.fuel [root.id] root.belongsTo) t =
      (some (.ok found), t) := by
    unfold walk
    rw [look_bind, hwalk]
    rfl
  unfold unarchiveRoot
  rw [look_bind, hitem]
  dsimp only
  split_ifs with h₁
  · rfl
  · rw [bind_of_ok hwalked]

theorem root_of_missing (c : Cascade) (env : Env) (now author : String) {id : String}
    (hitem : liveItem t.file.views id = none) :
    c.root env now author id t = (some (.ok (.error .notFound)), t) ∧
      ¬ c.accepts t.file.views id := by
  cases c with
  | archive =>
    refine ⟨?_, fun hyes => ?_⟩
    · change archiveRoot env now author id t = _
      unfold archiveRoot
      rw [look_bind, hitem]
      rfl
    · have hlive := hyes.1
      rw [hitem] at hlive
      cases hlive
  | unarchive =>
    refine ⟨?_, fun ⟨i, hi, _⟩ => ?_⟩
    · change unarchiveRoot env author id t = _
      unfold unarchiveRoot
      rw [look_bind, hitem]
      rfl
    · rw [hitem] at hi
      cases hi

/-- A root is accepted as its own row and the rows under it say. -/
theorem accepts_archive_iff {db : Db} {id : String} {root : ItemRow} {found : List ItemRow}
    (hitem : liveItem db id = some root)
    (hmem : ∀ i, i ∈ found ↔ liveItem db i.id = some i ∧ i.id ≠ id ∧
      ReflTransGen (LiveChild db) id i.id) :
    Cascade.accepts db id .archive ↔
      closedForArchive root = true ∧ found.all closedForArchive = true := by
  rw [List.all_eq_true]
  constructor
  · rintro ⟨_, hall⟩
    refine ⟨hall id root .refl hitem, fun i hi => ?_⟩
    obtain ⟨hi, _, hway⟩ := (hmem i).mp hi
    exact hall i.id i hway hi
  · rintro ⟨hroot, hall⟩
    refine ⟨hitem ▸ rfl, fun x i hway hi => ?_⟩
    obtain rfl := id_of_getItem (liveItem_eq_some hi)
    by_cases hid : i.id = id
    · rw [hid, hitem, Option.some.injEq] at hi
      exact hi ▸ hroot
    · exact hall i ((hmem i).mpr ⟨hi, hid, hway⟩)

theorem accepts_unarchive_iff {db : Db} {id : String} {root : ItemRow}
    (hitem : liveItem db id = some root) :
    Cascade.accepts db id .unarchive ↔ root.archived.isSome = true := by
  constructor
  · rintro ⟨i, hi, harchived⟩
    rw [hitem, Option.some.injEq] at hi
    exact hi ▸ harchived
  · exact fun harchived => ⟨root, hitem, harchived⟩

/-- **One root**: judged on the store it finds. -/
theorem root_run (hs : Merging s) (h : Underway c now before touched s t)
    (hroom : 2 * s.file.ops.length ≤ roomyLog) {author : String}
    (hauthor : isAttributable author = true) {env : Env}
    (hfuel : (knownIds s.file.views).card + 1 ≤ env.fuel) {id : String}
    (hfree : ∀ x, c.reach s.file.views id x → ¬ Pinned s x "archived") :
    ∃ out t', c.root env now author id t = (some (.ok out), t') ∧
      Turn c now before touched s t id out t' := by
  have ht := h.changed.merging
  rw [← h.toStamped.knownIds_eq] at hfuel
  cases hitem : liveItem t.file.views id with
  | none =>
    obtain ⟨hrun, hno⟩ := root_of_missing c env now author hitem
    exact ⟨_, t, hrun, .refused h hno _⟩
  | some root =>
    have haccept {found : List ItemRow} (hnodup : (found.map ItemRow.id).Nodup)
        (hmem : ∀ i, i ∈ found ↔ liveItem t.file.views i.id = some i ∧ i.id ≠ id ∧
          c.reach t.file.views id i.id) (hyes : c.accepts t.file.views id)
        (hrun : c.root env now author id t = (Facade.stampArchived (c.value now) author
          ((root :: found).filter (c.pending ·)) >>= fun ids => pure (.ok ids)) t) :
        ∃ out t', c.root env now author id t = (some (.ok out), t') ∧
          Turn c now before touched s t id out t' := by
      obtain ⟨more, t', hstamp, hnext, hmore⟩ :=
        h.stampTargets hs hroom hauthor hitem hnodup hmem hyes hfree
      exact ⟨.ok more, t', hrun.trans (bind_of_ok hstamp _), hnext,
        .inl ⟨hyes, more, rfl, hmore⟩⟩
    cases c with
    | archive =>
      have hlive : (liveItem t.file.views id).isSome = true := hitem ▸ rfl
      obtain ⟨found, hwalk, hnodup, hmem⟩ := mem_liveDescendants ht.shows
        (idsNameOps_of_nodup ht.nodup) hlive hfuel
      have hrun := archiveRoot_eq now author hitem hwalk
      have hclosed := accepts_archive_iff hitem hmem
      by_cases h₁ : closedForArchive root = true
      · by_cases h₂ : found.all closedForArchive = true
        · refine haccept hnodup hmem (hclosed.mpr ⟨h₁, h₂⟩) (hrun.trans ?_)
          rw [h₁, h₂]
          rfl
        · rw [if_neg (by simp [h₁]), if_pos (by simpa using h₂)] at hrun
          exact ⟨_, t, hrun, .refused h (fun hyes => h₂ (hclosed.mp hyes).2) _⟩
      · rw [if_pos (by simpa using h₁)] at hrun
        exact ⟨_, t, hrun, .refused h (fun hyes => h₁ (hclosed.mp hyes).1) _⟩
    | unarchive =>
      obtain ⟨found, hwalk, hnodup, hmem⟩ := mem_liveAncestors ht.shows hitem
        ((Nat.le_succ _).trans hfuel)
      have hrun := unarchiveRoot_eq author hitem hwalk
      have hput := accepts_unarchive_iff hitem
      cases h₁ : root.archived with
      | some instant =>
        refine haccept hnodup hmem (hput.mpr (h₁ ▸ rfl)) (hrun.trans ?_)
        rw [h₁]
        rfl
      | none =>
        rw [h₁] at hrun hput
        exact ⟨_, t, hrun, .refused h (fun hyes => by cases hput.mp hyes) _⟩

end Underway

/-! ## A batch -/

section Batch

variable {c : Cascade} {now author : String} {s : Store}

/-- The roots of a batch, one after the other. -/
def judgeAll (c : Cascade) (env : Env) (now author : String) (ids : List String) :
    Verb (List (String × Except ArchiveReason (List String))) :=
  ids.mapM fun id => c.root env now author id >>= fun out => pure (id, out)

/-- Why a root was refused, if it was. -/
def reasonOf (out : Except ArchiveReason (List String)) : Option ArchiveReason :=
  match out with
  | .ok _ => none
  | .error reason => some reason

/-- The ids the roots stamped. -/
def stampedBy (results : List (String × Except ArchiveReason (List String))) : List String :=
  results.flatMap fun r => r.2.toOption.getD []

/-- The answer of a batch. -/
def answerOf (results : List (String × Except ArchiveReason (List String))) : BatchResult where
  outcomes := results.map fun r => ⟨r.1, reasonOf r.2⟩
  affected := (stampedBy results).dedup.insertionSort (· ≤ ·)

theorem mem_affected {results : List (String × Except ArchiveReason (List String))} {x : String} :
    x ∈ (answerOf results).affected ↔ x ∈ stampedBy results :=
  (List.mem_insertionSort _).trans List.mem_dedup

theorem affected_sorted (results : List (String × Except ArchiveReason (List String))) :
    (answerOf results).affected.Pairwise (· < ·) := by
  have hle : (answerOf results).affected.Pairwise (· ≤ ·) := List.pairwise_insertionSort _ _
  have hnodup : (answerOf results).affected.Nodup :=
    (List.perm_insertionSort _ _).nodup_iff.mpr (List.nodup_dedup _)
  exact (hle.and hnodup).imp fun h => lt_of_le_of_ne h.1 h.2

/-- Two answers that stamped the same items name them alike. -/
theorem affected_eq {results results' : List (String × Except ArchiveReason (List String))}
    (h : ∀ x, x ∈ stampedBy results ↔ x ∈ stampedBy results') :
    (answerOf results).affected = (answerOf results').affected := by
  have hnodup (l : List (String × Except ArchiveReason (List String))) :
      (answerOf l).affected.Nodup := (affected_sorted l).imp ne_of_lt
  have hperm : (answerOf results).affected.Perm (answerOf results').affected := by
    refine (List.perm_ext_iff_of_nodup (hnodup _) (hnodup _)).mpr fun x => ?_
    rw [mem_affected, mem_affected, h]
  exact hperm.eq_of_pairwise (fun a b _ _ hlt hgt => absurd hlt hgt.asymm)
    (affected_sorted _) (affected_sorted _)

/-- The verb, once its roots have run. -/
theorem run_of_judgeAll {actor : String} (hactor : Validate.actor actor = .ok author) {env : Env}
    (hnow : env.calendar.parses now = true) {ids : List String}
    {results : List (String × Except ArchiveReason (List String))} {t : Store}
    (hrun : judgeAll c env now author ids (Core.setWallClock now s).2 =
      (some (.ok results), t)) :
    c.run env now actor ids s = (some (.ok (answerOf results)), t) := by
  have hbatch : archiveBatch env now actor ids (fun actor id => c.root env now actor id) s =
      (some (.ok (answerOf results)), t) := by
    unfold archiveBatch
    rw [bind_of_ok (ofExcept_of_ok hactor s), bind_of_ok (stampNow_of_parses hnow s)]
    exact bind_of_ok hrun _
  cases c <;> exact hbatch

/-- The roots reach no `archived` cell that a received op pins. -/
def Free (c : Cascade) (s : Store) (ids : List String) : Prop :=
  ∀ id ∈ ids, ∀ x, c.reach s.file.views id x → ¬ Pinned s x "archived"

/-- **The roots of a batch run through.** -/
theorem Underway.judgeAll_run (hs : Merging s) (hroom : 2 * s.file.ops.length ≤ roomyLog)
    (hauthor : isAttributable author = true) {env : Env}
    (hfuel : (knownIds s.file.views).card + 1 ≤ env.fuel) {before touched ids : List String}
    {t : Store} (h : Underway c now before touched s t) (hfree : Free c s ids) :
    ∃ results t', judgeAll c env now author ids t = (some (.ok results), t') ∧
      results.map Prod.fst = ids ∧
      Underway c now (before ++ ids) (touched ++ stampedBy results) s t' := by
  have hstart : Underway c now (before ++ []) (touched ++ stampedBy []) s t := by
    rw [List.append_nil]
    exact (List.append_nil touched).symm ▸ h
  exact mapM_returns
    (fun done results t' => results.map Prod.fst = done ∧
      Underway c now (before ++ done) (touched ++ stampedBy results) s t')
    (fun done id rest results u hids hI => by
      obtain ⟨hnames, hu⟩ := hI
      have hmem : id ∈ ids := hids ▸ List.mem_append_right done List.mem_cons_self
      obtain ⟨out, u', hrun, hturn⟩ := hu.root_run hs hroom hauthor hfuel (hfree id hmem)
      refine ⟨(id, out), u', bind_of_ok hrun _, ?_, ?_⟩
      · rw [List.map_append, hnames, List.map_singleton]
      · have hnext := hturn.underway
        rw [List.append_assoc, List.append_assoc] at hnext
        unfold stampedBy at hnext ⊢
        rw [List.flatMap_append, List.flatMap_singleton]
        exact hnext)
    ⟨rfl, hstart⟩

/-- Nothing is stamped when a batch starts. -/
theorem Underway.start (hs : Merging s) (c : Cascade) (now : String) :
    Underway c now [] [] s (Core.setWallClock now s).2 where
  changed := by
    rw [stampPlan_nil]
    exact Changed.setWallClock hs now
  nodup := List.nodup_nil
  known x hx := absurd hx List.not_mem_nil
  touches x := by simp
  free x hx := absurd hx List.not_mem_nil

/-- What an accepted root leaves of an item. -/
theorem Underway.Turn.getItem_eq {before touched more : List String} {t t' : Store} {id : String}
    (h : Underway c now before touched s t)
    (hturn : Underway.Turn c now before touched s t id (.ok more) t')
    (hmore : ∀ x, x ∈ more ↔ c.reach t.file.views id x ∧
      ∃ i, getItem t.file.views x = some i ∧ c.pending i = true) (x : String) :
    (c.reach t.file.views id x →
      getItem t'.file.views x = (getItem t.file.views x).map (cascadedRow c (c.value now))) ∧
    (¬ c.reach t.file.views id x → getItem t'.file.views x = getItem t.file.views x) := by
  have hafter := hturn.underway.getItem_eq hturn.underway.free x
  change getItem t'.file.views x = if x ∈ touched ++ more then _ else _ at hafter
  simp only [List.mem_append] at hafter
  have hbefore := h.getItem_eq h.free x
  by_cases hx : x ∈ more
  · obtain ⟨hreach, i, hi, hp⟩ := (hmore x).mp hx
    obtain ⟨hnew, _⟩ := (h.pending_iff x).mp ⟨i, hi, hp⟩
    rw [if_neg hnew] at hbefore
    rw [if_pos (.inr hx), ← hbefore] at hafter
    refine ⟨fun _ => hafter.trans ?_, fun hnot => absurd hreach hnot⟩
    rw [hi, Option.map_some, Option.map_some, cascadedRow, if_pos hp]
  · have hsame : getItem t'.file.views x = getItem t.file.views x := by
      rw [hafter, hbefore]
      simp only [hx, or_false]
    refine ⟨fun hreach => hsame.trans ?_, fun _ => hsame⟩
    cases hi : getItem t.file.views x with
    | none => rfl
    | some i =>
      have hp : c.pending i = false := by
        rw [Bool.eq_false_iff]
        exact fun hp => hx ((hmore x).mpr ⟨hreach, i, hi, hp⟩)
      rw [Option.map_some, cascadedRow, if_neg (by rw [hp]; exact Bool.false_ne_true)]

/-- Once its batch is through, an accepted root reaches nothing pending. -/
theorem Underway.settled {before touched : List String} {t t' : Store} {id x : String}
    (h : Underway c now before touched s t) {ids touched' : List String}
    (hdone : Underway c now ids touched' s t') (hid : id ∈ ids)
    (haccepts : c.accepts t.file.views id) (hreach : c.reach t.file.views id x) :
    ∃ i, getItem t'.file.views x = some i ∧ c.pending i = false := by
  have hlive := Underway.live_of_reach (Underway.live_of_accepts haccepts) hreach
  rw [h.liveItem_isSome h.free, ← hdone.liveItem_isSome hdone.free] at hlive
  obtain ⟨i, hi⟩ := Option.isSome_iff_exists.mp hlive
  refine ⟨i, liveItem_eq_some hi, ?_⟩
  rw [Bool.eq_false_iff]
  intro hp
  obtain ⟨hnew, hold⟩ := (hdone.pending_iff x).mp ⟨i, liveItem_eq_some hi, hp⟩
  exact hnew ((hdone.touches x).mpr ⟨id, hid, ((h.accepts_iff id).mp haccepts).1,
    (h.reach_iff h.free c id x).mp hreach, hold⟩)

/-- **The cascades are exact**, on every store a run of local writes and merges leads to whose log has
room for the writes, where the roots reach no `archived` cell that a received op pins. -/
theorem cascades_exact {site : Int} {key : ReplicaKey} {ulids : Nat → String}
    (hulids : Ulids ulids) {s : Store}
    (hrun : ReflTransGen MergeStep (freshStore site key ulids) s)
    (hroom : 2 * s.file.ops.length ≤ roomyLog) {actor author : String}
    (hactor : Validate.actor actor = .ok author) (now : String) :
    ∃ bound, ∀ env : Env, bound ≤ env.fuel → env.calendar.parses now = true →
      ∀ (c : Cascade) (ids : List String), Free c s ids →
        ∃ r s', c.run env now actor ids s = (some (.ok r), s') ∧
          Exact c env now actor ids s r s' := by
  have hs := merging_run hulids hrun (by omega)
  have hauthor := Validate.actor_ok hactor
  refine ⟨(knownIds s.file.views).card + 1, fun env hfuel hnow c ids hfree => ?_⟩
  have hstart := Underway.start hs c now
  -- a batch of such roots, from the start
  have hbatch (ids : List String) (hfree : Free c s ids) :
      ∃ results t, judgeAll c env now author ids (Core.setWallClock now s).2 =
          (some (.ok results), t) ∧ results.map Prod.fst = ids ∧
        Underway c now ids (stampedBy results) s t :=
    hstart.judgeAll_run hs hroom hauthor hfuel hfree
  obtain ⟨results, s', hjudge, hnames, hdone⟩ := hbatch ids hfree
  have hitems (x : String) := hdone.getItem_eq hdone.free x
  refine ⟨answerOf results, s', run_of_judgeAll hactor hnow hjudge, ?_⟩
  constructor
  · unfold answerOf
    rw [List.map_map]
    exact hnames
  · intro before id after hids
    subst hids
    obtain ⟨rb, t, hjb, hnb, hb⟩ := hbatch before fun r hr =>
      hfree r (List.mem_append_left _ hr)
    have hid : id ∈ before ++ id :: after := List.mem_append_right _ List.mem_cons_self
    obtain ⟨out, t', hroot, hturn⟩ := hb.root_run hs hroom hauthor hfuel (hfree id hid)
    have hafter : Free c s after := fun r hr =>
      hfree r (List.mem_append_right _ (List.mem_cons_of_mem _ hr))
    obtain ⟨ra, t'', hja, hna, ha⟩ := hturn.underway.judgeAll_run hs hroom hauthor hfuel hafter
    have hone : judgeAll c env now author [id] t = (some (.ok [(id, out)]), t') := by
      unfold judgeAll
      rw [List.mapM_cons, List.mapM_nil, bind_of_ok (bind_of_ok hroot _)]
      rfl
    have hupto := mapM_append_of_ok hjb hone
    have hall := mapM_append_of_ok hupto hja
    rw [List.append_assoc] at hall
    obtain ⟨hresults, rfl⟩ := Prod.mk.inj (hall.symm.trans hjudge)
    obtain rfl : rb ++ [(id, out)] ++ ra = results := by simpa using hresults
    refine ⟨_, t, _, t', reasonOf out, run_of_judgeAll hactor hnow hjb,
      run_of_judgeAll hactor hnow hupto, ?_, ?_⟩
    · have hlen : before.length = rb.length := by rw [← hnb, List.length_map]
      unfold answerOf
      rw [hlen]
      simp
    rcases hturn.judged with ⟨hyes, more, rfl, hmore⟩ | ⟨hno, rfl, e, rfl⟩
    · refine ⟨iff_of_true rfl hyes, fun h => absurd rfl h, fun _ x => ?_⟩
      obtain ⟨hin, hout⟩ := Underway.Turn.getItem_eq hb hturn hmore x
      exact ⟨fun hreach => ⟨hin hreach, hb.settled hdone hid hyes hreach⟩, hout⟩
    · exact ⟨iff_of_false (Option.some_ne_none e) hno, fun _ => rfl,
        fun h => absurd h (Option.some_ne_none e)⟩
  · intro x
    simp only [mem_affected]
    exact hitems x
  · intro x
    rw [mem_affected]
    constructor
    · intro hx
      obtain ⟨_, _, _, _, i, hi, hp⟩ := (hdone.touches x).mp hx
      refine ⟨i, i.stamped (c.value now), hi, by rw [hitems, if_pos hx, hi, Option.map_some], ?_⟩
      intro heq
      change c.value now = i.archived at heq
      cases c <;> simp [Cascade.pending, Cascade.value, ← heq] at hp
    · rintro ⟨i, i', hi, hi', hne⟩
      by_contra hx
      rw [hitems, if_neg hx, hi, Option.some.injEq] at hi'
      exact hne (congrArg ItemRow.archived hi'.symm)
  · exact affected_sorted results
  · exact hdone.changed.scans
  · exact hdone.changed.order
  · intro ids' hids
    obtain ⟨results', t, hjudge', _, hdone'⟩ := hbatch ids' fun r hr => hfree r ((hids r).mp hr)
    have hstamped (x : String) : x ∈ stampedBy results' ↔ x ∈ stampedBy results := by
      rw [hdone'.touches, hdone.touches]
      simp only [hids]
    refine ⟨_, t, run_of_judgeAll hactor hnow hjudge', affected_eq hstamped, fun x => ?_⟩
    rw [hdone'.getItem_eq hdone'.free, hitems]
    simp only [hstamped]

end Batch

/-- A register received from elsewhere. -/
def registerOp (opId id field : String) (value : Option String) (lamport : Int) : Op :=
  ⟨opId, lamport, 9, domainTask, "item", id, field, "set", value, "mallory", "", none, none⟩

/-- A closed task under a parent that is closed too. -/
def closedFamily : List Op :=
  [registerOp "01A" "aaaa.1" "status" (some "closed") 5,
    registerOp "01B" "aaaa.2" "status" (some "closed") 6,
    ⟨"01C", 7, 9, domainTask, "edge", joinChar sep ["aaaa.1", "aaaa.2", "parent"], "present", "add",
      none, "mallory", "", none, none⟩]

/-- Both cascades, with the child before its parent and one of them named twice. -/
theorem cascades_exact_family :
    let s := ((freshStore 1 silentKey (letterIds 'p')).apply closedFamily).2
    ∃ bound, ∀ env : Env, bound ≤ env.fuel → env.calendar.parses "2026-11-02" = true →
      ∀ c : Cascade, ∃ r s', c.run env "2026-11-02" "bob" ["aaaa.1", "aaaa.2", "aaaa.1"] s =
          (some (.ok r), s') ∧
        Exact c env "2026-11-02" "bob" ["aaaa.1", "aaaa.2", "aaaa.1"] s r s' := by
  have hids : closedFamily.all fun op => op.opId.toList.any (· != 'p') := by decide
  have hlow : (((freshStore 1 silentKey (letterIds 'p')).apply closedFamily).2.file.ops.all
      fun r => decide (r.op.lamport ≤ clockCeiling)) = true := by decide
  have hrun : ReflTransGen MergeStep (freshStore 1 silentKey (letterIds 'p'))
      ((freshStore 1 silentKey (letterIds 'p')).apply closedFamily).2 :=
    .single (.received closedFamily fun op hop n _ =>
      ne_letterIds (List.all_eq_true.mp hids op hop) n)
  have hactor : Validate.actor "bob" = .ok "bob" := by decide
  obtain ⟨bound, h⟩ := cascades_exact (ulids_letterIds (c := 'p') (by decide)) hrun
    (by decide) hactor "2026-11-02"
  refine ⟨bound, fun env hfuel hnow c => h env hfuel hnow c _ fun id _ x _ => ?_⟩
  rintro ⟨r, hr, _, _, _, _, _, hhigh⟩
  exact absurd (decide_eq_true_iff.mp (List.all_eq_true.mp hlow r hr)) (not_le.mpr hhigh)

/-- A closed item whose empty `archived` cell was received at the highest number a fold takes. -/
def pinnedVisible : Store :=
  ((freshStore 1 silentKey (letterIds 'p')).apply
    [registerOp "01A" "aaaa.1" "status" (some "closed") 5,
      registerOp "01B" "aaaa.1" "archived" none maxLamport]).2

/-- Archived, and reported so, it stays visible. -/
theorem archive_leaves_pinned_visible :
    let answer := archive ⟨⟨fun _ => true, some⟩, 9, true, toString⟩ "2026-11-02" "bob" ["aaaa.1"]
      pinnedVisible
    ReflTransGen MergeStep (freshStore 1 silentKey (letterIds 'p')) pinnedVisible ∧
      answer.1.bind Except.toOption = some ⟨[⟨"aaaa.1", none⟩], ["aaaa.1"]⟩ ∧
      (getItem answer.2.file.views "aaaa.1").map ItemRow.archived = some none := by
  have hids : [registerOp "01A" "aaaa.1" "status" (some "closed") 5,
      registerOp "01B" "aaaa.1" "archived" none maxLamport].all
        (fun op => op.opId.toList.any (· != 'p')) = true := by decide
  refine ⟨.single (.received _ fun op hop n _ => ?_), by decide, by decide⟩
  exact ne_letterIds (List.all_eq_true.mp hids op hop) n

end NexusFlow.Facade
