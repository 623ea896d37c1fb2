import NexusFlow.Facade.Cells
import NexusFlow.Lib.Visit

/-!
# What a claim reaches

`claim` and `claim_up` (`crates/facade/src/write.rs:982-1047`) on a store with any history of merges:
several parents, diamonds, parent loops, deleted and missing links.

The walk writes while it goes, but what it writes is a status, and it looks at the status of an item
once, before it writes it. So it is a visit of the graph of live parents (`claimUp_run`).

* `claim_reaches_live_ancestors`: the item is in progress, and so is exactly each open item it reaches
  over present parent edges through live items. A register that a received op holds above the clock's
  ceiling is excepted.
* `claim_leaves_pinned_open`: such a register.
-/

namespace NexusFlow.Facade

open NexusFlow.Core NexusFlow.Foundation NexusFlow.Lib Fallible Verb Relation

/-! ## The walk -/

/-- `b` is a parent of `a`, and live. -/
def LiveParent (db : Db) (a b : String) : Prop :=
  b ∈ parentsOf db a ∧ (liveItem db b).isSome = true

/-- Where the walk goes on from an item: nowhere, unless it is live. -/
def upwards (db : Db) (x : String) : List String :=
  if (liveItem db x).isSome then parentsOf db x else []

/-- The walk flips the item when it visits it. -/
def flips (db : Db) (start x : String) : Bool :=
  x != start && (liveItem db x).any fun i => i.status == some "open"

/-- The plan of the walk: what was written before it, and a status for each item flipped. -/
def flipPlan (W : Plan) (db : Db) (start : String) (out : List String) : Plan :=
  fun x f => if f = "status" ∧ x ∈ out ∧ flips db start x = true then some (some "in_progress")
    else W x f

theorem flipPlan_concat_of_flips {W : Plan} {db : Db} {start x : String} {out : List String}
    (hx : flips db start x = true) :
    flipPlan W db start (out ++ [x]) =
      (flipPlan W db start out).set x "status" (some "in_progress") := by
  funext y f
  unfold flipPlan Plan.set
  by_cases hy : y = x
  · subst hy
    by_cases hf : f = "status" <;> simp [hf, hx]
  · simp [hy]

theorem flipPlan_concat_of_not_flips {W : Plan} {db : Db} {start x : String} {out : List String}
    (hx : flips db start x = false) :
    flipPlan W db start (out ++ [x]) = flipPlan W db start out := by
  funext y f
  unfold flipPlan
  by_cases hy : y = x
  · subst hy
    simp [hx]
  · simp [hy]

/-- How many of the items visited were flipped. -/
def flipped (db : Db) (start : String) (out : List String) : Nat :=
  (out.filter fun x => flips db start x).length

theorem flipped_le {s : Store} (hs : Merging s) {start : String} {out : List String}
    (hout : out.Nodup) : flipped s.file.views start out ≤ s.file.ops.length := by
  refine length_le_log hs (hout.filter _) fun x hx => items_of_live ?_
  have hflips := (List.mem_filter.mp hx).2
  unfold flips at hflips
  rw [Bool.and_eq_true] at hflips
  cases h : liveItem s.file.views x with
  | none => simp [h] at hflips
  | some i => rfl

/-- The status of an item, where the plan leaves it. -/
theorem Changed.status_eq {n : Nat} {W : Plan} {s s' : Store} (h : Changed n W s s') {x : String}
    (hW : W x "status" = none) {i i' : ItemRow} (hi : getItem s.file.views x = some i)
    (hi' : getItem s'.file.views x = some i') : i'.status = i.status := by
  rw [Facade.getItem_eq] at hi hi'
  obtain ⟨regs, hregs, rfl⟩ := Option.map_eq_some_iff.mp hi
  obtain ⟨regs', hregs', rfl⟩ := Option.map_eq_some_iff.mp hi'
  obtain ⟨regs'', hregs'', hsame, _⟩ := h.items x regs hregs
  rw [hregs'', Option.some.injEq] at hregs'
  subst hregs'
  exact congrArg cellText (hsame "status" hW)

/-- **The walk is a visit**: it goes where the visit of the live parents goes, and flips what it
visits. The induction is on the fuel; the store has changed by what was visited so far. -/
theorem claimUp_run {s : Store} (hs : Merging s) {author : String}
    (hauthor : isAttributable author = true) {start : String} {W : Plan} {n₀ : Nat}
    (hW : ∀ x f, x ≠ start → W x f = none) (hdel : W start "deleted" = none)
    (hroom : s.file.ops.length + n₀ + s.file.ops.length ≤ roomyLog) {fuel : Nat} :
    ∀ {out todo all seen : List String} {t : Store},
      visit (fun todo new => new.reverse ++ todo) (upwards s.file.views) fuel out todo = some all →
      out.Nodup → start ∈ out → (∀ x, x ∈ seen ↔ x ∈ out) →
      Changed (n₀ + flipped s.file.views start out) (flipPlan W s.file.views start out) s t →
      ∃ t', claimUp author fuel todo seen t = (some (.ok ()), t') ∧
        Changed (n₀ + flipped s.file.views start all) (flipPlan W s.file.views start all) s t' := by
  induction fuel with
  | zero =>
    intro out todo all seen t hvisit _ _ _ ht
    cases todo with
    | nil =>
      cases hvisit
      exact ⟨t, rfl, ht⟩
    | cons pid todo => cases hvisit
  | succ fuel ih =>
    intro out todo all seen t hvisit hnodup hstart hseen ht
    cases todo with
    | nil =>
      cases hvisit
      exact ⟨t, rfl, ht⟩
    | cons pid todo =>
      rw [visit] at hvisit
      rw [claimUp]
      have hcontains : seen.contains pid = true ↔ pid ∈ out := by
        rw [List.contains_iff_mem, hseen]
      by_cases hpid : pid ∈ out
      · rw [if_pos hpid] at hvisit
        rw [if_pos (hcontains.mpr hpid)]
        exact ih hvisit hnodup hstart hseen ht
      rw [if_neg hpid] at hvisit
      rw [if_neg fun h => hpid (hcontains.mp h), look_bind]
      have hne : pid ≠ start := by
        rintro rfl
        exact hpid hstart
      have hplan (f : String) : flipPlan W s.file.views start out pid f = none := by
        unfold flipPlan
        rw [if_neg fun h => hpid h.2.1]
        exact hW pid f hne
      have hnodup' : (out ++ [pid]).Nodup := by
        rw [List.nodup_append]
        refine ⟨hnodup, List.nodup_singleton pid, ?_⟩
        rintro x hx y hy rfl
        rw [List.mem_singleton] at hy
        exact hpid (hy ▸ hx)
      have hstart' : start ∈ out ++ [pid] := List.mem_append_left _ hstart
      have hseen' (x : String) : x ∈ pid :: seen ↔ x ∈ out ++ [pid] := by
        rw [List.mem_cons, hseen, List.mem_append, List.mem_singleton, or_comm]
      have hlive := ht.liveItem_isSome (hplan "deleted")
      cases hitem : liveItem t.file.views pid with
      | none =>
        -- a deleted or missing link: nothing is flipped, and the walk goes no further here
        rw [hitem] at hlive
        have hdead : liveItem s.file.views pid = none :=
          Option.not_isSome_iff_eq_none.mp (by rw [← hlive]; simp)
        have hflips : flips s.file.views start pid = false := by simp [flips, hdead]
        have hup : upwards s.file.views pid = [] := by simp [upwards, hdead]
        rw [hup] at hvisit
        refine ih hvisit hnodup' hstart' hseen' ?_
        rw [flipPlan_concat_of_not_flips hflips]
        simpa [flipped, List.filter_append, hflips] using ht
      | some parent =>
        rw [hitem] at hlive
        obtain ⟨before, hbefore⟩ := Option.isSome_iff_exists.mp hlive.symm
        have hstatus : parent.status = before.status := ht.status_eq (hplan "status")
          (liveItem_eq_some hbefore) (liveItem_eq_some hitem)
        have hup : upwards s.file.views pid = parentsOf s.file.views pid := by
          simp [upwards, hbefore]
        have hflips : flips s.file.views start pid = (parent.status == some "open") := by
          simp [flips, hbefore, hstatus, hne]
        rw [hup] at hvisit
        -- the status, then the rest of the walk
        have hflip : ∃ u, setWhen (parent.status == some "open") pid "status" (some "in_progress")
            author t = (some (.ok ()), u) ∧
            Changed (n₀ + flipped s.file.views start (out ++ [pid]))
              (flipPlan W s.file.views start (out ++ [pid])) s u := by
          unfold setWhen
          cases hopen : parent.status == some "open" with
          | false =>
            rw [hopen] at hflips
            refine ⟨t, rfl, ?_⟩
            rw [flipPlan_concat_of_not_flips hflips]
            simpa [flipped, List.filter_append, hflips] using ht
          | true =>
            rw [hopen] at hflips
            have hle : flipped s.file.views start out ≤ s.file.ops.length := flipped_le hs hnodup
            have hknown : (sheetOf s.file.views).items pid ≠ none :=
              items_of_live (by rw [hbefore]; rfl)
            have hfield : "status" ∈ itemLwwFields := by decide
            obtain ⟨u, hu, hchanged⟩ := ht.setField hauthor (by omega) hfield (some "in_progress")
              hknown
            refine ⟨u, hu, ?_⟩
            rw [flipPlan_concat_of_flips hflips]
            simpa [flipped, List.filter_append, hflips, add_assoc] using hchanged
        obtain ⟨u, hu, hchanged⟩ := hflip
        have hrun : (setWhen (parent.status == some "open") pid "status" (some "in_progress") author
            >>= fun _ => look (parentsOf · pid) >>= fun parents =>
              claimUp author fuel (parents.reverse ++ todo) (pid :: seen)) t =
            claimUp author fuel ((parentsOf s.file.views pid).reverse ++ todo) (pid :: seen) u := by
          rw [bind_of_ok hu, look_bind, hchanged.parentsOf_eq]
        obtain ⟨t', hclaim, hdone⟩ := ih hvisit hnodup' hstart' hseen' hchanged
        exact ⟨t', hrun.trans hclaim, hdone⟩

/-! ## The graph of live parents -/

/-- What the walk visits from an item: what it reaches over live parents, except that the last link may
be dead. -/
theorem reaches_iff {db : Db} {start x : String} (hx : (liveItem db x).isSome = true)
    (hstart : (liveItem db start).isSome = true) :
    ReflTransGen (Visit.Next (upwards db)) start x ↔ ReflTransGen (LiveParent db) start x := by
  constructor
  · intro h
    induction h with
    | refl => exact .refl
    | @tail b c _ hbc ih =>
      have hb : (liveItem db b).isSome = true := by
        by_contra hdead
        unfold Visit.Next upwards at hbc
        rw [if_neg hdead] at hbc
        cases hbc
      refine (ih hb).tail ⟨?_, hx⟩
      unfold Visit.Next upwards at hbc
      rwa [if_pos hb] at hbc
  · intro h
    induction h with
    | refl => exact .refl
    | @tail b c hab hbc ih =>
      have hb : (liveItem db b).isSome = true := by
        rcases ReflTransGen.cases_tail hab with heq | ⟨a, _, hba⟩
        · exact heq ▸ hstart
        · exact hba.2
      refine (ih hb).tail ?_
      unfold Visit.Next upwards
      rw [if_pos hb]
      exact hbc.1

/-- The children that parent edges were ever added to. -/
def edgeChildren (db : Db) : Finset String :=
  ((db.scan "edge_adds").filterMap fun row => cellText (row "from_id")).toFinset

theorem upwards_eq_nil {db : Db} {x : String} (h : x ∉ edgeChildren db) : upwards db x = [] := by
  have hparents : parentsOf db x = [] := by
    rw [List.eq_nil_iff_forall_not_mem]
    intro y hy
    unfold parentsOf targetsOf at hy
    rw [List.mem_insertionSort, List.mem_dedup, List.mem_filterMap] at hy
    obtain ⟨row, hrow, _⟩ := hy
    obtain ⟨hrow, hp⟩ := List.mem_filter.mp hrow
    simp only [Bool.and_eq_true, beq_iff_eq] at hp
    refine h (List.mem_toFinset.mpr (List.mem_filterMap.mpr ⟨row, hrow, ?_⟩))
    rw [hp.1.1]
    rfl
  unfold upwards
  split_ifs
  · exact hparents
  · rfl

/-! ## claim -/

/-- What a claim does: the item is in progress, and so is each open item it reaches over present parent
edges through live items, unless a received op pins its status. Nothing else changes. -/
structure Claimed (s s' : Store) (id : String) (assignee : Option String) : Prop where
  start : ∀ item, liveItem s.file.views id = some item →
    (∀ f ∈ ["status", "assignee", "closed_at"], ¬ Pinned s id f) →
    getItem s'.file.views id = some { item with
      status := some "in_progress"
      assignee := assignee.or item.assignee
      closedAt := none }
  reached : ∀ x i, x ≠ id → getItem s.file.views x = some i → i.status = some "open" →
    TransGen (LiveParent s.file.views) id x → ¬ Pinned s x "status" →
    getItem s'.file.views x = some { i with status := some "in_progress" }
  others : ∀ x, x ≠ id → (∀ i, getItem s.file.views x = some i → i.status = some "open" →
    ¬ TransGen (LiveParent s.file.views) id x) → getItem s'.file.views x = getItem s.file.views x
  scans : ∀ t, t ≠ "items" → t ≠ "item_timestamps" → s'.file.views.scan t = s.file.views.scan t
  order : (s'.file.views.scan "items").map (· "id") = (s.file.views.scan "items").map (· "id")

/-- One cell more, if the condition holds. -/
def Plan.setWhen (c : Bool) (W : Plan) (id field : String) (value : Option String) : Plan :=
  if c then W.set id field value else W

/-- `set_field` where a condition holds. -/
theorem Changed.setWhen {n : Nat} {W : Plan} {s s' : Store} (h : Changed n W s s')
    {author : String} (hauthor : isAttributable author = true)
    (hroom : s.file.ops.length + n ≤ roomyLog) {id field : String} (hfield : field ∈ itemLwwFields)
    (c : Bool) (value : Option String) (hid : (sheetOf s.file.views).items id ≠ none) :
    ∃ s'', Facade.setWhen c id field value author s' = (some (.ok ()), s'') ∧
      Changed (n + c.toNat) (W.setWhen c id field value) s s'' := by
  cases c with
  | false => exact ⟨s', rfl, h⟩
  | true => exact h.setField hauthor hroom hfield value hid

theorem setIfGiven_eq (id field : String) (value : Option String) (author : String) :
    setIfGiven id field value author = setWhen value.isSome id field value author := by
  cases value <;> rfl

/-- The plan of the writes on the item itself. -/
def startPlan (id : String) (assignee closedAt : Option String) : Plan :=
  ((Plan.none.set id "status" (some "in_progress")).setWhen assignee.isSome id "assignee"
    assignee).setWhen closedAt.isSome id "closed_at" none

theorem startPlan_other {id x : String} (hx : x ≠ id) (assignee closedAt : Option String)
    (f : String) : startPlan id assignee closedAt x f = none := by
  unfold startPlan Plan.setWhen
  split_ifs <;> simp [Plan.set, Plan.none, hx]

theorem startPlan_field {id f : String} {assignee closedAt : Option String} {v : Option String}
    (h : startPlan id assignee closedAt id f = some v) :
    f ∈ ["status", "assignee", "closed_at"] := by
  by_contra hnot
  simp only [List.mem_cons, List.not_mem_nil, or_false, not_or] at hnot
  unfold startPlan Plan.setWhen at h
  split_ifs at h <;> simp [Plan.set, Plan.none, hnot] at h

theorem written_startPlan (i : ItemRow) (id : String) (assignee : Option String) :
    i.written (startPlan id assignee i.closedAt id) =
      { i with
        status := some "in_progress"
        assignee := assignee.or i.assignee
        closedAt := none } := by
  obtain ⟨_, _, _, _, _, _, _, _, _, _, assigned, _, _, _, _, closed⟩ := i
  cases assignee <;> cases closed <;>
    simp [ItemRow.written, startPlan, Plan.setWhen, Plan.set, Plan.none]

theorem startPlan_deleted (id : String) (assignee closedAt : Option String) :
    startPlan id assignee closedAt id "deleted" = none := by
  cases h : startPlan id assignee closedAt id "deleted" with
  | none => rfl
  | some v => exact absurd (startPlan_field h) (by decide)

/-- The writes on the item itself, then the walk. -/
theorem claim_run {s : Store} (hs : Merging s) (hroom : 2 * s.file.ops.length + 3 ≤ roomyLog)
    {now actor id author : String} (hactor : Validate.actor actor = .ok author) {item : ItemRow}
    (hitem : liveItem s.file.views id = some item) (assignee : Option String) {env : Env}
    (hnow : env.calendar.parses now = true) {all : List String}
    (hvisit : visit (fun todo new => new.reverse ++ todo) (upwards s.file.views) env.fuel [id]
      (parentsOf s.file.views id).reverse = some all) :
    ∃ row s' n, claim env now actor id assignee s = (some (.ok row), s') ∧
      getItem s'.file.views id = some row ∧
      Changed n (flipPlan (startPlan id assignee item.closedAt) s.file.views id all) s s' := by
  have hauthor := Validate.actor_ok hactor
  have hid : (sheetOf s.file.views).items id ≠ none := items_of_liveItem hitem
  have h₀ := Changed.setWallClock hs now
  have hfields : "status" ∈ itemLwwFields ∧ "assignee" ∈ itemLwwFields ∧
      "closed_at" ∈ itemLwwFields := by decide
  obtain ⟨s₁, hw₁, h₁⟩ := h₀.setField hauthor (by omega) hfields.1 (some "in_progress") hid
  obtain ⟨s₂, hw₂, h₂⟩ := h₁.setWhen hauthor (by omega) hfields.2.1 assignee.isSome assignee hid
  have hassigned := Bool.toNat_le assignee.isSome
  obtain ⟨s₃, hw₃, h₃⟩ := h₂.setWhen hauthor (by omega) hfields.2.2 item.closedAt.isSome none hid
  have hclosed := Bool.toNat_le item.closedAt.isSome
  change Changed _ (startPlan id assignee item.closedAt) s s₃ at h₃
  have hflips : flips s.file.views id id = false := by simp [flips]
  have hplan : flipPlan (startPlan id assignee item.closedAt) s.file.views id [id] =
      startPlan id assignee item.closedAt := by
    funext x f
    unfold flipPlan
    rw [if_neg]
    rintro ⟨_, hx, hf⟩
    rw [List.mem_singleton.mp hx, hflips] at hf
    cases hf
  have hcount : flipped s.file.views id [id] = 0 := by simp [flipped, hflips]
  have hbegun : Changed (0 + 1 + assignee.isSome.toNat + item.closedAt.isSome.toNat +
      flipped s.file.views id [id]) (flipPlan (startPlan id assignee item.closedAt) s.file.views id
        [id]) s s₃ := by
    rw [hplan, hcount]
    exact h₃
  obtain ⟨s', hwalk, hdone⟩ := claimUp_run hs hauthor
    (fun x f hx => startPlan_other hx assignee item.closedAt f)
    (startPlan_deleted id assignee item.closedAt) (by omega) hvisit (List.nodup_singleton id)
    (List.mem_singleton_self id) (fun _ => Iff.rfl) hbegun
  obtain ⟨regs, hregs⟩ := Option.ne_none_iff_exists'.mp (hdone.items_ne hid)
  obtain ⟨row, hrow⟩ : ∃ row, getItem s'.file.views id = some row := by
    rw [getItem_eq, hregs]
    exact ⟨_, rfl⟩
  refine ⟨row, s', _, ?_, hrow, hdone⟩
  have hread : readBack id s' = (some (.ok row), s') := by
    unfold readBack
    rw [look_bind, hrow]
    rfl
  have hrequire : requireItem id s = (some (.ok item), s) := by
    unfold requireItem
    rw [look_bind, hitem]
    rfl
  unfold claim
  rw [bind_of_ok (ofExcept_of_ok hactor s), bind_of_ok hrequire,
    bind_of_ok (stampNow_of_parses hnow s), bind_of_ok hw₁, setIfGiven_eq, bind_of_ok hw₂,
    bind_of_ok hw₃, look_bind, h₃.parentsOf_eq, bind_of_ok hwalk]
  exact hread

/-- **What a claim does**, read off the plan. -/
theorem claimed_of_changed {s s' : Store} {n : Nat} {id : String} {item : ItemRow}
    (hitem : liveItem s.file.views id = some item) (assignee : Option String) {all : List String}
    (hmem : ∀ x, x ∈ all ↔ ReflTransGen (Visit.Next (upwards s.file.views)) id x)
    (h : Changed n (flipPlan (startPlan id assignee item.closedAt) s.file.views id all) s s') :
    Claimed s s' id assignee := by
  have hlive : (liveItem s.file.views id).isSome = true := by
    rw [hitem]
    rfl
  have hother {x : String} (hx : x ≠ id) (f : String) :
      flipPlan (startPlan id assignee item.closedAt) s.file.views id all x f =
        if f = "status" ∧ x ∈ all ∧ flips s.file.views id x = true then
          some (some "in_progress") else none := by
    unfold flipPlan
    rw [startPlan_other hx]
  -- an open item is flipped exactly where it is reached through live items
  have hflips {x : String} (hx : x ≠ id) {i : ItemRow} (hi : getItem s.file.views x = some i) :
      (x ∈ all ∧ flips s.file.views id x = true) ↔
        (i.status = some "open" ∧ TransGen (LiveParent s.file.views) id x) := by
    have hflip : flips s.file.views id x = true ↔
        (liveItem s.file.views x).isSome = true ∧ i.status = some "open" := by
      unfold flips liveItem
      rw [hi, Option.filter_some]
      split_ifs with hl <;> simp [hx]
    rw [hflip, hmem]
    constructor
    · rintro ⟨hreach, hxlive, hopen⟩
      refine ⟨hopen, ?_⟩
      rcases (reflTransGen_iff_eq_or_transGen).mp ((reaches_iff hxlive hlive).mp hreach) with
        heq | hway
      · exact absurd heq hx
      · exact hway
    · rintro ⟨hopen, hway⟩
      obtain ⟨_, _, hlast⟩ := TransGen.tail'_iff.mp hway
      exact ⟨(reaches_iff hlast.2 hlive).mpr hway.to_reflTransGen, hlast.2, hopen⟩
  refine ⟨fun item' hitem' hpin => ?_, fun x i hx hi hopen hway hpin => ?_, fun x hx hnot => ?_,
    h.scans, h.order⟩
  · rw [hitem, Option.some.injEq] at hitem'
    subst hitem'
    have hplan : flipPlan (startPlan id assignee item.closedAt) s.file.views id all id =
        startPlan id assignee item.closedAt id := by
      funext f
      unfold flipPlan
      rw [if_neg]
      simp [flips]
    rw [h.getItem_eq, liveItem_eq_some hitem, Option.map_some, hplan, written_startPlan]
    intro f v hf
    rw [hplan] at hf
    exact hpin f (startPlan_field hf)
  · have hflip := (hflips hx hi).mpr ⟨hopen, hway⟩
    rw [h.getItem_eq, hi, Option.map_some]
    · simp [ItemRow.written, hother hx, hflip]
    · intro f v hf
      rw [hother hx] at hf
      split_ifs at hf with hstatus
      rw [hstatus.1]
      exact hpin
  · cases hi : getItem s.file.views x with
    | none =>
      rw [getItem_eq_none] at hi ⊢
      exact h.absent x hi
    | some i =>
      have hnone (f : String) :
          flipPlan (startPlan id assignee item.closedAt) s.file.views id all x f = none := by
        rw [hother hx, if_neg]
        rintro ⟨_, hflip⟩
        obtain ⟨hopen, hway⟩ := (hflips hx hi).mp hflip
        exact hnot i hi hopen hway
      rw [h.getItem_eq, hi, Option.map_some]
      · simp [ItemRow.written, hnone]
      · intro f v hf
        rw [hnone f] at hf
        cases hf

/-- **A claim reaches exactly the live ancestors**, on every store a run of local writes and merges
leads to whose log has room for the writes: it terminates, the item is in progress, and so is each
open item it reaches over present parent edges through live items, where no received op pins the
status. Nothing else changes. -/
theorem claim_reaches_live_ancestors {site : Int} {key : ReplicaKey} {ulids : Nat → String}
    (hulids : Ulids ulids) {s : Store}
    (hrun : ReflTransGen MergeStep (freshStore site key ulids) s)
    (hroom : 2 * s.file.ops.length + 3 ≤ roomyLog) {now actor id author : String}
    (hactor : Validate.actor actor = .ok author)
    (hlive : (liveItem s.file.views id).isSome = true) (assignee : Option String) :
    ∃ bound, ∀ env : Env, bound ≤ env.fuel → env.calendar.parses now = true →
      ∃ row s', claim env now actor id assignee s = (some (.ok row), s') ∧
        getItem s'.file.views id = some row ∧ Claimed s s' id assignee := by
  have hs := merging_run hulids hrun (by omega)
  obtain ⟨item, hitem⟩ := Option.isSome_iff_exists.mp hlive
  have hpush (todo new : List String) : (new.reverse ++ todo).Perm (new ++ todo) :=
    (List.reverse_perm new).append_right todo
  have hup : upwards s.file.views id = parentsOf s.file.views id := by
    unfold upwards
    rw [if_pos hlive]
  have hinv := (Visit.Inv.start (upwards s.file.views) [id]).expand hpush (List.not_mem_nil)
  rw [hup, List.append_nil] at hinv
  refine ⟨(parentsOf s.file.views id).reverse.length + Visit.ahead (upwards s.file.views)
    (edgeChildren s.file.views) [id], fun env hfuel hnow => ?_⟩
  have hsupport (x : String) (hx : x ∉ edgeChildren s.file.views) :
      upwards s.file.views x = [] := upwards_eq_nil hx
  obtain ⟨all, hvisit, _, hmem⟩ := hinv.visit hpush hsupport hfuel
  obtain ⟨row, s', n, hclaim, hrow, hchanged⟩ :=
    claim_run hs hroom hactor hitem assignee hnow hvisit
  refine ⟨row, s', hclaim, hrow, claimed_of_changed hitem assignee (fun x => ?_) hchanged⟩
  rw [hmem]
  simp

/-- A status received from elsewhere. -/
def statusOp (opId id status : String) (lamport : Int) : Op :=
  ⟨opId, lamport, 9, domainTask, "item", id, "status", "set", some status, "mallory", "", none, none⟩

/-- A task and its parent, both open. -/
def openFamily : List Op :=
  [statusOp "01A" "aaaa.1" "open" 5, statusOp "01B" "aaaa.2" "open" 6,
    ⟨"01C", 7, 9, domainTask, "edge", joinChar sep ["aaaa.1", "aaaa.2", "parent"], "present", "add",
      none, "mallory", "", none, none⟩]

/-- A claim of the task. -/
theorem claim_reaches_live_ancestors_family :
    let s := ((freshStore 1 silentKey (letterIds 'p')).apply openFamily).2
    ∃ bound, ∀ env : Env, bound ≤ env.fuel → env.calendar.parses "2026-11-02" = true →
      ∃ row s', claim env "2026-11-02" "bob" "aaaa.1" none s = (some (.ok row), s') ∧
        getItem s'.file.views "aaaa.1" = some row ∧ Claimed s s' "aaaa.1" none := by
  have hids : openFamily.all fun op => op.opId.toList.any (· != 'p') := by decide
  have hactor : Validate.actor "bob" = .ok "bob" := by decide
  refine claim_reaches_live_ancestors (ulids_letterIds (c := 'p') (by decide))
    (.single (.received openFamily fun op hop n _ => ?_)) (by decide) hactor
    (by decide) none
  exact ne_letterIds (List.all_eq_true.mp hids op hop) n

/-- An item whose status was received at the highest number a fold takes. -/
def pinnedStore : Store :=
  ((freshStore 1 silentKey (letterIds 'p')).apply [statusOp "01A" "aaaa.1" "open" maxLamport]).2

/-- Claimed, it stays open. -/
theorem claim_leaves_pinned_open :
    ReflTransGen MergeStep (freshStore 1 silentKey (letterIds 'p')) pinnedStore ∧
      (liveItem pinnedStore.file.views "aaaa.1").isSome = true ∧
      ((claim ⟨⟨fun _ => true, some⟩, 9, true, toString⟩ "2026-11-02" "bob" "aaaa.1" none
        pinnedStore).1.bind Except.toOption).map ItemRow.status = some (some "open") := by
  refine ⟨.single (.received _ fun op hop n _ => ?_), by decide, by decide⟩
  rw [List.mem_singleton.mp hop]
  exact ne_letterIds (by decide) n

end NexusFlow.Facade
