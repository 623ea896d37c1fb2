import NexusFlow.Chat.HandOver
import NexusFlow.Lib.Rfc3339

/-!
# When a lease ends

The statements of `crates/chat/src/working_tree.rs` compare instants as text. Every instant goes
through `to_utc_rfc3339` first (`working_tree.rs:319-327`): one zone, but not one precision, since
the time library writes a fraction without its trailing zeros.

The library is a parameter: `parse` gives the UTC timestamp of a text, as the library formats it
(`Canonical`), or none.

* `stored_of_reached`: every instant in the tables is such a timestamp's text.
* `lease_ends_at_instant_iff`: a lease ends at its instant, and the queue stands in the order of
  instants, exactly where no two timestamps of one second are compared of which one goes on where
  the other ends.
-/

namespace NexusFlow.Chat

open Relation NexusFlow.Lib
open NexusFlow.Lib.Rfc3339 (Stamp Canonical SameSecond text_law_canonical)

/-! ## Instants as stored -/

/-- A timestamp as the time library formats it in UTC. -/
abbrev UtcStamp : Type := { x : Stamp // Canonical x }

/-- `to_utc_rfc3339`, over what the library reads. -/
def toUtcRfc3339 (parse : String → Option UtcStamp) (instant : String) : Option String :=
  (parse instant).map fun x => x.1.text

/-- The text is of a timestamp as the library formats it. -/
def IsUtc (text : String) : Prop := ∃ x : Stamp, Canonical x ∧ x.text = text

/-- Every instant the tables compare was formatted by the library. -/
structure Stored (t : WorkingTree) : Prop where
  expires : ∀ row, t.lease = some row → IsUtc row.expires
  enqueued : ∀ q ∈ t.queue, ∃ text, q.enqueuedAt = some text ∧ IsUtc text

section Stored

variable {parse : String → Option UtcStamp} {t : WorkingTree}

theorem isUtc_of_toUtc {instant text : String} (h : toUtcRfc3339 parse instant = some text) :
    IsUtc text := by
  obtain ⟨x, _, rfl⟩ := Option.map_eq_some_iff.mp h
  exact ⟨x.1, x.2, rfl⟩

theorem Stored.handOver (h : Stored t) {outgoing now grantedExpires : String}
    (hgranted : IsUtc grantedExpires) :
    Stored (handTheWorkingTreeOn t outgoing now grantedExpires).2 := by
  refine ⟨fun row hrow => ?_, fun q hq => h.enqueued q ?_⟩
  · obtain ⟨head, _, rfl⟩ := Option.map_eq_some_iff.mp hrow
    exact hgranted
  · exact (handTheWorkingTreeOn_perm t outgoing now grantedExpires).subset
      (List.mem_append_right _ hq)

theorem Stored.acquire (h : Stored t) {scope : WorkScope} {now expires : String}
    {answer : Bool × WorkingTree}
    (ha : acquireWorkingTree (toUtcRfc3339 parse) t scope now expires = some answer) :
    Stored answer.2 := by
  obtain ⟨now', expires', _, hexpires, hcase⟩ := acquireWorkingTree_cases ha
  have hutc := isUtc_of_toUtc hexpires
  cases hcase with
  | fresh _ => exact ⟨fun row hrow => by cases hrow; exact hutc, h.enqueued⟩
  | inherited _ _ => exact ⟨fun row hrow => by cases hrow; exact hutc, h.enqueued⟩
  | reclaimed _ _ _ => exact ⟨fun row hrow => by cases hrow; exact hutc, h.enqueued⟩
  | refused _ _ _ => exact h

theorem Stored.enqueue (h : Stored t) {entry : QueuedTrigger} {now : String}
    {answer : ℤ × WorkingTree}
    (ha : enqueueWorkingTree (toUtcRfc3339 parse) t entry now = some answer) :
    Stored answer.2 := by
  obtain ⟨enqueuedAt, hat, rfl⟩ := enqueueWorkingTree_spec ha
  refine ⟨h.expires, fun q hq => ?_⟩
  rcases List.mem_append.mp hq with hq | hq
  · exact h.enqueued q hq
  · rw [List.mem_singleton.mp hq]
    exact ⟨enqueuedAt, rfl, isUtc_of_toUtc hat⟩

theorem Stored.release (h : Stored t) {scope : WorkScope} {now grantedExpires : String}
    {answer : List QueuedTrigger × WorkingTree}
    (ha : releaseWorkingTreeAndTakeNext (toUtcRfc3339 parse) t scope now grantedExpires =
      some answer) : Stored answer.2 := by
  simp only [releaseWorkingTreeAndTakeNext, bind, Option.bind_eq_some_iff] at ha
  obtain ⟨now', _, granted', hgranted, ha⟩ := ha
  split_ifs at ha <;> cases ha
  · exact h.handOver (isUtc_of_toUtc hgranted)
  · exact h

theorem Stored.reclaim (h : Stored t) {why : WhyTheLeaseIsForfeit}
    {holderKey holderExpires now grantedExpires : String}
    {answer : List QueuedTrigger × WorkingTree}
    (ha : reclaimAForfeitLeaseAndTakeNext (toUtcRfc3339 parse) t holderKey holderExpires now
      grantedExpires why = some answer) : Stored answer.2 := by
  simp only [reclaimAForfeitLeaseAndTakeNext, bind, Option.bind_eq_some_iff] at ha
  obtain ⟨now', _, granted', hgranted, ha⟩ := ha
  split_ifs at ha <;> cases ha
  · exact h.handOver (isUtc_of_toUtc hgranted)
  · exact h

/-- A call keeps every stored instant a formatted one. -/
theorem Stored.call {ι : Type} {d : Device ι} (h : Stored d.tree) (caller : ι) (call : Call) :
    Stored (d.call (toUtcRfc3339 parse) caller call).tree := by
  have hand : ∀ {outgoing deletes} {o : Option (List QueuedTrigger × WorkingTree)},
      (∀ answer, o = some answer → Stored answer.2) →
        Stored (d.handOver caller outgoing deletes o).tree := by
    intro outgoing deletes o ho
    cases o with
    | none => exact h
    | some answer => exact ho answer rfl
  cases call with
  | acquire scope now expires =>
    change Stored (d.acquire caller scope _).tree
    cases ha : acquireWorkingTree (toUtcRfc3339 parse) d.tree scope now expires with
    | none => exact h
    | some answer => exact h.acquire ha
  | enqueue entry now =>
    change Stored (d.enqueue _).tree
    cases ha : enqueueWorkingTree (toUtcRfc3339 parse) d.tree entry now with
    | none => exact h
    | some answer => exact h.enqueue ha
  | release scope now grantedExpires => exact hand fun _ ha => h.release ha
  | reclaimExpired holderKey holderExpires now grantedExpires => exact hand fun _ ha => h.reclaim ha
  | reclaimDead holderKey holderExpires now grantedExpires => exact hand fun _ ha => h.reclaim ha
  | remove id => exact ⟨h.expires, fun q hq => h.enqueued q (List.mem_of_mem_filter hq)⟩
  | take =>
    change Stored (takeWorkingTreeQueue d.tree).2
    unfold takeWorkingTreeQueue
    cases d.tree.queue.argmin queueOrderKey with
    | none => exact h
    | some head => exact ⟨h.expires, fun q hq => h.enqueued q (List.mem_of_mem_filter hq)⟩

/-- **In every run** each stored instant was formatted by the library. -/
theorem stored_of_reached {ι : Type} {d : Device ι}
    (hd : ReflTransGen (Device.Step (toUtcRfc3339 parse)) Device.start d) : Stored d.tree := by
  induction hd with
  | refl =>
    exact ⟨fun _ h => absurd h (Option.some_ne_none _).symm, fun _ h => absurd h List.not_mem_nil⟩
  | tail _ hstep ih =>
    obtain ⟨caller, call, rfl⟩ := hstep
    exact ih.call caller call

end Stored

/-! ## The end of a lease -/

/-- What the calls make of a lease at `now`, where `later` says that its end is later: nobody takes
it, and its holder is named. -/
structure EndsAt (toUtc : String → Option String) (t : WorkingTree) (row : Lease) (now : String)
    (later : Prop) : Prop where
  acquire : ∀ scope : WorkScope, scope.key ≠ row.scopeKey → ∀ expires t',
    acquireWorkingTree toUtc t scope now expires = some (true, t') → ¬ later
  reclaim : ∀ holderKey holderExpires grantedExpires answer,
    reclaimExpiredWorkingTreeAndTakeNext toUtc t holderKey holderExpires now grantedExpires =
      some answer → answer ≠ ([], t) → ¬ later
  holder : workingTreeHolder toUtc t now = some (some row.scopeKey) ↔ later

section Law

variable {toUtc : String → Option String} {t : WorkingTree} {row : Lease} {now at' : String}

theorem workingTreeHolder_iff (hrow : t.lease = some row) (hnow : toUtc now = some at') :
    workingTreeHolder toUtc t now = some (some row.scopeKey) ↔ at' < row.expires := by
  unfold workingTreeHolder
  rw [hnow, hrow]
  change some (((some row).filter fun row => decide (at' < row.expires)).map Lease.scopeKey) =
    some (some row.scopeKey) ↔ _
  by_cases h : at' < row.expires
  · rw [Option.filter_some_pos (by simpa using h)]
    simp [h]
  · rw [Option.filter_some_neg (by simpa using h)]
    simp [h]

/-- **The calls go by text**: with the text order of `now` and the expiry all three are settled. -/
theorem endsAt_iff {later : Prop} (hrow : t.lease = some row) (hnow : toUtc now = some at') :
    EndsAt toUtc t row now later ↔ (at' < row.expires ↔ later) := by
  constructor
  · intro h
    rw [← workingTreeHolder_iff hrow hnow]
    exact h.holder
  · intro h
    refine ⟨fun scope hother expires t' ha => ?_,
      fun holderKey holderExpires granted answer ha hne => ?_,
      (workingTreeHolder_iff hrow hnow).trans h⟩
    · obtain ⟨now', expires', hnow', _, hcase⟩ := acquireWorkingTree_cases ha
      obtain rfl : at' = now' := Option.some.inj (hnow.symm.trans hnow')
      cases hcase with
      | fresh hfree =>
        rw [hrow] at hfree
        cases hfree
      | inherited hrow' hsame =>
        rw [hrow] at hrow'
        cases hrow'
        exact absurd hsame.symm hother
      | reclaimed hrow' _ hexp =>
        rw [hrow] at hrow'
        cases hrow'
        exact fun hlater => absurd (h.mpr hlater) (not_lt.mpr hexp)
    · simp only [reclaimExpiredWorkingTreeAndTakeNext, reclaimAForfeitLeaseAndTakeNext, bind,
        Option.bind_eq_some_iff] at ha
      obtain ⟨now', hnow', granted', _, ha⟩ := ha
      obtain rfl : at' = now' := Option.some.inj (hnow.symm.trans hnow')
      split_ifs at ha with hnames
      · rw [hrow] at hnames
        simp only [Option.any_some, WhyTheLeaseIsForfeit.names, Bool.and_eq_true,
          decide_eq_true_eq] at hnames
        exact fun hlater => absurd (h.mpr hlater) (not_lt.mpr hnames.2)
      · exact absurd (Option.some.inj ha).symm hne

end Law

/-! ## The order of the queue -/

/-- The entry goes before the other wherever both are queued: it is not the other whose claim area
is taken next, and of one area it is handed out first. -/
def GoesFirst (a b : QueuedTrigger) : Prop :=
  ∀ outgoing queue, a ∈ queue → (a.scopeKey = outgoing ↔ b.scopeKey = outgoing) →
    ¬ Next outgoing queue b ∧ ¬ [b, a].Sublist (takeQueueScope outgoing queue).1

/-- **The queue goes by its keys.** -/
theorem goesFirst_iff {a b : QueuedTrigger} :
    GoesFirst a b ↔ queueOrderKey a < queueOrderKey b := by
  constructor
  · intro h
    by_contra hle
    have hle := not_lt.mp hle
    by_cases hsame : a.scopeKey = b.scopeKey
    · -- both of the outgoing area: the other is next
      refine (h a.scopeKey [a, b] List.mem_cons_self (iff_of_true rfl hsame.symm)).1
        ⟨List.mem_cons_of_mem _ List.mem_cons_self, .inr ⟨?_, ?_⟩⟩
      · simp [hsame]
      · simp [hle]
    · obtain ⟨outgoing, ha, hb⟩ : ∃ outgoing, a.scopeKey ≠ outgoing ∧ b.scopeKey ≠ outgoing := by
        refine ⟨a.scopeKey ++ (b.scopeKey ++ "+"), fun heq => ?_, fun heq => ?_⟩ <;>
          have hlen := congrArg String.length heq <;>
          simp only [String.length_append, show "+".length = 1 from rfl] at hlen <;> omega
      refine (h outgoing [a, b] List.mem_cons_self (iff_of_false ha hb)).1
        ⟨List.mem_cons_of_mem _ List.mem_cons_self, .inl ⟨hb, ?_⟩⟩
      simp [hle]
  · intro hlt outgoing queue ha hclass
    have hnot : ¬ queueOrderKey b ≤ queueOrderKey a := not_le.mpr hlt
    refine ⟨?_, fun hsub => ?_⟩
    · rintro ⟨_, ⟨hb, hmin⟩ | ⟨_, hmin⟩⟩
      · exact hnot (hmin a ha fun heq => hb (hclass.mp heq))
      · exact hnot (hmin a ha)
    · rcases takeQueueScope_spec outgoing queue with ⟨rfl, _⟩ | ⟨scope, htook⟩
      · cases ha
      · have hpair := htook.sorted.sublist hsub
        rw [List.pairwise_pair] at hpair
        exact hnot hpair

/-- Of one priority the enqueue text decides, then the id. -/
theorem queueOrderKey_lt_iff {a b : QueuedTrigger} (hpriority : a.priority = b.priority)
    {x y : String} (ha : a.enqueuedAt = some x) (hb : b.enqueuedAt = some y) :
    queueOrderKey a < queueOrderKey b ↔ x < y ∨ x = y ∧ a.id < b.id := by
  unfold queueOrderKey
  rw [Prod.Lex.toLex_lt_toLex, Prod.Lex.toLex_lt_toLex, hpriority, ha, hb]
  simp

/-- The queue stands in the order of two instants when text order does. -/
theorem goesFirst_law {a b : QueuedTrigger} (hpriority : a.priority = b.priority) {x y : Stamp}
    (hx : Canonical x) (hy : Canonical y) (ha : a.enqueuedAt = some x.text)
    (hb : b.enqueuedAt = some y.text) :
    ((x.instant < y.instant → GoesFirst a b) ∧ (y.instant < x.instant → GoesFirst b a)) ↔
      ¬ SameSecond x y := by
  rw [goesFirst_iff, goesFirst_iff, queueOrderKey_lt_iff hpriority ha hb,
    queueOrderKey_lt_iff hpriority.symm hb ha]
  have hxy := text_law_canonical hx hy
  have hyx := text_law_canonical hy hx
  constructor
  · rintro ⟨h1, h2⟩ hsame
    -- neither text order follows the instants
    have hxy := hxy.not.mpr (not_not.mpr hsame)
    have hyx := hyx.not.mpr (not_not.mpr hsame.symm)
    rcases lt_trichotomy x.instant y.instant with hlt | heq | hgt
    · have hback : y.text < x.text := by
        by_contra hno
        exact hyx (iff_of_false hno hlt.not_gt)
      rcases h1 hlt with h | ⟨h, _⟩
      · exact absurd h hback.not_gt
      · exact absurd h hback.ne'
    · have h1 : x.text < y.text := by
        by_contra hno
        exact hxy (iff_of_false hno heq.not_lt)
      have h2 : y.text < x.text := by
        by_contra hno
        exact hyx (iff_of_false hno heq.not_gt)
      exact absurd h1 h2.not_gt
    · have hback : x.text < y.text := by
        by_contra hno
        exact hxy (iff_of_false hno hgt.not_gt)
      rcases h2 hgt with h | ⟨h, _⟩
      · exact absurd h hback.not_gt
      · exact absurd h hback.ne'
  · intro hsame
    exact ⟨fun h => .inl ((hxy.mpr hsame).mpr h),
      fun h => .inl ((hyx.mpr fun h => hsame h.symm).mpr h)⟩

/-! ## At its instant -/

/-- **A lease ends at its instant but within one second.** In every run of the calls each stored
instant is a timestamp the library formatted. The calls take a lease only once its end is no later
than `now`, and name its holder exactly while it is later, unless `now` and the end are of one
second and one of them has further digits; so it is with the order of two entries of one priority. -/
theorem lease_ends_at_instant_iff {ι : Type} (parse : String → Option UtcStamp) {d : Device ι}
    (hd : ReflTransGen (Device.Step (toUtcRfc3339 parse)) Device.start d) :
    Stored d.tree ∧
    (∀ row, d.tree.lease = some row → ∀ e : Stamp, Canonical e → row.expires = e.text →
      ∀ now n, parse now = some n →
        (EndsAt (toUtcRfc3339 parse) d.tree row now (n.1.instant < e.instant) ↔
          ¬ SameSecond n.1 e)) ∧
    ∀ a ∈ d.tree.queue, ∀ b ∈ d.tree.queue, a.priority = b.priority →
      ∀ x y : Stamp, Canonical x → Canonical y → a.enqueuedAt = some x.text →
        b.enqueuedAt = some y.text →
        (((x.instant < y.instant → GoesFirst a b) ∧ (y.instant < x.instant → GoesFirst b a)) ↔
          ¬ SameSecond x y) := by
  refine ⟨stored_of_reached hd, fun row hrow e he hexpires now n hnow => ?_, ?_⟩
  · have hutc : toUtcRfc3339 parse now = some n.1.text := by
      unfold toUtcRfc3339
      rw [hnow, Option.map_some]
    rw [endsAt_iff hrow hutc, hexpires]
    exact text_law_canonical n.2 he
  · exact fun a _ b _ hpriority x y hx hy ha hb => goesFirst_law hpriority hx hy ha hb

/-! ## Half a second early -/

/-- Five seconds past a summer noon, in UTC, with these fraction digits. -/
def fivePast (fraction : List (Fin 10)) (h : Rfc3339.Trimmed fraction) : UtcStamp where
  val := {
    civil := Rfc3339.summerNoon 5
    fraction := fraction
    zone := .utc
    separator := 'T' }
  property := ⟨rfl, rfl, h⟩

theorem trimmed_nil : Rfc3339.Trimmed [] := fun _ h => absurd h (Option.some_ne_none _).symm

theorem trimmed_five : Rfc3339.Trimmed [5] := fun d hd => by
  rw [← Option.some.inj hd]
  decide

/-- What the library reads of two texts. -/
def readFivePast (instant : String) : Option UtcStamp :=
  if instant = "2026-06-09T12:00:05Z" then some (fivePast [] trimmed_nil)
  else if instant = "2026-06-09T12:00:05.5Z" then some (fivePast Rfc3339.half trimmed_five)
  else none

/-- A thread that holds the copy until half a second past the second. -/
def heldUntilHalf : Device Unit :=
  Device.start.call (toUtcRfc3339 readFivePast) ()
    (.acquire (.thread "a") "2026-06-09T12:00:05Z" "2026-06-09T12:00:05.5Z")

/-- Another thread takes the copy half a second early, and nobody is named its holder: the expiry's
point sorts before the `Z` of `now`. -/
theorem taken_half_second_early :
    (fivePast [] trimmed_nil).1.instant < (fivePast [5] trimmed_five).1.instant ∧
    heldUntilHalf.tree.lease = some ⟨"thread:a", "2026-06-09T12:00:05Z", "2026-06-09T12:00:05.5Z",
      none⟩ ∧
    (acquireWorkingTree (toUtcRfc3339 readFivePast) heldUntilHalf.tree (.thread "b")
      "2026-06-09T12:00:05Z" "2026-06-09T12:00:05.5Z").map Prod.fst = some true ∧
    workingTreeHolder (toUtcRfc3339 readFivePast) heldUntilHalf.tree "2026-06-09T12:00:05Z" =
      some none := by
  refine ⟨?_, by decide, by decide, by decide⟩
  refine (Rfc3339.Stamp.instant_lt_iff _ _).mpr (.inr ⟨rfl, ?_⟩)
  exact (Rfc3339.seconds_lt_iff _ _).mpr
    (.inr ⟨rfl, Rfc3339.decimal_pos trimmed_five (List.cons_ne_nil _ _)⟩)

/-- The same device: its lease ends at its instant for each `now` of another second. -/
theorem held_until_half_ends :
    Stored heldUntilHalf.tree ∧
    (∀ row, heldUntilHalf.tree.lease = some row → ∀ e : Stamp, Canonical e → row.expires = e.text →
      ∀ now n, readFivePast now = some n →
        (EndsAt (toUtcRfc3339 readFivePast) heldUntilHalf.tree row now
          (n.1.instant < e.instant) ↔ ¬ SameSecond n.1 e)) ∧
    ∀ a ∈ heldUntilHalf.tree.queue, ∀ b ∈ heldUntilHalf.tree.queue, a.priority = b.priority →
      ∀ x y : Stamp, Canonical x → Canonical y → a.enqueuedAt = some x.text →
        b.enqueuedAt = some y.text →
        (((x.instant < y.instant → GoesFirst a b) ∧ (y.instant < x.instant → GoesFirst b a)) ↔
          ¬ SameSecond x y) :=
  lease_ends_at_instant_iff readFivePast (ReflTransGen.single ⟨(), _, rfl⟩)

end NexusFlow.Chat
