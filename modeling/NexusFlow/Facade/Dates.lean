import NexusFlow.Core.LanesPartition
import NexusFlow.Facade.Reads
import NexusFlow.Lib.Rfc3339

/-!
# Dates compared as text

Model of the orders over date fields (`crates/facade/src/read.rs:2772-2898`), the `closed` lane
(`read.rs:1079-1089`) and `recap` (`read.rs:1128-1161`); the lanes' deferral test is `Core/Graph`'s.
All four compare the stored texts, which `validate::iso_date` accepts in every RFC 3339 spelling and
stores unchanged (`validate.rs:25-36`).

* `closed_sorted`, `recap_sorted`: both lists stand by close text, latest first.
* `datesCompare_iff`: lanes, lists and floor follow the instants of the timestamps of a set of
  spellings exactly when it holds at most one.
-/

namespace NexusFlow.Facade

open NexusFlow.Core NexusFlow.Core.Graph NexusFlow.Foundation NexusFlow.Lib
open NexusFlow.Lib.Rfc3339 (Stamp Spelling)

/-! ## Orders over date fields -/

/-- `Dir`. -/
inductive Dir
  | asc
  | desc
  deriving DecidableEq, Repr

/-- Two date fields: missing ones last, in either direction. -/
def fieldCmp (dir : Dir) : Option String → Option String → Ordering
  | some x, some y => match dir with
    | .asc => compare x y
    | .desc => (compare x y).swap
  | none, none => .eq
  | none, some _ => .gt
  | some _, none => .lt

/-- `date_cmp`: the id decides between equal dates. -/
def dateCmp (field : ItemRow → Option String) (dir : Dir) (a b : ItemRow) : Ordering :=
  (fieldCmp dir (field a) (field b)).then (compare a.id b.id)

/-- `SortKey`, without `rank`. -/
inductive RowKey
  | id
  | defer
  | closed
  | archived
  deriving DecidableEq, Repr

/-- `row_cmp`. -/
def rowCmp (key : RowKey) (a b : ItemRow) : Ordering :=
  match key with
  | .id => compare a.id b.id
  | .defer => dateCmp ItemRow.deferUntil .asc a b
  | .closed => dateCmp ItemRow.closedAt .desc a b
  | .archived => dateCmp ItemRow.archived .desc a b

/-- `order_by`, by one of these keys. -/
def orderBy (key : RowKey) (items : List ItemRow) : List ItemRow :=
  items.insertionSort fun a b => rowCmp key a b ≠ .gt

/-- `closed`, in its default order. -/
def closed (db : Db) : List ItemRow :=
  orderBy .closed ((listItems db).filter fun i =>
    i.deleted != some "1" && i.archived.isNone && i.status == some "closed")

/-- The rows `recap` takes: closed ones at or above the floor. -/
def recapRows (db : Db) (since : Option String) : List ItemRow :=
  (listItems db).filter fun i => i.deleted != some "1" && i.status == some "closed" &&
    since.all fun floor => i.closedAt.any fun c => decide (floor ≤ c)

/-- `recap`. -/
def recap (cal : Calendar) (db : Db) (limit : Option ℕ) (since : Option String) :
    Result (List ItemRow) := do
  if let some floor := since then
    let _ ← Validate.isoDate cal floor
  let items := orderBy .closed (recapRows db since)
  return match limit with
    | some n => items.take n
    | none => items

/-! ## The order of close texts -/

/-- A row's place in the `closed` order. -/
def closedKey (i : ItemRow) : Bool ×ₗ (Stringᵒᵈ ×ₗ String) :=
  toLex (i.closedAt.isNone, toLex (OrderDual.toDual (i.closedAt.getD ""), i.id))

theorem then_compare_ne_gt {o : Ordering} {a b : String} :
    o.then (compare a b) ≠ .gt ↔ o = .lt ∨ o = .eq ∧ a ≤ b := by
  have h : compare a b ≠ .gt ↔ a ≤ b := by
    rw [ne_eq, compare_gt_iff_gt, not_lt]
  cases o with
  | lt => simp [Ordering.then]
  | eq => simpa [Ordering.then] using h
  | gt => simp [Ordering.then]

/-- Rows in the `closed` order. -/
theorem rowCmp_closed {a b : ItemRow} :
    rowCmp .closed a b ≠ .gt ↔ closedKey a ≤ closedKey b := by
  change (fieldCmp .desc a.closedAt b.closedAt).then (compare a.id b.id) ≠ .gt ↔ _
  rw [then_compare_ne_gt]
  unfold closedKey
  rw [Prod.Lex.toLex_le_toLex, Prod.Lex.toLex_le_toLex]
  cases a.closedAt with
  | none =>
    cases b.closedAt with
    | none => simp [fieldCmp]
    | some y => simp [fieldCmp]
  | some x =>
    cases b.closedAt with
    | none => simp [fieldCmp]
    | some y =>
      have hswap : (compare x y).swap = .lt ↔ y < x := by
        rw [Ordering.swap_eq_lt, compare_gt_iff_gt]
      have heq : (compare x y).swap = .eq ↔ y = x := by
        rw [Ordering.swap_eq_eq, compare_eq_iff_eq, eq_comm]
      simp only [fieldCmp, hswap, heq, Option.isNone_some, lt_self_iff_false, false_or, true_and,
        Option.getD_some, OrderDual.toDual_lt_toDual, OrderDual.toDual_inj]
      tauto

/-- **Ordered lists** stand by their place in the order. -/
theorem orderBy_sorted (items : List ItemRow) :
    (orderBy .closed items).Pairwise fun a b => closedKey a ≤ closedKey b := by
  have htotal : Std.Total fun a b : ItemRow => rowCmp .closed a b ≠ .gt :=
    ⟨fun a b => by
      rw [rowCmp_closed, rowCmp_closed]
      exact le_total _ _⟩
  have htrans : IsTrans ItemRow fun a b => rowCmp .closed a b ≠ .gt :=
    ⟨fun a b c => by
      rw [rowCmp_closed, rowCmp_closed, rowCmp_closed]
      exact le_trans⟩
  exact (List.pairwise_insertionSort _ items).imp fun h => rowCmp_closed.mp h

/-- In such a list a later close text stands first. -/
theorem sublist_of_sorted {l : List ItemRow} (hl : l.Pairwise fun a b => closedKey a ≤ closedKey b)
    {a b : ItemRow} (ha : a ∈ l) (hb : b ∈ l) {x y : String} (hx : a.closedAt = some x)
    (hy : b.closedAt = some y) (hlt : y < x) : [a, b].Sublist l := by
  have hkey : ¬ closedKey b ≤ closedKey a := by
    unfold closedKey
    rw [Prod.Lex.toLex_le_toLex, Prod.Lex.toLex_le_toLex, hx, hy]
    simp [hlt.not_gt, hlt.ne]
  induction l with
  | nil => cases ha
  | cons c l ih =>
    obtain ⟨hc, hl⟩ := List.pairwise_cons.mp hl
    rcases List.mem_cons.mp ha with rfl | ha'
    · rcases List.mem_cons.mp hb with rfl | hb'
      · exact absurd le_rfl hkey
      · exact (List.singleton_sublist.mpr hb').cons_cons a
    · rcases List.mem_cons.mp hb with rfl | hb'
      · exact absurd (hc a ha') hkey
      · exact (ih hl ha' hb').cons c

theorem mem_orderBy {key : RowKey} {items : List ItemRow} {i : ItemRow} :
    i ∈ orderBy key items ↔ i ∈ items :=
  (List.perm_insertionSort _ items).mem_iff

/-- What `recap` answers. -/
theorem recap_ok {cal : Calendar} {db : Db} {limit : Option ℕ} {since : Option String}
    {rows : List ItemRow} (h : recap cal db limit since = .ok rows) :
    rows = limit.elim (orderBy .closed (recapRows db since))
      fun n => (orderBy .closed (recapRows db since)).take n := by
  unfold recap at h
  cases since with
  | none =>
    cases limit <;> exact (Except.ok.inj h).symm
  | some floor =>
    obtain ⟨_, _, h⟩ := bind_ok h
    cases limit <;> exact (Except.ok.inj h).symm

theorem closed_sorted (db : Db) : (closed db).Pairwise fun a b => closedKey a ≤ closedKey b :=
  orderBy_sorted _

theorem recap_sorted {cal : Calendar} {db : Db} {limit : Option ℕ} {since : Option String}
    {rows : List ItemRow} (h : recap cal db limit since = .ok rows) :
    rows.Pairwise fun a b => closedKey a ≤ closedKey b := by
  rw [recap_ok h]
  cases limit with
  | none => exact orderBy_sorted _
  | some n => exact (orderBy_sorted _).sublist (List.take_sublist _ _)

/-! ## Instants -/

/-- **Dates compare as instants**, of timestamps in these spellings: the test the lanes ask of a
ticket and the `deferred` lane with it, the order of `closed` and of `recap`, and the floor of
`recap`. -/
structure DatesCompare (spellings : Set Spelling) : Prop where
  deferral : ∀ d now : Stamp, d.spelling ∈ spellings → now.spelling ∈ spellings →
    ∀ t : Ticket, t.deferUntil = some d.text →
      (Board.deferredAt now.text t = true ↔ now.instant < d.instant)
  lane : ∀ d now : Stamp, d.spelling ∈ spellings → now.spelling ∈ spellings →
    ∀ tickets edges lanes, (Board.new tickets edges).lanes now.text = some lanes →
      ∀ t ∈ (Board.new tickets edges).tickets, t.inProgress = false → t.id ∉ lanes.blocked →
        t.deferUntil = some d.text → (t.id ∈ lanes.deferred ↔ now.instant < d.instant)
  closedOrder : ∀ x y : Stamp, x.spelling ∈ spellings → y.spelling ∈ spellings →
    ∀ db, ∀ a ∈ closed db, ∀ b ∈ closed db, a.closedAt = some x.text → b.closedAt = some y.text →
      y.instant < x.instant → [a, b].Sublist (closed db)
  recapOrder : ∀ x y : Stamp, x.spelling ∈ spellings → y.spelling ∈ spellings →
    ∀ cal db limit since rows, recap cal db limit since = .ok rows →
      ∀ a ∈ rows, ∀ b ∈ rows, a.closedAt = some x.text → b.closedAt = some y.text →
        y.instant < x.instant → [a, b].Sublist rows
  recapFloor : ∀ x floor : Stamp, x.spelling ∈ spellings → floor.spelling ∈ spellings →
    ∀ cal db all rows, recap cal db none none = .ok all →
      recap cal db none (some floor.text) = .ok rows →
      ∀ a ∈ all, a.closedAt = some x.text → (a ∈ rows ↔ floor.instant ≤ x.instant)

/-- **Text order is the order of instants in one spelling only.** The lanes, `closed` and `recap`
follow the instants of the timestamps in a set of spellings exactly when the set holds at most one:
one character between date and time, one number of fraction digits, one zone as written. -/
theorem datesCompare_iff (spellings : Set Spelling) :
    DatesCompare spellings ↔ spellings.Subsingleton := by
  rw [← Rfc3339.text_law_iff]
  have hdeferred : ∀ (d now : Stamp) (t : Ticket), t.deferUntil = some d.text →
      (Board.deferredAt now.text t = true ↔ now.text < d.text) := by
    intro d now t ht
    unfold Board.deferredAt
    rw [ht]
    simp
  constructor
  · intro h now d hnow hd
    rw [← h.deferral d now hd hnow ⟨"t", false, some d.text⟩ rfl, hdeferred d now _ rfl]
  · intro h
    refine ⟨fun d now hd hnow t ht => ?_, ?_, ?_, ?_, ?_⟩
    · rw [hdeferred d now t ht]
      exact h now d hnow hd
    · intro d now hd hnow tickets edges lanes hlanes t ht hopen hblocked hdefer
      obtain ⟨cyclic, under, below, _, _, _, hassemble⟩ :=
        (Board.new tickets edges).exists_lanes now.text
      rw [hassemble] at hlanes
      cases hlanes
      rw [Board.mem_blocked] at hblocked
      rw [Board.mem_deferred, Board.id_mem_deferredIds ht, hdeferred d now t hdefer,
        and_iff_right hopen, and_iff_right hblocked]
      exact h now d hnow hd
    · intro x y hx hy db a ha b hb hax hby hlt
      exact sublist_of_sorted (closed_sorted db) ha hb hax hby ((h y x hy hx).mpr hlt)
    · intro x y hx hy cal db limit since rows hrows a ha b hb hax hby hlt
      exact sublist_of_sorted (recap_sorted hrows) ha hb hax hby ((h y x hy hx).mpr hlt)
    · intro x floor hx hfloor cal db all rows hall hrows a ha hax
      rw [recap_ok hall, Option.elim_none, mem_orderBy] at ha
      rw [recap_ok hrows, Option.elim_none, mem_orderBy]
      unfold recapRows at ha ⊢
      obtain ⟨hlist, hstatus⟩ := List.mem_filter.mp ha
      rw [Option.all_none, Bool.and_true] at hstatus
      rw [List.mem_filter, and_iff_right hlist, hstatus, Bool.true_and, hax, Option.all_some,
        Option.any_some, decide_eq_true_eq, ← not_lt, ← not_lt, h x floor hx hfloor]

/-- A second of a summer noon, in UTC, with these fraction digits. -/
def noon (fraction : List (Fin 10)) : Stamp where
  civil := Rfc3339.summerNoon 0
  fraction := fraction
  zone := .utc
  separator := 'T'

/-- Half a second before its defer instant a ticket is not deferred: the point sorts before `Z`. -/
theorem half_second_not_deferred :
    (noon []).text = "2026-06-09T12:00:00Z" ∧ (noon [5]).text = "2026-06-09T12:00:00.5Z" ∧
    (noon []).instant < (noon [5]).instant ∧
    Board.deferredAt (noon []).text ⟨"t", false, some (noon [5]).text⟩ = false ∧
    ¬ DatesCompare Set.univ := by
  have htrimmed : Rfc3339.Trimmed [5] := fun d hd => by
    rw [← Option.some.inj hd]
    decide
  have hinstant : (noon []).instant < (noon [5]).instant := by
    refine (Rfc3339.Stamp.instant_lt_iff _ _).mpr (.inr ⟨rfl, ?_⟩)
    exact (Rfc3339.seconds_lt_iff _ _).mpr
      (.inr ⟨rfl, Rfc3339.decimal_pos htrimmed (List.cons_ne_nil _ _)⟩)
  have hdeferred : Board.deferredAt (noon []).text ⟨"t", false, some (noon [5]).text⟩ = false := by
    decide
  refine ⟨by decide, by decide, hinstant, hdeferred, fun h => ?_⟩
  have := (h.deferral (noon [5]) (noon []) (Set.mem_univ _) (Set.mem_univ _)
    ⟨"t", false, some (noon [5]).text⟩ rfl).mpr hinstant
  rw [hdeferred] at this
  cases this

end NexusFlow.Facade
