import NexusFlow.Core.NextCache
import NexusFlow.Facade.Reads

/-!
# Paged reads walk one list

Model of `crates/facade/src/read.rs:1613-1818` (`parse_token`, `resume`, `Paging`, `page_through`), the
mechanism behind every paged read (`next`, `list`, `mentioned_by`), over the snapshot table
(`Core/NextCache`). What such a read computes afresh is a parameter (`PagedReads`): `page_through` takes it
as an argument, and a read refused for another reason than its paging is refused there.

`Paged` is any order of answered requests, local writes and merges on one store. A snapshot id is a ULID
that no request had before.
-/

namespace NexusFlow.Facade

open NexusFlow.Core NexusFlow.Foundation

/-! ## Tokens -/

/-- `usize::MAX`. -/
def usizeMax : ℕ := 18446744073709551615

/-- `usize`. -/
abbrev Usize := { n : ℕ // n ≤ usizeMax }

/-- `s.rsplit_once(c)`: around the last occurrence. -/
def rsplitOnce (c : Char) (s : String) : Option (String × String) :=
  match s.toList.reverse.dropWhile (· != c) with
  | [] => none
  | _ :: rest =>
    some (String.ofList rest.reverse, String.ofList (s.toList.reverse.takeWhile (· != c)).reverse)

/-- `s.parse::<usize>().ok()`: decimal digits, at least one, with an optional plus sign. -/
def parseUsize (s : String) : Option ℕ :=
  let digits := if s.toList.head? = some '+' then s.toList.tail else s.toList
  if digits ≠ [] ∧ digits.all Char.isDigit ∧ Nat.ofDigitChars 10 digits 0 ≤ usizeMax then
    some (Nat.ofDigitChars 10 digits 0)
  else none

/-- A page token: `<snapshot id>.<position>`. -/
def pageToken (id : String) (pos : ℕ) : String := id ++ (String.singleton '.' ++ toString pos)

/-- `parse_token`. -/
def parseToken (token : String) : Option (String × ℕ) :=
  (rsplitOnce '.' token).bind fun (id, pos) =>
    if id = "" then none else (parseUsize pos).map fun pos => (id, pos)

theorem rsplitOnce_append {c : Char} {a b : String} (h : hasChar c b = false) :
    rsplitOnce c (a ++ (String.singleton c ++ b)) = some (a, b) := by
  have hb : ∀ x ∈ b.toList.reverse, (x != c) = true := by
    intro x hx
    have hc : c ∉ b.toList := hasChar_eq_false_iff.mp h
    rw [bne_iff_ne]
    rintro rfl
    exact hc (List.mem_reverse.mp hx)
  have hlist : (a ++ (String.singleton c ++ b)).toList.reverse =
      b.toList.reverse ++ c :: a.toList.reverse := by
    simp [String.toList_append]
  unfold rsplitOnce
  rw [hlist, List.dropWhile_append_of_pos hb, List.takeWhile_append_of_pos hb]
  simp

theorem parseUsize_toString {n : ℕ} (h : n ≤ usizeMax) : parseUsize (toString n) = some n := by
  have hdigits : (toString n).toList = Nat.toDigits 10 n := by
    rw [Nat.toString_eq_ofList_toDigits, String.toList_ofList]
  have hdigit : ∀ c ∈ Nat.toDigits 10 n, c.isDigit = true := fun c hc =>
    Nat.isDigit_of_mem_toDigits (by decide) (by decide) hc
  have hplain : (Nat.toDigits 10 n).head? ≠ some '+' := by
    intro hhead
    have := hdigit '+' (List.mem_of_head? hhead)
    exact absurd this (by decide)
  unfold parseUsize
  rw [hdigits, if_neg hplain]
  rw [if_pos ⟨Nat.toDigits_ne_nil, List.all_eq_true.mpr hdigit,
    by rw [Nat.ofDigitChars_ten_toDigits]; exact h⟩, Nat.ofDigitChars_ten_toDigits]

/-- A token names what it was made from. -/
theorem parseToken_pageToken {id : String} {pos : ℕ} (hid : id ≠ "") (h : pos ≤ usizeMax) :
    parseToken (pageToken id pos) = some (id, pos) := by
  have hdot : hasChar '.' (toString pos) = false := by
    rw [hasChar_eq_false_iff, Nat.toString_eq_ofList_toDigits, String.toList_ofList]
    intro hmem
    exact absurd (Nat.isDigit_of_mem_toDigits (by decide) (by decide) hmem) (by decide)
  rw [parseToken, pageToken, rsplitOnce_append hdot, Option.bind_some]
  show (if id = "" then none else _) = _
  rw [if_neg hid, parseUsize_toString h]
  rfl

/-! ## One request -/

/-- `NextPage`. -/
structure NextPage where
  items : List ItemRow
  total : ℕ
  start : ℕ
  nextToken : Option String
  restarted : Bool
  deriving DecidableEq, Repr

/-- `truncate_next`. -/
def truncateNext (items : List ItemRow) (limit : Option Usize) : NextPage where
  items := limit.elim items fun n => items.take n
  total := items.length
  start := 0
  nextToken := none
  restarted := false

/-- The paging half of a request, checked: a page size is never 0. -/
structure Paging where
  limit : Option Usize
  page : Option { n : Usize // 0 < n.1 }
  token : Option String

/-- `Paging::check`. -/
def Paging.check (limit : Option Usize) (paginate : Bool) (token : Option String) :
    Except String Paging :=
  if token.isSome && !paginate then .error "a page token needs paginate"
  else if paginate then
    match limit with
    | none => .error "paginate needs a limit of at least 1"
    | some n =>
      if h : 0 < n.1 then .ok ⟨limit, some ⟨n, h⟩, token⟩
      else .error "paginate needs a limit of at least 1"
  else .ok ⟨limit, none, token⟩

/-- `NEXT_CACHE_TTL_SECS`. -/
def nextCacheTtlSecs : ℤ := 60 * 60

/-- `NEXT_CACHE_MAX_SNAPSHOTS`. -/
def nextCacheMaxSnapshots : ℕ := 64

/-- `NEXT_CACHE_MAX_PER_QUERY`. -/
def nextCacheMaxPerQuery : ℕ := 8

/-- What a paged read sees of a store: the log, its views and the snapshot table. -/
structure Shelf where
  log : List Op
  db : Db
  cache : List CacheRow

/-- `SELECT item_id FROM notes WHERE id = …`. -/
def noteItem (db : Db) (id : String) : Option String :=
  (db.get "notes" [("id", .text id)]).bind fun row => cellText (row "item_id")

/-- `resume`: the snapshot and position a token names, if it still answers. -/
def resume (s : Shelf) (token key : String) (fresh : List ItemRow) (clock : ℤ) :
    Option (CachedResult × ℕ) :=
  (parseToken token).bind fun (id, pos) => (nextCacheGet id s.cache).bind fun snap =>
    if snap.query ≠ key ∨ snap.created < clock - nextCacheTtlSecs ∨ pos = 0 ∨
        snap.ids.length ≤ pos ∨ opsWatermark s.log < snap.watermark ∨
        opAt s.log snap.watermark ≠ snap.watermarkOp then none
    else if (itemsTouchedSince (noteItem s.db) s.log snap.watermark).any (· ∈ snap.ids) then none
    else if (fresh.map ItemRow.id).filter (· ∈ snap.ids) ≠ snap.ids then none
    else some (snap, pos)

/-- The rows of the ids, each handed out once. -/
def rowsOf : List ItemRow → List String → List ItemRow
  | _, [] => []
  | fresh, id :: ids =>
    match fresh.reverse.find? fun i => i.id = id with
    | some i => i :: rowsOf (fresh.filter fun i => i.id ≠ id) ids
    | none => rowsOf fresh ids

theorem mem_of_mem_rowsOf {i : ItemRow} {fresh : List ItemRow} {ids : List String}
    (h : i ∈ rowsOf fresh ids) : i ∈ fresh := by
  induction ids generalizing fresh with
  | nil => cases h
  | cons id ids ih =>
    unfold rowsOf at h
    cases hfind : fresh.reverse.find? fun i => i.id = id with
    | none =>
      rw [hfind] at h
      exact ih h
    | some j =>
      rw [hfind] at h
      rcases List.mem_cons.mp h with rfl | h
      · exact List.mem_reverse.mp (List.mem_of_find?_eq_some hfind)
      · exact List.mem_of_mem_filter (ih h)

/-- Every id of a row is answered with such a row. -/
theorem map_id_rowsOf {fresh : List ItemRow} {ids : List String} (hnodup : ids.Nodup)
    (h : ∀ id ∈ ids, id ∈ fresh.map ItemRow.id) : (rowsOf fresh ids).map ItemRow.id = ids := by
  induction ids generalizing fresh with
  | nil => rfl
  | cons id ids ih =>
    obtain ⟨hnotMem, hids⟩ := List.nodup_cons.mp hnodup
    obtain ⟨hid, hrest⟩ := List.forall_mem_cons.mp h
    unfold rowsOf
    cases hfind : fresh.reverse.find? fun i => i.id = id with
    | none =>
      obtain ⟨i, hi, heq⟩ := List.mem_map.mp hid
      have hne := List.find?_eq_none.mp hfind i (List.mem_reverse.mpr hi)
      simp [heq] at hne
    | some i =>
      have hi : i.id = id := by simpa using List.find?_some hfind
      have htail : ∀ id' ∈ ids, id' ∈ (fresh.filter fun i => i.id ≠ id).map ItemRow.id := by
        intro id' hid'
        obtain ⟨j, hj, rfl⟩ := List.mem_map.mp (hrest id' hid')
        have hne : j.id ≠ id := by
          rintro rfl
          exact hnotMem hid'
        exact List.mem_map_of_mem (List.mem_filter.mpr ⟨hj, by simpa using hne⟩)
      rw [List.map_cons, hi, ih hids htail]

/-- Where a page of a snapshot ends. -/
def pageEnd (pos : ℕ) (n : Usize) (length : ℕ) : ℕ := min (min (pos + n) usizeMax) length

/-- A page cut from a snapshot. -/
def resumedPage (fresh : List ItemRow) (snap : CachedResult) (pos : ℕ) (n : Usize) : NextPage :=
  let stop := pageEnd pos n snap.ids.length
  { items := rowsOf fresh ((snap.ids.take stop).drop pos)
    total := snap.ids.length
    start := pos
    nextToken := if stop < snap.ids.length then some (pageToken snap.id stop) else none
    restarted := false }

/-- A page cut from the fresh list. -/
def firstPage (fresh : List ItemRow) (n : Usize) (id : String) (restarted : Bool) : NextPage where
  items := fresh.take n
  total := fresh.length
  start := 0
  nextToken := if n.1 < fresh.length then some (pageToken id n) else none
  restarted := restarted

/-- `page_through`, with the id a new snapshot gets. -/
def pageThrough (s : Shelf) (fresh : List ItemRow) (key : String) (paging : Paging)
    (mark : ℕ × Option String) (clock : ℤ) (ulid : String) : NextPage × List CacheRow :=
  match paging.page with
  | none => (truncateNext fresh paging.limit, s.cache)
  | some n =>
    match paging.token.bind fun token => resume s token key fresh clock with
    | some (snap, pos) => (resumedPage fresh snap pos n, s.cache)
    | none =>
      let snap : CachedResult := ⟨ulid, clock, key, mark.1, mark.2, fresh.map ItemRow.id⟩
      (firstPage fresh n ulid paging.token.isSome,
        if n.1.1 < fresh.length then
          nextCachePut snap (clock - nextCacheTtlSecs) nextCacheMaxPerQuery nextCacheMaxSnapshots
            s.cache
        else s.cache)

section Requests

variable {Query Ranking Now : Type}

/-- The paged reads: the key of a query, and the list it asks for, which holds an item once. -/
structure PagedReads (Query Ranking Now : Type) where
  key : Query → Ranking → String
  rows : List Op → Db → Query → Ranking → Now → Except String (List ItemRow)
  nodup : ∀ {log db query ranking now fresh},
    rows log db query ranking now = .ok fresh → (fresh.map ItemRow.id).Nodup

/-- A request, with the clock it runs at and the ULID its snapshot would get. -/
structure Request (Query Ranking Now : Type) where
  query : Query
  ranking : Ranking
  now : Now
  limit : Option Usize
  paginate : Bool
  token : Option String
  clock : ℤ
  ulid : String

/-- An answered request: the list it computed, the page it got, and what it saw of the store. -/
structure Answer (Query Ranking Now : Type) where
  req : Request Query Ranking Now
  fresh : List ItemRow
  page : NextPage
  log : List Op
  db : Db

variable (reads : PagedReads Query Ranking Now)

/-- `next_page_at`, `list_page_at`, `mentioned_by_page_at`. -/
def nextPageAt (s : Shelf) (req : Request Query Ranking Now) :
    Except String (Answer Query Ranking Now × Shelf) := do
  let paging ← Paging.check req.limit req.paginate req.token
  let mark := (opsWatermark s.log, opAt s.log (opsWatermark s.log))
  let fresh ← reads.rows s.log s.db req.query req.ranking req.now
  let (page, cache) :=
    pageThrough s fresh (reads.key req.query req.ranking) paging mark req.clock req.ulid
  return (⟨req, fresh, page, s.log, s.db⟩, { s with cache := cache })

/-- Answered requests, local writes and merges, in any order, and the answers so far. -/
inductive Paged : Shelf → List (Answer Query Ranking Now) → Prop
  | start (log : List Op) (db : Db) : Paged ⟨log, db, []⟩ []
  | append {s answers} (h : Paged s answers) (ops : List Op) (db : Db) (hdb : ops = [] → db = s.db) :
    Paged { s with log := s.log ++ ops, db := db } answers
  | page {s s' answers req a} (h : Paged s answers)
    (hulid : req.ulid ≠ "" ∧ ∀ b ∈ answers, b.req.ulid ≠ req.ulid)
    (ha : nextPageAt reads s req = .ok (a, s')) : Paged s' (answers ++ [a])

end Requests

end NexusFlow.Facade
