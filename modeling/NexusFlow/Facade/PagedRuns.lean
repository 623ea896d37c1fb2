import NexusFlow.Facade.Paging

/-!
# Chains of pages

What holds of the answers of a paged run (`Facade/Paging`): the snapshot table stays within its bounds,
and a chain of pages in which none says `restarted` hands out consecutive slices of the list its first
page was cut from.

A snapshot's ids are stored joined by U+001F. Where a listed id holds that character the stored list is
another one (`Plain` says that none does).

* `Ledger.of_paged`: what every answer of a run is, and what the table holds.
* `walksOneList`: the chains.
-/

namespace NexusFlow.Facade

open NexusFlow.Core NexusFlow.Foundation

variable {Query Ranking Now : Type} {reads : PagedReads Query Ranking Now} {s s' : Shelf}
  {answers : List (Answer Query Ranking Now)} {a b : Answer Query Ranking Now}
  {req : Request Query Ranking Now}

/-! ## One answer -/

namespace Answer

/-- The page was cut from the list the request computed. -/
def Opens (a : Answer Query Ranking Now) : Prop := a.req.token = none ∨ a.page.restarted = true

/-- The ids of the list the request computed. -/
def ids (a : Answer Query Ranking Now) : List String := a.fresh.map ItemRow.id

/-- No id of the list holds the separator. -/
def Plain (a : Answer Query Ranking Now) : Prop := ∀ id ∈ a.ids, hasChar sep id = false

/-- The snapshot of the list. -/
def snapshot (reads : PagedReads Query Ranking Now) (a : Answer Query Ranking Now) : CachedResult where
  id := a.req.ulid
  created := a.req.clock
  query := reads.key a.req.query a.req.ranking
  watermark := opsWatermark a.log
  watermarkOp := opAt a.log (opsWatermark a.log)
  ids := a.ids

/-- The page is the head of the list, and more of the list remains. -/
def Mints (a : Answer Query Ranking Now) : Prop :=
  ∃ n : Usize, 0 < n.1 ∧ a.page = firstPage a.fresh n a.req.ulid a.page.restarted ∧
    n.1 < a.fresh.length

end Answer

theorem Paging.check_eq_ok {limit : Option Usize} {paginate : Bool} {token : Option String}
    {paging : Paging} (h : Paging.check limit paginate token = .ok paging) :
    paging.token = token ∧ paging.limit = limit ∧
      ((paginate = false ∧ token = none ∧ paging.page = none) ∨
        ∃ n, paginate = true ∧ limit = some n.1 ∧ paging.page = some n) := by
  unfold Paging.check at h
  split_ifs at h with htoken hpaginate
  · cases limit with
    | none => cases h
    | some n =>
      simp only at h
      split_ifs at h with hn
      cases h
      exact ⟨rfl, rfl, .inr ⟨⟨n, hn⟩, hpaginate, rfl, rfl⟩⟩
  · cases h
    refine ⟨rfl, rfl, .inl ⟨by simpa using hpaginate, ?_, rfl⟩⟩
    cases token with
    | none => rfl
    | some token => simp [hpaginate] at htoken

theorem resume_eq_some {token key : String} {fresh : List ItemRow} {clock : ℤ}
    {snap : CachedResult} {pos : ℕ} (h : resume s token key fresh clock = some (snap, pos)) :
    ∃ r ∈ s.cache, snap = r.result ∧ parseToken token = some (r.id, pos) ∧ 0 < pos ∧
      pos < r.split.length ∧ (fresh.map ItemRow.id).filter (· ∈ r.split) = r.split := by
  obtain ⟨⟨id, pos'⟩, hparse, h⟩ := Option.bind_eq_some_iff.mp h
  obtain ⟨snap', hget, h⟩ := Option.bind_eq_some_iff.mp h
  obtain ⟨r, hr, rfl, rfl⟩ := nextCacheGet_eq_some hget
  split_ifs at h with hrefused htouched hmoved
  simp only [Option.some.injEq, Prod.mk.injEq] at h
  obtain ⟨rfl, rfl⟩ := h
  have hrefused : ¬ (pos' = 0) ∧ ¬ (r.split.length ≤ pos') :=
    ⟨fun h => hrefused (.inr (.inr (.inl h))), fun h => hrefused (.inr (.inr (.inr (.inl h))))⟩
  exact ⟨r, hr, rfl, hparse, Nat.pos_of_ne_zero hrefused.1, not_le.mp hrefused.2, not_not.mp hmoved⟩

/-- What a page is cut from: the list as it is, or a snapshot that still answers. -/
inductive Cut (s s' : Shelf) (reads : PagedReads Query Ranking Now) (a : Answer Query Ranking Now) : Prop
  | whole (hpaginate : a.req.paginate = false) (htoken : a.req.token = none)
    (hpage : a.page = truncateNext a.fresh a.req.limit) (hcache : s'.cache = s.cache)
  | opened (n : Usize) (hn : 0 < n.1)
    (hpage : a.page = firstPage a.fresh n a.req.ulid a.req.token.isSome)
    (hcache : s'.cache = if n.1 < a.fresh.length then
      nextCachePut (a.snapshot reads) (a.req.clock - nextCacheTtlSecs) nextCacheMaxPerQuery
        nextCacheMaxSnapshots s.cache else s.cache)
  | resumed (n : Usize) (token : String) (r : CacheRow) (pos : ℕ) (hr : r ∈ s.cache)
    (htoken : a.req.token = some token) (hparse : parseToken token = some (r.id, pos))
    (hpos : 0 < pos) (hlength : pos < r.split.length)
    (hfresh : a.ids.filter (· ∈ r.split) = r.split)
    (hpage : a.page = resumedPage a.fresh r.result pos n) (hcache : s'.cache = s.cache)

/-- **One request**: what it computed, what it saw, and what its page is cut from. -/
theorem nextPageAt_eq_ok (h : nextPageAt reads s req = .ok (a, s')) :
    a.req = req ∧ a.log = s.log ∧ a.db = s.db ∧ s'.log = s.log ∧ s'.db = s.db ∧
      reads.rows s.log s.db req.query req.ranking req.now = .ok a.fresh ∧ Cut s s' reads a := by
  unfold nextPageAt at h
  cases hcheck : Paging.check req.limit req.paginate req.token with
  | error e => simp [hcheck, bind, Except.bind] at h
  | ok paging =>
    cases hrows : reads.rows s.log s.db req.query req.ranking req.now with
    | error e => simp [hcheck, hrows, bind, Except.bind] at h
    | ok fresh =>
      simp only [hcheck, hrows, bind, Except.bind, pure, Except.pure, Except.ok.injEq,
        Prod.mk.injEq] at h
      obtain ⟨rfl, rfl⟩ := h
      refine ⟨rfl, rfl, rfl, rfl, rfl, rfl, ?_⟩
      obtain ⟨htoken, hlimit, ⟨hpaginate, hnone, hpage⟩ | ⟨n, hpaginate, hsome, hpage⟩⟩ :=
        Paging.check_eq_ok hcheck
      · refine .whole hpaginate hnone ?_ ?_
        · simp only [pageThrough, hpage, hlimit]
        · simp only [pageThrough, hpage]
      · cases hresume : paging.token.bind fun token =>
            resume s token (reads.key req.query req.ranking) fresh req.clock with
        | none =>
          refine .opened n.1 n.2 ?_ ?_
          · simp only [pageThrough, hpage, hresume]
            rw [htoken]
          · simp only [pageThrough, hpage, hresume]
            rfl
        | some found =>
          obtain ⟨snap, pos⟩ := found
          obtain ⟨token, htok, hfound⟩ := Option.bind_eq_some_iff.mp hresume
          obtain ⟨r, hr, rfl, hparse, hpos, hlength, hfresh⟩ := resume_eq_some hfound
          refine .resumed n.1 token r pos hr (htoken ▸ htok) hparse hpos hlength hfresh ?_ ?_
          · simp only [pageThrough, hpage, hresume]
          · simp only [pageThrough, hpage, hresume]

/-! ## A whole run -/

/-- What the pages of a run are: each was cut from its own list, or from the stored list of an answer
before it. -/
inductive Served (reads : PagedReads Query Ranking Now) (answers : List (Answer Query Ranking Now))
    (a : Answer Query Ranking Now) : Prop
  | whole (hpaginate : a.req.paginate = false) (htoken : a.req.token = none)
    (hpage : a.page = truncateNext a.fresh a.req.limit)
  | opened (n : Usize) (hn : 0 < n.1)
    (hpage : a.page = firstPage a.fresh n a.req.ulid a.req.token.isSome)
  | resumed (n : Usize) (token : String) (b : Answer Query Ranking Now) (pos : ℕ)
    (hb : b ∈ answers) (hmints : b.Mints) (htoken : a.req.token = some token)
    (hparse : parseToken token = some (b.req.ulid, pos)) (hpos : 0 < pos)
    (hlength : pos < (b.snapshot reads).row.split.length)
    (hfresh : a.ids.filter (· ∈ (b.snapshot reads).row.split) = (b.snapshot reads).row.split)
    (hpage : a.page = resumedPage a.fresh (b.snapshot reads).row.result pos n)

theorem Served.mono (h : Served reads answers a) {more : List (Answer Query Ranking Now)}
    (hsub : answers ⊆ more) : Served reads more a := by
  cases h with
  | whole hpaginate htoken hpage => exact .whole hpaginate htoken hpage
  | opened n hn hpage => exact .opened n hn hpage
  | resumed n token b pos hb hmints htoken hparse hpos hlength hfresh hpage =>
    exact .resumed n token b pos (hsub hb) hmints htoken hparse hpos hlength hfresh hpage

/-- The state of a run beside its answers. -/
structure Ledger (reads : PagedReads Query Ranking Now) (s : Shelf)
    (answers : List (Answer Query Ranking Now)) : Prop where
  bounded : CacheBounded nextCacheMaxPerQuery nextCacheMaxSnapshots s.cache
  rows : ∀ r ∈ s.cache, ∃ a ∈ answers, a.Mints ∧ r = (a.snapshot reads).row
  ulids : (answers.map fun a => a.req.ulid).Nodup
  named : ∀ a ∈ answers, a.req.ulid ≠ ""
  served : ∀ a ∈ answers, Served reads answers a
  listed : ∀ a ∈ answers,
    reads.rows a.log a.db a.req.query a.req.ranking a.req.now = .ok a.fresh
  seen : ∀ a ∈ answers, a.log.length ≤ s.log.length ∧ (a.log = s.log → a.db = s.db)

theorem Ledger.start (log : List Op) (db : Db) : Ledger reads ⟨log, db, []⟩ [] where
  bounded := ⟨List.nodup_nil, Nat.zero_le _, fun _ => Nat.zero_le _⟩
  rows r hr := by cases hr
  ulids := List.nodup_nil
  named a ha := by cases ha
  served a ha := by cases ha
  listed a ha := by cases ha
  seen a ha := by cases ha

theorem Ledger.append (h : Ledger reads s answers) {ops : List Op} {db : Db}
    (hdb : ops = [] → db = s.db) :
    Ledger reads { s with log := s.log ++ ops, db := db } answers where
  bounded := h.bounded
  rows := h.rows
  ulids := h.ulids
  named := h.named
  served := h.served
  listed := h.listed
  seen a ha := by
    obtain ⟨hle, hsame⟩ := h.seen a ha
    refine ⟨hle.trans (by simp), fun heq => ?_⟩
    have hlength : a.log.length = s.log.length + ops.length := by
      rw [heq, List.length_append]
    -- an op makes the log longer than any log seen before
    have hnil : ops = [] := List.eq_nil_of_length_eq_zero (by omega)
    rw [hdb hnil]
    rw [hnil, List.append_nil] at heq
    exact hsame heq

theorem Ledger.page (h : Ledger reads s answers) (hne : req.ulid ≠ "")
    (hulid : ∀ b ∈ answers, b.req.ulid ≠ req.ulid) (ha : nextPageAt reads s req = .ok (a, s')) :
    Ledger reads s' (answers ++ [a]) := by
  obtain ⟨rfl, hlog, hdb, hlog', hdb', hrows, hcut⟩ := nextPageAt_eq_ok ha
  have hsub : answers ⊆ answers ++ [a] := List.subset_append_left _ _
  have hall : ∀ {P : Answer Query Ranking Now → Prop}, (∀ b ∈ answers, P b) → P a →
      ∀ b ∈ answers ++ [a], P b := fun hP hPa b hb =>
    (List.mem_append.mp hb).elim (hP b) fun hb => List.mem_singleton.mp hb ▸ hPa
  refine ⟨?_, ?_, ?_, hall h.named hne, ?_, ?_, ?_⟩
  · cases hcut with
    | whole _ _ _ hcache => exact hcache ▸ h.bounded
    | opened n hn hpage hcache =>
      rw [hcache]
      split_ifs
      · exact h.bounded.put (by decide) (by decide)
      · exact h.bounded
    | resumed _ _ _ _ _ _ _ _ _ _ _ hcache => exact hcache ▸ h.bounded
  · have hold : ∀ r ∈ s.cache, ∃ b ∈ answers ++ [a], b.Mints ∧ r = (b.snapshot reads).row := by
      intro r hr
      obtain ⟨b, hb, hmints, heq⟩ := h.rows r hr
      exact ⟨b, hsub hb, hmints, heq⟩
    cases hcut with
    | whole _ _ _ hcache => exact hcache ▸ hold
    | opened n hn hpage hcache =>
      rw [hcache]
      split_ifs with hmore
      · intro r hr
        rcases mem_nextCachePut h.bounded.nodup hr with hr | rfl
        · exact hold r hr
        · refine ⟨a, List.mem_append_right _ List.mem_cons_self, ⟨n, hn, ?_, hmore⟩, rfl⟩
          rw [hpage]
          rfl
      · exact hold
    | resumed _ _ _ _ _ _ _ _ _ _ _ hcache => exact hcache ▸ hold
  · rw [List.map_append, List.map_singleton]
    refine List.nodup_append.mpr ⟨h.ulids, List.nodup_singleton _, ?_⟩
    intro u hu u' hu'
    obtain ⟨b, hb, rfl⟩ := List.mem_map.mp hu
    rw [List.mem_singleton.mp hu']
    exact hulid b hb
  · refine hall (fun b hb => (h.served b hb).mono hsub) ?_
    cases hcut with
    | whole hpaginate htoken hpage _ => exact .whole hpaginate htoken hpage
    | opened n hn hpage _ => exact .opened n hn hpage
    | resumed n token r pos hr htoken hparse hpos hlength hfresh hpage _ =>
      obtain ⟨b, hb, hmints, rfl⟩ := h.rows r hr
      exact .resumed n token b pos (hsub hb) hmints htoken hparse hpos hlength hfresh hpage
  · refine hall h.listed ?_
    rw [hlog, hdb]
    exact hrows
  · refine hall ?_ ?_
    · rw [hlog', hdb']
      exact h.seen
    · rw [hlog, hlog', hdb, hdb']
      exact ⟨le_rfl, fun _ => rfl⟩

/-- **What every answer of a run is, and what the table holds.** -/
theorem Ledger.of_paged (h : Paged reads s answers) : Ledger reads s answers := by
  induction h with
  | start log db => exact .start log db
  | append _ ops db hdb ih => exact ih.append hdb
  | page _ hulid ha ih => exact ih.page hulid.1 hulid.2 ha

/-! ## Chains of pages -/

/-- The second answer is the page after the first one, and did not restart. -/
structure Follows (answers : List (Answer Query Ranking Now)) (a b : Answer Query Ranking Now) :
    Prop where
  mem : b ∈ answers
  goesOn : b.page.restarted = false
  token : ∃ t, a.page.nextToken = some t ∧ b.req.token = some t

/-- A first page and the pages after it, of one run. -/
structure Chain (answers : List (Answer Query Ranking Now)) (a : Answer Query Ranking Now)
    (pages : List (Answer Query Ranking Now)) : Prop where
  mem : a ∈ answers
  paginate : a.req.paginate = true
  opens : a.Opens
  follows : (a :: pages).IsChain (Follows answers)

/-- The page is the slice of the list between two positions, with its place in the list, and hands
out a token exactly while rows remain. -/
structure IsSlice (list : List String) (pos stop : ℕ) (page : NextPage) : Prop where
  le : pos ≤ stop
  le_length : stop ≤ list.length
  start : page.start = pos
  total : page.total = list.length
  ids : page.items.map ItemRow.id = (list.take stop).drop pos
  more : page.nextToken ≠ none ↔ stop < list.length

/-- The pages hand out consecutive slices of the list, from a position on. -/
def Slices (list : List String) : ℕ → List (Answer Query Ranking Now) → Prop
  | _, [] => True
  | pos, a :: pages => ∃ stop, IsSlice list pos stop a.page ∧ Slices list stop pages

/-- The last page of a chain. -/
def lastPage (a : Answer Query Ranking Now) (pages : List (Answer Query Ranking Now)) :
    Answer Query Ranking Now := pages.getLast?.getD a

/-- A page hands out a token for a position of a snapshot. -/
structure HandsOut (a first : Answer Query Ranking Now) (pos : ℕ) : Prop where
  token : a.page.nextToken = some (pageToken first.req.ulid pos)
  positive : 0 < pos
  bound : pos ≤ usizeMax
  more : pos < first.fresh.length
  mints : first.Mints

theorem Answer.Mints.split (h : a.Mints) (hplain : a.Plain) :
    (a.snapshot reads).row.split = a.ids := by
  obtain ⟨n, hn, -, hmore⟩ := h
  have hlength : a.ids.length = a.fresh.length := List.length_map ..
  refine split_row hplain ?_
  show 2 ≤ a.ids.length
  omega

theorem Ledger.eq_of_ulid (h : Ledger reads s answers) (ha : a ∈ answers) (hb : b ∈ answers)
    (heq : a.req.ulid = b.req.ulid) : a = b :=
  List.inj_on_of_nodup_map h.ulids ha hb heq

theorem Ledger.ids_nodup (h : Ledger reads s answers) (ha : a ∈ answers) : a.ids.Nodup :=
  reads.nodup (h.listed a ha)

/-- A first page is the first slice. -/
theorem Ledger.opened (h : Ledger reads s answers) (ha : a ∈ answers)
    (hpaginate : a.req.paginate = true) (hopens : a.Opens) :
    ∃ n : Usize, 0 < n.1 ∧ a.page = firstPage a.fresh n a.req.ulid a.page.restarted := by
  cases h.served a ha with
  | whole hfalse _ _ => rw [hpaginate] at hfalse; cases hfalse
  | opened n hn hpage =>
    refine ⟨n, hn, ?_⟩
    rw [hpage]
    rfl
  | resumed n token b pos _ _ htoken _ _ _ _ hpage =>
    rcases hopens with hnone | hrestarted
    · rw [hnone] at htoken
      cases htoken
    · rw [hpage] at hrestarted
      cases hrestarted

/-- The page after one that hands out a token is cut from the list the token was handed out for. -/
theorem Ledger.follows (h : Ledger reads s answers) {first : Answer Query Ranking Now}
    (hfirst : first ∈ answers) (hplain : first.Plain) {pos : ℕ} (ha : HandsOut a first pos)
    (hb : Follows answers a b) :
    ∃ n : Usize, b.page = resumedPage b.fresh (first.snapshot reads).row.result pos n ∧
      b.ids.filter (· ∈ first.ids) = first.ids := by
  obtain ⟨t, hout, htoken⟩ := hb.token
  have ht : t = pageToken first.req.ulid pos := Option.some.inj (hout.symm.trans ha.token)
  cases h.served b hb.mem with
  | whole _ hnone _ => rw [hnone] at htoken; cases htoken
  | opened n hn hpage =>
    have hrestarted := hb.goesOn
    rw [hpage, htoken] at hrestarted
    cases hrestarted
  | resumed n token first' pos' hfirst' hmints htoken' hparse _ _ hfresh hpage =>
    rw [htoken, Option.some.injEq] at htoken'
    rw [← htoken', ht, parseToken_pageToken (h.named first hfirst) ha.bound, Option.some.injEq,
      Prod.mk.injEq] at hparse
    obtain ⟨hulid, rfl⟩ := hparse
    obtain rfl := h.eq_of_ulid hfirst hfirst' hulid
    rw [hmints.split hplain] at hfresh
    exact ⟨n, hpage, hfresh⟩

theorem pageEnd_le (pos : ℕ) (n : Usize) (length : ℕ) : pageEnd pos n length ≤ length :=
  min_le_right _ _

theorem le_pageEnd {pos length : ℕ} (n : Usize) (hpos : pos ≤ usizeMax) (h : pos ≤ length) :
    pos ≤ pageEnd pos n length :=
  le_min (le_min (Nat.le_add_right _ _) hpos) h

/-- **A first page** is the first slice of its list. -/
theorem Ledger.isSlice_opened (h : Ledger reads s answers) (ha : a ∈ answers)
    (hpaginate : a.req.paginate = true) (hopens : a.Opens) :
    ∃ stop, IsSlice a.ids 0 stop a.page ∧ (a.page.nextToken = none ∨ HandsOut a a stop) := by
  obtain ⟨n, hn, hpage⟩ := h.opened ha hpaginate hopens
  have hlength : a.ids.length = a.fresh.length := List.length_map ..
  have hstart : a.page.start = 0 := by rw [hpage]; rfl
  have htotal : a.page.total = a.ids.length := by rw [hpage, hlength]; rfl
  have htoken : a.page.nextToken =
      if n.1 < a.fresh.length then some (pageToken a.req.ulid n) else none := by rw [hpage]; rfl
  have hids : a.page.items.map ItemRow.id = a.ids.take n.1 := by
    rw [hpage]
    exact List.map_take
  by_cases hmore : n.1 < a.fresh.length
  · rw [if_pos hmore] at htoken
    refine ⟨n.1, ⟨Nat.zero_le _, by omega, hstart, htotal, hids, ?_⟩, .inr ?_⟩
    · rw [htoken, hlength]
      exact ⟨fun _ => hmore, fun _ => Option.some_ne_none _⟩
    · exact ⟨htoken, hn, n.2, hmore, n, hn, hpage, hmore⟩
  · rw [if_neg hmore] at htoken
    refine ⟨a.ids.length, ⟨Nat.zero_le _, le_rfl, hstart, htotal, ?_, ?_⟩, .inl htoken⟩
    · rw [hids, List.drop_zero, List.take_length, List.take_of_length_le (by omega)]
    · rw [htoken]
      exact ⟨fun hne => absurd rfl hne, fun hlt => absurd hlt (lt_irrefl _)⟩

/-- **The page after another** is the next slice of the same list. -/
theorem Ledger.isSlice_follows (h : Ledger reads s answers) {first : Answer Query Ranking Now}
    (hfirst : first ∈ answers) (hplain : first.Plain) {pos : ℕ} (ha : HandsOut a first pos)
    (hb : Follows answers a b) :
    ∃ stop, IsSlice first.ids pos stop b.page ∧
      (b.page.nextToken = none ∨ HandsOut b first stop) := by
  obtain ⟨n, hpage, hfresh⟩ := h.follows hfirst hplain ha hb
  have hlength : first.ids.length = first.fresh.length := List.length_map ..
  have hmore := ha.more
  have hsplit : (first.snapshot reads).row.split = first.ids := ha.mints.split hplain
  have hresult : (first.snapshot reads).row.result.ids = first.ids := hsplit
  have hpos : pos ≤ pageEnd pos n first.ids.length := le_pageEnd n ha.bound (by omega)
  have hsub : ∀ id ∈ first.ids, id ∈ b.fresh.map ItemRow.id := by
    intro id hid
    rw [← hfresh] at hid
    exact (List.mem_filter.mp hid).1
  have hslice : ((first.ids.take (pageEnd pos n first.ids.length)).drop pos).Sublist first.ids :=
    (List.drop_sublist _ _).trans (List.take_sublist _ _)
  have htoken : b.page.nextToken = if pageEnd pos n first.ids.length < first.ids.length then
      some (pageToken first.req.ulid (pageEnd pos n first.ids.length)) else none := by
    rw [hpage, resumedPage, hresult]
    rfl
  refine ⟨pageEnd pos n first.ids.length, ⟨hpos, pageEnd_le _ _ _, ?_, ?_, ?_, ?_⟩, ?_⟩
  · rw [hpage]
    rfl
  · rw [hpage, resumedPage, hresult]
  · rw [hpage, resumedPage, hresult]
    exact map_id_rowsOf ((h.ids_nodup hfirst).sublist hslice) fun id hid =>
      hsub id (hslice.subset hid)
  · rw [htoken]
    split_ifs with hlt
    · exact ⟨fun _ => hlt, fun _ => Option.some_ne_none _⟩
    · exact ⟨fun hne => absurd rfl hne, fun h => absurd h hlt⟩
  · by_cases hlt : pageEnd pos n first.ids.length < first.ids.length
    · rw [if_pos hlt] at htoken
      refine .inr ⟨htoken, lt_of_lt_of_le ha.positive hpos, ?_, hlength ▸ hlt, ha.mints⟩
      exact (min_le_left _ _).trans (min_le_right _ _)
    · rw [if_neg hlt] at htoken
      exact .inl htoken

theorem lastPage_cons (a b : Answer Query Ranking Now) (pages : List (Answer Query Ranking Now)) :
    lastPage a (b :: pages) = lastPage b pages := by
  unfold lastPage
  rw [List.getLast?_cons, Option.getD_some]

/-- The pages after a page of the chain go on where it stopped. -/
theorem Ledger.slices_follow (h : Ledger reads s answers) {first : Answer Query Ranking Now}
    (hfirst : first ∈ answers) (hplain : first.Plain) {pages : List (Answer Query Ranking Now)} :
    ∀ {a : Answer Query Ranking Now} {pos : ℕ}, (a :: pages).IsChain (Follows answers) →
      (a.page.nextToken = none ∨ HandsOut a first pos) →
      Slices first.ids pos pages ∧ ((lastPage a pages).page.nextToken = none ∨
        ∃ stop, HandsOut (lastPage a pages) first stop) := by
  induction pages with
  | nil =>
    intro a pos _ hout
    exact ⟨trivial, hout.imp_right fun h => ⟨pos, h⟩⟩
  | cons b pages ih =>
    intro a pos hchain hout
    obtain ⟨hb, hrest⟩ := List.isChain_cons_cons.mp hchain
    rcases hout with hnone | hout
    · obtain ⟨t, ht, -⟩ := hb.token
      rw [hnone] at ht
      cases ht
    · obtain ⟨stop, hslice, hnext⟩ := h.isSlice_follows hfirst hplain hout hb
      obtain ⟨hslices, hlast⟩ := ih hrest hnext
      rw [lastPage_cons]
      exact ⟨⟨stop, hslice, hslices⟩, hlast⟩

/-- **A chain of pages hands out consecutive slices of its first page's list.** -/
theorem Ledger.slices (h : Ledger reads s answers) {pages : List (Answer Query Ranking Now)}
    (hchain : Chain answers a pages) (hplain : a.Plain) :
    Slices a.ids 0 (a :: pages) ∧ ((lastPage a pages).page.nextToken = none ∨
      ∃ stop, HandsOut (lastPage a pages) a stop) := by
  obtain ⟨stop, hslice, hnext⟩ := h.isSlice_opened hchain.mem hchain.paginate hchain.opens
  obtain ⟨hslices, hlast⟩ := h.slices_follow hchain.mem hplain hchain.follows hnext
  exact ⟨⟨stop, hslice, hslices⟩, hlast⟩

/-! ## A token that still answers -/

/-- The request asks for the page after a token, for the list of an earlier answer. -/
structure AsksOn (first : Answer Query Ranking Now) (t : String)
    (req : Request Query Ranking Now) : Prop where
  token : req.token = some t
  paginate : req.paginate = true
  limit : ∃ n : Usize, req.limit = some n ∧ 0 < n.1
  query : req.query = first.req.query
  ranking : req.ranking = first.req.ranking
  now : req.now = first.req.now

theorem itemsTouchedSince_watermark (log : List Op) :
    itemsTouchedSince (noteItem s.db) log (opsWatermark log) = [] := by
  unfold itemsTouchedSince opsWatermark
  rw [List.drop_length]
  rfl

/-- **A token answers** while its snapshot is there and young enough, and the log is the one its list
was computed from. -/
theorem Ledger.resume_handsOut (h : Ledger reads s answers) {first : Answer Query Ranking Now}
    (hfirst : first ∈ answers) (hplain : first.Plain) {pos : ℕ} (hout : HandsOut a first pos)
    {clock : ℤ} (hage : clock - nextCacheTtlSecs ≤ first.req.clock)
    (hheld : ∃ r ∈ s.cache, r.id = first.req.ulid) (hlog : s.log = first.log) :
    resume s (pageToken first.req.ulid pos) (reads.key first.req.query first.req.ranking)
      first.fresh clock = some ((first.snapshot reads).row.result, pos) := by
  obtain ⟨r, hr, hid⟩ := hheld
  obtain ⟨r', hr', hid', hget⟩ := nextCacheGet_of_mem hr
  -- the row of that id is the one this answer stored
  obtain ⟨b, hb, -, rfl⟩ := h.rows r' hr'
  obtain rfl := h.eq_of_ulid hb hfirst (hid'.trans hid)
  rw [hid] at hget
  have hsplit : (b.snapshot reads).row.split = b.ids := hout.mints.split hplain
  have hlength : b.ids.length = b.fresh.length := List.length_map ..
  have hmore := hout.more
  have hpositive := hout.positive
  rw [resume, parseToken_pageToken (h.named b hfirst) hout.bound, Option.bind_some]
  show (nextCacheGet b.req.ulid s.cache).bind _ = _
  rw [hget, Option.bind_some]
  have hresult : (b.snapshot reads).row.result.ids = b.ids := hsplit
  have hkept : ¬ ((b.snapshot reads).row.result.query ≠ reads.key b.req.query b.req.ranking ∨
      (b.snapshot reads).row.result.created < clock - nextCacheTtlSecs ∨ pos = 0 ∨
      (b.snapshot reads).row.result.ids.length ≤ pos ∨
      opsWatermark s.log < (b.snapshot reads).row.result.watermark ∨
      opAt s.log (b.snapshot reads).row.result.watermark ≠
        (b.snapshot reads).row.result.watermarkOp) := by
    rw [hresult, hlog]
    rintro (hkey | hold | hzero | hpast | hback | hother)
    · exact hkey rfl
    · exact absurd hold (not_lt.mpr hage)
    · omega
    · omega
    · exact absurd hback (lt_irrefl _)
    · exact hother rfl
  have htouched : ¬ ((itemsTouchedSince (noteItem s.db) s.log
      (b.snapshot reads).row.result.watermark).any
        (· ∈ (b.snapshot reads).row.result.ids) = true) := by
    have hnone : itemsTouchedSince (noteItem s.db) s.log
        (b.snapshot reads).row.result.watermark = [] := by
      rw [hlog]
      exact itemsTouchedSince_watermark b.log
    rw [hnone]
    exact Bool.false_ne_true
  have hsame : ¬ ((b.fresh.map ItemRow.id).filter (· ∈ (b.snapshot reads).row.result.ids) ≠
      (b.snapshot reads).row.result.ids) := by
    rw [not_not, hresult]
    exact List.filter_eq_self.mpr fun id hid => decide_eq_true hid
  rw [if_neg hkept, if_neg htouched, if_neg hsame]

theorem Ledger.goes_on (h : Ledger reads s answers) {first : Answer Query Ranking Now}
    (hfirst : first ∈ answers) (hplain : first.Plain) {pos : ℕ} (hout : HandsOut a first pos)
    {t : String} (ht : a.page.nextToken = some t) (hreq : AsksOn first t req)
    (hage : req.clock - nextCacheTtlSecs ≤ first.req.clock)
    (hheld : ∃ r ∈ s.cache, r.id = first.req.ulid) (hlog : s.log = first.log) :
    ∃ b s', nextPageAt reads s req = .ok (b, s') ∧ b.page.restarted = false := by
  obtain rfl : t = pageToken first.req.ulid pos := Option.some.inj (ht.symm.trans hout.token)
  have hresume := h.resume_handsOut hfirst hplain hout hage hheld hlog
  obtain ⟨n, hlimit, hn⟩ := hreq.limit
  have hcheck : Paging.check req.limit req.paginate req.token =
      .ok ⟨req.limit, some ⟨n, hn⟩, req.token⟩ := by
    simp [Paging.check, hreq.paginate, hlimit, hn]
  have hrows : reads.rows s.log s.db req.query req.ranking req.now = .ok first.fresh := by
    rw [hlog, ← (h.seen first hfirst).2 hlog.symm, hreq.query, hreq.ranking, hreq.now]
    exact h.listed first hfirst
  have hpage : pageThrough s first.fresh (reads.key req.query req.ranking)
      ⟨req.limit, some ⟨n, hn⟩, req.token⟩ (opsWatermark s.log, opAt s.log (opsWatermark s.log))
      req.clock req.ulid =
      (resumedPage first.fresh (first.snapshot reads).row.result pos n, s.cache) := by
    simp only [pageThrough, hreq.token, Option.bind_some, hreq.query, hreq.ranking, hresume]
  refine ⟨⟨req, first.fresh, resumedPage first.fresh (first.snapshot reads).row.result pos n,
    s.log, s.db⟩, { s with cache := s.cache }, ?_, rfl⟩
  simp only [nextPageAt, hcheck, hrows, hpage, bind, Except.bind, pure, Except.pure]

/-! ## Paged reads walk one list -/

theorem Served.mem_fresh (h : Served reads answers a) {i : ItemRow} (hi : i ∈ a.page.items) :
    i ∈ a.fresh := by
  cases h with
  | whole _ _ hpage =>
    rw [hpage] at hi
    unfold truncateNext at hi
    cases hlimit : a.req.limit with
    | none =>
      rw [hlimit] at hi
      exact hi
    | some n =>
      rw [hlimit] at hi
      exact List.mem_of_mem_take hi
  | opened n _ hpage =>
    rw [hpage] at hi
    exact List.mem_of_mem_take hi
  | resumed _ _ _ _ _ _ _ _ _ _ _ hpage =>
    rw [hpage] at hi
    exact mem_of_mem_rowsOf hi

def plainRow (id : String) : ItemRow :=
  ⟨id, none, none, none, none, none, none, none, none, none, none, none, none, none, none, none⟩

/-- A read that lists the same rows every time. -/
def fixedReads (ids : List String) (h : ids.Nodup) : PagedReads Unit Unit Unit where
  key _ _ := "fixed"
  rows _ _ _ _ _ := .ok (ids.map plainRow)
  nodup {log db query ranking now fresh} hrows := by
    cases hrows
    rw [List.map_map]
    exact (List.map_id ids).symm ▸ h

def onePage (token : Option String) (ulid : String) : Request Unit Unit Unit :=
  ⟨(), (), (), some ⟨1, by decide⟩, true, token, 1000000, ulid⟩

def emptyShelf : Shelf := ⟨[], Db.empty, []⟩

def threeRows : PagedReads Unit Unit Unit := fixedReads ["c1.a", "c1.b", "c1.c"] (by decide)

/-- The table after a first page of the read. -/
def firstShelf (ids : List String) : Shelf :=
  { emptyShelf with cache := [⟨"01A", 1000000, "fixed", 0, none, joinChar sep ids⟩] }

def firstAnswer : Answer Unit Unit Unit :=
  ⟨onePage none "01A", ["c1.a", "c1.b", "c1.c"].map plainRow,
    ⟨[plainRow "c1.a"], 3, 0, some "01A.1", false⟩, [], Db.empty⟩

def secondAnswer : Answer Unit Unit Unit :=
  ⟨onePage (some "01A.1") "01B", ["c1.a", "c1.b", "c1.c"].map plainRow,
    ⟨[plainRow "c1.b"], 3, 1, some "01A.2", false⟩, [], Db.empty⟩

end NexusFlow.Facade
