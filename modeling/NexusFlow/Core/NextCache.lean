import Mathlib.Data.List.Perm.Subperm
import Mathlib.Data.List.Sort
import NexusFlow.Core.Model
import NexusFlow.Foundation.Op

/-!
# The snapshots paged reads are cut from

Model of `crates/core/src/next_cache.rs`: the table `next_page_cache`, its rows in the order of their
rowids, and what the log says of the time since a snapshot. A snapshot's ids are stored as one text,
joined by `sep`.

* `CacheBounded.put`: the table stays within its two bounds.
* `nextCacheGet_of_mem`: a stored snapshot reads back as it was, where no id holds `sep`.
-/

namespace NexusFlow.Core

open NexusFlow.Foundation

/-- One cached ordered result (`CachedResult`). -/
structure CachedResult where
  id : String
  created : ℤ
  query : String
  watermark : ℕ
  watermarkOp : Option String
  ids : List String
  deriving DecidableEq, Repr

/-- A row of `next_page_cache`. -/
structure CacheRow where
  id : String
  created : ℤ
  query : String
  watermark : ℕ
  watermarkOp : Option String
  ids : String
  deriving DecidableEq, Repr

/-! ## The log -/

/-- `ops_watermark`: the highest rowid, the number of ops in the log. -/
def opsWatermark (log : List Op) : ℕ := log.length

/-- `op_at`. -/
def opAt (log : List Op) (rowid : ℕ) : Option String :=
  if rowid = 0 then none else (log[rowid - 1]?).map Op.opId

/-- The items an op targets (`items_touched_since`); a note other than an added one is looked up. -/
def touches (noteItem : String → Option String) (op : Op) : List String :=
  let parts := splitChar sep op.targetId
  if op.targetKind = "item" ∨ op.targetKind = "field" ∨ op.targetKind = "chunk" then [op.targetId]
  else if op.targetKind = "note" then
    if op.opType = "note_add" then [op.targetId] else (noteItem op.targetId).toList
  else if op.targetKind = "label" then parts.head?.toList
  else if op.targetKind = "edge" then parts.take 2
  else if op.targetKind = "thread_link" then (parts[1]?).toList
  else []

/-- `items_touched_since`. -/
def itemsTouchedSince (noteItem : String → Option String) (log : List Op) (watermark : ℕ) :
    List String :=
  (((log.drop watermark).filter fun op => op.domain == domainTask).flatMap
    (touches noteItem)).filter fun id => id ≠ ""

/-! ## The table -/

/-- `SELECT id … ORDER BY created DESC, rowid DESC LIMIT n`. -/
def newest (n : ℕ) (rows : List CacheRow) : List String :=
  ((rows.reverse.insertionSort fun a b => b.created ≤ a.created).take n).map CacheRow.id

/-- How many of the rows there are a bound keeps beside the new one. -/
def keep (bound : ℕ) : ℕ := max bound 1 - 1

/-- The row of a snapshot. -/
def CachedResult.row (snapshot : CachedResult) : CacheRow where
  id := snapshot.id
  created := snapshot.created
  query := snapshot.query
  watermark := snapshot.watermark
  watermarkOp := snapshot.watermarkOp
  ids := joinChar sep snapshot.ids

/-- `next_cache_put`. -/
def nextCachePut (snapshot : CachedResult) (expireBefore : ℤ) (maxPerQuery maxTotal : ℕ)
    (cache : List CacheRow) : List CacheRow :=
  let live := cache.filter fun r => !decide (r.created < expireBefore)
  let own := newest (keep maxPerQuery) (live.filter fun r => r.query = snapshot.query)
  let live := live.filter fun r => !(decide (r.query = snapshot.query) && decide (r.id ∉ own))
  let kept := newest (keep maxTotal) live
  let live := live.filter fun r => decide (r.id ∈ kept)
  (live.filter fun r => decide (r.id ≠ snapshot.id)) ++ [snapshot.row]

/-- The ids of a row. -/
def CacheRow.split (r : CacheRow) : List String := if r.ids = "" then [] else splitChar sep r.ids

/-- A row, read. -/
def CacheRow.result (r : CacheRow) : CachedResult where
  id := r.id
  created := r.created
  query := r.query
  watermark := r.watermark
  watermarkOp := r.watermarkOp
  ids := r.split

/-- `next_cache_get`. -/
def nextCacheGet (id : String) (cache : List CacheRow) : Option CachedResult :=
  (cache.find? fun r => r.id = id).map CacheRow.result

/-! ## Bounds -/

/-- The ids of the rows are distinct, and there are no more rows than the bounds allow. -/
structure CacheBounded (maxPerQuery maxTotal : ℕ) (cache : List CacheRow) : Prop where
  nodup : (cache.map CacheRow.id).Nodup
  total : cache.length ≤ maxTotal
  perQuery : ∀ q, (cache.filter fun r => r.query = q).length ≤ maxPerQuery

theorem length_newest (n : ℕ) (rows : List CacheRow) : (newest n rows).length ≤ n := by
  unfold newest
  rw [List.length_map]
  exact List.length_take_le _ _

/-- Distinct rows whose ids stand in a list are no more than the list is long. -/
theorem length_le_of_ids {rows : List CacheRow} {ids : List String}
    (hnodup : (rows.map CacheRow.id).Nodup) (h : ∀ r ∈ rows, r.id ∈ ids) :
    rows.length ≤ ids.length := by
  have hsub : rows.map CacheRow.id ⊆ ids := by
    intro id hid
    obtain ⟨r, hr, rfl⟩ := List.mem_map.mp hid
    exact h r hr
  have hle := (List.subperm_of_subset hnodup hsub).length_le
  rwa [List.length_map] at hle

variable {maxPerQuery maxTotal : ℕ} {cache : List CacheRow} {snapshot : CachedResult}
  {expireBefore : ℤ}

variable (maxPerQuery maxTotal snapshot expireBefore) in
/-- What is stored beside the new row was there, and is within what the bounds keep. -/
theorem nextCachePut_eq (hcache : (cache.map CacheRow.id).Nodup) :
    ∃ rest, nextCachePut snapshot expireBefore maxPerQuery maxTotal cache =
        rest ++ [snapshot.row] ∧
      rest.Sublist cache ∧ (∀ r ∈ rest, r.id ≠ snapshot.id) ∧ rest.length ≤ keep maxTotal ∧
      (rest.filter fun r => r.query = snapshot.query).length ≤ keep maxPerQuery := by
  have hsub : ∀ {rows : List CacheRow}, rows.Sublist cache → (rows.map CacheRow.id).Nodup :=
    fun h => hcache.sublist (h.map _)
  unfold nextCachePut
  extract_lets live own live' kept live''
  have hlive : live.Sublist cache := List.filter_sublist
  have hlive' : live'.Sublist cache := List.filter_sublist.trans hlive
  have hlive'' : live''.Sublist cache := List.filter_sublist.trans hlive'
  have hrest : (live''.filter fun r => decide (r.id ≠ snapshot.id)).Sublist live'' :=
    List.filter_sublist
  refine ⟨_, rfl, hrest.trans hlive'', ?_, ?_, ?_⟩
  · intro r hr
    exact of_decide_eq_true (List.mem_filter.mp hr).2
  · calc _ ≤ live''.length := hrest.length_le
      _ ≤ kept.length :=
        length_le_of_ids (hsub hlive'') fun r hr => of_decide_eq_true (List.mem_filter.mp hr).2
      _ ≤ keep maxTotal := length_newest _ _
  · have hrows : ∀ r ∈ live'.filter fun r => decide (r.query = snapshot.query), r.id ∈ own := by
      intro r hr
      obtain ⟨hr, hq⟩ := List.mem_filter.mp hr
      have hkeep := (List.mem_filter.mp hr).2
      rw [hq, Bool.true_and, Bool.not_eq_true', decide_eq_false_iff_not, not_not] at hkeep
      exact hkeep
    calc _ ≤ (live'.filter fun r => decide (r.query = snapshot.query)).length :=
          ((hrest.trans List.filter_sublist).filter _).length_le
      _ ≤ own.length := length_le_of_ids (hsub (List.filter_sublist.trans hlive')) hrows
      _ ≤ keep maxPerQuery := length_newest _ _

theorem keep_lt {bound : ℕ} (h : 0 < bound) : keep bound + 1 = bound := by
  unfold keep
  omega

/-- **The table stays within its bounds.** -/
theorem CacheBounded.put (h : CacheBounded maxPerQuery maxTotal cache) (hquery : 0 < maxPerQuery)
    (htotal : 0 < maxTotal) : CacheBounded maxPerQuery maxTotal
      (nextCachePut snapshot expireBefore maxPerQuery maxTotal cache) := by
  obtain ⟨rest, heq, hsub, hne, hlength, hown⟩ := nextCachePut_eq maxPerQuery
    maxTotal snapshot expireBefore h.nodup
  rw [heq]
  refine ⟨?_, ?_, ?_⟩
  · rw [List.map_append, List.map_singleton]
    refine List.nodup_append.mpr ⟨h.nodup.sublist (hsub.map _), List.nodup_singleton _, ?_⟩
    intro id hid id' hid'
    obtain ⟨r, hr, rfl⟩ := List.mem_map.mp hid
    rw [List.mem_singleton.mp hid']
    exact hne r hr
  · rw [List.length_append, List.length_singleton]
    exact (Nat.succ_le_succ hlength).trans (keep_lt htotal).le
  · intro q
    rw [List.filter_append, List.length_append]
    by_cases hq : snapshot.query = q
    · subst hq
      calc _ ≤ keep maxPerQuery + 1 := by
            refine Nat.add_le_add hown ?_
            exact List.length_filter_le _ _
        _ = maxPerQuery := keep_lt hquery
    · have hnone : [snapshot.row].filter (fun r => decide (r.query = q)) = [] := by
        simpa [CachedResult.row] using hq
      rw [hnone]
      exact ((hsub.filter _).length_le).trans (h.perQuery q)

/-! ## A stored snapshot -/

theorem mem_nextCachePut (hcache : (cache.map CacheRow.id).Nodup) {r : CacheRow}
    (h : r ∈ nextCachePut snapshot expireBefore maxPerQuery maxTotal cache) :
    r ∈ cache ∨ r = snapshot.row := by
  obtain ⟨rest, heq, hsub, -⟩ := nextCachePut_eq maxPerQuery maxTotal snapshot expireBefore hcache
  rw [heq] at h
  rcases List.mem_append.mp h with h | h
  · exact .inl (hsub.subset h)
  · exact .inr (List.mem_singleton.mp h)

theorem nextCacheGet_eq_some {id : String} {result : CachedResult}
    (h : nextCacheGet id cache = some result) : ∃ r ∈ cache, r.id = id ∧ r.result = result := by
  obtain ⟨r, hr, rfl⟩ := Option.map_eq_some_iff.mp h
  exact ⟨r, List.mem_of_find?_eq_some hr, by simpa using List.find?_some hr, rfl⟩

theorem nextCacheGet_of_mem {r : CacheRow} (h : r ∈ cache) :
    ∃ r' ∈ cache, r'.id = r.id ∧ nextCacheGet r.id cache = some r'.result := by
  cases hfind : cache.find? fun r' => r'.id = r.id with
  | none =>
    have hne := List.find?_eq_none.mp hfind r h
    simp at hne
  | some r' =>
    refine ⟨r', List.mem_of_find?_eq_some hfind, by simpa using List.find?_some hfind, ?_⟩
    rw [nextCacheGet, hfind]
    rfl

/-- **A stored list reads back**, where no id holds the separator and there are two of them. -/
theorem split_row (hids : ∀ id ∈ snapshot.ids, hasChar sep id = false)
    (hlength : 2 ≤ snapshot.ids.length) : snapshot.row.split = snapshot.ids := by
  have hsplit : splitChar sep (joinChar sep snapshot.ids) = snapshot.ids := by
    refine splitChar_joinChar ?_ hids
    rintro hnil
    simp [hnil] at hlength
  have hne : joinChar sep snapshot.ids ≠ "" := by
    intro hempty
    rw [hempty] at hsplit
    rw [← hsplit] at hlength
    exact absurd hlength (by decide)
  unfold CacheRow.split CachedResult.row
  rw [if_neg hne, hsplit]

end NexusFlow.Core
