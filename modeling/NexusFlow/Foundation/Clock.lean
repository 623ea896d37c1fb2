import Mathlib.Data.Int.Interval
import Mathlib.Logic.Relation
import NexusFlow.Foundation.Ingest

/-!
# No local write is lost to the clock

Several handles of one replica write to one file, and `apply` takes in arbitrary received ops: any
Lamport number, any site, this replica's own included. `emit_mints_free_coordinate`: while the log
holds at most `2^60` ops, every emit gets through in at most two attempts, on a coordinate no op
holds, above everything this replica wrote, and within `MAX_LAMPORT`.

The invariant is `Covered`: above the ceiling a clock stands only on numbers that are taken. Every
`j` with `CLOCK_CEILING < j ≤ clock` is held at `(j, site)`, because a received op moves no clock
past the ceiling, an own op that climbed past it stands on the one before, and the jump over a
squatted run lands on the first number behind it. Counting the held numbers bounds the clock by
`CLOCK_CEILING + #ops` (`Covered.le`), which `2^60` keeps below `MAX_LAMPORT`.
-/

namespace NexusFlow.Foundation

open Relation

/-! ## Coordinates the log holds -/

/-- Some op holds `(j, site)`. -/
def HeldAt (f : File) (site j : Int) : Prop := ∃ r ∈ f.ops, r.op.lamport = j ∧ r.op.site = site

/-- Every number above the ceiling, up to `c`, is taken on `site`. -/
def Covered (f : File) (site c : Int) : Prop :=
  ∀ j, clockCeiling < j → j ≤ c → HeldAt f site j

theorem HeldAt.mono {f g : File} (h : ∀ r ∈ f.ops, r ∈ g.ops) {site j : Int}
    (hj : HeldAt f site j) : HeldAt g site j := by
  obtain ⟨r, hr, hl, hs⟩ := hj
  exact ⟨r, h r hr, hl, hs⟩

theorem Covered.mono {f g : File} (h : ∀ r ∈ f.ops, r ∈ g.ops) {site c : Int}
    (hc : Covered f site c) : Covered g site c :=
  fun j h1 h2 => (hc j h1 h2).mono h

theorem covered_of_le {f : File} {site c : Int} (h : c ≤ clockCeiling) : Covered f site c :=
  fun j h1 h2 => by omega

/-- **The clock is bounded by the log's size**: the taken numbers are distinct, so there are no more
of them than ops. -/
theorem Covered.le {f : File} {site c : Int} (h : Covered f site c) :
    c ≤ clockCeiling + f.ops.length := by
  have hsub : Finset.Ioc clockCeiling c ⊆ (f.ops.map fun r => r.op.lamport).toFinset := by
    intro j hj
    rw [Finset.mem_Ioc] at hj
    obtain ⟨r, hr, hl, _⟩ := h j hj.1 hj.2
    exact List.mem_toFinset.mpr (List.mem_map.mpr ⟨r, hr, hl⟩)
  have hcard := (Finset.card_le_card hsub).trans (List.toFinset_card_le _)
  rw [Int.card_Ioc, List.length_map] at hcard
  omega

/-! ## The high-water mark -/

theorem le_max? {l : List Int} {x : Int} (hx : x ∈ l) : ∃ m, l.max? = some m ∧ x ≤ m := by
  obtain ⟨m, hm⟩ := Option.isSome_iff_exists.mp (List.isSome_max?_of_mem hx)
  exact ⟨m, hm, (List.max?_eq_some_iff.mp hm).2 x hx⟩

/-- A held in-bound number counts up to the ceiling. -/
theorem min_le_highWaterMark {f : File} {r : LogRow} (hr : r ∈ f.ops)
    (hb : r.op.lamport ≤ maxLamport) : min r.op.lamport clockCeiling ≤ f.highWaterMark := by
  have hmem : r.op.lamport ∈ f.inBound.map fun r => r.op.lamport :=
    List.mem_map.mpr ⟨r, List.mem_filter.mpr ⟨hr, by simpa using hb⟩, rfl⟩
  obtain ⟨m, hm, hle⟩ := le_max? hmem
  have hmark : f.receivedMark = min m clockCeiling := by
    unfold File.receivedMark
    rw [hm]
  calc min r.op.lamport clockCeiling ≤ min m clockCeiling := min_le_min_right _ hle
    _ = f.receivedMark := hmark.symm
    _ ≤ f.highWaterMark := (le_max_left _ _).trans (le_max_left _ _)

/-- An own in-bound number counts in full. -/
theorem own_le_highWaterMark {f : File} {r : LogRow} (hr : r ∈ f.ops)
    (hb : r.op.lamport ≤ maxLamport) (ho : r.provenance = .own) :
    r.op.lamport ≤ f.highWaterMark := by
  have hmem : r.op.lamport ∈ (f.inBound.filter fun r => decide (r.provenance = .own)).map
      fun r => r.op.lamport :=
    List.mem_map.mpr ⟨r, List.mem_filter.mpr
      ⟨List.mem_filter.mpr ⟨hr, by simpa using hb⟩, by simpa using ho⟩, rfl⟩
  obtain ⟨m, hm, hle⟩ := le_max? hmem
  have hmark : f.ownMark = m := by
    unfold File.ownMark
    rw [hm]
    rfl
  calc r.op.lamport ≤ m := hle
    _ = f.ownMark := hmark.symm
    _ ≤ f.highWaterMark := (le_max_right _ _).trans (le_max_left _ _)

theorem receivedMark_le (f : File) : f.receivedMark ≤ clockCeiling := by
  unfold File.receivedMark
  split
  · exact min_le_right _ _
  · decide

theorem baseMark_le {f : File} (hbase : ∀ b, f.logBase = some b → b.clock ≤ clockCeiling) :
    f.baseMark ≤ clockCeiling := by
  unfold File.baseMark
  split
  · next b hb => exact hbase b hb
  · decide

/-- Above the ceiling, the mark is an own op's number. -/
theorem highWaterMark_own {f : File} (hbase : ∀ b, f.logBase = some b → b.clock ≤ clockCeiling)
    (h : clockCeiling < f.highWaterMark) :
    ∃ r ∈ f.ops, r.provenance = .own ∧ r.op.lamport = f.highWaterMark := by
  have hc : (0 : Int) < clockCeiling := by decide
  have hmark : f.highWaterMark = f.ownMark := by
    have h1 := receivedMark_le f
    have h2 := baseMark_le hbase
    unfold File.highWaterMark at h ⊢
    omega
  rw [hmark] at h ⊢
  unfold File.ownMark at h ⊢
  cases ho : ((f.inBound.filter fun r => decide (r.provenance = .own)).map
      fun r => r.op.lamport).max? with
  | none =>
    rw [ho, Option.getD_none] at h
    omega
  | some m =>
    obtain ⟨r, hmem, hl⟩ := List.mem_map.mp (List.max?_mem ho)
    simp only [File.inBound, List.mem_filter, decide_eq_true_eq] at hmem
    exact ⟨r, hmem.1.1, hmem.2, hl⟩

/-! ## The jump over a squatted run -/

/-- The rows `first_free_coordinate` picks from: held on `site` from `taken` on, with the next number
free. -/
def RunEnd (f : File) (site taken : Int) (r : LogRow) : Prop :=
  r ∈ f.ops ∧ r.op.site = site ∧ taken ≤ r.op.lamport ∧ ¬ HeldAt f site (r.op.lamport + 1)

theorem mem_runEnds_iff {f : File} {site taken : Int} {r : LogRow} :
    r ∈ (f.ops.filter fun o => o.op.site == site && decide (taken ≤ o.op.lamport) &&
      !(f.ops.any fun n => n.op.site == site && n.op.lamport == o.op.lamport + 1)) ↔
      RunEnd f site taken r := by
  have hheld : (f.ops.any fun n => n.op.site == site && n.op.lamport == r.op.lamport + 1) = false ↔
      ¬ HeldAt f site (r.op.lamport + 1) := by
    rw [← Bool.not_eq_true, not_iff_not, List.any_eq_true]
    simp only [Bool.and_eq_true, beq_iff_eq, HeldAt]
    exact exists_congr fun n => and_congr_right fun _ => and_comm
  simp only [List.mem_filter, Bool.and_eq_true, beq_iff_eq, decide_eq_true_eq, Bool.not_eq_true',
    hheld, RunEnd, and_assoc]

/-- A held number is followed by the end of its run. -/
theorem exists_runEnd {f : File} {site taken : Int} (h : HeldAt f site taken) :
    ∃ r, RunEnd f site taken r := by
  obtain ⟨r, hr, hl, hs⟩ := h
  have hmem : r.op.lamport ∈ (f.ops.filter fun o => decide (o.op.site = site)).map
      fun r => r.op.lamport :=
    List.mem_map.mpr ⟨r, List.mem_filter.mpr ⟨hr, by simpa using hs⟩, rfl⟩
  -- the highest number held on the site ends a run
  obtain ⟨m, hm, hle⟩ := le_max? hmem
  obtain ⟨top, htop, htl⟩ := List.mem_map.mp (List.max?_mem hm)
  simp only [List.mem_filter, decide_eq_true_eq] at htop
  refine ⟨top, htop.1, htop.2, by omega, ?_⟩
  rintro ⟨n, hn, hnl, hns⟩
  have hn' : n.op.lamport ∈ (f.ops.filter fun o => decide (o.op.site = site)).map
      fun r => r.op.lamport :=
    List.mem_map.mpr ⟨n, List.mem_filter.mpr ⟨hn, by simpa using hns⟩, rfl⟩
  obtain ⟨m', hm', hle'⟩ := le_max? hn'
  rw [hm, Option.some.injEq] at hm'
  omega

/-- **The jump lands on the first free number**: everything from the squatted one up to it is taken,
and it is not. -/
theorem firstFreeCoordinate_spec {f : File} {site taken : Int} (h : HeldAt f site taken)
    (hcov : Covered f site taken) (hlen : f.ops.length ≤ 2 ^ 60) :
    ∃ free, f.firstFreeCoordinate site taken = some free ∧ taken < free ∧
      ¬ HeldAt f site free ∧ Covered f site (free - 1) := by
  obtain ⟨e, he⟩ := exists_runEnd h
  obtain ⟨m, hm⟩ := Option.isSome_iff_exists.mp (List.isSome_min?_of_mem
    (List.mem_map.mpr ⟨e, mem_runEnds_iff.mpr he, rfl⟩ : e.op.lamport ∈
      (f.ops.filter fun o => o.op.site == site && decide (taken ≤ o.op.lamport) &&
        !(f.ops.any fun n => n.op.site == site && n.op.lamport == o.op.lamport + 1)).map
        fun r => r.op.lamport))
  obtain ⟨r, hr, hrl⟩ := List.mem_map.mp (List.min?_mem hm)
  obtain ⟨hrm, hrs, hrt, hrfree⟩ := mem_runEnds_iff.mp hr
  -- from `taken` the run goes on until its first end
  have hrun : ∀ n : Nat, taken + n ≤ m → HeldAt f site (taken + n) := by
    intro n
    induction n with
    | zero =>
      intro _
      simpa using h
    | succ n ih =>
      intro hn
      obtain ⟨q, hq, hql, hqs⟩ := ih (by push_cast at hn; omega)
      by_contra hfree
      have hqe : RunEnd f site taken q :=
        ⟨hq, hqs, by omega, fun hh => hfree (by rw [hql] at hh; push_cast; rwa [← add_assoc])⟩
      have := (List.min?_eq_some_iff.mp hm).2 q.op.lamport
        (List.mem_map.mpr ⟨q, mem_runEnds_iff.mpr hqe, rfl⟩)
      push_cast at hn
      omega
  have hcov' : Covered f site m := by
    intro j hj hjm
    by_cases hjt : j ≤ taken
    · exact hcov j hj hjt
    · have := hrun (j - taken).toNat (by omega)
      rwa [Int.toNat_of_nonneg (by omega), add_sub_cancel] at this
  have hle := hcov'.le
  have hmax : m + 1 ≤ i64Max := by
    have h1 : clockCeiling = 2 ^ 61 := rfl
    have h2 : i64Max = 2 ^ 63 - 1 := rfl
    rw [h1] at hle
    rw [h2]
    omega
  refine ⟨m + 1, ?_, by omega, ?_, ?_⟩
  · unfold File.firstFreeCoordinate
    dsimp only
    rw [hm]
    exact if_pos hmax
  · rw [← hrl]
    exact hrfree
  · rwa [add_sub_cancel_right]

/-! ## A local write -/

/-- Ingesting an own op with a new id: refused exactly where its coordinate is held. -/
theorem ingestInTxn_own (h : Handle) {f : File} (op : Op) (hnew : f.holdsOp op.opId = false) :
    (h.ingestInTxn f op .own = (.collided, f) ∧ HeldAt f op.site op.lamport) ∨
    ((h.ingestInTxn f op .own).1 ≠ .collided ∧ ¬ HeldAt f op.site op.lamport ∧
      (h.ingestInTxn f op .own).2.ops = f.ops ++ [⟨op, .own⟩] ∧
      (h.ingestInTxn f op .own).2.logBase = f.logBase) := by
  have hheld : f.coordinateRefused op true = true ↔ HeldAt f op.site op.lamport := by
    unfold File.coordinateRefused HeldAt
    rw [List.any_eq_true]
    refine exists_congr fun r => and_congr_right fun hr => ?_
    have hne : r.op.opId ≠ op.opId := by
      intro hid
      have hmem : r.op.opId ∈ f.log.map Op.opId := List.mem_map_of_mem (List.mem_map_of_mem hr)
      rw [hid, ← File.holdsOp_iff, hnew] at hmem
      cases hmem
    simp [hne]
  rcases h.ingestInTxn_cases f op .own with ⟨_, hk⟩ | ⟨he, href⟩ | ⟨u, he, _, href, _⟩
  · rw [hnew] at hk
    cases hk
  · exact .inl ⟨he, hheld.mp href⟩
  · refine .inr ⟨?_, ?_, ?_, ?_⟩
    · rw [he, Handle.takeIn_fst]
      split_ifs <;> decide
    · rw [← hheld]
      exact Bool.eq_false_iff.mp href
    · rw [he, Handle.takeIn_ops]
      rfl
    · obtain ⟨v, w, e⟩ := h.takeIn_eq ({ f with coordinateIndexUnique := u }.append op .own) op
      rw [he, e]
      rfl

theorem attempt_of_le {s : Store} (hc : s.handle.clock + 1 ≤ i64Max) (op : Op) :
    let o := s.handle.key.seal { op with lamport := s.handle.clock + 1 }
    s.attempt op = some (o, (s.handle.ingestInTxn s.file o .own).1,
      ⟨{ s.handle with clock := s.handle.clock + 1 }, (s.handle.ingestInTxn s.file o .own).2⟩) := by
  intro o
  unfold Store.attempt Handle.tick
  rw [if_pos hc]
  have : ({ s.handle with clock := s.handle.clock + 1 } : Handle).ingestInTxn =
    s.handle.ingestInTxn := Handle.ingestInTxn_congr rfl rfl
  simp only [Option.bind_eq_bind, Option.bind_some, this]
  rfl

theorem covered_append {f g : File} {op : Op} {site : Int} (hops : g.ops = f.ops ++ [⟨op, .own⟩])
    (hsite : op.site = site) (hcov : Covered f site (op.lamport - 1)) :
    Covered g site op.lamport := by
  intro j hj hle
  by_cases hlt : j ≤ op.lamport - 1
  · refine (hcov j hj hlt).mono fun r hr => ?_
    rw [hops]
    exact List.mem_append_left _ hr
  · refine ⟨⟨op, .own⟩, ?_, ?_, hsite⟩
    · rw [hops]
      exact List.mem_append_right _ (List.mem_singleton.mpr rfl)
    · change op.lamport = j
      omega

/-- What a local write leaves, besides `Emitted`: its coordinate was free, its row is the log's
last, its number is in bound and stands on taken ones. -/
structure Minted (s : Store) (o : Op) (s' : Store) : Prop where
  free : ¬ HeldAt s.file s.handle.site o.lamport
  ops : s'.file.ops = s.file.ops ++ [⟨o, .own⟩]
  base : s'.file.logBase = s.file.logBase
  bound : o.lamport ≤ maxLamport
  covered : Covered s'.file s.handle.site o.lamport

/-- **A local write gets through** in at most two attempts. -/
theorem buildAndIngest_total {s : Store} {d : Draft} (hauthor : isAttributable d.author = true)
    (hnew : s.file.holdsOp (s.handle.ulids s.handle.minted) = false)
    (hcov : Covered s.file s.handle.site (max s.handle.clock s.file.highWaterMark))
    (hlen : s.file.ops.length ≤ 2 ^ 60) :
    ∃ o ing s', s.buildAndIngest d = some (o, ing, s') ∧ Minted s o s' := by
  have hceil : clockCeiling = 2 ^ 61 := rfl
  have hmax : maxLamport = 2 ^ 62 := rfl
  have hi64 : i64Max = 2 ^ 63 - 1 := rfl
  have hle := hcov.le
  -- the first attempt
  let h₁ : Handle := { s.handle.refreshClock s.file with minted := s.handle.minted + 1 }
  have hc₁ : h₁.clock = max s.handle.clock s.file.highWaterMark := by
    change (s.handle.refreshClock s.file).clock = _
    rw [s.handle.refreshClock_eq]
  have hs₁ : h₁.site = s.handle.site := by
    change (s.handle.refreshClock s.file).site = _
    rw [s.handle.refreshClock_eq]
  let o₁ : Op := h₁.key.seal { Store.draftOp s.handle d with lamport := h₁.clock + 1 }
  have hatt₁ := attempt_of_le (s := ⟨h₁, s.file⟩) (by
    change h₁.clock + 1 ≤ i64Max
    omega) (Store.draftOp s.handle d)
  have hl₁ : o₁.lamport = h₁.clock + 1 := rfl
  unfold Store.buildAndIngest
  rw [if_pos hauthor]
  change ∃ o ing s', (Store.attempt ⟨h₁, s.file⟩ (Store.draftOp s.handle d) >>= _) = _ ∧ _
  rw [hatt₁]
  rcases ingestInTxn_own h₁ o₁ hnew with
    ⟨hcol, hheld⟩ | ⟨hne, hfree, hops, hbase⟩
  · -- squatted: jump to the first free number
    have hheld' : HeldAt s.file s.handle.site (h₁.clock + 1) := hheld
    have hcov₁ : Covered s.file s.handle.site (h₁.clock + 1) := by
      intro j hj hjle
      by_cases hlt : j ≤ h₁.clock
      · exact hcov j hj (by omega)
      · have : j = h₁.clock + 1 := by omega
        rw [this]
        exact hheld'
    obtain ⟨free, hff, hlt, hfree, hcovf⟩ := firstFreeCoordinate_spec hheld' hcov₁ hlen
    have hlef := hcovf.le
    let h₂ : Handle := { h₁ with clock := free - 1 }
    let o₂ : Op := h₂.key.seal { Store.draftOp s.handle d with lamport := free - 1 + 1 }
    have hatt₂ := attempt_of_le (s := ⟨h₂, s.file⟩) (by
      change free - 1 + 1 ≤ i64Max
      omega) (Store.draftOp s.handle d)
    have hl₂ : o₂.lamport = free := Int.sub_add_cancel free 1
    have hsite₂ : o₂.site = s.handle.site := rfl
    have hfree₂ : ¬ HeldAt s.file o₂.site o₂.lamport := by
      rw [hl₂, hsite₂]
      exact hfree
    rcases ingestInTxn_own h₂ o₂ hnew with
      ⟨_, hheld₂⟩ | ⟨hne₂, _, hops₂, hbase₂⟩
    · exact absurd hheld₂ hfree₂
    · refine ⟨o₂, (h₂.ingestInTxn s.file o₂ .own).1,
        ⟨{ h₂ with clock := free - 1 + 1 }, (h₂.ingestInTxn s.file o₂ .own).2⟩, ?_,
        ⟨by rwa [hl₂], hops₂, hbase₂, by omega, ?_⟩⟩
      · have hcol' : h₁.ingestInTxn s.file (h₁.key.seal
            { Store.draftOp s.handle d with lamport := h₁.clock + 1 }) .own = (.collided, s.file) :=
          hcol
        simp only [Option.bind_eq_bind, Option.bind_some, hcol', if_true]
        change ((s.file.firstFreeCoordinate s.handle.site (h₁.clock + 1)).bind _) = _
        rw [hff, Option.bind_some]
        change ((Store.attempt ⟨h₂, s.file⟩ (Store.draftOp s.handle d)).bind _) = _
        rw [hatt₂, Option.bind_some]
        exact if_neg hne₂
      · refine covered_append hops₂ hsite₂ ?_
        rwa [hl₂]
  · refine ⟨o₁, _, _, if_neg hne, ⟨hfree, hops, hbase, by omega, ?_⟩⟩
    refine covered_append hops rfl ?_
    rw [hl₁, add_sub_cancel_right, hc₁]
    exact hcov

/-! ## The system -/

variable {ι : Type*} [DecidableEq ι]

/-- One step: a local write under a new ULID, which holds the write lock from the clock refresh to
the insert; a received op, whatever it carries; a process that opens the file anew and seeds its
clock. -/
inductive ClockStep (site : Int) : Shared ι → Shared ι → Prop
  | emit {S : Shared ι} (i : ι) {d : Draft} {opId : String} {s : Store}
    (hnew : S.file.holdsOp ((S.handles i).ulids (S.handles i).minted) = false)
    (h : (S.store i).emit d = some (opId, s)) : ClockStep site S (S.set i s)
  | receive {S : Shared ι} (i : ι) (op : Op) :
    ClockStep site S (S.set i ((S.store i).applyOp op).2)
  | reopen {S : Shared ι} (i : ι) (h : Handle) (hsite : h.site = site)
    (hclock : h.clock = S.file.highWaterMark) : ClockStep site S (S.set i ⟨h, S.file⟩)

/-- A file without ops, whose base, if it has one, has a clock within the ceiling, and handles of
one site that seeded their clock from it. -/
structure ClockInit (site : Int) (S : Shared ι) : Prop where
  ops : S.file.ops = []
  base : ∀ b, S.file.logBase = some b → b.clock ≤ clockCeiling
  sites : ∀ i, (S.handles i).site = site
  clock : ∀ i, (S.handles i).clock = S.file.highWaterMark

/-- The invariant. -/
structure ClockInv (site : Int) (S : Shared ι) : Prop where
  base : ∀ b, S.file.logBase = some b → b.clock ≤ clockCeiling
  sites : ∀ i, (S.handles i).site = site
  clock : ∀ i, Covered S.file site (S.handles i).clock
  own : ∀ r ∈ S.file.ops, r.provenance = .own → Covered S.file site r.op.lamport

omit [DecidableEq ι] in
theorem ClockInv.highWaterMark {site : Int} {S : Shared ι} (h : ClockInv site S) :
    Covered S.file site S.file.highWaterMark := by
  by_cases hle : S.file.highWaterMark ≤ clockCeiling
  · exact covered_of_le hle
  · obtain ⟨r, hr, ho, hl⟩ := highWaterMark_own h.base (by omega)
    rw [← hl]
    exact h.own r hr ho

/-- The system after one handle moved, when the log keeps its rows, the handle's clock is covered and
every new own row is. -/
theorem ClockInv.set {site : Int} {S : Shared ι} (hS : ClockInv site S) {i : ι} {s : Store}
    (hbase : s.file.logBase = S.file.logBase) (hsite : s.handle.site = site)
    (hgrow : ∀ r ∈ S.file.ops, r ∈ s.file.ops) (hclock : Covered s.file site s.handle.clock)
    (hown : ∀ r ∈ s.file.ops, r ∉ S.file.ops → r.provenance = .own →
      Covered s.file site r.op.lamport) : ClockInv site (S.set i s) where
  base b hb := hS.base b (hbase ▸ hb)
  sites j := by
    by_cases hj : j = i
    · rw [hj, S.set_self]
      exact hsite
    · rw [S.set_of_ne hj]
      exact hS.sites j
  clock j := by
    by_cases hj : j = i
    · rw [hj, S.set_self]
      exact hclock
    · rw [S.set_of_ne hj]
      exact (hS.clock j).mono hgrow
  own r hr ho := by
    by_cases hold : r ∈ S.file.ops
    · exact (hS.own r hold ho).mono hgrow
    · exact hown r hr hold ho

omit [DecidableEq ι] in
theorem ClockInv.refreshed {site : Int} {S : Shared ι} (hS : ClockInv site S) (i : ι) :
    Covered S.file site (max (S.handles i).clock S.file.highWaterMark) := by
  rcases max_choice (S.handles i).clock S.file.highWaterMark with h | h <;> rw [h]
  · exact hS.clock i
  · exact hS.highWaterMark

/-- A step keeps the invariant, while the log is within `2^60` ops. -/
theorem ClockInv.step {site : Int} {S S' : Shared ι} (hS : ClockInv site S)
    (hlen : S.file.ops.length ≤ 2 ^ 60) (h : ClockStep site S S') : ClockInv site S' := by
  cases h with
  | @emit i d opId s hnew h =>
    obtain ⟨o, ing, _, he⟩ := Store.emit_eq_some h
    obtain ⟨o', ing', s', hb, hm⟩ := buildAndIngest_total (s := S.store i) (d := d) he.author hnew
      (by have := hS.refreshed i; rwa [← hS.sites i] at this) hlen
    have hs : s' = s := by
      unfold Store.emit at h
      rw [hb] at h
      exact (Prod.mk.inj (Option.some.inj h)).2
    subst hs
    have hsite : (S.store i).handle.site = site := hS.sites i
    have he' := Store.buildAndIngest_eq_some hb
    have hcov := hsite ▸ hm.covered
    refine hS.set hm.base ?_ ?_ ?_ ?_
    · rw [he'.handle]
      exact hsite
    · intro r hr
      rw [hm.ops]
      exact List.mem_append_left _ hr
    · rw [he'.handle]
      exact hcov
    · intro r hr hold _
      rw [hm.ops] at hr
      rcases List.mem_append.mp hr with hr | hr
      · exact absurd hr hold
      · rw [List.mem_singleton.mp hr]
        exact hcov
  | receive i op =>
    have hfile := Store.applyOp_file (S.store i) op
    obtain ⟨c, _, hc⟩ := (S.handles i).observe_eq op
    have hh : ((S.store i).applyOp op).2.handle = (S.handles i).observe op := rfl
    have hlog := (S.handles i).ingestInTxn_log S.file op (.ofReceived (S.handles i).key op)
    have hgrow : ∀ r ∈ S.file.ops, r ∈ ((S.store i).applyOp op).2.file.ops := by
      intro r hr
      rw [hfile]
      rcases hlog with he | ⟨_, hops, _⟩
      · exact he ▸ hr
      · exact hops ▸ List.mem_append_left _ hr
    refine hS.set ?_ ?_ hgrow ?_ ?_
    · rw [hfile]
      rcases hlog with he | ⟨_, _, hb, _⟩
      · exact congrArg File.logBase he
      · exact hb
    · rw [hh, hc]
      exact hS.sites i
    · -- a received op moves the clock to the ceiling at most
      rw [hh]
      unfold Handle.observe
      split_ifs
      · exact covered_of_le (min_le_right _ _)
      · exact (hS.clock i).mono hgrow
    · intro r hr hold ho
      rw [hfile] at hr
      rcases hlog with he | ⟨_, hops, _⟩
      · exact absurd (he ▸ hr : r ∈ S.file.ops) hold
      · have hr' : r ∈ S.file.ops ++ [⟨op, .ofReceived (S.handles i).key op⟩] := hops ▸ hr
        rcases List.mem_append.mp hr' with hr' | hr'
        · exact absurd hr' hold
        · rw [List.mem_singleton.mp hr'] at ho
          exact absurd ho (Provenance.ofReceived_ne_own _ op)
  | reopen i h hsite hclock =>
    refine hS.set rfl hsite (fun _ hr => hr) ?_ fun r hr hold _ => absurd hr hold
    change Covered S.file site h.clock
    rw [hclock]
    exact hS.highWaterMark

/-- The log only grows. -/
theorem ClockStep.length_le {site : Int} {S S' : Shared ι} (h : ClockStep site S S') :
    S.file.ops.length ≤ S'.file.ops.length := by
  have hingest : ∀ (h : Handle) (op : Op) (p : Provenance),
      S.file.ops.length ≤ (h.ingestInTxn S.file op p).2.ops.length := by
    intro h op p
    rcases h.ingestInTxn_log S.file op p with he | ⟨_, hops, _⟩
    · rw [he]
    · rw [hops, List.length_append]
      omega
  cases h with
  | emit i _ h =>
    obtain ⟨o, ing, _, he⟩ := Store.emit_eq_some h
    change _ ≤ (Store.file _).ops.length
    rw [he.file]
    exact hingest _ o .own
  | receive i op =>
    change _ ≤ ((S.store i).applyOp op).2.file.ops.length
    rw [Store.applyOp_file]
    exact hingest _ op _
  | reopen i h => exact le_rfl

omit [DecidableEq ι] in
theorem ClockInit.inv {site : Int} {S : Shared ι} (h : ClockInit site S) : ClockInv site S := by
  have hown : ∀ r ∈ S.file.ops, r.provenance = .own → Covered S.file site r.op.lamport := by
    intro r hr
    rw [h.ops] at hr
    cases hr
  refine ⟨h.base, h.sites, fun i => ?_, hown⟩
  rw [h.clock i]
  refine covered_of_le (not_lt.mp fun hlt => ?_)
  obtain ⟨r, hr, _⟩ := highWaterMark_own h.base hlt
  rw [h.ops] at hr
  cases hr

/-- The invariant holds along every run within `2^60` ops. -/
theorem ClockInv.run {site : Int} {S S' : Shared ι} (hS : ClockInv site S)
    (h : ReflTransGen (ClockStep site) S S') (hlen : S'.file.ops.length ≤ 2 ^ 60) :
    ClockInv site S' := by
  induction h with
  | refl => exact hS
  | tail _ hstep ih =>
    have := hstep.length_le.trans hlen
    exact (ih this).step this hstep

/-- **No local write is lost to the clock.** After any run of local writes, received ops and reopens
that leaves at most `2^60` ops in the log, a local write through any handle succeeds: its op is the
log's next row, on a coordinate no op holds, above every op this replica wrote and above every held
in-bound number as far as the ceiling, and in bound, so that the fold dispatch does not pass it
over. -/
theorem emit_mints_free_coordinate {site : Int} {S₀ S : Shared ι} (h₀ : ClockInit site S₀)
    (hrun : ReflTransGen (ClockStep site) S₀ S) (hlen : S.file.ops.length ≤ 2 ^ 60) (i : ι)
    {d : Draft} (hauthor : isAttributable d.author = true)
    (hnew : S.file.holdsOp ((S.handles i).ulids (S.handles i).minted) = false) :
    ∃ o ing s, (S.store i).buildAndIngest d = some (o, ing, s) ∧
      s.file.ops = S.file.ops ++ [⟨o, .own⟩] ∧
      (∀ r ∈ S.file.ops, r.op.coordinate ≠ o.coordinate) ∧
      (∀ r ∈ S.file.ops, r.provenance = .own → r.op.lamport < o.lamport) ∧
      (∀ r ∈ S.file.ops, r.op.lamport ≤ maxLamport → min r.op.lamport clockCeiling < o.lamport) ∧
      o.lamport ≤ maxLamport ∧ o.lamportInBound = true := by
  have hS := h₀.inv.run hrun hlen
  obtain ⟨o, ing, s, hb, hm⟩ := buildAndIngest_total (s := S.store i) (d := d) hauthor hnew
    (by have := hS.refreshed i; rwa [← hS.sites i] at this) hlen
  have he := Store.buildAndIngest_eq_some hb
  have hmark : S.file.highWaterMark < o.lamport := he.mark
  refine ⟨o, ing, s, hb, hm.ops, ?_, ?_, ?_, hm.bound, by simpa [Op.lamportInBound] using hm.bound⟩
  · intro r hr hcoord
    obtain ⟨hl, hs⟩ := Prod.mk.inj hcoord
    exact hm.free ⟨r, hr, hl, hs.trans he.site⟩
  · intro r hr ho
    -- an own op is within the bound, so the mark counts it in full
    have hle := (hS.own r hr ho).le
    have h1 : clockCeiling = 2 ^ 61 := rfl
    have h2 : maxLamport = 2 ^ 62 := rfl
    exact (own_le_highWaterMark hr (by omega) ho).trans_lt hmark
  · intro r hr hb
    exact (min_le_highWaterMark hr hb).trans_lt hmark

/-- A received op that says nothing any reducer folds. -/
def plainOp (opId : String) (lamport site : Int) : Op :=
  ⟨opId, lamport, site, "none", "", "", "", "", none, "mallory", "", none, none⟩

/-- One handle of site 1 on a fresh file. -/
def loneHandle : Shared Unit :=
  ⟨File.fresh, fun _ => ⟨1, 0, "", [], none, silentKey, fun n => "01-" ++ toString n, 0⟩⟩

/-- A peer moves the clock to the ceiling, then squats the next coordinate of site 1. -/
def squatted : Shared Unit :=
  let S := loneHandle.set () ((loneHandle.store ()).applyOp (plainOp "02A" clockCeiling 9)).2
  S.set () ((S.store ()).applyOp (plainOp "02B" (clockCeiling + 1) 1)).2

/-- The write after it jumps the squatted coordinate. -/
theorem emit_mints_free_coordinate_squatted :
    let d : Draft := ⟨"task", "item", .given "aaaa.1", "title", "set", some "wash up", "alice"⟩
    (∃ o ing s, (squatted.store ()).buildAndIngest d = some (o, ing, s) ∧
      s.file.ops = squatted.file.ops ++ [⟨o, .own⟩] ∧
      (∀ r ∈ squatted.file.ops, r.op.coordinate ≠ o.coordinate) ∧
      (∀ r ∈ squatted.file.ops, r.provenance = .own → r.op.lamport < o.lamport) ∧
      (∀ r ∈ squatted.file.ops, r.op.lamport ≤ maxLamport →
        min r.op.lamport clockCeiling < o.lamport) ∧
      o.lamport ≤ maxLamport ∧ o.lamportInBound = true) ∧
    ((squatted.store ()).buildAndIngest d).map (·.1.lamport) = some (clockCeiling + 2) := by
  have h₀ : ClockInit 1 loneHandle :=
    ⟨rfl, fun b hb => (by cases hb), fun _ => rfl, fun _ => rfl⟩
  have hrun : ReflTransGen (ClockStep 1) loneHandle squatted :=
    (ReflTransGen.single (.receive () _)).tail (.receive () _)
  exact ⟨emit_mints_free_coordinate h₀ hrun (by decide) () (by decide)
    (by decide), by decide⟩

end NexusFlow.Foundation
