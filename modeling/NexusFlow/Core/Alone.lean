import NexusFlow.Core.ObservedRemove

/-!
# A store that has merged nothing

One replica that starts on a fresh file and only writes: each op takes the next Lamport number, so an
op is newer than everything the views hold, and the removes name adds of this log. What one such op
does to the views is then an assignment (`Appended`): to one register of an item, or to the set of
present edges.

`Alone` is what every local write keeps. A write past `maxLamport` is logged and not folded, so the
effects are stated for a log within `shortLog` ops.
-/

namespace NexusFlow.Core

open NexusFlow.Foundation TaskReducer

/-- How many ops a log may hold for every one of them to be folded. -/
def shortLog : Nat := 2 ^ 60

/-- What a replica that merges nothing keeps. -/
structure Alone (s : Store) : Prop extends TagInv s where
  clock : s.handle.clock = s.file.log.length
  below : ∀ op ∈ s.file.log, 1 ≤ op.lamport ∧ op.lamport ≤ s.handle.clock
  removes : ∀ r ∈ s.file.log, foldedAs "edge" "remove" r = true →
    ∀ tag ∈ named r, tag ∈ s.file.log.map Op.opId

/-- A freshly opened store. -/
theorem alone_freshStore (site : Int) (key : ReplicaKey) {ulids : Nat → String}
    (h : Ulids ulids) : Alone (freshStore site key ulids) where
  toTagInv := tagInv_freshStore site key h
  clock := rfl
  below := by simp [freshStore, File.fresh, File.log]
  removes := by simp [freshStore, File.fresh, File.log]

/-! ## The number an op takes -/

theorem le_of_max?_eq_some {l : List Int} {m c : Int} (hm : l.max? = some m) (h : ∀ x ∈ l, x ≤ c) :
    m ≤ c := h m (List.max?_mem hm)

/-- The high-water mark of a log below the clock. -/
theorem highWaterMark_le {f : File} {c : Int} (hbase : f.logBase = none) (hc : 0 ≤ c)
    (h : ∀ r ∈ f.ops, r.op.lamport ≤ c) : f.highWaterMark ≤ c := by
  have hin : ∀ x ∈ f.inBound.map fun r => r.op.lamport, x ≤ c := by
    intro x hx
    obtain ⟨r, hr, rfl⟩ := List.mem_map.mp hx
    exact h r (List.mem_filter.mp hr).1
  have hreceived : f.receivedMark ≤ c := by
    unfold File.receivedMark
    split
    · next m hm => exact (min_le_left _ _).trans (le_of_max?_eq_some hm hin)
    · exact hc
  have hown : f.ownMark ≤ c := by
    unfold File.ownMark
    cases hm : ((f.inBound.filter fun r => decide (r.provenance = .own)).map
        fun r => r.op.lamport).max? with
    | none => exact hc
    | some m =>
      refine le_of_max?_eq_some hm fun x hx => ?_
      obtain ⟨r, hr, rfl⟩ := List.mem_map.mp hx
      exact h r (List.mem_filter.mp (List.mem_filter.mp hr).1).1
  have hbaseMark : f.baseMark ≤ c := by
    unfold File.baseMark
    rw [hbase]
    exact hc
  exact max_le (max_le hreceived hown) hbaseMark

/-- With the clock at or above all it holds, a store mints the next number. -/
theorem lamport_of_emit {s s' : Store} {d : Draft} {o : Op} {ing : Ingest}
    (h : s.buildAndIngest d = some (o, ing, s')) (hmark : s.file.highWaterMark ≤ s.handle.clock)
    (hbelow : ∀ r ∈ s.file.ops, r.op.lamport ≤ s.handle.clock) :
    o.lamport = s.handle.clock + 1 := by
  unfold Store.buildAndIngest at h
  split_ifs at h
  rw [s.handle.refreshClock_eq, max_eq_left hmark] at h
  simp only [Option.bind_eq_bind, Option.bind_eq_some_iff, Prod.exists] at h
  obtain ⟨o₁, ing₁, s₁, h₁, h⟩ := h
  obtain ⟨ho₁, _, hi₁⟩ := Store.attempt_eq_some h₁
  have hl₁ : o₁.lamport = s.handle.clock + 1 := by
    rw [ho₁]
    rfl
  -- nothing in the log holds the number, so the first attempt is not refused
  have hfree : ing₁ ≠ .collided := by
    rintro rfl
    have hrefused : s.file.coordinateRefused o₁ true = false := by
      unfold File.coordinateRefused
      rw [List.any_eq_false]
      intro r hr
      have hne : r.op.lamport ≠ o₁.lamport := by
        have := hbelow r hr
        omega
      simp [hne]
    rcases Handle.ingestInTxn_cases _ s.file o₁ .own with ⟨he, _⟩ | ⟨_, hk⟩ | ⟨u, he, _⟩
    · rw [he] at hi₁
      cases hi₁
    · simp only [decide_true] at hk
      rw [hrefused] at hk
      cases hk
    · have hfst := congrArg Prod.fst (he.symm.trans hi₁)
      rw [Handle.takeIn_fst] at hfst
      split_ifs at hfst
  rw [if_neg hfree] at h
  cases h
  exact hl₁

/-! ## One op more -/

/-- The store took in one op, of the number after all it holds. -/
structure Appended (s s' : Store) (op : Op) : Prop where
  tags : TagInv s'
  log : s'.file.log = s.file.log ++ [op]
  lamport : op.lamport = s.handle.clock + 1
  clock : s'.handle.clock = op.lamport
  fresh : op.opId ∉ s.file.log.map Op.opId
  domain : op.domain = domainTask

/-- **One emit of a store alone.** -/
theorem Alone.emitTask {s : Store} (hs : Alone s) (kind target field opType : String)
    (value : Option String) (author : String) :
    Core.emitTask kind target field opType value author s = (none, s) ∨
    ∃ op s', Core.emitTask kind target field opType value author s = (some op.opId, s') ∧
      Appended s s' op ∧ op.targetKind = kind ∧ op.targetId = target ∧ op.field = field ∧
      op.opType = opType ∧ op.value = value := by
  unfold Core.emitTask
  cases he : s.emit ⟨domainTask, kind, .given target, field, opType, value, author⟩ with
  | none => exact .inl rfl
  | some p =>
    obtain ⟨id, s'⟩ := p
    refine .inr ?_
    have htags := (hs.toTagInv.emit he).1
    obtain ⟨⟨op, ing, t⟩, hb, hid⟩ := Option.map_eq_some_iff.mp he
    obtain ⟨rfl, rfl⟩ := Prod.mk.inj hid
    change Store.buildAndIngest s _ = some (op, ing, t) at hb
    have hem := Store.buildAndIngest_eq_some hb
    have hfresh : op.opId ∉ s.file.log.map Op.opId := by
      intro hmem
      obtain ⟨o, ho, hoid⟩ := List.mem_map.mp hmem
      exact hs.unminted o ho _ le_rfl (hoid.trans hem.opId)
    have hlog : t.file.log = s.file.log ++ [op] := by
      rcases s.handle.ingestInTxn_cases s.file op .own with ⟨_, hk⟩ | ⟨hc, _⟩ | ⟨u, hu, _⟩
      · exact absurd (File.holdsOp_iff.mp hk) hfresh
      · exact absurd (congrArg Prod.fst (hem.ingest.symm.trans hc)) hem.taken
      · unfold File.log
        rw [hem.file, hu, Handle.takeIn_ops]
        simp [File.append]
    have hbelow : ∀ r ∈ s.file.ops, r.op.lamport ≤ s.handle.clock :=
      fun r hr => (hs.below r.op (List.mem_map_of_mem hr)).2
    have hclock : 0 ≤ s.handle.clock := by
      rw [hs.clock]
      exact Int.natCast_nonneg _
    refine ⟨op, t, rfl, ⟨htags, hlog, ?_, ?_, hfresh, ?_⟩, ?_, ?_, ?_, ?_, ?_⟩
    · exact lamport_of_emit hb (highWaterMark_le hs.noBase hclock hbelow) hbelow
    · rw [hem.handle]
    all_goals
      rw [hem.op]
      rfl

namespace Appended

variable {s s' : Store} {op : Op}

/-- Such an op keeps the store alone, where a remove of edges names adds that are there. -/
theorem alone (h : Appended s s' op) (hs : Alone s)
    (hremove : foldedAs "edge" "remove" op = true →
      ∀ tag ∈ named op, tag ∈ s.file.log.map Op.opId) : Alone s' where
  toTagInv := h.tags
  clock := by
    rw [h.clock, h.lamport, hs.clock, h.log]
    simp
  below := by
    rw [h.log, h.clock]
    intro o ho
    have hclock := hs.clock
    rcases List.mem_append.mp ho with ho | ho
    · have := hs.below o ho
      have := h.lamport
      omega
    · rw [List.mem_singleton.mp ho]
      have := h.lamport
      omega
  removes := by
    rw [h.log]
    intro r hr hf tag htag
    rw [List.map_append]
    refine List.mem_append_left _ ?_
    rcases List.mem_append.mp hr with hr | hr
    · exact hs.removes r hr hf tag htag
    · rw [List.mem_singleton.mp hr] at hf htag
      exact hremove hf tag htag

/-- In a short log the number is in bound. -/
theorem inBound (h : Appended s s' op) (hs : Alone s) (hshort : s'.file.log.length ≤ shortLog) :
    op.lamportInBound = true := by
  have hl := h.lamport
  rw [hs.clock] at hl
  rw [h.log] at hshort
  simp only [List.length_append, List.length_singleton, shortLog] at hshort
  refine decide_eq_true ?_
  unfold maxLamport
  omega

/-- The views after it. -/
theorem views (h : Appended s s' op) (hs : Alone s) :
    s'.file.views.get = taskReducer.foldView s.file.views.get op := by
  have h1 := h.tags.folded
  have h2 := hs.folded
  unfold File.Folded at h1 h2
  rw [h1, h.log, List.foldl_append, ← h2]
  rfl

end Appended

end NexusFlow.Core
