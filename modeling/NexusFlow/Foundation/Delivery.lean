import NexusFlow.Foundation.Ingest

/-!
# Deliveries

Ops reach a replica in batches, in any order and any number of times. What a replica that writes
nothing itself holds in the end is the set of ops delivered (`Received.mem_log_deliver`), and its
views are the fold of its log, whatever the batches were.
-/

namespace NexusFlow.Foundation

/-- A store under one reducer that only received ops. -/
structure Received (r : Reducer) (s : Store) : Prop where
  reducers : s.handle.reducers = [r]
  foreign : ∀ row ∈ s.file.ops, row.provenance ≠ .own
  nodup : (s.file.log.map Op.opId).Nodup
  folded : s.file.Folded r

/-- Batches, one after the other. -/
def Store.deliver (s : Store) (batches : List (List Op)) : Store :=
  batches.foldl (fun s ops => (s.apply ops).2) s

namespace Received

variable {r : Reducer} {s : Store}

/-- **One received op** is known already, or joins the log. -/
theorem applyOp (hs : Received r s) (op : Op) : Received r (s.applyOp op).2 ∧
    ((op.opId ∈ s.file.log.map Op.opId ∧ (s.applyOp op).2.file.log = s.file.log) ∨
      (s.applyOp op).2.file.log = s.file.log ++ [op]) := by
  obtain ⟨c, hc⟩ := s.applyOp_eq op
  rw [hc]
  set p := Provenance.ofReceived s.handle.key op with hp
  have hown : p ≠ .own := Provenance.ofReceived_ne_own _ op
  have hfolded := Handle.ingestInTxn_folded hs.reducers hs.folded op p
  have hnodup := Handle.ingestInTxn_nodup (h := s.handle) hs.nodup op p
  rcases s.handle.ingestInTxn_cases s.file op p with ⟨he, hk⟩ | ⟨_, href⟩ | ⟨u, he, _⟩
  · rw [he] at hfolded hnodup ⊢
    exact ⟨⟨hs.reducers, hs.foreign, hnodup, hfolded⟩, .inl ⟨File.holdsOp_iff.mp hk, rfl⟩⟩
  · -- only an op of the replica's own holds a coordinate against a received one
    obtain ⟨row, hrow, h⟩ := List.any_eq_true.mp href
    simp only [hown, decide_false, Bool.false_or, Bool.and_eq_true, decide_eq_true_eq] at h
    exact absurd h.2 (hs.foreign row hrow)
  · have hops : (s.handle.ingestInTxn s.file op p).2.ops = s.file.ops ++ [⟨op, p⟩] := by
      rw [he, Handle.takeIn_ops]
      rfl
    refine ⟨⟨hs.reducers, fun row hrow => ?_, hnodup, hfolded⟩, .inr ?_⟩
    · change row ∈ (s.handle.ingestInTxn s.file op p).2.ops at hrow
      rw [hops] at hrow
      rcases List.mem_append.mp hrow with h | h
      · exact hs.foreign row h
      · rw [List.mem_singleton.mp h]
        exact hown
    · unfold File.log
      rw [hops, List.map_append]
      rfl

/-- What a store may know: each id names one op of `ops`, and the log is among them. -/
def Within (ops : List Op) (s : Store) : Prop :=
  (∀ a ∈ ops, ∀ b ∈ ops, a.opId = b.opId → a = b) ∧ ∀ op ∈ s.file.log, op ∈ ops

/-- An op in reach is in the log after it was received. -/
theorem mem_log_applyOp (hs : Received r s) {ops : List Op} (hw : Within ops s) {op : Op}
    (hop : op ∈ ops) : Within ops (s.applyOp op).2 ∧
      ∀ o, o ∈ (s.applyOp op).2.file.log ↔ o ∈ s.file.log ∨ o = op := by
  have hmem : ∀ o, o ∈ (s.applyOp op).2.file.log ↔ o ∈ s.file.log ∨ o = op := by
    intro o
    rcases (hs.applyOp op).2 with ⟨hknown, hlog⟩ | hlog
    · obtain ⟨o', ho', hid⟩ := List.mem_map.mp hknown
      obtain rfl : o' = op := hw.1 o' (hw.2 o' ho') op hop hid
      rw [hlog]
      exact ⟨.inl, fun h => h.elim (fun h => h) fun h => h ▸ ho'⟩
    · rw [hlog, List.mem_append, List.mem_singleton]
  exact ⟨⟨hw.1, fun o ho => ((hmem o).mp ho).elim (hw.2 o) fun h => h ▸ hop⟩, hmem⟩

theorem mem_log_apply {ops : List Op} (batch : List Op) {s : Store} (hs : Received r s)
    (hw : Within ops s) (hb : ∀ op ∈ batch, op ∈ ops) :
    Received r (s.apply batch).2 ∧ Within ops (s.apply batch).2 ∧
      ∀ o, o ∈ (s.apply batch).2.file.log ↔ o ∈ s.file.log ∨ o ∈ batch := by
  induction batch generalizing s with
  | nil => exact ⟨hs, hw, fun o => by simp [Store.apply]⟩
  | cons op batch ih =>
    obtain ⟨hw', hmem⟩ := hs.mem_log_applyOp hw (hb op List.mem_cons_self)
    obtain ⟨hs'', hw'', hmem'⟩ := ih (hs.applyOp op).1 hw'
      fun o ho => hb o (List.mem_cons_of_mem op ho)
    refine ⟨hs'', hw'', fun o => (hmem' o).trans ?_⟩
    rw [hmem, List.mem_cons, or_assoc]

/-- **The log is what was delivered**, whatever the batches. -/
theorem mem_log_deliver {ops : List Op} (batches : List (List Op)) {s : Store} (hs : Received r s)
    (hw : Within ops s) (hb : ∀ op ∈ batches.flatten, op ∈ ops) :
    Received r (s.deliver batches) ∧
      ∀ o, o ∈ (s.deliver batches).file.log ↔ o ∈ s.file.log ∨ o ∈ batches.flatten := by
  induction batches generalizing s with
  | nil => exact ⟨hs, fun o => by simp [Store.deliver]⟩
  | cons batch batches ih =>
    rw [List.flatten_cons] at hb ⊢
    obtain ⟨hs', hw', hmem⟩ := mem_log_apply batch hs hw
      fun op hop => hb op (List.mem_append_left _ hop)
    obtain ⟨hs'', hmem'⟩ := ih hs' hw' fun op hop => hb op (List.mem_append_right _ hop)
    refine ⟨hs'', fun o => (hmem' o).trans ?_⟩
    rw [hmem, List.mem_append, or_assoc]

end Received

end NexusFlow.Foundation
