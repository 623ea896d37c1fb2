import NexusFlow.Core.Rebuild

/-!
# Replicas that hold the same ops show the same board

Any number of flow replicas, each on its own file, with distinct sites and distinct op ids. A run is
any interleaving of local writes (`Store.lean`) and of `apply` calls that deliver ops other replicas
hold, in any order and batching and with any repetition (`NetStep`).

The invariant (`NetInv`) is what an honest run keeps: every op in any log is held by the replica
whose site it carries, was minted from that replica's supply of op ids and lies at or below its
clock; an op id, and a coordinate, name one op across all logs. From it, any two ops of the run
commute, and `views_eq_of_same_ops` reads convergence off the fold.
-/

namespace NexusFlow.Core

open NexusFlow.Foundation NexusFlow.Lib Relation

variable {ι : Type*} [DecidableEq ι]

/-- One step of the network: a local write at one replica, or a delivery of held ops to one. -/
inductive NetStep : (ι → Store) → (ι → Store) → Prop
  | write {N : ι → Store} (i : ι) (w : LocalWrite) :
    NetStep N (Function.update N i (w.run (N i)))
  | deliver {N : ι → Store} (i : ι) (ops : List Op)
    (held : ∀ op ∈ ops, ∃ j, op ∈ (N j).file.log) :
    NetStep N (Function.update N i ((N i).apply ops).2)

/-- The fixed data of the replicas: their sites and their supplies of op ids. -/
structure Replicas (ι : Type*) where
  site : ι → Int
  ulids : ι → Nat → String
  site_inj : Function.Injective site
  ulids_inj : Function.Injective fun p : ι × Nat => ulids p.1 p.2

/-- Some replica holds the op. -/
def Held (N : ι → Store) (op : Op) : Prop := ∃ j, op ∈ (N j).file.log

/-- What an honest run maintains. -/
structure NetInv (R : Replicas ι) (N : ι → Store) : Prop where
  fold : ∀ i, FoldInv (N i)
  site : ∀ i, (N i).handle.site = R.site i
  ulids : ∀ i, (N i).handle.ulids = R.ulids i
  /-- Every op is held by the replica that minted it, at or below its clock. -/
  origin : ∀ op, Held N op → ∃ i n, op.site = R.site i ∧ op.opId = R.ulids i n ∧
    n < (N i).handle.minted ∧ op ∈ (N i).file.log ∧ op.lamport ≤ (N i).handle.clock
  /-- An op id names one op. -/
  ids : ∀ a b, Held N a → Held N b → a.opId = b.opId → a = b
  /-- A coordinate names one op. -/
  coords : ∀ a b, Held N a → Held N b → a.coordinate = b.coordinate → a = b

/-! ## One replica moves -/

namespace NetInv

variable {R : Replicas ι} {N : ι → Store}

/-- Replacing a store by one that keeps its ops and advances its clock and its supply keeps every
op's origin. -/
theorem origin_update {i : ι} {s : Store} (hminted : (N i).handle.minted ≤ s.handle.minted)
    (hclock : (N i).handle.clock ≤ s.handle.clock)
    (hgrow : ∀ op ∈ (N i).file.log, op ∈ s.file.log) {op : Op}
    (h : ∃ k n, op.site = R.site k ∧ op.opId = R.ulids k n ∧ n < (N k).handle.minted ∧
      op ∈ (N k).file.log ∧ op.lamport ≤ (N k).handle.clock) :
    ∃ k n, op.site = R.site k ∧ op.opId = R.ulids k n ∧
      n < (Function.update N i s k).handle.minted ∧ op ∈ (Function.update N i s k).file.log ∧
      op.lamport ≤ (Function.update N i s k).handle.clock := by
  obtain ⟨k, n, hs, hid, hn, hmem, hl⟩ := h
  refine ⟨k, n, hs, hid, ?_⟩
  by_cases hk : k = i
  · subst hk
    rw [Function.update_self]
    exact ⟨by omega, hgrow op hmem, by omega⟩
  · rw [Function.update_of_ne hk]
    exact ⟨hn, hmem, hl⟩

/-- A replica takes in ops the network holds, or none. -/
theorem absorb (hN : NetInv R N) {i : ι} {s : Store} (hfold : FoldInv s)
    (hsite : s.handle.site = (N i).handle.site) (hulids : s.handle.ulids = (N i).handle.ulids)
    (hminted : (N i).handle.minted ≤ s.handle.minted) (hclock : (N i).handle.clock ≤ s.handle.clock)
    (hgrow : ∀ op ∈ (N i).file.log, op ∈ s.file.log) (hheld : ∀ op ∈ s.file.log, Held N op) :
    NetInv R (Function.update N i s) := by
  have hback : ∀ op, Held (Function.update N i s) op → Held N op := by
    rintro op ⟨j, hop⟩
    by_cases hj : j = i
    · subst hj
      rw [Function.update_self] at hop
      exact hheld op hop
    · rw [Function.update_of_ne hj] at hop
      exact ⟨j, hop⟩
  refine ⟨?_, ?_, ?_, fun op hop => origin_update hminted hclock hgrow (hN.origin op (hback op hop)),
    fun a b ha hb => hN.ids a b (hback a ha) (hback b hb),
    fun a b ha hb => hN.coords a b (hback a ha) (hback b hb)⟩ <;> intro j <;> by_cases hj : j = i
  · subst hj; rw [Function.update_self]; exact hfold
  · rw [Function.update_of_ne hj]; exact hN.fold j
  · subst hj; rw [Function.update_self]; exact hsite.trans (hN.site j)
  · rw [Function.update_of_ne hj]; exact hN.site j
  · subst hj; rw [Function.update_self]; exact hulids.trans (hN.ulids j)
  · rw [Function.update_of_ne hj]; exact hN.ulids j

omit [DecidableEq ι] in
/-- The op a replica mints next is in no log: its id is not handed out yet, and its coordinate is
above everything its site wrote. -/
theorem fresh (hN : NetInv R N) {i : ι} {o : Op} (hsite : o.site = R.site i)
    (hid : o.opId = R.ulids i (N i).handle.minted) (hclock : (N i).handle.clock < o.lamport) {op : Op}
    (hop : Held N op) : op.opId ≠ o.opId ∧ op.coordinate ≠ o.coordinate := by
  obtain ⟨k, n, hs, hid', hn, _, hl⟩ := hN.origin op hop
  constructor
  · intro h
    have : (k, n) = (i, (N i).handle.minted) := R.ulids_inj (by
      rw [hid', hid] at h
      exact h)
    obtain ⟨rfl, rfl⟩ := Prod.mk.inj this
    exact lt_irrefl _ hn
  · intro h
    obtain ⟨h1, h2⟩ := Prod.mk.inj h
    have hki : k = i := R.site_inj (by rw [← hs, ← hsite]; exact h2)
    subst hki
    omega

/-- A replica mints an op. -/
theorem mint (hN : NetInv R N) {i : ι} {s : Store} {o : Op} (hfold : FoldInv s)
    (hsite : s.handle.site = (N i).handle.site) (hulids : s.handle.ulids = (N i).handle.ulids)
    (hminted : s.handle.minted = (N i).handle.minted + 1) (hclock : s.handle.clock = o.lamport)
    (hlt : (N i).handle.clock < o.lamport) (hosite : o.site = R.site i)
    (hid : o.opId = R.ulids i (N i).handle.minted) (hlog : s.file.log = (N i).file.log ++ [o]) :
    NetInv R (Function.update N i s) := by
  have hback : ∀ op, Held (Function.update N i s) op → Held N op ∨ op = o := by
    rintro op ⟨j, hop⟩
    by_cases hj : j = i
    · subst hj
      rw [Function.update_self, hlog] at hop
      rcases List.mem_append.mp hop with hop | hop
      · exact .inl ⟨j, hop⟩
      · exact .inr (List.mem_singleton.mp hop)
    · rw [Function.update_of_ne hj] at hop
      exact .inl ⟨j, hop⟩
  have hgrow : ∀ op ∈ (N i).file.log, op ∈ s.file.log := by
    intro op hop
    rw [hlog]
    exact List.mem_append_left _ hop
  refine ⟨?_, ?_, ?_, ?_, ?_, ?_⟩
  · intro j
    by_cases hj : j = i
    · subst hj; rw [Function.update_self]; exact hfold
    · rw [Function.update_of_ne hj]; exact hN.fold j
  · intro j
    by_cases hj : j = i
    · subst hj; rw [Function.update_self]; exact hsite.trans (hN.site j)
    · rw [Function.update_of_ne hj]; exact hN.site j
  · intro j
    by_cases hj : j = i
    · subst hj; rw [Function.update_self]; exact hulids.trans (hN.ulids j)
    · rw [Function.update_of_ne hj]; exact hN.ulids j
  · intro op hop
    rcases hback op hop with hop | rfl
    · exact origin_update (by omega) (by omega) hgrow (hN.origin op hop)
    · refine ⟨i, (N i).handle.minted, hosite, hid, ?_⟩
      rw [Function.update_self, hlog]
      exact ⟨by omega, by simp, by omega⟩
  · intro a b ha hb hab
    rcases hback a ha with ha | rfl <;> rcases hback b hb with hb | rfl
    · exact hN.ids a b ha hb hab
    · exact absurd hab (hN.fresh hosite hid hlt ha).1
    · exact absurd hab.symm (hN.fresh hosite hid hlt hb).1
    · rfl
  · intro a b ha hb hab
    rcases hback a ha with ha | rfl <;> rcases hback b hb with hb | rfl
    · exact hN.coords a b ha hb hab
    · exact absurd hab (hN.fresh hosite hid hlt ha).2
    · exact absurd hab.symm (hN.fresh hosite hid hlt hb).2
    · rfl

/-! ## Steps -/

/-- One local step of one replica. -/
theorem localStep (hN : NetInv R N) {i : ι} {s : Store} (h : LocalStep (N i) s) :
    NetInv R (Function.update N i s) := by
  have hfold := (hN.fold i).localStep h
  cases h with
  | emit h =>
    obtain ⟨o, ing, _, he⟩ := Store.emit_eq_some h
    have hsite : o.site = R.site i := he.site.trans (hN.site i)
    have hid : o.opId = R.ulids i (N i).handle.minted := by rw [he.opId, hN.ulids i]
    have hnew : o.opId ∉ (N i).file.log.map Op.opId := by
      rintro hmem
      obtain ⟨op, hop, hops⟩ := List.mem_map.mp hmem
      exact (hN.fresh hsite hid he.clock ⟨i, hop⟩).1 hops
    have hlog : s.file.log = (N i).file.log ++ [o] := by
      rcases (N i).handle.ingestInTxn_cases (N i).file o .own with ⟨_, hk⟩ | ⟨hc, _⟩ | ⟨u, hu, _⟩
      · exact absurd (File.holdsOp_iff.mp hk) hnew
      · exact absurd (congrArg Prod.fst (he.ingest.symm.trans hc)) he.taken
      · unfold File.log
        rw [he.file, hu, Handle.takeIn_ops]
        simp [File.append]
    refine hN.mint hfold ?_ ?_ ?_ ?_ he.clock hsite hid hlog <;> rw [he.handle]
  | wallClock now =>
    exact hN.absorb hfold rfl rfl le_rfl le_rfl (fun _ h => h) fun op hop => ⟨i, hop⟩

/-- A series of local steps of one replica. -/
theorem localSteps (hN : NetInv R N) {i : ι} {s : Store} (h : ReflTransGen LocalStep (N i) s) :
    NetInv R (Function.update N i s) := by
  induction h with
  | refl => rwa [Function.update_eq_self]
  | @tail s t _ hstep ih =>
    have := ih.localStep (i := i) (s := t) (by rwa [Function.update_self])
    rwa [Function.update_idem] at this

/-- One replica takes in one held op. -/
theorem applyOp (hN : NetInv R N) {i : ι} {op : Op} (hop : Held N op) :
    NetInv R (Function.update N i ((N i).applyOp op).2) := by
  obtain ⟨j, hj⟩ := hop
  have hfold := (hN.fold i).applyOp ((hN.fold j).lamport op hj)
  obtain ⟨c, hle, hc⟩ := (N i).handle.observe_eq op
  have hh : ((N i).applyOp op).2.handle = { (N i).handle with clock := c } := hc
  refine hN.absorb hfold ?_ ?_ ?_ ?_ ?_ ?_
  · rw [hh]
  · rw [hh]
  · rw [hh]
  · rw [hh]; exact hle
  all_goals
    rw [Store.applyOp_file]
    rcases (N i).handle.ingestInTxn_log (N i).file op (.ofReceived (N i).handle.key op) with
      he | ⟨_, hops, _⟩
  · rw [he]; exact fun _ h => h
  · unfold File.log
    rw [hops, List.map_append]
    exact fun o ho => List.mem_append_left _ ho
  · rw [he]; exact fun o ho => ⟨i, ho⟩
  · unfold File.log
    rw [hops, List.map_append]
    intro o ho
    rcases List.mem_append.mp ho with ho | ho
    · exact ⟨i, ho⟩
    · rw [List.map_singleton, List.mem_singleton] at ho
      exact ⟨j, ho ▸ hj⟩

/-- One replica takes in a batch of held ops. -/
theorem apply (hN : NetInv R N) {i : ι} {ops : List Op} (hops : ∀ op ∈ ops, Held N op) :
    NetInv R (Function.update N i ((N i).apply ops).2) := by
  induction ops generalizing N with
  | nil =>
    have : ((N i).apply []).2 = N i := rfl
    rwa [this, Function.update_eq_self]
  | cons op ops ih =>
    have h1 := hN.applyOp (i := i) (hops op List.mem_cons_self)
    have hgrow : ∀ o, Held N o → Held (Function.update N i ((N i).applyOp op).2) o := by
      rintro o ⟨j, hj⟩
      by_cases hji : j = i
      · subst hji
        refine ⟨j, ?_⟩
        rw [Function.update_self, Store.applyOp_file]
        rcases (N j).handle.ingestInTxn_log (N j).file op (.ofReceived (N j).handle.key op) with
          he | ⟨_, hops, _⟩
        · rwa [he]
        · unfold File.log
          rw [hops, List.map_append]
          exact List.mem_append_left _ hj
      · exact ⟨j, by rwa [Function.update_of_ne hji]⟩
    have h2 := ih h1 fun o ho => hgrow o (hops o (List.mem_cons_of_mem op ho))
    rw [Function.update_self, Function.update_idem] at h2
    exact h2

/-- **Every step of the network keeps the invariant.** -/
theorem step (hN : NetInv R N) {N' : ι → Store} (h : NetStep N N') : NetInv R N' := by
  cases h with
  | write i w => exact hN.localSteps (emitting_run w (N i))
  | deliver i ops held => exact hN.apply held

theorem run (hN : NetInv R N) {N' : ι → Store} (h : ReflTransGen NetStep N N') :
    NetInv R N' := by
  induction h with
  | refl => exact hN
  | tail _ hstep ih => exact ih.step hstep

/-! ## Convergence -/

omit [DecidableEq ι] in
/-- Two replicas that hold the same op ids hold the same ops, in some order. -/
theorem log_perm (hN : NetInv R N) {i j : ι}
    (h : ∀ id, id ∈ (N i).file.log.map Op.opId ↔ id ∈ (N j).file.log.map Op.opId) :
    (N i).file.log.Perm (N j).file.log := by
  refine (List.perm_ext_iff_of_nodup (hN.fold i).nodup.of_map (hN.fold j).nodup.of_map).mpr ?_
  have half : ∀ i j, (∀ id, id ∈ (N i).file.log.map Op.opId → id ∈ (N j).file.log.map Op.opId) →
      ∀ op ∈ (N i).file.log, op ∈ (N j).file.log := by
    intro i j hij op hop
    obtain ⟨o, ho, hid⟩ := List.mem_map.mp (hij _ (List.mem_map_of_mem hop))
    rwa [← hN.ids o op ⟨j, ho⟩ ⟨i, hop⟩ hid]
  exact fun op => ⟨half i j (fun id => (h id).mp) op, half j i (fun id => (h id).mpr) op⟩

omit [DecidableEq ι] in
/-- Any two ops of the network fold in either order. -/
theorem commute (hN : NetInv R N) {a b : Op} (ha : Held N a) (hb : Held N b) :
    Commute taskReducer.foldView a b := by
  by_cases hab : a = b
  · subst hab
    exact fun _ => rfl
  · have hla : 1 ≤ a.lamport := ha.elim fun i h => (hN.fold i).lamport a h
    have hlb : 1 ≤ b.lamport := hb.elim fun i h => (hN.fold i).lamport b h
    exact taskFold_commute (fun h => hab (hN.ids a b ha hb h))
      (fun h => hab (hN.coords a b ha hb h)) (fun _ => hla) fun _ => hlb

end NetInv

omit [DecidableEq ι] in
/-- The network before anything happened. -/
theorem netInv_fresh (R : Replicas ι) (key : ι → ReplicaKey) :
    NetInv R fun i => freshStore (R.site i) (key i) (R.ulids i) where
  fold i := foldInv_freshStore (R.site i) (key i) (R.ulids i)
  site _ := rfl
  ulids _ := rfl
  origin := by rintro op ⟨j, hj⟩; cases hj
  ids := by rintro a b ⟨j, hj⟩; cases hj
  coords := by rintro a b ⟨j, hj⟩; cases hj

/-- **Convergence**: after any run, two replicas that hold the same set of op ids hold the same rows,
cell by cell, in all fourteen view tables. -/
theorem views_eq_of_same_ops (R : Replicas ι) {key : ι → ReplicaKey} {N₀ N : ι → Store}
    (h₀ : ∀ i, openInMemory (R.site i) (key i) (R.ulids i) = some (N₀ i))
    (hrun : ReflTransGen NetStep N₀ N) {i j : ι}
    (hids : ∀ id, id ∈ (N i).file.log.map Op.opId ↔ id ∈ (N j).file.log.map Op.opId) :
    ∀ t ∈ TaskReducer.viewTables, ∀ k, (N i).file.views.get t k = (N j).file.views.get t k := by
  have hfresh : N₀ = fun i => freshStore (R.site i) (key i) (R.ulids i) := by
    funext i
    have := h₀ i
    rw [openInMemory_eq] at this
    exact (Option.some.inj this).symm
  subst hfresh
  have hN := (netInv_fresh R key).run hrun
  have hviews : (N i).file.views.get = (N j).file.views.get := by
    rw [(hN.fold i).folded, (hN.fold j).folded]
    exact foldl_perm (hN.log_perm hids) _ fun a ha b hb => hN.commute ⟨i, ha⟩ ⟨i, hb⟩
  intro t _ k
  rw [hviews]

/-- Two replicas, with op ids told apart by their first letter. -/
def pairReplicas : Replicas Bool where
  site b := if b then 2 else 1
  ulids b n := String.ofList ((if b then 'b' else 'a') :: List.replicate n '0')
  site_inj := by
    intro a b h
    revert h
    cases a <;> cases b <;> decide
  ulids_inj := by
    rintro ⟨a, m⟩ ⟨b, n⟩ h
    have h := congrArg String.toList h
    simp only [String.toList_ofList, List.cons.injEq] at h
    have hn := congrArg List.length h.2
    simp only [List.length_replicate] at hn
    have hb : a = b := by
      have h1 := h.1
      clear h hn
      revert h1
      cases a <;> cases b <;> simp
    rw [hb, hn]

/-- One replica creates an item and the other one receives its three ops. -/
def createdAndDelivered : Bool → Store :=
  let N₀ : Bool → Store := fun i => freshStore (pairReplicas.site i) silentKey (pairReplicas.ulids i)
  let N₁ := Function.update N₀ false
    (LocalWrite.run (.createItem "aaaa.1" "task" "T" "alice") (N₀ false))
  Function.update N₁ true ((N₁ true).apply (N₁ false).file.log).2

/-- The two replicas above hold the same three op ids, so the same board, with the item on it. -/
theorem views_eq_of_same_ops_created_item :
    (∀ t ∈ TaskReducer.viewTables, ∀ k, (createdAndDelivered true).file.views.get t k =
      (createdAndDelivered false).file.views.get t k) ∧
    ((createdAndDelivered true).file.views.get "items" [("id", .text "aaaa.1")]).map (· "title") =
      some (.text "T") := by
  refine ⟨views_eq_of_same_ops pairReplicas (fun i => openInMemory_eq _ silentKey _) ?_ ?_,
    by decide⟩
  · exact (ReflTransGen.single (.write false _)).tail (.deliver true _ fun op hop => ⟨false, hop⟩)
  · have h : (createdAndDelivered true).file.log.map Op.opId =
        (createdAndDelivered false).file.log.map Op.opId := by decide
    exact fun id => by rw [h]

end NexusFlow.Core
