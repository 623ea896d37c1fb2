import NexusFlow.Host.Hosts
import NexusFlow.Host.LogKeys

/-!
# Where an accepted input is

An input that `enqueue` accepted is folded once: it waits in the inbox, stands in the log, or was set
aside by a logged `poison/<run>/<key>`. `Inputs` is the hosts of a store with the keys that were
accepted. As in `step_input`, a host folds or sets aside a row on a state it had before it read the
row (`Inputs.may`), and an input comes with a key of the formats `LogKeys` lists.

* `accepted_is_kept`: no accepted input is lost, and none stands twice. An `append` that is refused
  for a duplicate key drops no input that is not in the log.
* `accepted_twice`: a key that was set aside is no duplicate to `enqueue`, so it may be accepted again
  and is then in two places.
-/

namespace NexusFlow.Host

open NexusFlow.Run
open NexusFlow.Lib

/-! ## The model -/

/-- The keys that wait for a run. -/
def Store.inboxKeys (s : Store) (run : RunId) : List Key := (s.inbox run).map fun e => e.key

/-- The keys of a run's log. -/
def Store.logKeys (s : Store) (run : RunId) : List Key := (s.load run).map fun e => e.key

/-- The hosts of a store; for each row they have read, how many states they had folded by then; the
keys `enqueue` accepted; and those of them that had been set aside before. -/
structure Inputs where
  hosts : Hosts
  seen : List Nat
  accepted : List (RunId × Key)
  again : List (RunId × Key)

/-- A new file. -/
def Inputs.start : Inputs := ⟨.start, [], [], []⟩

/-- `step_input` has its state before it reads the row, and an input comes with its key. -/
def Inputs.may (c : Inputs) : HostAct → Bool
  | .fold view row _ _ | .setAside view row _ _ _ => (c.seen[row]?).any fun n => view < n
  | .enqueue _ event _ => isInputKey event.key
  | _ => true

section Model

variable (flow : RunId → FlowDef) (codec : Codec)

/-- **One store call of one process.** -/
def Inputs.act (c : Inputs) (a : HostAct) : Inputs :=
  if c.may a then
    let hosts := c.hosts.act flow codec a
    match a with
    | .next _ _ =>
      { c with
        hosts
        seen := if c.hosts.rows.length < hosts.rows.length then c.seen ++ [c.hosts.views.length]
          else c.seen }
    | .enqueue run event cas =>
      match (c.hosts.store.enqueue run event cas).2 with
      | .ok .accepted =>
        { c with
          hosts
          accepted := c.accepted ++ [(run, event.key)]
          again := if poisonKey run event.key ∈ c.hosts.store.logKeys run
            then c.again ++ [(run, event.key)] else c.again }
      | _ => { c with hosts }
    | _ => { c with hosts }
  else c

/-- The inputs after some calls. -/
def Inputs.acts (c : Inputs) (acts : List HostAct) : Inputs := acts.foldl (Inputs.act flow codec) c

end Model

/-- How often a key stands in the three places. -/
def Inputs.places (c : Inputs) (run : RunId) (key : Key) : Nat :=
  (c.hosts.store.inboxKeys run).count key + (c.hosts.store.logKeys run).count key +
    (c.hosts.store.logKeys run).count (poisonKey run key)

/-! ## The invariant -/

section Accounts

variable {flow : RunId → FlowDef} {codec : Codec}

/-- A row that was read from an inbox, after `n` states: while the log has not moved since one of
them, it still waits, or its key was accepted again. -/
structure Read (c : Inputs) (run : RunId) (r : Envelope) (n : Nat) : Prop where
  key : isInputKey r.key = true
  before : n ≤ c.hosts.views.length
  waits : ∀ j v, j < n → c.hosts.views[j]? = some v → v.run = run →
    v.seq = (c.hosts.store.load run).length →
      r.key ∈ c.hosts.store.inboxKeys run ∨ (run, r.key) ∈ c.again

/-- **What holds of the keys of a store.** -/
structure Inputs.Accounts (flow : RunId → FlowDef) (codec : Codec) (c : Inputs) : Prop where
  kept : c.hosts.Kept flow codec
  keys : ∀ run, ∀ k ∈ c.hosts.store.logKeys run,
    LogKey (foldLog run (flow run) (c.hosts.store.load run)) (c.hosts.store.logKeys run) k
  logOnce : ∀ run, (c.hosts.store.logKeys run).Nodup
  inboxOnce : ∀ run, (c.hosts.store.inboxKeys run).Nodup
  apart : ∀ run, ∀ k ∈ c.hosts.store.inboxKeys run, k ∉ c.hosts.store.logKeys run
  inputs : ∀ run, ∀ k ∈ c.hosts.store.inboxKeys run, isInputKey k = true
  aligned : c.seen.length = c.hosts.rows.length
  read : ∀ (i : Nat) host run r n, c.hosts.rows[i]? = some (host, run, r) → c.seen[i]? = some n →
    Read c run r n
  somewhere : ∀ run k, (run, k) ∈ c.accepted → k ∈ c.hosts.store.inboxKeys run ∨
    k ∈ c.hosts.store.logKeys run ∨ poisonKey run k ∈ c.hosts.store.logKeys run
  parked : ∀ run k, poisonKey run k ∈ c.hosts.store.logKeys run →
    k ∈ c.hosts.store.inboxKeys run ∨ k ∈ c.hosts.store.logKeys run → (run, k) ∈ c.again

theorem Inputs.start_accounts : Inputs.start.Accounts flow codec where
  kept := Hosts.start_kept
  keys _ _ hk := (List.not_mem_nil hk).elim
  logOnce _ := List.nodup_nil
  inboxOnce _ := List.nodup_nil
  apart _ _ hk := (List.not_mem_nil hk).elim
  inputs _ _ hk := (List.not_mem_nil hk).elim
  aligned := rfl
  read i _ _ _ _ hi := by cases hi
  somewhere _ _ hk := (List.not_mem_nil hk).elim
  parked _ _ hk := (List.not_mem_nil hk).elim

/-! ### What the keys of a store become -/

/-- The inbox of a run after a row was deleted. -/
theorem mem_inboxKeys_deleted {s s' : Store} {run : RunId} {key : Key}
    (h : s'.inbox = setRun s.inbox run (deleteRows (s.inbox run) [key])) {other : RunId} {k : Key} :
    k ∈ s'.inboxKeys other ↔ k ∈ s.inboxKeys other ∧ (other = run → k ≠ key) := by
  unfold Store.inboxKeys
  rw [h]
  by_cases hother : other = run
  · subst hother
    rw [setRun_self]
    simp only [deleteRows, List.mem_map, List.mem_filter, List.mem_singleton, decide_eq_true_eq,
      true_implies]
    constructor
    · rintro ⟨e, ⟨he, hne⟩, rfl⟩
      exact ⟨⟨e, he, rfl⟩, hne⟩
    · rintro ⟨⟨e, he, rfl⟩, hne⟩
      exact ⟨e, ⟨he, hne⟩, rfl⟩
  · rw [setRun_other _ _ hother]
    exact ⟨fun hk => ⟨hk, fun heq => absurd heq hother⟩, And.left⟩

theorem nodup_inboxKeys_deleted {s s' : Store} {run : RunId} {key : Key}
    (h : s'.inbox = setRun s.inbox run (deleteRows (s.inbox run) [key])) {other : RunId}
    (hnodup : (s.inboxKeys other).Nodup) : (s'.inboxKeys other).Nodup := by
  unfold Store.inboxKeys at *
  rw [h]
  by_cases hother : other = run
  · subst hother
    rw [setRun_self]
    exact hnodup.sublist (List.filter_sublist.map _)
  · rwa [setRun_other _ _ hother]

theorem mem_inboxKeys_enqueued {s s' : Store} {run : RunId} {event : Envelope} {cas : List Cas}
    (h : Enqueues s run event cas s') {other : RunId} {k : Key} :
    k ∈ s'.inboxKeys other ↔ k ∈ s.inboxKeys other ∨ (other = run ∧ k = event.key) := by
  unfold Store.inboxKeys
  rw [h.inbox]
  by_cases hother : other = run
  · subst hother
    rw [setRun_self, List.map_append, List.mem_append, List.map_singleton, List.mem_singleton]
    simp only [true_and]
  · rw [setRun_other _ _ hother]
    exact ⟨Or.inl, fun hk => hk.resolve_right fun heq => hother heq.1⟩

theorem nodup_inboxKeys_enqueued {s s' : Store} {run : RunId} {event : Envelope} {cas : List Cas}
    (h : Enqueues s run event cas s') {other : RunId} (hnodup : (s.inboxKeys other).Nodup) :
    (s'.inboxKeys other).Nodup := by
  unfold Store.inboxKeys at *
  rw [h.inbox]
  by_cases hother : other = run
  · subst hother
    rw [setRun_self, List.map_append]
    refine hnodup.append (List.nodup_singleton _) ?_
    intro k hk hk'
    obtain ⟨e, he, rfl⟩ := List.mem_map.mp hk
    rw [List.map_singleton, List.mem_singleton] at hk'
    exact h.waiting e he hk'
  · rwa [setRun_other _ _ hother]

theorem logKeys_of_load {s s' : Store} (h : ∀ run, s'.load run = s.load run) (run : RunId) :
    s'.logKeys run = s.logKeys run := by
  unfold Store.logKeys
  rw [h]

/-- What `logged_seq` finds is a key of the log. -/
theorem loggedSeq_isSome {s : Store} {run : RunId} {key : Key} :
    (loggedSeq (s.events run) key).isSome = true ↔ key ∈ s.logKeys run := by
  unfold loggedSeq Store.logKeys Store.load
  rw [Option.isSome_map, List.find?_isSome, List.map_map, List.mem_map]
  refine exists_congr fun e => and_congr_right fun _ => ?_
  rw [beq_iff_eq]
  rfl

theorem duplicateOf_none {s : Store} {run : RunId} {events : List Envelope}
    (h : duplicateOf (s.events run) events = none) : ∀ e ∈ events, e.key ∉ s.logKeys run := by
  intro e he hmem
  have hnone := List.findSome?_eq_none_iff.mp h e he
  rw [← loggedSeq_isSome, hnone] at hmem
  cases hmem

theorem duplicateOf_some {s : Store} {run : RunId} {events : List Envelope} {seq : Nat}
    (h : duplicateOf (s.events run) events = some seq) : ∃ e ∈ events, e.key ∈ s.logKeys run := by
  obtain ⟨e, he, hseq⟩ := List.exists_of_findSome?_eq_some h
  refine ⟨e, he, loggedSeq_isSome.mp ?_⟩
  rw [hseq]
  rfl

/-! ### Calls that leave the logs -/

/-- A row is deleted whose key is in the log, or was set aside. -/
theorem Inputs.Accounts.deleted {c : Inputs} (h : c.Accounts flow codec) {run : RunId} {key : Key}
    (hkey : key ∈ c.hosts.store.logKeys run ∨ poisonKey run key ∈ c.hosts.store.logKeys run)
    {s' : Store} (hs' : s' = { c.hosts.store with
      inbox := setRun c.hosts.store.inbox run (deleteRows (c.hosts.store.inbox run) [key]) }) :
    ({ c with hosts := { c.hosts with store := s' } } : Inputs).Accounts flow codec := by
  have hinbox : s'.inbox =
      setRun c.hosts.store.inbox run (deleteRows (c.hosts.store.inbox run) [key]) := by rw [hs']
  have hmem : ∀ {other k}, k ∈ s'.inboxKeys other ↔
      k ∈ c.hosts.store.inboxKeys other ∧ (other = run → k ≠ key) := mem_inboxKeys_deleted hinbox
  have hload : ∀ other, s'.load other = c.hosts.store.load other := by
    rw [hs']
    exact fun _ => rfl
  have hlog := logKeys_of_load hload
  have hseq : ∀ other, s'.lastSeq other = c.hosts.store.lastSeq other := by
    rw [hs']
    exact fun _ => rfl
  refine ⟨h.kept.same hload hseq, fun other k hk => ?_, fun other => ?_,
    fun other => nodup_inboxKeys_deleted hinbox (h.inboxOnce other), fun other k hk => ?_,
    fun other k hk => h.inputs other k (hmem.mp hk).1, h.aligned,
    fun i host other r n hi hn => ⟨(h.read i host other r n hi hn).key,
      (h.read i host other r n hi hn).before, fun j v hj hv hrun hlen => ?_⟩,
    fun other k hk => ?_, fun other k hk hin => ?_⟩
  · simp only [hlog, hload] at hk ⊢
    exact h.keys other k hk
  · simp only [hlog]
    exact h.logOnce other
  · simp only [hlog]
    exact h.apart other k (hmem.mp hk).1
  · simp only [hload] at hlen
    rcases (h.read i host other r n hi hn).waits j v hj hv hrun hlen with hin | hagain
    · by_cases hgone : other = run ∧ r.key = key
      · obtain ⟨rfl, rfl⟩ := hgone
        rcases hkey with hkey | hkey
        · exact absurd hkey (h.apart other _ hin)
        · exact Or.inr (h.parked other _ hkey (Or.inl hin))
      · exact Or.inl (hmem.mpr ⟨hin, fun hother heq => hgone ⟨hother, heq⟩⟩)
    · exact Or.inr hagain
  · simp only [hlog]
    rcases h.somewhere other k hk with hin | hother
    · by_cases hgone : other = run ∧ k = key
      · obtain ⟨rfl, rfl⟩ := hgone
        exact Or.inr hkey
      · exact Or.inl (hmem.mpr ⟨hin, fun hother heq => hgone ⟨hother, heq⟩⟩)
    · exact Or.inr hother
  · simp only [hlog] at hk hin
    exact h.parked other k hk (hin.imp_left fun hin => (hmem.mp hin).1)

/-- An input is accepted. -/
theorem Inputs.Accounts.enqueued {c : Inputs} (h : c.Accounts flow codec) {run : RunId}
    {event : Envelope} {cas : List Cas} {s' : Store} (he : Enqueues c.hosts.store run event cas s')
    (hkey : isInputKey event.key = true) :
    ({ c with
      hosts := { c.hosts with store := s' }
      accepted := c.accepted ++ [(run, event.key)]
      again := if poisonKey run event.key ∈ c.hosts.store.logKeys run
        then c.again ++ [(run, event.key)] else c.again } : Inputs).Accounts flow codec := by
  have hmem : ∀ {other k}, k ∈ s'.inboxKeys other ↔
      k ∈ c.hosts.store.inboxKeys other ∨ (other = run ∧ k = event.key) := mem_inboxKeys_enqueued he
  have hload := load_of_events he.events
  have hlog := logKeys_of_load hload
  have hnew : event.key ∉ c.hosts.store.logKeys run := by
    rw [← loggedSeq_isSome, he.logged]
    exact Bool.false_ne_true
  have hagain : ∀ {x}, x ∈ c.again → x ∈ if poisonKey run event.key ∈ c.hosts.store.logKeys run
      then c.again ++ [(run, event.key)] else c.again := by
    intro x hx
    split_ifs
    · exact List.mem_append_left _ hx
    · exact hx
  refine ⟨h.kept.same hload he.lastSeq, fun other k hk => ?_, fun other => ?_,
    fun other => nodup_inboxKeys_enqueued he (h.inboxOnce other), fun other k hk => ?_,
    fun other k hk => ?_, h.aligned,
    fun i host other r n hi hn => ⟨(h.read i host other r n hi hn).key,
      (h.read i host other r n hi hn).before, fun j v hj hv hrun hlen => ?_⟩,
    fun other k hk => ?_, fun other k hk hin => ?_⟩
  · simp only [hlog, hload] at hk ⊢
    exact h.keys other k hk
  · simp only [hlog]
    exact h.logOnce other
  · simp only [hlog]
    rcases hmem.mp hk with hk | ⟨rfl, rfl⟩
    · exact h.apart other k hk
    · exact hnew
  · rcases hmem.mp hk with hk | ⟨rfl, rfl⟩
    · exact h.inputs other k hk
    · exact hkey
  · simp only [hload] at hlen
    rcases (h.read i host other r n hi hn).waits j v hj hv hrun hlen with hin | hin
    · exact Or.inl (hmem.mpr (Or.inl hin))
    · exact Or.inr (hagain hin)
  · simp only [hlog]
    rcases List.mem_append.mp hk with hk | hk
    · exact (h.somewhere other k hk).imp_left fun hin => hmem.mpr (Or.inl hin)
    · cases List.mem_singleton.mp hk
      exact Or.inl (hmem.mpr (Or.inr ⟨rfl, rfl⟩))
  · simp only [hlog] at hk hin
    have hold : k ∈ c.hosts.store.inboxKeys other ∨ k ∈ c.hosts.store.logKeys other →
        (other, k) ∈ c.again := h.parked other k hk
    rcases hin with hin | hin
    · rcases hmem.mp hin with hin | ⟨rfl, rfl⟩
      · exact hagain (hold (Or.inl hin))
      · rw [if_pos hk]
        exact List.mem_append_right _ (List.mem_singleton_self _)
    · exact hagain (hold (Or.inr hin))

/-- A host folds a state. -/
theorem Inputs.Accounts.loaded {c : Inputs} (h : c.Accounts flow codec) {v : View}
    (hkept : ({ c.hosts with views := c.hosts.views ++ [v] } : Hosts).Kept flow codec) :
    ({ c with hosts := { c.hosts with views := c.hosts.views ++ [v] } } : Inputs).Accounts
      flow codec := by
  refine ⟨hkept, h.keys, h.logOnce, h.inboxOnce, h.apart, h.inputs, h.aligned,
    fun i host run r n hi hn => ?_, h.somewhere, h.parked⟩
  have hread := h.read i host run r n hi hn
  refine ⟨hread.key, ?_, fun j w hj hw => hread.waits j w hj ?_⟩
  · rw [List.length_append]
    exact hread.before.trans (Nat.le_add_right _ _)
  · rwa [List.getElem?_append_left (lt_of_lt_of_le hj hread.before)] at hw

/-- A host reads a row. -/
theorem Inputs.Accounts.readRow {c : Inputs} (h : c.Accounts flow codec) {host : String}
    {run : RunId} {row : Envelope} (hrow : row ∈ c.hosts.store.inbox run) :
    ({ c with
      hosts := { c.hosts with rows := c.hosts.rows ++ [(host, run, row)] }
      seen := c.seen ++ [c.hosts.views.length] } : Inputs).Accounts flow codec := by
  have hin : row.key ∈ c.hosts.store.inboxKeys run := List.mem_map_of_mem hrow
  refine ⟨⟨h.kept.trace, h.kept.reads, h.kept.lastSeq, h.kept.views⟩, h.keys, h.logOnce, h.inboxOnce,
    h.apart, h.inputs, ?_, fun i host' run' r n hi hn => ?_, h.somewhere, h.parked⟩
  · simp only [List.length_append, List.length_singleton, h.aligned]
  · by_cases hlt : i < c.hosts.rows.length
    · rw [List.getElem?_append_left hlt] at hi
      rw [List.getElem?_append_left (h.aligned ▸ hlt)] at hn
      have hread := h.read i host' run' r n hi hn
      exact ⟨hread.key, hread.before, hread.waits⟩
    · rw [List.getElem?_append_right (Nat.le_of_not_lt hlt)] at hi
      rw [List.getElem?_append_right (h.aligned ▸ Nat.le_of_not_lt hlt), h.aligned] at hn
      cases hd : i - c.hosts.rows.length with
      | succ m => rw [hd] at hi; cases hi
      | zero =>
        rw [hd] at hi hn
        cases hi
        cases hn
        exact ⟨h.inputs run _ hin, le_refl _, fun _ _ _ _ _ _ => Or.inl hin⟩

/-! ### Calls that write -/

/-- What a block of events that a row is written with holds. -/
structure Writes (flow : RunId → FlowDef) (s : Store) (run : RunId) (key : Key)
    (block : List Event) : Prop where
  some : block ≠ []
  new : ∀ e ∈ block, e.key ∉ s.logKeys run
  once : (block.map fun e => e.key).Nodup
  keys : ∀ e ∈ block, LogKey (foldLog run (flow run) (s.load run ++ block))
    (s.logKeys run ++ block.map fun e => e.key) e.key
  stays : (foldLog run (flow run) (s.load run ++ block)).run = run ∧
    ∀ q ∈ (foldLog run (flow run) (s.load run)).questions,
      ∃ q' ∈ (foldLog run (flow run) (s.load run ++ block)).questions, q'.id = q.id
  holds : key ∈ block.map (fun e => e.key) ∨ poisonKey run key ∈ block.map fun e => e.key
  input : ∀ e ∈ block, isInputKey e.key = true → e.key = key
  aside : ∀ e ∈ block, ∀ k, e.key = poisonKey run k → k = key ∧ ∀ e' ∈ block, e'.key ≠ key

theorem Inputs.Accounts.foldRun {c : Inputs} (h : c.Accounts flow codec) (run : RunId) :
    (foldLog run (flow run) (c.hosts.store.load run)).run = run := by
  obtain ⟨entries, hr⟩ := (h.kept.trace run).reaches
  exact hr.fixed.1

theorem Inputs.Accounts.inv {c : Inputs} (h : c.Accounts flow codec) (hwf : ∀ run, (flow run).WF)
    (run : RunId) : Inv (foldLog run (flow run) (c.hosts.store.load run)) := by
  obtain ⟨entries, hr⟩ := (h.kept.trace run).reaches
  exact hr.inv (hwf run)

/-- **A row that a host read is written into the log**, on a state it had before. -/
theorem Inputs.Accounts.appended {c : Inputs} (h : c.Accounts flow codec)
    (hwf : ∀ run, (flow run).WF) {run : RunId} {r : Envelope} {n j : Nat} {v : View}
    (hread : Read c run r n) (hj : j < n) (hv : c.hosts.views[j]? = some v) (hvrun : v.run = run)
    (hvseq : v.seq = (c.hosts.store.load run).length) {block : List Event}
    (hw : Writes flow c.hosts.store run r.key block) {s' : Store} {views : List View}
    (hkept : (Hosts.mk s' (c.hosts.views ++ views) c.hosts.rows).Kept flow codec)
    (hload : ∀ other, s'.load other =
      c.hosts.store.load other ++ if other = run then block else [])
    (hinbox : s'.inbox =
      setRun c.hosts.store.inbox run (deleteRows (c.hosts.store.inbox run) [r.key])) :
    ({ c with hosts := ⟨s', c.hosts.views ++ views, c.hosts.rows⟩ } : Inputs).Accounts
      flow codec := by
  have hmem : ∀ {other k}, k ∈ s'.inboxKeys other ↔
      k ∈ c.hosts.store.inboxKeys other ∧ (other = run → k ≠ r.key) := mem_inboxKeys_deleted hinbox
  have hself : s'.logKeys run = c.hosts.store.logKeys run ++ block.map fun e => e.key := by
    unfold Store.logKeys
    rw [hload, if_pos rfl, List.map_append]
  have hother : ∀ {other}, other ≠ run → s'.load other = c.hosts.store.load other := by
    intro other hne
    rw [hload, if_neg hne, List.append_nil]
  have hlog : ∀ {other}, other ≠ run → s'.logKeys other = c.hosts.store.logKeys other := by
    intro other hne
    unfold Store.logKeys
    rw [hother hne]
  have hwaits := hread.waits j v hj hv hvrun hvseq
  refine ⟨hkept, fun other k hk => ?_, fun other => ?_,
    fun other => nodup_inboxKeys_deleted hinbox (h.inboxOnce other), fun other k hk => ?_,
    fun other k hk => h.inputs other k (hmem.mp hk).1, h.aligned,
    fun i host other r' m hi hm => ⟨(h.read i host other r' m hi hm).key, ?_,
      fun i' w hi' hw' hrun hlen => ?_⟩,
    fun other k hk => ?_, fun other k hk hin => ?_⟩
  · by_cases hrun : other = run
    · subst hrun
      have hstate : s'.load other = c.hosts.store.load other ++ block := by rw [hload, if_pos rfl]
      simp only [hstate, hself] at hk ⊢
      rcases List.mem_append.mp hk with hk | hk
      · refine (h.keys other k hk).mono ?_ hw.stays.2 fun _ => List.mem_append_left _
        rw [hw.stays.1, h.foldRun]
      · obtain ⟨e, he, rfl⟩ := List.mem_map.mp hk
        exact hw.keys e he
    · simp only [hother hrun, hlog hrun] at hk ⊢
      exact h.keys other k hk
  · by_cases hrun : other = run
    · subst hrun
      simp only [hself]
      refine (h.logOnce other).append hw.once fun k hk hk' => ?_
      obtain ⟨e, he, rfl⟩ := List.mem_map.mp hk'
      exact hw.new e he hk
    · simp only [hlog hrun]
      exact h.logOnce other
  · obtain ⟨hin, hne⟩ := hmem.mp hk
    by_cases hrun : other = run
    · subst hrun
      simp only [hself]
      intro hlogged
      rcases List.mem_append.mp hlogged with hlogged | hlogged
      · exact h.apart other k hin hlogged
      · obtain ⟨e, he, rfl⟩ := List.mem_map.mp hlogged
        exact hne rfl (hw.input e he (h.inputs other _ hin))
    · simp only [hlog hrun]
      exact h.apart other k hin
  · have hbefore := (h.read i host other r' m hi hm).before
    rw [List.length_append]
    exact hbefore.trans (Nat.le_add_right _ _)
  · -- A state from before the write is behind the log now.
    have hread' := h.read i host other r' m hi hm
    rw [List.getElem?_append_left (lt_of_lt_of_le hi' hread'.before)] at hw'
    by_cases hother' : other = run
    · exfalso
      subst hother'
      obtain ⟨p, hp, -, -, hlen'⟩ := h.kept.views w (List.mem_of_getElem? hw')
      have hle : p.length ≤ (c.hosts.store.load other).length := by
        rw [← hrun]
        exact hp.length_le
      have hpos : 0 < block.length := List.length_pos_of_ne_nil hw.some
      simp only [hload, if_true, List.length_append] at hlen
      omega
    · simp only [hother hother'] at hlen
      rcases hread'.waits i' w hi' hw' hrun hlen with hin | hagain
      · exact Or.inl (hmem.mpr ⟨hin, fun heq => absurd heq hother'⟩)
      · exact Or.inr hagain
  · by_cases hrun : other = run
    · subst hrun
      simp only [hself]
      rcases h.somewhere other k hk with hin | hin | hin
      · by_cases hkey : k = r.key
        · subst hkey
          exact Or.inr (hw.holds.imp (List.mem_append_right _) (List.mem_append_right _))
        · exact Or.inl (hmem.mpr ⟨hin, fun _ => hkey⟩)
      · exact Or.inr (Or.inl (List.mem_append_left _ hin))
      · exact Or.inr (Or.inr (List.mem_append_left _ hin))
    · simp only [hlog hrun]
      refine (h.somewhere other k hk).imp_left fun hin => hmem.mpr ⟨hin, fun heq => ?_⟩
      exact absurd heq hrun
  · by_cases hrun : other = run
    · subst hrun
      simp only [hself] at hk hin
      rcases List.mem_append.mp hk with hk | hk
      · have hold : k ∈ c.hosts.store.inboxKeys other ∨ k ∈ c.hosts.store.logKeys other →
            (other, k) ∈ c.again := h.parked other k hk
        rcases hin with hin | hin
        · exact hold (Or.inl (hmem.mp hin).1)
        · rcases List.mem_append.mp hin with hin | hin
          · exact hold (Or.inr hin)
          · obtain ⟨e, he, rfl⟩ := List.mem_map.mp hin
            have hkey := hw.input e he
              ((h.keys other _ hk).parked (h.inv hwf other) (h.foldRun other))
            rw [hkey] at hold ⊢
            exact hwaits.elim (fun hin => hold (Or.inl hin)) id
      · obtain ⟨e, he, hek⟩ := List.mem_map.mp hk
        obtain ⟨rfl, hnot⟩ := hw.aside e he k hek
        rcases hin with hin | hin
        · exact absurd rfl ((hmem.mp hin).2 rfl)
        · rcases List.mem_append.mp hin with hin | hin
          · exact hwaits.elim (fun hwait => absurd hin (h.apart other _ hwait)) id
          · obtain ⟨e', he', hek'⟩ := List.mem_map.mp hin
            exact absurd hek' (hnot e' he')
    · simp only [hlog hrun] at hk hin
      exact h.parked other k hk (hin.imp_left fun hin => (hmem.mp hin).1)

theorem Hosts.hand_getElem {c : Hosts} {view row : Nat} {v : View} {r : Envelope}
    (h : c.hand view row = some (v, r)) :
    c.views[view]? = some v ∧ c.rows[row]? = some (v.host, v.run, r) := by
  unfold Hosts.hand at h
  split at h
  · rename_i w host run e hview hrow
    split_ifs at h with hmine
    cases h
    obtain ⟨rfl, rfl⟩ := hmine
    exact ⟨hview, hrow⟩
  · cases h

theorem checkCall_nodup {events : List Envelope} {cas : List Cas}
    (h : checkCall events cas = .ok ()) : (events.map fun e => e.key).Nodup := by
  unfold checkCall at h
  by_contra hnot
  rw [if_pos hnot] at h
  cases h

theorem map_key_blockOf (v : Nat) (events : List Event) :
    (blockOf v events).map (fun e => e.key) = events.map fun e => e.key := by
  rw [← map_blockOf v events, List.map_map, map_blockOf]
  rfl

/-- The block of an input that is folded. -/
theorem writes_reduce {c : Hosts} {v : View} {r : Envelope} {input : Event} {fence : Epoch}
    {cas : List Cas} (hinv : Inv (foldLog v.run (flow v.run) (c.store.load v.run)))
    (hfixed : (foldLog v.run (flow v.run) (c.store.load v.run)).run = v.run)
    (hkey : isInputKey r.key = true) (hread : codec.readBack r.toEvent = some input)
    (hin : isDecision input.body = false)
    (hstate : v.state = foldLog v.run (flow v.run) (c.store.load v.run))
    (hguard : Guarded c.store v.run v.seq fence (blockOf r.v (reduce v.state v.seq input)) cas)
    (hnew : duplicateOf (c.store.events v.run) (blockOf r.v (reduce v.state v.seq input)) = none) :
    Writes flow c.store v.run r.key (reduce v.state v.seq input) := by
  have hik : input.key = r.key := codec.key hread
  have hinput : isInputKey input.key = true := hik ▸ hkey
  rw [← hstate] at hinv hfixed
  have hnext : foldLog v.run (flow v.run) (c.store.load v.run ++ reduce v.state v.seq input) =
      step v.state { input with seq := v.seq + 1 } := by
    rw [foldLog_append, ← hstate, foldl_reduce _ _ hin]
  have hhead : input.key ∈ (reduce v.state v.seq input).map fun e => e.key :=
    List.mem_cons_self
  refine ⟨List.cons_ne_nil _ _, fun e he => ?_, ?_, fun e he => ?_, ⟨?_, fun q hq => ?_⟩,
    Or.inl (hik ▸ hhead), fun e he hek => ?_, fun e he k hek => ?_⟩
  · have hall := duplicateOf_none hnew
    have hmem : e.key ∈ (blockOf r.v (reduce v.state v.seq input)).map fun e => e.key := by
      rw [map_key_blockOf]
      exact List.mem_map_of_mem he
    obtain ⟨env, henv, heq⟩ := List.mem_map.mp hmem
    exact heq ▸ hall env henv
  · rw [← map_key_blockOf r.v]
    exact checkCall_nodup hguard.call
  · rw [hnext]
    exact block_keys hinput (List.mem_append_right _ hhead) e he
  · rw [hnext]
    exact (Item.apply_fixed v.state (.input { input with seq := v.seq + 1 })).1.trans hfixed
  · rw [← hstate] at hq
    rw [hnext]
    obtain ⟨q', hq', hid, -⟩ := question_stays { input with seq := v.seq + 1 } hq
    exact ⟨q', hq', hid⟩
  · exact ((block_key_kind hinv hinput he).1 hek).trans hik
  · exact absurd hek ((block_key_kind hinv hinput he).2 v.run k)

/-- The park of a row that is set aside. -/
theorem writes_poison {c : Hosts} {run : RunId} {key : Key} {seq : Nat} {now : Timestamp}
    (hfixed : (foldLog run (flow run) (c.store.load run)).run = run) (hkey : isInputKey key = true)
    (hnew : duplicateOf (c.store.events run) [⟨poisonEvent run seq now key, contractV⟩] = none) :
    Writes flow c.store run key [poisonEvent run seq now key] := by
  have hnext : foldLog run (flow run) (c.store.load run ++ [poisonEvent run seq now key]) =
      (Item.poison now).apply (foldLog run (flow run) (c.store.load run)) := by
    rw [foldLog_append, foldl_poisonEvent]
  have hsingle : ∀ e ∈ [poisonEvent run seq now key], e.key = poisonKey run key := by
    intro e he
    rw [List.mem_singleton.mp he]
    rfl
  have hfirst : firstPiece key ≠ "poison".toList := (isInputKey_first hkey).1
  refine ⟨List.cons_ne_nil _ _, fun e he => ?_, List.nodup_singleton _, fun e he => ?_,
    ⟨?_, fun q hq => ?_⟩, Or.inr List.mem_cons_self, fun e he hek => ?_,
    fun e he k hek => ⟨?_, fun e' he' heq => ?_⟩⟩
  · rw [hsingle e he]
    exact duplicateOf_none hnew _ List.mem_cons_self
  · rw [hsingle e he, hnext]
    exact .aside ((Item.apply_fixed _ _).1.trans hfixed) hkey
  · rw [hnext]
    exact (Item.apply_fixed _ _).1.trans hfixed
  · rw [hnext, Item.apply_poison]
    exact ⟨q, hq, rfl⟩
  · rw [hsingle e he] at hek
    exact absurd (firstPiece_poisonKey run key) (isInputKey_first hek).1
  · rw [hsingle e he] at hek
    exact (poisonKey_inj hek).symm
  · rw [hsingle e' he'] at heq
    rw [← heq] at hfirst
    exact hfirst (firstPiece_poisonKey run key)

/-- **A row whose block is in the log already is itself in the log.** -/
theorem Inputs.Accounts.logged_of_duplicate {c : Inputs} (h : c.Accounts flow codec)
    (hwf : ∀ run, (flow run).WF) {v : View} {r : Envelope} {input : Event} {seq : Nat}
    (hkey : isInputKey r.key = true) (hread : codec.readBack r.toEvent = some input)
    (hstate : v.state = foldLog v.run (flow v.run) (c.hosts.store.load v.run))
    (hdup : duplicateOf (c.hosts.store.events v.run) (blockOf r.v (reduce v.state v.seq input))
      = some seq) : r.key ∈ c.hosts.store.logKeys v.run := by
  have hik : input.key = r.key := codec.key hread
  by_contra hnot
  obtain ⟨env, henv, hlogged⟩ := duplicateOf_some hdup
  have hmem : env.key ∈ (reduce v.state v.seq input).map fun e => e.key := by
    rw [← map_key_blockOf r.v]
    exact List.mem_map_of_mem henv
  obtain ⟨e, he, heq⟩ := List.mem_map.mp hmem
  rw [← heq] at hlogged
  rw [hstate] at he
  exact block_keys_new (h.inv hwf v.run) (h.keys v.run) (hik ▸ hkey) (hik ▸ hnot) e he hlogged

/-- **One call keeps the accounts.** -/
theorem Inputs.Accounts.act {c : Inputs} (h : c.Accounts flow codec) (hwf : ∀ run, (flow run).WF)
    (a : HostAct) : (c.act flow codec a).Accounts flow codec := by
  unfold Inputs.act
  split_ifs with hmay
  swap
  · exact h
  have hmove := h.kept.move a
  have hkept := h.kept.act a
  -- What the hosts hold of a row, on a state from before it.
  have hhand : ∀ {view row v r}, c.hosts.hand view row = some (v, r) →
      (c.seen[row]?).any (fun n => decide (view < n)) = true →
      ∃ n, view < n ∧ c.hosts.views[view]? = some v ∧ Read c v.run r n := by
    intro view row v r hvr hlt
    obtain ⟨hview, hrow⟩ := Hosts.hand_getElem hvr
    cases hn : c.seen[row]? with
    | none => rw [hn] at hlt; cases hlt
    | some n =>
      rw [hn] at hlt
      exact ⟨n, of_decide_eq_true hlt, hview, h.read row _ _ _ n hrow hn⟩
  cases a with
  | load host run =>
    simp only
    generalize c.hosts.act flow codec (.load host run) = c' at hmove hkept ⊢
    cases hmove with
    | nothing => exact h
    | loaded => exact h.loaded hkept
  | next host run =>
    simp only
    generalize c.hosts.act flow codec (.next host run) = c' at hmove hkept ⊢
    cases hmove with
    | nothing =>
      rw [if_neg (lt_irrefl _)]
      exact h
    | read hrow =>
      rw [if_pos (by simp)]
      exact h.readRow hrow
  | fold view row fence cas =>
    simp only
    generalize c.hosts.act flow codec (.fold view row fence cas) = c' at hmove hkept ⊢
    cases hmove with
    | nothing => exact h
    | @committed _ _ _ _ v r input s' hvr hread hin hstate hseq hguard hnew hw hload =>
      obtain ⟨n, hlt, hview, hr⟩ := hhand hvr hmay
      exact h.appended hwf hr hlt hview rfl hseq
        (writes_reduce (h.inv hwf v.run) (h.foldRun v.run) hr.key hread hin hstate hguard hnew)
        hkept hload hw.inbox
    | @foldedBefore _ _ _ _ v r input seq hvr hread hin hstate hseq hdup =>
      obtain ⟨n, hlt, hview, hr⟩ := hhand hvr hmay
      exact h.deleted (Or.inl (h.logged_of_duplicate hwf hr.key hread hstate hdup)) rfl
  | setAside view row now fence cas =>
    simp only
    generalize c.hosts.act flow codec (.setAside view row now fence cas) = c' at hmove hkept ⊢
    cases hmove with
    | nothing => exact h
    | @aside _ _ _ _ _ v r s' hvr hseq hnew hguard hw hload =>
      obtain ⟨n, hlt, hview, hr⟩ := hhand hvr hmay
      have hsame : (Hosts.mk s' (c.hosts.views ++ []) c.hosts.rows).Kept flow codec := by
        rw [List.append_nil]
        exact hkept
      have hnext := h.appended hwf hr hlt hview rfl hseq
        (writes_poison (h.foldRun v.run) hr.key hnew) hsame hload hw.inbox
      rwa [List.append_nil] at hnext
    | @asideBefore _ _ _ _ _ v r seq hvr hdup =>
      obtain ⟨e, he, hlogged⟩ := duplicateOf_some hdup
      rw [List.mem_singleton.mp he] at hlogged
      exact h.deleted (Or.inr hlogged) rfl
  | enqueue run event cas =>
    simp only [Hosts.act]
    have hcases := c.hosts.store.enqueue_cases run event cas
    generalize c.hosts.store.enqueue run event cas = answer at hcases ⊢
    cases hcases with
    | refused error => exact h
    | duplicate _ => exact h
    | accepted s' he => exact h.enqueued he hmay
  | compareAndSet key «from» «to» =>
    simp only
    generalize c.hosts.act flow codec (.compareAndSet key «from» «to») = c' at hmove hkept ⊢
    cases hmove with
    | nothing => exact h
    | set hkv =>
      refine ⟨hkept, h.keys, h.logOnce, h.inboxOnce, h.apart, h.inputs, h.aligned,
        fun i host run r n hi hn => ?_, h.somewhere, h.parked⟩
      have hr := h.read i host run r n hi hn
      exact ⟨hr.key, hr.before, hr.waits⟩

theorem Inputs.Accounts.acts (hwf : ∀ run, (flow run).WF) (acts : List HostAct) : ∀ {c : Inputs},
    c.Accounts flow codec → (c.acts flow codec acts).Accounts flow codec := by
  induction acts with
  | nil => exact id
  | cons a acts ih => exact fun h => ih (h.act hwf a)

/-- The inbox and the log hold a key once between them. -/
theorem Inputs.Accounts.count_le {c : Inputs} (h : c.Accounts flow codec) (run : RunId) (key : Key) :
    (c.hosts.store.inboxKeys run).count key + (c.hosts.store.logKeys run).count key ≤ 1 := by
  rw [← List.count_append]
  refine List.nodup_iff_count_le_one.mp ((h.inboxOnce run).append (h.logOnce run) ?_) key
  exact fun k hk hk' => h.apart run k hk hk'

/-- **An accepted input is kept, once.** Whatever any number of hosts and other processes do on one
store: a key `enqueue` accepted is in the inbox, in the log or named by a logged park; it is once in
the inbox and the log together, and at one park; and it is in exactly one of the three places unless
it was accepted again after its park. A fold that is refused for a duplicate key, and so deletes the
row, is of an input that is itself in the log. -/
theorem accepted_is_kept (hc : ∀ run, ∃ decl review, compile decl review = .ok (flow run))
    (acts : List HostAct) :
    let c := Inputs.start.acts flow codec acts
    (∀ run key, (run, key) ∈ c.accepted → 1 ≤ c.places run key ∧
      (c.hosts.store.inboxKeys run).count key + (c.hosts.store.logKeys run).count key ≤ 1 ∧
      (c.hosts.store.logKeys run).count (poisonKey run key) ≤ 1 ∧
      ((run, key) ∉ c.again → c.places run key = 1)) ∧
    ∀ view row fence cas v r input seq, c.may (.fold view row fence cas) = true →
      c.hosts.hand view row = some (v, r) → codec.readBack r.toEvent = some input →
      (c.hosts.store.append v.run v.seq fence (blockOf r.v (reduce v.state v.seq input)) [r.key] cas).2
        = .error (.duplicateKey seq) →
      r.key ∈ c.hosts.store.logKeys v.run := by
  intro c
  have hwf : ∀ run, (flow run).WF := fun run => by
    obtain ⟨decl, review, hc⟩ := hc run
    exact compile_wf hc
  have h : c.Accounts flow codec := Inputs.start_accounts.acts hwf acts
  constructor
  · intro run key ha
    have hcount := h.count_le run key
    have hpark : (c.hosts.store.logKeys run).count (poisonKey run key) ≤ 1 :=
      List.nodup_iff_count_le_one.mp (h.logOnce run) _
    have hsome : 1 ≤ c.places run key := by
      unfold Inputs.places
      rcases h.somewhere run key ha with hin | hin | hin
      · have := List.count_pos_iff.mpr hin
        omega
      · have := List.count_pos_iff.mpr hin
        omega
      · have := List.count_pos_iff.mpr hin
        omega
    refine ⟨hsome, hcount, hpark, fun hnot => le_antisymm ?_ hsome⟩
    unfold Inputs.places
    by_cases hparked : poisonKey run key ∈ c.hosts.store.logKeys run
    · have hno : ∀ {k : List Key}, (key ∈ k → key ∈ c.hosts.store.inboxKeys run ∨
          key ∈ c.hosts.store.logKeys run) → k.count key = 0 := fun hin =>
        List.count_eq_zero.mpr fun hk => hnot (h.parked run key hparked (hin hk))
      rw [hno Or.inl, hno Or.inr]
      omega
    · rw [List.count_eq_zero.mpr hparked]
      omega
  · intro view row fence cas v r input seq hmay hvr hread hdup
    have hrow := (Hosts.hand_getElem hvr).2
    have hkey : isInputKey r.key = true := by
      cases hn : c.seen[row]? with
      | none =>
        simp only [Inputs.may, hn] at hmay
        cases hmay
      | some n => exact (h.read row _ _ _ n hrow hn).key
    have hcases := c.hosts.store.append_cases v.run v.seq fence
      (blockOf r.v (reduce v.state v.seq input)) [r.key] cas
    generalize c.hosts.store.append v.run v.seq fence
      (blockOf r.v (reduce v.state v.seq input)) [r.key] cas = answer at hcases hdup
    cases hcases with
    | refused error herror =>
      cases hdup
      cases herror
    | duplicate seq' hguard hd =>
      obtain ⟨hstate, -⟩ := h.kept.current (Hosts.hand_mem hvr).1 hguard.seq
      exact h.logged_of_duplicate hwf hkey hread hstate hd
    | written s' _ _ _ => cases hdup

end Accounts

/-! ## A key accepted twice -/

/-- The run of these. -/
def keyedRun : RunId := "r-1".toList

/-- The host `a` commissions the run. Its report that the root is open will not fold, and is set aside;
the root is still owed, so it is reported again. -/
def reportedTwice : List HostAct := [
  .compareAndSet (ownerKey keyedRun) none (some (.lease ⟨"a", 1, 30000⟩)),
  .enqueue keyedRun ⟨⟨0, 0, slash "commissioned" keyedRun, .commissioned "w" "" .default "" ""⟩, 1⟩ [],
  .load "a" keyedRun, .next "a" keyedRun, .fold 0 0 1 [],
  .enqueue keyedRun ⟨⟨0, 0, slash "root_opened" keyedRun, .rootOpened "" ""⟩, 1⟩ [],
  .next "a" keyedRun, .setAside 1 1 0 1 [],
  .enqueue keyedRun ⟨⟨0, 0, slash "root_opened" keyedRun, .rootOpened "" ""⟩, 1⟩ []]

/-- The first report is in one place: it was set aside. -/
theorem accepted_is_kept_parked :
    (Inputs.start.acts (fun _ => soloFlow) plainCodec (reportedTwice.take 8)).places keyedRun
      (slash "root_opened" keyedRun) = 1 :=
  ((accepted_is_kept (fun _ => ⟨_, _, compile_solo⟩) (reportedTwice.take 8)).1 keyedRun
    (slash "root_opened" keyedRun) (by decide)).2.2.2 (by decide)

/-- **A key that was set aside is accepted again**, and is then in two of the places. -/
theorem accepted_twice :
    ¬ ∀ (flow : RunId → FlowDef) (codec : Codec) (acts : List HostAct) (run : RunId) (key : Key),
      (∀ run, ∃ decl review, compile decl review = .ok (flow run)) →
      (run, key) ∈ (Inputs.start.acts flow codec acts).accepted →
      (Inputs.start.acts flow codec acts).places run key = 1 := by
  intro h
  have hone := h (fun _ => soloFlow) plainCodec reportedTwice keyedRun (slash "root_opened" keyedRun)
    (fun _ => ⟨_, _, compile_solo⟩) (by decide)
  have htwo : (Inputs.start.acts (fun _ => soloFlow) plainCodec reportedTwice).places keyedRun
      (slash "root_opened" keyedRun) = 2 := by decide
  rw [htwo] at hone
  cases hone

end NexusFlow.Host
