import Mathlib.Data.List.MinMax
import NexusFlow.Core.PresentEntries
import NexusFlow.Core.Rebuild

/-!
# Observed remove

An element of one of flow's four observed-remove sets is present when some folded add of it has an op
id that no folded remove names. A remove names the adds that are live where it is written, so an add
not seen there survives (`crates/core/src/store.rs:488-531,994-1104,1234-1250`).

* `OrSet` is one such set: which ops add an element and which ones remove it, the view that shows it
  and the write that removes it. `edgeSet`, `labelSet`, `linkSet` and `entrySet` are the four.
* `observed_remove`: along every run in which the tag of each received add is usable, that is neither
  empty nor holding the separator that joins tags, all four behave as described.
* `observed_remove_split_tag`: a received edge add whose op id holds the separator. The remove of that
  edge names the pieces of the id: it takes away another edge it never saw, and not its own.
  `live_entry_tags` skips such tags and the fold of a list entry refuses them; the three sets of tags
  do neither.
-/

namespace NexusFlow.Core

open NexusFlow.Foundation Relation TaskReducer

/-! ## The four sets -/

/-- An observed-remove set of elements `ε`. -/
structure OrSet (ε : Type) where
  /-- A folded add of the element. -/
  adds : ε → Op → Prop
  /-- A folded remove that may name the element's adds. -/
  removes : ε → Op → Prop
  present : Db → ε → Prop
  remove : ε → String → Write Unit

/-- `present_edges`, `remove_edge`. -/
def edgeSet : OrSet (String × String × EdgeKind) where
  adds e a := foldedAs "edge" "add" a = true ∧ parseEdge a = some (e.1, e.2.1, e.2.2.asStr)
  removes _ r := foldedAs "edge" "remove" r = true
  present db e := ⟨e.1, e.2.1, e.2.2.asStr⟩ ∈ BoardViews.presentEdges db
  remove e author := removeEdge e.1 e.2.1 e.2.2 author

instance (db : Db) (e : String × String × EdgeKind) : Decidable (edgeSet.present db e) :=
  inferInstanceAs (Decidable (_ ∈ BoardViews.presentEdges db))

/-- `present_labels`, `remove_label`. -/
def labelSet : OrSet (String × String) where
  adds e a := foldedAs "label" "add" a = true ∧ parseLabel a = some e
  removes _ r := foldedAs "label" "remove" r = true
  present db e := e ∈ presentLabels db
  remove e author := removeLabel e.1 e.2 author

/-- `present_thread_links`, `remove_thread_link`: the pair, whatever its relation and weight. -/
def linkSet : OrSet (String × String) where
  adds e a := foldedAs "thread_link" "add" a = true ∧
    ∃ relation weight, parseThreadLink a = some (e.1, e.2, relation, weight)
  removes _ r := foldedAs "thread_link" "remove" r = true
  present db e := ∃ link ∈ presentThreadLinks db, link.threadId = e.1 ∧ link.itemId = e.2
  remove e author := removeThreadLink e.1 e.2 author

/-- `field_entries_of`, `remove_field_entry`: one value of one list field of one item. -/
def entrySet : OrSet (String × String × String) where
  adds e a := foldedAs "field" "add" a = true ∧ a.targetId = e.1 ∧ a.field = e.2.1 ∧
    ∃ label, parseEntryAdd a = some (e.2.2, label)
  removes e r := foldedAs "field" "remove" r = true ∧ r.targetId = e.1 ∧ r.field = e.2.1
  present db e := ∃ entry ∈ fieldEntriesOf e.1 e.2.1 db, entry.value = e.2.2
  remove e author := removeFieldEntry e.1 e.2.1 e.2.2 author

namespace OrSet

variable {ε : Type} (S : OrSet ε)

/-- The tag is a folded add's of the element, and no folded remove names it. -/
def Live (ops : List Op) (e : ε) (tag : String) : Prop :=
  ∃ a ∈ ops, S.adds e a ∧ a.opId = tag ∧ ∀ r ∈ ops, S.removes e r → tag ∉ named r

/-- What is expected of the set in the store `s`, whose removes are merged into `t`. -/
structure Observed (s t : Store) : Prop where
  present : ∀ e, S.present s.file.views e ↔ ∃ tag, S.Live s.file.log e tag
  /-- A remove logs ops that name live adds of the element; when it returns, all of them. An add `s`
  has not seen is present in `t` unless a remove other than these names it. -/
  removal : ∀ e author, ∃ new, (S.remove e author s).2.file.log = s.file.log ++ new ∧
    (∀ r ∈ new, ∀ tag ∈ named r, S.Live s.file.log e tag) ∧
    ((S.remove e author s).1 = some () →
      ∀ tag, S.Live s.file.log e tag → ∃ r ∈ new, tag ∈ named r) ∧
    ∀ e', ∀ a ∈ t.file.log, S.adds e' a → a.opId ∉ s.file.log.map Op.opId →
      (∀ r ∈ t.file.log, S.removes e' r → r ∉ new → a.opId ∉ named r) →
      S.present t.file.views e'

end OrSet

/-! ## Runs -/

/-- The op id can be told apart inside a list of tags. -/
def UsableTag (tag : String) : Prop := tag ≠ "" ∧ hasChar sep tag = false

instance (tag : String) : Decidable (UsableTag tag) := inferInstanceAs (Decidable (_ ∧ _))

/-- What `ulid` says of its ids: a new one each time, of letters and digits. -/
structure Ulids (ulids : Nat → String) : Prop where
  inj : Function.Injective ulids
  usable : ∀ n, UsableTag (ulids n)

/-- The op adds an edge, a label or a thread link. -/
def addsTag (op : Op) : Bool := tagSets.any fun S => foldedAs S.kind "add" op

/-- One step of a replica: a local op, or ops received from others. None of those carries an id this
replica has yet to mint. -/
inductive MergeStep : Store → Store → Prop
  | local {s s' : Store} (h : LocalStep s s') : MergeStep s s'
  | received {s : Store} (ops : List Op)
      (hnew : ∀ op ∈ ops, ∀ n, s.handle.minted ≤ n → op.opId ≠ s.handle.ulids n) :
    MergeStep s (s.apply ops).2

/-- A step in which every received add of an edge, a label or a thread link has a usable tag. -/
inductive TaggedStep : Store → Store → Prop
  | local {s s' : Store} (h : LocalStep s s') : TaggedStep s s'
  | received {s : Store} (ops : List Op)
      (hnew : ∀ op ∈ ops, ∀ n, s.handle.minted ≤ n → op.opId ≠ s.handle.ulids n)
      (htag : ∀ op ∈ ops, addsTag op = true → UsableTag op.opId) :
    TaggedStep s (s.apply ops).2

/-- What every such step maintains. -/
structure TagInv (s : Store) : Prop extends LogInv s where
  ulids : Ulids s.handle.ulids
  unminted : ∀ op ∈ s.file.log, ∀ n, s.handle.minted ≤ n → op.opId ≠ s.handle.ulids n
  usable : ∀ op ∈ s.file.log, addsTag op = true → UsableTag op.opId

theorem TagInv.ids {s : Store} (hs : TagInv s) : IdsNameOps s.file.log :=
  idsNameOps_of_nodup hs.nodup

theorem LogInv.shows {s : Store} (hs : LogInv s) : Shows s.file.views s.file.log := by
  intro t _ k
  rw [hs.folded]
  rfl

theorem TagInv.applyOp {s : Store} (hs : TagInv s) {op : Op}
    (hnew : ∀ n, s.handle.minted ≤ n → op.opId ≠ s.handle.ulids n)
    (htag : addsTag op = true → UsableTag op.opId) : TagInv (s.applyOp op).2 := by
  have hlog := hs.toLogInv.applyOp op
  obtain ⟨c, hc⟩ := s.applyOp_eq op
  rw [hc] at hlog ⊢
  exact ⟨hlog, hs.ulids, Handle.ingestInTxn_forall hs.unminted hnew _,
    Handle.ingestInTxn_forall hs.usable htag _⟩

theorem TagInv.apply {s : Store} (hs : TagInv s) {ops : List Op}
    (hnew : ∀ op ∈ ops, ∀ n, s.handle.minted ≤ n → op.opId ≠ s.handle.ulids n)
    (htag : ∀ op ∈ ops, addsTag op = true → UsableTag op.opId) : TagInv (s.apply ops).2 := by
  induction ops generalizing s with
  | nil => exact hs
  | cons op ops ih =>
    have hone := hs.applyOp (hnew op List.mem_cons_self) (htag op List.mem_cons_self)
    have hsame : (s.applyOp op).2.handle.minted = s.handle.minted ∧
        (s.applyOp op).2.handle.ulids = s.handle.ulids := by
      obtain ⟨c, hc⟩ := s.applyOp_eq op
      rw [hc]
      exact ⟨rfl, rfl⟩
    refine ih (s := (s.applyOp op).2) hone (fun o ho n hn => ?_)
      fun o ho => htag o (List.mem_cons_of_mem op ho)
    rw [hsame.2]
    exact hnew o (List.mem_cons_of_mem op ho) n (hsame.1 ▸ hn)

/-- **One emit** that does not panic: one op more in the log, with the value it was given. -/
theorem TagInv.emit {s s' : Store} (hs : TagInv s) {d : Draft} {id : String}
    (h : s.emit d = some (id, s')) : TagInv s' ∧ ∃ op, op.opId = id ∧
      s'.file.log = s.file.log ++ [op] ∧ op.value = d.value := by
  obtain ⟨op, ing, hid, hem⟩ := Store.emit_eq_some h
  have hop : op.opId = s.handle.ulids s.handle.minted := hem.opId
  have hfresh : op.opId ∉ s.file.log.map Op.opId := by
    intro hmem
    obtain ⟨o, ho, hoid⟩ := List.mem_map.mp hmem
    exact hs.unminted o ho _ le_rfl (hoid.trans hop)
  have hlog : s'.file.log = s.file.log ++ [op] := by
    rcases s.handle.ingestInTxn_cases s.file op .own with ⟨_, hk⟩ | ⟨hc, _⟩ | ⟨u, hu, _⟩
    · exact absurd (File.holdsOp_iff.mp hk) hfresh
    · exact absurd (congrArg Prod.fst (hem.ingest.symm.trans hc)) hem.taken
    · unfold File.log
      rw [hem.file, hu, Handle.takeIn_ops]
      simp [File.append]
  refine ⟨⟨hs.toLogInv.localStep (.emit h), ?_, ?_, ?_⟩, op, hid, hlog, ?_⟩
  · rw [hem.handle]
    exact hs.ulids
  · rw [hem.handle, hlog]
    intro o ho n hn
    change s.handle.minted + 1 ≤ n at hn
    rcases List.mem_append.mp ho with ho | ho
    · exact hs.unminted o ho n (by omega)
    · rw [List.mem_singleton.mp ho, hop]
      exact fun h => absurd (hs.ulids.inj h) (by omega)
  · rw [hlog]
    intro o ho htag
    rcases List.mem_append.mp ho with ho | ho
    · exact hs.usable o ho htag
    · rw [List.mem_singleton.mp ho, hop]
      exact hs.ulids.usable _
  · rw [hem.op]
    rfl

theorem TagInv.localStep {s s' : Store} (hs : TagInv s) (h : LocalStep s s') : TagInv s' := by
  cases h with
  | emit h => exact (hs.emit h).1
  | wallClock now =>
    exact ⟨hs.toLogInv.localStep (.wallClock now), hs.ulids, hs.unminted, hs.usable⟩

theorem TagInv.run {s s' : Store} (hs : TagInv s) (h : ReflTransGen TaggedStep s s') :
    TagInv s' := by
  induction h with
  | refl => exact hs
  | tail _ hstep ih =>
    cases hstep with
    | «local» h => exact ih.localStep h
    | received ops hnew htag => exact ih.apply hnew htag

theorem tagInv_freshStore (site : Int) (key : ReplicaKey) {ulids : Nat → String}
    (h : Ulids ulids) : TagInv (freshStore site key ulids) where
  toLogInv := (foldInv_freshStore site key ulids).toLogInv
  ulids := h
  unminted := by simp [freshStore, File.fresh, File.log]
  usable := by simp [freshStore, File.fresh, File.log]

theorem bind_of_some {α β : Type} {m : Write α} {k : α → Write β} {s s' : Store} {a : α}
    (h : m s = (some a, s')) : (m >>= k) s = k a s' := by
  simp [bind, h]

theorem bind_of_none {α β : Type} {m : Write α} {k : α → Write β} {s s' : Store}
    (h : m s = (none, s')) : (m >>= k) s = (none, s') := by
  simp [bind, h]

/-- `emitTask` in such a state. -/
theorem TagInv.emitTask {s : Store} (hs : TagInv s) (kind target field opType : String)
    (value : Option String) (author : String) :
    Core.emitTask kind target field opType value author s = (none, s) ∨
    ∃ op s', Core.emitTask kind target field opType value author s = (some op.opId, s') ∧
      TagInv s' ∧ s'.file.log = s.file.log ++ [op] ∧ op.value = value := by
  unfold Core.emitTask
  cases he : s.emit ⟨domainTask, kind, .given target, field, opType, value, author⟩ with
  | none => exact .inl rfl
  | some p =>
    obtain ⟨id, s'⟩ := p
    obtain ⟨hinv, op, rfl, hlog, hvalue⟩ := hs.emit he
    exact .inr ⟨op, s', rfl, hinv, hlog, hvalue⟩

/-- A remove that joins usable tags names exactly these. -/
theorem named_joinChar {op : Op} {tags : List String} (hv : op.value = some (joinChar sep tags))
    (hne : tags ≠ []) (h : ∀ t ∈ tags, UsableTag t) : named op = tags := by
  simp only [named, hv]
  rw [splitChar_joinChar hne fun t ht => (h t ht).2]
  exact List.filter_eq_self.mpr fun t ht => by simpa using (h t ht).1

/-! ## The sets of tags -/

/-- What the three removes have in common: join the live tags into one op. -/
def removeTags (S : TagSet) (p : Row → Bool) (target : Write String) (author : String) :
    Write Unit := do
  let tags ← read (liveTags S.adds S.removes p)
  if tags.isEmpty then pure ()
  else
    let target ← target
    let _ ← emitTask S.kind target "present" "remove" (some (joinChar sep tags)) author

/-- The rows of the adds no remove names. -/
def presentRows (S : TagSet) (db : Db) : List Row :=
  (db.scan S.adds).filter fun row =>
    !(removedTags S.removes db).any fun tag => row "tag" == .text tag

/-- The live tags of a store are usable. -/
theorem TagInv.usable_liveTags {s : Store} (hs : TagInv s) {S : TagSet} (hS : S ∈ tagSets)
    {p : Row → Bool} : ∀ t ∈ liveTags S.adds S.removes p s.file.views, UsableTag t := by
  intro t ht
  obtain ⟨a, ha, hf, rfl, _⟩ := (S.mem_liveTags hS hs.ids hs.shows).mp ht
  exact hs.usable a ha (List.any_eq_true.mpr ⟨S, hS, hf⟩)

/-- A remove of tags logs nothing, or one op that names the live tags. -/
theorem removeTags_spec {s : Store} (hs : TagInv s) {S : TagSet} (hS : S ∈ tagSets)
    (p : Row → Bool) {target : Write String} (htarget : ∀ s, (target s).2 = s) (author : String) :
    ∃ new, (removeTags S p target author s).2.file.log = s.file.log ++ new ∧
      (∀ r ∈ new, named r = liveTags S.adds S.removes p s.file.views) ∧
      ((removeTags S p target author s).1 = some () →
        liveTags S.adds S.removes p s.file.views = [] ∨ new ≠ []) := by
  have husable := hs.usable_liveTags hS (p := p)
  obtain ⟨tags, htags⟩ : ∃ tags, liveTags S.adds S.removes p s.file.views = tags := ⟨_, rfl⟩
  have hread : removeTags S p target author s = (if tags.isEmpty then pure () else do
      let target ← target
      let _ ← emitTask S.kind target "present" "remove" (some (joinChar sep tags)) author) s := by
    rw [← htags]
    rfl
  rw [hread, htags]
  rw [htags] at husable
  cases tags with
  | nil => exact ⟨[], (List.append_nil _).symm, by simp, fun _ => .inl rfl⟩
  | cons t ts =>
    rw [if_neg (by simp)]
    cases htg : (target s).1 with
    | none =>
      rw [bind_of_none (Prod.ext htg (htarget s))]
      exact ⟨[], (List.append_nil _).symm, by simp, fun h => by cases h⟩
    | some tg =>
      rw [bind_of_some (Prod.ext htg (htarget s))]
      rcases hs.emitTask S.kind tg "present" "remove" (some (joinChar sep (t :: ts))) author with
        he | ⟨op, s', he, _, hlog, hvalue⟩
      · rw [bind_of_none he]
        exact ⟨[], (List.append_nil _).symm, by simp, fun h => by cases h⟩
      · rw [bind_of_some he]
        refine ⟨[op], hlog, fun r hr => ?_, fun _ => .inr (by simp)⟩
        rw [List.mem_singleton.mp hr]
        exact named_joinChar hvalue (by simp) husable

/-- An add a store has not seen is not among the tags live there, so it is present where no other
remove names it. -/
theorem OrSet.survives {ε : Type} (S : OrSet ε) {s t : Store} {e : ε} {new : List Op}
    (hnamed : ∀ r ∈ new, ∀ tag ∈ named r, S.Live s.file.log e tag)
    (ht : ∀ e, S.present t.file.views e ↔ ∃ tag, S.Live t.file.log e tag) :
    ∀ e', ∀ a ∈ t.file.log, S.adds e' a → a.opId ∉ s.file.log.map Op.opId →
      (∀ r ∈ t.file.log, S.removes e' r → r ∉ new → a.opId ∉ named r) →
      S.present t.file.views e' := by
  intro e' a ha hadd hunseen hothers
  refine (ht e').mpr ⟨a.opId, a, ha, hadd, rfl, fun r hr hrem hmem => ?_⟩
  by_cases hnew : r ∈ new
  · obtain ⟨b, hb, _, hid, _⟩ := hnamed r hnew _ hmem
    exact hunseen (hid ▸ List.mem_map_of_mem hb)
  · exact hothers r hr hrem hnew hmem

section TagSets

variable {ε : Type} {O : OrSet ε} {S : TagSet}

theorem live_iff {p : ε → Row → Bool}
    (hadds : ∀ e a, O.adds e a ↔ foldedAs S.kind "add" a = true ∧
      ∃ c ∈ S.add a, p e (insertedRow flowDdl c) = true)
    (hremoves : ∀ e r, O.removes e r ↔ foldedAs S.kind "remove" r = true) {ops : List Op} {e : ε}
    {tag : String} : O.Live ops e tag ↔ ∃ a ∈ ops, foldedAs S.kind "add" a = true ∧
      a.opId = tag ∧ ¬ S.Removed ops tag ∧ ∃ c ∈ S.add a, p e (insertedRow flowDdl c) = true := by
  unfold OrSet.Live TagSet.Removed
  simp only [hadds, hremoves]
  constructor
  · rintro ⟨a, ha, ⟨hf, hc⟩, hid, hr⟩
    exact ⟨a, ha, hf, hid, fun ⟨r, hr', hrf, hn⟩ => hr r hr' hrf hn, hc⟩
  · rintro ⟨a, ha, hf, hid, hr, hc⟩
    exact ⟨a, ha, ⟨hf, hc⟩, hid, fun r hr' hrf hn => hr ⟨r, hr', hrf, hn⟩⟩

/-- **An element of a tag set is present when some add of it is live.** -/
theorem present_iff_live (hS : S ∈ tagSets) {p : ε → Row → Bool}
    (hadds : ∀ e a, O.adds e a ↔ foldedAs S.kind "add" a = true ∧
      ∃ c ∈ S.add a, p e (insertedRow flowDdl c) = true)
    (hremoves : ∀ e r, O.removes e r ↔ foldedAs S.kind "remove" r = true)
    (hpresent : ∀ ops db, IdsNameOps ops → Shows db ops → ∀ e,
      (O.present db e ↔ ∃ row ∈ presentRows S db, p e row = true))
    {ops : List Op} {db : Db} (hid : IdsNameOps ops) (hdb : Shows db ops) (e : ε) :
    O.present db e ↔ ∃ tag, O.Live ops e tag := by
  rw [hpresent ops db hid hdb]
  simp only [presentRows, S.mem_present_rows hS hid hdb, live_iff hadds hremoves]
  constructor
  · rintro ⟨row, ⟨a, ha, hf, hr, c, hc, rfl⟩, hp⟩
    exact ⟨a.opId, a, ha, hf, rfl, hr, c, hc, hp⟩
  · rintro ⟨tag, a, ha, hf, rfl, hr, c, hc, hp⟩
    exact ⟨_, ⟨a, ha, hf, hr, c, hc, rfl⟩, hp⟩

/-- **A set kept in two tables of tags is observed-remove.** -/
theorem observed_of_tags (hS : S ∈ tagSets) (p : ε → Row → Bool) (target : ε → Write String)
    (htarget : ∀ e s, (target e s).2 = s)
    (hadds : ∀ e a, O.adds e a ↔ foldedAs S.kind "add" a = true ∧
      ∃ c ∈ S.add a, p e (insertedRow flowDdl c) = true)
    (hremoves : ∀ e r, O.removes e r ↔ foldedAs S.kind "remove" r = true)
    (hremove : ∀ e author, O.remove e author = removeTags S (p e) (target e) author)
    (hpresent : ∀ ops db, IdsNameOps ops → Shows db ops → ∀ e,
      (O.present db e ↔ ∃ row ∈ presentRows S db, p e row = true))
    {s t : Store} (hs : TagInv s) (ht : TagInv t) : O.Observed s t := by
  have hlive : ∀ u, TagInv u → ∀ e, O.present u.file.views e ↔ ∃ tag, O.Live u.file.log e tag :=
    fun u hu => present_iff_live hS hadds hremoves hpresent hu.ids hu.shows
  refine ⟨hlive s hs, fun e author => ?_⟩
  have htags : ∀ tag, tag ∈ liveTags S.adds S.removes (p e) s.file.views ↔
      O.Live s.file.log e tag := fun tag => by
    rw [S.mem_liveTags hS hs.ids hs.shows, live_iff hadds hremoves]
  obtain ⟨new, hlog, hnamed, hall⟩ := removeTags_spec hs hS (p e) (htarget e) author
  have hsub : ∀ r ∈ new, ∀ tag ∈ named r, O.Live s.file.log e tag := fun r hr tag hmem => by
    rw [hnamed r hr] at hmem
    exact (htags tag).mp hmem
  rw [hremove]
  refine ⟨new, hlog, hsub, fun hret tag hlive' => ?_, O.survives hsub (hlive t ht)⟩
  have hmem := (htags tag).mpr hlive'
  rcases hall hret with hnil | hne
  · rw [hnil] at hmem
    cases hmem
  · obtain ⟨r, hr⟩ := List.exists_mem_of_ne_nil new hne
    exact ⟨r, hr, by rw [hnamed r hr]; exact hmem⟩

end TagSets

/-! ## Edges, labels, thread links -/

theorem assert_then_pure (b : Bool) (v : String) (s : Store) :
    ((do
      assert b
      pure v : Write String) s).2 = s := by
  cases b <;> rfl

/-- The columns `remove_edge` asks for. -/
def isEdgeRow (e : String × String × EdgeKind) (row : Row) : Bool :=
  row "from_id" == .text e.1 && row "to_id" == .text e.2.1 && row "kind" == .text e.2.2.asStr

theorem edgeSet_adds (e : String × String × EdgeKind) (a : Op) :
    edgeSet.adds e a ↔ foldedAs edgeTags.kind "add" a = true ∧
      ∃ c ∈ edgeTags.add a, isEdgeRow e (insertedRow flowDdl c) = true := by
  refine and_congr_right fun _ => ?_
  change parseEdge a = _ ↔ ∃ c ∈ edgeAdd a, _
  unfold edgeAdd
  cases hp : parseEdge a with
  | none => simp
  | some q =>
    obtain ⟨f, t, k⟩ := q
    obtain ⟨f', t', k'⟩ := e
    simp [isEdgeRow, insertedRow, assign, Change.put, Effect.cells, List.lookup_cons, and_assoc]

theorem edgeSet_present (db : Db) (e : String × String × EdgeKind) :
    edgeSet.present db e ↔ ∃ row ∈ presentRows edgeTags db, isEdgeRow e row = true := by
  change _ ∈ BoardViews.presentEdges db ↔ _
  unfold BoardViews.presentEdges presentRows
  simp only [List.mem_dedup, List.mem_filterMap]
  refine exists_congr fun row => and_congr Iff.rfl ?_
  simp [isEdgeRow, bind, Option.bind_eq_some_iff, cellText_iff, and_assoc]

/-- The present edges, read off the ops. -/
theorem edge_present_iff {ops : List Op} {db : Db} (hid : IdsNameOps ops) (hdb : Shows db ops)
    (e : String × String × EdgeKind) : edgeSet.present db e ↔ ∃ tag, edgeSet.Live ops e tag :=
  present_iff_live (S := edgeTags) (by simp [tagSets]) edgeSet_adds (fun _ _ => Iff.rfl)
    (fun _ db _ _ e => edgeSet_present db e) hid hdb e

theorem observed_edges {s t : Store} (hs : TagInv s) (ht : TagInv t) : edgeSet.Observed s t :=
  observed_of_tags (S := edgeTags) (by simp [tagSets]) isEdgeRow
    (fun e => edgeTarget e.1 e.2.1 e.2.2) (fun _ s => assert_then_pure _ _ s) edgeSet_adds
    (fun _ _ => Iff.rfl) (fun _ _ => rfl) (fun _ db _ _ e => edgeSet_present db e) hs ht

/-- The columns `remove_label` asks for. -/
def isLabelRow (e : String × String) (row : Row) : Bool :=
  row "item_id" == .text e.1 && row "label" == .text e.2

theorem observed_labels {s t : Store} (hs : TagInv s) (ht : TagInv t) : labelSet.Observed s t := by
  refine observed_of_tags (S := labelTags) (by simp [tagSets]) isLabelRow
    (fun e => labelTarget e.1 e.2) (fun e s => assert_then_pure _ _ s) ?_ (fun _ _ => Iff.rfl)
    (fun _ _ => rfl) ?_ hs ht
  · intro e a
    refine and_congr_right fun _ => ?_
    change parseLabel a = _ ↔ ∃ c ∈ labelAdd a, _
    unfold labelAdd
    cases hp : parseLabel a with
    | none => simp
    | some q =>
      obtain ⟨i, l⟩ := q
      obtain ⟨i', l'⟩ := e
      simp [isLabelRow, insertedRow, assign, Change.put, Effect.cells, List.lookup_cons]
  · intro ops db _ _ e
    change _ ∈ presentLabels db ↔ _
    unfold presentLabels presentRows
    simp only [List.mem_dedup, List.mem_filterMap]
    refine exists_congr fun row => and_congr Iff.rfl ?_
    obtain ⟨i, l⟩ := e
    simp [isLabelRow, bind, Option.bind_eq_some_iff, cellText_iff]

/-- The columns `remove_thread_link` asks for. -/
def isLinkRow (e : String × String) (row : Row) : Bool :=
  row "thread_id" == .text e.1 && row "item_id" == .text e.2

/-- Of the rows that qualify, one has no higher one. -/
theorem exists_highest {β : Type} [LinearOrder β] (rank : Row → β) {rows : List Row}
    {p : Row → Bool} (h : ∃ row ∈ rows, p row = true) :
    ∃ row ∈ rows, p row = true ∧ ∀ b ∈ rows, p b = true → ¬ rank row < rank b := by
  obtain ⟨row, hrow, hp⟩ := h
  have hne : rows.filter p ≠ [] := List.ne_nil_of_mem (List.mem_filter.mpr ⟨hrow, hp⟩)
  cases hmax : (rows.filter p).argmax rank with
  | none => exact absurd (List.argmax_eq_none.mp hmax) hne
  | some m =>
    obtain ⟨hm, hpm⟩ := List.mem_filter.mp (List.argmax_mem hmax)
    exact ⟨m, hm, hpm, fun b hb hpb =>
      not_lt.mpr (List.le_of_mem_argmax (List.mem_filter.mpr ⟨hb, hpb⟩) hmax)⟩

theorem observed_links {s t : Store} (hs : TagInv s) (ht : TagInv t) : linkSet.Observed s t := by
  have hS : linkTags ∈ tagSets := by simp [tagSets]
  refine observed_of_tags (S := linkTags) hS isLinkRow
    (fun e => threadLinkTarget e.1 e.2 .workedOn .bearing) (fun e s => assert_then_pure _ _ s) ?_
    (fun _ _ => Iff.rfl) (fun _ _ => rfl) ?_ hs ht
  · intro e a
    refine and_congr_right fun _ => ?_
    change (∃ relation weight, parseThreadLink a = _) ↔ ∃ c ∈ threadLinkAdd a, _
    unfold threadLinkAdd
    cases hp : parseThreadLink a with
    | none => simp
    | some q =>
      obtain ⟨t, i, r, w⟩ := q
      obtain ⟨t', i'⟩ := e
      simp [isLinkRow, insertedRow, assign, Change.put, Effect.cells, List.lookup_cons]
  · intro ops db hid hdb e
    have heq : presentThreadLinks db = ((presentRows linkTags db).filter fun a =>
        !(presentRows linkTags db).any fun b => b "thread_id" == a "thread_id" &&
          b "item_id" == a "item_id" && decide (addRank a < addRank b)).filterMap fun row => do
      return ⟨← cellText (row "thread_id"), ← cellText (row "item_id"),
        ← cellText (row "relation"), ← cellText (row "weight")⟩ := rfl
    change (∃ link ∈ presentThreadLinks db, _) ↔ _
    rw [heq]
    simp only [List.mem_filterMap, List.mem_filter, bind, Option.bind_eq_some_iff, cellText_iff]
    constructor
    · rintro ⟨link, ⟨row, ⟨hrow, _⟩, t, ht, i, hi, r, _, w, _, hlink⟩, h1, h2⟩
      cases hlink
      exact ⟨row, hrow, by simp [isLinkRow, ht, hi, ← h1, ← h2]⟩
    · intro h
      obtain ⟨row, hrow, hp, hmax⟩ := exists_highest addRank h
      obtain ⟨a, _, _, _, c, hc, rfl⟩ := (linkTags.mem_present_rows hS hid hdb).mp hrow
      have hcols : ∃ r w, insertedRow flowDdl c "relation" = .text r ∧
          insertedRow flowDdl c "weight" = .text w := by
        change c ∈ threadLinkAdd a at hc
        unfold threadLinkAdd at hc
        split at hc
        · cases hc
        · rw [List.mem_singleton.mp hc]
          exact ⟨_, _, rfl, rfl⟩
      obtain ⟨r, w, hr, hw⟩ := hcols
      simp only [isLinkRow, Bool.and_eq_true, beq_iff_eq] at hp
      refine ⟨⟨e.1, e.2, r, w⟩, ⟨_, ⟨hrow, ?_⟩, e.1, hp.1, e.2, hp.2, r, hr, w, hw, rfl⟩, rfl, rfl⟩
      rw [Bool.not_eq_true', List.any_eq_false]
      intro b hb hbeats
      simp only [Bool.and_eq_true, beq_iff_eq, decide_eq_true_eq] at hbeats
      refine hmax b hb ?_ hbeats.2
      simp [isLinkRow, hbeats.1.1, hbeats.1.2, hp]

/-! ## List entries -/

/-- The live adds of an entry, read off the rows. -/
theorem entry_live_iff {s : Store} (hs : TagInv s) {e : String × String × String} {tag : String} :
    entrySet.Live s.file.log e tag ↔ ∃ row ∈ s.file.views.scan "field_entries",
      row "item_id" = .text e.1 ∧ row "field" = .text e.2.1 ∧ row "tag" = .text tag ∧
      row "value" = .text e.2.2 ∧ (row "removed" = .null ∨ row "removed" = .int 0) := by
  rw [mem_liveEntries hs.ids hs.shows]
  unfold OrSet.Live entrySet EntryRemoved
  constructor
  · rintro ⟨a, ha, ⟨hf, h1, h2, h3⟩, h4, hr⟩
    exact ⟨a, ha, hf, h1, h2, h4, h3, fun ⟨r, hr', hrf, hi, hfd, hn⟩ =>
      hr r hr' ⟨hrf, hi, hfd⟩ hn⟩
  · rintro ⟨a, ha, hf, h1, h2, h4, h3, hr⟩
    exact ⟨a, ha, ⟨hf, h1, h2, h3⟩, h4, fun r hr' ⟨hrf, hi, hfd⟩ hn =>
      hr ⟨r, hr', hrf, hi, hfd, hn⟩⟩

theorem entry_present_iff {s : Store} (hs : TagInv s) (e : String × String × String) :
    entrySet.present s.file.views e ↔ ∃ tag, entrySet.Live s.file.log e tag := by
  have hvalues : entrySet.present s.file.views e ↔ _ := values_presentEntries
  rw [hvalues]
  simp only [entry_live_iff hs, List.mem_filterMap, List.mem_filter, Bool.and_eq_true, beq_iff_eq,
    bne_iff_ne, Bool.or_eq_true, bind, Option.bind_eq_some_iff, cellText_iff]
  constructor
  · rintro ⟨add, ⟨row, ⟨hrow, ⟨⟨hi, hf⟩, _⟩, hrem⟩, v, hv, hadd⟩, hval⟩
    cases hadd
    obtain ⟨k, hk⟩ := (hs.shows.scan (by decide)).mp hrow
    obtain ⟨_, _, t, _, _, _, ht⟩ := rowsOf_entries_key hk
    exact ⟨t, row, hrow, hi, hf, ht, by rw [hv, ← hval], hrem⟩
  · rintro ⟨t, row, hrow, hi, hf, ht, hv, hrem⟩
    refine ⟨_, ⟨row, ⟨hrow, ⟨⟨hi, hf⟩, ?_⟩, hrem⟩, e.2.2, hv, rfl⟩, rfl⟩
    rw [hv]
    exact Cell.noConfusion

theorem entry_tags_iff {s : Store} (hs : TagInv s) {e : String × String × String} {tag : String} :
    tag ∈ liveEntryTags e.1 e.2.1 (some e.2.2) s.file.views ↔
      entrySet.Live s.file.log e tag ∧ hasChar sep tag = false := by
  rw [entry_live_iff hs]
  unfold liveEntryTags
  simp only [List.mem_filter, List.mem_insertionSort, List.mem_filterMap, Bool.and_eq_true,
    beq_iff_eq, bne_iff_ne, Bool.or_eq_true, cellText_iff, Bool.not_eq_true']
  refine and_congr_left fun _ => exists_congr fun row => ?_
  constructor
  · rintro ⟨⟨hrow, ⟨⟨⟨hi, hf⟩, hv⟩, _⟩, hrem⟩, ht⟩
    exact ⟨hrow, hi, hf, ht, hv, hrem⟩
  · rintro ⟨hrow, hi, hf, ht, hv, hrem⟩
    refine ⟨⟨hrow, ⟨⟨⟨hi, hf⟩, hv⟩, ?_⟩, hrem⟩, ht⟩
    rw [hv]
    exact Cell.noConfusion

/-- A folded add of a list entry has a usable tag: the fold refuses the others. -/
theorem usable_of_entry {ops : List Op} {e : String × String × String} {tag : String}
    (h : entrySet.Live ops e tag) : UsableTag tag := by
  obtain ⟨a, _, ⟨_, _, _, label, hp⟩, rfl, _⟩ := h
  unfold parseEntryAdd at hp
  obtain ⟨raw, _, hp⟩ := Option.bind_eq_some_iff.mp hp
  split_ifs at hp with h1
  simp only [Bool.or_eq_true, not_or, Bool.not_eq_true, beq_eq_false_iff_ne] at h1
  exact ⟨h1.1.1.2, h1.2⟩

/-- Cutting a list into chunks loses nothing, and makes no empty chunk. -/
theorem toChunks_spec {α : Type} (n : Nat) (xs : List α) (hn : 0 < n) :
    (xs.toChunks n).flatten = xs ∧ ∀ c ∈ xs.toChunks n, c ≠ [] := by
  have hgo : ∀ (xs : List α) (acc₁ : Array α) (acc₂ : Array (List α)), acc₁.toList ≠ [] →
      (∀ c ∈ acc₂.toList, c ≠ []) →
      (List.toChunks.go n xs acc₁ acc₂).flatten = acc₂.toList.flatten ++ acc₁.toList ++ xs ∧
        ∀ c ∈ List.toChunks.go n xs acc₁ acc₂, c ≠ [] := by
    intro xs
    induction xs with
    | nil =>
      intro acc₁ acc₂ h1 h2
      simp only [List.toChunks.go, Array.toList_push, List.flatten_append, List.mem_append,
        List.mem_singleton]
      refine ⟨by simp, ?_⟩
      rintro c (hc | rfl)
      · exact h2 c hc
      · exact h1
    | cons x xs ih =>
      intro acc₁ acc₂ h1 h2
      unfold List.toChunks.go
      split_ifs
      · obtain ⟨hf, hne⟩ := ih (#[].push x) (acc₂.push acc₁.toList) (by simp) (by
          intro c hc
          rw [Array.toList_push, List.mem_append, List.mem_singleton] at hc
          rcases hc with hc | rfl
          · exact h2 c hc
          · exact h1)
        exact ⟨by simpa using hf, hne⟩
      · obtain ⟨hf, hne⟩ := ih (acc₁.push x) acc₂ (by simp) h2
        exact ⟨by simpa using hf, hne⟩
  cases xs with
  | nil => cases n <;> simp [List.toChunks]
  | cons x xs =>
    cases n with
    | zero => omega
    | succ n =>
      obtain ⟨hf, hne⟩ := hgo xs #[x] #[] (by simp) (by simp)
      exact ⟨by simpa [List.toChunks] using hf, hne⟩

/-- The remove op of one chunk of tags. -/
def removeChunk (itemId field author : String) (chunk : List String) : Write PUnit := do
  let _ ← emitTask "field" itemId field "remove" (some (joinChar sep chunk)) author

/-- The removes of a list of chunks name together exactly the tags the chunks hold. -/
theorem removeChunks_spec (itemId field author : String) {chunks : List (List String)} {s : Store}
    (hs : TagInv s) (hne : ∀ c ∈ chunks, c ≠ []) (hu : ∀ c ∈ chunks, ∀ t ∈ c, UsableTag t) :
    ∃ new, (chunks.forM (removeChunk itemId field author) s).2.file.log = s.file.log ++ new ∧
      (∀ r ∈ new, ∀ t ∈ named r, t ∈ chunks.flatten) ∧
      ((chunks.forM (removeChunk itemId field author) s).1 = some () →
        ∀ t ∈ chunks.flatten, ∃ r ∈ new, t ∈ named r) := by
  induction chunks generalizing s with
  | nil => exact ⟨[], (List.append_nil _).symm, by simp, by simp⟩
  | cons chunk chunks ih =>
    have hstep : (chunk :: chunks).forM (removeChunk itemId field author) =
        removeChunk itemId field author chunk >>=
          fun _ => chunks.forM (removeChunk itemId field author) := rfl
    rw [hstep]
    rcases hs.emitTask "field" itemId field "remove" (some (joinChar sep chunk)) author with
      he | ⟨op, s', he, hs', hlog, hvalue⟩
    · have hc : removeChunk itemId field author chunk s = (none, s) := bind_of_none he
      rw [bind_of_none hc]
      exact ⟨[], (List.append_nil _).symm, by simp, fun h => by cases h⟩
    · have hc : removeChunk itemId field author chunk s = (some PUnit.unit, s') := bind_of_some he
      rw [bind_of_some hc]
      have hname : named op = chunk :=
        named_joinChar hvalue (hne chunk List.mem_cons_self) (hu chunk List.mem_cons_self)
      obtain ⟨new, hlog', hsub, hall⟩ := ih hs' (fun c hc => hne c (List.mem_cons_of_mem _ hc))
        fun c hc => hu c (List.mem_cons_of_mem _ hc)
      refine ⟨op :: new, ?_, ?_, ?_⟩
      · rw [hlog', hlog, List.append_assoc, List.singleton_append]
      · intro r hr t ht
        rw [List.flatten_cons, List.mem_append]
        rcases List.mem_cons.mp hr with rfl | hr
        · exact .inl (hname ▸ ht)
        · exact .inr (hsub r hr t ht)
      · intro hret t ht
        rw [List.flatten_cons, List.mem_append] at ht
        rcases ht with ht | ht
        · exact ⟨op, List.mem_cons_self, hname ▸ ht⟩
        · obtain ⟨r, hr, hn⟩ := hall hret t ht
          exact ⟨r, List.mem_cons_of_mem op hr, hn⟩

theorem observed_entries {s t : Store} (hs : TagInv s) (ht : TagInv t) :
    entrySet.Observed s t := by
  refine ⟨entry_present_iff hs, fun e author => ?_⟩
  obtain ⟨tags, htags⟩ : ∃ tags, liveEntryTags e.1 e.2.1 (some e.2.2) s.file.views = tags :=
    ⟨_, rfl⟩
  have hlive : ∀ tag, tag ∈ tags ↔ entrySet.Live s.file.log e tag := fun tag => by
    rw [← htags, entry_tags_iff hs]
    exact ⟨And.left, fun h => ⟨h, (usable_of_entry h).2⟩⟩
  obtain ⟨hflat, hne⟩ := toChunks_spec maxEntryTags tags (by decide)
  have husable : ∀ c ∈ tags.toChunks maxEntryTags, ∀ t ∈ c, UsableTag t := by
    intro c hc t ht
    refine usable_of_entry ((hlive t).mp ?_)
    rw [← hflat]
    exact List.mem_flatten.mpr ⟨c, hc, ht⟩
  obtain ⟨new, hlog, hsub, hall⟩ := removeChunks_spec e.1 e.2.1 author hs hne husable
  have hrun : entrySet.remove e author s =
      (tags.toChunks maxEntryTags).forM (removeChunk e.1 e.2.1 author) s := by
    rw [← htags]
    rfl
  rw [hflat] at hsub hall
  have hnamed : ∀ r ∈ new, ∀ tag ∈ named r, entrySet.Live s.file.log e tag :=
    fun r hr tag hmem => (hlive tag).mp (hsub r hr tag hmem)
  rw [hrun]
  exact ⟨new, hlog, hnamed, fun hret tag h => hall hret tag ((hlive tag).mpr h),
    entrySet.survives hnamed (entry_present_iff ht)⟩

/-! ## Every run -/

/-- **Observed remove**, along every run whose received adds have usable tags: in all four sets an
element is present exactly when some folded add of it is named by no folded remove; a remove names
the adds live where it is written; an add not seen there survives every merge. -/
theorem observed_remove {site site' : Int} {key key' : ReplicaKey} {ulids ulids' : Nat → String}
    (hu : Ulids ulids) (hu' : Ulids ulids') {s₀ s t₀ t : Store}
    (hs₀ : openInMemory site key ulids = some s₀) (hs : ReflTransGen TaggedStep s₀ s)
    (ht₀ : openInMemory site' key' ulids' = some t₀) (ht : ReflTransGen TaggedStep t₀ t) :
    edgeSet.Observed s t ∧ labelSet.Observed s t ∧ linkSet.Observed s t ∧
      entrySet.Observed s t := by
  rw [openInMemory_eq] at hs₀ ht₀
  cases hs₀
  cases ht₀
  have hs := (tagInv_freshStore site key hu).run hs
  have ht := (tagInv_freshStore site' key' hu').run ht
  exact ⟨observed_edges hs ht, observed_labels hs ht, observed_links hs ht, observed_entries hs ht⟩

/-- A supply of ids told apart by their length. -/
def letterIds (c : Char) (n : Nat) : String := String.ofList (List.replicate (n + 1) c)

theorem ulids_letterIds {c : Char} (hc : c ≠ sep) : Ulids (letterIds c) where
  inj m n h := by
    have h := congrArg (fun s => s.toList.length) h
    simpa [letterIds] using h
  usable n := by
    refine ⟨fun h => ?_, ?_⟩
    · have h := congrArg (fun s => s.toList.length) h
      simp [letterIds] at h
    · simp [hasChar, letterIds, List.mem_replicate, hc.symm]

theorem ne_letterIds {id : String} {c : Char} (h : id.toList.any (· != c) = true) (n : Nat) :
    id ≠ letterIds c n := by
  rintro rfl
  simp [letterIds, List.any_replicate] at h

/-- An edge add received from elsewhere. -/
def edgeAddOp (opId fromId toId : String) (lamport : Int) : Op :=
  ⟨opId, lamport, 7, domainTask, "edge", joinChar sep [fromId, toId, "dep"], "present", "add", none,
    "alice", "", none, none⟩

/-- A replica that holds one received edge `a → b`. -/
def holdsEdge (tag : String) : Store :=
  ((freshStore 1 silentKey (letterIds 'p')).apply [edgeAddOp tag "a" "b" 5]).2

/-- The same replica after it removed the edge. -/
def removedEdge (tag : String) : Store := (removeEdge "a" "b" .dep "bob" (holdsEdge tag)).2

/-- Another replica, into which that remove and an edge `c → d` of its own are merged. -/
def mergedEdge (tag : String) : Store :=
  ((freshStore 2 silentKey (letterIds 'q')).apply
    ((removedEdge tag).file.log ++ [edgeAddOp "01B" "c" "d" 6])).2

/-- With a usable tag: `a → b` is gone on both replicas, and `c → d`, which the removing one never
saw, is there. -/
theorem observed_remove_edge :
    edgeSet.Observed (holdsEdge "01A") (mergedEdge "01A") ∧
      edgeSet.present (holdsEdge "01A").file.views ("a", "b", .dep) ∧
      ¬ edgeSet.present (mergedEdge "01A").file.views ("a", "b", .dep) ∧
      edgeSet.present (mergedEdge "01A").file.views ("c", "d", .dep) := by
  have hs : ReflTransGen TaggedStep (freshStore 1 silentKey (letterIds 'p'))
      (holdsEdge "01A") := by
    refine .single (.received [edgeAddOp "01A" "a" "b" 5] (fun op hop n _ => ?_) (by decide))
    rw [List.mem_singleton.mp hop]
    exact ne_letterIds (by decide) n
  have ht : ReflTransGen TaggedStep (freshStore 2 silentKey (letterIds 'q'))
      (mergedEdge "01A") := by
    have h : ∀ op ∈ (removedEdge "01A").file.log ++ [edgeAddOp "01B" "c" "d" 6],
        op.opId.toList.any (· != 'q') = true := by decide
    exact .single (.received ((removedEdge "01A").file.log ++ [edgeAddOp "01B" "c" "d" 6])
      (fun op hop n _ => ne_letterIds (h op hop) n) (by decide))
  exact ⟨(observed_remove (ulids_letterIds (by decide)) (ulids_letterIds (by decide))
    (openInMemory_eq 1 silentKey (letterIds 'p')) hs
    (openInMemory_eq 2 silentKey (letterIds 'q')) ht).1, by decide, by decide,
    by decide⟩

/-- An op id that holds the separator. -/
def splitTag : String := joinChar sep ["X", "01B"]

/-- The op id of the received edge holds the separator: its remove names the two pieces. `a → b` stays
on the replica that removed it, and `c → d`, which that replica never saw, is gone where the two are
merged. -/
theorem observed_remove_split_tag :
    (∃ s₀, openInMemory 1 silentKey (letterIds 'p') = some s₀ ∧
      ReflTransGen MergeStep s₀ (holdsEdge splitTag)) ∧
    (∃ t₀, openInMemory 2 silentKey (letterIds 'q') = some t₀ ∧
      ReflTransGen MergeStep t₀ (mergedEdge splitTag)) ∧
    ¬ edgeSet.Observed (holdsEdge splitTag) (mergedEdge splitTag) ∧
    edgeSet.present (removedEdge splitTag).file.views ("a", "b", .dep) ∧
    ¬ edgeSet.present (mergedEdge splitTag).file.views ("c", "d", .dep) := by
  have hs : ReflTransGen MergeStep (freshStore 1 silentKey (letterIds 'p')) (holdsEdge splitTag) := by
    refine .single (.received [edgeAddOp splitTag "a" "b" 5] fun op hop n _ => ?_)
    rw [List.mem_singleton.mp hop]
    exact ne_letterIds (by decide) n
  have ht : ReflTransGen MergeStep (freshStore 2 silentKey (letterIds 'q')) (mergedEdge splitTag) := by
    have h : ∀ op ∈ (removedEdge splitTag).file.log ++ [edgeAddOp "01B" "c" "d" 6],
        op.opId.toList.any (· != 'q') = true := by decide
    exact .single (.received ((removedEdge splitTag).file.log ++ [edgeAddOp "01B" "c" "d" 6])
      fun op hop n _ => ne_letterIds (h op hop) n)
  refine ⟨⟨_, openInMemory_eq 1 silentKey (letterIds 'p'), hs⟩,
    ⟨_, openInMemory_eq 2 silentKey (letterIds 'q'), ht⟩, fun h => ?_, by decide,
    by decide⟩
  -- the remove names `01B`, which is no op id of the replica that wrote it
  obtain ⟨new, hlog, hnamed, _⟩ := h.removal ("a", "b", .dep) "bob"
  have hlog : (removedEdge splitTag).file.log = (holdsEdge splitTag).file.log ++ new := hlog
  have hmem : "01B" ∈ (removedEdge splitTag).file.log.flatMap named := by decide
  have hold : "01B" ∉ (holdsEdge splitTag).file.log.flatMap named ∧
      ∀ a ∈ (holdsEdge splitTag).file.log, a.opId ≠ "01B" := by decide
  rw [hlog, List.flatMap_append, List.mem_append] at hmem
  obtain ⟨r, hr, hn⟩ := List.mem_flatMap.mp (hmem.resolve_left hold.1)
  obtain ⟨a, ha, _, hid, _⟩ := hnamed r hr "01B" hn
  exact hold.2 a ha hid

end NexusFlow.Core
