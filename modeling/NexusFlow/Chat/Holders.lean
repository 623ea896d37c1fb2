import Mathlib.Data.List.MinMax
import Mathlib.Data.Prod.Lex
import NexusFlow.Chat.MessageReducer
import NexusFlow.Foundation.Delivery
import NexusFlow.Foundation.Register

/-!
# A message stays what its author wrote

Several ops may claim one message id, or one thread id. The row of the message, and the root of the
thread, are held by one of them: the op the id was minted from, or, where no op owns the id, the
claimant of the least coordinate (`crates/chat/src/message_reducer.rs:42-98,156-217`).

* `holder` is that op, chosen from a set of ops without regard to any order.
* `message_stays`: whatever batches bring the ops to a chat store, in whatever order and how often,
  every message row is its holder's content and every thread's root columns are its holder's,
  `sender` and `opener` are the author of that op, and a thread that was set but not opened has no
  root. Other batches of the same ops show the same.
-/

namespace NexusFlow.Chat

open NexusFlow.Foundation NexusFlow.Core MessageReducer

/-! ## The store -/

/-- `CHAT_VIEWS`. -/
def chatViews : String := "chat"

variable (json : Envelopes)

/-- `ChatStore::open_in_memory`: the substrate with chat's reducer, bound to chat's views. -/
def openInMemory (site : Int) (key : ReplicaKey) (ulids : Nat → String) : Option Store :=
  (((Store.openInMemory site key ulids).registerReducer (messageReducer json)).refoldIfBehind
    chatViews).toOption

/-- A chat store just opened on a fresh file. -/
def freshStore (site : Int) (key : ReplicaKey) (ulids : Nat → String) : Store where
  handle := ⟨site, 0, "", [messageReducer json], some chatViews, key, ulids, 0⟩
  file := { File.fresh with
    watermarks := Function.update (fun _ => none) chatViews (some ⟨0, 1, 0⟩)
    trustedKeys := [key.keyId] }

theorem openInMemory_eq (site : Int) (key : ReplicaKey) (ulids : Nat → String) :
    openInMemory json site key ulids = some (freshStore json site key ulids) := rfl

/-! ## Who holds an id -/

/-- The folded ops of the kind and type that name the id. -/
def claimants (kind opType : String) (ops : List Op) (id : String) : List Op :=
  ops.filter fun op => (messageReducer json).folds op && op.targetKind == kind &&
    op.opType == opType && op.targetId == id

/-- The order of the log's coordinates. -/
local instance coordinateOrder : LinearOrder (ℤ ×ₗ ℤ) :=
  @Prod.Lex.instLinearOrder ℤ ℤ Int.instLinearOrder Int.instLinearOrder

local instance coordinatePreorder : Preorder (ℤ ×ₗ ℤ) := coordinateOrder.toPreorder

local instance coordinateDecidableLT : DecidableLT (ℤ ×ₗ ℤ) := coordinateOrder.toDecidableLT

/-- The op that keeps a claimed id: the one it was minted from, else the least coordinate. -/
def holder (claimants : List Op) : Option Op :=
  (claimants.find? fun op => op.ownsTarget ownedIdPrefix).or
    (claimants.argmin fun op => toLex op.coordinate)

/-- The claimants of a message id. -/
def postsOf (ops : List Op) (id : String) : List Op := claimants json "message" "post" ops id

/-- The claimants of a thread id. -/
def opensOf (ops : List Op) (id : String) : List Op := claimants json "thread" "open" ops id

/-- The key of a message's row. -/
def messageKey (id : String) : Cells := [("message_id", .text id)]

/-- The key of a thread's row. -/
def threadKey (id : String) : Cells := [("thread_id", .text id)]

/-- The root columns of `threads`. -/
def rootColumns : List String := ["origin", "channel_id", "opener", "created", "parent"]

/-- The row the insert of an op's own change makes. -/
def rootRow (changes : List Change) : Option Row := changes.head?.map (insertedRow chatDdl)

/-- What the claim on an id asks of the views: each row is its holder's. -/
structure AuthorsKept (ops : List Op) (db : Db) : Prop where
  message : ∀ id, db.get "messages" (messageKey id) =
    (holder (postsOf json ops id)).bind fun op => rootRow (message json op)
  sender : ∀ id op row, holder (postsOf json ops id) = some op →
    db.get "messages" (messageKey id) = some row → row "sender" = .text op.author
  root : ∀ id op, holder (opensOf json ops id) = some op →
    ∃ row own, db.get "threads" (threadKey id) = some row ∧ rootRow (threadOpen json op) = some own ∧
      ∀ col ∈ rootColumns, row col = own col
  opener : ∀ id op row, holder (opensOf json ops id) = some op →
    db.get "threads" (threadKey id) = some row → row "opener" = .text op.author
  unopened : ∀ id row, holder (opensOf json ops id) = none →
    db.get "threads" (threadKey id) = some row → ∀ col ∈ rootColumns, row col = .null

/-- The two views show the same messages and the same roots. -/
structure SameAuthors (db db' : Db) : Prop where
  message : ∀ id, db.get "messages" (messageKey id) = db'.get "messages" (messageKey id)
  root : ∀ id, ∀ col ∈ rootColumns, (db.get "threads" (threadKey id)).map (· col) =
    (db'.get "threads" (threadKey id)).map (· col)

/-! ## The rank of a claim -/

/-- What a claim is compared on. -/
def claimAt (op : Op) : List Int := [claimRank op, op.lamport, op.site]

theorem claimAt_lt_iff {a b : Op} : claimAt a < claimAt b ↔
    claimRank a < claimRank b ∨
      claimRank a = claimRank b ∧ toLex a.coordinate < toLex b.coordinate := by
  simp [claimAt, List.cons_lt_cons_iff, Prod.Lex.toLex_lt_toLex, Op.coordinate]

theorem coordinate_of_claimAt {a b : Op} (h : claimAt a = claimAt b) :
    a.coordinate = b.coordinate := by
  simp only [claimAt, List.cons.injEq, and_true] at h
  exact Prod.ext h.2.1 h.2.2

theorem claimRank_of_owns {op : Op} (h : op.ownsTarget ownedIdPrefix = true) : claimRank op = 0 :=
  if_pos h

theorem claimRank_of_not_owns {op : Op} (h : ¬ op.ownsTarget ownedIdPrefix = true) :
    claimRank op = 1 := if_neg h

/-- An id has one owner. -/
theorem opId_of_owns {a b : Op} (ha : a.ownsTarget ownedIdPrefix = true)
    (hb : b.ownsTarget ownedIdPrefix = true) (h : a.targetId = b.targetId) : a.opId = b.opId := by
  simp only [Op.ownsTarget, beq_iff_eq] at ha hb
  rw [ha, hb] at h
  simpa [String.ext_iff] using h

theorem holder_eq_none_iff {cl : List Op} : holder cl = none ↔ cl = [] := by
  unfold holder
  rw [Option.or_eq_none_iff, List.argmin_eq_none]
  constructor
  · exact And.right
  · rintro rfl
    exact ⟨rfl, rfl⟩

/-- **No claimant outranks the holder.** -/
theorem holder_best {cl : List Op} {id : String} {op : Op}
    (hid : ∀ a ∈ cl, ∀ b ∈ cl, a.opId = b.opId → a = b) (htarget : ∀ a ∈ cl, a.targetId = id)
    (h : holder cl = some op) : op ∈ cl ∧ ∀ x ∈ cl, ¬ claimAt x < claimAt op := by
  unfold holder at h
  cases hown : cl.find? fun op => op.ownsTarget ownedIdPrefix with
  | some o =>
    rw [hown] at h
    cases h
    have hmem := List.mem_of_find?_eq_some hown
    have howns := List.find?_some hown
    refine ⟨hmem, fun x hx hlt => ?_⟩
    rw [claimAt_lt_iff, claimRank_of_owns howns] at hlt
    by_cases hxo : x.ownsTarget ownedIdPrefix = true
    · have hxop : x = op :=
        hid x hx op hmem (opId_of_owns hxo howns ((htarget x hx).trans (htarget op hmem).symm))
      rw [hxop, claimRank_of_owns howns] at hlt
      simp at hlt
    · rw [claimRank_of_not_owns hxo] at hlt
      omega
  | none =>
    rw [hown, Option.none_or] at h
    have hmem := List.argmin_mem h
    have hnone : ∀ x ∈ cl, claimRank x = 1 := fun x hx =>
      claimRank_of_not_owns (List.find?_eq_none.mp hown x hx)
    refine ⟨hmem, fun x hx hlt => ?_⟩
    rw [claimAt_lt_iff, hnone x hx, hnone op hmem] at hlt
    exact absurd (List.le_of_mem_argmin hx h) (not_le.mpr (by simpa using hlt))

/-! ## The changes of a claim -/

/-- What a claimant's change is: a register of the row the op names, ranked by the claim. -/
structure IsClaim (table idCol : String) (columns : List String) (names : String × String × String)
    (op : Op) (c : Change) : Prop where
  table : c.table = table
  key : c.key = [(idCol, .text op.targetId)]
  columns : c.effect.cells.map Prod.fst = columns
  version : c.effect.version =
    [(names.1, claimRank op), (names.2.1, op.lamport), (names.2.2, op.site)]
  wins : ∃ cells version, c.effect = .register cells version .lower

/-- The columns of `messages` a post writes. -/
def messageColumns : List String :=
  ["origin", "channel_id", "sender", "kind", "priority", "disposition", "thread_id", "refs", "body",
    "created"]

/-- The version columns of a message. -/
def messageNames : String × String × String := ("claim", "lamport", "site")

/-- The version columns of a thread's root. -/
def rootNames : String × String × String := ("root_claim", "root_v", "root_site")

variable {json}

theorem mem_message {op : Op} {c : Change} (h : c ∈ message json op) :
    message json op = [c] ∧ IsClaim "messages" "message_id" messageColumns messageNames op c ∧
      c.effect.writes.lookup "sender" = some (.text op.author) := by
  unfold message at h ⊢
  cases henv : op.value.bind json.envelope with
  | none =>
    rw [henv] at h
    cases h
  | some env =>
    rw [henv] at h
    obtain rfl := List.mem_singleton.mp h
    exact ⟨rfl, ⟨rfl, rfl, rfl, rfl, _, _, rfl⟩, rfl⟩

theorem mem_threadOpen {op : Op} {c : Change} (h : c ∈ threadOpen json op) :
    threadOpen json op = [c] ∧ IsClaim "threads" "thread_id" rootColumns rootNames op c ∧
      c.effect.writes.lookup "opener" = some (.text op.author) := by
  unfold threadOpen at h ⊢
  cases hroot : op.value.bind json.root with
  | none =>
    rw [hroot] at h
    cases h
  | some root =>
    rw [hroot] at h
    obtain rfl := List.mem_singleton.mp h
    exact ⟨rfl, ⟨rfl, rfl, rfl, rfl, _, _, rfl⟩, rfl⟩

@[simp] theorem table_lww (op : Op) (table idCol : String) : (lww op table idCol).table = table := rfl

/-- A change of a folded op is one of the reducer's. -/
theorem mem_changesOf {op : Op} {c : Change} :
    c ∈ (messageReducer json).changesOf op ↔
      (messageReducer json).folds op = true ∧ c ∈ changes json op := by
  by_cases hf : (messageReducer json).folds op = true
  · rw [show (messageReducer json).changesOf op = changes json op from if_pos hf]
    exact (and_iff_right hf).symm
  · have hnil : (messageReducer json).changesOf op = [] := if_neg hf
    rw [hnil]
    constructor
    · intro h
      cases h
    · exact fun h => absurd h.1 hf

/-- A change of a folded op to `messages` is its post. -/
theorem mem_changesOf_messages {op : Op} {c : Change} :
    c ∈ (messageReducer json).changesOf op ∧ c.table = "messages" ↔
      (messageReducer json).folds op = true ∧ op.targetKind = "message" ∧ op.opType = "post" ∧
        c ∈ message json op := by
  rw [mem_changesOf]
  constructor
  · rintro ⟨⟨hf, hc⟩, ht⟩
    rcases mem_changes hc with h | ⟨_, _, h⟩ | ⟨_, _, rfl⟩ | h
    · exact ⟨hf, h⟩
    · exact absurd (ht.symm.trans (mem_threadOpen h).2.1.table) (by decide)
    · exact absurd (ht.symm.trans (table_lww op _ _)) (by decide)
    · exact absurd ht h.1
  · rintro ⟨hf, hk, ht, hc⟩
    rw [changes_post hk ht]
    exact ⟨⟨hf, hc⟩, (mem_message hc).2.1.table⟩

theorem isFoldable_of_folds {op : Op} (hf : (messageReducer json).folds op = true) :
    isFoldable json op = true := by
  simp only [Reducer.folds, Bool.and_eq_true] at hf
  exact hf.2

theorem field_of_folds {op : Op} (hf : (messageReducer json).folds op = true)
    (hk : op.targetKind = "thread") (ht : op.opType = "set") : op.field ∈ threadFields := by
  have hfold := isFoldable_of_folds hf
  rw [isFoldable_threadSet hk ht] at hfold
  exact List.contains_iff_mem.mp hfold

/-- A change of a folded op to `threads` is its open, or the one register it sets. -/
theorem mem_changesOf_threads {op : Op} {c : Change} :
    c ∈ (messageReducer json).changesOf op ∧ c.table = "threads" ↔
      (messageReducer json).folds op = true ∧ op.targetKind = "thread" ∧
        (op.opType = "open" ∧ c ∈ threadOpen json op ∨
          op.opType = "set" ∧ c = lww op "threads" "thread_id") := by
  rw [mem_changesOf]
  constructor
  · rintro ⟨⟨hf, hc⟩, ht⟩
    rcases mem_changes hc with ⟨_, _, h⟩ | ⟨hk, hset⟩ | ⟨hk, hset⟩ | h
    · exact absurd (ht.symm.trans (mem_message h).2.1.table) (by decide)
    · exact ⟨hf, hk, .inl hset⟩
    · exact ⟨hf, hk, .inr hset⟩
    · exact absurd ht h.2
  · rintro ⟨hf, hk, ⟨ht, hc⟩ | ⟨ht, rfl⟩⟩
    · rw [changes_threadOpen hk ht]
      exact ⟨⟨hf, hc⟩, (mem_threadOpen hc).2.1.table⟩
    · rw [changes_threadSet hk ht]
      exact ⟨⟨hf, List.mem_singleton_self _⟩, rfl⟩

/-! ## The holder's columns -/

theorem mem_claimants {kind opType : String} {ops : List Op} {id : String} {op : Op} :
    op ∈ claimants json kind opType ops id ↔ op ∈ ops ∧ (messageReducer json).folds op = true ∧
      op.targetKind = kind ∧ op.opType = opType ∧ op.targetId = id := by
  simp [claimants, List.mem_filter, and_assoc]

/-- A post that folds has a row to make. -/
theorem exists_message {ops : List Op} {id : String} {op : Op} (h : op ∈ postsOf json ops id) :
    ∃ c, c ∈ message json op := by
  obtain ⟨_, hf, hk, ht, _⟩ := mem_claimants.mp h
  have hfold := isFoldable_of_folds hf
  rw [isFoldable_post hk ht, Bool.and_eq_true] at hfold
  obtain ⟨env, henv⟩ := Option.isSome_iff_exists.mp hfold.2
  unfold message
  rw [henv]
  exact ⟨_, List.mem_singleton_self _⟩

/-- An open that folds has a root to make. -/
theorem exists_threadOpen {ops : List Op} {id : String} {op : Op} (h : op ∈ opensOf json ops id) :
    ∃ c, c ∈ threadOpen json op := by
  obtain ⟨_, hf, hk, ht, _⟩ := mem_claimants.mp h
  have hfold := isFoldable_of_folds hf
  rw [isFoldable_threadOpen hk ht, Bool.and_eq_true] at hfold
  obtain ⟨root, hroot⟩ := Option.isSome_iff_exists.mp hfold.2
  unfold threadOpen
  rw [hroot]
  exact ⟨_, List.mem_singleton_self _⟩

section Claims

variable {table idCol : String} {columns : List String} {names : String × String × String}
  {own : Op → List Change} {op : Op} {c : Change}

/-- The names of a claim's version columns. -/
def nameList (names : String × String × String) : List String := [names.1, names.2.1, names.2.2]

/-- The columns a claim holds. -/
def heldColumns (columns : List String) (names : String × String × String) : List String :=
  columns ++ nameList names

theorem IsClaim.version_names (h : IsClaim table idCol columns names op c) :
    c.effect.version.map Prod.fst = nameList names := by
  rw [h.version]
  rfl

theorem IsClaim.writes (h : IsClaim table idCol columns names op c) :
    c.effect.writes.map Prod.fst = heldColumns columns names := by
  rw [Effect.writes, List.map_append, versionCells_fst, h.columns, h.version_names]
  rfl

theorem IsClaim.at_eq (h : IsClaim table idCol columns names op c) : c.at = claimAt op := by
  unfold Change.at
  rw [h.version]
  rfl

theorem IsClaim.wf (h : IsClaim table idCol columns names op c)
    (hnd : (idCol :: heldColumns columns names).Nodup) : c.WF := by
  unfold Change.WF
  rw [h.writes, h.key]
  exact hnd

/-- **The register is the holder's**, where its members are the claimants' changes. -/
theorem shown_holder (hown : ∀ op c, c ∈ own op → own op = [c] ∧
      IsClaim table idCol columns names op c)
    {cl : List Op} {id : String} (hid : ∀ a ∈ cl, ∀ b ∈ cl, a.opId = b.opId → a = b)
    (hcoord : ∀ a ∈ cl, ∀ b ∈ cl, a.coordinate = b.coordinate → a = b)
    (htarget : ∀ a ∈ cl, a.targetId = id) (hall : ∀ a ∈ cl, ∃ c, c ∈ own a)
    {member : Change → Prop} {cs : List Change} {seed row : Row}
    (hcs : ∀ c, (c ∈ cs ∧ member c) ↔ ∃ a ∈ cl, c ∈ own a)
    (hheld : HeldAfter member (heldColumns columns names) .lower seed cs row) :
    (∀ op, holder cl = some op → ∃ c, own op = [c] ∧ c ∈ cs ∧ c.ShownIn row) ∧
      (holder cl = none → ∀ col ∈ heldColumns columns names, row col = seed col) := by
  rcases hheld with ⟨c, hc, hm, hshown, hbest⟩ | ⟨hnone, hseed⟩
  · obtain ⟨a, ha, hca⟩ := (hcs c).mp ⟨hc, hm⟩
    constructor
    · intro op hop
      obtain ⟨hmem, hlow⟩ := holder_best hid htarget hop
      obtain ⟨d, hd⟩ := hall op hmem
      -- neither `a` nor the holder outranks the other, so they are one op
      have hnot : ¬ claimAt op < claimAt a := by
        have h := (hcs d).mpr ⟨op, hmem, hd⟩
        have h := hbest d h.1 h.2
        rwa [(hown op d hd).2.at_eq, (hown a c hca).2.at_eq] at h
      have heq : claimAt a = claimAt op :=
        le_antisymm (not_lt.mp hnot) (not_lt.mp (hlow a ha))
      obtain rfl := hcoord a ha op hmem (coordinate_of_claimAt heq)
      exact ⟨c, (hown a c hca).1, hc, hshown⟩
    · intro hop
      rw [holder_eq_none_iff.mp hop] at ha
      cases ha
  · refine ⟨fun op hop => ?_, fun _ => hseed⟩
    obtain ⟨hmem, _⟩ := holder_best hid htarget hop
    obtain ⟨d, hd⟩ := hall op hmem
    have h := (hcs d).mpr ⟨op, hmem, hd⟩
    exact absurd h.2 (hnone d h.1)

end Claims

/-! ## The rows -/

/-- The changes the ops make to one row, in order. -/
def changesAt (json : Envelopes) (ops : List Op) (t : String) (k : Cells) : List Change :=
  (ops.flatMap (messageReducer json).changesOf).filter fun c => c.table = t ∧ c.key = k

theorem foldView_row (ops : List Op) (t : String) (k : Cells) :
    ops.foldl (messageReducer json).foldView (fun _ _ => none) t k =
      (changesAt json ops t k).foldl (fun o c => some (rowAfter chatDdl c o)) none := by
  rw [Reducer.foldl_foldView_eq, View.foldl_step_row]
  rfl

theorem mem_changesAt {ops : List Op} {t : String} {k : Cells} {c : Change} :
    c ∈ changesAt json ops t k ↔
      ∃ op ∈ ops, (c ∈ (messageReducer json).changesOf op ∧ c.table = t) ∧ c.key = k := by
  simp only [changesAt, List.mem_filter, List.mem_flatMap, decide_eq_true_eq]
  constructor
  · rintro ⟨⟨op, hop, hc⟩, ht, hk⟩
    exact ⟨op, hop, ⟨hc, ht⟩, hk⟩
  · rintro ⟨op, hop, ⟨hc, ht⟩, hk⟩
    exact ⟨⟨op, hop, hc⟩, ht, hk⟩

theorem changesAt_at {ops : List Op} {t : String} {k : Cells} :
    ∀ c ∈ changesAt json ops t k, c.table = t ∧ c.key = k := by
  intro c hc
  obtain ⟨_, _, ⟨_, ht⟩, hk⟩ := mem_changesAt.mp hc
  exact ⟨ht, hk⟩

/-- The changes of a message's row are its claimants' posts. -/
theorem mem_changesAt_messages {ops : List Op} {id : String} {c : Change} :
    c ∈ changesAt json ops "messages" (messageKey id) ↔
      ∃ op ∈ postsOf json ops id, c ∈ message json op := by
  rw [mem_changesAt]
  constructor
  · rintro ⟨op, hop, hc, hk⟩
    obtain ⟨hf, hkind, htype, hc⟩ := mem_changesOf_messages.mp hc
    have hkey := (mem_message hc).2.1.key.symm.trans hk
    have hid : op.targetId = id := by simpa [messageKey] using hkey
    exact ⟨op, mem_claimants.mpr ⟨hop, hf, hkind, htype, hid⟩, hc⟩
  · rintro ⟨op, hop, hc⟩
    obtain ⟨hmem, hf, hkind, htype, rfl⟩ := mem_claimants.mp hop
    exact ⟨op, hmem, mem_changesOf_messages.mpr ⟨hf, hkind, htype, hc⟩, (mem_message hc).2.1.key⟩

/-- The member changes of a thread's root. -/
def IsRoot (c : Change) : Prop := c.effect.version.map Prod.fst = nameList rootNames

/-- A field's register keeps off the root. -/
theorem lww_off_root {op : Op} (h : op.field ∈ threadFields) :
    ¬ IsRoot (lww op "threads" "thread_id") ∧ (lww op "threads" "thread_id").WF ∧
      ∀ col ∈ (lww op "threads" "thread_id").effect.writes.map Prod.fst,
        col ∉ heldColumns rootColumns rootNames := by
  have hfields : ∀ f ∈ threadFields, ([f ++ "_v", f ++ "_site"] ≠ nameList rootNames) ∧
      ["thread_id", f, f ++ "_v", f ++ "_site"].Nodup ∧
      ∀ col ∈ [f, f ++ "_v", f ++ "_site"], col ∉ heldColumns rootColumns rootNames := by
    decide
  exact hfields op.field h

/-- The changes of a thread's root are its claimants' opens. -/
theorem mem_changesAt_root {ops : List Op} {id : String} {c : Change} :
    (c ∈ changesAt json ops "threads" (threadKey id) ∧ IsRoot c) ↔
      ∃ op ∈ opensOf json ops id, c ∈ threadOpen json op := by
  rw [mem_changesAt]
  constructor
  · rintro ⟨⟨op, hop, hc, hk⟩, hroot⟩
    obtain ⟨hf, hkind, ⟨htype, hc⟩ | ⟨htype, rfl⟩⟩ := mem_changesOf_threads.mp hc
    · have hkey := (mem_threadOpen hc).2.1.key.symm.trans hk
      have hid : op.targetId = id := by simpa [threadKey] using hkey
      exact ⟨op, mem_claimants.mpr ⟨hop, hf, hkind, htype, hid⟩, hc⟩
    · exact absurd hroot (lww_off_root (field_of_folds hf hkind htype)).1
  · rintro ⟨op, hop, hc⟩
    obtain ⟨hmem, hf, hkind, htype, rfl⟩ := mem_claimants.mp hop
    have hclaim := (mem_threadOpen hc).2.1
    exact ⟨⟨op, hmem, mem_changesOf_threads.mpr ⟨hf, hkind, .inl ⟨htype, hc⟩⟩, hclaim.key⟩,
      hclaim.version_names⟩

section Folded

variable {ops log : List Op} (hsame : ∀ op, op ∈ log ↔ op ∈ ops)
  (hid : ∀ a ∈ ops, ∀ b ∈ ops, a.opId = b.opId → a = b)
  (hcoord : ∀ a ∈ ops, ∀ b ∈ ops, a.coordinate = b.coordinate → a = b)

/-- The rows the log folds to. -/
def rowsOf (json : Envelopes) (log : List Op) : View :=
  log.foldl (messageReducer json).foldView fun _ _ => none

include hsame in
theorem mem_claimants_log {kind opType : String} {id : String} {op : Op} :
    op ∈ claimants json kind opType log id ↔ op ∈ claimants json kind opType ops id := by
  rw [mem_claimants, mem_claimants, hsame]

include hsame hid hcoord

/-- **A message's row is its holder's own.** -/
theorem rowsOf_message (id : String) : rowsOf json log "messages" (messageKey id) =
    (holder (postsOf json ops id)).bind fun op => rootRow (message json op) := by
  have hcs : ∀ c, (c ∈ changesAt json log "messages" (messageKey id) ∧ True) ↔
      ∃ op ∈ postsOf json ops id, c ∈ message json op := by
    intro c
    rw [and_true, mem_changesAt_messages]
    exact exists_congr fun op => and_congr_left fun _ => mem_claimants_log hsame
  have hclaim : ∀ c ∈ changesAt json log "messages" (messageKey id), ∃ op,
      IsClaim "messages" "message_id" messageColumns messageNames op c := by
    intro c hc
    obtain ⟨op, _, hcop⟩ := (hcs c).mp ⟨hc, trivial⟩
    exact ⟨op, (mem_message hcop).2.1⟩
  have hwf : ∀ c ∈ changesAt json log "messages" (messageKey id), c.WF := fun c hc =>
    (hclaim c hc).elim fun _ h => h.wf (by decide)
  have hreg : IsRegister (fun _ => True) (heldColumns messageColumns messageNames)
      (nameList messageNames) .lower (changesAt json log "messages" (messageKey id)) := by
    refine ⟨hwf, fun _ _ h => absurd trivial h, fun c hc _ => ?_, fun c hc _ => ?_, fun c hc _ => ?_⟩
    · exact (hclaim c hc).elim fun _ h => h.writes
    · exact (hclaim c hc).elim fun _ h => h.version_names
    · exact (hclaim c hc).elim fun _ h => h.wins
  rw [rowsOf, foldView_row]
  by_cases hne : changesAt json log "messages" (messageKey id) = []
  · have hnone : postsOf json ops id = [] := by
      by_contra h
      obtain ⟨op, hop⟩ := List.exists_mem_of_ne_nil _ h
      obtain ⟨c, hc⟩ := exists_message hop
      have hmem := ((hcs c).mpr ⟨op, hop, hc⟩).1
      rw [hne] at hmem
      cases hmem
    rw [hne, hnone]
    rfl
  · obtain ⟨row, hrow, hheld⟩ := held_fold chatDdl hreg changesAt_at rfl (by decide) hne
    obtain ⟨hshow, _⟩ := shown_holder (fun op c => fun h => ⟨(mem_message h).1, (mem_message h).2.1⟩)
      (fun a ha b hb => hid a (mem_claimants.mp ha).1 b (mem_claimants.mp hb).1)
      (fun a ha b hb => hcoord a (mem_claimants.mp ha).1 b (mem_claimants.mp hb).1)
      (fun a ha => (mem_claimants.mp ha).2.2.2.2) (fun a ha => exists_message ha) hcs hheld
    cases hop : holder (postsOf json ops id) with
    | none =>
      obtain ⟨c, hc⟩ := List.exists_mem_of_ne_nil _ hne
      obtain ⟨op, hmem, _⟩ := (hcs c).mp ⟨hc, trivial⟩
      rw [holder_eq_none_iff.mp hop] at hmem
      cases hmem
    | some op =>
      obtain ⟨c, hown, hc, hshown⟩ := hshow op hop
      rw [hrow]
      change some row = rootRow (message json op)
      rw [hown]
      refine congrArg some (eq_insertedRow (hwf c hc) hshown fun col hcol => ?_)
      rw [(changesAt_at c hc).1, (changesAt_at c hc).2]
      refine fold_frame changesAt_at hwf (fun d hd => ?_) hrow
      rw [(hclaim c hc).elim fun _ h => h.writes] at hcol
      rwa [(hclaim d hd).elim fun _ h => h.writes]

/-- **A thread's root is its holder's**, in a row the thread's other registers share. -/
theorem rowsOf_root {id : String} {row : Row}
    (h : rowsOf json log "threads" (threadKey id) = some row) :
    (∀ op, holder (opensOf json ops id) = some op →
      ∃ c, threadOpen json op = [c] ∧ c.WF ∧ c.ShownIn row) ∧
    (holder (opensOf json ops id) = none → ∀ col ∈ heldColumns rootColumns rootNames,
      row col = seedRow chatDdl "threads" (threadKey id) col) := by
  have hcs : ∀ c, (c ∈ changesAt json log "threads" (threadKey id) ∧ IsRoot c) ↔
      ∃ op ∈ opensOf json ops id, c ∈ threadOpen json op := by
    intro c
    rw [mem_changesAt_root]
    exact exists_congr fun op => and_congr_left fun _ => mem_claimants_log hsame
  have hclaim : ∀ c ∈ changesAt json log "threads" (threadKey id), IsRoot c → ∃ op,
      IsClaim "threads" "thread_id" rootColumns rootNames op c := by
    intro c hc hroot
    obtain ⟨op, _, hcop⟩ := (hcs c).mp ⟨hc, hroot⟩
    exact ⟨op, (mem_threadOpen hcop).2.1⟩
  have hother : ∀ c ∈ changesAt json log "threads" (threadKey id), ¬ IsRoot c →
      ∃ op : Op, op.field ∈ threadFields ∧ c = lww op "threads" "thread_id" := by
    intro c hc hroot
    obtain ⟨op, _, hcop, _⟩ := mem_changesAt.mp hc
    obtain ⟨hf, hkind, ⟨_, hopen⟩ | ⟨htype, rfl⟩⟩ := mem_changesOf_threads.mp hcop
    · exact absurd (mem_threadOpen hopen).2.1.version_names hroot
    · exact ⟨op, field_of_folds hf hkind htype, rfl⟩
  have hwf : ∀ c ∈ changesAt json log "threads" (threadKey id), c.WF := by
    intro c hc
    by_cases hroot : IsRoot c
    · exact (hclaim c hc hroot).elim fun _ h => h.wf (by decide)
    · obtain ⟨op, hfield, rfl⟩ := hother c hc hroot
      exact (lww_off_root hfield).2.1
  have hreg : IsRegister IsRoot (heldColumns rootColumns rootNames) (nameList rootNames) .lower
      (changesAt json log "threads" (threadKey id)) := by
    refine ⟨hwf, fun c hc hroot => ?_, fun c hc hroot => ?_, fun c hc hroot => ?_,
      fun c hc hroot => ?_⟩
    · obtain ⟨op, hfield, rfl⟩ := hother c hc hroot
      exact (lww_off_root hfield).2.2
    · exact (hclaim c hc hroot).elim fun _ h => h.writes
    · exact (hclaim c hc hroot).elim fun _ h => h.version_names
    · exact (hclaim c hc hroot).elim fun _ h => h.wins
  rw [rowsOf, foldView_row] at h
  have hne : changesAt json log "threads" (threadKey id) ≠ [] := by
    intro hnil
    rw [hnil] at h
    cases h
  obtain ⟨row', hrow, hheld⟩ := held_fold chatDdl hreg changesAt_at rfl (by decide) hne
  obtain rfl : row' = row := Option.some.inj (hrow.symm.trans h)
  obtain ⟨hshow, hnone⟩ := shown_holder
    (fun op c => fun h => ⟨(mem_threadOpen h).1, (mem_threadOpen h).2.1⟩)
    (fun a ha b hb => hid a (mem_claimants.mp ha).1 b (mem_claimants.mp hb).1)
    (fun a ha b hb => hcoord a (mem_claimants.mp ha).1 b (mem_claimants.mp hb).1)
    (fun a ha => (mem_claimants.mp ha).2.2.2.2) (fun a ha => exists_threadOpen ha) hcs hheld
  refine ⟨fun op hop => ?_, hnone⟩
  obtain ⟨c, hown, hc, hshown⟩ := hshow op hop
  exact ⟨c, hown, hwf c hc, hshown⟩

omit hid hcoord in
/-- A thread that is opened has a row. -/
theorem exists_thread_row {id : String} (h : opensOf json ops id ≠ []) :
    ∃ row, rowsOf json log "threads" (threadKey id) = some row := by
  obtain ⟨op, hop⟩ := List.exists_mem_of_ne_nil _ h
  obtain ⟨c, hc⟩ := exists_threadOpen hop
  obtain ⟨hmem, hf, hkind, htype, rfl⟩ := mem_claimants.mp hop
  obtain ⟨hcop, ht⟩ := mem_changesOf_threads.mpr ⟨hf, hkind, .inl ⟨htype, hc⟩⟩
  have hsome := Reducer.isSome_foldl_foldView ((hsame op).mpr hmem) hcop fun _ _ => none
  rw [ht, (mem_threadOpen hc).2.1.key] at hsome
  exact Option.isSome_iff_exists.mp hsome

/-- **Authors are kept** in views that are the fold of the ops, in whatever order. -/
theorem authorsKept {db : Db} (hdb : db.get = rowsOf json log) : AuthorsKept json ops db := by
  have hmessage : ∀ id, db.get "messages" (messageKey id) =
      (holder (postsOf json ops id)).bind fun op => rootRow (message json op) := fun id => by
    rw [hdb, rowsOf_message hsame hid hcoord]
  refine ⟨hmessage, fun id op row hop hrow => ?_, fun id op hop => ?_, fun id op row hop hrow => ?_,
    fun id row hop hrow col hcol => ?_⟩
  · rw [hmessage, hop] at hrow
    obtain ⟨c, hc, rfl⟩ := Option.map_eq_some_iff.mp hrow
    obtain ⟨_, hclaim, hsender⟩ := mem_message (List.mem_of_head? hc)
    have hwf := hclaim.wf (by decide)
    rw [insertedRow_eq hwf]
    exact (Change.ShownIn.of_assign c _).column hsender
  · have hne : opensOf json ops id ≠ [] := by
      intro hnil
      rw [holder_eq_none_iff.mpr hnil] at hop
      cases hop
    obtain ⟨row, hrow⟩ := exists_thread_row hsame hne
    obtain ⟨c, hown, hwf, hshown⟩ := (rowsOf_root hsame hid hcoord hrow).1 op hop
    refine ⟨row, insertedRow chatDdl c, by rw [hdb, hrow], by rw [hown]; rfl, fun col hcol => ?_⟩
    have hclaim := (mem_threadOpen (by rw [hown]; exact List.mem_singleton_self c)).2.1
    have hwrites : col ∈ c.effect.writes.map Prod.fst := by
      rw [hclaim.writes]
      exact List.mem_append_left _ hcol
    obtain ⟨x, hx⟩ := Option.isSome_iff_exists.mp (lookup_isSome_iff.mpr hwrites)
    rw [hshown.column hx, insertedRow_eq hwf, (Change.ShownIn.of_assign c _).column hx]
  · rw [hdb] at hrow
    obtain ⟨c, hown, _, hshown⟩ := (rowsOf_root hsame hid hcoord hrow).1 op hop
    exact hshown.column (mem_threadOpen (by rw [hown]; exact List.mem_singleton_self c)).2.2
  · rw [hdb] at hrow
    have hnull : ∀ col ∈ rootColumns, col ≠ "thread_id" ∧ chatDdl "threads" col = .null := by decide
    rw [(rowsOf_root hsame hid hcoord hrow).2 hop col (List.mem_append_left _ hcol)]
    obtain ⟨hne, hddl⟩ := hnull col hcol
    simp [seedRow, assign, threadKey, List.lookup_cons, beq_eq_false_iff_ne.mpr hne, hddl]

end Folded

/-- A row stands where some op changes it. -/
theorem isSome_rowsOf_iff {log : List Op} {t : String} {k : Cells} :
    (rowsOf json log t k).isSome = true ↔
      ∃ op ∈ log, ∃ c ∈ (messageReducer json).changesOf op, c.table = t ∧ c.key = k := by
  constructor
  · intro h
    rw [rowsOf, foldView_row] at h
    have hne : changesAt json log t k ≠ [] := by
      intro hnil
      rw [hnil] at h
      cases h
    obtain ⟨c, hc⟩ := List.exists_mem_of_ne_nil _ hne
    obtain ⟨op, hop, ⟨hcop, ht⟩, hk⟩ := mem_changesAt.mp hc
    exact ⟨op, hop, c, hcop, ht, hk⟩
  · rintro ⟨op, hop, c, hc, rfl, rfl⟩
    exact Reducer.isSome_foldl_foldView hop hc _

/-- **Views that keep the authors of one set of ops** show the same messages and roots, as far as
they have rows for the same threads. -/
theorem AuthorsKept.same {ops : List Op} {db db' : Db} (h : AuthorsKept json ops db)
    (h' : AuthorsKept json ops db') (hrows : ∀ id, (db.get "threads" (threadKey id)).isSome = true ↔
      (db'.get "threads" (threadKey id)).isSome = true) : SameAuthors db db' := by
  refine ⟨fun id => by rw [h.message, h'.message], fun id col hcol => ?_⟩
  cases hop : holder (opensOf json ops id) with
  | some op =>
    obtain ⟨row, own, hrow, hown, heq⟩ := h.root id op hop
    obtain ⟨row', own', hrow', hown', heq'⟩ := h'.root id op hop
    obtain rfl : own = own' := Option.some.inj (hown.symm.trans hown')
    rw [hrow, hrow', Option.map_some, Option.map_some, heq col hcol, heq' col hcol]
  | none =>
    cases hrow : db.get "threads" (threadKey id) with
    | none =>
      cases hrow' : db'.get "threads" (threadKey id) with
      | none => rfl
      | some row' =>
        have h := (hrows id).mpr (by rw [hrow']; rfl)
        rw [hrow] at h
        cases h
    | some row =>
      obtain ⟨row', hrow'⟩ := Option.isSome_iff_exists.mp ((hrows id).mp (by rw [hrow]; rfl))
      rw [hrow', Option.map_some, Option.map_some, h.unopened id row hop hrow col hcol,
        h'.unopened id row' hop hrow' col hcol]

/-! ## Every delivery -/

variable (json) in
/-- A fresh store holds what was delivered, and its views are the fold of it. -/
theorem deliver_freshStore {ops : List Op} (hid : (ops.map Op.opId).Nodup)
    {batches : List (List Op)} (hsame : ∀ op, op ∈ batches.flatten ↔ op ∈ ops) (site : Int)
    (key : ReplicaKey) (ulids : Nat → String) :
    ∃ log, (∀ op, op ∈ log ↔ op ∈ ops) ∧
      ((freshStore json site key ulids).deliver batches).file.views.get = rowsOf json log := by
  have hfresh : Received (messageReducer json) (freshStore json site key ulids) :=
    ⟨rfl, by simp [freshStore, File.fresh], List.nodup_nil, rfl⟩
  have hwithin : Received.Within ops (freshStore json site key ulids) :=
    ⟨fun a ha b hb h => List.inj_on_of_nodup_map hid ha hb h,
      by simp [freshStore, File.fresh, File.log]⟩
  obtain ⟨hs, hmem⟩ := hfresh.mem_log_deliver batches hwithin fun op hop => (hsame op).mp hop
  refine ⟨_, fun op => ?_, hs.folded⟩
  rw [hmem, hsame]
  simp [freshStore, File.fresh, File.log]

/-- **A message stays what its author wrote.** Whatever batches bring a set of ops, of distinct ids and
coordinates, to a fresh chat store, each message and each thread's root is its holder's; and any
other batches of the same ops show the same. -/
theorem message_stays {site site' : Int} {key key' : ReplicaKey} {ulids ulids' : Nat → String}
    {s₀ t₀ : Store} (hs₀ : openInMemory json site key ulids = some s₀)
    (ht₀ : openInMemory json site' key' ulids' = some t₀) {ops : List Op}
    (hid : (ops.map Op.opId).Nodup) (hcoord : (ops.map Op.coordinate).Nodup)
    {batches batches' : List (List Op)} (hsame : ∀ op, op ∈ batches.flatten ↔ op ∈ ops)
    (hsame' : ∀ op, op ∈ batches'.flatten ↔ op ∈ ops) :
    AuthorsKept json ops (s₀.deliver batches).file.views ∧
      SameAuthors (s₀.deliver batches).file.views (t₀.deliver batches').file.views := by
  rw [openInMemory_eq] at hs₀ ht₀
  cases hs₀
  cases ht₀
  have hid' : ∀ a ∈ ops, ∀ b ∈ ops, a.opId = b.opId → a = b :=
    fun a ha b hb h => List.inj_on_of_nodup_map hid ha hb h
  have hcoord' : ∀ a ∈ ops, ∀ b ∈ ops, a.coordinate = b.coordinate → a = b :=
    fun a ha b hb h => List.inj_on_of_nodup_map hcoord ha hb h
  obtain ⟨log, hlog, hdb⟩ := deliver_freshStore json hid hsame site key ulids
  obtain ⟨log', hlog', hdb'⟩ := deliver_freshStore json hid hsame' site' key' ulids'
  have hkept := authorsKept hlog hid' hcoord' hdb
  refine ⟨hkept, hkept.same (authorsKept hlog' hid' hcoord' hdb') fun id => ?_⟩
  rw [hdb, hdb', isSome_rowsOf_iff, isSome_rowsOf_iff]
  simp only [hlog, hlog']

/-- A library that reads one envelope and one root, whatever the text. -/
def sampleJson : Envelopes where
  envelope text := some ⟨"o", "c-1", .task, .normal, .inTurn, none, "[]", text⟩
  root _ := some ⟨"o", "c-1", "t", none⟩

/-- An op of the message domain. -/
def chatOp (opId : String) (lamport site : Int) (kind targetId field opType value author : String) :
    Op :=
  ⟨opId, lamport, site, domainMessage, kind, targetId, field, opType, some value, author, "", none,
    none⟩

/-- A post and an open under ids of their own, a forged claimant of each at a lower coordinate, and a
register of the thread set before it was opened. -/
def sampleOps : List Op :=
  [chatOp "A" 5 1 "message" "m-A" "envelope" "post" "hello" "alice",
    chatOp "F" 1 2 "message" "m-A" "envelope" "post" "forged" "mallory",
    chatOp "S" 2 2 "thread" "m-T" "name" "set" "talk" "bob",
    chatOp "T" 9 1 "thread" "m-T" "root" "open" "root" "alice",
    chatOp "G" 3 3 "thread" "m-T" "root" "open" "root" "mallory"]

/-- The ops as two batches, backwards and in part twice. -/
def sampleBatches : List (List Op) := [sampleOps.reverse, sampleOps.take 3]

/-- The forged claimants come first on one replica and last on another, and hold nothing. -/
theorem message_stays_forged :
    (AuthorsKept sampleJson sampleOps
        ((freshStore sampleJson 1 silentKey toString).deliver sampleBatches).file.views ∧
      SameAuthors ((freshStore sampleJson 1 silentKey toString).deliver sampleBatches).file.views
        ((freshStore sampleJson 2 silentKey toString).deliver [sampleOps]).file.views) ∧
      (holder (postsOf sampleJson sampleOps "m-A")).map Op.author = some "alice" ∧
      (holder (opensOf sampleJson sampleOps "m-T")).map Op.author = some "alice" := by
  refine ⟨message_stays (openInMemory_eq sampleJson 1 silentKey toString)
    (openInMemory_eq sampleJson 2 silentKey toString) (by decide) (by decide) (fun op => ?_)
    (fun op => by simp), by decide, by decide⟩
  simp only [sampleBatches, List.flatten_cons, List.flatten_nil, List.append_nil, List.mem_append,
    List.mem_reverse]
  exact ⟨fun h => h.elim id List.mem_of_mem_take, .inl⟩

end NexusFlow.Chat
