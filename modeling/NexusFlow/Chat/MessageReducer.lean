import NexusFlow.Core.Model
import NexusFlow.Foundation.Op

/-!
# chat's message reducer

Model of `crates/chat/src/message_reducer.rs`, of the vocabulary it folds by
(`crates/chat/src/model.rs`) and of its views' `DEFAULT`s (`crates/chat/src/schema.rs:32-110`): what
an op of the `message` domain does to the six view tables.

The payloads are JSON, read and written by a library: `Envelopes` is what it answers.
-/

namespace NexusFlow.Chat

open NexusFlow.Foundation NexusFlow.Core

/-! ## The vocabulary -/

/-- `DOMAIN_MESSAGE`. -/
def domainMessage : String := "message"

/-- `OWNED_ID_PREFIX`: the prefix of an id minted from the op that creates it. -/
def ownedIdPrefix : String := "m-"

/-- `CHANNEL_FIELDS`. -/
def channelFields : List String := ["name", "kind", "origin"]

/-- `PROFILE_FIELDS`. -/
def profileFields : List String :=
  ["job_title", "job_description", "capability_tags", "runtime_binding", "reports_to", "origin"]

/-- `THREAD_FIELDS`. -/
def threadFields : List String := ["expects_reply_from", "deadline", "name", "machine"]

/-- `MessageKind`. -/
inductive MessageKind
  | task
  | question
  | report
  | decision
  | info
  | escalation
  | needsRework
  | accepted
  | progress
  | notice
  deriving DecidableEq, Repr

/-- The label `messages.kind` stores. -/
def MessageKind.label : MessageKind → String
  | .task => "task"
  | .question => "question"
  | .report => "report"
  | .decision => "decision"
  | .info => "info"
  | .escalation => "escalation"
  | .needsRework => "needs_rework"
  | .accepted => "accepted"
  | .progress => "progress"
  | .notice => "notice"

/-- `Priority`. -/
inductive Priority
  | urgent
  | normal
  | background
  deriving DecidableEq, Repr

/-- The label `messages.priority` stores. -/
def Priority.label : Priority → String
  | .urgent => "urgent"
  | .normal => "normal"
  | .background => "background"

/-- `Disposition`. -/
inductive Disposition
  | inTurn
  | nextSession
  deriving DecidableEq, Repr

/-- The label `messages.disposition` stores. -/
def Disposition.label : Disposition → String
  | .inTurn => "in_turn"
  | .nextSession => "next_session"

/-- `MessageEnvelope`. The `sender` it names is never folded; `refs` is the JSON text the references
are stored as. -/
structure MessageEnvelope where
  origin : String
  channelId : String
  kind : MessageKind
  priority : Priority
  disposition : Disposition
  threadId : Option String
  refs : String
  body : String
  deriving DecidableEq, Repr

/-- `ThreadRoot`. The `opener` it names is never folded. -/
structure ThreadRoot where
  origin : String
  channelId : String
  created : String
  parent : Option String
  deriving DecidableEq, Repr

/-- What the JSON library reads out of a payload. -/
structure Envelopes where
  envelope : String → Option MessageEnvelope
  root : String → Option ThreadRoot

/-- The `DEFAULT`s of `try_apply_chat_views`: a `set` register starts at version `(0, 0)`, a message
and a thread's root at `NULL`. -/
def chatDdl : Ddl := fun table column =>
  let zero (fields : List String) := fields.any fun f => column == f ++ "_v" || column == f ++ "_site"
  let registers := match table with
    | "channels" => channelFields
    | "profiles" => profileFields
    | "threads" => threadFields
    | _ => []
  if zero registers then .int 0 else .null

namespace MessageReducer

variable (json : Envelopes)

/-! ## Changes -/

/-- `split2`. -/
def split2 (s : String) : Option (String × String) :=
  match splitChar sep s with
  | [a, b] => some (a, b)
  | _ => none

/-- `claim_rank`: the op an id was minted from comes before any other claimant. -/
def claimRank (op : Op) : Int := if op.ownsTarget ownedIdPrefix then 0 else 1

/-- `mintable_lamport`. -/
def mintableLamport (op : Op) : Bool := decide (1 ≤ op.lamport)

/-- `message`: the whole row of the message, kept by the lowest claim. -/
def message (op : Op) : List Change :=
  match op.value.bind json.envelope with
  | none => []
  | some env => [.registerRanked "messages" [("message_id", .text op.targetId)]
      [("origin", .text env.origin), ("channel_id", .text env.channelId),
        ("sender", .text op.author), ("kind", .text env.kind.label),
        ("priority", .text env.priority.label), ("disposition", .text env.disposition.label),
        ("thread_id", .ofOption env.threadId), ("refs", .text env.refs), ("body", .text env.body),
        ("created", .text op.wallClock)]
      ("claim", claimRank op) ("lamport", "site") op.version .lower]

/-- `lww`: one register. `is_foldable` vetted the field, so the column is the op's field. -/
def lww (op : Op) (table idCol : String) : Change :=
  .register table [(idCol, .text op.targetId)] [(op.field, .ofOption op.value)]
    (op.field ++ "_v", op.field ++ "_site") op.version .higher

/-- `membership_add`. -/
def membershipAdd (op : Op) : List Change :=
  match split2 op.targetId with
  | none => []
  | some (channelId, handle) =>
    [.put "membership_adds" [("tag", .text op.opId)]
      [("channel_id", .text channelId), ("handle", .text handle), ("lamport", .int op.lamport),
        ("site", .int op.site)]]

/-- `membership_remove`: each tag the remove observed. -/
def membershipRemove (op : Op) : List Change :=
  match op.value with
  | none => []
  | some tags => ((splitChar sep tags).filter fun t => t != "").map fun tag =>
    .put "membership_removes" [("tag", .text tag)] []

/-- `thread_open`: the root columns of the thread, kept by the lowest claim. -/
def threadOpen (op : Op) : List Change :=
  match op.value.bind json.root with
  | none => []
  | some root => [.registerRanked "threads" [("thread_id", .text op.targetId)]
      [("origin", .text root.origin), ("channel_id", .text root.channelId),
        ("opener", .text op.author), ("created", .text root.created),
        ("parent", .ofOption root.parent)]
      ("root_claim", claimRank op) ("root_v", "root_site") op.version .lower]

/-! ## The reducer -/

/-- `MessageReducer::is_foldable`. -/
def isFoldable (op : Op) : Bool :=
  match op.targetKind, op.opType with
  | "message", "post" => op.field == "envelope" && mintableLamport op && isAttributable op.author &&
      (op.value.bind json.envelope).isSome
  | "channel", "set" => channelFields.contains op.field
  | "profile", "set" => profileFields.contains op.field
  | "membership", "add" | "membership", "remove" => (split2 op.targetId).isSome
  | "thread", "open" => op.field == "root" && mintableLamport op && isAttributable op.author &&
      (op.value.bind json.root).isSome
  | "thread", "set" => threadFields.contains op.field
  | _, _ => false

/-- `MessageReducer::changes`. An op that is not foldable never gets here. -/
def changes (op : Op) : List Change :=
  match op.targetKind, op.opType with
  | "message", "post" => message json op
  | "channel", "set" => [lww op "channels" "channel_id"]
  | "profile", "set" => [lww op "profiles" "handle"]
  | "membership", "add" => membershipAdd op
  | "membership", "remove" => membershipRemove op
  | "thread", "open" => threadOpen json op
  | "thread", "set" => [lww op "threads" "thread_id"]
  | _, _ => []

/-! ## What an op of one shape does -/

section Shapes

variable {json} {op : Op}

theorem isFoldable_post (hk : op.targetKind = "message") (ht : op.opType = "post") :
    isFoldable json op = (op.field == "envelope" && mintableLamport op && isAttributable op.author &&
      (op.value.bind json.envelope).isSome) := by
  unfold isFoldable
  rw [hk, ht]
  rfl

theorem isFoldable_threadOpen (hk : op.targetKind = "thread") (ht : op.opType = "open") :
    isFoldable json op = (op.field == "root" && mintableLamport op && isAttributable op.author &&
      (op.value.bind json.root).isSome) := by
  unfold isFoldable
  rw [hk, ht]
  rfl

theorem isFoldable_threadSet (hk : op.targetKind = "thread") (ht : op.opType = "set") :
    isFoldable json op = threadFields.contains op.field := by
  unfold isFoldable
  rw [hk, ht]
  rfl

theorem changes_post (hk : op.targetKind = "message") (ht : op.opType = "post") :
    changes json op = message json op := by
  unfold changes
  rw [hk, ht]
  rfl

theorem changes_threadOpen (hk : op.targetKind = "thread") (ht : op.opType = "open") :
    changes json op = threadOpen json op := by
  unfold changes
  rw [hk, ht]
  rfl

theorem changes_threadSet (hk : op.targetKind = "thread") (ht : op.opType = "set") :
    changes json op = [lww op "threads" "thread_id"] := by
  unfold changes
  rw [hk, ht]
  rfl

theorem table_membershipAdd {c : Change} (h : c ∈ membershipAdd op) :
    c.table = "membership_adds" := by
  unfold membershipAdd at h
  split at h
  · cases h
  · rw [List.mem_singleton.mp h]
    rfl

theorem table_membershipRemove {c : Change} (h : c ∈ membershipRemove op) :
    c.table = "membership_removes" := by
  unfold membershipRemove at h
  split at h
  · cases h
  · obtain ⟨tag, _, rfl⟩ := List.mem_map.mp h
    rfl

/-- **The changes by shape**: a post's message, a thread's root, a thread's register, or a change to
another table. -/
theorem mem_changes {c : Change} (h : c ∈ changes json op) :
    (op.targetKind = "message" ∧ op.opType = "post" ∧ c ∈ message json op) ∨
    (op.targetKind = "thread" ∧ op.opType = "open" ∧ c ∈ threadOpen json op) ∨
    (op.targetKind = "thread" ∧ op.opType = "set" ∧ c = lww op "threads" "thread_id") ∨
    (c.table ≠ "messages" ∧ c.table ≠ "threads") := by
  have hother (table : String) (ht : c.table = table) (hm : table ≠ "messages")
      (hth : table ≠ "threads") : c.table ≠ "messages" ∧ c.table ≠ "threads" := by
    rw [ht]
    exact ⟨hm, hth⟩
  unfold changes at h
  split at h
  case h_1 hk ht => exact .inl ⟨hk, ht, h⟩
  case h_2 =>
    have hc := List.mem_singleton.mp h
    exact .inr (.inr (.inr (hother "channels" (hc ▸ rfl) (by decide) (by decide))))
  case h_3 =>
    have hc := List.mem_singleton.mp h
    exact .inr (.inr (.inr (hother "profiles" (hc ▸ rfl) (by decide) (by decide))))
  case h_4 =>
    exact .inr (.inr (.inr (hother _ (table_membershipAdd h) (by decide) (by decide))))
  case h_5 =>
    exact .inr (.inr (.inr (hother _ (table_membershipRemove h) (by decide) (by decide))))
  case h_6 hk ht => exact .inr (.inl ⟨hk, ht, h⟩)
  case h_7 hk ht => exact .inr (.inr (.inl ⟨hk, ht, List.mem_singleton.mp h⟩))
  case h_8 => cases h

end Shapes

/-- `MessageReducer::view_tables`. -/
def viewTables : List String :=
  ["messages", "channels", "membership_adds", "membership_removes", "profiles", "threads"]

/-- Every change lands in a view table. -/
theorem table_mem_viewTables {op : Op} {c : Change} (h : c ∈ changes json op) :
    c.table ∈ viewTables := by
  unfold changes at h
  split at h
  · unfold message at h
    split at h
    · cases h
    · rw [List.mem_singleton.mp h]
      exact (by decide : "messages" ∈ viewTables)
  · rw [List.mem_singleton.mp h]
    exact (by decide : "channels" ∈ viewTables)
  · rw [List.mem_singleton.mp h]
    exact (by decide : "profiles" ∈ viewTables)
  · rw [table_membershipAdd h]
    decide
  · rw [table_membershipRemove h]
    decide
  · unfold threadOpen at h
    split at h
    · cases h
    · rw [List.mem_singleton.mp h]
      exact (by decide : "threads" ∈ viewTables)
  · rw [List.mem_singleton.mp h]
    exact (by decide : "threads" ∈ viewTables)
  · cases h

end MessageReducer

/-- `MessageReducer`. -/
def messageReducer (json : Envelopes) : Reducer where
  domain := domainMessage
  isFoldable := MessageReducer.isFoldable json
  changes := MessageReducer.changes json
  foldRevision := 1
  viewTables := MessageReducer.viewTables
  ddl := chatDdl

end NexusFlow.Chat
