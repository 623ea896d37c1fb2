import NexusFlow.Run.Unknown

/-!
# The wire form of a run event

Model of `crates/run-contracts/src/{events,session,codes,ids,policy}.rs`: every type an event carries
as its JSON form, and `Event` with what a newer writer put on it (`events.rs:107-147`).

* `EventBody` holds the decisions and the inputs beside each other, as they lie on the wire; their kinds
  are distinct (`eventBody_fine`), so the order in which `EventBody::deserialize` looks at the two lists
  shows nowhere.
* The text of a ULID and of an instant belong to other crates: they are the fields of `Texts`.
* Results: `event_kept`.
-/

namespace NexusFlow.Run.Wire

open NexusFlow.Lib

/-! ## The types -/

/-- An instant inside the writable years, in milliseconds. -/
abbrev Timestamp := { millis : ℤ // -62167219200000 ≤ millis ∧ millis ≤ 253402300799999 }

/-- What the crates for ULIDs and for time read and write. -/
structure Texts where
  isUlid : String → Bool
  format : Timestamp → String
  parse : String → Option Timestamp
  parse_format : ∀ t, parse (format t) = some t

section Types

variable (t : Texts)

/-- `RunId::parse`: `r-` and a ULID. -/
def isRunId (text : String) : Bool :=
  match text.toList with
  | 'r' :: '-' :: ulid => t.isUlid (String.ofList ulid)
  | _ => false

/-- Fields that are always written. -/
def fields : List (String × Shape) → Fields
  | [] => .nil
  | (name, shape) :: rest => .cons name shape false (fields rest)

def variants : List (String × Fields) → Variants
  | [] => .nil
  | (kind, fields) :: rest => .cons kind fields (variants rest)

def text : Shape := .leaf .text
def bool : Shape := .leaf .bool
def u32 : Shape := .leaf (.range 0 4294967295)
def u64 : Shape := .leaf (.range 0 18446744073709551615)
def i32 : Shape := .leaf (.range (-2147483648) 2147483647)
def code (all : List String) : Shape := .leaf (.code all)
def runId : Shape := .leaf (.checked (isRunId t))
def timestamp : Shape := .leaf (.formatted Timestamp t.format t.parse t.parse_format)
def secs : Shape := u64

def slot : Shape :=
  .record (fields [("step", text), ("visit", u32), ("member", text), ("attempt", u32)])

def flowRef : Shape := .record (fields [("hash", text)])

def base : Shape := .record (fields [("branch", text), ("commit", text)])

def livenessPolicy : Shape :=
  .record (fields [("root_deadline", secs), ("start_deadline", secs), ("quiet_after", secs),
    ("confirm_within", secs), ("call_bound", secs), ("subprocess_idle", secs),
    ("stop_grace", secs), ("tree_window", secs), ("wake_jump", secs), ("hold_retry", secs),
    ("hold_retry_min", secs), ("hold_retry_max", secs), ("max_attempts", u32),
    ("max_holds", u32)])

/-! ### Closed lists of words -/

def origin : Shape := code ["cli", "host", "adapter", "reducer", "timer"]

def reasonCode : Shape :=
  code ["stale_timer", "duplicate_reply", "late_reply_after_skip", "unknown_session",
    "final_state", "already_finishing", "out_of_state", "quiet", "hung", "start_failed", "lost",
    "exit", "turn_complete", "stopped_by_host", "would_not_stop", "root_failed", "tree_refused",
    "poison_input", "permission_refused", "ended_without_reply", "fan_out_incomplete",
    "usage_limit", "provider_unavailable", "hold_limit", "ceiling", "accepted_by_requester",
    "withdrawn_by_requester", "withdrawn_by_owner", "delivered"]

def gitReason : Shape := code ["bound_exceeded", "fetch_failed", "lock_held", "exit_nonzero"]

def sequenceKind : Shape := code ["merge", "rebase", "cherry_pick", "revert", "bisect"]

def disposition : Shape := code ["continue", "accept"]

def withdrawnBy : Shape := code ["requester", "owner"]

def stopKind : Shape := code ["term", "kill"]

def stepOutcome : Shape := code ["pass", "needs_rework", "escalated"]

def outcome : Shape := code ["delivered", "withdrawn", "accepted", "failed"]

def timerPurpose : Shape :=
  code ["root_deadline", "start_deadline", "quiet", "confirm", "call_bound", "subprocess_idle",
    "stop_grace", "wind_down", "hold_retry", "tree_window"]

def heartbeatKind : Shape :=
  code ["model_output", "calls_open", "calls_closed", "subprocess_moved", "blind"]

/-! ### Objects told apart by a tag -/

/-- `branch` of `clean` is left out where it is absent. -/
def parkOutcome : Shape :=
  .tagged "kind" (variants [
    ("committed", fields [("branch", text), ("commit", text)]),
    ("on_own_branch", fields [("branch", text), ("commit", text)]),
    ("clean", .cons "branch" (.option text) true .nil),
    ("missing", .nil),
    ("not_held", .nil)])

def treeRefusal : Shape :=
  .tagged "code" (variants [
    ("not_a_repository", .nil),
    ("foreign_directory", .nil),
    ("mid_sequence", fields [("what", sequenceKind)]),
    ("git", fields [("reason", gitReason)])])

def endCause : Shape :=
  .tagged "code" (variants [
    ("turn_complete", .nil),
    ("exit", fields [("status", .option i32)]),
    ("usage_limit", fields [("resets_at", .option (timestamp t))]),
    ("provider_unavailable", .nil),
    ("permission_refused", fields [("rule", text), ("program", text)]),
    ("stopped_by_host", .nil),
    ("lost", .nil)])

def sessionFact : Shape :=
  .tagged "kind" (variants [
    ("started", fields [("backend_session_id", text), ("pid", .option u32)]),
    ("heartbeat", fields [("beat", heartbeatKind)]),
    ("usage", fields [("model", text), ("input_tokens", u64), ("output_tokens", u64),
      ("cache_read_tokens", u64), ("cache_write_tokens", u64), ("turns", u32)]),
    ("permission_refused", fields [("rule", text), ("program", text)]),
    ("group_lingering", fields [("pids", .list u32)]),
    ("ended", fields [("cause", endCause t)])])

/-! ## Events -/

/-- The decisions of the reducer (`Decision`). -/
def decisions : List (String × Fields) := [
  ("root_requested", .nil),
  ("claim_requested", .nil),
  ("run_queued", fields [("behind", .option (runId t))]),
  ("step_started", fields [("step", text), ("visit", u32), ("attempt", u32),
    ("members", .list text)]),
  ("step_finished", fields [("step", text), ("visit", u32), ("outcome", stepOutcome)]),
  ("rework", fields [("from", text), ("to", text), ("declaring", text), ("pass", u32)]),
  ("escalated", fields [("question", text), ("slot", slot), ("message", text)]),
  ("ceiling", fields [("question", text), ("step", text), ("pass", u32), ("last_verdict", text)]),
  ("timer_set", fields [("timer", text), ("fire_at", timestamp t), ("purpose", timerPurpose)]),
  ("timer_cleared", fields [("timer", text)]),
  ("liveness", fields [("slot", slot), ("reason", reasonCode), ("since", timestamp t)]),
  ("held", fields [("slot", slot), ("reason", reasonCode), ("until", timestamp t),
    ("resets_at", .option (timestamp t))]),
  ("parked", fields [("slot", .option slot), ("reason", reasonCode)]),
  ("finishing", fields [("outcome", outcome), ("reason", .option reasonCode)]),
  ("withdraw_forced", .nil),
  ("finished", fields [("outcome", outcome), ("reason", .option reasonCode)]),
  ("ignored", fields [("input_seq", u64), ("reason", reasonCode)])]

/-- The inputs: the own variants of `EventBody`. -/
def inputs : List (String × Fields) := [
  ("commissioned", fields [("run", runId t), ("workspace_id", text), ("tenant", text),
    ("flow", flowRef), ("policy", livenessPolicy), ("root_thread", text), ("requester", text)]),
  ("root_opened", fields [("thread", text), ("message", text)]),
  ("claim_taken", .nil),
  ("claim_busy", fields [("holder", runId t)]),
  ("claim_released", .nil),
  ("tree_prepared", fields [("base", base), ("found", .option parkOutcome)]),
  ("tree_refused", fields [("reason", treeRefusal)]),
  ("tree_parked", fields [("outcome", parkOutcome)]),
  ("delivered", fields [("message", text)]),
  ("nudged", fields [("session_key", text)]),
  ("stop_signalled", fields [("session_key", text), ("nth", u32), ("signal", stopKind)]),
  ("session_fact", fields [("session_key", text), ("fact", sessionFact t)]),
  ("reply", fields [("session_key", text), ("message", text), ("escalate", bool),
    ("needs_rework", bool)]),
  ("answer", fields [("question", text), ("disposition", disposition), ("message", text)]),
  ("resume", fields [("slot", .option slot)]),
  ("resume_run", .nil),
  ("withdrawn", fields [("message", .option text), ("by", withdrawnBy)]),
  ("timer_fired", fields [("timer", text), ("fire_at", timestamp t)])]

/-- What an input or a decision says. -/
def known : Variants := variants (inputs t ++ decisions t)

/-- What an event says: an input, a decision, or a kind in neither list. -/
def eventBody : Shape := .tagged "kind" (known t)

/-- The known fields of the envelope. -/
def knownEvent : Fields :=
  fields [("run", runId t), ("seq", u64), ("at", timestamp t), ("v", u32), ("key", text),
    ("origin", origin), ("body", eventBody t)]

/-- One event of a run's log. `extra` holds what a newer writer put on it. -/
structure Event where
  run : (runId t).Val
  seq : u64.Val
  now : (timestamp t).Val
  v : u32.Val
  key : text.Val
  origin : origin.Val
  body : (eventBody t).Val
  extra : Members

end Types

variable {t : Texts}

namespace Event

/-- `Event::new`: an event of this version (`CONTRACT_V`) with nothing unknown on it. -/
def new (run : (runId t).Val) (seq : u64.Val) (now : (timestamp t).Val) (key : text.Val)
    (origin : Wire.origin.Val) (body : (eventBody t).Val) : Event t where
  run := run
  seq := seq
  now := now
  v := ⟨1, by decide⟩
  key := key
  origin := origin
  body := body
  extra := []

/-- The known fields of an event (`KnownEvent`). -/
def known (e : Event t) : (knownEvent t).Val :=
  (e.run, e.seq, e.now, e.v, e.key, e.origin, e.body, ())

/-- The event of its known fields and what else it carries. -/
def ofKnown (known : (knownEvent t).Val) (extra : Members) : Event t where
  run := known.1
  seq := known.2.1
  now := known.2.2.1
  v := known.2.2.2.1
  key := known.2.2.2.2.1
  origin := known.2.2.2.2.2.1
  body := known.2.2.2.2.2.2.1
  extra := extra

/-- What this version writes of an event itself. -/
def written (e : Event t) : Members := (knownEvent t).enc e.known

/-- `Serialize for Event`. -/
def serialize (e : Event t) : Json := .obj (mergeUnknown e.written e.extra)

/-- `Deserialize for Event`. -/
def deserialize : Json → Option (Event t)
  | .obj raw => do
    let known ← (knownEvent t).dec raw
    let written := (knownEvent t).enc known
    return ofKnown known (unknownFields raw written)
  | _ => none

end Event

/-! ## What an event keeps -/

theorem names_fields (l : List (String × Shape)) : (fields l).names = l.map Prod.fst := by
  induction l with
  | nil => rfl
  | cons e rest ih => exact congrArg (e.1 :: ·) ih

theorem kinds_variants (l : List (String × Fields)) : (variants l).kinds = l.map Prod.fst := by
  induction l with
  | nil => rfl
  | cons e rest ih => exact congrArg (e.1 :: ·) ih

theorem fields_fine {l : List (String × Shape)} (hnames : (l.map Prod.fst).Nodup)
    (h : ∀ e ∈ l, e.2.Fine) : (fields l).Fine := by
  induction l with
  | nil => trivial
  | cons e rest ih =>
    obtain ⟨hhead, htail⟩ := List.nodup_cons.mp hnames
    obtain ⟨he, hrest⟩ := List.forall_mem_cons.mp h
    refine ⟨?_, he, ih htail hrest⟩
    rw [names_fields]
    exact hhead

theorem variants_fine {tag : String} {l : List (String × Fields)}
    (hkinds : (l.map Prod.fst).Nodup) (h : ∀ e ∈ l, tag ∉ e.2.names ∧ e.2.Fine) :
    (variants l).Fine tag := by
  induction l with
  | nil => trivial
  | cons e rest ih =>
    obtain ⟨hhead, htail⟩ := List.nodup_cons.mp hkinds
    obtain ⟨⟨htag, he⟩, hrest⟩ := List.forall_mem_cons.mp h
    refine ⟨?_, htag, he, ih htail hrest⟩
    rw [kinds_variants]
    exact hhead

theorem slot_fine : slot.Fine :=
  fields_fine (by decide) (by simp [text, u32, Shape.Fine])

theorem leaf_not_isOption (l : Leaf) : ¬ (Shape.leaf l).IsOption := id

theorem slot_not_isOption : ¬ slot.IsOption := id

theorem livenessPolicy_fine : livenessPolicy.Fine :=
  fields_fine (by decide) (by simp [secs, u64, u32, Shape.Fine])

theorem parkOutcome_fine : parkOutcome.Fine :=
  variants_fine (by decide)
    (by simp [fields, Fields.names, Fields.Fine, Shape.Fine, Shape.IsOption, text])

theorem parkOutcome_not_isOption : ¬ parkOutcome.IsOption := id

theorem treeRefusal_fine : treeRefusal.Fine :=
  variants_fine (by decide)
    (by simp [fields, Fields.names, Fields.Fine, Shape.Fine, sequenceKind, gitReason, code])

theorem endCause_fine : (endCause t).Fine :=
  variants_fine (by simp)
    (by simp [fields, Fields.names, Fields.Fine, Shape.Fine, Shape.IsOption, i32, timestamp, text])

theorem sessionFact_fine : (sessionFact t).Fine :=
  variants_fine (by simp)
    (by simp [fields, Fields.names, Fields.Fine, Shape.Fine, Shape.IsOption, text, u32, u64,
      heartbeatKind, code, endCause_fine])

theorem decisions_fine : ∀ e ∈ decisions t, "kind" ∉ e.2.names ∧ e.2.Fine := by
  simp [decisions, fields, Fields.names, Fields.Fine, Shape.Fine, leaf_not_isOption, runId, text, u32,
    u64, timestamp, stepOutcome, timerPurpose, reasonCode, outcome, code, slot_fine, slot_not_isOption]

theorem inputs_fine : ∀ e ∈ inputs t, "kind" ∉ e.2.names ∧ e.2.Fine := by
  simp [inputs, fields, Fields.names, Fields.Fine, Shape.Fine, leaf_not_isOption, runId, text, bool,
    u32, timestamp, flowRef, base, disposition, withdrawnBy, stopKind, code, livenessPolicy_fine,
    parkOutcome_fine, parkOutcome_not_isOption, treeRefusal_fine, sessionFact_fine, slot_fine,
    slot_not_isOption]

theorem knownEvent_fine : (knownEvent t).Fine := by
  have hknown : (known t).Fine "kind" := by
    refine variants_fine (by simp [decisions, inputs]) fun e he => ?_
    rcases List.mem_append.mp he with he | he
    · exact inputs_fine e he
    · exact decisions_fine e he
  refine fields_fine (by simp) ?_
  simpa [Shape.Fine, runId, u64, u32, text, timestamp, origin, code, eventBody] using hknown

namespace Event

theorem known_ofKnown (known : (knownEvent t).Val) (extra : Members) :
    (ofKnown known extra).known = known := rfl

theorem deserialize_eq_some {j : Json} {e : Event t} (h : deserialize j = some e) :
    ∃ raw, j = .obj raw ∧ (knownEvent t).dec raw = some e.known ∧
      e.extra = unknownFields raw e.written := by
  cases j with
  | obj raw =>
    obtain ⟨known, hknown, h⟩ := Option.bind_eq_some_iff.mp h
    cases h
    exact ⟨raw, rfl, hknown, rfl⟩
  | _ => cases h

theorem deserialize_obj {raw : Members} {e : Event t} (hknown : (knownEvent t).dec raw = some e.known)
    (hextra : e.extra = unknownFields raw e.written) : deserialize (.obj raw) = some e := by
  show ((knownEvent t).dec raw).bind _ = some e
  rw [hknown, Option.bind_some]
  show some (ofKnown e.known (unknownFields raw e.written)) = some e
  rw [← hextra]
  rfl

theorem serialize_of_extra {raw : Members} {e : Event t}
    (hextra : e.extra = unknownFields raw e.written) :
    e.serialize = .obj (rewritten raw e.written) := by
  rw [serialize, hextra]
  rfl

/-- **An event keeps what a newer writer put on it.** -/
theorem kept {raw : Members} {e : Event t} (hraw : (Json.obj raw).WF)
    (h : deserialize (.obj raw) = some e) :
    (∀ path, (Json.obj e.written).get path = none →
      e.serialize.get path = (Json.obj raw).get path) ∧ deserialize e.serialize = some e := by
  obtain ⟨raw', hobj, hknown, hextra⟩ := deserialize_eq_some h
  cases hobj
  rw [serialize_of_extra hextra]
  constructor
  · intro path hpath
    have hfits : Fits (.obj raw) (.obj e.written) :=
      Fits.obj fun k r w hr hw => fits_of_decFields _ hknown hr hw
    exact get_rewrite hraw hfits hpath
  · have hsound := (knownEvent t).sound_of_dec hraw hknown
    have hwritten : (Json.obj e.written).WF := (knownEvent t).enc_wf e.known hsound
    refine deserialize_obj ?_ ?_
    · exact decFields_rewritten _ knownEvent_fine hraw hknown fun k _ =>
        lookup_rewritten hraw.sorted _ k
    · rw [hextra, unknownFields_rewritten hraw hwritten]

/-- What an event reads back as, where nothing unknown is on it. -/
def norm (e : Event t) : Event t := ofKnown ((knownEvent t).norm e.known) e.extra

/-- **An event of this version reads back** as its `norm`. -/
theorem deserialize_serialize {e : Event t} (hextra : e.extra = [])
    (hsound : (knownEvent t).Sound e.known) : deserialize e.serialize = some e.norm := by
  have hwritten : (Json.obj e.written).WF := (knownEvent t).enc_wf e.known hsound
  have hnorm : e.norm.written = e.written :=
    (knownEvent t).enc_norm knownEvent_fine e.known hsound
  have hserialize : e.serialize = .obj e.written := by
    rw [serialize, hextra]
    rfl
  rw [hserialize]
  refine deserialize_obj ?_ ?_
  · exact (knownEvent t).dec_enc knownEvent_fine e.known hsound fun _ _ => rfl
  · rw [hnorm, unknownFields_self hwritten]
    exact hextra

/-- **Events survive older readers.** An event that was read is written back with everything its
reader does not know, and reads back as itself. An event of this version reads back as it is, a code
spelled like a known one as the known one, where the values it keeps whole are ones a reader could
have kept. -/
theorem keeps_unread :
    (∀ (raw : Members) (e : Event t), (Json.obj raw).WF → deserialize (.obj raw) = some e →
      (∀ path, (Json.obj e.written).get path = none →
        e.serialize.get path = (Json.obj raw).get path) ∧ deserialize e.serialize = some e) ∧
    ∀ (run : (runId t).Val) (seq : u64.Val) (now : (timestamp t).Val) (key : text.Val)
      (origin : Wire.origin.Val) (body : (Wire.known t).Val), (Wire.known t).Sound body →
      deserialize (Event.new run seq now key origin (.inl body)).serialize =
        some (Event.new run seq now key (Wire.origin.norm origin)
          (.inl ((Wire.known t).norm body))) := by
  refine ⟨fun raw e hraw h => kept hraw h, ?_⟩
  intro run seq now key origin body hbody
  have hsound : (knownEvent t).Sound (Event.new run seq now key origin (.inl body)).known :=
    ⟨trivial, trivial, trivial, trivial, trivial, trivial, hbody, trivial⟩
  exact deserialize_serialize rfl hsound

end Event

/-! ### One instant -/

/-- The instant 0 as it is written, and any other as its distance from the first one. -/
def sampleFormat (t : Timestamp) : String :=
  if t.1 = 0 then "1970-01-01T00:00:00.000Z"
  else String.ofList (List.replicate (t.1 + 62167219200000).toNat 'x')

def sampleParse (text : String) : Option Timestamp :=
  if text = "1970-01-01T00:00:00.000Z" then some ⟨0, by decide⟩
  else if h : (text.toList.length : ℤ) ≤ 315569519999999 then
    some ⟨text.toList.length - 62167219200000, by omega, by omega⟩
  else none

theorem sampleParse_sampleFormat (t : Timestamp) : sampleParse (sampleFormat t) = some t := by
  obtain ⟨millis, hlow, hhigh⟩ := t
  unfold sampleFormat
  by_cases hzero : millis = 0
  · subst hzero
    rfl
  · rw [if_neg hzero]
    have hne : String.ofList (List.replicate (millis + 62167219200000).toNat 'x') ≠
        "1970-01-01T00:00:00.000Z" := by
      intro h
      have hmem : '1' ∈ List.replicate (millis + 62167219200000).toNat 'x' := by
        rw [← String.toList_ofList (l := List.replicate _ _), h]
        decide
      exact absurd (List.eq_of_mem_replicate hmem) (by decide)
    have hlength : ((String.ofList (List.replicate (millis + 62167219200000).toNat 'x')).toList.length
        : ℤ) = millis + 62167219200000 := by
      rw [String.toList_ofList, List.length_replicate]
      omega
    unfold sampleParse
    rw [if_neg hne, dif_pos (by rw [hlength]; omega)]
    refine congrArg some (Subtype.ext ?_)
    show _ - (62167219200000 : ℤ) = millis
    rw [hlength]
    omega

/-- Texts as the crates have them, as far as the sample below needs them. -/
def sampleTexts : Texts where
  isUlid text := text.length == 26
  format := sampleFormat
  parse := sampleParse
  parse_format := sampleParse_sampleFormat

def sampleRun : (runId sampleTexts).Val := ⟨"r-01ARZ3NDEKTSV4RRFFQ69G5FAV", by decide⟩

/-- An event a newer writer put a hint into. -/
def sampleRaw : Members := [
  ("at", .str "1970-01-01T00:00:00.000Z"),
  ("body", .obj [("hint", .bool true), ("kind", .str "claim_taken")]),
  ("key", .str "k"), ("origin", .str "host"), ("run", .str "r-01ARZ3NDEKTSV4RRFFQ69G5FAV"),
  ("seq", .int 4), ("v", .int 1)]

theorem sampleRaw_wf : (Json.obj sampleRaw).WF := by
  have hbody : (Json.obj [("hint", .bool true), ("kind", .str "claim_taken")]).WF :=
    .obj (by unfold SortedKeys; decide) (by simp [Json.WF.bool, Json.WF.str])
  exact .obj (by unfold SortedKeys; decide)
    (by simp [sampleRaw, hbody, Json.WF.str, Json.WF.int])

def sampleEvent (body : (known sampleTexts).Val) : Event sampleTexts :=
  Event.new sampleRun ⟨4, by decide⟩ ⟨0, by decide⟩ "k" (.known ⟨"host", by decide⟩) (.inl body)

def claimTaken : (known sampleTexts).Val := .inr (.inr (.inl ()))

def treeRefused (reason : treeRefusal.Val) : (known sampleTexts).Val :=
  .inr (.inr (.inr (.inr (.inr (.inr (.inl (reason, ())))))))

namespace Event

theorem keeps_unread_sample :
    ((sampleEvent claimTaken).serialize.get ["body", "hint"] = none ∧
      ∃ e : Event sampleTexts, deserialize (.obj sampleRaw) = some e ∧
        e.serialize.get ["body", "hint"] = some (.bool true) ∧
        deserialize e.serialize = some e) ∧
    deserialize (sampleEvent (treeRefused (.inl (.inl ())))).serialize =
      some (sampleEvent (treeRefused (.inl (.inl ())))) := by
  refine ⟨⟨rfl, ?_⟩, keeps_unread.2 _ _ _ _ _ _ ⟨trivial, trivial⟩⟩
  have hread : deserialize (.obj sampleRaw) = some { sampleEvent claimTaken with
      extra := [("body", .obj [("hint", .bool true)])] } := rfl
  obtain ⟨hget, hback⟩ := keeps_unread.1 sampleRaw _ sampleRaw_wf hread
  exact ⟨_, hread, hget ["body", "hint"] rfl, hback⟩

/-- A refusal kept whole that does not carry the kind it is said to have. -/
theorem unreadable_refusal :
    deserialize (sampleEvent (treeRefused (.inr ⟨"shallow", .null⟩))).serialize =
      (none : Option (Event sampleTexts)) := rfl

end Event

end NexusFlow.Run.Wire
