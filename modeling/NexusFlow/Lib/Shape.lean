import NexusFlow.Lib.Json

/-!
# Types with a JSON form

A `Shape` describes a type by its JSON form, the way a derived writer and reader treat it: leaves,
options, lists, records, and enums told apart by a tag, in which a value of a tag the reader does not
know is kept whole. `Shape.Val` is the type, `enc` and `dec` write and read it. A record may leave a
field out where it is `null`, and reads a missing field as `null`.

A leaf may read back another value than was written, `norm`, which is written the same.

* `Shape.dec_enc`: what is written reads back as its `norm`, where the values kept whole are ones a
  reader could have kept (`Shape.Sound`).
* `Shape.norm_of_dec`, `Shape.sound_of_dec`: what was read is its own `norm`, and sound.
-/

namespace NexusFlow.Lib

/-! ## Leaves -/

/-- A value that is no object, no array and not `null`. -/
def Json.IsLeaf : Json → Prop
  | .bool _ | .int _ | .float _ | .str _ => True
  | _ => False

theorem Json.IsLeaf.ne_null {j : Json} (h : j.IsLeaf) : j ≠ .null := by
  rintro rfl
  exact h

theorem Json.IsLeaf.not_isObj {j : Json} (h : j.IsLeaf) : ¬ j.IsObj := by
  rintro ⟨m, rfl⟩
  exact h

theorem Json.IsLeaf.wf {j : Json} (h : j.IsLeaf) : j.WF := by
  cases j with
  | bool b => exact .bool b
  | int n => exact .int n
  | float text => exact .float text
  | str text => exact .str text
  | _ => exact h.elim

/-- A type without an inner structure, its writer and its reader. -/
structure Leaf : Type 1 where
  Val : Type
  enc : Val → Json
  dec : Json → Option Val
  norm : Val → Val
  dec_enc : ∀ v, dec (enc v) = some (norm v)
  enc_norm : ∀ v, enc (norm v) = enc v
  norm_of_dec : ∀ j v, dec j = some v → norm v = v
  enc_isLeaf : ∀ v, (enc v).IsLeaf
  dec_isLeaf : ∀ j v, dec j = some v → j.IsLeaf

/-- A type of which every value is written as a text that reads back as it. -/
def Leaf.formatted (Val : Type) (format : Val → String) (parse : String → Option Val)
    (parse_format : ∀ v, parse (format v) = some v) : Leaf where
  Val := Val
  enc v := .str (format v)
  dec
    | .str text => parse text
    | _ => none
  norm v := v
  dec_enc := parse_format
  enc_norm _ := rfl
  norm_of_dec _ _ _ := rfl
  enc_isLeaf _ := trivial
  dec_isLeaf j v h := by
    cases j with
    | str text => trivial
    | _ => cases h

/-- A text. -/
def Leaf.text : Leaf := .formatted String id some fun _ => rfl

/-- A text of a form. -/
def Leaf.checked (ok : String → Bool) : Leaf :=
  .formatted { text : String // ok text = true } Subtype.val
    (fun text => if h : ok text = true then some ⟨text, h⟩ else none)
    fun v => dif_pos v.2

/-- A truth value. -/
def Leaf.bool : Leaf where
  Val := Bool
  enc := .bool
  dec
    | .bool b => some b
    | _ => none
  norm b := b
  dec_enc _ := rfl
  enc_norm _ := rfl
  norm_of_dec _ _ _ := rfl
  enc_isLeaf _ := trivial
  dec_isLeaf j v h := by
    cases j with
    | bool b => trivial
    | _ => cases h

/-- An integer of a range. -/
def Leaf.range (low high : ℤ) : Leaf where
  Val := { n : ℤ // low ≤ n ∧ n ≤ high }
  enc n := .int n
  dec
    | .int n => if h : low ≤ n ∧ n ≤ high then some ⟨n, h⟩ else none
    | _ => none
  norm n := n
  dec_enc n := dif_pos n.2
  enc_norm _ := rfl
  norm_of_dec _ _ _ := rfl
  enc_isLeaf _ := trivial
  dec_isLeaf j v h := by
    cases j with
    | int n => trivial
    | _ => cases h

/-- A word of a list, or one the list does not know. -/
inductive Code (all : List String)
  | known (word : { w : String // w ∈ all })
  | unknown (raw : String)
  deriving DecidableEq

variable {all : List String}

/-- The word. -/
def Code.asStr : Code all → String
  | .known word => word
  | .unknown raw => raw

/-- The code of a word. -/
def Code.parse (text : String) : Code all :=
  if h : text ∈ all then .known ⟨text, h⟩ else .unknown text

theorem Code.asStr_parse (text : String) : (Code.parse text : Code all).asStr = text := by
  unfold Code.parse
  split_ifs <;> rfl

/-- A word of a list. A word spelled like one of the list reads as it. -/
def Leaf.code (all : List String) : Leaf where
  Val := Code all
  enc c := .str c.asStr
  dec
    | .str text => some (.parse text)
    | _ => none
  norm c := .parse c.asStr
  dec_enc _ := rfl
  enc_norm c := by rw [Code.asStr_parse]
  norm_of_dec j c h := by
    cases j with
    | str text =>
      cases h
      rw [Code.asStr_parse]
    | _ => cases h
  enc_isLeaf _ := trivial
  dec_isLeaf j v h := by
    cases j with
    | str text => trivial
    | _ => cases h

/-! ## Shapes -/

mutual

/-- The form of a type. -/
inductive Shape : Type 1
  | leaf (l : Leaf)
  | option (s : Shape)
  | list (s : Shape)
  | record (fields : Fields)
  /-- An enum whose values carry their kind under the tag. -/
  | tagged (tag : String) (variants : Variants)

/-- The fields of a record, each with whether it is left out where it is `null`. -/
inductive Fields : Type 1
  | nil
  | cons (name : String) (shape : Shape) (skip : Bool) (rest : Fields)

/-- The kinds of an enum, with their fields. -/
inductive Variants : Type 1
  | nil
  | cons (kind : String) (fields : Fields) (rest : Variants)

end

/-- An object of a kind its reader does not know, kept whole. -/
structure UnknownBody where
  kind : String
  raw : Json

mutual

/-- The values of a form. -/
def Shape.Val : Shape → Type
  | .leaf l => l.Val
  | .option s => Option s.Val
  | .list s => List s.Val
  | .record fields => fields.Val
  | .tagged _ variants => variants.Val ⊕ UnknownBody

def Fields.Val : Fields → Type
  | .nil => Unit
  | .cons _ s _ rest => s.Val × rest.Val

def Variants.Val : Variants → Type
  | .nil => Empty
  | .cons _ fields rest => fields.Val ⊕ rest.Val

end

/-- The names of the fields. -/
def Fields.names : Fields → List String
  | .nil => []
  | .cons name _ _ rest => name :: rest.names

/-- The kinds. -/
def Variants.kinds : Variants → List String
  | .nil => []
  | .cons kind _ rest => kind :: rest.kinds

/-- The kind of a value. -/
def Variants.kind : (variants : Variants) → variants.Val → String
  | .nil, v => Empty.elim v
  | .cons kind _ _, .inl _ => kind
  | .cons _ _ rest, .inr v => rest.kind v

/-- The value is `null`. -/
def Json.isNull : Json → Bool
  | .null => true
  | _ => false

theorem Json.isNull_eq_false {j : Json} (h : j ≠ .null) : j.isNull = false := by
  cases j with
  | null => exact absurd rfl h
  | _ => rfl

theorem Json.eq_null_of_isNull {j : Json} (h : j.isNull = true) : j = .null := by
  cases j with
  | null => rfl
  | _ => cases h

/-- The object of a kind, with the kind under its tag. -/
def encTagged (tag kind : String) (fields : Members) : Json := .obj (insertKey tag (.str kind) fields)

/-- A field before the fields after it, left out where it may be and is `null`. -/
def encField (name : String) (skip : Bool) (value : Json) (rest : Members) : Members :=
  if skip && value.isNull then rest else insertKey name value rest

mutual

/-- A value, written. -/
def Shape.enc : (s : Shape) → s.Val → Json
  | .leaf l, v => l.enc v
  | .option _, none => .null
  | .option s, some v => s.enc v
  | .list s, vs => .arr (List.map s.enc vs)
  | .record fields, v => .obj (fields.enc v)
  | .tagged tag variants, .inl v => encTagged tag (variants.kind v) (variants.enc v)
  | .tagged _ _, .inr u => u.raw

def Fields.enc : (fields : Fields) → fields.Val → Members
  | .nil, _ => []
  | .cons name s skip rest, (v, vs) => encField name skip (s.enc v) (rest.enc vs)

def Variants.enc : (variants : Variants) → variants.Val → Members
  | .nil, v => Empty.elim v
  | .cons _ fields _, .inl v => fields.enc v
  | .cons _ _ rest, .inr v => rest.enc v

end

section Readers

variable {α β : Type}

/-- A value or `null`. -/
def decOption (read : Json → Option α) (j : Json) : Option (Option α) :=
  if j.isNull then some none else (read j).map some

/-- An array of values. -/
def decList (read : Json → Option α) : Json → Option (List α)
  | .arr items => items.mapM read
  | _ => none

/-- A record, from its object or from the array of its fields. -/
def decRecord (ofObject : Members → Option α) (ofItems : List Json → Option α) : Json → Option α
  | .obj m => ofObject m
  | .arr items => ofItems items
  | _ => none

/-- An object, by the kind under its tag: a known kind goes to its reader alone, and any other object
is kept whole. -/
def decTagged (tag : String) (kinds : List String) (known : String → Members → Option α) :
    Json → Option (α ⊕ UnknownBody)
  | .obj m =>
    match m.lookup tag with
    | some (.str kind) =>
      if kind ∈ kinds then (known kind m).map .inl else some (.inr ⟨kind, .obj m⟩)
    | _ => none
  | _ => none

/-- The field of a name, and what is read after it. A field that is missing is `null`. -/
def decField (name : String) (read : Json → Option α) (rest : Members → Option β) (m : Members) :
    Option (α × β) := do
  let v ← read ((m.lookup name).getD .null)
  let vs ← rest m
  return (v, vs)

/-- The next field of an array. -/
def decItem (read : Json → Option α) (rest : List Json → Option β) : List Json → Option (α × β)
  | [] => none
  | j :: items => do
    let v ← read j
    let vs ← rest items
    return (v, vs)

/-- The fields of the first variant, or one of the variants after it. -/
def decVariant (kind : String) (fields : Members → Option α) (rest : String → Members → Option β)
    (kind' : String) (m : Members) : Option (α ⊕ β) :=
  if kind' = kind then (fields m).map .inl else (rest kind' m).map .inr

theorem decVariant_self (kind : String) (fields : Members → Option α)
    (rest : String → Members → Option β) (m : Members) :
    decVariant kind fields rest kind m = (fields m).map .inl := if_pos rfl

theorem decVariant_of_ne {kind kind' : String} (h : kind' ≠ kind) (fields : Members → Option α)
    (rest : String → Members → Option β) (m : Members) :
    decVariant kind fields rest kind' m = (rest kind' m).map .inr := if_neg h

/-! What is known of a value that was read. -/

theorem decOption_eq_some {read : Json → Option α} {j : Json} {v : Option α}
    (h : decOption read j = some v) :
    j = .null ∧ v = none ∨ j ≠ .null ∧ ∃ w, v = some w ∧ read j = some w := by
  unfold decOption at h
  split_ifs at h with hnull
  · cases h
    exact .inl ⟨Json.eq_null_of_isNull hnull, rfl⟩
  · obtain ⟨w, hw, rfl⟩ := Option.map_eq_some_iff.mp h
    refine .inr ⟨?_, w, rfl, hw⟩
    rintro rfl
    exact hnull rfl

theorem decList_eq_some {read : Json → Option α} {j : Json} {vs : List α}
    (h : decList read j = some vs) : ∃ items, j = .arr items ∧ items.mapM read = some vs := by
  cases j with
  | arr items => exact ⟨items, rfl, h⟩
  | _ => cases h

theorem decRecord_eq_some {ofObject : Members → Option α} {ofItems : List Json → Option α}
    {j : Json} {v : α} (h : decRecord ofObject ofItems j = some v) :
    (∃ m, j = .obj m ∧ ofObject m = some v) ∨ ∃ items, j = .arr items ∧ ofItems items = some v := by
  cases j with
  | obj m => exact .inl ⟨m, rfl, h⟩
  | arr items => exact .inr ⟨items, rfl, h⟩
  | _ => cases h

theorem decTagged_eq_some {tag : String} {kinds : List String}
    {known : String → Members → Option α} {j : Json} {v : α ⊕ UnknownBody}
    (h : decTagged tag kinds known j = some v) :
    ∃ m kind, j = .obj m ∧ m.lookup tag = some (.str kind) ∧
      ((∃ w, v = .inl w ∧ kind ∈ kinds ∧ known kind m = some w) ∨
        v = .inr ⟨kind, j⟩ ∧ kind ∉ kinds) := by
  cases j with
  | obj m =>
    cases htag : m.lookup tag with
    | none => simp [decTagged, htag] at h
    | some t =>
      cases t with
      | str kind =>
        refine ⟨m, kind, rfl, htag, ?_⟩
        simp only [decTagged, htag] at h
        split_ifs at h with hkind
        · obtain ⟨w, hw, rfl⟩ := Option.map_eq_some_iff.mp h
          exact .inl ⟨w, rfl, hkind, hw⟩
        · cases h
          exact .inr ⟨rfl, hkind⟩
      | _ => simp [decTagged, htag] at h
  | _ => cases h

theorem decField_eq_some {name : String} {read : Json → Option α} {rest : Members → Option β}
    {m : Members} {v : α} {vs : β} (h : decField name read rest m = some (v, vs)) :
    read ((m.lookup name).getD .null) = some v ∧ rest m = some vs := by
  obtain ⟨v', hv, h⟩ := Option.bind_eq_some_iff.mp h
  obtain ⟨vs', hvs, h⟩ := Option.bind_eq_some_iff.mp h
  cases h
  exact ⟨hv, hvs⟩

theorem decItem_eq_some {read : Json → Option α} {rest : List Json → Option β}
    {items : List Json} {v : α} {vs : β} (h : decItem read rest items = some (v, vs)) :
    ∃ j items', items = j :: items' ∧ read j = some v ∧ rest items' = some vs := by
  cases items with
  | nil => cases h
  | cons j items' =>
    obtain ⟨v', hv, h⟩ := Option.bind_eq_some_iff.mp h
    obtain ⟨vs', hvs, h⟩ := Option.bind_eq_some_iff.mp h
    cases h
    exact ⟨j, items', rfl, hv, hvs⟩

theorem decVariant_eq_some {kind kind' : String} {fields : Members → Option α}
    {rest : String → Members → Option β} {m : Members} {v : α ⊕ β}
    (h : decVariant kind fields rest kind' m = some v) :
    kind' = kind ∧ (∃ w, v = .inl w ∧ fields m = some w) ∨
      kind' ≠ kind ∧ ∃ w, v = .inr w ∧ rest kind' m = some w := by
  unfold decVariant at h
  split_ifs at h with hkind
  · obtain ⟨w, hw, rfl⟩ := Option.map_eq_some_iff.mp h
    exact .inl ⟨hkind, w, rfl, hw⟩
  · obtain ⟨w, hw, rfl⟩ := Option.map_eq_some_iff.mp h
    exact .inr ⟨hkind, w, rfl, hw⟩

theorem mapM_eq_some {read : Json → Option α} {items : List Json} {vs : List α}
    (h : items.mapM read = some vs) : ∀ v ∈ vs, ∃ j ∈ items, read j = some v := by
  induction items generalizing vs with
  | nil =>
    cases h
    intro v hv
    cases hv
  | cons j items ih =>
    rw [List.mapM_cons] at h
    obtain ⟨v', hv', h⟩ := Option.bind_eq_some_iff.mp h
    obtain ⟨vs', hvs', h⟩ := Option.bind_eq_some_iff.mp h
    cases h
    intro v hv
    rcases List.mem_cons.mp hv with rfl | hv
    · exact ⟨j, List.mem_cons_self, hv'⟩
    · obtain ⟨j', hj', hread⟩ := ih hvs' v hv
      exact ⟨j', List.mem_cons_of_mem _ hj', hread⟩

end Readers

mutual

/-- A value, read. -/
def Shape.dec : (s : Shape) → Json → Option s.Val
  | .leaf l => l.dec
  | .option s => decOption s.dec
  | .list s => decList s.dec
  | .record fields => decRecord fields.dec fields.decItems
  | .tagged tag variants => decTagged tag variants.kinds variants.dec

/-- The fields of an object. -/
def Fields.dec : (fields : Fields) → Members → Option fields.Val
  | .nil => fun _ => some ()
  | .cons name s _ rest => decField name s.dec rest.dec

/-- The fields of an array. -/
def Fields.decItems : (fields : Fields) → List Json → Option fields.Val
  | .nil => fun items => if items.isEmpty then some () else none
  | .cons _ s _ rest => decItem s.dec rest.decItems

/-- The fields of the first variant of the kind. -/
def Variants.dec : (variants : Variants) → String → Members → Option variants.Val
  | .nil => fun _ _ => none
  | .cons kind fields rest => decVariant kind fields.dec rest.dec

end

/-! ## Forms that can be read back -/

/-- An option, of which `none` is written `null`. -/
def Shape.IsOption : Shape → Prop
  | .option _ => True
  | _ => False

mutual

/-- No two fields of a record and no two kinds of an enum have one name, no field is named like the
tag beside it, and no option holds an option. -/
def Shape.Fine : Shape → Prop
  | .leaf _ => True
  | .option s => ¬ s.IsOption ∧ s.Fine
  | .list s => s.Fine
  | .record fields => fields.Fine
  | .tagged tag variants => variants.Fine tag

def Fields.Fine : Fields → Prop
  | .nil => True
  | .cons name s _ rest => name ∉ rest.names ∧ s.Fine ∧ rest.Fine

def Variants.Fine (tag : String) : Variants → Prop
  | .nil => True
  | .cons kind fields rest =>
    kind ∉ rest.kinds ∧ tag ∉ fields.names ∧ fields.Fine ∧ rest.Fine tag

end

/-- A value a reader kept whole: an object that carries its kind under the tag, and the kind is none
of those the reader knows. -/
structure UnknownBody.Kept (u : UnknownBody) (tag : String) (kinds : List String) : Prop where
  object : ∃ m, u.raw = .obj m ∧ m.lookup tag = some (.str u.kind)
  wf : u.raw.WF
  unknown : u.kind ∉ kinds

mutual

/-- Every value kept whole is one a reader could have kept, or is spelled like a value it knows. -/
def Shape.Sound : (s : Shape) → s.Val → Prop
  | .leaf _, _ => True
  | .option _, none => True
  | .option s, some v => s.Sound v
  | .list s, vs => List.Forall s.Sound vs
  | .record fields, v => fields.Sound v
  | .tagged _ variants, .inl v => variants.Sound v
  | .tagged tag variants, .inr u => u.Kept tag variants.kinds ∨
    ∃ v, variants.Sound v ∧ u.raw = (Shape.tagged tag variants).enc (.inl v)

def Fields.Sound : (fields : Fields) → fields.Val → Prop
  | .nil, _ => True
  | .cons _ s _ rest, (v, vs) => s.Sound v ∧ rest.Sound vs

def Variants.Sound : (variants : Variants) → variants.Val → Prop
  | .nil, _ => True
  | .cons _ fields _, .inl v => fields.Sound v
  | .cons _ _ rest, .inr v => rest.Sound v

end

mutual

/-- What a value reads back as: one spelled like a known value reads as the known one. -/
def Shape.norm : (s : Shape) → s.Val → s.Val
  | .leaf l, v => l.norm v
  | .option _, none => none
  | .option s, some v => some (s.norm v)
  | .list s, vs => List.map s.norm vs
  | .record fields, v => fields.norm v
  | .tagged _ variants, .inl v => .inl (variants.norm v)
  | .tagged tag variants, .inr u => ((Shape.tagged tag variants).dec u.raw).getD (.inr u)

def Fields.norm : (fields : Fields) → fields.Val → fields.Val
  | .nil, _ => ()
  | .cons _ s _ rest, (v, vs) => (s.norm v, rest.norm vs)

def Variants.norm : (variants : Variants) → variants.Val → variants.Val
  | .nil, v => v
  | .cons _ fields _, .inl v => .inl (fields.norm v)
  | .cons _ _ rest, .inr v => .inr (rest.norm v)

end

/-! ## One field -/

theorem decTagged_of_mem {α : Type} {tag kind : String} {kinds : List String}
    {known : String → Members → Option α} {m : Members} (htag : m.lookup tag = some (.str kind))
    (hkind : kind ∈ kinds) :
    decTagged tag kinds known (.obj m) = (known kind m).map .inl := by
  simp only [decTagged, htag, if_pos hkind]

theorem UnknownBody.Kept.dec {α : Type} {u : UnknownBody} {tag : String} {kinds : List String}
    (h : u.Kept tag kinds) (known : String → Members → Option α) :
    decTagged tag kinds known u.raw = some (.inr u) := by
  obtain ⟨⟨m, hraw, htag⟩, -, hunknown⟩ := h
  obtain ⟨kind, raw⟩ := u
  cases hraw
  simp only [decTagged, htag, if_neg hunknown]

/-- Only an option is written `null`. -/
theorem Shape.enc_ne_null {s : Shape} (hs : ¬ s.IsOption) {v : s.Val} (hv : s.Sound v) :
    s.enc v ≠ .null := by
  intro h
  cases s with
  | leaf l => exact (l.enc_isLeaf v).ne_null h
  | option s => exact hs trivial
  | list s => cases h
  | record fields => cases h
  | tagged tag variants =>
    cases v with
    | inl v => cases h
    | inr u =>
      rcases hv with hkept | ⟨v, -, hraw⟩
      · obtain ⟨⟨m, hobj, -⟩, -, -⟩ := hkept
        exact Json.noConfusion (hobj.symm.trans h)
      · exact Json.noConfusion (hraw.symm.trans h)

theorem lookup_encField_of_ne {k name : String} (h : k ≠ name) (skip : Bool) (value : Json)
    (rest : Members) : (encField name skip value rest).lookup k = rest.lookup k := by
  unfold encField
  split_ifs
  · rfl
  · rw [lookup_insertKey, if_neg h]

/-- The field stands under its name, or is left out and `null`. -/
theorem lookup_encField {name : String} {rest : Members} (h : rest.lookup name = none)
    (skip : Bool) (value : Json) :
    (encField name skip value rest).lookup name = some value ∨
      (encField name skip value rest).lookup name = none ∧ value = .null := by
  unfold encField
  split_ifs with hskip
  · exact .inr ⟨h, Json.eq_null_of_isNull (Bool.and_eq_true_iff.mp hskip).2⟩
  · rw [lookup_insertKey, if_pos rfl]
    exact .inl rfl

theorem Fields.lookup_enc_of_notMem {k : String} : (fields : Fields) → k ∉ fields.names →
    (v : fields.Val) → (fields.enc v).lookup k = none
  | .nil, _, _ => rfl
  | .cons name s skip rest, h, (v, vs) => by
    obtain ⟨hne, hrest⟩ : k ≠ name ∧ k ∉ rest.names := by
      simpa only [Fields.names, List.mem_cons, not_or] using h
    exact (lookup_encField_of_ne hne skip _ _).trans (rest.lookup_enc_of_notMem hrest vs)

theorem Variants.kind_mem : (variants : Variants) → (v : variants.Val) →
    variants.kind v ∈ variants.kinds
  | .nil, v => Empty.elim v
  | .cons _ _ _, .inl _ => List.mem_cons_self
  | .cons _ _ rest, .inr v => List.mem_cons_of_mem _ (rest.kind_mem v)

/-! ## What is written reads back -/

theorem mapM_map {α β : Type} {read : Json → Option α} {write : β → Json} {norm : β → α}
    {vs : List β} (h : ∀ v ∈ vs, read (write v) = some (norm v)) :
    (vs.map write).mapM read = some (vs.map norm) := by
  induction vs with
  | nil => rfl
  | cons v vs ih =>
    have hhead := h v List.mem_cons_self
    have htail := ih fun w hw => h w (List.mem_cons_of_mem _ hw)
    rw [List.map_cons, List.mapM_cons, hhead, htail]
    rfl

mutual

/-- **A value written and read again** is its `norm`. -/
theorem Shape.dec_enc : (s : Shape) → s.Fine → (v : s.Val) → s.Sound v →
    s.dec (s.enc v) = some (s.norm v)
  | .leaf l, _, v, _ => l.dec_enc v
  | .option _, _, none, _ => rfl
  | .option s, hs, some v, hv => by
    have hnull := Json.isNull_eq_false (Shape.enc_ne_null hs.1 hv)
    have hdec := s.dec_enc hs.2 v hv
    show decOption s.dec (s.enc v) = some (some (s.norm v))
    rw [decOption, hnull, hdec]
    rfl
  | .list s, hs, vs, hv =>
    mapM_map fun v hmem => s.dec_enc hs v (List.forall_iff_forall_mem.mp hv v hmem)
  | .record fields, hs, v, hv => fields.dec_enc hs v hv fun _ _ => rfl
  | .tagged tag variants, hs, .inl v, hv => variants.decTagged_enc hs v hv
  | .tagged tag variants, hs, .inr u, hv => by
    show decTagged tag variants.kinds variants.dec u.raw =
      some ((decTagged tag variants.kinds variants.dec u.raw).getD (.inr u))
    rcases hv with hkept | ⟨v, hv, hraw⟩
    · rw [hkept.dec, Option.getD_some]
    · have hdec : decTagged tag variants.kinds variants.dec u.raw =
          some (.inl (variants.norm v)) := by
        rw [hraw]
        exact variants.decTagged_enc hs v hv
      rw [hdec, Option.getD_some]

/-- The fields, read from an object that holds under their names what they were written as. -/
theorem Fields.dec_enc : (fields : Fields) → fields.Fine → (v : fields.Val) → fields.Sound v →
    {m : Members} → (∀ k ∈ fields.names, m.lookup k = (fields.enc v).lookup k) →
    fields.dec m = some (fields.norm v)
  | .nil, _, _, _, _, _ => rfl
  | .cons name s skip rest, hs, (v, vs), hv, m, hm => by
    have hhead : (m.lookup name).getD .null = s.enc v := by
      rw [hm name List.mem_cons_self]
      rcases lookup_encField (rest.lookup_enc_of_notMem hs.1 vs) skip (s.enc v) with
        hlook | ⟨hlook, hnull⟩
      · exact congrArg (Option.getD · .null) hlook
      · rw [hnull]
        exact congrArg (Option.getD · .null) hlook
    have hrest : rest.dec m = some (rest.norm vs) := by
      refine rest.dec_enc hs.2.2 vs hv.2 fun k hk => ?_
      rw [hm k (List.mem_cons_of_mem _ hk)]
      have hne : k ≠ name := by
        rintro rfl
        exact hs.1 hk
      exact lookup_encField_of_ne hne skip _ _
    show decField name s.dec rest.dec m = some (s.norm v, rest.norm vs)
    rw [decField, hhead, s.dec_enc hs.2.1 v hv.1, hrest]
    rfl

theorem Variants.decTagged_enc {tag : String} : (variants : Variants) → variants.Fine tag →
    (v : variants.Val) → variants.Sound v →
    decTagged tag variants.kinds variants.dec (encTagged tag (variants.kind v) (variants.enc v)) =
      some (.inl (variants.norm v)) := by
  intro variants hs v hv
  have hdec := variants.dec_enc hs v hv
    (m := insertKey tag (.str (variants.kind v)) (variants.enc v)) fun k hk => by
      rw [lookup_insertKey, if_neg hk]
  rw [encTagged, decTagged_of_mem (by rw [lookup_insertKey, if_pos rfl]) (variants.kind_mem v),
    hdec]
  rfl

theorem Variants.dec_enc {tag : String} : (variants : Variants) → variants.Fine tag →
    (v : variants.Val) → variants.Sound v →
    {m : Members} → (∀ k, k ≠ tag → m.lookup k = (variants.enc v).lookup k) →
    variants.dec (variants.kind v) m = some (variants.norm v)
  | .nil, _, v, _, _, _ => Empty.elim v
  | .cons kind fields rest, hs, .inl v, hv, m, hm => by
    have hdec := fields.dec_enc hs.2.2.1 v hv (m := m) fun k hk =>
      hm k fun heq => hs.2.1 (heq ▸ hk)
    show decVariant kind fields.dec rest.dec kind m = some (Sum.inl (fields.norm v))
    rw [decVariant_self, hdec]
    rfl
  | .cons kind fields rest, hs, .inr v, hv, m, hm => by
    have hdec := rest.dec_enc hs.2.2.2 v hv (m := m) hm
    have hne : rest.kind v ≠ kind := fun heq => hs.1 (heq ▸ rest.kind_mem v)
    show decVariant kind fields.dec rest.dec (rest.kind v) m = some (Sum.inr (rest.norm v))
    rw [decVariant_of_ne hne, hdec]
    rfl

end

mutual

/-- What a value reads back as is written as the value is. -/
theorem Shape.enc_norm : (s : Shape) → s.Fine → (v : s.Val) → s.Sound v →
    s.enc (s.norm v) = s.enc v
  | .leaf l, _, v, _ => l.enc_norm v
  | .option _, _, none, _ => rfl
  | .option s, hs, some v, hv => s.enc_norm hs.2 v hv
  | .list s, hs, vs, hv => by
    refine congrArg Json.arr (List.map_map.trans (List.map_congr_left fun v hmem => ?_))
    exact s.enc_norm hs v (List.forall_iff_forall_mem.mp hv v hmem)
  | .record fields, hs, v, hv => congrArg Json.obj (fields.enc_norm hs v hv)
  | .tagged tag variants, hs, .inl v, hv =>
    congrArg₂ (encTagged tag) (variants.kind_norm v) (variants.enc_norm hs v hv)
  | .tagged tag variants, hs, .inr u, hv => by
    show (Shape.tagged tag variants).enc
      ((decTagged tag variants.kinds variants.dec u.raw).getD (.inr u)) = u.raw
    rcases hv with hkept | ⟨v, hv, hraw⟩
    · rw [hkept.dec, Option.getD_some]
      rfl
    · have hdec : decTagged tag variants.kinds variants.dec u.raw =
          some (.inl (variants.norm v)) := by
        rw [hraw]
        exact variants.decTagged_enc hs v hv
      rw [hdec, Option.getD_some, hraw]
      exact congrArg₂ (encTagged tag) (variants.kind_norm v) (variants.enc_norm hs v hv)

theorem Fields.enc_norm : (fields : Fields) → fields.Fine → (v : fields.Val) → fields.Sound v →
    fields.enc (fields.norm v) = fields.enc v
  | .nil, _, _, _ => rfl
  | .cons name s skip rest, hs, (v, vs), hv =>
    congrArg₂ (encField name skip) (s.enc_norm hs.2.1 v hv.1) (rest.enc_norm hs.2.2 vs hv.2)

theorem Variants.kind_norm : (variants : Variants) → (v : variants.Val) →
    variants.kind (variants.norm v) = variants.kind v
  | .nil, v => Empty.elim v
  | .cons _ _ _, .inl _ => rfl
  | .cons _ _ rest, .inr v => rest.kind_norm v

theorem Variants.enc_norm {tag : String} : (variants : Variants) → variants.Fine tag →
    (v : variants.Val) → variants.Sound v → variants.enc (variants.norm v) = variants.enc v
  | .nil, _, v, _ => Empty.elim v
  | .cons _ fields _, hs, .inl v, hv => fields.enc_norm hs.2.2.1 v hv
  | .cons _ _ rest, hs, .inr v, hv => rest.enc_norm hs.2.2.2 v hv

end

/-! ## What was read -/

mutual

/-- **What was read is its own `norm`.** -/
theorem Shape.norm_of_dec : (s : Shape) → {j : Json} → {v : s.Val} → s.dec j = some v → s.norm v = v
  | .leaf l, j, v, h => l.norm_of_dec j v h
  | .option s, j, v, h => by
    rcases decOption_eq_some h with ⟨-, rfl⟩ | ⟨-, w, rfl, hw⟩
    · rfl
    · exact congrArg some (s.norm_of_dec hw)
  | .list s, j, vs, h => by
    obtain ⟨items, rfl, hitems⟩ := decList_eq_some h
    refine (List.map_congr_left fun v hmem => ?_).trans (List.map_id _)
    obtain ⟨j, -, hj⟩ := mapM_eq_some hitems v hmem
    exact s.norm_of_dec hj
  | .record fields, j, v, h => by
    rcases decRecord_eq_some h with ⟨m, -, hm⟩ | ⟨items, -, hitems⟩
    · exact fields.norm_of_dec hm
    · exact fields.norm_of_decItems hitems
  | .tagged tag variants, j, v, h => by
    obtain ⟨m, kind, -, -, ⟨w, rfl, -, hw⟩ | ⟨rfl, -⟩⟩ := decTagged_eq_some h
    · exact congrArg Sum.inl (variants.norm_of_dec hw)
    · show (decTagged tag variants.kinds variants.dec j).getD _ = _
      exact congrArg (Option.getD · _) h

theorem Fields.norm_of_dec : (fields : Fields) → {m : Members} → {v : fields.Val} →
    fields.dec m = some v → fields.norm v = v
  | .nil, _, _, _ => rfl
  | .cons _ s _ rest, m, (v, vs), h => by
    obtain ⟨hv, hvs⟩ := decField_eq_some h
    exact congrArg₂ Prod.mk (s.norm_of_dec hv) (rest.norm_of_dec hvs)

theorem Fields.norm_of_decItems : (fields : Fields) → {items : List Json} → {v : fields.Val} →
    fields.decItems items = some v → fields.norm v = v
  | .nil, _, _, _ => rfl
  | .cons _ s _ rest, items, (v, vs), h => by
    obtain ⟨j, items', -, hv, hvs⟩ := decItem_eq_some h
    exact congrArg₂ Prod.mk (s.norm_of_dec hv) (rest.norm_of_decItems hvs)

theorem Variants.norm_of_dec : (variants : Variants) → {kind : String} → {m : Members} →
    {v : variants.Val} → variants.dec kind m = some v → variants.norm v = v
  | .nil, _, _, _, h => by cases h
  | .cons _ fields rest, kind, m, v, h => by
    rcases decVariant_eq_some h with ⟨-, w, rfl, hw⟩ | ⟨-, w, rfl, hw⟩
    · exact congrArg Sum.inl (fields.norm_of_dec hw)
    · exact congrArg Sum.inr (rest.norm_of_dec hw)

end

theorem Json.WF.getD_lookup {m : Members} (h : (Json.obj m).WF) (name : String) :
    ((m.lookup name).getD .null).WF := by
  cases hlook : m.lookup name with
  | none => exact .null
  | some v => exact h.of_lookup hlook

theorem Json.WF.items {items : List Json} (h : (Json.arr items).WF) : ∀ j ∈ items, j.WF := by
  cases h with
  | arr h => exact h

mutual

/-- **What was read is sound.** -/
theorem Shape.sound_of_dec : (s : Shape) → {j : Json} → j.WF → {v : s.Val} → s.dec j = some v →
    s.Sound v
  | .leaf l, _, _, _, _ => trivial
  | .option s, j, hj, v, h => by
    rcases decOption_eq_some h with ⟨-, rfl⟩ | ⟨-, w, rfl, hw⟩
    · trivial
    · exact s.sound_of_dec hj hw
  | .list s, j, hj, vs, h => by
    obtain ⟨items, rfl, hitems⟩ := decList_eq_some h
    refine List.forall_iff_forall_mem.mpr fun v hmem => ?_
    obtain ⟨j, hmem', hj'⟩ := mapM_eq_some hitems v hmem
    exact s.sound_of_dec (hj.items j hmem') hj'
  | .record fields, j, hj, v, h => by
    rcases decRecord_eq_some h with ⟨m, rfl, hm⟩ | ⟨items, rfl, hitems⟩
    · exact fields.sound_of_dec hj hm
    · exact fields.sound_of_decItems hj.items hitems
  | .tagged tag variants, j, hj, v, h => by
    obtain ⟨m, kind, rfl, htag, ⟨w, rfl, -, hw⟩ | ⟨rfl, hkind⟩⟩ := decTagged_eq_some h
    · exact variants.sound_of_dec hj hw
    · exact .inl ⟨⟨m, rfl, htag⟩, hj, hkind⟩

theorem Fields.sound_of_dec : (fields : Fields) → {m : Members} → (Json.obj m).WF →
    {v : fields.Val} → fields.dec m = some v → fields.Sound v
  | .nil, _, _, _, _ => trivial
  | .cons name s _ rest, m, hm, (v, vs), h => by
    obtain ⟨hv, hvs⟩ := decField_eq_some h
    exact ⟨s.sound_of_dec (hm.getD_lookup name) hv, rest.sound_of_dec hm hvs⟩

theorem Fields.sound_of_decItems : (fields : Fields) → {items : List Json} →
    (∀ j ∈ items, j.WF) → {v : fields.Val} → fields.decItems items = some v → fields.Sound v
  | .nil, _, _, _, _ => trivial
  | .cons _ s _ rest, items, hitems, (v, vs), h => by
    obtain ⟨j, items', rfl, hv, hvs⟩ := decItem_eq_some h
    obtain ⟨hj, hitems'⟩ := List.forall_mem_cons.mp hitems
    exact ⟨s.sound_of_dec hj hv, rest.sound_of_decItems hitems' hvs⟩

theorem Variants.sound_of_dec : (variants : Variants) → {kind : String} → {m : Members} →
    (Json.obj m).WF → {v : variants.Val} → variants.dec kind m = some v → variants.Sound v
  | .nil, _, _, _, _, h => by cases h
  | .cons _ fields rest, kind, m, hm, v, h => by
    rcases decVariant_eq_some h with ⟨-, w, rfl, hw⟩ | ⟨-, w, rfl, hw⟩
    · exact fields.sound_of_dec hm hw
    · exact rest.sound_of_dec hm hw

end

/-! ## What is written is well formed -/

theorem Json.WF.encField {value : Json} {rest : Members} (hvalue : value.WF)
    (hrest : (Json.obj rest).WF) (name : String) (skip : Bool) :
    (Json.obj (encField name skip value rest)).WF := by
  unfold Lib.encField
  split_ifs
  · exact hrest
  · exact hrest.insertKey name hvalue

theorem Json.WF.encTagged {fields : Members} (h : (Json.obj fields).WF) (tag kind : String) :
    (encTagged tag kind fields).WF := h.insertKey tag (.str kind)

mutual

theorem Shape.enc_wf : (s : Shape) → (v : s.Val) → s.Sound v → (s.enc v).WF
  | .leaf l, v, _ => (l.enc_isLeaf v).wf
  | .option _, none, _ => .null
  | .option s, some v, hv => s.enc_wf v hv
  | .list s, vs, hv => by
    refine .arr fun j hj => ?_
    obtain ⟨v, hmem, rfl⟩ := List.mem_map.mp hj
    exact s.enc_wf v (List.forall_iff_forall_mem.mp hv v hmem)
  | .record fields, v, hv => fields.enc_wf v hv
  | .tagged tag variants, .inl v, hv => (variants.enc_wf v hv).encTagged tag _
  | .tagged tag variants, .inr u, hv => by
    rcases hv with hkept | ⟨v, hv, hraw⟩
    · exact hkept.wf
    · show u.raw.WF
      rw [hraw]
      exact (variants.enc_wf v hv).encTagged tag _

theorem Fields.enc_wf : (fields : Fields) → (v : fields.Val) → fields.Sound v →
    (Json.obj (fields.enc v)).WF
  | .nil, _, _ => .obj List.Pairwise.nil (List.forall_mem_nil _)
  | .cons name s skip rest, (v, vs), hv => (s.enc_wf v hv.1).encField (rest.enc_wf vs hv.2) name skip

theorem Variants.enc_wf : (variants : Variants) → (v : variants.Val) → variants.Sound v →
    (Json.obj (variants.enc v)).WF
  | .nil, v, _ => Empty.elim v
  | .cons _ fields _, .inl v, hv => fields.enc_wf v hv
  | .cons _ _ rest, .inr v, hv => rest.enc_wf v hv

end

end NexusFlow.Lib
