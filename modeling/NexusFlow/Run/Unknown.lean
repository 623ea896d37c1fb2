import NexusFlow.Lib.Shape

/-!
# What a newer writer put on an object

Model of `unknown_fields` and `merge_unknown` (`crates/run-contracts/src/events.rs:149-184`). A reader
keeps of an object what its own writing of it does not hold, and merges that back in when it writes the
object again.

* `lookup_rewritten`: the object written again, key by key.
* `get_rewrite`: it agrees with the original at every path the reader does not write itself, where the
  reader writes an object for an object (`Fits`).
* `unknownFields_rewritten`: read again, it has the same unknown fields.
* `fits_of_dec`, `dec_rewrite`: a typed reader (`Shape`) writes an object for an object, and what it
  wrote again reads back as the same value.
-/

namespace NexusFlow.Run

open NexusFlow.Lib

/-! ## The two functions -/

mutual

/-- `unknown_fields`: what `raw` holds that `written` does not, keeping the objects on the way
down. -/
def unknownFields : (raw : Members) → (written : Members) → Members
  | [], _ => []
  | (key, value) :: rest, written =>
    match unknownValue value (written.lookup key) with
    | none => unknownFields rest written
    | some unknown => (key, unknown) :: unknownFields rest written
termination_by structural raw => raw

/-- What a value holds that the written one does not, if anything. -/
def unknownValue : (raw : Json) → (written : Option Json) → Option Json
  | raw, none => some raw
  | .obj raw, some (.obj written) =>
    if (unknownFields raw written).isEmpty then none
    else some (.obj (unknownFields raw written))
  | _, some _ => none
termination_by structural raw => raw

end

mutual

/-- `merge_unknown`. -/
def mergeUnknown : (wire : Members) → (unknown : Members) → Members
  | wire, [] => wire
  | wire, (key, value) :: rest =>
    mergeUnknown (insertKey key (mergedValue (wire.lookup key) value) wire) rest
termination_by structural _ unknown => unknown

/-- What stands under a key after the merge. -/
def mergedValue : (wire : Option Json) → (unknown : Json) → Json
  | some (.obj inner), .obj unknown => .obj (mergeUnknown inner unknown)
  | _, unknown => unknown
termination_by structural _ unknown => unknown

end

/-- An object written again. -/
def rewritten (raw written : Members) : Members := mergeUnknown written (unknownFields raw written)

/-- A value written again. -/
def rewrite (raw written : Json) : Json :=
  match raw, written with
  | .obj raw, .obj written => .obj (rewritten raw written)
  | _, written => written

theorem rewrite_of_not_isObj {raw written : Json} (h : ¬ raw.IsObj ∨ ¬ written.IsObj) :
    rewrite raw written = written := by
  cases raw with
  | obj r =>
    cases written with
    | obj w => exact absurd h (by simp [Json.IsObj])
    | _ => rfl
  | _ => rfl

/-! ## Key by key -/

theorem unknownValue_of_not_isObj {raw written : Json} (h : ¬ raw.IsObj ∨ ¬ written.IsObj) :
    unknownValue raw (some written) = none := by
  cases raw with
  | obj r =>
    cases written with
    | obj w => exact absurd h (by simp [Json.IsObj])
    | _ => rfl
  | _ => cases written <;> rfl

theorem keys_unknownFields (raw written : Members) :
    ((unknownFields raw written).map Prod.fst).Sublist (raw.map Prod.fst) := by
  induction raw with
  | nil => exact List.Sublist.refl _
  | cons e rest ih =>
    obtain ⟨key, value⟩ := e
    unfold unknownFields
    cases unknownValue value (written.lookup key) with
    | none => exact ih.cons _
    | some unknown => exact ih.cons_cons _

theorem sortedKeys_unknownFields {raw : Members} (h : SortedKeys raw) (written : Members) :
    SortedKeys (unknownFields raw written) :=
  List.pairwise_map.mp ((List.pairwise_map.mpr h).sublist (keys_unknownFields raw written))

theorem lookup_unknownFields {raw : Members} (h : SortedKeys raw) (written : Members)
    (k : String) : (unknownFields raw written).lookup k =
      (raw.lookup k).bind fun value => unknownValue value (written.lookup k) := by
  induction raw with
  | nil => rfl
  | cons e rest ih =>
    obtain ⟨key, value⟩ := e
    obtain ⟨hhead, htail⟩ := List.pairwise_cons.mp h
    have ih := ih htail
    unfold unknownFields
    by_cases hk : k = key
    · subst hk
      rw [List.lookup_cons_self, Option.bind_some]
      cases hv : unknownValue value (written.lookup k) with
      | none =>
        -- the key stands once
        have hnone : rest.lookup k = none := by
          refine lookup_eq_none fun hmem => ?_
          obtain ⟨b, hb, hkb⟩ := List.mem_map.mp hmem
          exact (hhead b hb).ne hkb.symm
        rw [ih, hnone]
        rfl
      | some unknown => exact List.lookup_cons_self
    · rw [lookup_cons_of_ne hk, ← ih]
      cases unknownValue value (written.lookup key) with
      | none => rfl
      | some unknown => exact lookup_cons_of_ne hk

/-- What stands under a key after the merge, if anything. -/
def mergedAt (wire unknown : Option Json) : Option Json :=
  match unknown with
  | none => wire
  | some value => some (mergedValue wire value)

theorem lookup_mergeUnknown {unknown : Members} (h : SortedKeys unknown) (k : String) :
    ∀ wire : Members, (mergeUnknown wire unknown).lookup k =
      mergedAt (wire.lookup k) (unknown.lookup k) := by
  induction unknown with
  | nil =>
    intro wire
    rfl
  | cons e rest ih =>
    obtain ⟨key, value⟩ := e
    obtain ⟨hhead, htail⟩ := List.pairwise_cons.mp h
    intro wire
    unfold mergeUnknown
    rw [ih htail, lookup_insertKey]
    by_cases hk : k = key
    · subst hk
      have hnone : rest.lookup k = none := by
        refine lookup_eq_none fun hmem => ?_
        obtain ⟨b, hb, hkb⟩ := List.mem_map.mp hmem
        exact (hhead b hb).ne hkb.symm
      rw [hnone, if_pos rfl, List.lookup_cons_self]
      rfl
    · rw [if_neg hk, lookup_cons_of_ne hk]

theorem sortedKeys_mergeUnknown {wire : Members} (h : SortedKeys wire) (unknown : Members) :
    SortedKeys (mergeUnknown wire unknown) := by
  induction unknown generalizing wire with
  | nil => exact h
  | cons e rest ih => exact ih (h.insertKey _ _)

/-- What stands under a key of an object written again. -/
def rewriteAt (raw written : Option Json) : Option Json :=
  match raw, written with
  | none, written => written
  | some raw, none => some raw
  | some raw, some written => some (rewrite raw written)

theorem lookup_rewritten {raw : Members} (h : SortedKeys raw) (written : Members) (k : String) :
    (rewritten raw written).lookup k = rewriteAt (raw.lookup k) (written.lookup k) := by
  rw [rewritten, lookup_mergeUnknown (sortedKeys_unknownFields h written), lookup_unknownFields h]
  cases hr : raw.lookup k with
  | none => rfl
  | some r =>
    cases hw : written.lookup k with
    | none => simp [rewriteAt, unknownValue, mergedAt, mergedValue]
    | some w =>
      by_cases hobj : r.IsObj ∧ w.IsObj
      · obtain ⟨⟨r, rfl⟩, w, rfl⟩ := hobj
        rw [Option.bind_some]
        by_cases hempty : (unknownFields r w).isEmpty
        · have hnil : unknownFields r w = [] := List.isEmpty_iff.mp hempty
          simp [unknownValue, rewriteAt, rewrite, rewritten, hnil, mergedAt, mergeUnknown]
        · simp [unknownValue, rewriteAt, rewrite, rewritten, hempty, mergedAt, mergedValue]
      · have hobj : ¬ r.IsObj ∨ ¬ w.IsObj := not_and_or.mp hobj
        rw [Option.bind_some, unknownValue_of_not_isObj hobj, rewriteAt, rewrite_of_not_isObj hobj]
        rfl

/-! ## What agrees with the original -/

/-- Wherever the original has an object, the reader writes an object, or nothing. -/
def Fits (raw written : Json) : Prop :=
  ∀ path r w, raw.get path = some r → r.IsObj → written.get path = some w → w.IsObj

theorem Fits.lookup {raw written : Members} (h : Fits (.obj raw) (.obj written)) {k : String}
    {r w : Json} (hr : raw.lookup k = some r) (hw : written.lookup k = some w) : Fits r w := by
  intro path r' w' hr' hobj hw'
  refine h (k :: path) r' w' ?_ hobj ?_
  · rw [Json.get_cons_obj, hr]
    exact hr'
  · rw [Json.get_cons_obj, hw]
    exact hw'

/-- **The object written again agrees with the original** at every path the reader does not write
itself. -/
theorem get_rewrite {raw written : Json} (hraw : raw.WF) (h : Fits raw written)
    {path : List String} (hpath : written.get path = none) :
    (rewrite raw written).get path = raw.get path := by
  induction path generalizing raw written with
  | nil => cases hpath
  | cons k path ih =>
    by_cases hr : raw.IsObj
    · have hw : written.IsObj := h [] raw written rfl hr rfl
      obtain ⟨raw, rfl⟩ := hr
      obtain ⟨written, rfl⟩ := hw
      rw [rewrite, Json.get_cons_obj, Json.get_cons_obj, lookup_rewritten hraw.sorted]
      rw [Json.get_cons_obj] at hpath
      cases hlr : raw.lookup k with
      | none => exact hpath
      | some r =>
        cases hlw : written.lookup k with
        | none => rfl
        | some w =>
          rw [hlw] at hpath
          exact ih (hraw.of_lookup hlr) (h.lookup hlr hlw) hpath
    · rw [rewrite_of_not_isObj (.inl hr), hpath, Json.get_cons_of_not_isObj hr]

/-! ## Read again -/

/-- An object has nothing unknown beside itself. -/
theorem unknownFields_self {m : Members} (h : (Json.obj m).WF) : unknownFields m m = [] := by
  refine members_ext (sortedKeys_unknownFields h.sorted m) List.Pairwise.nil fun k => ?_
  rw [lookup_unknownFields h.sorted]
  cases hv : m.lookup k with
  | none => rfl
  | some v =>
    rw [Option.bind_some]
    by_cases hobj : v.IsObj
    · obtain ⟨inner, rfl⟩ := hobj
      have hself : unknownFields inner inner = [] := unknownFields_self (h.of_lookup hv)
      simp [unknownValue, hself]
    · exact unknownValue_of_not_isObj (.inl hobj)
termination_by sizeOf m
decreasing_by
  have hlt := Json.sizeOf_lt_of_lookup hv
  simp at hlt
  omega

theorem unknownValue_self {v : Json} (h : v.WF) : unknownValue v (some v) = none := by
  by_cases hobj : v.IsObj
  · obtain ⟨m, rfl⟩ := hobj
    simp [unknownValue, unknownFields_self h]
  · exact unknownValue_of_not_isObj (.inl hobj)

/-- **Read again, the object has the same unknown fields.** -/
theorem unknownFields_rewritten {raw written : Members} (hraw : (Json.obj raw).WF)
    (hwritten : (Json.obj written).WF) :
    unknownFields (rewritten raw written) written = unknownFields raw written := by
  have hsorted : SortedKeys (rewritten raw written) := sortedKeys_mergeUnknown hwritten.sorted _
  refine members_ext (sortedKeys_unknownFields hsorted written)
    (sortedKeys_unknownFields hraw.sorted written) fun k => ?_
  rw [lookup_unknownFields hsorted, lookup_unknownFields hraw.sorted,
    lookup_rewritten hraw.sorted]
  cases hr : raw.lookup k with
  | none =>
    cases hw : written.lookup k with
    | none => rfl
    | some w => exact unknownValue_self (hwritten.of_lookup hw)
  | some r =>
    cases hw : written.lookup k with
    | none => rfl
    | some w =>
      show unknownValue (rewrite r w) (some w) = unknownValue r (some w)
      by_cases hobj : r.IsObj ∧ w.IsObj
      · obtain ⟨⟨r, rfl⟩, w, rfl⟩ := hobj
        have ih := unknownFields_rewritten (hraw.of_lookup hr) (hwritten.of_lookup hw)
        simp only [rewrite, unknownValue, ih]
      · have hobj : ¬ r.IsObj ∨ ¬ w.IsObj := not_and_or.mp hobj
        rw [rewrite_of_not_isObj hobj, unknownValue_of_not_isObj hobj]
        exact unknownValue_self (hwritten.of_lookup hw)
termination_by sizeOf raw
decreasing_by
  have hlt := Json.sizeOf_lt_of_lookup hr
  simp at hlt
  omega

theorem WF.rewritten {raw written : Members} (hraw : (Json.obj raw).WF)
    (hwritten : (Json.obj written).WF) : (Json.obj (rewritten raw written)).WF := by
  have hsorted : SortedKeys (Run.rewritten raw written) :=
    sortedKeys_mergeUnknown hwritten.sorted _
  refine .obj hsorted ?_
  rintro ⟨k, v⟩ hmem
  have hlook := lookup_of_mem hsorted hmem
  rw [lookup_rewritten hraw.sorted] at hlook
  cases hr : raw.lookup k with
  | none =>
    rw [hr] at hlook
    exact hwritten.of_lookup hlook
  | some r =>
    rw [hr] at hlook
    cases hw : written.lookup k with
    | none =>
      rw [hw] at hlook
      cases hlook
      exact hraw.of_lookup hr
    | some w =>
      rw [hw] at hlook
      cases hlook
      by_cases hobj : r.IsObj ∧ w.IsObj
      · obtain ⟨⟨r, rfl⟩, w, rfl⟩ := hobj
        exact WF.rewritten (hraw.of_lookup hr) (hwritten.of_lookup hw)
      · rw [rewrite_of_not_isObj (not_and_or.mp hobj)]
        exact hwritten.of_lookup hw
termination_by sizeOf raw
decreasing_by
  have hlt := Json.sizeOf_lt_of_lookup hr
  simp at hlt
  omega

/-! ## A typed reader -/

theorem Fits.of_not_isObj {raw written : Json} (h : ¬ raw.IsObj) : Fits raw written := by
  intro path r w hr hobj _
  cases path with
  | nil =>
    cases hr
    exact absurd hobj h
  | cons k path =>
    rw [Json.get_cons_of_not_isObj h] at hr
    cases hr

theorem Fits.refl (raw : Json) : Fits raw raw := by
  intro path r w hr hobj hw
  rw [hr] at hw
  cases hw
  exact hobj

theorem Fits.obj {raw written : Members} (h : ∀ k r w, raw.lookup k = some r →
    written.lookup k = some w → Fits r w) : Fits (.obj raw) (.obj written) := by
  intro path r w hr hobj hw
  cases path with
  | nil =>
    cases hw
    exact ⟨written, rfl⟩
  | cons k path =>
    obtain ⟨r', hr', hr⟩ := Option.bind_eq_some_iff.mp hr
    obtain ⟨w', hw', hw⟩ := Option.bind_eq_some_iff.mp hw
    exact h k r' w' hr' hw' path r w hr hobj hw

theorem not_isObj_str (text : String) : ¬ (Json.str text).IsObj := by
  rintro ⟨m, h⟩
  cases h

mutual

/-- **A typed reader writes an object for an object.** -/
theorem fits_of_dec : (s : Shape) → {j : Json} → {v : s.Val} → s.dec j = some v → Fits j (s.enc v)
  | .leaf l, j, v, h => .of_not_isObj (l.dec_isLeaf j v h).not_isObj
  | .option s, j, v, h => by
    rcases decOption_eq_some h with ⟨rfl, -⟩ | ⟨-, w, rfl, hw⟩
    · refine .of_not_isObj ?_
      rintro ⟨m, hm⟩
      cases hm
    · exact fits_of_dec s hw
  | .list s, j, vs, h => by
    obtain ⟨items, rfl, -⟩ := decList_eq_some h
    refine .of_not_isObj ?_
    rintro ⟨m, hm⟩
    cases hm
  | .record fields, j, v, h => by
    rcases decRecord_eq_some h with ⟨m, rfl, hm⟩ | ⟨items, rfl, -⟩
    · exact .obj fun k r w hr hw => fits_of_decFields fields hm hr hw
    · refine .of_not_isObj ?_
      rintro ⟨m, hm⟩
      cases hm
  | .tagged tag variants, j, v, h => by
    obtain ⟨m, kind, rfl, htag, ⟨w, rfl, -, hw⟩ | ⟨rfl, -⟩⟩ := decTagged_eq_some h
    · refine Fits.obj fun k r x hr hx => ?_
      rw [lookup_insertKey] at hx
      split_ifs at hx with hk
      · subst hk
        rw [htag] at hr
        cases hr
        exact .of_not_isObj (not_isObj_str kind)
      · exact fits_of_decVariants variants hw hr hx
    · exact Fits.refl _

theorem fits_of_decFields : (fields : Fields) → {m : Members} → {v : fields.Val} →
    fields.dec m = some v → {k : String} → {r w : Json} → m.lookup k = some r →
    (fields.enc v).lookup k = some w → Fits r w
  | .nil, _, _, _, _, _, _, _, hw => by cases hw
  | .cons name s skip rest, m, (v, vs), h, k, r, w, hr, hw => by
    obtain ⟨hv, hvs⟩ := decField_eq_some h
    have hlook : (encField name skip (s.enc v) (rest.enc vs)).lookup k = some w := hw
    unfold encField at hlook
    split_ifs at hlook with hskip
    · exact fits_of_decFields rest hvs hr hlook
    · rw [lookup_insertKey] at hlook
      split_ifs at hlook with hk
      · subst hk
        rw [hr] at hv
        obtain rfl := Option.some.inj hlook
        exact fits_of_dec s hv
      · exact fits_of_decFields rest hvs hr hlook

theorem fits_of_decVariants : (variants : Variants) → {kind : String} → {m : Members} →
    {v : variants.Val} → variants.dec kind m = some v → {k : String} → {r w : Json} →
    m.lookup k = some r → (variants.enc v).lookup k = some w → Fits r w
  | .nil, _, _, _, h, _, _, _, _, _ => by cases h
  | .cons _ fields rest, kind, m, v, h, k, r, w, hr, hw => by
    rcases decVariant_eq_some h with ⟨-, x, rfl, hx⟩ | ⟨-, x, rfl, hx⟩
    · exact fits_of_decFields fields hx hr hw
    · exact fits_of_decVariants rest hx hr hw

end

theorem dec_enc_of_dec {s : Shape} (hs : s.Fine) {j : Json} (hj : j.WF) {v : s.Val}
    (h : s.dec j = some v) : s.dec (s.enc v) = some v := by
  rw [s.dec_enc hs v (s.sound_of_dec hj h), s.norm_of_dec h]

theorem kind_of_dec (variants : Variants) {kind : String} {m : Members} {v : variants.Val}
    (h : variants.dec kind m = some v) : variants.kind v = kind := by
  cases variants with
  | nil => cases h
  | cons k fields rest =>
    rcases decVariant_eq_some h with ⟨rfl, x, rfl, -⟩ | ⟨-, x, rfl, hx⟩
    · rfl
    · exact kind_of_dec rest hx

theorem rewritten_self {m : Members} (h : (Json.obj m).WF) : rewritten m m = m := by
  rw [rewritten, unknownFields_self h]
  rfl

theorem rewrite_ne_null {raw written : Json} (h : written ≠ .null) : rewrite raw written ≠ .null := by
  by_cases hobj : raw.IsObj ∧ written.IsObj
  · obtain ⟨⟨r, rfl⟩, w, rfl⟩ := hobj
    exact Json.noConfusion
  · rw [rewrite_of_not_isObj (not_and_or.mp hobj)]
    exact h

mutual

/-- **What a typed reader wrote again reads back as the same value.** -/
theorem dec_rewrite : (s : Shape) → s.Fine → {j : Json} → j.WF → {v : s.Val} → s.dec j = some v →
    s.dec (rewrite j (s.enc v)) = some v
  | .leaf l, hs, j, hj, v, h => by
    rw [rewrite_of_not_isObj (.inl (l.dec_isLeaf j v h).not_isObj)]
    exact dec_enc_of_dec hs hj h
  | .option s, hs, j, hj, v, h => by
    rcases decOption_eq_some h with ⟨rfl, rfl⟩ | ⟨-, w, rfl, hw⟩
    · rfl
    · have hne : rewrite j (s.enc w) ≠ .null :=
        rewrite_ne_null (Shape.enc_ne_null hs.1 (s.sound_of_dec hj hw))
      show decOption s.dec (rewrite j (s.enc w)) = some (some w)
      rw [decOption, Json.isNull_eq_false hne, dec_rewrite s hs.2 hj hw]
      rfl
  | .list s, hs, j, hj, v, h => by
    obtain ⟨items, rfl, -⟩ := decList_eq_some h
    exact dec_enc_of_dec hs hj h
  | .record fields, hs, j, hj, v, h => by
    rcases decRecord_eq_some h with ⟨m, rfl, hm⟩ | ⟨items, rfl, -⟩
    · exact decFields_rewritten fields hs hj hm fun k _ => lookup_rewritten hj.sorted _ k
    · exact dec_enc_of_dec hs hj h
  | .tagged tag variants, hs, j, hj, v, h => by
    obtain ⟨m, kind, rfl, htag, ⟨w, rfl, hkind, hw⟩ | ⟨rfl, hkind⟩⟩ := decTagged_eq_some h
    · have hkindw : variants.kind w = kind := kind_of_dec variants hw
      have hlook : ∀ k, (rewritten m (insertKey tag (.str (variants.kind w))
          (variants.enc w))).lookup k = rewriteAt (m.lookup k)
            (if k = tag then some (.str (variants.kind w)) else (variants.enc w).lookup k) :=
        fun k => by rw [lookup_rewritten hj.sorted, lookup_insertKey]
      have htag' : (rewritten m (insertKey tag (.str (variants.kind w))
          (variants.enc w))).lookup tag = some (.str kind) := by
        rw [hlook tag, htag, if_pos rfl, hkindw]
        rfl
      refine (decTagged_of_mem htag' hkind).trans ?_
      rw [decVariants_rewritten variants hs hj hw fun k hk => by rw [hlook k, if_neg hk]]
      rfl
    · show decTagged tag variants.kinds variants.dec (.obj (rewritten m m)) = _
      rw [rewritten_self hj]
      exact h

theorem decFields_rewritten : (fields : Fields) → fields.Fine → {m : Members} →
    (Json.obj m).WF → {v : fields.Val} → fields.dec m = some v → {wire : Members} →
    (∀ k ∈ fields.names, wire.lookup k = rewriteAt (m.lookup k) ((fields.enc v).lookup k)) →
    fields.dec wire = some v
  | .nil, _, _, _, _, _, _, _ => rfl
  | .cons name s skip rest, hs, m, hm, (v, vs), h, wire, hwire => by
    obtain ⟨hv, hvs⟩ := decField_eq_some h
    have hhead : s.dec ((wire.lookup name).getD .null) = some v := by
      have hback : s.dec (s.enc v) = some v := dec_enc_of_dec hs.2.1 (hm.getD_lookup name) hv
      rw [hwire name List.mem_cons_self]
      cases hr : m.lookup name with
      | none =>
        -- the reader's own field, as it writes it
        rcases lookup_encField (rest.lookup_enc_of_notMem hs.1 vs) skip (s.enc v) with
          hlook | ⟨hlook, hnull⟩
        · exact (congrArg (fun w => s.dec (Option.getD w .null)) hlook).trans hback
        · rw [hnull] at hback
          exact (congrArg (fun w => s.dec (Option.getD w .null)) hlook).trans hback
      | some r =>
        rw [hr] at hv
        rcases lookup_encField (rest.lookup_enc_of_notMem hs.1 vs) skip (s.enc v) with
          hlook | ⟨hlook, -⟩
        · exact (congrArg (fun w => s.dec ((rewriteAt (some r) w).getD .null)) hlook).trans
            (dec_rewrite s hs.2.1 (hm.of_lookup hr) hv)
        · exact (congrArg (fun w => s.dec ((rewriteAt (some r) w).getD .null)) hlook).trans hv
    have hrest : rest.dec wire = some vs := by
      refine decFields_rewritten rest hs.2.2 hm hvs fun k hk => ?_
      have hne : k ≠ name := by
        rintro rfl
        exact hs.1 hk
      rw [hwire k (List.mem_cons_of_mem _ hk)]
      exact congrArg (rewriteAt _) (lookup_encField_of_ne hne skip _ _)
    show decField name s.dec rest.dec wire = some (v, vs)
    rw [decField, hhead, hrest]
    rfl

theorem decVariants_rewritten {tag : String} : (variants : Variants) → variants.Fine tag →
    {kind : String} → {m : Members} → (Json.obj m).WF → {v : variants.Val} →
    variants.dec kind m = some v → {wire : Members} →
    (∀ k, k ≠ tag → wire.lookup k = rewriteAt (m.lookup k) ((variants.enc v).lookup k)) →
    variants.dec kind wire = some v
  | .nil, _, _, _, _, _, h, _, _ => by cases h
  | .cons kind' fields rest, hs, kind, m, hm, v, h, wire, hwire => by
    rcases decVariant_eq_some h with ⟨rfl, x, rfl, hx⟩ | ⟨hne, x, rfl, hx⟩
    · have hdec : fields.dec wire = some x := by
        refine decFields_rewritten fields hs.2.2.1 hm hx fun k hk => hwire k ?_
        rintro rfl
        exact hs.2.1 hk
      exact (decVariant_self kind fields.dec rest.dec wire).trans (by rw [hdec]; rfl)
    · have hdec : rest.dec kind wire = some x :=
        decVariants_rewritten rest hs.2.2.2 hm hx hwire
      exact (decVariant_of_ne hne fields.dec rest.dec wire).trans (by rw [hdec]; rfl)

end

end NexusFlow.Run
