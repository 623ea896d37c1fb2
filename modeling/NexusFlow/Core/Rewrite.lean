import NexusFlow.Core.Remap

/-!
# What the free-text rewrite does

About `rewrite_refs` (`crates/core/src/rewrite.rs`, modelled in `Remap.lean`). One pass replaces the
references it meets from the left, and copies every other character (`Rewrites`). Its module says of
it that "a rewritten id is never itself a key → the pass is idempotent". A suffix may spell a
prefix, though, and a pass does not look again at the text behind the dot of a reference it has
replaced: with the key `old.old`, `old.old.s` holds two references that share a word. The pass is idempotent
exactly when no key is `old.old` or `old.new` (`rewrite_idempotent_iff`).
-/

namespace NexusFlow.Core

open NexusFlow.Foundation

/-! ## One pass over a text -/

/-- No character of an id: a boundary of a reference. -/
def Boundary (c : Option Char) : Prop := c.any isAsciiAlphanumeric = false

/-- A key stands here, between boundaries. -/
def Found (m : IdMap) (before : Option Char) (text : List Char) : Prop :=
  Boundary before ∧ ∃ key ∈ m.map Prod.fst, refMatches text key = true

/-- **One pass over a text**: a reference becomes its new form, and every other character stays. -/
inductive Rewrites (m : IdMap) : Option Char → List Char → List Char → Prop
  | nil {before : Option Char} : Rewrites m before [] []
  | ref {before : Option Char} {key id : String} {text out : List Char} (hkey : (key, id) ∈ m)
      (hbefore : Boundary before) (hafter : Boundary text.head?)
      (rest : Rewrites m key.toList.getLast? text out) :
      Rewrites m before (key.toList ++ text) (id.toList ++ out)
  | char {before : Option Char} {c : Char} {text out : List Char}
      (hnone : ¬ Found m before (c :: text)) (rest : Rewrites m (some c) text out) :
      Rewrites m before (c :: text) (c :: out)

/-- The text has no reference, behind the character `before`. -/
def RefFree (m : IdMap) : Option Char → List Char → Prop
  | _, [] => True
  | before, c :: text => ¬ Found m before (c :: text) ∧ RefFree m (some c) text

theorem refMatches_iff_append {text : List Char} {key : String} : refMatches text key = true ↔
    ∃ rest, text = key.toList ++ rest ∧ Boundary rest.head? := by
  unfold refMatches
  rw [Bool.and_eq_true, List.isPrefixOf_iff_prefix, Bool.not_eq_true']
  constructor
  · rintro ⟨⟨rest, rfl⟩, hafter⟩
    rw [List.drop_left] at hafter
    exact ⟨rest, rfl, hafter⟩
  · rintro ⟨rest, rfl, hafter⟩
    rw [List.drop_left]
    exact ⟨⟨rest, rfl⟩, hafter⟩

section Scan

variable {m : IdMap} {before : Option Char} {text : List Char}

theorem mem_sortedKeys {key : String} : key ∈ m.sortedKeys ↔ key ∈ m.map Prod.fst :=
  List.mem_insertionSort _

/-- The scan passes over the characters of a match. -/
theorem rewriteFrom_skip (keys : List String) (before : Option Char) (matched rest : List Char) :
    rewriteFrom m keys before matched.length (matched ++ rest) =
      rewriteFrom m keys (matched.getLast?.or before) 0 rest := by
  induction matched generalizing before with
  | nil => rfl
  | cons c matched ih =>
    refine (ih (some c)).trans ?_
    cases matched with
    | nil => rfl
    | cons d matched => rw [List.getLast?_cons_cons]; rfl

/-- What the scan finds here. -/
theorem rewriteFrom_cons (c : Char) :
    (¬ Found m before (c :: text) ∧
      rewriteFrom m m.sortedKeys before 0 (c :: text) =
        c :: rewriteFrom m m.sortedKeys (some c) 0 text) ∨
    ∃ key ∈ m.map Prod.fst, Boundary before ∧ refMatches (c :: text) key = true ∧
      rewriteFrom m m.sortedKeys before 0 (c :: text) = (m.get key).toList ++
        rewriteFrom m m.sortedKeys (some c) (key.toList.length - 1) text := by
  rw [rewriteFrom]
  by_cases hbefore : Boundary before
  · rw [if_neg (by rw [hbefore]; exact Bool.false_ne_true)]
    cases hfind : m.sortedKeys.find? (refMatches (c :: text)) with
    | none =>
      refine .inl ⟨?_, rfl⟩
      rintro ⟨-, key, hkey, hmatch⟩
      exact List.find?_eq_none.mp hfind key (mem_sortedKeys.mpr hkey) hmatch
    | some key =>
      exact .inr ⟨key, mem_sortedKeys.mp (List.mem_of_find?_eq_some hfind), hbefore,
        List.find?_some (p := refMatches (c :: text)) hfind, rfl⟩
  · rw [if_pos (Bool.not_eq_false _ ▸ hbefore)]
    exact .inl ⟨fun h => hbefore h.1, rfl⟩

theorem rewriteFrom_of_not_found {c : Char} (h : ¬ Found m before (c :: text)) :
    rewriteFrom m m.sortedKeys before 0 (c :: text) =
      c :: rewriteFrom m m.sortedKeys (some c) 0 text := by
  obtain ⟨_, heq⟩ | ⟨key, hkey, hbefore, hmatch, _⟩ :=
    @rewriteFrom_cons m before text c
  · exact heq
  · exact absurd ⟨hbefore, key, hkey, hmatch⟩ h

/-- Behind a found key the scan goes on at the key's end. -/
theorem rewriteFrom_of_found (hne : ∀ key ∈ m.map Prod.fst, key.toList ≠ [])
    (h : Found m before text) :
    ∃ key ∈ m.map Prod.fst, ∃ rest, text = key.toList ++ rest ∧ Boundary rest.head? ∧
      rewriteFrom m m.sortedKeys before 0 text = (m.get key).toList ++
        rewriteFrom m m.sortedKeys key.toList.getLast? 0 rest := by
  obtain ⟨c, tail, rfl⟩ : ∃ c tail, text = c :: tail := by
    obtain ⟨_, key, hkey, hmatch⟩ := h
    obtain ⟨rest, rfl, _⟩ := refMatches_iff_append.mp hmatch
    exact List.exists_cons_of_ne_nil (List.append_ne_nil_of_left_ne_nil (hne key hkey) rest)
  obtain ⟨hnone, _⟩ | ⟨key, hkey, _, hmatch, heq⟩ :=
    @rewriteFrom_cons m before tail c
  · exact absurd h hnone
  obtain ⟨rest, htext, hafter⟩ := refMatches_iff_append.mp hmatch
  refine ⟨key, hkey, rest, htext, hafter, ?_⟩
  obtain ⟨d, chars, hchars⟩ := List.exists_cons_of_ne_nil (hne key hkey)
  rw [hchars, List.cons_append] at htext
  obtain ⟨rfl, rfl⟩ := List.cons.inj htext
  have hlast : (c :: chars).getLast? = chars.getLast?.or (some c) := by
    cases chars with
    | nil => rfl
    | cons d chars => rw [List.getLast?_cons_cons, List.getLast?_cons]; rfl
  rw [heq, hchars, List.length_cons, Nat.add_sub_cancel, rewriteFrom_skip, hlast]

/-- What the map gives for one of its keys is an entry. -/
theorem mem_get {key : String} (hkey : key ∈ m.map Prod.fst) : (key, m.get key) ∈ m := by
  unfold IdMap.get
  cases hlook : m.lookup key with
  | none =>
    obtain ⟨e, he, rfl⟩ := List.mem_map.mp hkey
    exact absurd hlook (by simpa [List.lookup_eq_none_iff] using ⟨e.2, he⟩)
  | some id =>
    obtain ⟨l₁, l₂, rfl, _⟩ := List.lookup_eq_some_iff.mp hlook
    exact List.mem_append_right l₁ List.mem_cons_self

/-- **The rewrite is one pass**: it changes references and nothing else. -/
theorem rewriteFrom_rewrites (hne : ∀ key ∈ m.map Prod.fst, key.toList ≠ [])
    (before : Option Char) (text : List Char) :
    Rewrites m before text (rewriteFrom m m.sortedKeys before 0 text) := by
  -- a found key is not empty, so the rest of the text is shorter
  induction hlen : text.length using Nat.strong_induction_on generalizing before text with
  | _ n ih =>
    subst hlen
    by_cases hfound : Found m before text
    · obtain ⟨key, hkey, rest, rfl, hafter, heq⟩ := rewriteFrom_of_found hne hfound
      rw [heq]
      have hshort : rest.length < (key.toList ++ rest).length := by
        have := List.length_pos_of_ne_nil (hne key hkey)
        rw [List.length_append]
        omega
      exact .ref (mem_get hkey) hfound.1 hafter (ih _ hshort _ _ rfl)
    · cases text with
      | nil =>
        rw [rewriteFrom]
        exact .nil
      | cons c text =>
        rw [rewriteFrom_of_not_found hfound]
        exact .char hfound (ih _ (Nat.lt_succ_self _) _ _ rfl)

/-- A text without references stays. -/
theorem rewriteFrom_of_refFree (h : RefFree m before text) :
    rewriteFrom m m.sortedKeys before 0 text = text := by
  induction text generalizing before with
  | nil => rw [rewriteFrom]
  | cons c text ih => rw [rewriteFrom_of_not_found h.1, ih h.2]

end Scan

/-! ## Words -/

/-- All characters are an id's. -/
def Word (w : List Char) : Prop := w ≠ [] ∧ ∀ c ∈ w, isAsciiAlphanumeric c = true

/-- The first word of a text. -/
def firstWord (text : List Char) : List Char := text.takeWhile isAsciiAlphanumeric

theorem firstWord_append {w rest : List Char} (hw : ∀ c ∈ w, isAsciiAlphanumeric c = true)
    (hrest : Boundary rest.head?) : firstWord (w ++ rest) = w := by
  have htail : rest.takeWhile isAsciiAlphanumeric = [] := by
    cases rest with
    | nil => rfl
    | cons c rest => exact List.takeWhile_cons_of_neg (by simpa [Boundary] using hrest)
  unfold firstWord
  rw [List.takeWhile_append_of_pos hw, htail, List.append_nil]

theorem boundary_dot (text : List Char) : Boundary ('.' :: text).head? := by
  show isAsciiAlphanumeric '.' = false
  decide

theorem firstWord_dot {w : List Char} (hw : Word w) (text : List Char) :
    firstWord (w ++ '.' :: text) = w := firstWord_append hw.2 (boundary_dot text)

theorem boundary_dropWhile (text : List Char) :
    Boundary (text.dropWhile isAsciiAlphanumeric).head? := by
  unfold Boundary
  cases h : (text.dropWhile isAsciiAlphanumeric).head? with
  | none => rfl
  | some c =>
    have hhead := List.head?_dropWhile_not isAsciiAlphanumeric text
    rw [h] at hhead
    exact hhead

theorem Word.not_boundary_getLast {w : List Char} (hw : Word w) : ¬ Boundary w.getLast? := by
  rw [List.getLast?_eq_some_getLast hw.1]
  unfold Boundary
  rw [Option.any_some, hw.2 _ (List.getLast_mem hw.1)]
  exact Bool.true_eq_false_eq_False

/-! ## The ids of a reassigned prefix -/

/-- The registry gives a replica another prefix. -/
structure Reassigned where
  pOld : String
  pNew : String
  old_valid : isValidPrefix pOld = true
  new_valid : isValidPrefix pNew = true
  ne : pOld ≠ pNew

/-- What stands behind the dot of an id. -/
def IsSuffix (s : String) : Prop := s ≠ "" ∧ s.toList.all isAsciiAlphanumeric = true

/-- The id of a prefix and a suffix. -/
def idOf (pre suffix : String) : String := pre ++ "." ++ suffix

theorem toList_idOf (pre suffix : String) :
    (idOf pre suffix).toList = pre.toList ++ '.' :: suffix.toList := by
  simp [idOf]

theorem IsSuffix.word {s : String} (h : IsSuffix s) : Word s.toList :=
  ⟨fun hnil => h.1 (String.toList_eq_nil_iff.mp hnil), List.all_eq_true.mp h.2⟩

theorem isSuffix_of_isValidPrefix {s : String} (h : isValidPrefix s = true) : IsSuffix s := by
  unfold isValidPrefix at h
  rw [Bool.and_eq_true, decide_eq_true_eq] at h
  exact ⟨fun hnil => by simp [hnil] at h, h.2⟩

namespace Reassigned

variable {r : Reassigned}

theorem old_word (r : Reassigned) : Word r.pOld.toList :=
  (isSuffix_of_isValidPrefix r.old_valid).word

theorem new_word (r : Reassigned) : Word r.pNew.toList :=
  (isSuffix_of_isValidPrefix r.new_valid).word

theorem toList_ne (r : Reassigned) : r.pNew.toList ≠ r.pOld.toList :=
  fun h => r.ne (String.toList_inj.mp h.symm)

/-- The map sends ids `old.s` to `new.s`. -/
def Maps (r : Reassigned) (m : IdMap) : Prop :=
  ∀ e ∈ m, ∃ s, IsSuffix s ∧ e = (idOf r.pOld s, idOf r.pNew s)

/-- The map has the key of the suffix. -/
def HasKey (r : Reassigned) (m : IdMap) (s : String) : Prop := idOf r.pOld s ∈ m.map Prod.fst

end Reassigned

section Ids

variable {r : Reassigned} {m : IdMap} {before : Option Char} {text out : List Char}

theorem key_ne_nil (hm : r.Maps m) : ∀ key ∈ m.map Prod.fst, key.toList ≠ [] := by
  intro key hkey
  obtain ⟨e, he, rfl⟩ := List.mem_map.mp hkey
  obtain ⟨s, _, rfl⟩ := hm e he
  rw [toList_idOf]
  simp

/-- Where a key of the old prefix stands. -/
theorem refMatches_idOf {s : String} (hs : IsSuffix s) :
    refMatches text (idOf r.pOld s) = true ↔
      ∃ behind, text = r.pOld.toList ++ '.' :: behind ∧ firstWord behind = s.toList := by
  rw [refMatches_iff_append, toList_idOf]
  constructor
  · rintro ⟨rest, rfl, hafter⟩
    refine ⟨s.toList ++ rest, by simp, firstWord_append hs.word.2 hafter⟩
  · rintro ⟨behind, rfl, hfirst⟩
    refine ⟨behind.dropWhile isAsciiAlphanumeric, ?_, boundary_dropWhile behind⟩
    rw [← hfirst, List.append_assoc, List.cons_append]
    unfold firstWord
    rw [List.takeWhile_append_dropWhile]

/-- **What is found is the old prefix, a dot, and a suffix of the map.** -/
theorem found_iff (hm : r.Maps m) : Found m before text ↔
    Boundary before ∧ ∃ s behind, IsSuffix s ∧ r.HasKey m s ∧
      text = r.pOld.toList ++ '.' :: behind ∧ firstWord behind = s.toList := by
  refine and_congr_right fun _ => ⟨?_, ?_⟩
  · rintro ⟨key, hkey, hmatch⟩
    obtain ⟨e, he, rfl⟩ := List.mem_map.mp hkey
    obtain ⟨s, hs, rfl⟩ := hm e he
    obtain ⟨behind, htext, hfirst⟩ := (refMatches_idOf hs).mp hmatch
    exact ⟨s, behind, hs, hkey, htext, hfirst⟩
  · rintro ⟨s, behind, hs, hkey, htext, hfirst⟩
    exact ⟨_, hkey, (refMatches_idOf hs).mpr ⟨behind, htext, hfirst⟩⟩

/-- Nothing is found at a word that is not the old prefix. -/
theorem not_found_of_firstWord (hm : r.Maps m) (h : firstWord text ≠ r.pOld.toList) :
    ¬ Found m before text := by
  intro hfound
  obtain ⟨_, s, behind, _, _, rfl, _⟩ := (found_iff hm).mp hfound
  exact h (firstWord_dot r.old_word behind)

theorem not_found_dot (hm : r.Maps m) : ¬ Found m before ('.' :: text) := by
  refine not_found_of_firstWord hm ?_
  have hnil : firstWord ('.' :: text) = [] :=
    firstWord_append (w := []) (by simp) (boundary_dot text)
  rw [hnil]
  exact r.old_word.1.symm

/-- An entry is the key's new form. -/
theorem get_idOf (hm : r.Maps m) {s : String} (hkey : r.HasKey m s) :
    m.get (idOf r.pOld s) = idOf r.pNew s := by
  obtain ⟨t, _, heq⟩ := hm _ (mem_get hkey)
  obtain ⟨hid, hnew⟩ := Prod.mk.inj heq
  have hsuffix : s = t := by
    have hlist := congrArg String.toList hid
    rw [toList_idOf, toList_idOf] at hlist
    exact String.toList_inj.mp (List.cons.inj (List.append_cancel_left hlist)).2
  rw [hnew, hsuffix]

theorem not_found_of_boundary (hm : r.Maps m) (h : Boundary text.head?) :
    ¬ Found m before text := by
  refine not_found_of_firstWord hm ?_
  rw [show firstWord text = [] from firstWord_append (w := []) (by simp) h]
  exact r.old_word.1.symm

/-! ### What a pass leaves behind -/

theorem Rewrites.of_not_found (h : Rewrites m before text out) (hnone : ¬ Found m before text) :
    (text = [] ∧ out = []) ∨
      ∃ c rest out', text = c :: rest ∧ out = c :: out' ∧ Rewrites m (some c) rest out' := by
  cases h with
  | nil => exact .inl ⟨rfl, rfl⟩
  | ref hkey hbefore hafter rest =>
    exact absurd ⟨hbefore, _, List.mem_map_of_mem hkey,
      refMatches_iff_append.mpr ⟨_, rfl, hafter⟩⟩ hnone
  | char _ rest => exact .inr ⟨_, _, _, rfl, rfl, rest⟩

theorem Rewrites.of_found (hm : r.Maps m) (h : Rewrites m before text out)
    (hfound : Found m before text) : ∃ behind, out = r.pNew.toList ++ '.' :: behind := by
  cases h with
  | nil =>
    obtain ⟨_, s, behind, _, _, hnil, _⟩ := (found_iff hm).mp hfound
    simp at hnil
  | ref hkey _ _ rest =>
    obtain ⟨s, _, heq⟩ := hm _ hkey
    obtain ⟨rfl, rfl⟩ := Prod.mk.inj heq
    rw [toList_idOf, List.append_assoc, List.cons_append]
    exact ⟨_, rfl⟩
  | char hnone _ => exact absurd hfound hnone

/-- Where nothing is found the first character stays. -/
theorem Rewrites.head?_eq (h : Rewrites m before text out) (hnone : ¬ Found m before text) :
    out.head? = text.head? := by
  obtain ⟨rfl, rfl⟩ | ⟨c, rest, out', rfl, rfl, _⟩ := h.of_not_found hnone <;> rfl

/-- A word that no reference was put for was there before. -/
theorem Rewrites.word_left {w : List Char} (hw : Word w) (h : Rewrites m before text (w ++ out))
    (hnone : ¬ Found m before text) :
    ∃ rest, text = w ++ rest ∧ Rewrites m w.getLast? rest out := by
  obtain ⟨hne, hall⟩ := hw
  induction w generalizing before text with
  | nil => exact absurd rfl hne
  | cons c w ih =>
    obtain ⟨_, hnil⟩ | ⟨d, rest, out', rfl, hout, hrest⟩ := h.of_not_found hnone
    · cases hnil
    obtain ⟨rfl, rfl⟩ := List.cons.inj hout
    cases w with
    | nil => exact ⟨rest, rfl, hrest⟩
    | cons d w =>
      have hinside : ¬ Found m (some c) rest := fun hfound =>
        Bool.false_ne_true (hfound.1.symm.trans (hall c List.mem_cons_self))
      obtain ⟨rest', rfl, hrest'⟩ := ih hrest hinside (List.cons_ne_nil d w)
        fun x hx => hall x (List.mem_cons_of_mem c hx)
      refine ⟨rest', rfl, ?_⟩
      rw [List.getLast?_cons_cons]
      exact hrest'

/-- A word at which nothing is found, before a text without references. -/
theorem settled_word {w : List Char} (hw : Word w) (hnone : ¬ Found m before (w ++ out))
    (h : RefFree m w.getLast? out) : RefFree m before (w ++ out) := by
  obtain ⟨hne, hall⟩ := hw
  induction w generalizing before with
  | nil => exact absurd rfl hne
  | cons c w ih =>
    refine ⟨hnone, ?_⟩
    cases w with
    | nil => exact h
    | cons d w =>
      rw [List.getLast?_cons_cons] at h
      have hinside : ¬ Found m (some c) (d :: w ++ out) := fun hfound =>
        Bool.false_ne_true (hfound.1.symm.trans (hall c List.mem_cons_self))
      exact ih hinside h (List.cons_ne_nil d w) fun x hx => hall x (List.mem_cons_of_mem c hx)

/-- **A pass leaves no reference behind**, when no suffix of the map is one of the prefixes. -/
theorem Rewrites.settled (hm : r.Maps m) (hold : ¬ r.HasKey m r.pOld) (hnew : ¬ r.HasKey m r.pNew)
    (h : Rewrites m before text out) : RefFree m before out := by
  induction h with
  | nil => trivial
  | @ref before key id text out hkey hbefore hafter hrest ih =>
    obtain ⟨s, hs, heq⟩ := hm _ hkey
    obtain ⟨rfl, rfl⟩ := Prod.mk.inj heq
    have hlast : (idOf r.pOld s).toList.getLast? = s.toList.getLast? := by
      rw [toList_idOf, List.getLast?_append_cons, List.getLast?_cons_of_ne_nil hs.word.1]
    rw [hlast] at ih hrest
    -- behind the suffix the text goes on with no word
    have hbehind : Boundary out.head? := by
      rw [hrest.head?_eq (not_found_of_boundary hm hafter)]
      exact hafter
    rw [toList_idOf, List.append_assoc, List.cons_append]
    refine settled_word r.new_word (not_found_of_firstWord hm ?_)
      ⟨not_found_dot hm, settled_word hs.word (not_found_of_firstWord hm ?_) ih⟩
    · rw [firstWord_dot r.new_word]
      exact r.toList_ne
    · rw [firstWord_append hs.word.2 hbehind]
      rintro hs'
      rw [String.toList_inj.mp hs'] at hkey
      exact hold (List.mem_map_of_mem hkey)
  | @char before c text out hnone hrest ih =>
    refine ⟨fun hfound => hnone ?_, ih⟩
    obtain ⟨hbefore, s, behind, hs, hkey, hout, hfirst⟩ := (found_iff hm).mp hfound
    have hpass : Rewrites m before (c :: text) (r.pOld.toList ++ '.' :: behind) :=
      hout ▸ Rewrites.char hnone hrest
    obtain ⟨rest, htext, hdot⟩ := hpass.word_left r.old_word hnone
    have hinside : ¬ Found m r.pOld.toList.getLast? rest :=
      fun h => r.old_word.not_boundary_getLast h.1
    obtain ⟨_, hnil⟩ | ⟨d, rest', behind', rfl, hbehind, hsuffix⟩ := hdot.of_not_found hinside
    · cases hnil
    obtain ⟨rfl, rfl⟩ := List.cons.inj hbehind
    -- the suffix was there before, or it is the new prefix of the next reference
    by_cases hnext : Found m (some '.') rest'
    · obtain ⟨behind', rfl⟩ := hsuffix.of_found hm hnext
      rw [firstWord_dot r.new_word] at hfirst
      exact absurd (String.toList_inj.mp hfirst ▸ hkey) hnew
    · have hsplit : behind = s.toList ++ behind.dropWhile isAsciiAlphanumeric := by
        rw [← hfirst]
        exact (List.takeWhile_append_dropWhile).symm
      rw [hsplit] at hsuffix
      obtain ⟨rest, rfl, hrest⟩ := hsuffix.word_left hs.word hnext
      have hafter : Boundary rest.head? := by
        rw [← hrest.head?_eq fun h => hs.word.not_boundary_getLast h.1]
        exact boundary_dropWhile behind
      exact (found_iff hm).mpr ⟨hbefore, s, _, hs, hkey, htext, firstWord_append hs.word.2 hafter⟩

/-! ### Single steps of the scan -/

theorem rewriteFrom_word {w : List Char} (hw : Word w) (hnone : ¬ Found m before (w ++ text)) :
    rewriteFrom m m.sortedKeys before 0 (w ++ text) =
      w ++ rewriteFrom m m.sortedKeys w.getLast? 0 text := by
  obtain ⟨hne, hall⟩ := hw
  induction w generalizing before with
  | nil => exact absurd rfl hne
  | cons c w ih =>
    refine (rewriteFrom_of_not_found hnone).trans ?_
    cases w with
    | nil => rfl
    | cons d w =>
      have hinside : ¬ Found m (some c) (d :: w ++ text) := fun hfound =>
        Bool.false_ne_true (hfound.1.symm.trans (hall c List.mem_cons_self))
      have hrest := ih hinside (List.cons_ne_nil d w) fun x hx => hall x (List.mem_cons_of_mem c hx)
      rw [List.getLast?_cons_cons]
      exact congrArg (c :: ·) hrest

theorem rewriteFrom_dot (hm : r.Maps m) : rewriteFrom m m.sortedKeys before 0 ('.' :: text) =
    '.' :: rewriteFrom m m.sortedKeys (some '.') 0 text :=
  rewriteFrom_of_not_found (not_found_dot hm)

theorem rewriteFrom_ref (hm : r.Maps m) {s : String} (hs : IsSuffix s) (hkey : r.HasKey m s)
    (hbefore : Boundary before) (hafter : Boundary text.head?) :
    rewriteFrom m m.sortedKeys before 0 (r.pOld.toList ++ '.' :: (s.toList ++ text)) =
      r.pNew.toList ++ '.' ::
        (s.toList ++ rewriteFrom m m.sortedKeys s.toList.getLast? 0 text) := by
  have hfirst := firstWord_append hs.word.2 hafter
  have hfound : Found m before (r.pOld.toList ++ '.' :: (s.toList ++ text)) :=
    (found_iff hm).mpr ⟨hbefore, s, _, hs, hkey, rfl, hfirst⟩
  obtain ⟨key, hmem, rest, htext, hrest, heq⟩ := rewriteFrom_of_found (key_ne_nil hm) hfound
  -- the key that is found has the word behind the dot for its suffix
  obtain ⟨e, he, rfl⟩ := List.mem_map.mp hmem
  obtain ⟨t, ht, rfl⟩ := hm e he
  obtain ⟨behind, hbehind, hword⟩ :=
    (refMatches_idOf (r := r) ht).mp (refMatches_iff_append.mpr ⟨rest, htext, hrest⟩)
  obtain ⟨_, rfl⟩ := List.cons.inj (List.append_cancel_left hbehind)
  obtain rfl : s = t := String.toList_inj.mp (hfirst.symm.trans hword)
  rw [toList_idOf, List.append_assoc, List.cons_append] at htext
  obtain rfl := List.append_cancel_left (List.cons.inj (List.append_cancel_left htext)).2
  have hlast : (idOf r.pOld s).toList.getLast? = s.toList.getLast? := by
    rw [toList_idOf, List.getLast?_append_cons, List.getLast?_cons_of_ne_nil hs.word.1]
  rw [heq, get_idOf hm hkey, hlast, toList_idOf, List.append_assoc, List.cons_append]

/-- A word at the end of a text stays. -/
theorem rewriteFrom_last_word (hm : r.Maps m) {w : List Char} (hw : Word w) :
    rewriteFrom m m.sortedKeys before 0 w = w := by
  have hnone : ¬ Found m before (w ++ []) := by
    intro hfound
    obtain ⟨_, s, behind, _, _, hdot, _⟩ := (found_iff hm).mp hfound
    have hmem : '.' ∈ w ++ [] := hdot ▸ List.mem_append_right _ List.mem_cons_self
    rw [List.append_nil] at hmem
    exact absurd (hw.2 '.' hmem) (by decide)
  have h := rewriteFrom_word hw hnone
  rw [List.append_nil] at h
  rw [h, rewriteFrom, List.append_nil]

/-! ### Two passes -/

/-- The suffix of a key that spells the old prefix starts the next reference. -/
theorem changed_again_old (hm : r.Maps m) (hkey : r.HasKey m r.pOld) :
    ∃ text, rewriteFrom m m.sortedKeys none 0 (rewriteFrom m m.sortedKeys none 0 text) ≠
      rewriteFrom m m.sortedKeys none 0 text := by
  have hs := isSuffix_of_isValidPrefix r.old_valid
  have hnone : Boundary none := rfl
  have hdot : Boundary (some '.') := boundary_dot []
  -- `old.old.old` becomes `new.old.old`, and that `new.new.old`
  refine ⟨r.pOld.toList ++ '.' :: (r.pOld.toList ++ '.' :: r.pOld.toList), ?_⟩
  have honce := rewriteFrom_ref hm hs hkey hnone (boundary_dot r.pOld.toList)
  rw [rewriteFrom_dot hm, rewriteFrom_last_word hm r.old_word] at honce
  have hend : Boundary ([] : List Char).head? := rfl
  have hagain := rewriteFrom_ref hm hs hkey hdot hend
  rw [rewriteFrom, List.append_nil] at hagain
  rw [honce, rewriteFrom_word r.new_word (not_found_of_firstWord hm ?_), rewriteFrom_dot hm, hagain]
  · intro heq
    have htail := (List.cons.inj (List.append_cancel_left heq)).2
    have hword := congrArg firstWord htail
    rw [firstWord_dot r.new_word, firstWord_dot r.old_word] at hword
    exact r.toList_ne hword
  · rw [firstWord_dot r.new_word]
    exact r.toList_ne

/-- The new prefix that is put for the next reference is the suffix of a key. -/
theorem changed_again_new (hm : r.Maps m) (hold : ¬ r.HasKey m r.pOld) (hkey : r.HasKey m r.pNew) :
    ∃ text, rewriteFrom m m.sortedKeys none 0 (rewriteFrom m m.sortedKeys none 0 text) ≠
      rewriteFrom m m.sortedKeys none 0 text := by
  have hs := isSuffix_of_isValidPrefix r.new_valid
  have hnone : Boundary none := rfl
  have hdot : Boundary (some '.') := boundary_dot []
  -- `old.old.new` becomes `old.new.new`, and that `new.new.new`
  refine ⟨r.pOld.toList ++ '.' :: (r.pOld.toList ++ '.' :: r.pNew.toList), ?_⟩
  have hend : Boundary ([] : List Char).head? := rfl
  have hnext := rewriteFrom_ref hm hs hkey hdot hend
  rw [rewriteFrom, List.append_nil] at hnext
  have hfirst :
      ¬ Found m none (r.pOld.toList ++ '.' :: (r.pOld.toList ++ '.' :: r.pNew.toList)) := by
    intro hfound
    obtain ⟨_, s, behind, _, hsuffix, heq, hword⟩ := (found_iff hm).mp hfound
    obtain ⟨_, rfl⟩ := List.cons.inj (List.append_cancel_left heq)
    rw [firstWord_dot r.old_word] at hword
    exact hold (String.toList_inj.mp hword ▸ hsuffix)
  have hagain := rewriteFrom_ref hm hs hkey hnone (boundary_dot r.pNew.toList)
  rw [rewriteFrom_word r.old_word hfirst, rewriteFrom_dot hm, hnext, hagain]
  intro heq
  have hword := congrArg firstWord heq
  rw [firstWord_dot r.new_word, firstWord_dot r.old_word] at hword
  exact r.toList_ne hword

end Ids

/-! ## Texts -/

section Texts

variable {r : Reassigned} {m : IdMap}

theorem toList_rewriteRefs (m : IdMap) (text : String) :
    (rewriteRefs m text).toList = rewriteFrom m m.sortedKeys none 0 text.toList := by
  unfold rewriteRefs
  split_ifs with hempty
  · obtain rfl := List.isEmpty_iff.mp hempty
    have hfree : ∀ (before : Option Char) (text : List Char), RefFree [] before text := by
      intro before text
      induction text generalizing before with
      | nil => trivial
      | cons c text ih => exact ⟨fun h => by simpa using h.2, ih _⟩
    exact (rewriteFrom_of_refFree (hfree _ _)).symm
  · exact String.toList_ofList

/-- **The free-text rewrite is exact, and idempotent when no key is `old.old` or `old.new`.** No key
is empty, so the scan moves on at each step; one pass changes the references and nothing else; and a
second pass changes no text exactly under that condition. -/
theorem rewrite_idempotent_iff (r : Reassigned) (m : IdMap) (hm : r.Maps m) :
    ((∀ key ∈ m.sortedKeys, key ≠ "") ∧
      (∀ text, Rewrites m none text.toList (rewriteRefs m text).toList) ∧
      ∀ text, rewriteRefs m (rewriteRefs m text) = rewriteRefs m text) ↔
    idOf r.pOld r.pOld ∉ m.map Prod.fst ∧ idOf r.pOld r.pNew ∉ m.map Prod.fst := by
  have hne := key_ne_nil hm
  constructor
  · rintro ⟨_, _, hidem⟩
    have hlist : ∀ text : List Char, rewriteFrom m m.sortedKeys none 0
        (rewriteFrom m m.sortedKeys none 0 text) = rewriteFrom m m.sortedKeys none 0 text := by
      intro text
      have h := congrArg String.toList (hidem (String.ofList text))
      rwa [toList_rewriteRefs, toList_rewriteRefs, String.toList_ofList] at h
    have hold : ¬ r.HasKey m r.pOld := by
      intro hkey
      obtain ⟨text, h⟩ := changed_again_old hm hkey
      exact h (hlist text)
    refine ⟨hold, fun hkey => ?_⟩
    obtain ⟨text, h⟩ := changed_again_new hm hold hkey
    exact h (hlist text)
  · rintro ⟨hold, hnew⟩
    refine ⟨fun key hkey hempty => ?_, fun text => ?_, fun text => ?_⟩
    · exact hne key (mem_sortedKeys.mp hkey) (String.toList_eq_nil_iff.mpr hempty)
    · rw [toList_rewriteRefs]
      exact rewriteFrom_rewrites hne none text.toList
    · have hpass := rewriteFrom_rewrites hne none text.toList
      apply String.toList_inj.mp
      rw [toList_rewriteRefs, toList_rewriteRefs]
      exact rewriteFrom_of_refFree (hpass.settled hm hold hnew)

/-- A replica's prefix is reassigned. -/
def reassigned : Reassigned := ⟨"aaaa", "kp3z", by decide, by decide, by decide⟩

theorem rewrite_idempotent_iff_reassigned :
    rewriteRefs [("aaaa.0001", "kp3z.0001")]
        (rewriteRefs [("aaaa.0001", "kp3z.0001")] "aaaa.aaaa.0001") =
      rewriteRefs [("aaaa.0001", "kp3z.0001")] "aaaa.aaaa.0001" := by
  have hm : reassigned.Maps [("aaaa.0001", "kp3z.0001")] := by
    intro e he
    exact ⟨"0001", by unfold IsSuffix; decide, (List.mem_singleton.mp he).trans (by decide)⟩
  exact ((rewrite_idempotent_iff reassigned _ hm).mpr (by decide)).2.2 _

/-- **Two references that share a word**: the first pass makes `kp3z.aaaa.aaaa` of the text, and the
second `kp3z.kp3z.aaaa`. -/
theorem rewritten_again :
    reassigned.Maps [("aaaa.aaaa", "kp3z.aaaa")] ∧
      rewriteRefs [("aaaa.aaaa", "kp3z.aaaa")]
          (rewriteRefs [("aaaa.aaaa", "kp3z.aaaa")] "aaaa.aaaa.aaaa") ≠
        rewriteRefs [("aaaa.aaaa", "kp3z.aaaa")] "aaaa.aaaa.aaaa" := by
  refine ⟨fun e he => ⟨"aaaa", by unfold IsSuffix; decide, ?_⟩, by decide⟩
  exact (List.mem_singleton.mp he).trans (by decide)

end Texts

end NexusFlow.Core
