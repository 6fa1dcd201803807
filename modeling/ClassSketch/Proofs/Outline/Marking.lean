import ClassSketch.Proofs.Outline.Name

/-!
# The marks of a member line

A member line is a core with marks around it : a visibility sign, tags before it, after it
and at the end of the line, and keywords after it (`Marking`). Tags are taken off wherever
they stand and leave a blank (`Strips`), then the sign is taken off (`takeSign_bare_line`),
and then the keywords (`takeKeywords_blanked`). So a line declares what its core declares,
with the visibility of its sign and with all modifiers that are written
(`Marking.read?_line`).
-/

namespace ClassSketch

open Text Member

namespace Outline

/-! ## Markings -/

/-- A keyword with the space after it and further spaces. -/
structure Keyword where
  modifier : Modifier
  spaces : Nat
  isKeyword : Modifier.ofKeyword? modifier.word = some modifier

/-- What may stand between the sign and the core. -/
inductive Mark where
  | tag (t : Tag)
  | keyword (k : Keyword)

namespace Mark

def chars : Mark → List Char
  | tag t => t.chars
  | keyword k => k.modifier.word ++ ' ' :: List.replicate k.spaces ' '

def tag? : Mark → Option Modifier
  | tag t => some t.modifier
  | keyword _ => none

def keyword? : Mark → Option Modifier
  | tag _ => none
  | keyword k => some k.modifier

end Mark

/-- The marks of a member line. A tag at the end has its spaces in front. -/
structure Marking where
  front : List Tag := []
  sign : Option Sign := none
  inner : List Mark := []
  back : List Tag := []

/-- A tag at the end of a line, with the spaces before it. -/
def Tag.backChars (t : Tag) : List Char :=
  List.replicate t.spaces ' ' ++ t.modifier.tag

namespace Marking

/-- The line of a core with its marks. -/
def line (k : Marking) (core : List Char) : List Char :=
  k.front.flatMap Tag.chars ++ (signChars k.sign ++ (k.inner.flatMap Mark.chars ++
    (core ++ k.back.flatMap Tag.backChars)))

/-- The modifiers that are written, the tags first. -/
def modifiers (k : Marking) : List Modifier :=
  k.front.map Tag.modifier ++ (k.inner.filterMap Mark.tag? ++ k.back.map Tag.modifier) ++
    k.inner.filterMap Mark.keyword?

end Marking

/-! ## Tags -/

/-- Without its tags `ms` a text becomes `b`, whatever follows it. -/
structure Strips (s : List Char) (ms : List Modifier) (b : List Char) : Prop where
  tags (r : List Char) : Declaration.tags (s ++ r) = ms ++ Declaration.tags r
  blanked (r : List Char) :
    (tokens (s ++ r)).flatMap Token.blanked = b ++ (tokens r).flatMap Token.blanked

namespace Strips

theorem nil : Strips [] [] [] :=
  ⟨fun _ => rfl, fun _ => rfl⟩

theorem tags_eq {s b : List Char} {ms : List Modifier} (h : Strips s ms b) :
    Declaration.tags s = ms := by
  have htags := h.tags []
  rwa [List.append_nil, Declaration.tags, Declaration.tags, tokens, List.filterMap_nil,
    List.append_nil] at htags

theorem blanked_eq {s b : List Char} {ms : List Modifier} (h : Strips s ms b) :
    (tokens s).flatMap Token.blanked = b := by
  have hblanked := h.blanked []
  rwa [List.append_nil, tokens, List.flatMap_nil, List.append_nil] at hblanked

/-- Tags are stripped from texts in turn. -/
theorem append {s t b d : List Char} {ms ns : List Modifier} (hs : Strips s ms b)
    (ht : Strips t ns d) : Strips (s ++ t) (ms ++ ns) (b ++ d) where
  tags r := by rw [List.append_assoc, hs.tags, ht.tags, List.append_assoc]
  blanked r := by rw [List.append_assoc, hs.blanked, ht.blanked, List.append_assoc]

theorem tag (m : Modifier) : Strips m.tag [m] [' '] where
  tags r := by
    rw [Declaration.tags, tokens_tag_append]
    rfl
  blanked r := by
    rw [tokens_tag_append]
    rfl

/-- A text without braces has no tags. -/
theorem plain {s : List Char} (h : ∀ c ∈ s, c ≠ '{' ∧ c ≠ '}') : Strips s [] s := by
  have htokens (r : List Char) : tokens (s ++ r) = s.map Token.other ++ tokens r := by
    have h := tokens_append (Source.plain_map_other h) r
    rwa [Source.flatMap_chars_map_other] at h
  refine ⟨fun r => ?_, fun r => ?_⟩
  · have hnone : (s.map Token.other).filterMap Token.modifier? = [] := by
      rw [List.filterMap_map]
      exact List.filterMap_eq_nil_iff.2 fun _ _ => rfl
    rw [Declaration.tags, htokens, List.filterMap_append, hnone]
    rfl
  · rw [htokens, List.flatMap_append, List.flatMap_map]
    congr 1
    exact List.flatMap_singleton' s

theorem flatMap {α : Type} {f h : α → List Char} {g : α → List Modifier} {as : List α}
    (has : ∀ a ∈ as, Strips (f a) (g a) (h a)) :
    Strips (as.flatMap f) (as.flatMap g) (as.flatMap h) := by
  induction as with
  | nil => exact nil
  | cons a as ih =>
    obtain ⟨ha, has⟩ := List.forall_mem_cons.1 has
    exact ha.append (ih has)

end Strips

/-! ## Signs -/

theorem Sign.char_mem (s : Sign) : s.char ∈ ['+', '-', '#', '~'] := by
  have h := s.ofSign?_char
  unfold Visibility.ofSign? at h
  split at h
  all_goals simp_all

theorem ofSign?_eq_none {c : Char} (h : isDotted c = true) : Visibility.ofSign? c = none := by
  cases hv : Visibility.ofSign? c with
  | none => rfl
  | some v =>
    have hsigns : ∀ x ∈ ['+', '-', '#', '~'], isDotted x = false := forall_mem_of_all (by decide)
    rw [hsigns c (Sign.char_mem ⟨c, v, hv⟩)] at h
    cases h

theorem isInk_sign : ∀ c ∈ ['+', '-', '#', '~'], isInk c = true ∧ isBlank c = false :=
  forall_mem_of_all (by decide)

theorem ink_signChars (sign : Option Sign) : Ink (signChars sign) := by
  intro c hc
  cases sign with
  | none => exact absurd hc List.not_mem_nil
  | some s =>
    rw [List.mem_singleton.1 hc]
    exact (isInk_sign _ s.char_mem).1

/-! ## Lines without their tags -/

/-- What a tag and the spaces next to it leave behind. -/
def Tag.blanked (t : Tag) : List Char :=
  ' ' :: List.replicate t.spaces ' '

theorem Tag.isBlank_blanked (t : Tag) : ∀ c ∈ t.blanked, isBlank c = true := by
  intro c hc
  rw [blanked, ← List.replicate_succ] at hc
  rw [List.eq_of_mem_replicate hc]
  decide

/-- What a mark leaves behind when the tags are taken off. -/
def Mark.blanked : Mark → List Char
  | tag t => t.blanked
  | keyword k => k.modifier.word ++ ' ' :: List.replicate k.spaces ' '

theorem strips_spaces (n : Nat) : Strips (List.replicate n ' ') [] (List.replicate n ' ') := by
  refine .plain fun c hc => ?_
  rw [List.eq_of_mem_replicate hc]
  decide

/-- A tag leaves blanks in its place. -/
theorem Tag.strips (t : Tag) : Strips t.chars [t.modifier] t.blanked :=
  (Strips.tag t.modifier).append (strips_spaces t.spaces)

theorem Tag.strips_back (t : Tag) : Strips t.backChars [t.modifier] t.blanked := by
  have h := (strips_spaces t.spaces).append (.tag t.modifier)
  rw [← List.replicate_succ'] at h
  exact h

theorem ne_brace_of_mem_word (m : Modifier) : ∀ c ∈ m.word, c ≠ '{' ∧ c ≠ '}' := by
  cases m <;> exact forall_mem_of_all (by decide)

theorem Mark.strips (m : Mark) : Strips m.chars m.tag?.toList m.blanked := by
  cases m with
  | tag t => exact t.strips
  | keyword k =>
    refine (Strips.plain (ne_brace_of_mem_word _)).append ?_
    exact strips_spaces (k.spaces + 1)

namespace Marking

variable (k : Marking) {s : List Char}

/-- The tags of a line, wherever they are, are stripped in their order. -/
theorem strips_line (hs : ∀ c ∈ s, c ≠ '{' ∧ c ≠ '}') : Strips (k.line s)
    (k.front.map Tag.modifier ++ (k.inner.filterMap Mark.tag? ++ k.back.map Tag.modifier))
    (k.front.flatMap Tag.blanked ++ (signChars k.sign ++ (k.inner.flatMap Mark.blanked ++
      (s ++ k.back.flatMap Tag.blanked)))) := by
  have hfront := Strips.flatMap fun t (_ : t ∈ k.front) => t.strips
  have hinner := Strips.flatMap fun m (_ : m ∈ k.inner) => m.strips
  have hback := Strips.flatMap fun t (_ : t ∈ k.back) => t.strips_back
  have hsign : Strips (signChars k.sign) [] (signChars k.sign) := .plain (ink_signChars k.sign).plain
  rw [List.map_eq_flatMap, List.map_eq_flatMap, List.filterMap_eq_flatMap_toList]
  exact hfront.append (hsign.append (hinner.append ((Strips.plain hs).append hback)))

end Marking

theorem dropSemicolons_eq_self {s : List Char} (h : s.getLast? ≠ some ';') :
    Declaration.dropSemicolons s = s := by
  unfold Declaration.dropSemicolons
  rcases List.eq_nil_or_concat s with rfl | ⟨t, c, rfl⟩
  · rfl
  · have hc : ¬(c == ';') = true := by
      rw [List.concat_eq_append, List.getLast?_concat] at h
      simpa using h
    rw [List.concat_eq_append, List.reverse_append, List.reverse_singleton, List.singleton_append,
      List.dropWhile_cons_of_neg (p := fun x => x == ';') hc, List.reverse_cons,
      List.reverse_reverse]

/-- A text that ends as it stands. -/
theorem bare_of_blanked {line s : List Char} (h : trim ((tokens line).flatMap Token.blanked) = s)
    (hs : Trimmed s) (hbrace : s.getLast? ≠ some '{') (hsemi : s.getLast? ≠ some ';') :
    Declaration.bare line = s := by
  rw [Declaration.bare, h, Declaration.dropOpening, if_neg hbrace, dropSemicolons_eq_self hsemi,
    hs.trim_eq]

/-! ## Cores -/

/-- Text that a sign follows directly is no keyword. -/
theorem takeKeywords_core {w : List Char} (hw : ' ' ∉ w) {c : Char} (hc : c ∈ [':', '(', '<', '['])
    (s : List Char) : Declaration.takeKeywords (w ++ c :: s) = ([], w ++ c :: s) := by
  have hspace : c ≠ ' ' := by
    rintro rfl
    exact absurd hc (by decide)
  have hkeyword : ∀ m : Modifier, c ∉ m.word := by
    have hsigns : ∀ x ∈ [':', '(', '<', '['], ∀ m ∈ Modifier.all, x ∉ m.word :=
      forall_mem_of_all (by decide)
    exact fun m => hsigns c hc m (by cases m <;> decide)
  rw [Declaration.takeKeywords]
  split
  · rfl
  · next word tail hcut =>
    obtain ⟨heq, hword⟩ := eq_of_cutAt hcut
    have hmem : c ∈ word := by
      rcases List.append_eq_append_iff.1 heq with ⟨zs, rfl, hzs⟩ | ⟨zs, hzs, htail⟩
      · cases zs with
        | nil => exact absurd (List.cons.inj hzs).1 hspace
        | cons z zs =>
          obtain rfl : c = z := (List.cons.inj hzs).1
          simp
      · cases zs with
        | nil => exact absurd (List.cons.inj htail).1.symm hspace
        | cons z zs =>
          obtain rfl : ' ' = z := (List.cons.inj htail).1
          exact absurd (hzs ▸ List.mem_append_right word List.mem_cons_self) hw
    have hnone : Modifier.ofKeyword? word = none := by
      refine List.find?_eq_none.2 fun m _ hm => hkeyword m ?_
      rwa [eq_of_beq hm]
    simp only [hnone]

/-- A text before a space is no keyword unless it is the word of a modifier. -/
theorem takeKeywords_space {w : List Char} (hw : ' ' ∉ w) (hfree : Modifier.ofKeyword? w = none)
    (s : List Char) : Declaration.takeKeywords (w ++ ' ' :: s) = ([], w ++ ' ' :: s) := by
  have hcut := cutAt_append hw s
  rw [Declaration.takeKeywords]
  split
  · rfl
  · next hsome =>
    rw [hcut] at hsome
    cases hsome
    simp only [hfree]

/-- A text that marks can stand around : it starts with a dotted word that is no keyword, and its
end is not taken off with the tags. -/
structure IsCore (s : List Char) : Prop where
  head : ∃ c ∈ s.head?, isDotted c = true
  trimmed : Trimmed s
  unbraced : ∀ c ∈ s, c ≠ '{' ∧ c ≠ '}'
  last : s.getLast? ≠ some ';'
  takeKeywords_eq : Declaration.takeKeywords s = ([], s)

section Inner

variable {s : List Char} (hs : IsCore s) (ms : List Mark)

theorem isWord_word (m : Modifier) : m.word ≠ [] ∧ ∀ c ∈ m.word, isWord c = true := by
  cases m <;> exact ⟨by decide, forall_mem_of_all (by decide)⟩

theorem trimmed_word (m : Modifier) : Trimmed m.word := by
  obtain ⟨hne, hword⟩ := isWord_word m
  exact .of_forall hne fun c hc => isBlank_eq_false_of_isWord (hword c hc)

/-- A key word is taken if anything is behind it. -/
theorem takeKeywords_keyword (k : Keyword) {t : List Char} (ht : allBlank t = false) :
    Declaration.takeKeywords (k.modifier.word ++ ' ' :: t) =
      (k.modifier :: (Declaration.takeKeywords (trimStart t)).1,
        (Declaration.takeKeywords (trimStart t)).2) := by
  have hspace : ' ' ∉ k.modifier.word := fun h => by
    cases (isWord_word k.modifier).2 _ h
  have hcut := cutAt_append hspace t
  rw [Declaration.takeKeywords]
  split
  · next hnone => rw [hcut] at hnone; cases hnone
  · next hsome =>
    rw [hcut] at hsome
    cases hsome
    simp only [k.isKeyword, ht, Bool.false_eq_true, if_false]

include hs

theorem allBlank_eq_false (a : List Char) : allBlank (a ++ s) = false := by
  obtain ⟨c, hc, hblank⟩ := hs.trimmed.head
  rw [allBlank, List.all_eq_false]
  exact ⟨c, List.mem_append_right a (List.mem_of_mem_head? hc), by simp [hblank]⟩

/-- After the sign, keywords are taken until the core is left. -/
theorem takeKeywords_blanked :
    Declaration.takeKeywords (trimStart (ms.flatMap Mark.blanked ++ s)) =
      (ms.filterMap Mark.keyword?, s) := by
  induction ms with
  | nil =>
    rw [List.flatMap_nil, List.nil_append, trimStart_eq_self hs.trimmed.startsBlank_eq]
    exact hs.takeKeywords_eq
  | cons m ms ih =>
    rw [List.flatMap_cons, List.append_assoc]
    cases m with
    | tag t =>
      show Declaration.takeKeywords (trimStart (t.blanked ++ _)) = (ms.filterMap Mark.keyword?, s)
      rw [trimStart_blanks_append t.isBlank_blanked, ih]
    | keyword k =>
      have hspaces : ∀ c ∈ List.replicate k.spaces ' ', isBlank c = true := by
        intro c hc
        rw [List.eq_of_mem_replicate hc]
        decide
      have hshape : Mark.blanked (.keyword k) ++ (ms.flatMap Mark.blanked ++ s) = k.modifier.word ++
          ' ' :: (List.replicate k.spaces ' ' ++ ms.flatMap Mark.blanked ++ s) := by
        simp [Mark.blanked]
      rw [hshape, (trimmed_word _).trimStart_append, takeKeywords_keyword k (allBlank_eq_false hs _),
        List.append_assoc, trimStart_blanks_append hspaces, ih]
      rfl

/-- What stands after the sign starts with a character of a name. -/
theorem exists_trimStart_blanked : ∃ c t, trimStart (ms.flatMap Mark.blanked ++ s) = c :: t ∧
    isDotted c = true := by
  induction ms with
  | nil =>
    obtain ⟨c, hc, hdotted⟩ := hs.head
    obtain ⟨t, rfl⟩ := List.head?_eq_some_iff.1 (Option.mem_def.1 hc)
    exact ⟨c, t, trimStart_eq_self hs.trimmed.startsBlank_eq, hdotted⟩
  | cons m ms ih =>
    rw [List.flatMap_cons, List.append_assoc]
    cases m with
    | tag t =>
      show ∃ c r, trimStart (t.blanked ++ _) = c :: r ∧ _
      rw [trimStart_blanks_append t.isBlank_blanked]
      exact ih
    | keyword k =>
      obtain ⟨hne, hword⟩ := isWord_word k.modifier
      obtain ⟨c, w, hw⟩ := List.exists_cons_of_ne_nil hne
      have htrim := (trimmed_word k.modifier).trimStart_append
        (' ' :: List.replicate k.spaces ' ' ++ (ms.flatMap Mark.blanked ++ s))
      rw [Mark.blanked, List.append_assoc, htrim, hw]
      exact ⟨c, _, rfl, isDotted_of_isWord (hword c (hw ▸ List.mem_cons_self))⟩

/-- It ends as the core does. -/
theorem trimmed_trimStart_blanked : Trimmed (trimStart (ms.flatMap Mark.blanked ++ s)) ∧
    (trimStart (ms.flatMap Mark.blanked ++ s)).getLast? = s.getLast? := by
  obtain ⟨c, t, heq, hdotted⟩ := exists_trimStart_blanked hs ms
  obtain ⟨d, hd, hblank⟩ := hs.trimmed.last
  have hlast : (trimStart (ms.flatMap Mark.blanked ++ s)).getLast? = some d := by
    obtain ⟨bs, happend, -, -⟩ := exists_trimStart (ms.flatMap Mark.blanked ++ s)
    have h := congrArg List.getLast? happend
    rw [List.getLast?_append, List.getLast?_append, Option.mem_def.1 hd, heq] at h
    rw [heq]
    simpa [List.getLast?_cons] using h.symm
  rw [hlast]
  refine ⟨⟨⟨c, by rw [heq]; rfl, isBlank_eq_false_of_isDotted hdotted⟩, ⟨d, hlast, hblank⟩⟩, hd.symm⟩

end Inner

/-! ## Marked lines -/

namespace Marking

variable (k : Marking) {s : List Char} (hs : IsCore s)

include hs

/-- Without its tags, a line starts with its sign. -/
theorem trim_blanked_line : trim ((tokens (k.line s)).flatMap Token.blanked) =
    trim (signChars k.sign ++ (k.inner.flatMap Mark.blanked ++ s)) := by
  have hblanks : ∀ ts : List Tag, ∀ c ∈ ts.flatMap Tag.blanked, isBlank c = true := by
    intro ts c hc
    obtain ⟨t, -, ht⟩ := List.mem_flatMap.1 hc
    exact t.isBlank_blanked c ht
  rw [(k.strips_line hs.unbraced).blanked_eq, trim, trimStart_blanks_append (hblanks k.front), ← trim]
  simp only [← List.append_assoc]
  rw [trim_append_blanks _ (hblanks k.back)]

/-- Tags and sign are taken off. -/
theorem takeSign_bare_line : Declaration.takeSign (Declaration.bare (k.line s)) =
    (visibility k.sign, trimStart (k.inner.flatMap Mark.blanked ++ s)) := by
  obtain ⟨htrimmed, hlast⟩ := trimmed_trimStart_blanked hs k.inner
  obtain ⟨bs, hbs, hblank, -⟩ := exists_trimStart (k.inner.flatMap Mark.blanked ++ s)
  have hbrace : s.getLast? ≠ some '{' := fun h => (hs.unbraced _ (List.mem_of_getLast? h)).1 rfl
  have htrim := k.trim_blanked_line hs
  rw [hbs] at htrim
  cases hsign : k.sign with
  | none =>
    obtain ⟨c, t, heq, hdotted⟩ := exists_trimStart_blanked hs k.inner
    rw [hsign] at htrim
    have hbare := bare_of_blanked (htrim.trans (htrimmed.trim_append hblank)) htrimmed
      (hlast ▸ hbrace) (hlast ▸ hs.last)
    rw [hbare, heq, Declaration.takeSign, ofSign?_eq_none hdotted]
    rfl
  | some g =>
    rw [hsign] at htrim
    have hsigned := (Trimmed.singleton (isInk_sign _ g.char_mem).2).append htrimmed bs
    have hend : ([g.char] ++ bs ++ trimStart (k.inner.flatMap Mark.blanked ++ s)).getLast? =
        s.getLast? := by
      obtain ⟨d, hd, -⟩ := hs.trimmed.last
      rw [List.getLast?_append, hlast, Option.mem_def.1 hd]
      rfl
    have hbare := bare_of_blanked (htrim.trans hsigned.trim_eq) hsigned (hend ▸ hbrace)
      (hend ▸ hs.last)
    rw [hbare]
    show Declaration.takeSign (g.char :: (bs ++ trimStart _)) = _
    rw [Declaration.takeSign]
    simp only [g.ofSign?_char, htrimmed.trim_append hblank]
    rfl

/-- A line declares what its core does, with the marks around it. -/
theorem read?_line : Declaration.read? (k.line s) =
    (Declaration.shape? k.modifiers s).map fun shape =>
      { visibility := visibility k.sign, modifiers := k.modifiers, shape } := by
  simp only [Declaration.read?, k.takeSign_bare_line hs, takeKeywords_blanked hs,
    (k.strips_line hs.unbraced).tags_eq]
  rfl

end Marking

end Outline

end ClassSketch
