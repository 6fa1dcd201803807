import ClassSketch.Proofs.Outline.Header
import ClassSketch.Proofs.Outline.Member

/-!
# Bodies of an outline

Every line of the body of an entry is a fragment and no header (`IsBodyText`),
and it adds to the entity what it means or is refused (`Body`). So the lines of
a body turn the entity that the header declares into the entity that the entry
means (`body_entry`).
-/

namespace ClassSketch.Outline

open Text Source

/-- A line that is read as a part of a body. -/
structure IsBodyText (line : List Char) : Prop where
  isLine : IsLine line
  noHeader (r : Reader) : r.NoHeader line
  last : ∃ c ∈ line.getLast?, isInk c = true

namespace IsBodyText

variable {line : List Char} (h : IsBodyText line)

include h

theorem getLast?_ne {c : Char} (hc : isInk c = false) : line.getLast? ≠ some c := by
  obtain ⟨x, hx, hink⟩ := h.last
  intro hlast
  rw [Option.mem_unique hx hlast, hc] at hink
  cases hink

theorem ne_singleton {c : Char} (hc : isInk c = false) : line ≠ [c] := by
  rintro rfl
  exact h.getLast?_ne hc rfl

end IsBodyText

/-! ## Member lines -/

section Member

variable (sign : Option Sign) (tags : List Tag) {core : List Char}

/-- A member has no comment, no quotation and no directive in it. -/
theorem calm_memberChars (hcore : Ink core) : ∀ c ∈ memberChars sign tags core,
    isLineBreak c = false ∧ c ∉ ['/', '"', '\'', '@'] := by
  have hink : ∀ {s : List Char}, Ink s → ∀ c ∈ s,
      isLineBreak c = false ∧ c ∉ ['/', '"', '\'', '@'] :=
    fun hs c hc => ⟨hs.isLineBreak c hc, fun hmem => hs.not_mem (Ink.isInk_calm c hmem) hc⟩
  have htag : ∀ (m : Modifier), ∀ c ∈ m.tag, isLineBreak c = false ∧ c ∉ ['/', '"', '\'', '@'] := by
    intro m
    cases m <;> exact forall_mem_of_all (by decide)
  have htags : ∀ c ∈ tags.flatMap Tag.chars, isLineBreak c = false ∧ c ∉ ['/', '"', '\'', '@'] := by
    intro c hc
    obtain ⟨t, -, hc⟩ := List.mem_flatMap.1 hc
    rcases List.mem_append.1 hc with hc | hc
    · exact htag t.modifier c hc
    · rw [List.eq_of_mem_replicate hc]
      decide
  exact List.forall_mem_append.2 ⟨List.forall_mem_append.2 ⟨hink (ink_signChars sign), htags⟩,
    hink hcore⟩

theorem trimmed_memberChars (ht : Trimmed core) : Trimmed (memberChars sign tags core) := by
  cases sign with
  | some g =>
    have h := (Trimmed.singleton (isInk_sign _ g.char_mem).2).append ht (tags.flatMap Tag.chars)
    exact h
  | none =>
    cases tags with
    | nil => exact ht
    | cons t ts =>
      have h := (Trimmed.singleton (c := '{') (by decide)).append ht
        (t.modifier.word ++ ['}'] ++ List.replicate t.spaces ' ' ++ ts.flatMap Tag.chars)
      simpa [memberChars, signChars, Tag.chars, Modifier.tag] using h

/-- A member line starts with a sign, with a tag, or with a word that a sign follows. -/
theorem noHeader_memberChars (w : Word) {c : Char} (hc : c = ':' ∨ c = '(') (s : List Char)
    (r : Reader) : r.NoHeader (memberChars sign tags (w.chars ++ c :: s)) := by
  cases sign with
  | some g =>
    have hsigns : ∀ x ∈ ['+', '-', '#', '~'], isWord x = false := forall_mem_of_all (by decide)
    exact Source.noHeader_cons (hsigns _ g.char_mem) _ r
  | none =>
    cases tags with
    | cons t ts => exact Source.noHeader_cons (c := '{') (by decide) _ r
    | nil =>
      have hsigns : isWord c = false ∧ isBlank c = false := by
        rcases hc with rfl | rfl <;> decide
      exact Source.noHeader w.isWord_of_mem (by simpa using hsigns.1) r (Or.inr hsigns.2)

theorem isBodyText_memberChars (w : Word) {c : Char} (hc : c = ':' ∨ c = '(') {s : List Char}
    (hcore : Ink (w.chars ++ c :: s)) (ht : Trimmed (w.chars ++ c :: s)) :
    IsBodyText (memberChars sign tags (w.chars ++ c :: s)) where
  isLine := by
    have hline := IsLine.of_tokens (plain_memberTokens sign tags hcore)
    rw [flatMap_chars_memberTokens] at hline
    exact hline (trimmed_memberChars sign tags ht) (calm_memberChars sign tags hcore)
  noHeader := noHeader_memberChars sign tags w hc s
  last := by
    obtain ⟨x, hx, -⟩ := ht.last
    refine ⟨x, ?_, hcore x (List.mem_of_getLast? hx)⟩
    rw [memberChars, List.getLast?_append, Option.mem_def.1 hx]
    rfl

end Member

/-- Each line for a member is a line of a body. -/
theorem isBodyText_memberLine (m : MemberLine) : IsBodyText m.chars := by
  obtain ⟨c, s, hrest, hc⟩ := m.exists_rest
  have hcore := m.ink_core
  have htrim := m.trimmed_core
  rw [hrest] at hcore htrim
  rw [m.chars_eq, hrest]
  exact isBodyText_memberChars m.sign m.tags m.name hc hcore htrim

theorem isBodyText_classLine (owner : Word) (l : ClassLine) : IsBodyText (l.chars owner) := by
  cases l with
  | member m => exact isBodyText_memberLine m
  | constructor sign ps =>
    rw [chars_constructor]
    exact isBodyText_memberChars sign [] owner (Or.inr rfl) (ink_constructor owner ps)
      (trimmed_constructor owner ps)

/-- Each line of an enumeration is a line of a body. -/
theorem isBodyText_enumLine (l : EnumLine) : IsBodyText l.chars where
  isLine := by
    refine .of_ink (ink_enumLine l) ((trimmed_words l).extend ?_)
    cases l.comma
    · nofun
    · rintro c ⟨⟩
      decide
  noHeader r := by
    obtain ⟨s, hs, hword, hblank⟩ := exists_enumLine l
    rw [hs]
    exact Source.noHeader l.first.isWord_of_mem hword r (Or.inr hblank)
  last := by
    have hne : l.chars ≠ [] := List.append_ne_nil_of_left_ne_nil (trimmed_words l).ne_nil _
    exact ⟨l.chars.getLast hne, List.getLast?_eq_some_getLast hne,
      ink_enumLine l _ (List.getLast_mem hne)⟩

/-! ## Whole bodies -/

/-- Lines from line `n` on that turn one entity into another, and those of them that are
skipped. -/
inductive Body : Entity → Nat → List (List Char) → Entity → List Skipped → Prop where
  | nil {e : Entity} {n : Nat} : Body e n [] e []
  | read {a b c : Entity} {n : Nat} {line : List Char} {lines : List (List Char)} {s : List Skipped}
      (htext : IsBodyText line) (hline : Reader.bodyLine a line = (none, b))
      (hlines : Body b (n + 1) lines c s) : Body a n (line :: lines) c s
  | skip {a c : Entity} {n : Nat} {line : List Char} {lines : List (List Char)} {s : List Skipped}
      {reason : SkipReason} (htext : IsBodyText line)
      (hline : Reader.bodyLine a line = (some reason, a)) (hlines : Body a (n + 1) lines c s) :
      Body a n (line :: lines) c (⟨⟨n, line⟩, reason⟩ :: s)

/-- A class reads all its lines, each to the attribute, method or constructor that it spells. -/
theorem body_cls (owner : Word) (ls : List ClassLine) (n : Nat) {c : ClassDecl}
    (hname : c.name = owner.text) :
    Body (.cls c) n (ls.map (ClassLine.chars owner)) (.cls { c with
      attributes := c.attributes ++ ls.filterMap ClassLine.attribute?
      constructors := c.constructors ++ ls.filterMap (ClassLine.constructor? owner)
      methods := c.methods ++ ls.filterMap ClassLine.method? }) (ClassLine.skipped owner n ls) := by
  induction ls generalizing c n with
  | nil =>
    simp only [List.filterMap_nil, List.append_nil]
    exact .nil
  | cons l ls ih =>
    have hcons : ∀ {α : Type} (f : ClassLine → Option α),
        (l :: ls).filterMap f = (f l).toList ++ ls.filterMap f := by
      intro α f
      rw [List.filterMap_cons]
      cases f l <;> rfl
    have hrest := ih (n + 1) (c := l.add owner c) hname
    have hline := bodyLine_classLine hname l
    rw [hcons, hcons, hcons, ← List.append_assoc, ← List.append_assoc, ← List.append_assoc,
      ClassLine.skipped]
    cases hrefused : l.isRefused with
    | false =>
      rw [hrefused] at hline
      exact .read (isBodyText_classLine owner l) hline hrest
    | true =>
      rw [hrefused] at hline
      have hsame : Entity.cls c = .cls (l.add owner c) := by rw [add_of_isRefused hrefused]
      refine .skip (isBodyText_classLine owner l) hline ?_
      rw [hsame]
      exact hrest

/-- An interface reads all its lines, each to the method that it spells. -/
theorem body_interface (ms : List InterfaceLine) (n : Nat) (i : InterfaceDecl) :
    Body (.interface i) n (ms.map fun m => m.1.chars)
      (.interface { i with methods := i.methods ++ ms.map fun m => m.1.method }) [] := by
  induction ms generalizing i n with
  | nil =>
    rw [List.map_nil, List.map_nil, List.append_nil]
    exact .nil
  | cons m ms ih =>
    have hrest := ih (n + 1) { i with methods := i.methods ++ [m.1.method] }
    rw [List.append_assoc] at hrest
    exact .read (isBodyText_memberLine m.1) (bodyLine_interfaceLine i m) hrest

/-- An enumeration reads its values. -/
theorem body_enum (ls : List EnumLine) (n : Nat) (en : EnumDecl) :
    Body (.enum en) n (ls.map EnumLine.chars)
      (.enum { en with values := en.values ++ ls.flatMap fun l => l.words.map Word.text }) [] := by
  induction ls generalizing en n with
  | nil =>
    rw [List.flatMap_nil, List.append_nil]
    exact .nil
  | cons l ls ih =>
    have hrest := ih (n + 1) { en with values := en.values ++ l.words.map Word.text }
    rw [List.append_assoc, ← List.flatMap_cons (f := fun l : EnumLine => l.words.map Word.text)]
      at hrest
    exact .read (isBodyText_enumLine l) (bodyLine_enumLine en l) hrest

/-- The body of an entry adds to the declared entity all that the entry means. -/
theorem body_entry (e : Entry) (n : Nat) (package : Option String) :
    Body (e.declared package) (n + 1) (e.body?.getD []) (e.entity package) (e.skipped n) := by
  cases e with
  | cls isAbstract name generics parents interfaces body =>
    cases body with
    | none => exact .nil
    | some ls => exact body_cls name ls (n + 1) rfl
  | interface name generics parents body =>
    cases body with
    | none => exact .nil
    | some ms => exact body_interface ms (n + 1) _
  | enum name body =>
    cases body with
    | none => exact .nil
    | some ls => exact body_enum ls (n + 1) _

namespace Body

variable {a b : Entity} {n : Nat} {lines : List (List Char)} {s : List Skipped}

theorem eq_of_nil (h : Body a n [] b s) : a = b ∧ s = [] := by
  cases h
  exact ⟨rfl, rfl⟩

theorem isBodyText (h : Body a n lines b s) : ∀ line ∈ lines, IsBodyText line := by
  induction h with
  | nil => exact List.forall_mem_nil _
  | read htext _ _ ih => exact List.forall_mem_cons.2 ⟨htext, ih⟩
  | skip htext _ _ ih => exact List.forall_mem_cons.2 ⟨htext, ih⟩

end Body

end ClassSketch.Outline
