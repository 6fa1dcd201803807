import Mathlib.Data.Finset.Insert
import ClassSketch.Proofs.Outline.Member

/-!
# Two spellings of a member

The type of a member stands behind it after a colon, or in front of it : `name: Type` and
`Type name`, `name(params): Type` and `Type name(params)`. A type in front is found by
trying the closing brackets of the line from the last one on. Those among the parameters
come first, but behind them there is no parenthesis left, so that the bracket of the type
itself is taken (`FrontType.exists_leadingTypes`). Both spellings therefore declare the same
(`MemberText.shape?_core`).

Marks may stand around either of them, and only which modifiers they write matters, not
where, how often or in which order (`offer_spelled`).
-/

namespace ClassSketch

open Text Member

/-! ## Types in front -/

/-- A type that may stand in front of a name : a dotted word that is no keyword, then arguments in
brackets, then array marks. The arguments are a text of any form without parentheses, braces and
line feeds. -/
structure FrontType where
  base : List Char
  args : Option (List Char)
  arrays : Nat
  base_dotted : isDottedText base = true
  base_free : ∀ m ∈ [Modifier.abstract, .static, .final], base ≠ m.word
  args_plain : ∀ s ∈ args, ∀ c ∈ s, c ∉ ['(', ')', '{', '}', '\n']

namespace FrontType

variable (t : FrontType)

/-- What follows the dotted word. -/
def rest : List Char :=
  t.args.elim [] (fun s => '<' :: (s ++ ['>'])) ++ (List.replicate t.arrays ['[', ']']).flatten

def chars : List Char :=
  t.base ++ t.rest

theorem base_ne_nil : t.base ≠ [] := by
  have h := t.base_dotted
  rw [isDottedText, Bool.and_eq_true] at h
  simpa using h.1

theorem isDotted_base : ∀ c ∈ t.base, isDotted c = true := by
  have h := t.base_dotted
  rw [isDottedText, Bool.and_eq_true, List.all_eq_true] at h
  exact h.2

/-- No type is taken for a key word. -/
theorem ofKeyword?_base : Modifier.ofKeyword? t.base = none :=
  List.find?_eq_none.2 fun m hm h => t.base_free m hm (eq_of_beq h).symm

theorem mem_arrays {n : Nat} {c : Char} (h : c ∈ (List.replicate n ['[', ']']).flatten) :
    c ∈ ['[', ']'] := by
  obtain ⟨s, hs, hc⟩ := List.mem_flatten.1 h
  rwa [List.eq_of_mem_replicate hs] at hc

/-- What the arguments may not have is nowhere in the type. -/
theorem not_mem_chars {c : Char} (hc : c ∈ ['(', ')', '{', '}', '\n']) : c ∉ t.chars := by
  have hsigns : ∀ x ∈ ['(', ')', '{', '}', '\n'], isDotted x = false ∧ x ∉ ['[', ']'] ∧
      x ∉ ['<', '>'] := forall_mem_of_all (by decide)
  obtain ⟨hdotted, harrays, hangle⟩ := hsigns c hc
  intro h
  rcases List.mem_append.1 h with h | h
  · rw [t.isDotted_base c h] at hdotted
    cases hdotted
  rcases List.mem_append.1 h with h | h
  · cases hargs : t.args with
    | none =>
      rw [hargs] at h
      cases h
    | some s =>
      have hplain := t.args_plain s hargs c
      rw [hargs] at h
      have hmem : c = '<' ∨ c ∈ s ∨ c = '>' := by simpa using h
      rcases hmem with rfl | hmem | rfl
      · exact hangle (by simp)
      · exact hplain hmem hc
      · exact hangle (by simp)
  · exact harrays (mem_arrays h)

/-- A type ends with its dotted word or with a bracket. -/
theorem exists_last : ∃ u c, t.chars = u ++ [c] ∧ (isDotted c = true ∨ c ∈ ['>', ']']) := by
  unfold chars rest
  cases t.arrays with
  | succ n =>
    rw [List.replicate_succ', List.flatten_append]
    exact ⟨t.base ++ (t.args.elim [] (fun s => '<' :: (s ++ ['>'])) ++
      ((List.replicate n ['[', ']']).flatten ++ ['['])), ']', by simp, .inr (by decide)⟩
  | zero =>
    cases t.args with
    | some s => exact ⟨t.base ++ '<' :: s, '>', by simp, .inr (by decide)⟩
    | none =>
      obtain ⟨u, c, hu⟩ := (List.eq_nil_or_concat t.base).resolve_left t.base_ne_nil
      exact ⟨u, c, by simp [hu], .inl (t.isDotted_base c (by simp [hu]))⟩

/-- A type starts with a character of a name. -/
theorem exists_head : ∃ c ∈ t.chars.head?, isDotted c = true := by
  obtain ⟨c, u, hu⟩ := List.exists_cons_of_ne_nil t.base_ne_nil
  refine ⟨c, ?_, t.isDotted_base c (hu ▸ List.mem_cons_self)⟩
  rw [chars, hu]
  rfl

/-- A type has no blanks around it. -/
theorem trimmed_chars : Trimmed t.chars := by
  obtain ⟨c, hc, hdotted⟩ := t.exists_head
  refine ⟨⟨c, hc, isBlank_eq_false_of_isDotted hdotted⟩, ?_⟩
  obtain ⟨u, d, hu, hd⟩ := t.exists_last
  refine ⟨d, by rw [hu, List.getLast?_concat]; rfl, ?_⟩
  rcases hd with hd | hd
  · exact isBlank_eq_false_of_isDotted hd
  · exact forall_mem_of_all (p := fun x => isBlank x = false) (by decide) d hd

/-- The dotted word ends where the type goes on or where a space follows. -/
theorem exists_rest_append (s : List Char) : ∃ c r, t.rest ++ ' ' :: s = c :: r ∧
    isDotted c = false ∧ ((c ∈ ['<', '['] ∨ c = ' ' ∧ t.rest = [])) := by
  unfold rest
  cases t.args with
  | some u => exact ⟨'<', _, rfl, by decide, .inl (by decide)⟩
  | none =>
    cases t.arrays with
    | succ n => exact ⟨'[', _, rfl, by decide, .inl (by decide)⟩
    | zero => exact ⟨' ', s, rfl, by decide, .inr ⟨rfl, rfl⟩⟩

/-- Only brackets of what follows come before that of the type itself. -/
theorem exists_argumentRests (s : List Char) :
    ∃ us vs, argumentRests (t.rest ++ ' ' :: s) =
      us ++ ((List.replicate t.arrays ['[', ']']).flatten ++ ' ' :: s) :: vs ∧
        ∀ u ∈ us, u ∈ restsAfter '>' s := by
  cases hargs : t.args with
  | none =>
    refine ⟨[], [], ?_, List.forall_mem_nil _⟩
    rw [rest, hargs]
    cases t.arrays <;> rfl
  | some inner =>
    have hfeed : '\n' ∉ inner := fun h => t.args_plain inner hargs _ h (by decide)
    have hskip : restsAfter '>' ((List.replicate t.arrays ['[', ']']).flatten ++ ' ' :: s) =
        restsAfter '>' s := by
      have hmarks : ∀ x ∈ ['>', '\n'], x ∉ (List.replicate t.arrays ['[', ']']).flatten ++ [' '] := by
        intro x hx h
        have hsigns : ∀ y ∈ ['>', '\n'], y ∉ ['[', ']'] ∧ y ∉ [' '] := forall_mem_of_all (by decide)
        rcases List.mem_append.1 h with h | h
        · exact (hsigns x hx).1 (mem_arrays h)
        · exact (hsigns x hx).2 h
      rw [List.append_cons, restsAfter_append (hmarks _ (by simp)) (hmarks _ (by simp))]
    obtain ⟨xs, hxs⟩ := exists_restsAfter (c := '>') (by decide) hfeed
      ((List.replicate t.arrays ['[', ']']).flatten ++ ' ' :: s)
    refine ⟨(restsAfter '>' s).reverse, xs.reverse, ?_, fun u hu => List.mem_reverse.1 hu⟩
    have hrest : t.rest ++ ' ' :: s = '<' :: (inner ++ '>' ::
        ((List.replicate t.arrays ['[', ']']).flatten ++ ' ' :: s)) := by
      simp [rest, hargs]
    rw [hrest, argumentRests, hxs, hskip]
    simp

/-- Among the ways to read a type in front of `s` is the right one, and before it only such that end
inside `s`. -/
theorem exists_leadingTypes {s : List Char} (hs : startsBlank s = false) :
    ∃ xs ys, leadingTypes (t.chars ++ ' ' :: s) = xs ++ (' ' :: s, s) :: ys ∧
      ∀ p ∈ xs, ∃ r ∈ restsAfter '>' s, p.2 ⊆ r := by
  obtain ⟨c, r, hrest, hdotted, -⟩ := t.exists_rest_append s
  have hbase : takeSome isDotted (t.chars ++ ' ' :: s) = some (t.base, t.rest ++ ' ' :: s) := by
    rw [chars, List.append_assoc, takeSome_append t.base_ne_nil t.isDotted_base]
    rw [hrest]
    exact hdotted
  have harrays := afterArrayMarks_append t.arrays (s := ' ' :: s) (by simp)
  have hblanks : afterBlanks? (' ' :: s) = some s := by
    rw [afterBlanks?, if_pos (by decide), trimStart_eq_self hs]
  obtain ⟨us, vs, hrests, hus⟩ := t.exists_argumentRests s
  unfold leadingTypes
  simp only [hbase, hrests, List.filterMap_append, List.filterMap_cons, harrays, hblanks,
    Option.map_some]
  refine ⟨_, _, rfl, fun p hp => ?_⟩
  obtain ⟨u, hu, hp⟩ := List.mem_filterMap.1 hp
  obtain ⟨v, hv, rfl⟩ := Option.map_eq_some_iff.1 hp
  exact ⟨u, hus u hu, List.Subset.trans (subset_of_afterBlanks? hv) (afterArrayMarks_suffix u).subset⟩

section Forms

variable (w : Outline.Word)

/-- No colon follows the type. -/
theorem typeSuffix?_rest : typeSuffix? (t.rest ++ ' ' :: w.chars) = none := by
  obtain ⟨c, r, hrest, -, hc⟩ := t.exists_rest_append w.chars
  rcases hc with hc | ⟨-, hnil⟩
  · have hsigns : ∀ x ∈ ['<', '['], isBlank x = false ∧ x ≠ ':' := forall_mem_of_all (by decide)
    rw [hrest]
    exact typeSuffix?_eq_none (trimStart_eq_self (hsigns c hc).1) (hsigns c hc).2
  · obtain ⟨d, u, hw⟩ := List.exists_cons_of_ne_nil w.chars_ne_nil
    have htrim : trimStart (' ' :: w.chars) = d :: u := by
      rw [← hw]
      exact trimStart_eq_self w.trimmed.startsBlank_eq
    rw [hnil]
    refine typeSuffix?_eq_none htrim ?_
    rintro rfl
    exact w.not_mem (by decide) (hw ▸ List.mem_cons_self)

/-- With the type in front there is no colon, so the other form is not read. -/
theorem suffixedField?_typeFirst : suffixedField? (t.chars ++ ' ' :: w.chars) = none := by
  obtain ⟨c, r, hrest, hdotted, -⟩ := t.exists_rest_append w.chars
  unfold suffixedField?
  split
  · rfl
  · next name rest hword =>
    obtain ⟨heq, -, hall, hstop⟩ := eq_of_takeSome hword
    rw [chars, List.append_assoc] at heq
    have hnone : typeSuffix? rest = none := by
      rcases List.append_eq_append_iff.1 heq with ⟨zs, rfl, hzs⟩ | ⟨zs, hbase, rfl⟩
      · cases zs with
        | nil =>
          rw [List.nil_append] at hzs
          rw [← hzs]
          exact t.typeSuffix?_rest w
        | cons z zs =>
          obtain rfl : c = z := (List.cons.inj (hrest.symm.trans hzs)).1
          rw [isDotted_of_isWord (hall c (by simp))] at hdotted
          cases hdotted
      · cases zs with
        | nil => exact t.typeSuffix?_rest w
        | cons z zs =>
          have hz := t.isDotted_base z (by simp [hbase])
          refine typeSuffix?_eq_none (trimStart_eq_self (isBlank_eq_false_of_isDotted hz)) ?_
          rintro rfl
          cases hz
    rw [hnone, Option.map_none]

/-- A field with its type in front is read. -/
theorem field?_typeFirst : field? (t.chars ++ ' ' :: w.chars) =
    some { name := w.chars, type := some t.chars } := by
  obtain ⟨xs, ys, hleading, hxs⟩ := t.exists_leadingTypes w.trimmed.startsBlank_eq
  have hnil : xs = [] := by
    refine List.eq_nil_iff_forall_not_mem.2 fun p hp => ?_
    obtain ⟨r, hr, -⟩ := hxs p hp
    rw [restsAfter_eq_nil (w.not_mem (by decide)) (w.not_mem (by decide))] at hr
    cases hr
  rw [field?, t.suffixedField?_typeFirst w, hleading, hnil]
  simp only [List.nil_append, List.findSome?_cons, w.isWordText, if_true, before_append]
  rfl

/-- A call with its type in front is read, as there is no second parenthesis. -/
theorem call?_typeFirst {params : List Char}
    (hp : ∀ c ∈ params, c ∉ ['(', ')', '{', '}', '\n']) :
    call? (t.chars ++ ' ' :: (w.chars ++ '(' :: (params ++ [')']))) =
      some { name := w.chars, params, type := some t.chars } := by
  have hplain := Outline.plainCall?_core (s := []) w (fun h => hp _ h (by decide))
    (fun h => hp _ h (by decide)) (by simp) (by simp) rfl
  have hstart : startsBlank (w.chars ++ '(' :: (params ++ [')'])) = false := by
    obtain ⟨c, u, hw⟩ := List.exists_cons_of_ne_nil w.chars_ne_nil
    rw [hw]
    exact isBlank_eq_false_of_isWord (w.isWord_of_mem c (hw ▸ List.mem_cons_self))
  have hrests : restsAfter '>' (w.chars ++ '(' :: (params ++ [')'])) =
      restsAfter '>' (params ++ [')']) := by
    have hname : ∀ x, isWord x = false → x ≠ '(' → x ∉ w.chars ++ ['('] := by
      intro x hx hparen
      simp [w.not_mem hx, hparen]
    rw [List.append_cons, restsAfter_append (hname _ (by decide) (by decide))
      (hname _ (by decide) (by decide))]
  obtain ⟨xs, ys, hleading, hxs⟩ := t.exists_leadingTypes hstart
  -- behind a bracket among the parameters no parenthesis opens
  have hnone : ∀ p ∈ xs, plainCall? p.2 = none := by
    intro p hmem
    obtain ⟨r, hr, hsub⟩ := hxs p hmem
    rw [hrests] at hr
    refine plainCall?_eq_none fun hparen => ?_
    have h := subset_of_mem_restsAfter (by decide) hr (hsub hparen)
    have hmem : '(' ∈ params := by simpa using h
    exact hp _ hmem (by decide)
  refine (Option.orElse_eq_some _ _ _).2 (.inl (List.findSome?_eq_some_iff.2
    ⟨xs, _, ys, hleading, ?_, fun p hmem => ?_⟩))
  · simp only [hplain, Option.map_some, before_append]
    rfl
  · obtain ⟨a, r⟩ := p
    simp only [hnone (a, r) hmem, Option.map_none]

end Forms

end FrontType

/-! ## Members -/

/-- The parts of a member. With parameters, a text of any form without parentheses, braces and line
feeds, it is a method. -/
structure MemberText where
  name : Outline.Word
  params : Option (List Char)
  type : FrontType
  params_plain : ∀ s ∈ params, ∀ c ∈ s, c ∉ ['(', ')', '{', '}', '\n']

namespace MemberText

variable (m : MemberText)

/-- The name with the parameters. -/
def head : List Char :=
  m.name.chars ++ m.params.elim [] fun s => '(' :: (s ++ [')'])

def core : Parameter.Style → List Char
  | .nameFirst => m.head ++ ':' :: ' ' :: m.type.chars
  | .typeFirst => m.type.chars ++ ' ' :: m.head

def field (visibility : Visibility) (modifiers : Finset Modifier) : Attribute where
  name := m.name.text
  type := some (.read m.type.chars)
  visibility := visibility
  isStatic := .static ∈ modifiers
  isFinal := .final ∈ modifiers

def method (params : List Char) (visibility : Visibility) (modifiers : Finset Modifier) :
    Method where
  name := m.name.text
  returns := some (.read m.type.chars)
  parameters := Parameter.readAll params
  visibility := visibility
  isStatic := .static ∈ modifiers
  isAbstract := .abstract ∈ modifiers

/-- The class with the member at the end of its attributes or methods. -/
def addTo (c : ClassDecl) (visibility : Visibility) (modifiers : Finset Modifier) : ClassDecl :=
  match m.params with
  | none => { c with attributes := c.attributes ++ [m.field visibility modifiers] }
  | some s => { c with methods := c.methods ++ [m.method s visibility modifiers] }

def shape : Shape :=
  match m.params with
  | none => .field m.name.text (some (.read m.type.chars))
  | some s => .call m.name.text (Parameter.readAll s) (some (.read m.type.chars))

/-- Either spelling is a form of the same shape. -/
theorem shape?_core {modifiers : List Modifier} (h : .field ∉ modifiers) (style : Parameter.Style) :
    Declaration.shape? modifiers (m.core style) = some m.shape := by
  have hfeed : '\n' ∉ m.type.chars := m.type.not_mem_chars (by decide)
  have hparen : '(' ∉ m.type.chars := m.type.not_mem_chars (by decide)
  unfold Declaration.shape? core head shape
  simp only [h, if_false]
  cases hparams : m.params with
  | none =>
    cases style with
    | nameFirst =>
      obtain ⟨hcall, hfield⟩ := Outline.field?_core m.name m.type.trimmed_chars hfeed
      simp only [Option.elim_none, List.append_nil, hcall, hfield]
      rfl
    | typeFirst =>
      have hcall : call? (m.type.chars ++ ' ' :: m.name.chars) = none := by
        refine call?_eq_none ?_
        simp [hparen, m.name.not_mem (c := '(') (by decide)]
      simp only [Option.elim_none, List.append_nil, hcall, m.type.field?_typeFirst m.name]
      rfl
  | some s =>
    have hplain := m.params_plain s hparams
    cases style with
    | nameFirst =>
      have hcall := Outline.call?_core m.name (fun h => hplain _ h (by decide))
        (fun h => hplain _ h (by decide)) (s := ':' :: ' ' :: m.type.chars)
        (by simpa using m.type.not_mem_chars (by decide)) (by simpa using hfeed)
        (Outline.typeSuffix?_colon m.type.trimmed_chars hfeed)
      simp only [Option.elim_some, List.append_assoc, List.cons_append, List.nil_append, hcall]
      rfl
    | typeFirst =>
      have hcall := m.type.call?_typeFirst m.name hplain
      simp only [Option.elim_some, hcall]
      rfl

/-- No braces stand before the parameters. -/
theorem head_unbraced : ∀ c ∈ m.head, c ≠ '{' ∧ c ≠ '}' := by
  have hname : ∀ c ∈ m.name.chars, c ≠ '{' ∧ c ≠ '}' := by
    refine fun c hc => ⟨?_, ?_⟩ <;> rintro rfl <;> exact m.name.not_mem (by decide) hc
  refine List.forall_mem_append.2 ⟨hname, ?_⟩
  cases hparams : m.params with
  | none => exact List.forall_mem_nil _
  | some s =>
    have hplain := m.params_plain s hparams
    refine List.forall_mem_cons.2 ⟨by decide, List.forall_mem_append.2 ⟨fun c hc => ⟨?_, ?_⟩, ?_⟩⟩
    · rintro rfl
      exact hplain _ hc (by decide)
    · rintro rfl
      exact hplain _ hc (by decide)
    · exact List.forall_mem_singleton.2 (by decide)

theorem trimmed_head : Trimmed m.head := by
  refine m.name.trimmed.extend fun c hc => ?_
  cases hparams : m.params with
  | none =>
    rw [hparams] at hc
    cases hc
  | some s =>
    rw [hparams, Option.elim_some, ← List.cons_append, List.getLast?_concat] at hc
    cases hc
    decide

theorem getLast?_head : m.head.getLast? ≠ some ';' := by
  unfold head
  cases m.params with
  | none =>
    intro h
    rw [Option.elim_none, List.append_nil] at h
    exact m.name.not_mem (by decide) (List.mem_of_getLast? h)
  | some s =>
    rw [Option.elim_some, ← List.cons_append, ← List.append_assoc, List.getLast?_concat]
    decide

theorem head_ne_nil : m.head ≠ [] :=
  List.append_ne_nil_of_left_ne_nil m.name.chars_ne_nil _

/-- A sign follows the name. -/
theorem exists_core_nameFirst : ∃ c s, m.core .nameFirst = m.name.chars ++ c :: s ∧
    c ∈ [':', '(', '<', '['] := by
  unfold core head
  cases m.params with
  | none => exact ⟨':', ' ' :: m.type.chars, by simp, by decide⟩
  | some s => exact ⟨'(', s ++ ')' :: ':' :: ' ' :: m.type.chars, by simp, by decide⟩

/-- A member has no key words left once its tags are taken. -/
theorem takeKeywords_core (style : Parameter.Style) :
    Declaration.takeKeywords (m.core style) = ([], m.core style) := by
  cases style with
  | nameFirst =>
    obtain ⟨c, s, heq, hc⟩ := m.exists_core_nameFirst
    rw [heq, Outline.takeKeywords_core (m.name.not_mem (by decide)) hc]
  | typeFirst =>
    have hspace : ' ' ∉ m.type.base := fun h => by cases m.type.isDotted_base _ h
    obtain ⟨c, r, hrest, -, hc⟩ := m.type.exists_rest_append m.head
    rw [core, FrontType.chars, List.append_assoc, hrest]
    rcases hc with hc | ⟨rfl, -⟩
    · have hsigns : ∀ x ∈ ['<', '['], x ∈ [':', '(', '<', '['] := forall_mem_of_all (by decide)
      rw [Outline.takeKeywords_core hspace (hsigns c hc)]
    · rw [Outline.takeKeywords_space hspace m.type.ofKeyword?_base]

/-- The core of a member is read behind any sign and any tags. -/
theorem isCore_core (style : Parameter.Style) : Outline.IsCore (m.core style) where
  head := by
    cases style with
    | nameFirst =>
      obtain ⟨c, u, hu⟩ := List.exists_cons_of_ne_nil m.name.chars_ne_nil
      refine ⟨c, by rw [core, head, hu]; rfl, isDotted_of_isWord (m.name.isWord_of_mem c ?_)⟩
      exact hu ▸ List.mem_cons_self
    | typeFirst =>
      obtain ⟨c, hc, hdotted⟩ := m.type.exists_head
      refine ⟨c, ?_, hdotted⟩
      rw [core, List.head?_append, Option.mem_def.1 hc]
      rfl
  trimmed := by
    cases style with
    | nameFirst => simpa [core] using m.trimmed_head.append m.type.trimmed_chars [':', ' ']
    | typeFirst => simpa [core] using m.type.trimmed_chars.append m.trimmed_head [' ']
  unbraced := by
    have htype : ∀ c ∈ m.type.chars, c ≠ '{' ∧ c ≠ '}' := by
      refine fun c hc => ⟨?_, ?_⟩ <;> rintro rfl <;> exact m.type.not_mem_chars (by decide) hc
    cases style with
    | nameFirst => exact List.forall_mem_append.2 ⟨m.head_unbraced, List.forall_mem_cons.2
        ⟨by decide, List.forall_mem_cons.2 ⟨by decide, htype⟩⟩⟩
    | typeFirst => exact List.forall_mem_append.2 ⟨htype, List.forall_mem_cons.2
        ⟨by decide, m.head_unbraced⟩⟩
  last := by
    cases style with
    | nameFirst =>
      obtain ⟨u, c, hu, hc⟩ := m.type.exists_last
      have hlast : (m.core .nameFirst).getLast? = some c := by
        rw [core, hu, ← List.cons_append, ← List.cons_append, ← List.append_assoc,
          List.getLast?_concat]
      rw [hlast, ne_eq, Option.some_inj]
      rintro rfl
      revert hc
      decide
    | typeFirst =>
      have hlast : (m.core .typeFirst).getLast? = m.head.getLast? := by
        rw [core, List.getLast?_append_of_ne_nil _ (List.cons_ne_nil _ _),
          List.getLast?_cons_of_ne_nil m.head_ne_nil]
      rw [hlast]
      exact m.getLast?_head
  takeKeywords_eq := m.takeKeywords_core style

end MemberText

/-- A member is added to its class in the same way however it is spelled : with its type in front or
behind, and with the modifiers `M` written as tags before or after the sign or at the end, or as
keywords after the sign, in any order and any number of times. -/
theorem offer_spelled (c : ClassDecl) (m : MemberText) (style : Parameter.Style)
    {M : Finset Modifier} (hM : M ⊆ {.static, .final, .abstract}) {k : Outline.Marking}
    (hk : ∀ x, x ∈ k.modifiers ↔ x ∈ M) :
    (Entity.cls c).offer (k.line (m.core style)) =
      (true, .cls (m.addTo c (Outline.visibility k.sign) M)) := by
  have hother : ∀ x ∈ [Modifier.field, .classifier, .method], x ∉ k.modifiers := by
    have hnone : ∀ x ∈ [Modifier.field, .classifier, .method],
        x ∉ ({.static, .final, .abstract} : Finset Modifier) := by decide
    exact fun x hx hmem => hnone x hx (hM ((hk x).1 hmem))
  rw [Entity.offer, Outline.Marking.read?_line k (m.isCore_core style),
    m.shape?_core (hother .field (by decide)), Option.map_some]
  have hstatic : (decide (.static ∈ k.modifiers) || decide (.classifier ∈ k.modifiers)) =
      decide (.static ∈ M) := by
    rw [decide_eq_false (hother .classifier (by decide)), Bool.or_false]
    exact decide_eq_decide.2 (hk _)
  have habstract : decide (.abstract ∈ k.modifiers) = decide (.abstract ∈ M) :=
    decide_eq_decide.2 (hk _)
  have hfinal : decide (.final ∈ k.modifiers) = decide (.final ∈ M) :=
    decide_eq_decide.2 (hk _)
  simp only [Entity.attach, ClassDecl.attach, Declaration.constructor?, Declaration.method?,
    Declaration.attribute?, Declaration.method, Declaration.isStatic, Declaration.isAbstract,
    Declaration.isFinal, MemberText.shape, MemberText.addTo, MemberText.field, MemberText.method]
  cases m.params with
  | none =>
    simp only [hother .method (by decide), if_false, hstatic, hfinal]
    rfl
  | some s =>
    simp only [hstatic, habstract]
    rfl

theorem offer_spelled_index : (Entity.cls { name := "Store" }).offer
    ("\x7bstatic\x7d-\x7babstract\x7d abstract static ".toList ++
      "Map<Key, List<Key>>[] index(Set<Key> keys, n: List<Key>) \x7bstatic\x7d".toList) =
    (true, .cls { name := "Store", methods := [{
      name := "index"
      returns := some (.read "Map<Key, List<Key>>[]".toList)
      parameters := Parameter.readAll "Set<Key> keys, n: List<Key>".toList
      visibility := .own
      isStatic := true
      isAbstract := true }] }) := by
  have hindex := offer_spelled { name := "Store" }
    ⟨⟨"index".toList, by decide⟩, some "Set<Key> keys, n: List<Key>".toList,
      ⟨"Map".toList, some "Key, List<Key>".toList, 1, by decide, by decide,
        by rintro s ⟨⟩; exact forall_mem_of_all (by decide)⟩,
      by rintro s ⟨⟩; exact forall_mem_of_all (by decide)⟩
    .typeFirst (M := {.static, .abstract}) (by decide)
    (k := {
      front := [⟨.static, 0⟩]
      sign := some ⟨'-', .own, rfl⟩
      inner := [.tag ⟨.abstract, 1⟩, .keyword ⟨.abstract, 0, by decide⟩,
        .keyword ⟨.static, 0, by decide⟩]
      back := [⟨.static, 1⟩] })
    (fun x => by cases x <;> decide)
  refine (congrArg _ ?_).trans hindex
  decide +kernel

end ClassSketch
