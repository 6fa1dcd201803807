import ClassSketch.Proofs.Outline.Clause
import ClassSketch.Proofs.Rules

/-!
# Headers of an outline

A line that does not start with a reserved word and a blank is no header
(`noHeader`). The line of a package and the line of an entry are headers : they
are read as the package that is opened and as the keyword, the name, the type
parameters and the clauses of the entry (`read?_packageLine`, `read?_headerLine`).
-/

namespace ClassSketch

open Text

namespace Source

open Outline

/-! ## Lines that are no headers -/

section NoHeader

variable {w s : List Char} (hw : ∀ c ∈ w, isWord c = true) (hs : s.head?.any isWord = false)

include hw hs

theorem keyword_eq_none_of_reserved {k : List Char} (hk : k ∈ reserved)
    (h : w ≠ k ∨ startsBlank s = false) : (after? k (w ++ s)).bind afterBlanks? = none :=
  keyword_eq_none (isWord_of_mem_reserved k hk) hw hs h

/-- A line that starts with another word is no header of a package. -/
theorem PackageHeader.read?_eq_none
    (h : w ∉ ["package".toList, "namespace".toList] ∨ startsBlank s = false) :
    PackageHeader.read? (w ++ s) = none := by
  have hpackage := keyword_eq_none_of_reserved hw hs (k := "package".toList) (by decide)
    (h.imp_left fun hr heq => hr (by simp [heq]))
  have hnamespace := keyword_eq_none_of_reserved hw hs (k := "namespace".toList) (by decide)
    (h.imp_left fun hr heq => hr (by simp [heq]))
  have hor : (after? "package".toList (w ++ s) <|> after? "namespace".toList (w ++ s)).bind
      afterBlanks? = none := by
    cases hfirst : after? "package".toList (w ++ s) with
    | none => exact hnamespace
    | some t =>
      rw [hfirst] at hpackage
      exact hpackage
  rw [PackageHeader.read?, hor]
  rfl

/-- A line that starts with no reserved word is no header of an entity. -/
theorem EntityHeader.read?_eq_none (h : w ∉ reserved ∨ startsBlank s = false) :
    EntityHeader.read? (w ++ s) = none := by
  have hkeyword : ∀ k ∈ reserved, (after? k (w ++ s)).bind afterBlanks? = none := fun k hk =>
    keyword_eq_none_of_reserved hw hs hk (h.imp_left fun hr heq => hr (heq ▸ hk))
  unfold EntityHeader.read? EntityHeader.keywordAndWord?
  rw [hkeyword "abstract".toList (by decide), hkeyword "class".toList (by decide),
    hkeyword "interface".toList (by decide), hkeyword "enum".toList (by decide)]
  rfl

/-- A line that does not start with a reserved word and a blank is no header. -/
theorem noHeader (r : Reader) (h : w ∉ reserved ∨ startsBlank s = false) :
    r.NoHeader (w ++ s) := by
  have hsublist : ["package".toList, "namespace".toList].Sublist reserved := by decide
  refine ⟨PackageHeader.read?_eq_none hw hs (h.imp_left fun hr hmem => hr (hsublist.mem hmem)), ?_⟩
  simp only [Reader.header?, EntityHeader.read?_eq_none hw hs h, Option.filter_none]

end NoHeader

/-- Nor is a line that does not start with a word. -/
theorem noHeader_cons {c : Char} (hc : isWord c = false) (s : List Char) (r : Reader) :
    r.NoHeader (c :: s) :=
  noHeader (w := []) (List.forall_mem_nil _) (by simpa using hc) r (Or.inl (by decide))

/-! ## Packages -/

/-- The line of a package is read to its name. -/
theorem PackageHeader.read?_packageLine (name : PackageName) :
    PackageHeader.read? (packageLine name) = some { name := name.chars, opens := true } := by
  have hquote : '"' ∉ name.chars := fun h => (name.plain _ h).1 rfl
  obtain ⟨c, cs, hc⟩ := List.exists_cons_of_ne_nil name.trimmed.ne_nil
  have hname : PackageHeader.name? ('"' :: (name.chars ++ ['"', ' ', '{'])) =
      some (name.chars, [' ', '{']) := by
    simp only [PackageHeader.name?, cutAt_append hquote]
    rw [hc]
  have hblanks : afterBlanks? (' ' :: '"' :: (name.chars ++ ['"', ' ', '{'])) =
      some ('"' :: (name.chars ++ ['"', ' ', '{'])) := rfl
  have hrest : trimStart (dropStereotype (dropAlias [' ', '{'])) = ['{'] := by decide
  have hkeyword : after? "package".toList (packageLine name) =
      some (' ' :: '"' :: (name.chars ++ ['"', ' ', '{'])) := after?_append packageKeyword _
  rw [PackageHeader.read?, hkeyword]
  simp only [Option.orElse_eq_orElse, Option.orElse_eq_or, Option.some_or, Option.bind_some,
    hblanks, hname, hrest, name.trimmed.trim_eq]

/-- It is a line that cleaning leaves as it is. -/
theorem isLine_packageLine (name : PackageName) : IsLine (packageLine name) := by
  have hquote : '"' ∉ name.chars := fun h => (name.plain _ h).1 rfl
  have hline : packageLine name =
      packageKeyword ++ [' ', '"'] ++ name.chars ++ ['"', ' '] ++ ['{'] := by
    simp [packageLine]
  have hplain : ∀ c ∈ packageKeyword ++ [' ', '"'] ++ name.chars ++ ['"', ' '],
      c ≠ '{' ∧ c ≠ '}' := by
    simp only [List.forall_mem_append]
    exact ⟨⟨⟨forall_mem_of_all (by decide), forall_mem_of_all (by decide)⟩, fun c hc =>
      ⟨(name.plain c hc).2.1, (name.plain c hc).2.2.1⟩⟩, forall_mem_of_all (by decide)⟩
  have htrim : Trimmed (packageLine name) := by
    rw [packageLine, ← List.cons_append, ← List.cons_append, ← List.append_assoc]
    have hkeyword : Trimmed packageKeyword :=
      .of_forall (by decide) (forall_mem_of_all (by decide))
    exact hkeyword.append (b := ['"', ' ', '{']) ⟨⟨'"', rfl, by decide⟩, ⟨'{', rfl, by decide⟩⟩ _
  refine ⟨htrim, ?_, ?_, ?_, ?_, ?_⟩
  · rw [hline]
    simp only [List.mem_append, not_or]
    exact ⟨⟨⟨⟨by decide, by decide⟩, fun h => (name.plain _ h).2.2.2.1 rfl⟩, by decide⟩, by decide⟩
  · rw [hline]
    simp only [List.forall_mem_append]
    exact ⟨⟨⟨⟨forall_mem_of_all (by decide), forall_mem_of_all (by decide)⟩, fun c hc =>
      (name.plain c hc).2.2.2.2⟩, forall_mem_of_all (by decide)⟩, forall_mem_of_all (by decide)⟩
  · rw [packageLine, dropLineComment_append (by decide) (by decide)]
    show _ ++ ' ' :: '"' :: dropLineComment true (name.chars ++ ['"', ' ', '{']) = _
    rw [dropLineComment_quoted hquote]
    rfl
  · exact IsLine.head?_ne_of_ink (s := packageKeyword)
      (.of_word (forall_mem_of_all (by decide))) _ (by decide)
  · have hsplit := splitBraces_opening (plain_map_other hplain)
      (by rwa [flatMap_chars_map_other, ← hline])
    rwa [flatMap_chars_map_other, ← hline] at hsplit

end Source

namespace Outline

open Source EntityHeader

/-! ## Entities -/

theorem genericChars_eq (gs : List Word) : genericChars gs = parameterText (gs.map Word.chars) := by
  rw [genericChars, parameterText, List.isEmpty_map]

theorem not_mem_generics (gs : List Word) : '>' ∉ commaList (gs.map Word.chars) := by
  refine fun h => forall_mem_commaList (p := fun c => c ≠ '>') (by decide) (by decide) ?_ _ h rfl
  refine List.forall_mem_map.2 fun w _ c hc => ?_
  rintro rfl
  exact w.not_mem (by decide) hc

/-- A key word and the word behind it are read up to the end of the word. -/
theorem keywordAndWord?_append {k : List Char} (w : Word) {s : List Char}
    (hs : s.head?.any isWord = false) :
    keywordAndWord? k (k ++ ' ' :: (w.chars ++ s)) = some (w.chars, s) := by
  have hblanks : afterBlanks? (' ' :: (w.chars ++ s)) = some (w.chars ++ s) := by
    show some (trimStart _) = _
    exact congrArg some (w.trimmed.trimStart_append s)
  rw [keywordAndWord?, after?_append, Option.bind_some, hblanks, Option.bind_some,
    w.takeSome_append hs]

/-- A keyword is not found in front of a line that starts with another one. -/
theorem keywordAndWord?_eq_none {k w s : List Char} (hk : k ∈ reserved) (hw : w ∈ reserved)
    (hne : w ≠ k) : keywordAndWord? k (w ++ ' ' :: s) = none := by
  rw [keywordAndWord?, keyword_eq_none_of_reserved (isWord_of_mem_reserved w hw) rfl hk (Or.inl hne)]
  rfl

namespace Entry

def kind : Entry → Kind
  | cls .. => .cls
  | interface .. => .interface
  | enum .. => .enum

def isAbstract : Entry → Bool
  | cls isAbstract .. => isAbstract
  | _ => false

end Entry

theorem head?_generics_tail (e : Entry) :
    (genericChars e.generics ++ e.tail).head?.any isWord = false := by
  rw [genericChars_eq, tail_eq]
  exact head?_parameterText_append _ (head?_clauses ..)

section Read

variable (w : Word) {s : List Char} (hs : s.head?.any isWord = false)

include hs

/-- A header whose kind is written out, if it is not abstract. -/
theorem read?_keyword {k : List Char} {c : Kind}
    (hk : (k, c) ∈ [("class".toList, Kind.cls), ("interface".toList, Kind.interface),
      ("enum".toList, Kind.enum)]) :
    EntityHeader.read? (k ++ ' ' :: (w.chars ++ s)) =
      some (EntityHeader.build c false true (w.chars, s)) := by
  have habstract : ∀ k' ∈ reserved, k' ≠ "abstract".toList →
      (after? "abstract".toList (k' ++ ' ' :: (w.chars ++ s))).bind afterBlanks? = none :=
    fun k' hk' hne => keyword_eq_none_of_reserved (isWord_of_mem_reserved k' hk') rfl (by decide)
      (Or.inl hne)
  unfold EntityHeader.read?
  simp only [List.mem_cons, List.not_mem_nil, or_false, Prod.mk.injEq] at hk
  rcases hk with ⟨rfl, rfl⟩ | ⟨rfl, rfl⟩ | ⟨rfl, rfl⟩
  · rw [habstract _ (by decide) (by decide), keywordAndWord?_append w hs]
    rfl
  · rw [habstract _ (by decide) (by decide), keywordAndWord?_append w hs,
      keywordAndWord?_eq_none (k := "class".toList) (by decide) (by decide) (by decide)]
    rfl
  · rw [habstract _ (by decide) (by decide), keywordAndWord?_append w hs,
      keywordAndWord?_eq_none (k := "class".toList) (by decide) (by decide) (by decide),
      keywordAndWord?_eq_none (k := "interface".toList) (by decide) (by decide) (by decide)]
    rfl

/-- An abstract class is told from a class that has this word for its name. -/
theorem read?_abstract :
    EntityHeader.read? ("abstract class".toList ++ ' ' :: (w.chars ++ s)) =
      some (EntityHeader.build .cls true true (w.chars, s)) := by
  have hkeyword : "abstract class".toList ++ ' ' :: (w.chars ++ s) =
      "abstract".toList ++ ' ' :: ("class".toList ++ ' ' :: (w.chars ++ s)) := rfl
  have hblanks : afterBlanks? (' ' :: ("class".toList ++ ' ' :: (w.chars ++ s))) =
      some ("class".toList ++ ' ' :: (w.chars ++ s)) :=
    congrArg some ((Trimmed.of_forall (s := "class".toList) (by decide)
      (forall_mem_of_all (by decide))).trimStart_append _)
  unfold EntityHeader.read?
  rw [hkeyword, after?_append, Option.bind_some, hblanks, Option.bind_some, abstract?,
    keywordAndWord?_append w hs]
  rfl

end Read

/-- The header that is read from the line of an entry. -/
def Entry.header (e : Entry) : EntityHeader :=
  EntityHeader.build e.kind e.isAbstract true (e.name.chars, genericChars e.generics ++ e.tail)

/-- The header of an entry is read to its name, generics and clauses. -/
theorem read?_headerLine (e : Entry) : EntityHeader.read? e.headerLine = some e.header := by
  have hs := head?_generics_tail e
  cases e with
  | cls isAbstract name generics parents interfaces body =>
    cases isAbstract with
    | false => exact read?_keyword name hs (k := "class".toList) (c := .cls) (by simp)
    | true => exact read?_abstract name hs
  | interface name generics parents body =>
    exact read?_keyword name hs (k := "interface".toList) (c := .interface) (by simp)
  | enum name body => exact read?_keyword name hs (k := "enum".toList) (c := .enum) (by simp)

/-- The entity of a header before its body is read. -/
def Entry.declared (package : Option String) : Entry → Entity
  | cls isAbstract name generics .. => .cls {
      name := name.text
      isAbstract
      package
      generics := generics.map Word.text }
  | interface name generics .. => .interface {
      name := name.text
      package
      generics := generics.map Word.text }
  | enum name _ => .enum { name := name.text, package }

/-- From it comes the entity that the entry declares. -/
theorem entity_header (e : Entry) (package : Option String) :
    e.header.entity package = e.declared package := by
  have hgenerics : e.header.generics.map String.ofList = e.generics.map Word.text := by
    have hparts : ∀ a ∈ e.generics.map Word.chars, ',' ∉ a ∧ Trimmed a :=
      List.forall_mem_map.2 fun w _ => ⟨w.not_mem (by decide), w.trimmed⟩
    show (commaParts (takeGenerics (genericChars e.generics ++ e.tail)).1).map _ = _
    rw [genericChars_eq,
      (takeGenerics_parameterText (not_mem_generics e.generics) (head?_trimStart_tail e)).1,
      commaParts_commaList hparts, List.map_map]
    rfl
  unfold EntityHeader.entity
  rw [hgenerics]
  cases e <;> rfl

/-- And the relationships of its clauses. -/
theorem relationships_header (e : Entry) : e.header.relationships = e.relationships := by
  obtain ⟨hparents, hinterfaces⟩ := clauseNames_tail e
  have hnames : ∀ k ∈ clauseWords, clauseNames k e.header.rest = clauseNames k e.tail := by
    intro k hk
    show clauseNames k (takeGenerics (genericChars e.generics ++ e.tail)).2 = _
    rw [genericChars_eq,
      clauseNames_parameterText (not_mem_generics e.generics) (head?_trimStart_tail e) hk]
  unfold EntityHeader.relationships
  rw [hnames _ (by decide), hnames _ (by decide), hparents, hinterfaces]
  cases e with
  | cls isAbstract name generics parents interfaces body =>
    show (parents.map _).map _ ++ (interfaces.map _).map _ = _
    rw [List.map_map, List.map_map]
    rfl
  | interface name generics parents body =>
    show (parents.map _).map _ ++ [] = _
    rw [List.map_map]
    rfl
  | enum name body => rfl

/-! ### The line of a header -/

theorem ink_clauseChars {k : List Char} (hk : k ∈ reserved) (rs : List Reference) :
    Ink (clauseChars k rs) := by
  by_cases hrs : rs = []
  · rw [hrs]
    exact List.forall_mem_nil _
  · rw [clauseChars_of_ne_nil k hrs]
    have hlist : Ink (commaList ((rs.map Reference.toDotted).map Dotted.chars)) :=
      .commaList (List.forall_mem_map.2 fun d _ => d.ink)
    exact .append (.cons (by decide) (.of_word (isWord_of_mem_reserved k hk)))
      (.cons (by decide) hlist)

theorem isBlank_getLast?_clauseChars (k : List Char) (rs : List Reference) :
    ∀ c ∈ (clauseChars k rs).getLast?, isBlank c = false := by
  by_cases hrs : rs = []
  · rw [hrs]
    nofun
  · have htrim : Trimmed (commaList ((rs.map Reference.toDotted).map Dotted.chars)) :=
      trimmed_commaList (by simpa using hrs) (List.forall_mem_map.2 fun d _ => d.trimmed)
    obtain ⟨x, hx, -⟩ := htrim.last
    intro c hc
    rw [clauseChars_of_ne_nil k hrs, List.getLast?_append, List.getLast?_cons,
      Option.mem_def.1 hx] at hc
    exact htrim.isBlank_getLast? c (by rw [Option.mem_def.1 hx]; exact hc)

theorem ink_genericChars (gs : List Word) : Ink (genericChars gs) := by
  unfold genericChars
  split
  · exact List.forall_mem_nil _
  · have hlist : Ink (commaList (gs.map Word.chars)) :=
      .commaList (List.forall_mem_map.2 fun w _ => w.ink)
    exact .append (.cons (by decide) hlist) (.cons (by decide) (List.forall_mem_nil _))

theorem isBlank_getLast?_genericChars (gs : List Word) :
    ∀ c ∈ (genericChars gs).getLast?, isBlank c = false := by
  unfold genericChars
  split
  · nofun
  · intro c hc
    rw [List.getLast?_concat] at hc
    obtain rfl := Option.some.inj hc
    decide

/-- The line of a header up to the brace that opens its body. -/
def Entry.heading (e : Entry) : List Char :=
  e.keyword ++ ' ' :: e.name.chars ++ genericChars e.generics ++
    clauseChars "extends".toList e.parents ++ clauseChars "implements".toList e.interfaces

/-- A header is a heading with the brace of a body behind it. -/
theorem headerLine_eq (e : Entry) : e.headerLine = e.heading ++ opening e.body?.isSome := by
  simp [Entry.headerLine, Entry.tail, Entry.heading, opening]

theorem ink_keyword (e : Entry) : Ink e.keyword ∧ Trimmed e.keyword := by
  have habstract : Ink "abstract class".toList ∧ Trimmed "abstract class".toList :=
    ⟨forall_mem_of_all (by decide), ⟨⟨'a', by decide, by decide⟩, ⟨'s', by decide, by decide⟩⟩⟩
  have hword : ∀ k ∈ reserved, Ink k ∧ Trimmed k := fun k hk =>
    ⟨.of_word (isWord_of_mem_reserved k hk), .of_forall (fun h => absurd (h ▸ hk) (by decide))
      fun c hc => isBlank_eq_false_of_isWord (isWord_of_mem_reserved k hk c hc)⟩
  cases e with
  | cls isAbstract name generics parents interfaces body =>
    cases isAbstract with
    | false => exact hword "class".toList (by decide)
    | true => exact habstract
  | interface name generics parents body => exact hword "interface".toList (by decide)
  | enum name body => exact hword "enum".toList (by decide)

theorem ink_heading (e : Entry) : Ink e.heading :=
  (((ink_keyword e).1.append (.cons (by decide) e.name.ink)).append
    (ink_genericChars e.generics)).append (ink_clauseChars (by decide) e.parents) |>.append
      (ink_clauseChars (by decide) e.interfaces)

theorem trimmed_heading (e : Entry) : Trimmed e.heading := by
  have hname : Trimmed (e.keyword ++ ' ' :: e.name.chars) := by
    have h := (ink_keyword e).2.append e.name.trimmed [' ']
    rwa [List.append_assoc] at h
  exact ((hname.extend (isBlank_getLast?_genericChars e.generics)).extend
    (isBlank_getLast?_clauseChars _ e.parents)).extend (isBlank_getLast?_clauseChars _ e.interfaces)

/-- A header is a line that cleaning leaves as it is. -/
theorem isLine_headerLine (e : Entry) : IsLine e.headerLine := by
  rw [headerLine_eq]
  cases e.body?.isSome with
  | false =>
    show IsLine (e.heading ++ [])
    rw [List.append_nil]
    exact .of_ink (ink_heading e) (trimmed_heading e)
  | true =>
    have happend : e.heading ++ [' ', '{'] = (e.heading ++ [' ']) ++ ['{'] := by simp
    show IsLine (e.heading ++ [' ', '{'])
    rw [happend]
    refine .of_ink_opening ((ink_heading e).append (.cons (by decide) (List.forall_mem_nil _)))
      (by simp) ?_
    exact (trimmed_heading e).append (.singleton (by decide)) [' ']

/-- The line of a header ends with a brace exactly if there is a body. -/
theorem getLast?_headerLine (e : Entry) :
    e.headerLine.getLast? = some '{' ↔ e.body?.isSome = true := by
  rw [headerLine_eq]
  cases e.body?.isSome with
  | false =>
    show (e.heading ++ []).getLast? = some '{' ↔ _
    rw [List.append_nil]
    refine ⟨fun hlast => ?_, nofun⟩
    exact absurd (List.mem_of_getLast? hlast) ((ink_heading e).not_mem (by decide))
  | true =>
    show (e.heading ++ [' ', '{']).getLast? = some '{' ↔ _
    rw [List.getLast?_append]
    simp

/-- No package starts with the keyword of an entity. -/
theorem packageHeader?_keyword {k : List Char} (hk : k ∈ reserved)
    (hne : k ∉ ["package".toList, "namespace".toList]) (s : List Char) :
    PackageHeader.read? (k ++ ' ' :: s) = none :=
  PackageHeader.read?_eq_none (isWord_of_mem_reserved k hk) rfl (Or.inl hne)

/-- It is no header of a package. -/
theorem packageHeader?_headerLine (e : Entry) : PackageHeader.read? e.headerLine = none := by
  cases e with
  | cls isAbstract name generics parents interfaces body =>
    cases isAbstract with
    | false => exact packageHeader?_keyword (k := "class".toList) (by decide) (by decide) _
    | true => exact packageHeader?_keyword (k := "abstract".toList) (by decide) (by decide) _
  | interface name generics parents body =>
    exact packageHeader?_keyword (k := "interface".toList) (by decide) (by decide) _
  | enum name body => exact packageHeader?_keyword (k := "enum".toList) (by decide) (by decide) _

end Outline

end ClassSketch
