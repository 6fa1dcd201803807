import ClassSketch.Proofs.Outline.Marking
import ClassSketch.Proofs.MemberForm
import ClassSketch.Proofs.ParameterList
import ClassSketch.Source.Cursor

/-!
# Lines of a body

A member line is a sign, tags, and a core : a name with its parameters and its
type. Tags and sign are marks around the core (`memberChars_eq_line`), the core is a
call or a field form (`call?_core`, `field?_core`), and what is declared is what the
line means. So a line of a body adds its member to the entity
(`bodyLine_classLine`, `bodyLine_interfaceLine`, `bodyLine_enumLine`). Only a call
form with the tag `{field}` adds nothing : the tag rules out a method, and the
form is not that of a field.
-/

namespace ClassSketch

open Text

/-! ## Forms -/

namespace Outline

open Member

section Core

variable (w : Word)

/-- No type stands in front of a name that a sign follows. -/
theorem leadingTypes_eq_nil {c : Char} (hc : c = ':' ∨ c = '(') (s : List Char) :
    leadingTypes (w.chars ++ c :: s) = [] := by
  have hname : ∀ x ∈ w.chars, isDotted x = true := fun x hx =>
    isDotted_of_isWord (w.isWord_of_mem x hx)
  unfold leadingTypes
  rcases hc with rfl | rfl
  · rw [Text.takeSome_append w.chars_ne_nil hname rfl]
    rfl
  · rw [Text.takeSome_append w.chars_ne_nil hname rfl]
    rfl

theorem typeSuffix?_colon {t : List Char} (ht : Trimmed t) (hn : '\n' ∉ t) :
    typeSuffix? (':' :: ' ' :: t) = some (some t) := by
  have htrim : trimStart (' ' :: t) = t := trimStart_eq_self ht.startsBlank_eq
  have hempty : t.isEmpty = false := by simpa using ht.ne_nil
  show (if (trimStart (' ' :: t)).isEmpty || decide ('\n' ∈ trimStart (' ' :: t)) then none
    else some (some (trimStart (' ' :: t)))) = _
  rw [htrim, hempty, decide_eq_false hn]
  rfl

/-- A name with a colon and a type is an attribute and no call. -/
theorem field?_core {t : List Char} (ht : Trimmed t) (hn : '\n' ∉ t) :
    call? (w.chars ++ ':' :: ' ' :: t) = none ∧
      field? (w.chars ++ ':' :: ' ' :: t) = some { name := w.chars, type := some t } := by
  constructor
  · rw [call?, leadingTypes_eq_nil w (Or.inl rfl), plainCall?, w.takeSome_append rfl]
    rfl
  · rw [field?, suffixedField?, w.takeSome_append rfl]
    simp only [typeSuffix?_colon ht hn]
    rfl

theorem field?_call (s : List Char) : field? (w.chars ++ '(' :: s) = none := by
  rw [field?, suffixedField?, w.takeSome_append rfl, leadingTypes_eq_nil w (Or.inr rfl)]
  rfl

/-- A name with parameters in parentheses is a call, with its type behind. -/
theorem plainCall?_core {params s : List Char} {type : Option (List Char)} (hp : ')' ∉ params)
    (hpn : '\n' ∉ params) (hs : ')' ∉ s) (hsn : '\n' ∉ s) (htype : typeSuffix? s = some type) :
    plainCall? (w.chars ++ '(' :: (params ++ ')' :: s)) =
      some { name := w.chars, params, type } := by
  have hrests : restsAfter ')' (params ++ ')' :: s) = [s] := by
    rw [restsAfter_append hp hpn, restsAfter, if_neg (by decide), if_pos rfl,
      restsAfter_eq_nil hs hsn]
  rw [plainCall?, w.takeSome_append rfl]
  show (restsAfter ')' (params ++ ')' :: s)).reverse.findSome? _ = _
  rw [hrests]
  simp [htype, before_append]

/-- No form with the type in front comes before it. -/
theorem call?_core {params s : List Char} {type : Option (List Char)} (hp : ')' ∉ params)
    (hpn : '\n' ∉ params) (hs : ')' ∉ s) (hsn : '\n' ∉ s) (htype : typeSuffix? s = some type) :
    call? (w.chars ++ '(' :: (params ++ ')' :: s)) = some { name := w.chars, params, type } := by
  rw [call?, leadingTypes_eq_nil w (Or.inr rfl), plainCall?_core w hp hpn hs hsn htype]
  rfl

/-! ## Parameters -/

theorem whole_parameter (p : ParameterText) : TypeExpr.Whole p.chars := by
  refine .append (.of_forall fun c hc => ?_)
    (.append (.of_forall (a := [':', ' ']) (forall_mem_of_all (by decide)))
      (TypeExpr.whole_chars p.type.isName))
  refine ⟨?_, ?_, ?_⟩ <;> rintro rfl <;> exact p.name.not_mem (by decide) hc

theorem trimmed_parameter (p : ParameterText) : Trimmed p.chars := by
  have h := p.name.trimmed.append p.type.trimmed [':', ' ']
  rwa [List.append_assoc] at h

/-- The parameters of an outline are read one by one. -/
theorem readAll_commaList (ps : List ParameterText) :
    Parameter.readAll (commaList (ps.map ParameterText.chars)) =
      ps.map ParameterText.parameter := by
  have hread : Parameter.read? ∘ ParameterText.chars = some ∘ ParameterText.parameter :=
    funext fun p =>
      Parameter.read?_nameFirst p.type.isName p.name.trimmed (p.name.not_mem (by decide))
  by_cases hps : ps = []
  · rw [hps]
    rfl
  · rw [Parameter.readAll_eq_filterMap, TypeExpr.topLevelParts_commaList
      (List.forall_mem_map.2 fun p _ => whole_parameter p) (by simpa using hps)
      (List.forall_mem_map.2 fun p _ => trimmed_parameter p), List.filterMap_map, hread,
      List.filterMap_eq_map]

end Core

/-! ## Signs and tags -/

/-- The tokens of a member line. -/
def memberTokens (sign : Option Sign) (tags : List Tag) (core : List Char) : List Token :=
  (signChars sign).map .other ++
    (tags.flatMap fun t => .tag t.modifier :: List.replicate t.spaces (.other ' ')) ++
    core.map .other

/-- The text of a member line. -/
def memberChars (sign : Option Sign) (tags : List Tag) (core : List Char) : List Char :=
  signChars sign ++ tags.flatMap Tag.chars ++ core

section Tokens

variable (sign : Option Sign) (tags : List Tag) {core : List Char}

theorem flatMap_chars_memberTokens :
    (memberTokens sign tags core).flatMap Token.chars = memberChars sign tags core := by
  have htag : ∀ t : Tag, (Token.tag t.modifier :: List.replicate t.spaces (.other ' ')).flatMap
      Token.chars = t.chars := by
    intro t
    rw [List.flatMap_cons, Tag.chars, ← List.map_replicate (f := Token.other),
      Source.flatMap_chars_map_other]
    rfl
  rw [memberTokens, memberChars, List.flatMap_append, List.flatMap_append,
    Source.flatMap_chars_map_other, Source.flatMap_chars_map_other, List.flatMap_assoc,
    List.flatMap_congr fun t _ => htag t]

theorem plain_memberTokens (hcore : Ink core) : ∀ t ∈ memberTokens sign tags core, t.Plain := by
  have htags : ∀ t ∈ tags.flatMap (fun t => Token.tag t.modifier ::
      List.replicate t.spaces (.other ' ')), t.Plain := by
    intro t ht
    obtain ⟨g, -, hg⟩ := List.mem_flatMap.1 ht
    rcases List.mem_cons.1 hg with rfl | hspace
    · exact trivial
    · rw [List.eq_of_mem_replicate hspace]
      exact ⟨by decide, by decide⟩
  exact List.forall_mem_append.2 ⟨List.forall_mem_append.2
    ⟨Source.plain_map_other (ink_signChars sign).plain, htags⟩, Source.plain_map_other hcore.plain⟩

end Tokens

/-! ## Declarations -/

/-- A member of an outline is one with its tags behind the sign. -/
theorem memberChars_eq_line (sign : Option Sign) (tags : List Tag) (core : List Char) :
    memberChars sign tags core = Marking.line { sign, inner := tags.map .tag } core := by
  simp [memberChars, Marking.line, List.flatMap_map, Mark.chars]

/-- A name with a colon or a parenthesis behind it is no key word. -/
theorem isCore_word (w : Word) {c : Char} (hc : c = ':' ∨ c = '(') {s : List Char}
    (hcore : Ink (w.chars ++ c :: s)) (ht : Trimmed (w.chars ++ c :: s)) :
    IsCore (w.chars ++ c :: s) where
  head := by
    have hne := w.chars_ne_nil
    refine ⟨w.chars.head hne, ?_, isDotted_of_isWord (w.isWord_of_mem _ (List.head_mem hne))⟩
    rw [List.head?_append, List.head?_eq_some_head hne]
    rfl
  trimmed := ht
  unbraced := hcore.plain
  last h := hcore.not_mem (by decide) (List.mem_of_getLast? h)
  takeKeywords_eq :=
    takeKeywords_core (w.not_mem (by decide)) (by rcases hc with rfl | rfl <;> decide) s

/-- So a member is read by its sign, its tags and its core. -/
theorem read?_memberChars (sign : Option Sign) (tags : List Tag) (w : Word) {c : Char}
    (hc : c = ':' ∨ c = '(') {s : List Char} (hcore : Ink (w.chars ++ c :: s))
    (ht : Trimmed (w.chars ++ c :: s)) :
    Declaration.read? (memberChars sign tags (w.chars ++ c :: s)) =
      (Declaration.shape? (tags.map Tag.modifier) (w.chars ++ c :: s)).map fun shape =>
        { visibility := visibility sign, modifiers := tags.map Tag.modifier, shape } := by
  have hmodifiers : Marking.modifiers { sign, inner := tags.map .tag } = tags.map Tag.modifier := by
    have htags : (tags.map Mark.tag).filterMap Mark.tag? = tags.map Tag.modifier := by
      rw [List.filterMap_map]
      exact congrFun List.filterMap_eq_map tags
    have hkeywords : (tags.map Mark.tag).filterMap Mark.keyword? = [] := by
      rw [List.filterMap_map]
      exact List.filterMap_eq_nil_iff.2 fun _ _ => rfl
    simp [Marking.modifiers, htags, hkeywords]
  rw [memberChars_eq_line, Marking.read?_line _ (isCore_word w hc hcore ht), hmodifiers]

theorem ink_paramChars (ps : List ParameterText) : Ink (paramChars ps) := by
  have hps : Ink (commaList (ps.map ParameterText.chars)) :=
    .commaList (List.forall_mem_map.2 fun p _ =>
      p.name.ink.append (.cons (by decide) (.cons (by decide) p.type.ink)))
  exact .append (.cons (by decide) hps) (.cons (by decide) (List.forall_mem_nil _))

theorem not_mem_commaList_parameters (ps : List ParameterText) {c : Char}
    (hsigns : c ∉ [':', '<', '>', ',', ' ']) (hc : isDotted c = false) :
    c ∉ commaList (ps.map ParameterText.chars) := by
  have hword : isWord c = false := by
    rw [isDotted, Bool.or_eq_false_iff] at hc
    exact hc.1
  have hne : ∀ x ∈ [':', '<', '>', ',', ' '], x ≠ c := fun x hx heq => hsigns (heq ▸ hx)
  refine fun h => forall_mem_commaList (p := fun x => x ≠ c) (hne _ (by simp)) (hne _ (by simp))
    (List.forall_mem_map.2 fun p _ => ?_) c h rfl
  refine List.forall_mem_append.2 ⟨fun x hx heq => p.name.not_mem hword (heq ▸ hx),
    List.forall_mem_cons.2 ⟨hne _ (by simp), List.forall_mem_cons.2 ⟨hne _ (by simp), ?_⟩⟩⟩
  exact fun x hx heq => p.type.not_mem (fun h => hsigns (List.mem_cons_of_mem _ h)) hc (heq ▸ hx)

namespace MemberLine

variable (m : MemberLine)

/-- What follows the name of a member. -/
def rest : List Char :=
  m.params.elim [] paramChars ++ ':' :: ' ' :: m.type.type.chars

theorem chars_eq : m.chars = memberChars m.sign m.tags (m.name.chars ++ m.rest) := by
  rw [chars, memberChars, rest, List.append_assoc m.name.chars]

theorem exists_rest : ∃ c s, m.rest = c :: s ∧ (c = ':' ∨ c = '(') := by
  unfold rest
  cases m.params with
  | none => exact ⟨':', _, rfl, Or.inl rfl⟩
  | some ps => exact ⟨'(', _, rfl, Or.inr rfl⟩

theorem ink_core : Ink (m.name.chars ++ m.rest) := by
  have hparams : Ink (m.params.elim [] paramChars) := by
    cases m.params with
    | none => exact List.forall_mem_nil _
    | some ps => exact ink_paramChars ps
  exact m.name.ink.append (hparams.append (.cons (by decide) (.cons (by decide) m.type.ink)))

theorem trimmed_core : Trimmed (m.name.chars ++ m.rest) := by
  have h := m.name.trimmed.append m.type.trimmed (m.params.elim [] paramChars ++ [':', ' '])
  rw [rest]
  simpa using h

/-- The shape that the core of a member has. -/
def shape : Member.Shape :=
  match m.params with
  | none => .field m.name.text (some m.type.type)
  | some ps => .call m.name.text (ps.map ParameterText.parameter) (some m.type.type)

/-- The core is read to the shape of the member, unless its tags forbid that. -/
theorem shape?_core : Declaration.shape? m.modifiers (m.name.chars ++ m.rest) =
    if m.isRefused then none else some m.shape := by
  have hbreak : '\n' ∉ m.type.type.chars := m.type.ink.not_mem (by decide)
  have hread := TypeExpr.read_chars m.type.isName
  unfold Declaration.shape? shape rest isRefused
  cases hparams : m.params with
  | none =>
    obtain ⟨hcall, hfield⟩ := field?_core m.name m.type.trimmed hbreak
    simp only [Option.elim_none, List.nil_append, hcall, ite_self, hfield, Option.map_some, hread]
    rfl
  | some ps =>
    have hclose : ')' ∉ ':' :: ' ' :: m.type.type.chars := by
      simpa using m.type.not_mem (c := ')') (by decide) (by decide)
    have hcall := call?_core m.name (not_mem_commaList_parameters ps (by decide) (by decide))
      (not_mem_commaList_parameters ps (by decide) (by decide)) hclose (by simpa using hbreak)
      (typeSuffix?_colon m.type.trimmed hbreak)
    have hcore : m.name.chars ++ (paramChars ps ++ ':' :: ' ' :: m.type.type.chars) =
        m.name.chars ++ '(' :: (commaList (ps.map ParameterText.chars) ++
          ')' :: ':' :: ' ' :: m.type.type.chars) := by
      simp [paramChars]
    by_cases hfield : Modifier.field ∈ m.modifiers
    · simp only [Option.elim_some, hcore, hfield, if_true, field?_call, Option.isSome_some,
        Bool.true_and, decide_true, Option.map_none]
    · simp only [Option.elim_some, hcore, hfield, if_false, hcall, readAll_commaList,
        Option.map_some, hread, Option.isSome_some, Bool.true_and, decide_false, Bool.false_eq_true]
      rfl

def declaration : Declaration where
  visibility := visibility m.sign
  modifiers := m.modifiers
  shape := m.shape

/-- A member is read to its declaration, unless its tags forbid that. -/
theorem read?_chars :
    Declaration.read? m.chars = if m.isRefused then none else some m.declaration := by
  obtain ⟨c, s, hrest, hc⟩ := m.exists_rest
  have hcore := m.ink_core
  have htrim := m.trimmed_core
  have hshape := m.shape?_core
  rw [hrest] at hcore htrim hshape
  rw [m.chars_eq, hrest, read?_memberChars m.sign m.tags m.name hc hcore htrim]
  show (Declaration.shape? m.modifiers _).map _ = _
  rw [hshape]
  cases m.isRefused <;> rfl

end MemberLine

section Constructor

variable (owner : Word) (ps : List ParameterText)

theorem chars_constructor (sign : Option Sign) :
    ClassLine.chars owner (.constructor sign ps) =
      memberChars sign [] (owner.chars ++ '(' :: (commaList (ps.map ParameterText.chars) ++ [')'])) := by
  rw [memberChars, List.flatMap_nil, List.append_nil]
  rfl

theorem ink_constructor :
    Ink (owner.chars ++ '(' :: (commaList (ps.map ParameterText.chars) ++ [')'])) :=
  owner.ink.append (ink_paramChars ps)

theorem trimmed_constructor :
    Trimmed (owner.chars ++ '(' :: (commaList (ps.map ParameterText.chars) ++ [')'])) := by
  refine owner.trimmed.extend fun c hc => ?_
  rw [← List.cons_append, List.getLast?_concat] at hc
  obtain rfl := Option.some.inj hc
  decide

/-- A constructor is read as a call without a type. -/
theorem read?_constructor (sign : Option Sign) :
    Declaration.read? (ClassLine.chars owner (.constructor sign ps)) =
      some { visibility := visibility sign, modifiers := [], shape :=
        .call owner.text (ps.map ParameterText.parameter) none } := by
  have hcall := call?_core (s := []) owner (not_mem_commaList_parameters ps (by decide) (by decide))
    (not_mem_commaList_parameters ps (by decide) (by decide)) (by simp) (by simp) rfl
  rw [chars_constructor, read?_memberChars sign [] owner (Or.inr rfl) (ink_constructor owner ps)
    (trimmed_constructor owner ps)]
  simp only [Declaration.shape?, List.map_nil, List.not_mem_nil, if_false, hcall,
    readAll_commaList, Option.map_some, Option.map_none]
  rfl

end Constructor

/-! ## Bodies -/

/-- The class with what one more line of its body declares. -/
def ClassLine.add (owner : Word) (c : ClassDecl) (l : ClassLine) : ClassDecl :=
  { c with
    attributes := c.attributes ++ l.attribute?.toList
    constructors := c.constructors ++ (l.constructor? owner).toList
    methods := c.methods ++ l.method?.toList }

/-- The declaration gives the method that the line spells. -/
theorem method?_declaration {m : MemberLine} (h : m.isRefused = false) :
    m.declaration.method? = if m.isMethod then some m.method else none := by
  unfold MemberLine.declaration Declaration.method? MemberLine.shape MemberLine.isMethod
    MemberLine.method
  rw [h]
  cases m.params with
  | none =>
    by_cases hmethod : Modifier.method ∈ m.modifiers
    · simp only [hmethod, if_true, decide_true, Option.isSome_none, Bool.false_or, Bool.not_false,
        Bool.true_and]
      rfl
    · simp only [hmethod, if_false, decide_false, Option.isSome_none, Bool.or_self, Bool.and_false,
        Bool.false_eq_true]
  | some ps => rfl

/-- Or the attribute. -/
theorem attribute?_declaration {m : MemberLine} (h : m.params = none) :
    m.declaration.attribute? = some m.field := by
  unfold MemberLine.declaration Declaration.attribute? MemberLine.shape
  rw [h]
  rfl

/-- A member with a type is no constructor. -/
theorem constructor?_declaration (m : MemberLine) (owner : String) :
    m.declaration.constructor? owner = none := by
  unfold MemberLine.declaration Declaration.constructor? MemberLine.shape
  cases m.params <;> rfl

/-- A class takes a line as far as it can hold what the line declares. -/
theorem bodyLine_cls (c : ClassDecl) {text : List Char} {d : Declaration}
    (h : Declaration.read? text = some d) : Source.Reader.bodyLine (.cls c) text =
      (if (c.attach d).1 then none else some .member, .cls (c.attach d).2) := by
  unfold Source.Reader.bodyLine Entity.offer
  rw [h]
  rfl

theorem bodyLine_interface (i : InterfaceDecl) {text : List Char} {d : Declaration}
    (h : Declaration.read? text = some d) : Source.Reader.bodyLine (.interface i) text =
      (if (i.attach d).1 then none else some .member, .interface (i.attach d).2) := by
  unfold Source.Reader.bodyLine Entity.offer
  rw [h]
  rfl

theorem bodyLine_member (owner : Word) (c : ClassDecl) (m : MemberLine) :
    Source.Reader.bodyLine (.cls c) m.chars =
      if m.isRefused then (some .member, .cls c)
      else (none, .cls (ClassLine.add owner c (.member m))) := by
  have hread := m.read?_chars
  cases hrefused : m.isRefused with
  | true =>
    rw [hrefused, if_pos rfl] at hread
    unfold Source.Reader.bodyLine Entity.offer
    rw [hread]
    rfl
  | false =>
    rw [hrefused, if_neg Bool.false_ne_true] at hread
    rw [if_neg Bool.false_ne_true, bodyLine_cls c hread, ClassDecl.attach, constructor?_declaration,
      method?_declaration hrefused]
    cases hm : m.isMethod with
    | true =>
      simp [ClassLine.add, ClassLine.attribute?, ClassLine.method?, ClassLine.constructor?,
        MemberLine.isField, hm]
    | false =>
      have hparams : m.params = none := by
        rw [MemberLine.isMethod, hrefused, Bool.not_false, Bool.true_and, Bool.or_eq_false_iff] at hm
        simpa using hm.1
      simp [ClassLine.add, ClassLine.attribute?, ClassLine.method?, ClassLine.constructor?,
        MemberLine.isField, hm, hrefused, attribute?_declaration hparams]

/-- A line of a class adds its member or is skipped. -/
theorem bodyLine_classLine {owner : Word} {c : ClassDecl} (hname : c.name = owner.text)
    (l : ClassLine) : Source.Reader.bodyLine (.cls c) (l.chars owner) =
      if l.isRefused then (some .member, .cls c) else (none, .cls (l.add owner c)) := by
  cases l with
  | member m => exact bodyLine_member owner c m
  | constructor sign ps =>
    rw [bodyLine_cls c (read?_constructor _ _ _), ClassDecl.attach]
    simp [ClassLine.add, ClassLine.attribute?, ClassLine.method?, ClassLine.constructor?,
      ClassLine.isRefused, Declaration.constructor?, hname]

/-- A refused line leaves its class as it is. -/
theorem add_of_isRefused {l : ClassLine} (h : l.isRefused = true) (owner : Word) (c : ClassDecl) :
    l.add owner c = c := by
  cases l with
  | member m =>
    have hrefused : m.isRefused = true := h
    simp [ClassLine.add, ClassLine.attribute?, ClassLine.method?, ClassLine.constructor?,
      MemberLine.isField, MemberLine.isMethod, hrefused]
  | constructor => cases h

/-- A line of an interface adds its method. -/
theorem bodyLine_interfaceLine (i : InterfaceDecl) (m : InterfaceLine) :
    Source.Reader.bodyLine (.interface i) m.1.chars =
      (none, .interface { i with methods := i.methods ++ [m.1.method] }) := by
  have hrefused : m.1.isRefused = false := by
    have hmethod := m.2
    rw [MemberLine.isMethod, Bool.and_eq_true] at hmethod
    simpa using hmethod.1
  have hread := m.1.read?_chars
  rw [hrefused, if_neg Bool.false_ne_true] at hread
  rw [bodyLine_interface i hread, InterfaceDecl.attach, method?_declaration hrefused, if_pos m.2]
  rfl

/-- The values on a line are told apart by commas. -/
theorem commaParts_enumLine (l : EnumLine) : commaParts l.chars = l.words.map Word.chars := by
  have hparts : commaParts (commaList (l.words.map Word.chars)) = l.words.map Word.chars :=
    commaParts_commaList (List.forall_mem_map.2 fun w _ => ⟨w.not_mem (by decide), w.trimmed⟩)
  rw [EnumLine.chars]
  cases l.comma with
  | false => rw [if_neg Bool.false_ne_true, List.append_nil, hparts]
  | true =>
    rw [if_pos rfl, commaParts_append, hparts]
    exact List.append_nil _

theorem trimmed_words (l : EnumLine) : Trimmed (commaList (l.words.map Word.chars)) :=
  trimmed_commaList (by simp [EnumLine.words]) (List.forall_mem_map.2 fun w _ => w.trimmed)

theorem ink_enumLine (l : EnumLine) : Ink l.chars := by
  refine .append (.commaList (List.forall_mem_map.2 fun w _ => w.ink)) ?_
  split
  · exact .cons (by decide) (List.forall_mem_nil _)
  · exact List.forall_mem_nil _

theorem exists_enumLine (l : EnumLine) :
    ∃ s, l.chars = l.first.chars ++ s ∧ s.head?.any isWord = false ∧ startsBlank s = false := by
  have hcomma : (if l.comma then [','] else [] : List Char).head?.any isWord = false ∧
      startsBlank (if l.comma then [','] else []) = false := by
    cases l.comma <;> exact ⟨rfl, rfl⟩
  cases hmore : l.more with
  | nil =>
    refine ⟨_, ?_, hcomma⟩
    rw [EnumLine.chars, EnumLine.words, hmore, List.map_singleton, commaList_singleton]
  | cons w ws =>
    refine ⟨',' :: ' ' :: (commaList ((w :: ws).map Word.chars) ++ if l.comma then [','] else []), ?_,
      rfl, rfl⟩
    rw [EnumLine.chars, EnumLine.words, hmore, List.map_cons, List.map_cons, commaList_cons_cons,
      List.append_assoc]
    rfl

/-- A line of an enumeration adds its values. -/
theorem bodyLine_enumLine (en : EnumDecl) (l : EnumLine) :
    Source.Reader.bodyLine (.enum en) l.chars =
      (none, .enum { en with values := en.values ++ l.words.map Word.text }) := by
  obtain ⟨s, hs, -, -⟩ := exists_enumLine l
  have hsign : l.chars.head?.any (fun c => (Visibility.ofSign? c).isSome) = false := by
    obtain ⟨c, cs, hc⟩ := List.exists_cons_of_ne_nil l.first.chars_ne_nil
    have hword : isWord c = true := l.first.isWord_of_mem c (by rw [hc]; exact List.mem_cons_self)
    rw [hs, hc, List.cons_append, List.head?_cons, Option.any_some,
      ofSign?_eq_none (isDotted_of_isWord hword)]
    rfl
  have htags : Declaration.tags l.chars = [] := (Strips.plain (ink_enumLine l).plain).tags_eq
  have hparen : '(' ∉ l.chars := by
    intro h
    rcases List.mem_append.1 h with h | h
    · refine forall_mem_commaList (p := fun x => x ≠ '(') (by decide) (by decide)
        (List.forall_mem_map.2 fun w _ x hx heq => ?_) _ h rfl
      exact w.not_mem (by decide) (heq ▸ hx)
    · cases l.comma <;> simp at h
  have hwords : (commaParts l.chars).all isWordText = true := by
    rw [commaParts_enumLine, List.all_map]
    exact List.all_eq_true.2 fun w _ => w.isWordText
  have hnonempty : (commaParts l.chars).isEmpty = false := by
    rw [commaParts_enumLine]
    rfl
  have hvalues : Source.Reader.enumValues l.chars = .ok (l.words.map Word.text) := by
    rw [Source.Reader.enumValues, hsign, htags, decide_eq_false hparen, hwords, hnonempty,
      commaParts_enumLine, List.map_map]
    rfl
  unfold Source.Reader.bodyLine
  rw [hvalues]

end Outline

end ClassSketch
