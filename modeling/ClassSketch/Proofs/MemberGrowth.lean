import ClassSketch.Proofs.Declarations.Reading
import ClassSketch.Proofs.Outline.Name

/-!
# What a member line adds

An entity either takes a member line, and then exactly one of its lists has one element more
at its end, or it stays as it is (`Entity.Gains`, `offer_gains`). A class takes every line that
declares something, an interface the ones that declare a method, and an enum none.

Which list of a class grows is decided by the text. It is that of the constructors exactly
for a call form without a type under the name of the class. This is a form of the whole text,
a word and one pair of parentheses around all that follows it (`BareCall`) : the reading
prefers types in front and closing parentheses further back, but neither leads to a type here
(`call?_eq_some_iff_bareCall`).
-/

namespace ClassSketch

open Text Member

/-- The lists of members of an entity. -/
inductive MemberKind where
  | constructor
  | method
  | attribute
deriving DecidableEq

/-! ## Call forms without a type -/

namespace Member

/-- A word and parameters in parentheses, and no type before or after them. -/
structure BareCall (name params s : List Char) : Prop where
  word : isWordText name = true
  oneLine : '\n' ∉ params
  spelled : ∃ bs cs, (∀ c ∈ bs, isBlank c = true) ∧ (∀ c ∈ cs, isBlank c = true) ∧
    s = name ++ (bs ++ '(' :: (params ++ ')' :: cs))

theorem typeSuffix?_eq_some_none_iff {s : List Char} :
    typeSuffix? s = some none ↔ ∀ c ∈ s, isBlank c = true := by
  have hnil : trimStart s = [] ↔ ∀ c ∈ s, isBlank c = true := List.dropWhile_eq_nil_iff
  rw [← hnil]
  unfold typeSuffix?
  split
  · next h => simp [h]
  · next t h =>
    rw [h]
    split <;> simp
  · next h _ => simpa using h

/-- The last closing parenthesis is the one with only blanks behind it. -/
theorem restsAfter_of_blanks {params cs : List Char} (hparams : '\n' ∉ params)
    (hcs : ∀ c ∈ cs, isBlank c = true) :
    ∃ xs, restsAfter ')' (params ++ ')' :: cs) = xs ++ [cs] := by
  have hnone : restsAfter ')' cs = [] := by
    refine List.eq_nil_iff_forall_not_mem.2 fun r hr => ?_
    obtain ⟨a, rfl, -⟩ := (mem_restsAfter (by decide)).1 hr
    exact absurd (hcs ')' (by simp)) (by decide)
  obtain ⟨xs, hxs⟩ := exists_restsAfter (c := ')') (by decide) hparams cs
  exact ⟨xs, by rw [hxs, hnone]⟩

namespace BareCall

variable {name params s : List Char}

/-- The name ends before a blank or a parenthesis. -/
theorem exists_head {bs t : List Char} (hbs : ∀ c ∈ bs, isBlank c = true) :
    ∃ c u, bs ++ '(' :: t = c :: u ∧ isDotted c = false ∧ c ≠ '<' ∧ c ≠ '[' := by
  cases bs with
  | nil => exact ⟨'(', t, rfl, by decide⟩
  | cons b bs =>
    have hb := hbs b List.mem_cons_self
    refine ⟨b, bs ++ '(' :: t, rfl, Bool.eq_false_iff.2 fun hdotted => ?_, ?_, ?_⟩
    · rw [isBlank_eq_false_of_isDotted hdotted] at hb
      cases hb
    · rintro rfl
      exact absurd hb (by decide)
    · rintro rfl
      exact absurd hb (by decide)

/-- A name ends at the blanks before the parenthesis. -/
theorem takeSome_name {p : Char → Bool} (hword : ∀ c, isWord c = true → p c = true)
    (hdotted : ∀ c, p c = true → isDotted c = true) (hname : isWordText name = true)
    {bs t : List Char} (hbs : ∀ c ∈ bs, isBlank c = true) :
    takeSome p (name ++ (bs ++ '(' :: t)) = some (name, bs ++ '(' :: t) := by
  obtain ⟨hne, hall⟩ := (Bool.and_eq_true _ _).mp hname
  obtain ⟨c, u, hrest, hc, -⟩ := exists_head (t := t) hbs
  rw [hrest]
  refine takeSome_append (by simpa using hne)
    (fun c hc => hword c (List.all_eq_true.1 hall c hc)) (Bool.eq_false_iff.2 fun hp => ?_)
  rw [hdotted c hp] at hc
  cases hc

/-- A bare call is read with its name and parameters, and without a type. -/
theorem plainCall?_eq (h : BareCall name params s) :
    plainCall? s = some { name, params, type := none } := by
  obtain ⟨hword, hparams, bs, cs, hbs, hcs, rfl⟩ := h
  obtain ⟨xs, hrests⟩ := restsAfter_of_blanks hparams hcs
  have htype : typeSuffix? cs = some none := typeSuffix?_eq_some_none_iff.2 hcs
  have hparen : trimStart (bs ++ '(' :: (params ++ ')' :: cs)) = '(' :: (params ++ ')' :: cs) :=
    trimStart_blanks_append hbs _
  rw [plainCall?, takeSome_name (fun _ => id) (fun _ => isDotted_of_isWord) hword hbs]
  simp only [hparen, hrests, List.reverse_append, List.reverse_singleton, List.singleton_append,
    List.findSome?_cons, htype, Option.map_some, before_append]

theorem eq_of_afterBlanks?_paren {bs t r : List Char} (hbs : ∀ c ∈ bs, isBlank c = true)
    (h : afterBlanks? (bs ++ '(' :: t) = some r) : r = '(' :: t := by
  cases bs with
  | nil => exact absurd h (by simp [afterBlanks?, show isBlank '(' = false by decide])
  | cons b bs =>
    obtain ⟨hb, hbs⟩ := List.forall_mem_cons.1 hbs
    rw [List.cons_append, afterBlanks?, if_pos hb, trimStart_blanks_append hbs] at h
    exact (Option.some.inj h).symm

/-- A name in front of the parentheses is no type in front of another call. -/
theorem plainCall?_of_mem_leadingTypes (h : BareCall name params s) {a r : List Char}
    (hmem : (a, r) ∈ leadingTypes s) : plainCall? r = none := by
  obtain ⟨hword, -, bs, cs, hbs, -, rfl⟩ := h
  obtain ⟨c, u, hrest, -, hangle, hbracket⟩ := exists_head (t := params ++ ')' :: cs) hbs
  rw [leadingTypes, takeSome_name (fun _ => isDotted_of_isWord) (fun _ => id) hword hbs] at hmem
  obtain ⟨t, ht, hblanks⟩ := List.mem_filterMap.1 hmem
  have ht : t = bs ++ '(' :: (params ++ ')' :: cs) := by
    rw [hrest] at ht ⊢
    unfold argumentRests at ht
    split at ht
    · next heq => exact absurd (List.cons.inj heq).1 hangle
    · exact List.mem_singleton.1 ht
  have hmarks : afterArrayMarks t = t :=
    afterArrayMarks_append 0 fun h => hbracket (Option.some.inj (by rw [← h, ht, hrest]; rfl))
  obtain ⟨r', hr', heq⟩ := Option.map_eq_some_iff.1 hblanks
  rw [hmarks, ht] at hr'
  rw [← (Prod.mk.inj heq).2, eq_of_afterBlanks?_paren hbs hr']
  rfl

/-- No other form of a call comes before it. -/
theorem call?_eq (h : BareCall name params s) :
    call? s = some { name, params, type := none } := by
  rw [call?, List.findSome?_eq_none_iff.2]
  · rw [h.plainCall?_eq]
    rfl
  · intro p hp
    obtain ⟨a, r⟩ := p
    simp only [h.plainCall?_of_mem_leadingTypes hp, Option.map_none]

end BareCall

/-- Conversely, a call without a type is a bare one. -/
theorem bareCall_of_plainCall? {s : List Char} {c : CallText} (h : plainCall? s = some c)
    (htype : c.type = none) : BareCall c.name c.params s := by
  unfold plainCall? at h
  split at h
  · cases h
  · next name rest hword =>
    split at h
    · next inner hinner =>
      obtain ⟨cs, hcs, hsuffix⟩ := List.exists_of_findSome?_eq_some h
      obtain ⟨type, hblank, rfl⟩ := Option.map_eq_some_iff.1 hsuffix
      obtain ⟨params, rfl, hparams⟩ := (mem_restsAfter (by decide)).1 (List.mem_reverse.1 hcs)
      obtain ⟨bs, hbs, hblanks, -⟩ := exists_trimStart rest
      simp only at htype
      rw [htype, typeSuffix?_eq_some_none_iff] at hblank
      rw [before_append]
      refine ⟨isWordText_of_takeSome hword, hparams, bs, cs, hblanks, hblank, ?_⟩
      rw [(eq_of_takeSome hword).1, ← hinner, ← hbs]
    · cases h

/-- A call form is read without a type exactly if it is written without one. -/
theorem call?_eq_some_iff_bareCall {s name params : List Char} :
    call? s = some { name, params, type := none } ↔ BareCall name params s := by
  refine ⟨fun h => ?_, BareCall.call?_eq⟩
  rcases (Option.orElse_eq_some _ _ _).1 h with h | ⟨-, h⟩
  · -- A type in front stays if none follows.
    obtain ⟨⟨a, r⟩, -, hcall⟩ := List.exists_of_findSome?_eq_some h
    obtain ⟨c, -, heq⟩ := Option.map_eq_some_iff.1 hcall
    have htype := congrArg CallText.type heq
    cases hc : c.type <;> simp [hc] at htype
  · exact bareCall_of_plainCall? h rfl

namespace Declaration

/-- The modifiers of a line, from its tags and its keywords. -/
def modifiersOf (line : List Char) : List Modifier :=
  tags line ++ (takeKeywords (takeSign (bare line)).2).1

/-- The text of a line without tags, sign and keywords. -/
def coreOf (line : List Char) : List Char :=
  (takeKeywords (takeSign (bare line)).2).2

theorem modifiers_of_read? {line : List Char} {d : Declaration} (h : read? line = some d) :
    d.modifiers = modifiersOf line ∧ shape? (modifiersOf line) (coreOf line) = some d.shape := by
  obtain ⟨shape, hshape, rfl⟩ := Option.map_eq_some_iff.1 h
  exact ⟨rfl, hshape⟩

theorem read?_of_shape? {line : List Char} {shape : Shape}
    (h : shape? (modifiersOf line) (coreOf line) = some shape) :
    ∃ d, read? line = some d ∧ d.shape = shape :=
  ⟨_, Option.map_eq_some_iff.2 ⟨shape, h, rfl⟩, rfl⟩

/-- A call without a type is declared by a text of this form that is not tagged as a field. -/
theorem shape?_eq_call_iff {modifiers : List Modifier} {s : List Char} {owner : String} :
    (∃ parameters, shape? modifiers s = some (.call owner parameters none)) ↔
      .field ∉ modifiers ∧ ∃ params, BareCall owner.toList params s := by
  constructor
  · rintro ⟨parameters, h⟩
    unfold shape? at h
    split at h
    · next c hcall =>
      obtain ⟨hfield, hcall⟩ := Option.ite_none_left_eq_some.1 hcall
      simp only [Option.some.injEq, Shape.call.injEq, Option.map_eq_none_iff] at h
      obtain ⟨rfl, -, htype⟩ := h
      refine ⟨hfield, c.params, ?_⟩
      rw [String.toList_ofList, ← call?_eq_some_iff_bareCall, ← htype]
      exact hcall
    · obtain ⟨f, -, heq⟩ := Option.map_eq_some_iff.1 h
      cases heq
  · rintro ⟨hfield, params, h⟩
    refine ⟨Parameter.readAll params, ?_⟩
    rw [shape?, if_neg hfield, h.call?_eq]
    simp

/-- A call form, or a field form with the tag for a method. -/
def IsMethod (d : Declaration) : Prop :=
  (∃ name parameters type, d.shape = .call name parameters type) ∨ .method ∈ d.modifiers

theorem isSome_method?_iff {d : Declaration} : d.method?.isSome ↔ d.IsMethod := by
  unfold method? IsMethod
  cases d.shape with
  | call name parameters type => simp
  | field name type =>
    by_cases hmethod : Modifier.method ∈ d.modifiers <;> simp [hmethod]

/-- A constructor is a call without a type which has the name of the class. -/
theorem isSome_constructor?_iff {d : Declaration} {owner : String} :
    (d.constructor? owner).isSome ↔ ∃ parameters, d.shape = .call owner parameters none := by
  unfold constructor?
  split
  · next name parameters hshape =>
    rw [hshape]
    by_cases hname : name = owner <;> simp [hname]
  · next hshape =>
    refine ⟨fun h => absurd h Bool.false_ne_true, ?_⟩
    rintro ⟨parameters, h⟩
    exact absurd h (hshape owner parameters)

/-- The list of a class that a declaration adds to. -/
def kindIn (owner : String) (d : Declaration) : MemberKind :=
  if (d.constructor? owner).isSome then .constructor
  else if d.method?.isSome then .method
  else .attribute

theorem kindIn_eq_constructor_iff {d : Declaration} {owner : String} :
    d.kindIn owner = .constructor ↔ ∃ parameters, d.shape = .call owner parameters none := by
  rw [← isSome_constructor?_iff]
  unfold kindIn
  split
  · next h => simp [h]
  · next h => split <;> simp [h]

/-- What is no method is an attribute. -/
theorem kindIn_eq_attribute_iff {d : Declaration} {owner : String} :
    d.kindIn owner = .attribute ↔ ¬d.IsMethod := by
  rw [← isSome_method?_iff]
  unfold kindIn
  split
  · next h =>
    obtain ⟨parameters, hshape⟩ := isSome_constructor?_iff.1 h
    simp [isSome_method?_iff, IsMethod, hshape]
  · split
    · next h => simp [h]
    · next h => simp [h]

theorem isSome_attribute? {d : Declaration} (h : d.method? = none) : d.attribute?.isSome := by
  unfold attribute?
  cases hshape : d.shape with
  | call name parameters type => simp [method?, hshape] at h
  | field name type => rfl

end Declaration

end Member

/-! ## Growth -/

namespace Entity

/-- One of the lists has one more member at its end, and all else is the same. -/
inductive Gains : MemberKind → Entity → Entity → Prop where
  | constructor (c : ClassDecl) (m : Method) :
      Gains .constructor (.cls c) (.cls { c with constructors := c.constructors ++ [m] })
  | method (c : ClassDecl) (m : Method) :
      Gains .method (.cls c) (.cls { c with methods := c.methods ++ [m] })
  | attribute (c : ClassDecl) (a : Attribute) :
      Gains .attribute (.cls c) (.cls { c with attributes := c.attributes ++ [a] })
  | signature (i : InterfaceDecl) (m : Method) :
      Gains .method (.interface i) (.interface { i with methods := i.methods ++ [m] })

/-- How many members of a kind an entity has. -/
def count : MemberKind → Entity → Nat
  | .constructor, .cls c => c.constructors.length
  | .method, .cls c => c.methods.length
  | .attribute, .cls c => c.attributes.length
  | .method, .interface i => i.methods.length
  | _, _ => 0

variable {k k' : MemberKind} {e e' : Entity}

theorem Gains.count_eq (h : Gains k e e') (k' : MemberKind) :
    count k' e' = count k' e + if k' = k then 1 else 0 := by
  cases h <;> cases k' <;> simp [count]

/-- An entity gains one kind of member only. -/
theorem Gains.unique (h : Gains k e e') (h' : Gains k' e e') : k = k' := by
  have hcount := h.count_eq k
  rw [h'.count_eq k, if_pos rfl] at hcount
  by_contra hne
  rw [if_neg hne] at hcount
  omega

/-- To gain a member is to change. -/
theorem not_gains_self : ¬Gains k e e := by
  intro h
  have hcount := h.count_eq k
  rw [if_pos rfl] at hcount
  omega

/-- A class takes every declaration, into the list that it belongs to. -/
theorem attach_cls (c : ClassDecl) (d : Declaration) :
    ((Entity.cls c).attach d).1 = true ∧
      Gains (d.kindIn c.name) (.cls c) ((Entity.cls c).attach d).2 := by
  show (c.attach d).1 = true ∧ Gains (d.kindIn c.name) (.cls c) (.cls (c.attach d).2)
  unfold ClassDecl.attach Declaration.kindIn
  cases hconstructor : d.constructor? c.name with
  | some m => exact ⟨rfl, .constructor c m⟩
  | none =>
    cases hmethod : d.method? with
    | some m => exact ⟨rfl, .method c m⟩
    | none =>
      obtain ⟨a, hattribute⟩ := Option.isSome_iff_exists.1 (Declaration.isSome_attribute? hmethod)
      rw [hattribute]
      exact ⟨rfl, .attribute c a⟩

/-- An interface takes the methods. -/
theorem attach_interface (i : InterfaceDecl) {d : Declaration} (h : d.IsMethod) :
    ((Entity.interface i).attach d).1 = true ∧
      Gains .method (.interface i) ((Entity.interface i).attach d).2 := by
  obtain ⟨m, hm⟩ := Option.isSome_iff_exists.1 (Declaration.isSome_method?_iff.2 h)
  show (i.attach d).1 = true ∧ Gains .method (.interface i) (.interface (i.attach d).2)
  rw [InterfaceDecl.attach, hm]
  exact ⟨rfl, .signature i m⟩

/-- What is no method is refused by an interface. -/
theorem attach_interface_of_not (i : InterfaceDecl) {d : Declaration} (h : ¬d.IsMethod) :
    ((Entity.interface i).attach d).1 = false := by
  have hmethod : d.method? = none := Option.not_isSome_iff_eq_none.1 fun hsome =>
    h (Declaration.isSome_method?_iff.1 hsome)
  show (i.attach d).1 = false
  rw [InterfaceDecl.attach, hmethod]

/-- A line that is read is attached, if the entity can have such a member. -/
theorem offer_of_read? {line : List Char} {d : Declaration} (h : Declaration.read? line = some d) :
    e.offer line = e.attach d := by
  rw [offer, h]

/-- A line that is not read leaves the entity alone. -/
theorem offer_of_read?_none {line : List Char} (h : Declaration.read? line = none) :
    e.offer line = (false, e) := by
  rw [offer, h]

/-- A class grows exactly by what a line declares. -/
theorem gains_cls_iff (c : ClassDecl) (line : List Char) :
    Gains k (.cls c) ((Entity.cls c).offer line).2 ↔
      ∃ d ∈ Declaration.read? line, d.kindIn c.name = k := by
  cases hread : Declaration.read? line with
  | none =>
    rw [offer_of_read?_none hread]
    exact ⟨fun h => absurd h not_gains_self, nofun⟩
  | some d =>
    have hgains := (attach_cls c d).2
    rw [offer_of_read? hread]
    constructor
    · exact fun h => ⟨d, rfl, hgains.unique h⟩
    · rintro ⟨d, ⟨⟩, rfl⟩
      exact hgains

/-- A class gains a constructor exactly by a bare call of its own name. -/
theorem gains_constructor_iff (c : ClassDecl) (line : List Char) :
    Gains .constructor (.cls c) ((Entity.cls c).offer line).2 ↔
      .field ∉ Declaration.modifiersOf line ∧
        ∃ params, BareCall c.name.toList params (Declaration.coreOf line) := by
  rw [gains_cls_iff, ← Declaration.shape?_eq_call_iff]
  constructor
  · rintro ⟨d, hread, hkind⟩
    obtain ⟨parameters, hshape⟩ := Declaration.kindIn_eq_constructor_iff.1 hkind
    exact ⟨parameters, hshape ▸ (Declaration.modifiers_of_read? hread).2⟩
  · rintro ⟨parameters, h⟩
    obtain ⟨d, hread, hshape⟩ := Declaration.read?_of_shape? h
    exact ⟨d, hread, Declaration.kindIn_eq_constructor_iff.2 ⟨parameters, hshape⟩⟩

/-- A class takes every line that can be read. -/
theorem offer_cls_iff (c : ClassDecl) (line : List Char) :
    ((Entity.cls c).offer line).1 = true ↔ (Declaration.read? line).isSome := by
  cases hread : Declaration.read? line with
  | none =>
    rw [offer_of_read?_none hread]
    rfl
  | some d =>
    rw [offer_of_read? hread]
    exact ⟨fun _ => rfl, fun _ => (attach_cls c d).1⟩

/-- An interface takes methods only. -/
theorem offer_interface_iff (i : InterfaceDecl) (line : List Char) :
    ((Entity.interface i).offer line).1 = true ↔ ∃ d ∈ Declaration.read? line, d.IsMethod := by
  cases hread : Declaration.read? line with
  | none =>
    rw [offer_of_read?_none hread]
    exact ⟨nofun, nofun⟩
  | some d =>
    rw [offer_of_read? hread]
    constructor
    · intro htaken
      refine ⟨d, rfl, by_contra fun hnot => ?_⟩
      rw [attach_interface_of_not i hnot] at htaken
      cases htaken
    · rintro ⟨d, ⟨⟩, hmethod⟩
      exact (attach_interface i hmethod).1

/-- An enumeration takes no members. -/
theorem offer_enum (en : EnumDecl) (line : List Char) :
    (Entity.enum en).offer line = (false, .enum en) := by
  unfold offer
  split <;> rfl

/-- An interface that has taken a line has one method more. -/
theorem gains_interface {i : InterfaceDecl} {line : List Char}
    (h : ((Entity.interface i).offer line).1 = true) :
    Gains .method (.interface i) ((Entity.interface i).offer line).2 := by
  obtain ⟨d, hread, hmethod⟩ := (offer_interface_iff i line).1 h
  rw [offer_of_read? hread]
  exact (attach_interface i hmethod).2

/-- An entity that has taken a line has grown. -/
theorem exists_gains {line : List Char} (h : (e.offer line).1 = true) :
    ∃ k, Gains k e (e.offer line).2 := by
  cases e with
  | cls c =>
    obtain ⟨d, hread⟩ := Option.isSome_iff_exists.1 ((offer_cls_iff c line).1 h)
    rw [offer_of_read? hread]
    exact ⟨_, (attach_cls c d).2⟩
  | interface i => exact ⟨_, gains_interface h⟩
  | enum en =>
    rw [offer_enum] at h
    cases h

end Entity

open Entity

/-- A member line either leaves an entity as it is, or exactly one of the lists of the entity
has one more member at its end. A class takes every line that declares something : a call form
without a type under its own name into the constructors, a field form without the tag for a
method into the attributes, anything else into the methods. An interface takes the lines that
declare a method, and an enum none. -/
theorem offer_gains (e : Entity) (line : List Char) :
    ((e.offer line).1 = false → (e.offer line).2 = e) ∧
    ((e.offer line).1 = true → ∃! k, Gains k e (e.offer line).2) ∧
    (∀ c, e = .cls c →
      ((e.offer line).1 = true ↔ (Declaration.read? line).isSome) ∧
      (Gains .constructor e (e.offer line).2 ↔ .field ∉ Declaration.modifiersOf line ∧
        ∃ params, BareCall c.name.toList params (Declaration.coreOf line)) ∧
      (Gains .attribute e (e.offer line).2 ↔ ∃ d ∈ Declaration.read? line, ¬d.IsMethod)) ∧
    (∀ i, e = .interface i →
      ((e.offer line).1 = true ↔ ∃ d ∈ Declaration.read? line, d.IsMethod) ∧
      ((e.offer line).1 = true → Gains .method e (e.offer line).2)) ∧
    ∀ en, e = .enum en → (e.offer line).1 = false := by
  refine ⟨fun h => eq_of_offer_false (Prod.ext h rfl), fun h => ?_, ?_, ?_, ?_⟩
  · obtain ⟨k, hk⟩ := exists_gains h
    exact ⟨k, hk, fun k' hk' => hk'.unique hk⟩
  · rintro c rfl
    refine ⟨offer_cls_iff c line, gains_constructor_iff c line, ?_⟩
    rw [gains_cls_iff]
    simp only [Declaration.kindIn_eq_attribute_iff]
  · rintro i rfl
    exact ⟨offer_interface_iff i line, gains_interface⟩
  · rintro en rfl
    rw [offer_enum]

end ClassSketch
