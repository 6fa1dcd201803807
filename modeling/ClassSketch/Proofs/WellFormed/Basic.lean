import ClassSketch.Proofs.Declarations.Lines
import ClassSketch.Proofs.Declarations.Reading
import ClassSketch.Proofs.Outline.Name

/-!
# Well-formed diagrams

Emitters write the names in a diagram as they stand. A diagram is well formed when
they can : entities, members and enum values are named by words, a constructor is
named as its class, returns nothing and has no modifiers, a method returns
something, relationships are between dotted names, type parameters are trimmed and
hold no comma, and the names in a type are trimmed and not empty at every depth.

This module says what it means (`Diagram.WellFormed`) and treats members. A type
is read off a text that is not blank, and each of its arguments is again such a
text (`trimmed_read`). So whatever line is read as a member, the member is well
formed, and so is the entity that takes it (`Entity.WellFormed.attach`).
-/

namespace ClassSketch

open Text

/-! ## Definitions -/

/-- A parameter with a type, all names in it trimmed. -/
structure Parameter.WellFormed (p : Parameter) : Prop where
  type : ∃ t ∈ p.type, t.Named Trimmed

structure Attribute.WellFormed (a : Attribute) : Prop where
  name : isWordText a.name.toList = true
  type : ∃ t ∈ a.type, t.Named Trimmed

/-- A method or constructor; whether something is returned is said by its class. -/
structure Method.WellFormed (m : Method) : Prop where
  name : isWordText m.name.toList = true
  returns : ∀ t ∈ m.returns, t.Named Trimmed
  parameters : ∀ p ∈ m.parameters, p.WellFormed

/-- Type parameters are trimmed and hold no comma. -/
def WellFormedGenerics (generics : List String) : Prop :=
  ∀ g ∈ generics, Trimmed g.toList ∧ ',' ∉ g.toList

/-- Methods are well formed and return something. -/
def WellFormedMethods (methods : List Method) : Prop :=
  ∀ m ∈ methods, m.WellFormed ∧ m.returns.isSome

/-- A constructor of the class with the given name. -/
structure Method.Constructs (owner : String) (m : Method) : Prop where
  wellFormed : m.WellFormed
  returns : m.returns = none
  name : m.name = owner
  isStatic : m.isStatic = false
  isAbstract : m.isAbstract = false

structure ClassDecl.WellFormed (c : ClassDecl) : Prop where
  name : isWordText c.name.toList = true
  generics : WellFormedGenerics c.generics
  attributes : ∀ a ∈ c.attributes, a.WellFormed
  constructors : ∀ m ∈ c.constructors, m.Constructs c.name
  methods : WellFormedMethods c.methods

structure InterfaceDecl.WellFormed (i : InterfaceDecl) : Prop where
  name : isWordText i.name.toList = true
  generics : WellFormedGenerics i.generics
  methods : WellFormedMethods i.methods

structure EnumDecl.WellFormed (e : EnumDecl) : Prop where
  name : isWordText e.name.toList = true
  values : ∀ v ∈ e.values, isWordText v.toList = true

def Entity.WellFormed : Entity → Prop
  | .cls c => c.WellFormed
  | .interface i => i.WellFormed
  | .enum e => e.WellFormed

/-- Both ends of a relationship are dotted names. -/
structure Relationship.WellFormed (r : Relationship) : Prop where
  source : isDottedText r.source.toList = true
  target : isDottedText r.target.toList = true

structure Diagram.WellFormed (d : Diagram) : Prop where
  entities : ∀ e ∈ d.entities, e.WellFormed
  relationships : ∀ r ∈ d.relationships, r.WellFormed

/-! ## Types and parameters -/

namespace TypeExpr

variable {s : List Char}

theorem exists_piece_of_mem_topLevelParts {p : List Char} (h : p ∈ topLevelParts s) :
    ∃ q ∈ pieces 0 s, p = trim q := by
  have hp : p ∈ (pieces 0 s).map trim := by
    simp only [topLevelParts] at h
    split at h
    · exact List.dropLast_subset _ h
    · exact h
  obtain ⟨q, hq, rfl⟩ := List.mem_map.1 hp
  exact ⟨q, hq, rfl⟩

/-- The base and the arguments of a type have no blanks around them. -/
theorem trimmed_of_genericParts? {base : List Char} {parts : List (List Char)}
    (h : genericParts? s = some (base, parts)) : Trimmed base ∧ ∀ p ∈ parts, Trimmed p := by
  obtain ⟨a, -, rfl, rfl⟩ := genericParts?_eq_some_iff.1 h
  exact ⟨trimmed_trim a.base_visible,
    List.forall_mem_map.2 fun p hp => trimmed_trim (a.visible p hp)⟩

/-- The names in a type are trimmed and not empty if its text is not blank. -/
theorem trimmed_read (h : trim s ≠ []) : Named Trimmed (read s) := by
  fun_induction read s with
  | case1 s _ =>
    refine .intro ?_ (List.forall_mem_nil _)
    rw [String.toList_ofList]
    exact trimmed_trim h
  | case2 s base parts hgeneric ih =>
    obtain ⟨hbase, hparts⟩ := trimmed_of_genericParts? hgeneric
    refine .intro ?_ fun a ha => ?_
    · rwa [String.toList_ofList]
    · obtain ⟨⟨p, hp⟩, -, rfl⟩ := List.mem_map.1 ha
      refine ih p hp ?_
      rw [(hparts p hp).trim_eq]
      exact (hparts p hp).ne_nil

/-- A type that is not blank is read to trimmed names. -/
theorem trimmed_map_read {text : Option (List Char)} (h : ∀ t ∈ text, trim t ≠ []) :
    ∀ t ∈ text.map read, t.Named Trimmed := by
  intro t ht
  obtain ⟨u, hu, rfl⟩ := Option.map_eq_some_iff.1 ht
  exact trimmed_read (h u hu)

theorem trimmed_plain (name : List Char) (hname : name ≠ []) (h : trim name = name) :
    Named Trimmed ⟨String.ofList name, []⟩ := by
  refine named_plain ?_
  rw [String.toList_ofList]
  exact .of_trim_eq hname h

end TypeExpr

namespace Parameter

theorem trim_nameAndType (part : List Char) :
    (nameAndType part).2 = [] ∨ ∃ s, (nameAndType part).2 = trim s := by
  unfold nameAndType
  split
  · exact Or.inr ⟨_, rfl⟩
  · split
    · exact Or.inr ⟨_, rfl⟩
    · exact Or.inl rfl

/-- The type of a parameter has trimmed names, also if none is written. -/
theorem trimmed_typeOrObject (part : List Char) :
    (typeOrObject (nameAndType part).2).Named Trimmed := by
  unfold typeOrObject
  split
  · exact TypeExpr.trimmed_plain _ (by decide) (by decide)
  · next hne =>
    have hne : (nameAndType part).2 ≠ [] := by simpa using hne
    obtain ⟨s, hs⟩ := (trim_nameAndType part).resolve_left hne
    rw [hs] at hne ⊢
    refine TypeExpr.trimmed_read ?_
    rwa [(trimmed_trim hne).trim_eq]

/-- All parameters that are read are well-formed. -/
theorem wellFormed_readAll (s : List Char) : ∀ p ∈ readAll s, p.WellFormed := by
  unfold readAll
  split
  · exact List.forall_mem_nil _
  · intro p hp
    obtain ⟨part, -, hread⟩ := List.mem_filterMap.1 hp
    simp only [read?] at hread
    split at hread
    · cases hread
    · cases hread
      exact ⟨_, rfl, trimmed_typeOrObject part⟩

end Parameter

/-! ## Call and field forms -/

namespace Member

variable {s r : List Char}

/-- A leading type starts with a dotted word, so it is not blank. -/
theorem trim_before_ne_nil {a : List Char} (h : (a, r) ∈ leadingTypes s) :
    trim (before a s) ≠ [] := by
  unfold leadingTypes at h
  split at h
  · cases h
  · next w rest hdotted =>
    obtain ⟨rfl, hne, hall, -⟩ := eq_of_takeSome hdotted
    obtain ⟨t, ht, hblanks⟩ := List.mem_filterMap.1 h
    obtain ⟨u, -, heq⟩ := Option.map_eq_some_iff.1 hblanks
    cases heq
    obtain ⟨x, hx⟩ := (afterArrayMarks_suffix t).trans (suffix_of_mem_argumentRests ht)
    rw [← hx, ← List.append_assoc, before_append]
    refine List.ne_nil_of_mem (mem_trim (List.mem_append_left x (List.head_mem hne)) ?_)
    exact isBlank_eq_false_of_isDotted (hall _ (List.head_mem hne))

theorem trim_typeSuffix?_ne_nil {type : Option (List Char)} (h : typeSuffix? s = some type) :
    ∀ t ∈ type, trim t ≠ [] := by
  unfold typeSuffix? at h
  split at h
  · cases h
    exact nofun
  · next t hs =>
    split at h
    · cases h
    · next hne =>
      cases h
      intro u hu
      cases hu
      simp only [Bool.or_eq_true, List.isEmpty_iff, not_or] at hne
      exact trim_trimStart_ne_nil hne.1
  · cases h

theorem trim_plainCall?_ne_nil {c : CallText} (h : plainCall? s = some c) :
    ∀ t ∈ c.type, trim t ≠ [] := by
  unfold plainCall? at h
  split at h
  · cases h
  · split at h
    · obtain ⟨t, -, hsuffix⟩ := List.exists_of_findSome?_eq_some h
      obtain ⟨type, htype, rfl⟩ := Option.map_eq_some_iff.1 hsuffix
      exact trim_typeSuffix?_ne_nil htype
    · cases h

/-- The type of a call is not blank. -/
theorem trim_call?_ne_nil {c : CallText} (h : call? s = some c) : ∀ t ∈ c.type, trim t ≠ [] := by
  rcases (Option.orElse_eq_some _ _ _).1 h with h | ⟨-, h⟩
  · obtain ⟨⟨a, rest⟩, hmem, hcall⟩ := List.exists_of_findSome?_eq_some h
    obtain ⟨plain, hplain, rfl⟩ := Option.map_eq_some_iff.1 hcall
    intro t ht
    rcases (Option.orElse_eq_some _ _ _).1 ht with ht | ⟨-, ht⟩
    · exact trim_plainCall?_ne_nil hplain t ht
    · cases ht
      exact trim_before_ne_nil hmem
  · exact trim_plainCall?_ne_nil h

/-- The type of a field is not blank. -/
theorem trim_field?_ne_nil {f : FieldText} (h : field? s = some f) :
    ∀ t ∈ f.type, trim t ≠ [] := by
  rcases (Option.orElse_eq_some _ _ _).1 h with h | ⟨-, h⟩
  · unfold suffixedField? at h
    split at h
    · cases h
    · obtain ⟨type, htype, rfl⟩ := Option.map_eq_some_iff.1 h
      exact trim_typeSuffix?_ne_nil htype
  · obtain ⟨⟨a, rest⟩, hmem, hfield⟩ := List.exists_of_findSome?_eq_some h
    obtain ⟨-, hsome⟩ := Option.ite_none_right_eq_some.1 hfield
    cases hsome
    intro t ht
    cases ht
    exact trim_before_ne_nil hmem

/-! ## Declarations -/

def Shape.WellFormed : Shape → Prop
  | .call name parameters returns =>
    isWordText name.toList = true ∧ (∀ p ∈ parameters, p.WellFormed) ∧
      ∀ t ∈ returns, t.Named Trimmed
  | .field name type => isWordText name.toList = true ∧ ∀ t ∈ type, t.Named Trimmed

namespace Declaration

/-- So the shape of a member is well-formed. -/
theorem wellFormed_of_shape? {modifiers : List Modifier} {shape : Shape}
    (h : shape? modifiers s = some shape) : shape.WellFormed := by
  unfold shape? at h
  split at h
  · next c hcall =>
    have hc : call? s = some c := by
      split at hcall
      · cases hcall
      · exact hcall
    cases h
    refine ⟨?_, Parameter.wellFormed_readAll _, TypeExpr.trimmed_map_read (trim_call?_ne_nil hc)⟩
    rw [String.toList_ofList]
    exact isWordText_of_call? hc
  · obtain ⟨f, hf, rfl⟩ := Option.map_eq_some_iff.1 h
    refine ⟨?_, TypeExpr.trimmed_map_read (trim_field?_ne_nil hf)⟩
    rw [String.toList_ofList]
    exact isWordText_of_field? hf

theorem wellFormed_of_read? {line : List Char} {d : Declaration} (h : read? line = some d) :
    d.shape.WellFormed := by
  obtain ⟨shape, hshape, rfl⟩ := Option.map_eq_some_iff.1 h
  exact wellFormed_of_shape? hshape

section Declared

variable {d : Declaration} (h : d.shape.WellFormed)

include h

/-- A method without a type returns `void`, which is a type. -/
theorem wellFormed_of_method? {m : Method} (hm : d.method? = some m) :
    m.WellFormed ∧ m.returns.isSome := by
  have hvoid : TypeExpr.Named Trimmed ⟨"void", []⟩ :=
    TypeExpr.trimmed_plain "void".toList (by decide) (by decide)
  unfold method? at hm
  cases hshape : d.shape with
  | call name parameters returns =>
    rw [hshape] at h hm
    cases hm
    obtain ⟨hname, hparameters, hreturns⟩ := h
    exact ⟨⟨hname, fun t ht => Option.some.inj ht ▸ TypeExpr.named_getD hreturns hvoid,
      hparameters⟩, rfl⟩
  | field name type =>
    rw [hshape] at h hm
    obtain ⟨hname, htype⟩ := h
    obtain ⟨-, hsome⟩ := Option.ite_none_right_eq_some.1 hm
    cases hsome
    exact ⟨⟨hname, fun t ht => Option.some.inj ht ▸ TypeExpr.named_getD htype hvoid,
      List.forall_mem_nil _⟩, rfl⟩

/-- A constructor has the name of its class and no type. -/
theorem constructs_of_constructor? {owner : String} {m : Method}
    (hm : d.constructor? owner = some m) : m.Constructs owner := by
  unfold constructor? at hm
  split at hm
  · next name parameters hshape =>
    rw [hshape] at h
    obtain ⟨hname, hparameters, -⟩ := h
    obtain ⟨rfl, hsome⟩ := Option.ite_none_right_eq_some.1 hm
    cases hsome
    exact ⟨⟨hname, nofun, hparameters⟩, rfl, rfl, rfl, rfl⟩
  · cases hm

theorem wellFormed_of_attribute? {a : Attribute} (ha : d.attribute? = some a) : a.WellFormed := by
  have hobject : TypeExpr.Named Trimmed ⟨"Object", []⟩ :=
    TypeExpr.trimmed_plain "Object".toList (by decide) (by decide)
  unfold attribute? at ha
  split at ha
  · cases ha
  · next name type hshape =>
    rw [hshape] at h
    cases ha
    exact ⟨h.1, _, rfl, TypeExpr.named_getD h.2 hobject⟩

end Declared

end Declaration

end Member

open Member

theorem WellFormedMethods.snoc {ms : List Method} (h : WellFormedMethods ms) {m : Method}
    (hm : m.WellFormed ∧ m.returns.isSome) : WellFormedMethods (ms ++ [m]) :=
  List.forall_mem_append.2 ⟨h, List.forall_mem_singleton.2 hm⟩

/-- A class stays well-formed when a member is attached. -/
theorem ClassDecl.WellFormed.attach {c c' : ClassDecl} (hc : c.WellFormed) {d : Declaration}
    (hd : d.shape.WellFormed) {taken : Bool} (h : c.attach d = (taken, c')) : c'.WellFormed := by
  unfold ClassDecl.attach at h
  split at h
  · next hconstructor =>
    cases h
    exact { hc with
      constructors := List.forall_mem_append.2 ⟨hc.constructors, List.forall_mem_singleton.2
        (Declaration.constructs_of_constructor? hd hconstructor)⟩ }
  · next hmethod =>
    cases h
    exact { hc with methods := hc.methods.snoc (Declaration.wellFormed_of_method? hd hmethod) }
  · next hattribute =>
    cases h
    exact { hc with
      attributes := List.forall_mem_append.2 ⟨hc.attributes, List.forall_mem_singleton.2
        (Declaration.wellFormed_of_attribute? hd hattribute)⟩ }
  · cases h
    exact hc

/-- A well-formed entity stays well formed when it takes a member. -/
theorem Entity.WellFormed.attach {e e' : Entity} (he : e.WellFormed) {d : Declaration}
    (hd : d.shape.WellFormed) {taken : Bool} (h : e.attach d = (taken, e')) : e'.WellFormed := by
  rcases attach_cases h with ⟨c, c', rfl, rfl, hc⟩ | ⟨i, i', rfl, rfl, hi⟩ | ⟨en, rfl, rfl, -⟩
  · exact ClassDecl.WellFormed.attach he hd hc
  · obtain ⟨hname, hgenerics, hmethods⟩ := he
    unfold InterfaceDecl.attach at hi
    split at hi
    · next hmethod =>
      cases hi
      exact ⟨hname, hgenerics, hmethods.snoc (Declaration.wellFormed_of_method? hd hmethod)⟩
    · cases hi
      exact ⟨hname, hgenerics, hmethods⟩
  · exact he

end ClassSketch
