import ClassSketch.Proofs.Outline.Header
import ClassSketch.Proofs.Rules

/-!
# Headers with types

The type parameters of a class or an interface may have bounds, and its supertypes may
have arguments (`TypedHeader`). A header is read up to brackets within brackets. The
type parameters end at the first closing bracket, which is not their own if a bound has
arguments. A clause ends with the first supertype that has nested arguments.

So a header yields what it declares exactly if no bound has arguments and no supertype
but the last of its clause has nested ones (`TypedHeader.Flat`).
-/

namespace ClassSketch

open Text Source Outline EntityHeader

/-! ## Type parameters -/

/-- A type parameter, possibly with a bound. -/
structure TypeParameter where
  name : Word
  bound : Option ClauseType := none

namespace TypeParameter

def chars (p : TypeParameter) : List Char :=
  p.name.chars ++ p.bound.elim [] fun t => " extends ".toList ++ t.chars

def text (p : TypeParameter) : String :=
  String.ofList p.chars

/-- The bound, if there is one, has no arguments. -/
def isFlat (p : TypeParameter) : Bool :=
  p.bound.all fun t => !t.type.isGeneric

theorem trimmed (p : TypeParameter) : Trimmed p.chars := by
  obtain ⟨name, bound⟩ := p
  cases bound with
  | none =>
    show Trimmed (name.chars ++ [])
    rw [List.append_nil]
    exact name.trimmed
  | some t =>
    have h := name.trimmed.append t.trimmed " extends ".toList
    rwa [List.append_assoc] at h

/-- A flat type parameter is made of names and spaces. -/
theorem forall_mem_of_isFlat {p : TypeParameter} (hflat : p.isFlat = true) :
    ∀ c ∈ p.chars, (isDotted c || c == ' ') = true := by
  have hname : ∀ c ∈ p.name.chars, (isDotted c || c == ' ') = true := fun c hc => by
    rw [isDotted_of_isWord (p.name.isWord_of_mem c hc), Bool.true_or]
  obtain ⟨name, bound⟩ := p
  refine List.forall_mem_append.2 ⟨hname, ?_⟩
  cases bound with
  | none => exact List.forall_mem_nil _
  | some t =>
    refine List.forall_mem_append.2 ⟨forall_mem_of_all (by decide), fun c hc => ?_⟩
    rcases t.type.chars_cases with ⟨-, hchars⟩ | ⟨hgeneric, -⟩
    · rw [ClauseType.chars, hchars] at hc
      rw [(isDottedText_iff.1 t.isDottedText_base).2 c hc, Bool.true_or]
    · simp [isFlat, hgeneric] at hflat

/-- A parameter with a bound that has arguments has a bracket in it. -/
theorem mem_chars_of_not_isFlat {p : TypeParameter} (h : p.isFlat = false) : '>' ∈ p.chars := by
  obtain ⟨name, bound⟩ := p
  cases bound with
  | none => cases h
  | some t =>
    have hgeneric : t.type.isGeneric = true := by simpa [isFlat] using h
    exact List.mem_append_right _
      (List.mem_append_right _ (TypeExpr.mem_chars_of_isGeneric hgeneric))

/-- Flat type parameters are found between the commas, before the closing bracket. -/
theorem commaParts_of_isFlat {ps : List TypeParameter} (hflat : ∀ p ∈ ps, p.isFlat = true) :
    '>' ∉ commaList (ps.map chars) ∧ commaParts (commaList (ps.map chars)) = ps.map chars := by
  have hmem : ∀ p ∈ ps, ∀ c ∈ p.chars, c ≠ '>' ∧ c ≠ ',' := by
    intro p hp c hc
    have hall := forall_mem_of_isFlat (hflat p hp) c hc
    constructor <;> rintro rfl <;> exact absurd hall (by decide)
  refine ⟨fun h => ?_, commaParts_commaList (List.forall_mem_map.2 fun p hp => ?_)⟩
  · exact forall_mem_commaList (p := (· ≠ '>')) (by decide) (by decide)
      (List.forall_mem_map.2 fun p hp c hc => (hmem p hp c hc).1) _ h rfl
  · exact ⟨fun hcomma => (hmem p hp _ hcomma).2 rfl, p.trimmed⟩

end TypeParameter

/-! ## Headers -/

/-- What a header declares. Only a class implements interfaces. -/
inductive HeaderForm where
  | cls (isAbstract : Bool) (interfaces : List ClauseType)
  | interface

/-- The header of a class or an interface. -/
structure TypedHeader where
  form : HeaderForm
  name : Word
  generics : List TypeParameter := []
  parents : List ClauseType := []
  /-- Whether an opening brace stands at the end of the line. -/
  opens : Bool := false

/-- An inheritance from each of the first types, and an implementation of each of the others. -/
def supertypes (name : Word) (parents interfaces : List ClauseType) : List Relationship :=
  parents.map (fun t => { source := name.text, target := t.base, kind := .inheritance }) ++
    interfaces.map fun t => { source := name.text, target := t.base, kind := .implementation }

namespace TypedHeader

def interfaces (h : TypedHeader) : List ClauseType :=
  match h.form with
  | .cls _ interfaces => interfaces
  | .interface => []

def keyword (h : TypedHeader) : List Char :=
  match h.form with
  | .cls false _ => "class".toList
  | .cls true _ => "abstract class".toList
  | .interface => "interface".toList

/-- What follows the name. -/
def tail (h : TypedHeader) : List Char :=
  parameterText (h.generics.map TypeParameter.chars) ++ clauses h.parents h.interfaces h.opens

def chars (h : TypedHeader) : List Char :=
  h.keyword ++ ' ' :: (h.name.chars ++ h.tail)

/-- The entity of a header, with the given type parameters. -/
def entity (h : TypedHeader) (package : Option String) (generics : List String) : Entity :=
  match h.form with
  | .cls isAbstract _ => .cls { name := h.name.text, isAbstract, package, generics }
  | .interface => .interface { name := h.name.text, package, generics }

/-- No bound has arguments, and no supertype but the last of its clause has nested ones. -/
structure Flat (h : TypedHeader) : Prop where
  generics : ∀ p ∈ h.generics, p.isFlat = true
  parents : ∀ t ∈ h.parents.dropLast, t.type.isNested = false
  interfaces : ∀ t ∈ h.interfaces.dropLast, t.type.isNested = false

/-! ### Reading the line -/

/-- What is read from the line of a header. -/
def header (h : TypedHeader) : EntityHeader :=
  match h.form with
  | .cls isAbstract _ => EntityHeader.build .cls isAbstract true (h.name.chars, h.tail)
  | .interface => EntityHeader.build .interface false true (h.name.chars, h.tail)

variable (h : TypedHeader)

theorem head?_tail : h.tail.head?.any isWord = false :=
  head?_parameterText_append _ (head?_clauses ..)

/-- A header with types in it is read by its name and by what follows. -/
theorem read?_chars : EntityHeader.read? h.chars = some h.header := by
  have hs := h.head?_tail
  unfold chars keyword header
  generalize h.tail = s at hs
  cases h.form with
  | cls isAbstract interfaces =>
    cases isAbstract with
    | false => exact read?_keyword h.name hs (k := "class".toList) (c := .cls) (by simp)
    | true => exact read?_abstract h.name hs
  | interface => exact read?_keyword h.name hs (k := "interface".toList) (c := .interface) (by simp)

/-- It is no header of a package. -/
theorem packageHeader?_chars : PackageHeader.read? h.chars = none := by
  unfold chars keyword
  cases h.form with
  | cls isAbstract interfaces =>
    cases isAbstract with
    | false => exact packageHeader?_keyword (k := "class".toList) (by decide) (by decide) _
    | true => exact packageHeader?_keyword (k := "abstract".toList) (by decide) (by decide) _
  | interface => exact packageHeader?_keyword (k := "interface".toList) (by decide) (by decide) _

theorem generics_header : h.header.generics = commaParts (takeGenerics h.tail).1 := by
  unfold header
  cases h.form <;> rfl

/-- From it comes the entity, but for the generics, which may be cut. -/
theorem entity_header (package : Option String) :
    h.header.entity package = h.entity package (h.header.generics.map String.ofList) := by
  unfold header entity
  cases h.form <;> rfl

/-! ### What is read -/

/-- The type parameters are read as they are declared exactly if all are flat. -/
theorem generics_header_eq_iff :
    h.header.generics.map String.ofList = h.generics.map TypeParameter.text ↔
      ∀ p ∈ h.generics, p.isFlat = true := by
  rw [generics_header]
  constructor
  · intro heq p hp
    by_contra hflat
    -- a bound with arguments has a closing bracket, and nothing that is read has one
    have hclose := TypeParameter.mem_chars_of_not_isFlat (Bool.eq_false_iff.2 hflat)
    have htext : p.text ∈ h.generics.map TypeParameter.text := List.mem_map_of_mem hp
    rw [← heq] at htext
    obtain ⟨a, ha, hpa⟩ := List.mem_map.1 htext
    obtain rfl := String.ofList_injective hpa
    exact not_mem_takeGenerics h.tail (subset_of_mem_commaParts ha hclose)
  · intro hflat
    obtain ⟨hclose, hparts⟩ := TypeParameter.commaParts_of_isFlat hflat
    have htaken := (takeGenerics_parameterText hclose
      (head?_trimStart_clauses h.parents h.interfaces h.opens)).1
    rw [tail, htaken, hparts, List.map_map]
    rfl

/-- Behind flat type parameters each clause is read up to its first nested supertype. -/
theorem relationships_header (hflat : ∀ p ∈ h.generics, p.isFlat = true) :
    h.header.relationships =
      supertypes h.name (ClauseType.upToNested h.parents) (ClauseType.upToNested h.interfaces) := by
  obtain ⟨hclose, -⟩ := TypeParameter.commaParts_of_isFlat hflat
  have hhead := head?_trimStart_clauses h.parents h.interfaces h.opens
  obtain ⟨hparents, hinterfaces⟩ := clauseNames_clauses h.parents h.interfaces h.opens
  rw [← clauseNames_parameterText hclose hhead (by decide), ← tail] at hparents hinterfaces
  unfold EntityHeader.relationships supertypes header
  cases hform : h.form with
  | cls isAbstract interfaces =>
    show (clauseNames "extends".toList (takeGenerics h.tail).2).map _ ++
      (clauseNames "implements".toList (takeGenerics h.tail).2).map _ = _
    rw [hparents, hinterfaces, List.map_map, List.map_map]
    rfl
  | interface =>
    have hnil : h.interfaces = [] := by rw [interfaces, hform]
    show (clauseNames "extends".toList (takeGenerics h.tail).2).map _ ++ [] = _
    rw [hparents, hnil, List.map_map]
    rfl

end TypedHeader

/-- No supertype is lost exactly if none is behind a nested type. -/
theorem supertypes_upToNested_eq_iff (name : Word) (parents interfaces : List ClauseType) :
    supertypes name (ClauseType.upToNested parents) (ClauseType.upToNested interfaces) =
        supertypes name parents interfaces ↔
      ClauseType.upToNested parents = parents ∧ ClauseType.upToNested interfaces = interfaces := by
  have hparents := ClauseType.upToNested_isPrefix parents
  have hinterfaces := ClauseType.upToNested_isPrefix interfaces
  refine ⟨fun heq => ?_, fun ⟨hp, hi⟩ => by rw [hp, hi]⟩
  -- both lists are prefixes, so that a lost supertype shows in the number of relationships
  have hlength := congrArg List.length heq
  simp only [supertypes, List.length_append, List.length_map] at hlength
  have hle := hparents.length_le
  have hle' := hinterfaces.length_le
  exact ⟨hparents.eq_of_length (by omega), hinterfaces.eq_of_length (by omega)⟩

/-! ## The step of the reader -/

/-- A header with its kind written out is taken wherever it stands. -/
theorem Source.Reader.step_header (r : Reader) {line : List Char} {h : EntityHeader}
    (hpackage : PackageHeader.read? line = none) (hread : EntityHeader.read? line = some h)
    (hexplicit : h.isExplicit = true) :
    r.step line = (r.settled.readHeader h (line.getLast? = some '{'), none) := by
  refine r.step_of_header hpackage ?_
  rw [Reader.header?, hread, Option.filter_some, if_pos (by rw [hexplicit, Bool.or_true])]

namespace TypedHeader

/-- A header adds one entity, with its type parameters exactly if they are flat. Behind flat ones
each clause adds its supertypes up to the first nested one. So all that is declared is read exactly
if the header is flat. -/
theorem step_typedHeader (h : TypedHeader) (r : Reader) :
    ∃ generics relationships, (r.step h.chars).2 = none ∧
      (r.step h.chars).1.diagram.entities =
        r.diagram.entities ++ [h.entity r.cursor.package generics] ∧
      (r.step h.chars).1.diagram.relationships = r.diagram.relationships ++ relationships ∧
      (generics = h.generics.map TypeParameter.text ↔ ∀ p ∈ h.generics, p.isFlat = true) ∧
      ((∀ p ∈ h.generics, p.isFlat = true) →
        relationships = supertypes h.name (ClauseType.upToNested h.parents)
          (ClauseType.upToNested h.interfaces)) ∧
      (generics = h.generics.map TypeParameter.text ∧
        relationships = supertypes h.name h.parents h.interfaces ↔ h.Flat) := by
  have hexplicit : h.header.isExplicit = true := by
    unfold header
    cases h.form <;> rfl
  have hstep := r.step_header h.packageHeader?_chars h.read?_chars hexplicit
  refine ⟨h.header.generics.map String.ofList, h.header.relationships, ?_, ?_, ?_,
    h.generics_header_eq_iff, h.relationships_header, ?_⟩
  · rw [hstep]
  · rw [hstep, ← entity_header]
    rfl
  · rw [hstep]
    rfl
  · rw [generics_header_eq_iff]
    constructor
    · rintro ⟨hgenerics, hsupertypes⟩
      rw [h.relationships_header hgenerics, supertypes_upToNested_eq_iff] at hsupertypes
      exact ⟨hgenerics, (ClauseType.upToNested_eq_iff _).1 hsupertypes.1,
        (ClauseType.upToNested_eq_iff _).1 hsupertypes.2⟩
    · rintro ⟨hgenerics, hparents, hinterfaces⟩
      refine ⟨hgenerics, ?_⟩
      rw [h.relationships_header hgenerics, (ClauseType.upToNested_eq_iff _).2 hparents,
        (ClauseType.upToNested_eq_iff _).2 hinterfaces]

/-- `class A extends Map<K, List<V>>, B` -/
def nestedHeader : TypedHeader where
  form := .cls false []
  name := ⟨['A'], rfl⟩
  parents := [
    .applied ⟨⟨"Map".toList, by decide⟩, []⟩ (by decide) [
      .applied ⟨⟨['K'], rfl⟩, []⟩ (by decide) [],
      .applied ⟨⟨"List".toList, by decide⟩, []⟩ (by decide) [
        .applied ⟨⟨['V'], rfl⟩, []⟩ (by decide) []]],
    .applied ⟨⟨['B'], rfl⟩, []⟩ (by decide) []]

/-- `class A<T extends Comparable<T>>` -/
def boundedHeader : TypedHeader where
  form := .cls false []
  name := ⟨['A'], rfl⟩
  generics := [{
    name := ⟨['T'], rfl⟩
    bound := some (.applied ⟨⟨"Comparable".toList, by decide⟩, []⟩ (by decide) [
      .applied ⟨⟨['T'], rfl⟩, []⟩ (by decide) []]) }]

/-- A supertype after a nested one is lost, and a bound with arguments loses its bracket. -/
theorem header_misread :
    nestedHeader.chars = "class A extends Map<K, List<V>>, B".toList ∧
    nestedHeader.parents.map ClauseType.base = ["Map", "B"] ∧
    (({} : Reader).step nestedHeader.chars).1.diagram.relationships.map (·.target) = ["Map"] ∧
    boundedHeader.chars = "class A<T extends Comparable<T>>".toList ∧
    boundedHeader.generics.map TypeParameter.text = ["T extends Comparable<T>"] ∧
    (({} : Reader).step boundedHeader.chars).1.diagram.entities =
      [.cls { name := "A", generics := ["T extends Comparable<T"] }] := by
  refine ⟨?_, ?_, ?_, ?_, ?_, rfl⟩ <;> decide +kernel

end TypedHeader

end ClassSketch
