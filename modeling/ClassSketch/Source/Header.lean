import ClassSketch.Diagram.Basic
import ClassSketch.Text.Scan
import ClassSketch.Text.Word
import ClassSketch.TypeExpr.Reader

/-!
# Package and entity headers

A package header is `package` or `namespace` and a name, in quotes or not,
with an optional alias and an optional stereotype. An entity header is a
keyword, a name, optional type parameters, and clauses `extends` and
`implements` anywhere after that. Either may end with an opening brace.
-/

namespace ClassSketch.Source

open Text

/-! ## Packages -/

structure PackageHeader where
  name : List Char
  opens : Bool

namespace PackageHeader

def isNameChar (c : Char) : Bool :=
  !(isBlank c || c == '{' || c == '"' || c == '<')

/-- The name, in quotes or plain, and what follows it. -/
def name? : List Char → Option (List Char × List Char)
  | '"' :: s =>
    match cutAt '"' s with
    | some (c :: cs, rest) => some (c :: cs, rest)
    | _ => none
  | s => takeSome isNameChar s

/-- Drops `as Alias`, with at least one blank before each of the two words. -/
def dropAlias (s : List Char) : List Char :=
  match (afterBlanks? s).bind (after? "as".toList) |>.bind afterBlanks? |>.bind (takeSome isWord) with
  | some (_, rest) => rest
  | none => s

/-- Drops a stereotype `<<...>>` and the blanks before it. -/
def dropStereotype (s : List Char) : List Char :=
  match after? "<<".toList (trimStart s) with
  | none => s
  | some inner =>
    match after? ">>".toList (inner.dropWhile (· != '>')) with
    | some rest => rest
    | none => s

def read? (line : List Char) : Option PackageHeader :=
  match (after? "package".toList line <|> after? "namespace".toList line).bind afterBlanks?
      |>.bind name? with
  | none => none
  | some (name, rest) =>
    match trimStart (dropStereotype (dropAlias rest)) with
    | [] => some { name := trim name, opens := false }
    | ['{'] => some { name := trim name, opens := true }
    | _ => none

end PackageHeader

/-! ## Entities -/

structure EntityHeader where
  kind : Kind
  isAbstract : Bool := false
  /-- Whether the kind is written out; `abstract Name` leaves it out. -/
  isExplicit : Bool := true
  name : List Char
  generics : List (List Char)
  /-- All that follows the name and the type parameters. -/
  rest : List Char

namespace EntityHeader

/-- A keyword, at least one blank, and a word. -/
def keywordAndWord? (keyword : List Char) (s : List Char) : Option (List Char × List Char) :=
  ((after? keyword s).bind afterBlanks?).bind (takeSome isWord)

/-- Type parameters up to the first closing bracket, and what follows them. -/
def takeGenerics (s : List Char) : List Char × List Char :=
  match trimStart s with
  | '<' :: t => (cutAt '>' t).getD ([], '<' :: t)
  | t => ([], t)

def build (kind : Kind) (isAbstract isExplicit : Bool) (found : List Char × List Char) :
    EntityHeader where
  kind := kind
  isAbstract := isAbstract
  isExplicit := isExplicit
  name := found.1
  generics := commaParts (takeGenerics found.2).1
  rest := (takeGenerics found.2).2

/-- After `abstract` and blanks: `class` and a name, or just a name. -/
def abstract? (s : List Char) : Option EntityHeader :=
  (keywordAndWord? "class".toList s).map (build .cls true true) <|>
    (takeSome isWord s).map (build .cls true false)

def read? (line : List Char) : Option EntityHeader :=
  ((after? "abstract".toList line).bind afterBlanks?).bind abstract? <|>
    (keywordAndWord? "class".toList line).map (build .cls false true) <|>
    (keywordAndWord? "interface".toList line).map (build .interface false true) <|>
    (keywordAndWord? "enum".toList line).map (build .enum false true)

/-! ### Clauses -/

/-- Type arguments up to the first closing bracket: their text and what follows. -/
def typeArgs? : List Char → Option (List Char × List Char)
  | '<' :: s => (cutAt '>' s).map fun (args, rest) => ('<' :: args ++ ['>'], rest)
  | _ => none

/-- A dotted name with optional type arguments: its text and what follows. -/
def typeName? (s : List Char) : Option (List Char × List Char) :=
  match takeSome isDotted s with
  | none => none
  | some (name, rest) =>
    match typeArgs? rest with
    | none => some (name, rest)
    | some (args, rest) => some (name ++ args, rest)

theorem length_lt_of_typeArgs? {s text rest : List Char} (h : typeArgs? s = some (text, rest)) :
    rest.length < s.length := by
  unfold typeArgs? at h
  split at h
  · obtain ⟨⟨args, after⟩, hc, h⟩ := Option.map_eq_some_iff.1 h
    simp only [Prod.mk.injEq] at h
    rw [← h.2]
    exact Nat.lt_succ_of_lt (length_lt_of_cutAt hc)
  · simp at h

theorem length_lt_of_typeName? {s text rest : List Char} (h : typeName? s = some (text, rest)) :
    rest.length < s.length := by
  unfold typeName? at h
  split at h
  · simp at h
  · next name after hn =>
    have hlt := length_lt_of_takeSome hn
    split at h
    · simp only [Option.some.injEq, Prod.mk.injEq] at h
      exact h.2 ▸ hlt
    · next args after' ha =>
      simp only [Option.some.injEq, Prod.mk.injEq] at h
      exact h.2 ▸ Nat.lt_trans (length_lt_of_typeArgs? ha) hlt

/-- The text of the names after the first in a list of names separated by commas. -/
def moreNames (s : List Char) : List Char :=
  match _hs : trimStart s with
  | ',' :: t =>
    match _hn : typeName? (trimStart t) with
    | some (text, rest) => ',' :: text ++ moreNames rest
    | none => []
  | _ => []
termination_by s.length
decreasing_by
  have h1 := length_lt_of_typeName? _hn
  have h2 := length_trimStart_le t
  have h3 := length_trimStart_le s
  rw [_hs, List.length_cons] at h3
  omega

/-- The text of a list of names at the front. -/
def names? (s : List Char) : Option (List Char) :=
  (typeName? s).map fun (text, rest) => text ++ moreNames rest

/-- The text of the first clause with the given keyword. The keyword starts a
word; `inWord` tells whether a word character stands before the text. -/
def clause? (keyword : List Char) (inWord : Bool) : List Char → Option (List Char)
  | [] => none
  | c :: cs =>
    (if inWord then none else ((after? keyword (c :: cs)).bind afterBlanks?).bind names?) <|>
      clause? keyword (isWord c) cs

/-- The base names listed in a clause. -/
def clauseNames (keyword : List Char) (rest : List Char) : List String :=
  ((clause? keyword false rest).elim [] TypeExpr.topLevelParts).map fun p =>
    String.ofList (TypeExpr.baseName p)

/-- The supertypes that a header declares: parents of a class or interface, then
interfaces of a class. -/
def relationships (h : EntityHeader) : List Relationship :=
  let source := String.ofList h.name
  let parents := if h.kind = .enum then [] else clauseNames "extends".toList h.rest
  let interfaces := if h.kind = .cls then clauseNames "implements".toList h.rest else []
  parents.map (fun target => { source, target, kind := .inheritance }) ++
    interfaces.map fun target => { source, target, kind := .implementation }

/-- The entity that a header declares in a package. -/
def entity (h : EntityHeader) (package : Option String) : Entity :=
  let name := String.ofList h.name
  let generics := h.generics.map String.ofList
  match h.kind with
  | .cls => .cls { name, isAbstract := h.isAbstract, package, generics }
  | .interface => .interface { name, package, generics }
  | .enum => .enum { name, package }

end EntityHeader

end ClassSketch.Source
