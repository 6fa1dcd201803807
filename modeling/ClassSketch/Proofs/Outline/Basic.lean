import ClassSketch.Arrow.Basic
import ClassSketch.Proofs.Types
import ClassSketch.Source.Reader

/-!
# Outlines

An outline is a well-formed diagram text as a tree. Its items are packages and
`together` blocks, which hold items again, entities with their members, and
links between names. The parts that are written as they are (words, package
names, signs) carry the proof that they can stand where they are written.

An outline has two readings. `Outline.text` writes it, one line per item and
closing brace, each line with an indentation of its own. `Outline.diagram` is
the diagram that it means : an entity belongs to the innermost package around
it, and everything stands in the order in which it is written.
-/

namespace ClassSketch

namespace Outline

open Text

/-! ## Names and types -/

structure Word where
  chars : List Char
  isWordText : isWordText chars = true

def Word.text (w : Word) : String :=
  String.ofList w.chars

/-- Words with full stops between them. -/
structure Dotted where
  first : Word
  more : List Word := []

namespace Dotted

def words (d : Dotted) : List Word :=
  d.first :: d.more

def chars (d : Dotted) : List Char :=
  d.first.chars ++ d.more.flatMap fun w => '.' :: w.chars

def text (d : Dotted) : String :=
  String.ofList d.chars

end Dotted

/-- The words that mean something at the start of a line or of a clause. -/
def reserved : List (List Char) :=
  ["class".toList, "interface".toList, "enum".toList, "abstract".toList, "package".toList,
    "namespace".toList, "extends".toList, "implements".toList]

/-- The name of a supertype or of an end of a link. -/
structure Reference extends Dotted where
  unreserved : ∀ w ∈ toDotted.words, w.chars ∉ reserved

/-- The name of a package, which is written in quotes. -/
structure PackageName where
  chars : List Char
  trimmed : Trimmed chars
  plain : ∀ c ∈ chars, c ≠ '"' ∧ c ≠ '{' ∧ c ≠ '}' ∧ c ≠ '/' ∧ isLineBreak c = false

def PackageName.text (p : PackageName) : String :=
  String.ofList p.chars

/-- A type over dotted words. -/
structure TypeText where
  type : TypeExpr
  named : type.Named fun s => ∃ d : Dotted, d.chars = s

/-! ## Members -/

/-- A visibility sign. -/
structure Sign where
  char : Char
  visibility : Visibility
  ofSign?_char : Visibility.ofSign? char = some visibility

/-- The visibility that an optional sign gives. -/
def visibility (sign : Option Sign) : Visibility :=
  sign.elim .everyone Sign.visibility

def signChars (sign : Option Sign) : List Char :=
  (sign.map Sign.char).toList

/-- A modifier tag and the spaces after it. -/
structure Tag where
  modifier : Modifier
  spaces : Nat

def Tag.chars (t : Tag) : List Char :=
  t.modifier.tag ++ List.replicate t.spaces ' '

structure ParameterText where
  name : Word
  type : TypeText

namespace ParameterText

def chars (p : ParameterText) : List Char :=
  p.name.chars ++ ':' :: ' ' :: p.type.type.chars

def parameter (p : ParameterText) : Parameter where
  name := p.name.text
  type := some p.type.type

end ParameterText

/-- Parameters in parentheses. -/
def paramChars (ps : List ParameterText) : List Char :=
  '(' :: commaList (ps.map ParameterText.chars) ++ [')']

/-- An attribute or a method with its type after a colon. With parameters it is a call form. -/
structure MemberLine where
  sign : Option Sign
  tags : List Tag
  name : Word
  params : Option (List ParameterText)
  type : TypeText

namespace MemberLine

def chars (m : MemberLine) : List Char :=
  signChars m.sign ++ m.tags.flatMap Tag.chars ++
    (m.name.chars ++ m.params.elim [] paramChars ++ ':' :: ' ' :: m.type.type.chars)

def modifiers (m : MemberLine) : List Modifier :=
  m.tags.map Tag.modifier

/-- The tag `{field}` contradicts a call form. -/
def isRefused (m : MemberLine) : Bool :=
  m.params.isSome && .field ∈ m.modifiers

/-- A call form, or any form with the tag `{method}`. -/
def isMethod (m : MemberLine) : Bool :=
  !m.isRefused && (m.params.isSome || .method ∈ m.modifiers)

def isField (m : MemberLine) : Bool :=
  !m.isRefused && !m.isMethod

def isStatic (m : MemberLine) : Bool :=
  .static ∈ m.modifiers || .classifier ∈ m.modifiers

def method (m : MemberLine) : Method where
  name := m.name.text
  returns := some m.type.type
  parameters := (m.params.getD []).map ParameterText.parameter
  visibility := visibility m.sign
  isStatic := m.isStatic
  isAbstract := .abstract ∈ m.modifiers

def field (m : MemberLine) : Attribute where
  name := m.name.text
  type := some m.type.type
  visibility := visibility m.sign
  isStatic := m.isStatic
  isFinal := .final ∈ m.modifiers

end MemberLine

/-- A line of a class body. A constructor is written with the name of its class. -/
inductive ClassLine where
  | member (m : MemberLine)
  | constructor (sign : Option Sign) (params : List ParameterText)

namespace ClassLine

def chars (owner : Word) : ClassLine → List Char
  | member m => m.chars
  | constructor sign params => signChars sign ++ (owner.chars ++ paramChars params)

def attribute? : ClassLine → Option Attribute
  | member m => if m.isField then some m.field else none
  | constructor .. => none

def method? : ClassLine → Option Method
  | member m => if m.isMethod then some m.method else none
  | constructor .. => none

def constructor? (owner : Word) : ClassLine → Option Method
  | member _ => none
  | constructor sign params => some {
      name := owner.text
      returns := none
      parameters := params.map ParameterText.parameter
      visibility := visibility sign }

/-- Whether a line declares nothing. -/
def isRefused : ClassLine → Bool
  | member m => m.isRefused
  | constructor .. => false

/-- The refused lines of a body that starts at line `n`. -/
def skipped (owner : Word) (n : Nat) : List ClassLine → List Source.Skipped
  | [] => []
  | l :: ls =>
    (if l.isRefused then [⟨⟨n, l.chars owner⟩, .member⟩] else []) ++ skipped owner (n + 1) ls

end ClassLine

/-- A line of an interface body. -/
abbrev InterfaceLine := { m : MemberLine // m.isMethod = true }

/-- A line of an enum body : words with commas between them, and one at the end or not. -/
structure EnumLine where
  first : Word
  more : List Word
  comma : Bool

namespace EnumLine

def words (l : EnumLine) : List Word :=
  l.first :: l.more

def chars (l : EnumLine) : List Char :=
  commaList (l.words.map Word.chars) ++ if l.comma then [','] else []

end EnumLine

/-! ## Entities -/

/-- An entity with an optional body. -/
inductive Entry where
  | cls (isAbstract : Bool) (name : Word) (generics : List Word)
      (parents interfaces : List Reference) (body : Option (List ClassLine))
  | interface (name : Word) (generics : List Word) (parents : List Reference)
      (body : Option (List InterfaceLine))
  | enum (name : Word) (body : Option (List EnumLine))

/-- Type parameters in angle brackets. -/
def genericChars (gs : List Word) : List Char :=
  if gs.isEmpty then [] else '<' :: commaList (gs.map Word.chars) ++ ['>']

/-- A clause of a header, with a space before it. -/
def clauseChars (keyword : List Char) (rs : List Reference) : List Char :=
  if rs.isEmpty then [] else ' ' :: keyword ++ ' ' :: commaList (rs.map fun r => r.chars)

namespace Entry

def keyword : Entry → List Char
  | cls true .. => "abstract class".toList
  | cls false .. => "class".toList
  | interface .. => "interface".toList
  | enum .. => "enum".toList

def name : Entry → Word
  | cls _ name .. => name
  | interface name .. => name
  | enum name _ => name

def generics : Entry → List Word
  | cls _ _ generics .. => generics
  | interface _ generics .. => generics
  | enum .. => []

def parents : Entry → List Reference
  | cls _ _ _ parents .. => parents
  | interface _ _ parents _ => parents
  | enum .. => []

def interfaces : Entry → List Reference
  | cls _ _ _ _ interfaces _ => interfaces
  | _ => []

/-- The lines of the body, if there is one. -/
def body? : Entry → Option (List (List Char))
  | cls _ name _ _ _ body => body.map (·.map (ClassLine.chars name))
  | interface _ _ _ body => body.map (·.map fun m => m.1.chars)
  | enum _ body => body.map (·.map EnumLine.chars)

/-- What follows the type parameters in the line of the header. -/
def tail (e : Entry) : List Char :=
  clauseChars "extends".toList e.parents ++ clauseChars "implements".toList e.interfaces ++
    if e.body?.isSome then [' ', '{'] else []

def headerLine (e : Entry) : List Char :=
  e.keyword ++ ' ' :: (e.name.chars ++ (genericChars e.generics ++ e.tail))

def lines (e : Entry) : List (List Char) :=
  e.headerLine :: e.body?.elim [] fun ls => ls ++ [['}']]

def relationships (e : Entry) : List Relationship :=
  e.parents.map (fun p => { source := e.name.text, target := p.text, kind := .inheritance }) ++
    e.interfaces.map fun i => { source := e.name.text, target := i.text, kind := .implementation }

def entity (package : Option String) : Entry → Entity
  | cls isAbstract name generics _ _ body => .cls {
      name := name.text
      isAbstract
      package
      generics := generics.map Word.text
      attributes := (body.getD []).filterMap ClassLine.attribute?
      constructors := (body.getD []).filterMap (ClassLine.constructor? name)
      methods := (body.getD []).filterMap ClassLine.method? }
  | interface name generics _ body => .interface {
      name := name.text
      package
      generics := generics.map Word.text
      methods := (body.getD []).map fun m => m.1.method }
  | enum name body => .enum {
      name := name.text
      package
      values := (body.getD []).flatMap fun l => l.words.map Word.text }

/-- The lines of the body that declare nothing, in an entry that starts at line `n`. -/
def skipped (n : Nat) : Entry → List Source.Skipped
  | cls _ name _ _ _ body => ClassLine.skipped name (n + 1) (body.getD [])
  | _ => []

end Entry

/-! ## Links -/

end Outline

namespace Tip

/-- How a tip is written at the left end. -/
def leftChars : Tip → List Char
  | plain => []
  | triangle => ['<', '|']
  | angle => ['<']
  | diamond => ['*']
  | circle => ['o']

def rightChars : Tip → List Char
  | plain => []
  | triangle => ['|', '>']
  | angle => ['>']
  | diamond => ['*']
  | circle => ['o']

end Tip

def Stroke.char : Stroke → Char
  | solid => '-'
  | dotted => '.'

/-- An arrow with a stroke of `n + 1` characters. -/
def Arrow.chars (a : Arrow) (n : Nat) : List Char :=
  a.head.leftChars ++ List.replicate (n + 1) a.stroke.char ++ a.tail.rightChars

namespace Outline

/-- Two names with an arrow of the table between them. -/
structure Link where
  left : Reference
  arrow : Arrow
  length : Nat
  right : Reference
  kind : RelationKind
  direction : Direction
  meaning : arrow.meaning? = some (kind, direction)

namespace Link

def chars (l : Link) : List Char :=
  l.left.chars ++ ' ' :: (l.arrow.chars l.length ++ ' ' :: l.right.chars)

/-- The source is on the left, unless the arrow is drawn from right to left. -/
def relationship (l : Link) : Relationship :=
  match l.direction with
  | .rightward => { source := l.left.text, target := l.right.text, kind := l.kind }
  | .leftward => { source := l.right.text, target := l.left.text, kind := l.kind }

end Link

end Outline

/-! ## Outlines -/

/-- A list of items, some of which hold items themselves. -/
inductive Outline where
  | nil
  | package (name : Outline.PackageName) (inner rest : Outline)
  | together (inner rest : Outline)
  | entity (e : Outline.Entry) (rest : Outline)
  | link (l : Outline.Link) (rest : Outline)

namespace Outline

open Text Source

def packageKeyword : List Char :=
  "package".toList

def packageLine (name : PackageName) : List Char :=
  packageKeyword ++ ' ' :: '"' :: (name.chars ++ ['"', ' ', '{'])

def togetherLine : List Char :=
  "together \x7b".toList

def lines : Outline → List (List Char)
  | nil => []
  | package name inner rest => packageLine name :: inner.lines ++ ['}'] :: rest.lines
  | together inner rest => togetherLine :: inner.lines ++ ['}'] :: rest.lines
  | entity e rest => e.lines ++ rest.lines
  | link l rest => l.chars :: rest.lines

/-- Blanks within a line. -/
structure Indent where
  chars : List Char
  blank : ∀ c ∈ chars, isBlank c = true ∧ isLineBreak c = false

/-- The text of lines with an indentation for each. -/
def layout (indent : Nat → Indent) (n : Nat) : List (List Char) → List Char
  | [] => []
  | l :: ls => (indent n).chars ++ l ++ '\n' :: layout indent (n + 1) ls

/-- The text of an outline; the indentation of a line may depend on its number. -/
def text (o : Outline) (indent : Nat → Indent) : String :=
  String.ofList (layout indent 1 o.lines)

/-! ### Meaning -/

/-- The entities inside a package. -/
def entities (package : Option String) : Outline → List Entity
  | nil => []
  | .package name inner rest => inner.entities (some name.text) ++ rest.entities package
  | together inner rest => inner.entities package ++ rest.entities package
  | entity e rest => e.entity package :: rest.entities package
  | link _ rest => rest.entities package

def relationships : Outline → List Relationship
  | nil => []
  | package _ inner rest => inner.relationships ++ rest.relationships
  | together inner rest => inner.relationships ++ rest.relationships
  | entity e rest => e.relationships ++ rest.relationships
  | link l rest => l.relationship :: rest.relationships

/-- The packages as they come up, with repetitions. -/
def packageNames : Outline → List String
  | nil => []
  | package name inner rest => name.text :: (inner.packageNames ++ rest.packageNames)
  | together inner rest => inner.packageNames ++ rest.packageNames
  | entity _ rest => rest.packageNames
  | link _ rest => rest.packageNames

def diagram (o : Outline) : Diagram where
  entities := o.entities none
  relationships := o.relationships
  packages := o.packageNames.eraseDups.map fun p =>
    (p, ((o.entities none).filter fun e => e.package == some p).map Entity.name)

/-- What has no place in a diagram, in an outline that starts at line `n` : the lines that
open a `together` block, and the refused lines of class bodies. -/
def skipped (n : Nat) : Outline → List Skipped
  | nil => []
  | package _ inner rest => inner.skipped (n + 1) ++ rest.skipped (n + inner.lines.length + 2)
  | together inner rest =>
    { fragment := { line := n, text := togetherLine }, reason := .unsupportedBlock } ::
      (inner.skipped (n + 1) ++ rest.skipped (n + inner.lines.length + 2))
  | entity e rest => e.skipped n ++ rest.skipped (n + e.lines.length)
  | link _ rest => rest.skipped (n + 1)

end Outline

end ClassSketch
