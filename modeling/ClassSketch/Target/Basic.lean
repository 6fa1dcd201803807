import ClassSketch.Diagram.Lookup
import ClassSketch.Layout.Indent
import ClassSketch.Target.Placeholder

/-!
# Emitters

An emitter turns the parts of a diagram into text of one target language: what
opens and closes the file, what opens and closes a package, and each kind of
entity. It is given the margin, and puts its text together from parts that are
already moved in.

This module also has what several languages share: the naming of types, and
shapes such as blocks in braces.
-/

namespace ClassSketch

open Layout

structure Emitter where
  /-- Spaces per level unless the options say otherwise. -/
  indentSize : Int
  /-- Whether entities are grouped by package. -/
  hasPackages : Bool := true
  header : String := ""
  footer : Diagram → String := fun _ => ""
  packageStart : Margin → String → Spliced
  packageEnd : Margin → String → Spliced := fun _ _ => .ok ""
  classText : Margin → Diagram → ClassDecl → Spliced
  interfaceText : Margin → Diagram → InterfaceDecl → Spliced
  enumText : Margin → Diagram → EnumDecl → Spliced
  typeName : Option TypeExpr → String

def Emitter.entityText (em : Emitter) (m : Margin) (d : Diagram) : Entity → Spliced
  | .cls c => em.classText m d c
  | .interface i => em.interfaceText m d i
  | .enum e => em.enumText m d e

namespace Target

/-! ## Type names -/

/-- How a language names the types of a diagram. Tables are keyed by lower-case names. -/
structure TypeNames where
  /-- Stands where there is no type. -/
  absent : String
  plain : List (String × String)
  containers : List (String × String)
  /-- The written name of a generic type, the container of the language if it is
  known, and the number of arguments. -/
  applied : String → Option String → Nat → String

def TypeNames.name (names : TypeNames) : Option TypeExpr → String
  | none => names.absent
  | some t =>
    let key := Text.foldKey t.name.toList
    if t.isGeneric then names.applied t.name (names.containers.lookup key) t.args.length
    else (names.plain.lookup key).getD t.name

/-- A container with the same filler for every argument, in angle brackets. -/
def angled (filler : String) (written : String) (container : Option String) (n : Nat) : String :=
  container.getD written ++ "<" ++ ", ".intercalate (List.replicate n filler) ++ ">"

/-! ## Text shapes -/

/-- Words separated by spaces, the empty ones left out. -/
def words (ws : List String) : String :=
  " ".intercalate (ws.filter (· ≠ ""))

def commas (ws : List String) : String :=
  ", ".intercalate ws

/-- A word that only stands under a condition. -/
def wordIf (b : Bool) (w : String) : String :=
  if b then w else ""

/-- Type parameters in angle brackets, nothing if there are none. -/
def typeParams (names : List String) : String :=
  if names.isEmpty then "" else "<" ++ commas names ++ ">"

/-- Items with their positions, counted from `first`. -/
def numbered (first : Nat) (f : String → String → String) (values : List String) : List String :=
  (values.zipIdx first).map fun (v, i) => f v (toString i)

/-! ## Blocks -/

def openBrace : String := "\x7b"

def closeBrace : String := "\x7d"

/-- A block whose opening brace ends the head line. -/
def bracedText (m : Margin) (head body : String) : Spliced := do
  let inner ← m.indent 1 body
  return head ++ " " ++ openBrace ++ "\n" ++ inner ++ "\n" ++ closeBrace

/-- A block whose opening brace has a line of its own. -/
def bracedBelowText (m : Margin) (head body : String) : Spliced := do
  let inner ← m.indent 1 body
  return head ++ "\n" ++ openBrace ++ "\n" ++ inner ++ "\n" ++ closeBrace

/-- A comment with a star before each line. -/
def starCommentText (texts : List String) : String :=
  joinLines (["/**"] ++ texts.map (" * " ++ ·) ++ [" */"])

/-- Texts with empty lines between them, in one text and moved in, between the texts
above and below. Without texts there is nothing in between, not even an empty line. -/
def enclosedText (m : Margin) (above : List String) (blocks : List Spliced)
    (below : List String) : Spliced := do
  let texts ← blocks.mapM id
  let inner ← if texts.isEmpty then pure [] else (fun s => [s]) <$> m.indent 1 ("\n\n".intercalate texts)
  return joinLines (above ++ inner ++ below)

/-- A type in braces below a comment with stars, and an empty line below it. -/
def starredText (m : Margin) (comment : List String) (head : String) (blocks : List Spliced) :
    Spliced := do
  let text ← enclosedText m
    (["/**"] ++ comment.map (" * " ++ ·) ++ [" */", head ++ " " ++ openBrace]) blocks [closeBrace]
  return text ++ "\n\n"

/-- One block of all texts, or none if there are no texts. -/
def blockTexts (texts : List String) : List Spliced :=
  if texts.isEmpty then [] else [.ok (joinLines texts)]

/-- A text below a comment, which may be empty. -/
def commented (comment text : String) : String :=
  if comment = "" then text else comment ++ "\n" ++ text

/-! ## Members -/

/-- A constructor without parameters. -/
def defaultConstructor (c : ClassDecl) : Method :=
  { name := c.name, returns := none }

/-- The declared constructors; the default one if a concrete class declares none. -/
def constructors (c : ClassDecl) : List Method :=
  if c.constructors.isEmpty && !c.isAbstract then [defaultConstructor c] else c.constructors

def staticAttributes (c : ClassDecl) : List Attribute :=
  c.attributes.filter (·.isStatic)

def instanceAttributes (c : ClassDecl) : List Attribute :=
  c.attributes.filter (!·.isStatic)

/-- The parameters of several constructors in one list, each name once. -/
def mergedParameters (ms : List Method) : List Parameter :=
  (ms.flatMap (·.parameters)).foldl
    (fun ps p => if ps.any (·.name == p.name) then ps else ps ++ [p]) []

/-- Whether a method returns a value. -/
def returnsValue (m : Method) : Bool :=
  Placeholder.ofType? m.returns != .void

end Target

end ClassSketch
