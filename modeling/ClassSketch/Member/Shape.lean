import ClassSketch.Text.Scan
import ClassSketch.Text.Word

/-!
# The two forms of a member

A member is a call form `name(params)` or a field form `name`, with its type
either after a colon or in front: `name: Type`, `Type name`. A type in
front is a dotted word, possibly with `<...>` and with `[]`.

Where a bracket can be closed in several places the last one on the line
that lets the rest be read is taken, both for the `>` of a leading type and
for the `)` of the parameters; a reading with a leading type is preferred
to one without.
-/

namespace ClassSketch.Member

open Text

/-- What follows the array marks `[]` at the front. -/
def afterArrayMarks : List Char → List Char
  | '[' :: ']' :: s => afterArrayMarks s
  | s => s

/-- What may follow type arguments at the front, the longest arguments first. -/
def argumentRests : List Char → List (List Char)
  | '<' :: s => (restsAfter '>' s).reverse
  | s => [s]

/-- The ways to read a type and at least one blank at the front: what follows the
type, and what follows the blanks. -/
def leadingTypes (s : List Char) : List (List Char × List Char) :=
  match takeSome isDotted s with
  | none => []
  | some (_, rest) =>
    (argumentRests rest).filterMap fun rest =>
      (afterBlanks? (afterArrayMarks rest)).map fun rest' => (afterArrayMarks rest, rest')

/-- The type after a colon, when that is all that is left; `some none` when
nothing is left. -/
def typeSuffix? (s : List Char) : Option (Option (List Char)) :=
  match trimStart s with
  | [] => some none
  | ':' :: t => if (trimStart t).isEmpty || '\n' ∈ trimStart t then none else some (some (trimStart t))
  | _ => none

/-- A call form in its parts, as text. -/
structure CallText where
  name : List Char
  params : List Char
  type : Option (List Char)

/-- `name(params)` with an optional type after it. -/
def plainCall? (s : List Char) : Option CallText :=
  match takeSome isWord s with
  | none => none
  | some (name, rest) =>
    match trimStart rest with
    | '(' :: inner =>
      (restsAfter ')' inner).reverse.findSome? fun rest =>
        (typeSuffix? rest).map fun type => { name, params := before (')' :: rest) inner, type }
    | _ => none

/-- A call form; a type after it overrides the one in front. -/
def call? (s : List Char) : Option CallText :=
  ((leadingTypes s).findSome? fun (afterType, rest) =>
    (plainCall? rest).map fun c => { c with type := c.type <|> some (before afterType s) }) <|>
    plainCall? s

/-- A field form in its parts, as text. -/
structure FieldText where
  name : List Char
  type : Option (List Char)

def suffixedField? (s : List Char) : Option FieldText :=
  match takeSome isWord s with
  | none => none
  | some (name, rest) => (typeSuffix? rest).map fun type => { name, type }

def field? (s : List Char) : Option FieldText :=
  suffixedField? s <|> (leadingTypes s).findSome? fun (afterType, rest) =>
    if isWordText rest then some { name := rest, type := some (before afterType s) } else none

end ClassSketch.Member
