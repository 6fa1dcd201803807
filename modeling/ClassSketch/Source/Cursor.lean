import ClassSketch.Arrow.Reader
import ClassSketch.Member.Declaration
import ClassSketch.Source.Header

/-!
# Reading fragment by fragment

The reader keeps a diagram and a cursor. The cursor knows the open blocks
that are not entity bodies, the entity whose body is open and how many
braces are open in it, and a header that a lone `{` may still open. An
entity is known by its position in the diagram.

`Reader.step` applies the first rule that fits a fragment:

1. a lone `{` opens the body of the pending entity or the pending package;
2. a package header, inside an entity body as well;
3. `}` outside a body closes the innermost block;
4. an entity header; inside a body only one that writes its kind out;
5. `}` inside a body;
6. inside a body, a member or a list of enum values;
7. a relationship;
8. a line that ends with `{` opens a block of unknown kind.

A fragment that contributes nothing to the diagram is reported with a
reason.
-/

namespace ClassSketch.Source

open Text Member

/-- Why a fragment contributes nothing. -/
inductive SkipReason where
  | unbalancedBrace
  | enumMember
  | enumValue
  | member
  | unsupportedBlock
  | unrecognized
deriving DecidableEq

def SkipReason.message : SkipReason → String
  | unbalancedBrace => "unbalanced closing brace"
  | enumMember => "enum members are not supported"
  | enumValue => "unrecognized enum value"
  | member => "unrecognized member"
  | unsupportedBlock => "unsupported block"
  | unrecognized => "unrecognized line"

structure Cursor where
  /-- Open blocks, innermost first; `none` is a block that is not a package. -/
  blocks : List (Option String) := []
  /-- A package declared without braces, in force until something ends it. -/
  loosePackage : Option String := none
  /-- The entity whose body is open. -/
  entity : Option Nat := none
  /-- Whether a body is open. -/
  inEntity : Bool := false
  /-- Braces open in that body, its own included. -/
  depth : Nat := 0
  /-- The entity that a lone `{` would open. -/
  pending : Option Nat := none
  /-- The package that a lone `{` would open. -/
  pendingPackage : Option String := none
deriving DecidableEq

namespace Cursor

/-- The package that a new entity belongs to. -/
def package (c : Cursor) : Option String :=
  c.loosePackage <|> c.blocks.findSome? id

def openPackage (c : Cursor) (name : String) : Cursor :=
  { c with blocks := some name :: c.blocks, loosePackage := none }

def announcePackage (c : Cursor) (name : String) : Cursor :=
  { c with loosePackage := some name, pendingPackage := some name }

def enter (c : Cursor) (entity : Nat) : Cursor :=
  { c with entity := some entity, inEntity := true, depth := 1 }

def leave (c : Cursor) : Cursor :=
  { c with entity := none, inEntity := false, depth := 0 }

/-- The entity that lines of a body are for. -/
def body? (c : Cursor) : Option Nat :=
  if c.inEntity then c.entity else none

/-- Closes a brace of the open body, and the body with its last one. -/
def closeBody (c : Cursor) : Cursor :=
  if c.depth ≤ 1 then c.leave else { c with depth := c.depth - 1 }

def settle (c : Cursor) : Cursor :=
  { c with pending := none, pendingPackage := none }

end Cursor

structure Reader where
  cursor : Cursor := {}
  diagram : Diagram := {}

namespace Reader

def withCursor (r : Reader) (f : Cursor → Cursor) : Reader :=
  { r with cursor := f r.cursor }

/-! ## Rules -/

def readPackage (r : Reader) (h : PackageHeader) : Reader :=
  let name := String.ofList h.name
  { cursor := if h.opens then r.cursor.openPackage name else r.cursor.announcePackage name
    diagram := { r.diagram with packages := r.diagram.packages.ensure name } }

/-- Closes the innermost block. A package that ends takes the loose package with it. -/
def closeBlock (r : Reader) : Reader × Option SkipReason :=
  match r.cursor.blocks with
  | [] => (r, some .unbalancedBrace)
  | none :: blocks => (r.withCursor fun c => { c with blocks }, none)
  | some _ :: blocks => (r.withCursor fun c => { c with blocks, loosePackage := none }, none)

/-- The diagram with the entity of a header and its supertypes. -/
def register (d : Diagram) (h : EntityHeader) (package : Option String) : Diagram where
  entities := d.entities ++ [h.entity package]
  relationships := d.relationships ++ h.relationships
  packages := package.elim d.packages fun p => d.packages.add p [String.ofList h.name]

def readHeader (r : Reader) (h : EntityHeader) (opens : Bool) : Reader :=
  let position := r.diagram.entities.length
  { cursor :=
      if opens then r.cursor.enter position
      else { r.cursor.leave with pending := some position }
    diagram := register r.diagram h r.cursor.package }

/-- The values that a line of an enum body lists. -/
def enumValues (text : List Char) : Except SkipReason (List String) :=
  if text.head?.any (fun c => (Visibility.ofSign? c).isSome) || !(Declaration.tags text).isEmpty ||
      '(' ∈ text then .error .enumMember
  else if (commaParts text).isEmpty || !(commaParts text).all isWordText then .error .enumValue
  else .ok ((commaParts text).map String.ofList)

/-- What keeps an entity from taking a line of its body, and the entity after the line. -/
def bodyLine (e : Entity) (text : List Char) : Option SkipReason × Entity :=
  match e with
  | .enum en =>
    match enumValues text with
    | .error reason => (some reason, e)
    | .ok vs => (none, .enum { en with values := en.values ++ vs })
  | e =>
    let (taken, e') := e.offer text
    (if taken then none else some .member, e')

/-- Reads a line of the body of the entity at `position`. A line that ends with
`{` opens a brace in the body, whatever becomes of the line. -/
def readBodyLine (r : Reader) (position : Nat) (line : List Char) : Reader × Option SkipReason :=
  let opens := line.getLast? = some '{'
  let text := if opens then trim line.dropLast else line
  let r' := if opens then r.withCursor fun c => { c with depth := c.depth + 1 } else r
  if opens ∧ text = [] then (r', none)
  else match r.diagram.entities[position]? with
    | none => (r', some .member)
    | some e =>
      let (reason, e') := bodyLine e text
      ({ r' with diagram := { r.diagram with entities := r.diagram.entities.set position e' } },
        reason)

def readOutside (r : Reader) (line : List Char) : Reader × Option SkipReason :=
  match Relationship.read? line with
  | some rel => ({ r with diagram := r.diagram.relate [rel] }, none)
  | none =>
    if line.getLast? = some '{' then
      (r.withCursor fun c => { c with blocks := none :: c.blocks }, some .unsupportedBlock)
    else (r, some .unrecognized)

/-- The entity header that counts here: inside a body the kind must be written out. -/
def header? (r : Reader) (line : List Char) : Option EntityHeader :=
  (EntityHeader.read? line).filter fun h => !r.cursor.inEntity || h.isExplicit

/-- The rules when no header waits for its brace. -/
def dispatch (r : Reader) (line : List Char) : Reader × Option SkipReason :=
  match PackageHeader.read? line with
  | some h => (r.readPackage h, none)
  | none =>
    if line = ['}'] ∧ r.cursor.inEntity = false then r.closeBlock
    else match r.header? line with
      | some h => (r.readHeader h (line.getLast? = some '{'), none)
      | none =>
        if line = ['}'] ∧ r.cursor.inEntity = true then (r.withCursor Cursor.closeBody, none)
        else match r.cursor.body? with
          | some position => r.readBodyLine position line
          | none => r.readOutside line

def step (r : Reader) (line : List Char) : Reader × Option SkipReason :=
  match r.cursor.pending, r.cursor.pendingPackage, decide (line = ['{']) with
  | some position, _, true => (r.withCursor fun c => { c.enter position with pending := none }, none)
  | none, some name, true => (r.withCursor fun c => c.settle.openPackage name, none)
  | _, _, _ => (r.withCursor Cursor.settle).dispatch line

end Reader

end ClassSketch.Source
