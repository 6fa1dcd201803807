import ClassSketch.TypeExpr.Reader
import ClassSketch.Diagram.Member

/-!
# Parameter lists

Parameters are separated by top-level commas. Each is written `name: Type`
or `Type name`, where only a space separates type and name; a parameter
without a type has type `Object`, and one without a name is left out.
-/

namespace ClassSketch.Parameter

open Text

/-- Splits at the last space: the text before it and after it. -/
def cutAtLastSpace (s : List Char) : Option (List Char × List Char) :=
  (cutAt ' ' s.reverse).map fun (a, b) => (b.reverse, a.reverse)

/-- The type written in `s`, or `Object` when nothing is written. -/
def typeOrObject (s : List Char) : TypeExpr :=
  if s.isEmpty then ⟨"Object", []⟩ else TypeExpr.read s

/-- Name and type text of one part of the list. -/
def nameAndType (part : List Char) : List Char × List Char :=
  match cutAt ':' part with
  | some (name, type) => (trim name, trim type)
  | none =>
    match cutAtLastSpace (trim part) with
    | some (type, name) => (name, trim type)
    | none => (trim part, [])

def read? (part : List Char) : Option Parameter :=
  let (name, type) := nameAndType part
  if name.isEmpty then none
  else some { name := String.ofList name, type := typeOrObject type }

def readAll (s : List Char) : List Parameter :=
  if allBlank s then [] else (TypeExpr.topLevelParts s).filterMap read?

end ClassSketch.Parameter
