import ClassSketch.Text.Case
import ClassSketch.TypeExpr.Reader

/-!
# Placeholder values

A generated body returns a placeholder, and a generated field may need an
initial value. Which one depends on the kind of the type: the names of the
common primitive types are known, in any case, and every other type, in
particular every generic one, is of kind `other`.
-/

namespace ClassSketch

inductive Placeholder where
  | boolean
  | numeric
  | character
  | text
  | void
  | other
deriving DecidableEq

namespace Placeholder

def ofKey : String → Placeholder
  | "boolean" | "bool" => boolean
  | "int" | "integer" | "long" | "short" | "byte" | "float" | "double" | "decimal" | "number"
  | "bigdecimal" | "biginteger" => numeric
  | "char" | "character" => character
  | "string" | "str" | "text" => text
  | "void" | "none" | "unit" => void
  | _ => other

def ofName (name : String) : Placeholder :=
  ofKey (Text.foldKey (Text.trim name.toList))

def ofType (t : TypeExpr) : Placeholder :=
  if t.isGeneric then other else ofName t.name

/-- The kind of a type as it is written. -/
def ofText (s : String) : Placeholder :=
  if TypeExpr.looksGeneric s then other else ofName s

/-- No type is of kind `void`. -/
def ofType? (t : Option TypeExpr) : Placeholder :=
  t.elim void ofType

def word : Placeholder → String
  | boolean => "boolean"
  | numeric => "numeric"
  | character => "character"
  | text => "text"
  | void => "void"
  | other => "other"

end Placeholder

end ClassSketch
