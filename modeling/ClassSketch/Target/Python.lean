import ClassSketch.Target.Basic

/-!
# Python

Interfaces and abstract classes derive from `ABC`. Members that are not for
everyone take a leading underscore. Several declared constructors become
overload signatures over one `__init__`. Instance attributes are assigned in
`__init__`, or declared in the class when an abstract class has none.
-/

namespace ClassSketch.Target.Python

open Layout

/-- A container of the language with `Any` for every argument; a container that
is not known stands alone. -/
def bracketed (written : String) (container : Option String) (n : Nat) : String :=
  match container with
  | none => written
  | some c => c ++ "[" ++ commas (List.replicate n "Any") ++ "]"

def typeNames : TypeNames where
  absent := "None"
  plain := [("string", "str"), ("str", "str"), ("text", "str"), ("char", "str"),
    ("character", "str"), ("bool", "bool"), ("boolean", "bool"), ("int", "int"),
    ("integer", "int"), ("long", "int"), ("short", "int"), ("byte", "int"), ("float", "float"),
    ("double", "float"), ("number", "float"), ("decimal", "float"), ("void", "None"),
    ("object", "Any"), ("any", "Any"), ("list", "List[Any]"), ("map", "Dict[Any, Any]"),
    ("dict", "Dict[Any, Any]"), ("set", "Set[Any]")]
  containers := [("list", "List"), ("arraylist", "List"), ("array", "List"), ("collection", "List"),
    ("map", "Dict"), ("hashmap", "Dict"), ("dict", "Dict"), ("dictionary", "Dict"), ("set", "Set"),
    ("hashset", "Set"), ("iterable", "Iterable"), ("optional", "Optional")]
  applied := bracketed

def underscore : Visibility → String
  | .own | .inherited => "_"
  | _ => ""

/-- The placeholder of a kind, if it is not `None`. -/
def placeholder? : Placeholder → Option String
  | .boolean => some "False"
  | .numeric => some "0"
  | .character => some "\" \""
  | .text => some "\"\""
  | _ => none

def placeholder (t : Option TypeExpr) : String :=
  (placeholder? (.ofType? t)).getD "None"

/-- The type of a field, optional where its placeholder is `None`. -/
def fieldType (t : Option TypeExpr) : String :=
  let name := typeNames.name t
  if (placeholder? (.ofType? t)).isSome || name = "Any" || name = "None" then name
  else "Optional[" ++ name ++ "]"

def memberName (a : Attribute) : String :=
  underscore a.visibility ++ a.name

def parameters (withSelf : Bool) (ps : List Parameter) : String :=
  commas ((if withSelf then ["self"] else []) ++ ps.map fun p => p.name ++ ": " ++ typeNames.name p.type)

def docString (text : String) : String :=
  "\"\"\"" ++ text ++ "\"\"\""

def classVariable (a : Attribute) : String :=
  memberName a ++ ": ClassVar[" ++ fieldType a.type ++ "] = " ++ placeholder a.type

def typedName (a : Attribute) : String :=
  memberName a ++ ": " ++ typeNames.name a.type

/-- The assignment of an attribute in `__init__`, from the parameter of its name if
there is one. -/
def assignment (params : List String) (a : Attribute) : String :=
  if params.contains a.name then "self." ++ memberName a ++ " = " ++ a.name
  else "self." ++ memberName a ++ ": " ++ fieldType a.type ++ " = " ++ placeholder a.type

def initializerBody (params : List String) (attrs : List Attribute) (hasParent : Bool) :
    List String :=
  [docString "Initialize a new instance."] ++
    (if hasParent then ["super().__init__()"] else []) ++ attrs.map (assignment params) ++
    ["# TODO: Implement constructor"]

def overloadTexts (m : Method) : List String :=
  ["@overload", "def __init__(" ++ parameters true m.parameters ++ ") -> None: ..."]

def decorators (isAbstract : Bool) (m : Method) : List String :=
  (if m.isStatic then ["@staticmethod"] else []) ++ if isAbstract then ["@abstractmethod"] else []

def signature (m : Method) : String :=
  "def " ++ underscore m.visibility ++ m.name ++ "(" ++ parameters (!m.isStatic) m.parameters ++
    ") -> " ++ typeNames.name m.returns ++ ":"

def body (m : Method) : List String :=
  [docString (m.name ++ " method."), "# TODO: Implement method"] ++
    if returnsValue m then ["return " ++ placeholder m.returns] else []

def typeVariables (generics : List String) : List String :=
  generics.map fun g => g ++ " = TypeVar(\"" ++ g ++ "\")"

def classHead (name : String) (generics bases : List String) : String :=
  let bases := if generics.isEmpty then bases else bases ++ ["Generic[" ++ commas generics ++ "]"]
  if bases.isEmpty then "class " ++ name ++ ":" else "class " ++ name ++ "(" ++ commas bases ++ "):"

/-- The attributes declared in the class itself. -/
def fields (c : ClassDecl) : List String :=
  (staticAttributes c).map classVariable ++
    if c.isAbstract && c.constructors.isEmpty then (instanceAttributes c).map typedName else []

def classBases (d : Diagram) (c : ClassDecl) : List String :=
  let bases := ((d.parent? c).map (·.name)).toList ++ (d.implemented c).map (·.name)
  if c.isAbstract && bases.isEmpty then ["ABC"] else bases

def interfaceBases (d : Diagram) (i : InterfaceDecl) : List String :=
  let parents := (d.extended i).map (·.name)
  if parents.isEmpty then ["ABC"] else parents

def constants (e : EnumDecl) : List String :=
  numbered 1 (fun v n => v ++ " = " ++ n) e.values

def imports : List String :=
  ["from __future__ import annotations", "", "from abc import ABC, abstractmethod",
    "from enum import Enum",
    "from typing import Any, ClassVar, Dict, Generic, Iterable, List, Optional, Set, TypeVar, overload"]

/-! ## Text -/

def initializerText (m : Margin) (signature : String) (params : List String)
    (attrs : List Attribute) (hasParent : Bool) : Spliced := do
  let body ← m.indent 1 (joinLines (initializerBody params attrs hasParent))
  return "def __init__(" ++ signature ++ ") -> None:" ++ "\n" ++ body

def initializerTexts (m : Margin) (attrs : List Attribute) (hasParent : Bool) :
    List Method → List Spliced
  | [] => []
  | [c] => [initializerText m (parameters true c.parameters) (c.parameters.map (·.name)) attrs
      hasParent]
  | cs => cs.map (fun c => .ok (joinLines (overloadTexts c))) ++
      [initializerText m "self, *args: Any, **kwargs: Any" [] attrs hasParent]

/-- The head of a method below its decorators, each with a line feed at its end. -/
def definitionText (isAbstract : Bool) (c : Method) : String :=
  String.join ((decorators isAbstract c).map (· ++ "\n")) ++ signature c

def abstractText (c : Method) : String :=
  definitionText true c ++ " ..."

def methodText (m : Margin) (c : Method) : Spliced :=
  if c.isAbstract then .ok (abstractText c)
  else do
    let body ← m.indent 1 (joinLines (body c))
    return definitionText false c ++ "\n" ++ body

def classBlockText (m : Margin) (name : String) (generics bases : List String)
    (blocks : List Spliced) : Spliced := do
  let texts ← blocks.mapM id
  let inner ← m.indent 1 ("\n\n".intercalate texts)
  let typeVars := if generics.isEmpty then [] else typeVariables generics ++ [""]
  return joinLines (typeVars ++ [classHead name generics bases] ++ [inner]) ++ "\n\n\n"

def classText (m : Margin) (d : Diagram) (c : ClassDecl) : Spliced :=
  classBlockText m c.name c.generics (classBases d c)
    ([.ok (docString (c.name ++ " class."))] ++ blockTexts (fields c) ++
      initializerTexts m (instanceAttributes c) (d.parent? c).isSome (constructors c) ++
      c.methods.map (methodText m))

def interfaceText (m : Margin) (d : Diagram) (i : InterfaceDecl) : Spliced :=
  classBlockText m i.name i.generics (interfaceBases d i)
    (.ok (docString (i.name ++ " interface.")) :: i.methods.map fun c => .ok (abstractText c))

def enumText (m : Margin) (_ : Diagram) (e : EnumDecl) : Spliced :=
  classBlockText m e.name [] ["Enum"]
    (.ok (docString (e.name ++ " enum.")) :: blockTexts (constants e))

def emitter : Emitter where
  indentSize := 4
  header := joinLines imports ++ "\n\n"
  packageStart := fun _ name => .ok ("# Package: " ++ name ++ "\n\n")
  classText := classText
  interfaceText := interfaceText
  enumText := enumText
  typeName := typeNames.name

end ClassSketch.Target.Python
