import ClassSketch.Target.Basic

/-!
# Kotlin

Constructors are secondary constructors, and static members live in a
companion object. A class that something inherits from is marked `open`.
-/

namespace ClassSketch.Target.Kotlin

open Layout

def typeNames : TypeNames where
  absent := "Unit"
  plain := [("string", "String"), ("str", "String"), ("text", "String"), ("bool", "Boolean"),
    ("boolean", "Boolean"), ("int", "Int"), ("integer", "Int"), ("long", "Long"),
    ("short", "Short"), ("byte", "Byte"), ("float", "Float"), ("double", "Double"),
    ("number", "Double"), ("decimal", "Double"), ("char", "Char"), ("character", "Char"),
    ("void", "Unit"), ("object", "Any"), ("any", "Any")]
  containers := [("list", "List"), ("arraylist", "MutableList"), ("array", "Array"), ("map", "Map"),
    ("hashmap", "MutableMap"), ("dict", "Map"), ("set", "Set"), ("hashset", "MutableSet"),
    ("collection", "Collection"), ("iterable", "Iterable")]
  applied := angled "Any"

/-- Public is the default and has no keyword. -/
def access : Visibility → String
  | .own => "private"
  | .inherited => "protected"
  | .package => "internal"
  | _ => ""

/-- A plain zero would be an `Int`. -/
def zero : String → String
  | "Long" => "0L"
  | "Float" => "0.0f"
  | "Double" => "0.0"
  | _ => "0"

def placeholder (t : Option TypeExpr) : String :=
  match Placeholder.ofType? t with
  | .boolean => "false"
  | .numeric => zero (typeNames.name t)
  | .character => "' '"
  | .text => "\"\""
  | _ => "null"

/-- The declared type of a property, nullable where its placeholder is `null`. -/
def propertyType (t : Option TypeExpr) : String :=
  let name := typeNames.name t
  match Placeholder.ofType? t with
  | .void | .other => if name.toList.getLast? = some '?' then name else name ++ "?"
  | _ => name

def parameters (ps : List Parameter) : String :=
  commas (ps.map fun p => p.name ++ ": " ++ typeNames.name p.type)

def property (a : Attribute) : String :=
  words [access a.visibility, if a.isFinal then "val" else "var",
    a.name ++ ": " ++ propertyType a.type] ++ " = " ++ placeholder a.type

def constructorHead (hasParent : Bool) (m : Method) : String :=
  let visibility := access m.visibility
  (if visibility = "" then "" else visibility ++ " ") ++
    "constructor(" ++ parameters m.parameters ++ ")" ++ wordIf hasParent " : super()"

/-- A method's head; in an interface without visibility and without `abstract`. -/
def signature (inInterface : Bool) (m : Method) : String :=
  words [wordIf (!inInterface) (access m.visibility), wordIf (m.isAbstract && !inInterface) "abstract",
    "fun " ++ m.name ++ "(" ++ parameters m.parameters ++ ")"] ++
    if returnsValue m then ": " ++ typeNames.name m.returns else ""

def body (m : Method) : List String :=
  "// TODO: Implement method" ::
    if returnsValue m then ["return " ++ placeholder m.returns] else []

/-- The keyword that says who may inherit from a class. -/
def inheritance (d : Diagram) (c : ClassDecl) : String :=
  if c.isAbstract then "abstract " else if d.hasSubclasses c then "open " else ""

/-- The supertypes in a class header. Without a constructor that calls it, the
parent is called in the header. -/
def supertypes (d : Diagram) (c : ClassDecl) : List String :=
  ((d.parent? c).map fun p => if (constructors c).isEmpty then p.name ++ "()" else p.name).toList ++
    (d.implemented c).map (·.name)

def classHead (d : Diagram) (c : ClassDecl) : String :=
  let supers := supertypes d c
  inheritance d c ++ "class " ++ c.name ++ typeParams c.generics ++
    if supers.isEmpty then "" else " : " ++ commas supers

def interfaceHead (d : Diagram) (i : InterfaceDecl) : String :=
  let parents := (d.extended i).map (·.name)
  "interface " ++ i.name ++ typeParams i.generics ++
    if parents.isEmpty then "" else " : " ++ commas parents

def constants (e : EnumDecl) : List String :=
  numbered 0 (fun v n => v ++ "(" ++ n ++ ")") e.values

/-! ## Text -/

def constructorText (m : Margin) (hasParent : Bool) (c : Method) : Spliced :=
  bracedText m (constructorHead hasParent c) "// TODO: Implement constructor"

def methodText (m : Margin) (c : Method) : Spliced :=
  if c.isAbstract then .ok (signature false c)
  else bracedText m (signature false c) (joinLines (body c))

def companionText (m : Margin) (c : ClassDecl) : List Spliced :=
  let members := (staticAttributes c).map (fun a => .ok (property a)) ++
    (c.methods.filter (·.isStatic)).map (methodText m)
  if members.isEmpty then []
  else [do
    let texts ← members.mapM id
    bracedText m "companion object" ("\n\n".intercalate texts)]

def classText (m : Margin) (d : Diagram) (c : ClassDecl) : Spliced :=
  starredText m [c.name ++ " class"] (classHead d c)
    (blockTexts ((instanceAttributes c).map property) ++
      (constructors c).map (constructorText m (d.parent? c).isSome) ++
      (c.methods.filter (!·.isStatic)).map (methodText m) ++ companionText m c)

def interfaceText (m : Margin) (d : Diagram) (i : InterfaceDecl) : Spliced :=
  starredText m [i.name ++ " interface"] (interfaceHead d i)
    (i.methods.map fun c => .ok (signature true c))

def enumText (m : Margin) (_ : Diagram) (e : EnumDecl) : Spliced :=
  starredText m [e.name ++ " enum"] ("enum class " ++ e.name ++ "(val value: Int)")
    (if e.values.isEmpty then [] else [.ok (",\n".intercalate (constants e) ++ ";")])

def emitter : Emitter where
  indentSize := 4
  packageStart := fun _ name => .ok ("package " ++ name ++ "\n\n")
  classText := classText
  interfaceText := interfaceText
  enumText := enumText
  typeName := typeNames.name

end ClassSketch.Target.Kotlin
