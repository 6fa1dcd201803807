import ClassSketch.Target.Basic

/-!
# TypeScript

A package becomes a namespace, and every type in a package is one level
further in. Several constructors become signatures over one that takes any
arguments.
-/

namespace ClassSketch.Target.TypeScript

open Layout

def typeNames : TypeNames where
  absent := "void"
  plain := [("string", "string"), ("str", "string"), ("text", "string"), ("char", "string"),
    ("character", "string"), ("bool", "boolean"), ("boolean", "boolean"), ("int", "number"),
    ("integer", "number"), ("long", "number"), ("short", "number"), ("byte", "number"),
    ("float", "number"), ("double", "number"), ("decimal", "number"), ("number", "number"),
    ("void", "void"), ("object", "any"), ("any", "any"), ("date", "Date")]
  containers := [("list", "Array"), ("arraylist", "Array"), ("array", "Array"),
    ("collection", "Array"), ("map", "Map"), ("hashmap", "Map"), ("dict", "Map"),
    ("dictionary", "Map"), ("set", "Set"), ("hashset", "Set"), ("iterable", "Iterable"),
    ("promise", "Promise")]
  applied := angled "any"

/-- The nearest match for package visibility is `protected`. -/
def access : Visibility → String
  | .own => "private"
  | .inherited | .package => "protected"
  | _ => "public"

def placeholder : Placeholder → String
  | .boolean => "false"
  | .numeric => "0"
  | .character => "\" \""
  | .text => "\"\""
  | _ => "null as any"

def parameters (ps : List Parameter) : String :=
  commas (ps.map fun p => p.name ++ ": " ++ typeNames.name p.type)

def field (a : Attribute) : String :=
  " ".intercalate ([access a.visibility] ++ (if a.isStatic then ["static"] else []) ++
    (if a.isFinal then ["readonly"] else []) ++ [a.name ++ ": " ++ typeNames.name a.type ++ ";"])

def constructorHead (m : Method) : String :=
  access m.visibility ++ " constructor(" ++ parameters m.parameters ++ ")"

def constructorBody (hasParent : Bool) : List String :=
  (if hasParent then ["super();"] else []) ++ ["// TODO: Implement constructor"]

/-- A method's head; in an interface without any modifier. -/
def signature (inInterface : Bool) (m : Method) : String :=
  " ".intercalate ((if inInterface then [] else [access m.visibility]) ++
    (if m.isAbstract && !inInterface then ["abstract"] else []) ++
    (if m.isStatic && !inInterface then ["static"] else []) ++
    [m.name ++ "(" ++ parameters m.parameters ++ "): " ++ typeNames.name m.returns])

def body (m : Method) : List String :=
  "// TODO: Implement method" ::
    if returnsValue m then ["return " ++ placeholder (.ofType? m.returns) ++ ";"] else []

def classHead (d : Diagram) (c : ClassDecl) : String :=
  let interfaces := (d.implemented c).map (·.name)
  (if c.isAbstract then "export abstract class " else "export class ") ++ c.name ++
    typeParams c.generics ++ ((d.parent? c).elim "" fun p => " extends " ++ p.name) ++
    if interfaces.isEmpty then "" else " implements " ++ commas interfaces

def interfaceHead (d : Diagram) (i : InterfaceDecl) : String :=
  let parents := (d.extended i).map (·.name)
  "export interface " ++ i.name ++ typeParams i.generics ++
    if parents.isEmpty then "" else " extends " ++ commas parents

def constants (e : EnumDecl) : List String :=
  numbered 0 (fun v n => v ++ " = " ++ n ++ ",") e.values

/-! ## Text -/

/-- One constructor for all that are declared, below their signatures if there are several. -/
def constructorText (m : Margin) (hasParent : Bool) : List Method → List Spliced
  | [] => []
  | [c] => [bracedText m (constructorHead c) (joinLines (constructorBody hasParent))]
  | cs => [do
    let block ← bracedText m "public constructor(...args: any[])"
      (joinLines (constructorBody hasParent))
    return joinLines (cs.map (fun c => constructorHead c ++ ";") ++ [block])]

def methodText (m : Margin) (c : Method) : Spliced :=
  if c.isAbstract then .ok (signature false c ++ ";")
  else bracedText m (signature false c) (joinLines (body c))

/-- A type with its comment. In a package the whole text is moved in again. -/
def typeText (m : Margin) (inPackage : Bool) (summary head : String) (blocks : List Spliced) :
    Spliced := do
  let text ← enclosedText m ["/** " ++ summary ++ " */", head ++ " " ++ openBrace] blocks [closeBrace]
  let text ← (if inPackage then m.indent 1 text else .ok text)
  return text ++ "\n\n"

def classText (m : Margin) (d : Diagram) (c : ClassDecl) : Spliced :=
  typeText m (d.packageOf c.name).isSome (c.name ++ " class") (classHead d c)
    (blockTexts (c.attributes.map field) ++
      constructorText m (d.parent? c).isSome (constructors c) ++ c.methods.map (methodText m))

def interfaceText (m : Margin) (d : Diagram) (i : InterfaceDecl) : Spliced :=
  typeText m (d.packageOf i.name).isSome (i.name ++ " interface") (interfaceHead d i)
    (i.methods.map fun c => .ok (signature true c ++ ";"))

def enumText (m : Margin) (d : Diagram) (e : EnumDecl) : Spliced :=
  typeText m (d.packageOf e.name).isSome (e.name ++ " enum") ("export enum " ++ e.name)
    (blockTexts (constants e))

def emitter : Emitter where
  indentSize := 2
  packageStart := fun _ name => .ok ("export namespace " ++ name ++ " " ++ openBrace ++ "\n")
  packageEnd := fun _ _ => .ok (closeBrace ++ "\n\n")
  classText := classText
  interfaceText := interfaceText
  enumText := enumText
  typeName := typeNames.name

end ClassSketch.Target.TypeScript
