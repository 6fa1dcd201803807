import ClassSketch.Target.Basic

/-!
# C#

Attributes become properties. A package becomes a namespace, and every type
in a package is one level further in.
-/

namespace ClassSketch.Target.CSharp

open Layout

def typeNames : TypeNames where
  absent := "void"
  plain := [("string", "string"), ("str", "string"), ("text", "string"), ("bool", "bool"),
    ("boolean", "bool"), ("int", "int"), ("integer", "int"), ("long", "long"), ("short", "short"),
    ("byte", "byte"), ("float", "float"), ("double", "double"), ("number", "double"),
    ("decimal", "decimal"), ("char", "char"), ("character", "char"), ("void", "void"),
    ("object", "object"), ("any", "object"), ("date", "DateTime"), ("datetime", "DateTime")]
  containers := [("list", "List"), ("arraylist", "List"), ("array", "List"), ("map", "Dictionary"),
    ("hashmap", "Dictionary"), ("dict", "Dictionary"), ("dictionary", "Dictionary"),
    ("set", "HashSet"), ("hashset", "HashSet"), ("collection", "ICollection"),
    ("iterable", "IEnumerable")]
  applied := angled "object"

def access : Visibility → String
  | .own => "private"
  | .inherited => "protected"
  | .package => "internal"
  | _ => "public"

def placeholder : Placeholder → String
  | .boolean => "false"
  | .numeric => "0"
  | .character => "' '"
  | .text => "\"\""
  | _ => "default"

def parameters (ps : List Parameter) : String :=
  commas (ps.map fun p => typeNames.name p.type ++ " " ++ p.name)

def paramTags (ps : List Parameter) : List String :=
  ps.map fun p => "/// <param name=\"" ++ p.name ++ "\">The " ++ p.name ++ "</param>"

def property (a : Attribute) : String :=
  " ".intercalate ([access a.visibility] ++ (if a.isStatic then ["static"] else []) ++
    [typeNames.name a.type, a.name]) ++ " " ++ openBrace ++
    (if a.isFinal then " get; " else " get; set; ") ++ closeBrace

def constructorHead (owner : String) (hasParent : Bool) (m : Method) : String :=
  access m.visibility ++ " " ++ owner ++ "(" ++ parameters m.parameters ++ ")" ++
    wordIf hasParent " : base()"

/-- A method's head; in an interface without visibility and without `abstract`. -/
def signature (inInterface : Bool) (m : Method) : String :=
  " ".intercalate ((if inInterface then [] else [access m.visibility]) ++
    (if m.isAbstract && !inInterface then ["abstract"] else []) ++
    (if m.isStatic then ["static"] else []) ++
    [typeNames.name m.returns, m.name ++ "(" ++ parameters m.parameters ++ ")"])

def body (m : Method) : List String :=
  "// TODO: Implement method" ::
    if returnsValue m then ["return " ++ placeholder (.ofType? m.returns) ++ ";"] else []

def classHead (d : Diagram) (c : ClassDecl) : String :=
  let bases := ((d.parent? c).map (·.name)).toList ++ (d.implemented c).map (·.name)
  (if c.isAbstract then "public abstract class " else "public class ") ++ c.name ++
    typeParams c.generics ++ if bases.isEmpty then "" else " : " ++ commas bases

def interfaceHead (d : Diagram) (i : InterfaceDecl) : String :=
  let parents := (d.extended i).map (·.name)
  "public interface " ++ i.name ++ typeParams i.generics ++
    if parents.isEmpty then "" else " : " ++ commas parents

def constants (e : EnumDecl) : List String :=
  numbered 0 (fun v n => v ++ " = " ++ n) e.values

/-! ## Text -/

def docText (text : String) (ps : List Parameter) (returns : Option TypeExpr) : String :=
  joinLines (["/// <summary>", "/// " ++ text, "/// </summary>"] ++ paramTags ps ++
    match returns with
    | some t =>
      if Placeholder.ofType t = .void then [] else ["/// <returns>" ++ t.render ++ "</returns>"]
    | none => [])

def constructorText (m : Margin) (owner : String) (hasParent : Bool) (c : Method) : Spliced := do
  let block ← bracedBelowText m (constructorHead owner hasParent c) "// TODO: Implement constructor"
  return docText ("Initializes a new instance of " ++ owner) c.parameters none ++ "\n" ++ block

def methodText (m : Margin) (c : Method) : Spliced := do
  let text ← (if c.isAbstract then .ok (signature false c ++ ";")
    else bracedBelowText m (signature false c) (joinLines (body c)))
  return docText c.name c.parameters c.returns ++ "\n" ++ text

def interfaceMethodText (c : Method) : String :=
  docText c.name c.parameters c.returns ++ "\n" ++ (signature true c ++ ";")

/-- A type with its summary. In a package the whole text is moved in again. -/
def typeText (m : Margin) (inPackage : Bool) (text head : String) (blocks : List Spliced) :
    Spliced := do
  let text ← enclosedText m ["/// <summary>", "/// " ++ text, "/// </summary>", head, openBrace]
    blocks [closeBrace]
  let text ← (if inPackage then m.indent 1 text else .ok text)
  return text ++ "\n\n"

def classText (m : Margin) (d : Diagram) (c : ClassDecl) : Spliced :=
  typeText m (d.packageOf c.name).isSome (c.name ++ " class") (classHead d c)
    (blockTexts (c.attributes.map property) ++
      (constructors c).map (constructorText m c.name (d.parent? c).isSome) ++
      c.methods.map (methodText m))

def interfaceText (m : Margin) (d : Diagram) (i : InterfaceDecl) : Spliced :=
  typeText m (d.packageOf i.name).isSome (i.name ++ " interface") (interfaceHead d i)
    (i.methods.map fun c => .ok (interfaceMethodText c))

def enumText (m : Margin) (d : Diagram) (e : EnumDecl) : Spliced :=
  let values := ",\n".intercalate (constants e)
  typeText m (d.packageOf e.name).isSome (e.name ++ " enum") ("public enum " ++ e.name)
    (if values = "" then [] else [.ok values])

def emitter : Emitter where
  indentSize := 4
  header := "using System;\nusing System.Collections.Generic;\n\n"
  packageStart := fun _ name => .ok ("namespace " ++ name ++ "\n" ++ openBrace ++ "\n")
  packageEnd := fun _ _ => .ok (closeBrace ++ "\n\n")
  classText := classText
  interfaceText := interfaceText
  enumText := enumText
  typeName := typeNames.name

end ClassSketch.Target.CSharp
