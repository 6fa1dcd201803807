import ClassSketch.Target.Basic

/-!
# Java

One top-level type per entity, with doc comments and stub bodies. An enum
has a constant, a field and a getter for the number of each value.
-/

namespace ClassSketch.Target.Java

open Layout

def typeNames : TypeNames where
  absent := "void"
  plain := [("string", "String"), ("str", "String"), ("text", "String"), ("bool", "boolean"),
    ("boolean", "boolean"), ("int", "int"), ("integer", "int"), ("long", "long"),
    ("short", "short"), ("byte", "byte"), ("float", "float"), ("double", "double"),
    ("number", "double"), ("char", "char"), ("character", "char"), ("void", "void"),
    ("object", "Object"), ("any", "Object")]
  containers := [("list", "List"), ("array", "List"), ("arraylist", "ArrayList"), ("map", "Map"),
    ("dict", "Map"), ("hashmap", "HashMap"), ("set", "Set"), ("hashset", "HashSet"),
    ("collection", "Collection"), ("iterable", "Iterable"), ("optional", "Optional")]
  applied := angled "Object"

/-- Package visibility has no keyword. -/
def access : Visibility → String
  | .own => "private"
  | .inherited => "protected"
  | .package => ""
  | _ => "public"

def placeholder : Placeholder → String
  | .boolean => "false"
  | .numeric => "0"
  | .character => "' '"
  | .text => "\"\""
  | _ => "null"

def parameters (ps : List Parameter) : String :=
  commas (ps.map fun p => typeNames.name p.type ++ " " ++ p.name)

def docTexts (summary : String) (ps : List Parameter) (returns : Option TypeExpr) : List String :=
  [summary] ++ ps.map (fun p => "@param " ++ p.name ++ " the " ++ p.name) ++
    match returns with
    | some t => if Placeholder.ofType t = .void then [] else ["@return " ++ t.render]
    | none => []

def field (a : Attribute) : String :=
  words [access a.visibility, wordIf a.isStatic "static", wordIf a.isFinal "final",
    typeNames.name a.type, a.name] ++ ";"

def constructorHead (owner : String) (m : Method) : String :=
  let signature := access m.visibility ++ " " ++ owner ++ "(" ++ parameters m.parameters ++ ")"
  String.ofList (Text.trim signature.toList)

def constructorBody (hasParent : Bool) : List String :=
  (if hasParent then ["super();"] else []) ++ ["// TODO: Implement constructor"]

/-- A method's head; in an interface without visibility and without `abstract`. -/
def declaration (inInterface : Bool) (m : Method) : String :=
  words [wordIf (!inInterface) (access m.visibility), wordIf (m.isAbstract && !inInterface) "abstract",
    wordIf m.isStatic "static", typeNames.name m.returns,
    m.name ++ "(" ++ parameters m.parameters ++ ")"]

def body (m : Method) : List String :=
  "// TODO: Implement method" ::
    if returnsValue m then ["return " ++ placeholder (.ofType? m.returns) ++ ";"] else []

def classHead (d : Diagram) (c : ClassDecl) : String :=
  let interfaces := d.implemented c
  " ".intercalate (["public"] ++ (if c.isAbstract then ["abstract"] else []) ++
    ["class", c.name ++ typeParams c.generics] ++
    (match d.parent? c with
      | some p => ["extends", p.name]
      | none => []) ++
    if interfaces.isEmpty then [] else ["implements", commas (interfaces.map (·.name))])

def interfaceHead (d : Diagram) (i : InterfaceDecl) : String :=
  let parents := d.extended i
  "public interface " ++ i.name ++ typeParams i.generics ++
    if parents.isEmpty then "" else " extends " ++ commas (parents.map (·.name))

def constants (e : EnumDecl) : List String :=
  numbered 0 (fun v n => v ++ "(" ++ n ++ ")") e.values

/-! ## Text -/

def docText (summary : String) (ps : List Parameter) (returns : Option TypeExpr) : String :=
  starCommentText (docTexts summary ps returns)

def constructorText (m : Margin) (owner : String) (hasParent : Bool) (c : Method) : Spliced := do
  let block ← bracedText m (constructorHead owner c) (joinLines (constructorBody hasParent))
  return docText ("Creates a new " ++ owner) c.parameters none ++ "\n" ++ block

def signatureText (inInterface : Bool) (c : Method) : String :=
  docText c.name c.parameters c.returns ++ "\n" ++ (declaration inInterface c ++ ";")

def methodText (m : Margin) (c : Method) : Spliced :=
  if c.isAbstract then .ok (signatureText false c)
  else do
    let block ← bracedText m (declaration false c) (joinLines (body c))
    return docText c.name c.parameters c.returns ++ "\n" ++ block

def classText (m : Margin) (d : Diagram) (c : ClassDecl) : Spliced :=
  starredText m [c.name ++ " class"] (classHead d c)
    (blockTexts (c.attributes.map field) ++
      (constructors c).map (constructorText m c.name (d.parent? c).isSome) ++
      c.methods.map (methodText m))

def interfaceText (m : Margin) (d : Diagram) (i : InterfaceDecl) : Spliced :=
  starredText m [i.name ++ " interface"] (interfaceHead d i)
    (i.methods.map fun c => .ok (signatureText true c))

def enumText (m : Margin) (_ : Diagram) (e : EnumDecl) : Spliced :=
  starredText m [e.name ++ " enum"] ("public enum " ++ e.name)
    [.ok (if (constants e).isEmpty then ";" else ",\n".intercalate (constants e) ++ ";"),
      .ok "private final int value;",
      bracedText m (e.name ++ "(int value)") "this.value = value;",
      bracedText m "public int getValue()" "return value;"]

def emitter : Emitter where
  indentSize := 4
  header := "import java.util.*;\n\n"
  packageStart := fun _ name => .ok ("package " ++ name ++ ";" ++ "\n\n")
  classText := classText
  interfaceText := interfaceText
  enumText := enumText
  typeName := typeNames.name

end ClassSketch.Target.Java
