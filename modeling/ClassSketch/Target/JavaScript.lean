import ClassSketch.Target.Basic

/-!
# JavaScript

There are no packages, interfaces or type annotations. An interface becomes
a base class that cannot be instantiated; types and visibility go into
comments. All constructors become one, and the file ends by exporting every
entity.
-/

namespace ClassSketch.Target.JavaScript

open Layout

def typeNames : TypeNames where
  absent := "void"
  plain := [("string", "string"), ("str", "string"), ("text", "string"), ("char", "string"),
    ("character", "string"), ("bool", "boolean"), ("boolean", "boolean"), ("int", "number"),
    ("integer", "number"), ("long", "number"), ("short", "number"), ("byte", "number"),
    ("float", "number"), ("double", "number"), ("decimal", "number"), ("number", "number"),
    ("void", "void"), ("object", "*"), ("any", "*"), ("date", "Date")]
  containers := [("list", "Array"), ("arraylist", "Array"), ("array", "Array"),
    ("collection", "Array"), ("map", "Map"), ("hashmap", "Map"), ("dict", "Map"),
    ("dictionary", "Map"), ("set", "Set"), ("hashset", "Set"), ("iterable", "Iterable")]
  applied := angled "*"

/-- The comment tag of a visibility, if there is one. -/
def accessTag? : Visibility → Option String
  | .own => some "@private"
  | .inherited => some "@protected"
  | .package => some "@package"
  | _ => none

def placeholder (t : Option TypeExpr) : String :=
  match Placeholder.ofType? t with
  | .boolean => "false"
  | .numeric => "0"
  | .character => "' '"
  | .text => "''"
  | _ => "null"

/-- A text in braces. -/
def inBraces (s : String) : String :=
  openBrace ++ s ++ closeBrace

def docTexts (tags : List String) (ps : List Parameter) (returns : Option TypeExpr) : List String :=
  tags ++ ps.map (fun p => "@param " ++ inBraces (typeNames.name p.type) ++ " " ++ p.name) ++
    if Placeholder.ofType? returns = .void then []
    else ["@returns " ++ inBraces (typeNames.name returns)]

def staticField (a : Attribute) : String :=
  "static " ++ a.name ++ " = " ++ placeholder a.type ++ ";"

def typeComment (a : Attribute) : String :=
  "/** " ++ (accessTag? a.visibility).elim "" (· ++ " ") ++ "@type " ++
    inBraces (typeNames.name a.type) ++ " */"

def assignmentText (params : List String) (a : Attribute) : String :=
  "this." ++ a.name ++ " = " ++
    (if params.contains a.name then a.name else placeholder a.type) ++ ";"

def signature (m : Method) : String :=
  wordIf m.isStatic "static " ++ m.name ++ "(" ++ commas (m.parameters.map (·.name)) ++ ")"

def abstractBody : List String :=
  ["throw new Error('Method must be implemented by subclass');"]

def body (m : Method) : List String :=
  "// TODO: Implement method" ::
    if returnsValue m then ["return " ++ placeholder m.returns ++ ";"] else []

def classDoc (d : Diagram) (c : ClassDecl) : List String :=
  [c.name ++ " class"] ++ (if c.isAbstract then ["@abstract"] else []) ++
    c.generics.map ("@template " ++ ·) ++
    (d.implemented c).map fun i => "@implements " ++ inBraces i.name

def classHead (d : Diagram) (c : ClassDecl) : String :=
  "class " ++ c.name ++ (d.parent? c).elim "" fun p => " extends " ++ p.name

def refusal : String :=
  "throw new Error('Interface cannot be instantiated directly');"

def interfaceDoc (i : InterfaceDecl) : List String :=
  [i.name ++ " interface", "@interface"] ++ i.generics.map ("@template " ++ ·)

/-- Only the first of several parents can be extended. -/
def interfaceHead (d : Diagram) (i : InterfaceDecl) : String :=
  "class " ++ i.name ++ (d.extended i).head?.elim "" fun p => " extends " ++ p.name

def enumDoc (e : EnumDecl) : List String :=
  [e.name ++ " enum", "@enum " ++ inBraces "number"]

def enumHead (e : EnumDecl) : String :=
  "const " ++ e.name ++ " = Object.freeze("

def constants (e : EnumDecl) : List String :=
  numbered 0 (fun v n => v ++ ": " ++ n ++ ",") e.values

/-! ## Text -/

/-- A comment, which is empty if there is nothing to say. -/
def docText (tags : List String) (ps : List Parameter) (returns : Option TypeExpr) : String :=
  let texts := docTexts tags ps returns
  if texts.isEmpty then "" else starCommentText texts

def constructorText (m : Margin) (cs : List Method) (attrs : List Attribute) (hasParent : Bool) :
    Spliced := do
  let params := mergedParameters cs
  let names := params.map (·.name)
  let body := (if hasParent then ["super();"] else []) ++
    attrs.map (fun a => typeComment a ++ "\n" ++ assignmentText names a) ++
    ["// TODO: Implement constructor"]
  let text ← bracedText m ("constructor(" ++ commas names ++ ")") (joinLines body)
  return commented (docText [] params none) text

def methodTextWith (m : Margin) (tags : List String) (c : Method) (body : List String) :
    Spliced := do
  let text ← bracedText m (signature c) (joinLines body)
  return commented (docText (tags ++ (accessTag? c.visibility).toList) c.parameters c.returns) text

def methodText (m : Margin) (c : Method) : Spliced :=
  if c.isAbstract then methodTextWith m ["@abstract"] c abstractBody
  else methodTextWith m [] c (body c)

def constructorTexts (m : Margin) (c : ClassDecl) (hasParent : Bool) : List Spliced :=
  let attrs := instanceAttributes c
  if !c.constructors.isEmpty then [constructorText m c.constructors attrs hasParent]
  else if !c.isAbstract || !attrs.isEmpty then
    [constructorText m [defaultConstructor c] attrs hasParent]
  else []

def classText (m : Margin) (d : Diagram) (c : ClassDecl) : Spliced :=
  starredText m (classDoc d c) (classHead d c)
    (blockTexts ((staticAttributes c).map staticField) ++
      constructorTexts m c (d.parent? c).isSome ++ c.methods.map (methodText m))

/-- The constructor of an interface, which refuses to make an instance. The refusal is moved in
twice. -/
def guardText (m : Margin) (name : String) (hasParent : Bool) : Spliced := do
  let check ← bracedText m ("if (new.target === " ++ name ++ ")") refusal
  bracedText m "constructor()" (joinLines ((if hasParent then ["super();"] else []) ++ [check]))

def interfaceText (m : Margin) (d : Diagram) (i : InterfaceDecl) : Spliced :=
  starredText m (interfaceDoc i) (interfaceHead d i)
    (guardText m i.name (d.extended i).head?.isSome ::
      i.methods.map fun c => methodTextWith m [] c abstractBody)

def enumText (m : Margin) (_ : Diagram) (e : EnumDecl) : Spliced := do
  let values := joinLines (constants e)
  let last ← (if values = "" then .ok (enumHead e ++ inBraces "" ++ ");")
    else do
      let inner ← m.indent 1 values
      return enumHead e ++ openBrace ++ "\n" ++ inner ++ "\n" ++ (closeBrace ++ ");"))
  return joinLines (["/**"] ++ (enumDoc e).map (" * " ++ ·) ++ [" */", last]) ++ "\n\n"

def footerText (d : Diagram) : String :=
  let names := d.grouped.map Entity.name
  if names.isEmpty then ""
  else "module.exports = " ++ inBraces (" " ++ commas names ++ " ") ++ ";" ++ "\n"

def emitter : Emitter where
  indentSize := 2
  hasPackages := false
  header := "// Generated JavaScript code from PlantUML class diagram\n\n"
  footer := footerText
  packageStart := fun _ _ => .ok ""
  classText := classText
  interfaceText := interfaceText
  enumText := enumText
  typeName := typeNames.name

end ClassSketch.Target.JavaScript
