import ClassSketch.Target.Basic

/-!
# Ruby

Interfaces become modules to include. A package such as `com.my_shop`
becomes nested modules `Com` and `MyShop`, and every type in it is as many
levels further in. Types only appear in comments, and all constructors
become one `initialize`.
-/

namespace ClassSketch.Target.Ruby

open Layout

/-- The container alone; arguments are not written. -/
def container (written : String) (known : Option String) (_ : Nat) : String :=
  known.getD written

def typeNames : TypeNames where
  absent := "void"
  plain := [("string", "String"), ("str", "String"), ("text", "String"), ("char", "String"),
    ("character", "String"), ("bool", "Boolean"), ("boolean", "Boolean"), ("int", "Integer"),
    ("integer", "Integer"), ("long", "Integer"), ("short", "Integer"), ("byte", "Integer"),
    ("float", "Float"), ("double", "Float"), ("number", "Numeric"), ("decimal", "BigDecimal"),
    ("void", "void"), ("object", "Object"), ("any", "Object")]
  containers := [("list", "Array"), ("arraylist", "Array"), ("array", "Array"),
    ("collection", "Array"), ("map", "Hash"), ("hashmap", "Hash"), ("dict", "Hash"),
    ("dictionary", "Hash"), ("set", "Set"), ("hashset", "Set"), ("iterable", "Enumerable")]
  applied := container

/-- The visibility keyword, if there is one. -/
def access? : Visibility → Option String
  | .own => some "private"
  | .inherited => some "protected"
  | _ => none

def placeholder (t : Option TypeExpr) : String :=
  match Placeholder.ofType? t with
  | .boolean => "false"
  | .numeric => "0"
  | .character => "' '"
  | .text => "''"
  | _ => "nil"

/-! ## Modules of a package -/

/-- A letter or digit of ASCII. -/
def isModuleChar (c : Char) : Bool :=
  c.isAlphanum

def capitalize : List Char → List Char
  | [] => []
  | c :: cs => c.toUpper :: cs

/-- The module name of one part of a package name: its words, capitalized. -/
def moduleName (part : List Char) : List Char :=
  ((part.splitOnP (!isModuleChar ·)).filter (!·.isEmpty)).flatMap capitalize

def moduleNames (package : String) : List String :=
  let names := ((package.toList.splitOn '.').map moduleName).filter (!·.isEmpty)
  if names.isEmpty then ["Package"] else names.map String.ofList

/-! ## Members -/

def paramTags (ps : List Parameter) : List String :=
  ps.map fun p => "# @param " ++ p.name ++ " [" ++ typeNames.name p.type ++ "]"

def staticField (a : Attribute) : String :=
  (if a.isFinal then Text.upper a.name else "@@" ++ a.name) ++ " = " ++ placeholder a.type

def initializerHead (params : List Parameter) : String :=
  if params.isEmpty then "def initialize"
  else "def initialize(" ++ commas ((params.map (·.name)).map (· ++ " = nil")) ++ ")"

def initializerBody (names : List String) (attrs : List Attribute) (hasParent : Bool) :
    List String :=
  (if hasParent then ["super()"] else []) ++
    attrs.map (fun a =>
      "@" ++ a.name ++ " = " ++ if names.contains a.name then a.name else placeholder a.type) ++
    ["# TODO: Implement constructor"]

def signature (m : Method) : String :=
  let params := commas (m.parameters.map (·.name))
  let plain := "def " ++ (if m.isStatic then "self." else "") ++ m.name ++
    if params = "" then "" else "(" ++ params ++ ")"
  match access? m.visibility with
  | none => plain
  | some w => (if m.isStatic then "private_class_method" else w) ++ " " ++ plain

def abstractBody (owner : String) (m : Method) : List String :=
  ["raise NotImplementedError, '" ++ owner ++ "#" ++ m.name ++ " is abstract'"]

def body (m : Method) : List String :=
  "# TODO: Implement method" :: if returnsValue m then [placeholder m.returns] else []

/-! ## Types -/

def includeTexts (is : List InterfaceDecl) : List String :=
  is.map fun i => "include " ++ i.name

def classSummary (c : ClassDecl) : String :=
  (if c.isAbstract then "Abstract " else "") ++ c.name ++ typeParams c.generics ++ " class"

def classHead (d : Diagram) (c : ClassDecl) : String :=
  "class " ++ c.name ++ (d.parent? c).elim "" fun p => " < " ++ p.name

def constants (e : EnumDecl) : List String :=
  numbered 1 (fun v n => v ++ " = " ++ n) e.values

def valueList (e : EnumDecl) : String :=
  "VALUES = [" ++ commas e.values ++ "].freeze"

/-! ## Text -/

def packageStartText (m : Margin) (package : String) : Spliced := do
  let texts ← (moduleNames package).zipIdx.mapM fun p => m.indent p.2 ("module " ++ p.1)
  return joinLines texts ++ "\n"

def packageEndText (m : Margin) (package : String) : Spliced := do
  let texts ← (List.range (moduleNames package).length).reverse.mapM fun i : Nat => m.indent i "end"
  return joinLines texts ++ "\n\n"

/-- A comment, which is empty if there is nothing to say. -/
def docText (ps : List Parameter) (returns : Option TypeExpr) : String :=
  joinLines (paramTags ps ++
    if Placeholder.ofType? returns = .void then []
    else ["# @return [" ++ typeNames.name returns ++ "]"])

def accessorText (a : Attribute) : String :=
  let line := (if a.isFinal then "attr_reader :" else "attr_accessor :") ++ a.name
  let lines := match access? a.visibility with
    | none => line
    | some w => line ++ "\n" ++ (w ++ " :" ++ a.name ++ if a.isFinal then "" else ", :" ++ a.name ++ "=")
  "# @return [" ++ typeNames.name a.type ++ "]" ++ "\n" ++ lines

def definitionText (m : Margin) (comment signature : String) (body : List String) : Spliced := do
  let inner ← m.indent 1 (joinLines body)
  return commented comment (signature ++ "\n" ++ inner ++ "\n" ++ "end")

def initializerText (m : Margin) (cs : List Method) (attrs : List Attribute) (hasParent : Bool) :
    Spliced :=
  let params := mergedParameters cs
  definitionText m (docText params none) (initializerHead params)
    (initializerBody (params.map (·.name)) attrs hasParent)

def methodTextWith (m : Margin) (c : Method) (body : List String) : Spliced :=
  definitionText m (docText c.parameters c.returns) (signature c) body

def methodText (m : Margin) (owner : String) (c : Method) : Spliced :=
  methodTextWith m c (if c.isAbstract then abstractBody owner c else body c)

/-- A type with its comment. The whole text is moved in again as far as the modules of its
package reach. -/
def typeText (m : Margin) (d : Diagram) (name summary head : String) (blocks : List Spliced) :
    Spliced := do
  let text ← enclosedText m ["# " ++ summary, head] blocks ["end"]
  let text ← ((d.packageOf name).elim (.ok text) fun p => m.indent (moduleNames p).length text)
  return text ++ "\n\n"

def classText (m : Margin) (d : Diagram) (c : ClassDecl) : Spliced :=
  typeText m d c.name (classSummary c) (classHead d c)
    (blockTexts (includeTexts (d.implemented c)) ++
      blockTexts ((staticAttributes c).map staticField) ++
      blockTexts ((instanceAttributes c).map accessorText) ++
      (if (constructors c).isEmpty then []
        else [initializerText m (constructors c) (instanceAttributes c) (d.parent? c).isSome]) ++
      c.methods.map (methodText m c.name))

def interfaceText (m : Margin) (d : Diagram) (i : InterfaceDecl) : Spliced :=
  typeText m d i.name (i.name ++ typeParams i.generics ++ " interface") ("module " ++ i.name)
    (blockTexts (includeTexts (d.extended i)) ++
      i.methods.map fun c => methodTextWith m c (abstractBody i.name c))

def enumText (m : Margin) (d : Diagram) (e : EnumDecl) : Spliced :=
  typeText m d e.name (e.name ++ " enum") ("module " ++ e.name)
    (if e.values.isEmpty then [] else [.ok (joinLines (constants e)), .ok (valueList e)])

def emitter : Emitter where
  indentSize := 2
  header := "# frozen_string_literal: true\n\n"
  packageStart := packageStartText
  packageEnd := packageEndText
  classText := classText
  interfaceText := interfaceText
  enumText := enumText
  typeName := typeNames.name

end ClassSketch.Target.Ruby
