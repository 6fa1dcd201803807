import ClassSketch.Proofs.Lines.Spelling
import ClassSketch.Target.TypeScript

/-!
# Lines of TypeScript

A type in a namespace is moved in as a whole. Several constructors are signatures in
front of one body, in one block. The texts of the emitter spell these lines
(`fits_listing`).
-/

namespace ClassSketch.Target.TypeScript

open Layout Lines

/-- One constructor for all that are declared, in one block with their signatures. -/
def constructorBlock (ms : List Method) (hasParent : Bool) : List Lines :=
  let body := ofTexts (constructorBody hasParent)
  match ms with
  | [] => []
  | [m] => [braced (constructorHead m) body]
  | ms => [ofTexts (ms.map fun m => constructorHead m ++ ";") ++
      braced "public constructor(...args: any[])" body]

def method (m : Method) : Lines :=
  if m.isAbstract then ofText (signature false m ++ ";")
  else braced (signature false m) (ofTexts (body m))

/-- A type with its comment; `inPackage` puts it into a namespace. -/
def typeBlock (inPackage : Bool) (summary head : String) (blocks : List Lines) : Lines :=
  let ls := ofText ("/** " ++ summary ++ " */") ++ braced head (paragraphs blocks)
  (if inPackage then ls.nest else ls) ++ blank

def classLines (d : Diagram) (c : ClassDecl) : Lines :=
  typeBlock (d.packageOf c.name).isSome (c.name ++ " class") (classHead d c)
    (block (ofTexts (c.attributes.map field)) ++
      constructorBlock (constructors c) (d.parent? c).isSome ++ c.methods.map method)

def interfaceLines (d : Diagram) (i : InterfaceDecl) : Lines :=
  typeBlock (d.packageOf i.name).isSome (i.name ++ " interface") (interfaceHead d i)
    (i.methods.map fun m => ofText (signature true m ++ ";"))

def enumLines (d : Diagram) (e : EnumDecl) : Lines :=
  typeBlock (d.packageOf e.name).isSome (e.name ++ " enum") ("export enum " ++ e.name)
    (block (ofTexts (constants e)))

def listing : Listing where
  packageStart := fun name => ofText ("export namespace " ++ name ++ " " ++ openBrace)
  packageEnd := fun _ => ofText closeBrace ++ blank
  classLines := classLines
  interfaceLines := interfaceLines
  enumLines := enumLines

/-! ## Spelling -/

variable {m : Margin}

/-- Overloads of a constructor come before the one with a body. -/
theorem spells_constructorText (cs : List Method) (hasParent : Bool) :
    List.Forall₂ (Spells m) (constructorText m hasParent cs) (constructorBlock cs hasParent) := by
  have hbody : Spells m (.ok (joinLines (constructorBody hasParent)))
      (ofTexts (constructorBody hasParent)) :=
    spells_joinLines (by simp [constructorBody])
  match cs with
  | [] => exact .nil
  | [c] => exact .cons (spells_bracedText _ hbody) .nil
  | c :: c' :: cs => exact .cons ((spells_bracedText _ hbody).below _) .nil

theorem spells_methodText (c : Method) : Spells m (methodText m c) (method c) := by
  unfold methodText method
  split
  · exact spells_ok _
  · exact spells_bracedText _ (spells_joinLines (by simp [body]))

/-- A type is moved as a whole when it stands in a namespace. -/
theorem writes_typeText {blocks : List Spliced} {lss : List Lines}
    (h : List.Forall₂ (Spells m) blocks lss) (inPackage : Bool) (summary head : String) :
    Writes m (typeText m inPackage summary head blocks) (typeBlock inPackage summary head lss) := by
  have hlines : ofTexts ["/** " ++ summary ++ " */", head ++ " " ++ openBrace] ++
      (paragraphs lss).nest ++ ofTexts [closeBrace] =
        ofText ("/** " ++ summary ++ " */") ++ braced head (paragraphs lss) := by
    simp [ofTexts, braced]
  have hspells := spells_enclosedText h ["/** " ++ summary ++ " */", head ++ " " ++ openBrace]
    [closeBrace] (by simp)
  rw [hlines] at hspells
  exact hspells.writes_indentIf inPackage

/-- The text of a class is that of its lines. -/
theorem writes_classText (d : Diagram) (c : ClassDecl) :
    Writes m (classText m d c) (classLines d c) :=
  writes_typeText
    (spells_append (spells_append (spells_blockTexts _) (spells_constructorText _ _))
      (spells_map fun c _ => spells_methodText c)) _ _ _

theorem writes_interfaceText (d : Diagram) (i : InterfaceDecl) :
    Writes m (interfaceText m d i) (interfaceLines d i) :=
  writes_typeText (spells_map fun _ _ => spells_ok _) _ _ _

theorem writes_enumText (d : Diagram) (e : EnumDecl) :
    Writes m (enumText m d e) (enumLines d e) :=
  writes_typeText (spells_blockTexts _) _ _ _

/-- The texts of TypeScript are those of its listing. -/
theorem fits_listing : listing.Fits emitter where
  header _ := writes_nil
  footer _ _ := writes_nil
  packageStart _ name := (spells_ok ("export namespace " ++ name ++ " " ++ openBrace)).writes
  packageEnd _ _ := (spells_ok closeBrace).writes_blank
  classText _ := writes_classText
  interfaceText _ := writes_interfaceText
  enumText _ := writes_enumText

end ClassSketch.Target.TypeScript
