import ClassSketch.Proofs.Lines.Spelling
import ClassSketch.Target.CSharp

/-!
# Lines of C#

The lines of a namespace stand below a brace on a line of its own, and a type inside of
it is moved in as a whole. Constructors and methods have a comment in front of them. The
texts of the emitter spell these lines (`fits_listing`).
-/

namespace ClassSketch.Target.CSharp

open Layout Lines

def summary (text : String) : Lines :=
  ofText "/// <summary>" ++ ofText ("/// " ++ text) ++ ofText "/// </summary>"

def doc (text : String) (ps : List Parameter) (returns : Option TypeExpr) : Lines :=
  summary text ++ ofTexts (paramTags ps) ++
    match returns with
    | some t =>
      if Placeholder.ofType t = .void then []
      else ofText ("/// <returns>" ++ t.render ++ "</returns>")
    | none => []

def constructor (owner : String) (hasParent : Bool) (m : Method) : Lines :=
  doc ("Initializes a new instance of " ++ owner) m.parameters none ++
    bracedBelow (constructorHead owner hasParent m) (ofText "// TODO: Implement constructor")

def method (m : Method) : Lines :=
  doc m.name m.parameters m.returns ++
    if m.isAbstract then ofText (signature false m ++ ";")
    else bracedBelow (signature false m) (ofTexts (body m))

def interfaceMethod (m : Method) : Lines :=
  doc m.name m.parameters m.returns ++ ofText (signature true m ++ ";")

/-- A type with its summary; `inPackage` puts it into a namespace. -/
def typeBlock (inPackage : Bool) (text head : String) (blocks : List Lines) : Lines :=
  let ls := summary text ++ bracedBelow head (paragraphs blocks)
  (if inPackage then ls.nest else ls) ++ blank

def classLines (d : Diagram) (c : ClassDecl) : Lines :=
  typeBlock (d.packageOf c.name).isSome (c.name ++ " class") (classHead d c)
    (block (ofTexts (c.attributes.map property)) ++
      (constructors c).map (constructor c.name (d.parent? c).isSome) ++ c.methods.map method)

def interfaceLines (d : Diagram) (i : InterfaceDecl) : Lines :=
  typeBlock (d.packageOf i.name).isSome (i.name ++ " interface") (interfaceHead d i)
    (i.methods.map interfaceMethod)

def enumLines (d : Diagram) (e : EnumDecl) : Lines :=
  typeBlock (d.packageOf e.name).isSome (e.name ++ " enum") ("public enum " ++ e.name)
    (block (ofTexts (commaLines "" (constants e))))

def listing : Listing where
  header := ofTexts ["using System;", "using System.Collections.Generic;"] ++ blank
  packageStart := fun name => ofText ("namespace " ++ name) ++ ofText openBrace
  packageEnd := fun _ => ofText closeBrace ++ blank
  classLines := classLines
  interfaceLines := interfaceLines
  enumLines := enumLines

/-! ## Spelling -/

variable {m : Margin}

theorem spells_docText (text : String) (ps : List Parameter) (returns : Option TypeExpr) :
    Spells m (.ok (docText text ps returns)) (doc text ps returns) := by
  have hlines : doc text ps returns =
      ofTexts (["/// <summary>", "/// " ++ text, "/// </summary>"] ++ paramTags ps ++
        match returns with
        | some t =>
          if Placeholder.ofType t = .void then [] else ["/// <returns>" ++ t.render ++ "</returns>"]
        | none => []) := by
    cases returns with
    | none => simp [doc, summary, ofTexts]
    | some t => by_cases hvoid : Placeholder.ofType t = .void <;> simp [doc, summary, ofTexts, hvoid]
  rw [hlines]
  exact spells_joinLines (by simp)

theorem spells_constructorText (owner : String) (hasParent : Bool) (c : Method) :
    Spells m (constructorText m owner hasParent c) (constructor owner hasParent c) :=
  (spells_docText _ _ _).append (spells_bracedBelowText _ (spells_ok _))

theorem spells_methodText (c : Method) : Spells m (methodText m c) (method c) := by
  have hbody : Spells m
      (if c.isAbstract then .ok (signature false c ++ ";")
        else bracedBelowText m (signature false c) (joinLines (body c)))
      (if c.isAbstract then ofText (signature false c ++ ";")
        else bracedBelow (signature false c) (ofTexts (body c))) := by
    split
    · exact spells_ok _
    · exact spells_bracedBelowText _ (spells_joinLines (by simp [body]))
  exact (spells_docText _ _ _).append hbody

theorem spells_interfaceMethodText (c : Method) :
    Spells m (.ok (interfaceMethodText c)) (interfaceMethod c) :=
  (spells_docText _ _ _).append (spells_ok _)

/-- A type is moved as a whole when it stands in a namespace. -/
theorem writes_typeText {blocks : List Spliced} {lss : List Lines}
    (h : List.Forall₂ (Spells m) blocks lss) (inPackage : Bool) (text head : String) :
    Writes m (typeText m inPackage text head blocks) (typeBlock inPackage text head lss) := by
  have hlines : ofTexts ["/// <summary>", "/// " ++ text, "/// </summary>", head, openBrace] ++
      (paragraphs lss).nest ++ ofTexts [closeBrace] =
        summary text ++ bracedBelow head (paragraphs lss) := by
    simp [ofTexts, summary, bracedBelow]
  have hspells := spells_enclosedText h
    ["/// <summary>", "/// " ++ text, "/// </summary>", head, openBrace] [closeBrace] (by simp)
  rw [hlines] at hspells
  exact hspells.writes_indentIf inPackage

/-- The text of a class is that of its lines. -/
theorem writes_classText (d : Diagram) (c : ClassDecl) :
    Writes m (classText m d c) (classLines d c) :=
  writes_typeText
    (spells_append
      (spells_append (spells_blockTexts _) (spells_map fun c _ => spells_constructorText _ _ c))
      (spells_map fun c _ => spells_methodText c)) _ _ _

theorem writes_interfaceText (d : Diagram) (i : InterfaceDecl) :
    Writes m (interfaceText m d i) (interfaceLines d i) :=
  writes_typeText (spells_map fun c _ => spells_interfaceMethodText c) _ _ _

theorem writes_enumText (d : Diagram) (e : EnumDecl) :
    Writes m (enumText m d e) (enumLines d e) := by
  have hempty : ",\n".intercalate (constants e) = "" ↔ constants e = [] :=
    intercalate_eq_empty_iff ",\n" (numbered_ne_empty (by simp) _ _)
  have hblock := spells_commaBlock (m := m) "" (constants e)
  simp only [← hempty, String.append_empty] at hblock
  exact writes_typeText hblock _ _ _

/-- The texts of C# are those of its listing. -/
theorem fits_listing : listing.Fits emitter where
  header _ := (spells_joinLines
    (List.cons_ne_nil "using System;" ["using System.Collections.Generic;"])).writes_blank
  footer _ _ := writes_nil
  packageStart _ name := ((spells_ok ("namespace " ++ name)).append (spells_ok openBrace)).writes
  packageEnd _ _ := (spells_ok closeBrace).writes_blank
  classText _ := writes_classText
  interfaceText _ := writes_interfaceText
  enumText _ := writes_enumText

end ClassSketch.Target.CSharp
