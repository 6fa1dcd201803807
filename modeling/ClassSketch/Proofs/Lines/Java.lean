import ClassSketch.Proofs.Lines.Spelling
import ClassSketch.Target.Java

/-!
# Lines of Java

Every type is a comment and a block in braces. An enumeration has a field and two
methods of its own. The texts of the emitter spell these lines (`fits_listing`).
-/

namespace ClassSketch.Target.Java

open Layout Lines

def doc (summary : String) (ps : List Parameter) (returns : Option TypeExpr) : Lines :=
  starComment (docTexts summary ps returns)

def constructor (owner : String) (hasParent : Bool) (m : Method) : Lines :=
  doc ("Creates a new " ++ owner) m.parameters none ++
    braced (constructorHead owner m) (ofTexts (constructorBody hasParent))

def signature (inInterface : Bool) (m : Method) : Lines :=
  doc m.name m.parameters m.returns ++ ofText (declaration inInterface m ++ ";")

def method (m : Method) : Lines :=
  if m.isAbstract then signature false m
  else doc m.name m.parameters m.returns ++ braced (declaration false m) (ofTexts (body m))

def typeBlock (summary head : String) (blocks : List Lines) : Lines :=
  starComment [summary] ++ braced head (paragraphs blocks) ++ blank

def classLines (d : Diagram) (c : ClassDecl) : Lines :=
  typeBlock (c.name ++ " class") (classHead d c)
    (block (ofTexts (c.attributes.map field)) ++
      (constructors c).map (constructor c.name (d.parent? c).isSome) ++ c.methods.map method)

def interfaceLines (d : Diagram) (i : InterfaceDecl) : Lines :=
  typeBlock (i.name ++ " interface") (interfaceHead d i) (i.methods.map (signature true))

def enumLines (_ : Diagram) (e : EnumDecl) : Lines :=
  typeBlock (e.name ++ " enum") ("public enum " ++ e.name)
    [if (constants e).isEmpty then ofText ";" else ofTexts (commaLines ";" (constants e)),
      ofText "private final int value;",
      braced (e.name ++ "(int value)") (ofText "this.value = value;"),
      braced "public int getValue()" (ofText "return value;")]

def listing : Listing where
  header := ofText "import java.util.*;" ++ blank
  packageStart := fun name => ofText ("package " ++ name ++ ";") ++ blank
  classLines := classLines
  interfaceLines := interfaceLines
  enumLines := enumLines

/-! ## Spelling -/

variable {m : Margin}

/-- A constructor with its braces and the call of the parent. -/
theorem spells_constructorText (owner : String) (hasParent : Bool) (c : Method) :
    Spells m (constructorText m owner hasParent c) (constructor owner hasParent c) :=
  (spells_starCommentText _).append
    (spells_bracedText _ (spells_joinLines (by simp [constructorBody])))

theorem spells_signatureText (inInterface : Bool) (c : Method) :
    Spells m (.ok (signatureText inInterface c)) (signature inInterface c) :=
  (spells_starCommentText _).append (spells_ok _)

theorem spells_methodText (c : Method) : Spells m (methodText m c) (method c) := by
  unfold methodText method
  split
  · exact spells_signatureText false c
  · exact (spells_starCommentText _).append
      (spells_bracedText _ (spells_joinLines (by simp [body])))

/-- The text of a class is that of its lines. -/
theorem writes_classText (d : Diagram) (c : ClassDecl) :
    Writes m (classText m d c) (classLines d c) :=
  writes_starredText
    (spells_append
      (spells_append (spells_blockTexts _) (spells_map fun c _ => spells_constructorText _ _ c))
      (spells_map fun c _ => spells_methodText c)) _ _

theorem writes_interfaceText (d : Diagram) (i : InterfaceDecl) :
    Writes m (interfaceText m d i) (interfaceLines d i) :=
  writes_starredText (spells_map fun c _ => spells_signatureText true c) _ _

theorem writes_enumText (d : Diagram) (e : EnumDecl) :
    Writes m (enumText m d e) (enumLines d e) := by
  have hvalues : Spells m
      (.ok (if (constants e).isEmpty then ";" else ",\n".intercalate (constants e) ++ ";"))
      (if (constants e).isEmpty then ofText ";" else ofTexts (commaLines ";" (constants e))) := by
    split
    · exact spells_ok ";"
    · next hne => exact spells_commas ";" (by simpa using hne)
  exact writes_starredText (.cons hvalues (.cons (spells_ok _)
    (.cons (spells_bracedText _ (spells_ok _)) (.cons (spells_bracedText _ (spells_ok _)) .nil)))) _ _

/-- The texts of Java are those of its listing. -/
theorem fits_listing : listing.Fits emitter where
  header _ := (spells_ok "import java.util.*;").writes_blank
  footer _ _ := writes_nil
  packageStart _ name := (spells_ok ("package " ++ name ++ ";")).writes_blank
  packageEnd _ _ := writes_nil
  classText _ := writes_classText
  interfaceText _ := writes_interfaceText
  enumText _ := writes_enumText

end ClassSketch.Target.Java
