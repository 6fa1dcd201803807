import ClassSketch.Proofs.Lines.Spelling
import ClassSketch.Target.JavaScript

/-!
# Lines of JavaScript

There is one constructor for all that are declared, which assigns the attributes. A
comment is left out if there is nothing to say, and all names are exported at the end.
The texts of the emitter spell these lines (`fits_listing`).
-/

namespace ClassSketch.Target.JavaScript

open Layout Lines

/-- A comment, or nothing if there is nothing to say. -/
def comment (texts : List String) : Lines :=
  if texts.isEmpty then [] else starComment texts

def doc (tags : List String) (ps : List Parameter) (returns : Option TypeExpr) : Lines :=
  comment (docTexts tags ps returns)

/-- A comment and the assignment of an attribute in the constructor. -/
def assignment (params : List String) (a : Attribute) : Lines :=
  ofText (typeComment a) ++ ofText (assignmentText params a)

def constructor (ms : List Method) (attrs : List Attribute) (hasParent : Bool) : Lines :=
  let params := mergedParameters ms
  let names := params.map (·.name)
  doc [] params none ++ braced ("constructor(" ++ commas names ++ ")")
    (ofTexts (if hasParent then ["super();"] else []) ++ attrs.flatMap (assignment names) ++
      ofText "// TODO: Implement constructor")

def methodWith (tags : List String) (m : Method) (body : List String) : Lines :=
  doc (tags ++ (accessTag? m.visibility).toList) m.parameters m.returns ++
    braced (signature m) (ofTexts body)

def method (m : Method) : Lines :=
  if m.isAbstract then methodWith ["@abstract"] m abstractBody else methodWith [] m (body m)

def typeBlock (docTexts : List String) (head : String) (blocks : List Lines) : Lines :=
  starComment docTexts ++ braced head (paragraphs blocks) ++ blank

/-- The one constructor. An abstract class without constructors only has it when
there are attributes to assign. -/
def constructorBlock (c : ClassDecl) (hasParent : Bool) : List Lines :=
  let attrs := instanceAttributes c
  if !c.constructors.isEmpty then [constructor c.constructors attrs hasParent]
  else if !c.isAbstract || !attrs.isEmpty then [constructor [defaultConstructor c] attrs hasParent]
  else []

def classLines (d : Diagram) (c : ClassDecl) : Lines :=
  typeBlock (classDoc d c) (classHead d c)
    (block (ofTexts ((staticAttributes c).map staticField)) ++
      constructorBlock c (d.parent? c).isSome ++ c.methods.map method)

/-- The constructor of an interface, which refuses to make an instance. -/
def guard (name : String) (hasParent : Bool) : Lines :=
  braced "constructor()" (ofTexts (if hasParent then ["super();"] else []) ++
    braced ("if (new.target === " ++ name ++ ")") (ofText refusal))

def interfaceLines (d : Diagram) (i : InterfaceDecl) : Lines :=
  typeBlock (interfaceDoc i) (interfaceHead d i)
    (guard i.name (d.extended i).head?.isSome ::
      i.methods.map fun m => methodWith [] m abstractBody)

def enumLines (_ : Diagram) (e : EnumDecl) : Lines :=
  let values := ofTexts (constants e)
  starComment (enumDoc e) ++
    (if values.isEmpty then ofText (enumHead e ++ inBraces "" ++ ");")
      else ofText (enumHead e ++ openBrace) ++ values.nest ++
        ofText (closeBrace ++ ");")) ++
    blank

/-- The export of every entity. -/
def footer (d : Diagram) : Lines :=
  let names := d.grouped.map Entity.name
  if names.isEmpty then []
  else ofText ("module.exports = " ++ inBraces (" " ++ commas names ++ " ") ++ ";")

def listing : Listing where
  header := ofText "// Generated JavaScript code from PlantUML class diagram" ++ blank
  footer := footer
  packageStart := fun _ => []
  classLines := classLines
  interfaceLines := interfaceLines
  enumLines := enumLines

/-! ## Spelling -/

variable {m : Margin}

theorem comments_docText (tags : List String) (ps : List Parameter) (returns : Option TypeExpr) :
    Comments m (docText tags ps returns) (doc tags ps returns) := by
  simp only [docText, doc, comment]
  split
  · exact .none
  · exact .some (starCommentText_ne_empty _) (spells_starCommentText _)

theorem spells_constructorText (cs : List Method) (attrs : List Attribute) (hasParent : Bool) :
    Spells m (constructorText m cs attrs hasParent) (constructor cs attrs hasParent) := by
  have hbody (names : List String) : Spells m
      (.ok (joinLines ((if hasParent then ["super();"] else []) ++
        attrs.map (fun a => typeComment a ++ "\n" ++ assignmentText names a) ++
        ["// TODO: Implement constructor"])))
      (ofTexts (if hasParent then ["super();"] else []) ++ attrs.flatMap (assignment names) ++
        ofText "// TODO: Implement constructor") := by
    have hlines : attrs.flatMap (assignment names) =
        ofTexts (attrs.map fun a => typeComment a ++ "\n" ++ assignmentText names a) := by
      simp only [ofTexts, List.flatMap_map, ofText_append]
      rfl
    have hlast : ofText "// TODO: Implement constructor" =
        ofTexts ["// TODO: Implement constructor"] := by simp [ofTexts]
    rw [hlines, hlast, ← ofTexts_append, ← ofTexts_append]
    exact spells_joinLines (by simp)
  exact spells_commented (comments_docText _ _ _) (spells_bracedText _ (hbody _))

/-- A method with a body that is not empty. -/
theorem spells_methodTextWith (tags : List String) (c : Method) {body : List String}
    (hne : body ≠ []) : Spells m (methodTextWith m tags c body) (methodWith tags c body) :=
  spells_commented (comments_docText _ _ _) (spells_bracedText _ (spells_joinLines hne))

theorem spells_methodText (c : Method) : Spells m (methodText m c) (method c) := by
  unfold methodText method
  split
  · exact spells_methodTextWith _ c (by simp [abstractBody])
  · exact spells_methodTextWith _ c (by simp [body])

theorem spells_constructorTexts (c : ClassDecl) (hasParent : Bool) :
    List.Forall₂ (Spells m) (constructorTexts m c hasParent) (constructorBlock c hasParent) := by
  simp only [constructorTexts, constructorBlock]
  split_ifs
  · exact .cons (spells_constructorText _ _ _) .nil
  · exact .cons (spells_constructorText _ _ _) .nil
  · exact .nil

/-- The constructor of an interface, with a block inside of its block. -/
theorem spells_guardText (name : String) (hasParent : Bool) :
    Spells m (guardText m name hasParent) (guard name hasParent) := by
  have hcheck : Spells m (bracedText m ("if (new.target === " ++ name ++ ")") refusal) _ :=
    spells_bracedText _ (spells_ok refusal)
  have hspells := spells_bracedText "constructor()"
    (hcheck.below (if hasParent then ["super();"] else []))
  unfold guardText
  generalize bracedText m _ refusal = check at hspells ⊢
  cases check <;> exact hspells

/-- The text of a class is that of its lines. -/
theorem writes_classText (d : Diagram) (c : ClassDecl) :
    Writes m (classText m d c) (classLines d c) :=
  writes_starredText
    (spells_append (spells_append (spells_blockTexts _) (spells_constructorTexts _ _))
      (spells_map fun c _ => spells_methodText c)) _ _

theorem writes_interfaceText (d : Diagram) (i : InterfaceDecl) :
    Writes m (interfaceText m d i) (interfaceLines d i) :=
  writes_starredText (.cons (spells_guardText _ _)
    (spells_map fun c _ => spells_methodTextWith _ c (by simp [abstractBody]))) _ _

theorem writes_enumText (d : Diagram) (e : EnumDecl) :
    Writes m (enumText m d e) (enumLines d e) := by
  have hempty : joinLines (constants e) = "" ↔ (ofTexts (constants e)).isEmpty = true := by
    rw [isEmpty_ofTexts, List.isEmpty_iff]
    exact intercalate_eq_empty_iff "\n" (numbered_ne_empty (by simp) _ _)
  have hlast : Spells m
      (if joinLines (constants e) = "" then .ok (enumHead e ++ inBraces "" ++ ");")
        else do
          let inner ← m.indent 1 (joinLines (constants e))
          return enumHead e ++ openBrace ++ "\n" ++ inner ++ "\n" ++ (closeBrace ++ ");"))
      (if (ofTexts (constants e)).isEmpty then ofText (enumHead e ++ inBraces "" ++ ");")
        else ofText (enumHead e ++ openBrace) ++ (ofTexts (constants e)).nest ++
          ofText (closeBrace ++ ");")) := by
    by_cases hnil : (ofTexts (constants e)).isEmpty = true
    · rw [if_pos hnil, if_pos (hempty.2 hnil)]
      exact spells_ok _
    · rw [if_neg hnil, if_neg (hempty.not.2 hnil)]
      have hne : constants e ≠ [] := by rwa [isEmpty_ofTexts, List.isEmpty_iff] at hnil
      exact ((spells_joinLines hne).indent 1).enclosed _ _
  have hwrites := (hlast.below (["/**"] ++ (enumDoc e).map (" * " ++ ·) ++ [" */"])).writes_blank
  rw [ofTexts_starComment] at hwrites
  simp only [enumText]
  generalize (if joinLines (constants e) = "" then _ else _ : Spliced) = last at hwrites ⊢
  cases last <;> exact hwrites

/-- The exports at the end, if anything is exported. -/
theorem writes_footerText (d : Diagram) : Writes m (.ok (footerText d)) (footer d) := by
  simp only [footerText, footer]
  split
  · exact writes_nil
  · exact (spells_ok _).writes

/-- The texts of JavaScript are those of its listing. -/
theorem fits_listing : listing.Fits emitter where
  header _ := (spells_ok "// Generated JavaScript code from PlantUML class diagram").writes_blank
  footer _ := writes_footerText
  packageStart _ _ := writes_nil
  packageEnd _ _ := writes_nil
  classText _ := writes_classText
  interfaceText _ := writes_interfaceText
  enumText _ := writes_enumText

end ClassSketch.Target.JavaScript
