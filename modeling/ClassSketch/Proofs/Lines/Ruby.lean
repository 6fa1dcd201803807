import ClassSketch.Proofs.Lines.Spelling
import ClassSketch.Target.Ruby

/-!
# Lines of Ruby

A package is one module for each part of its name, each one level deeper than the one
before, and a type is moved in at once by all of them. The texts of the emitter spell
these lines (`fits_listing`).
-/

namespace ClassSketch.Target.Ruby

open Layout Lines

def packageStart (package : String) : Lines :=
  (moduleNames package).zipIdx.flatMap fun (m, i) => (ofText ("module " ++ m)).nestBy i

def packageEnd (package : String) : Lines :=
  ((List.range (moduleNames package).length).reverse.flatMap fun i => (ofText "end").nestBy i) ++
    blank

def doc (ps : List Parameter) (returns : Option TypeExpr) : Lines :=
  ofTexts (paramTags ps) ++
    if Placeholder.ofType? returns = .void then []
    else ofText ("# @return [" ++ typeNames.name returns ++ "]")

/-- Accessors, with a line that hides them unless they are for everyone. -/
def accessor (a : Attribute) : Lines :=
  ofText ("# @return [" ++ typeNames.name a.type ++ "]") ++
    ofText ((if a.isFinal then "attr_reader :" else "attr_accessor :") ++ a.name) ++
    match access? a.visibility with
    | none => []
    | some w =>
      ofText (w ++ " :" ++ a.name ++ if a.isFinal then "" else ", :" ++ a.name ++ "=")

/-- A definition with its comment, signature and body. -/
def definition (comment : Lines) (signature : String) (body : List String) : Lines :=
  comment ++ ofText signature ++ (ofTexts body).nest ++ ofText "end"

def initializer (ms : List Method) (attrs : List Attribute) (hasParent : Bool) : Lines :=
  let params := mergedParameters ms
  definition (doc params none) (initializerHead params)
    (initializerBody (params.map (·.name)) attrs hasParent)

def methodWith (m : Method) (body : List String) : Lines :=
  definition (doc m.parameters m.returns) (signature m) body

def abstractMethod (owner : String) (m : Method) : Lines :=
  methodWith m (abstractBody owner m)

def method (owner : String) (m : Method) : Lines :=
  if m.isAbstract then abstractMethod owner m else methodWith m (body m)

/-- A type with its comment, moved in as far as the modules of its package reach. -/
def typeBlock (d : Diagram) (name summary head : String) (blocks : List Lines) : Lines :=
  let ls := ofText ("# " ++ summary) ++ ofText head ++ (paragraphs blocks).nest ++
    ofText "end"
  (match d.packageOf name with
    | none => ls
    | some p => ls.nestBy (moduleNames p).length) ++ blank

def includes (is : List InterfaceDecl) : List Lines :=
  block (ofTexts (includeTexts is))

def classLines (d : Diagram) (c : ClassDecl) : Lines :=
  typeBlock d c.name (classSummary c) (classHead d c)
    (includes (d.implemented c) ++
      block (ofTexts ((staticAttributes c).map staticField)) ++
      block ((instanceAttributes c).flatMap accessor) ++
      (if (constructors c).isEmpty then []
        else [initializer (constructors c) (instanceAttributes c) (d.parent? c).isSome]) ++
      c.methods.map (method c.name))

def interfaceLines (d : Diagram) (i : InterfaceDecl) : Lines :=
  typeBlock d i.name (i.name ++ typeParams i.generics ++ " interface") ("module " ++ i.name)
    (includes (d.extended i) ++ i.methods.map (abstractMethod i.name))

def enumLines (d : Diagram) (e : EnumDecl) : Lines :=
  typeBlock d e.name (e.name ++ " enum") ("module " ++ e.name)
    (if e.values.isEmpty then []
      else [ofTexts (constants e), ofText (valueList e)])

def listing : Listing where
  header := ofText "# frozen_string_literal: true" ++ blank
  packageStart := packageStart
  packageEnd := packageEnd
  classLines := classLines
  interfaceLines := interfaceLines
  enumLines := enumLines

/-! ## Spelling -/

variable {m : Margin}

theorem moduleNames_ne_nil (package : String) : moduleNames package ≠ [] := by
  simp only [moduleNames]
  split
  · exact List.cons_ne_nil _ _
  · next hne => simpa using hne

/-- Modules are opened one inside of the other. -/
theorem writes_packageStartText (package : String) :
    Writes m (packageStartText m package) (packageStart package) := by
  have hspells := spells_mapM (m := m)
    (fun (p : String × Nat) (_ : p ∈ (moduleNames package).zipIdx) =>
      (spells_ok ("module " ++ p.1)).indent p.2)
    (by simp [moduleNames_ne_nil])
  have hwrites := hspells.writes
  rw [bind_assoc] at hwrites
  exact hwrites

/-- And they are closed from the inside. -/
theorem writes_packageEndText (package : String) :
    Writes m (packageEndText m package) (packageEnd package) := by
  have hspells := spells_mapM (m := m)
    (fun (i : Nat) (_ : i ∈ (List.range (moduleNames package).length).reverse) =>
      (spells_ok "end").indent i)
    (by simp [moduleNames_ne_nil])
  have hwrites := hspells.writes_blank
  rw [bind_assoc] at hwrites
  exact hwrites

theorem comments_docText (ps : List Parameter) (returns : Option TypeExpr) :
    Comments m (docText ps returns) (doc ps returns) := by
  have hlines : doc ps returns = ofTexts (paramTags ps ++
      if Placeholder.ofType? returns = .void then []
      else ["# @return [" ++ typeNames.name returns ++ "]"]) := by
    rw [doc, ofTexts_append]
    split <;> simp [ofTexts]
  rw [hlines]
  refine comments_joinLines fun s hs => ?_
  rcases List.mem_append.1 hs with hs | hs
  · obtain ⟨p, -, rfl⟩ := List.mem_map.1 hs
    simp
  · split at hs
    · cases hs
    · rw [List.mem_singleton.1 hs]
      simp

theorem spells_definitionText {comment : String} {ls : Lines} (h : Comments m comment ls)
    (signature : String) {body : List String} (hne : body ≠ []) :
    Spells m (definitionText m comment signature body) (definition ls signature body) := by
  have hspells := spells_commented h
    (((spells_joinLines hne).indent 1).enclosed signature "end")
  rw [← List.append_assoc, ← List.append_assoc] at hspells
  change Spells m (do
    let text ← (do
      let inner ← m.indent 1 (joinLines body)
      return signature ++ "\n" ++ inner ++ "\n" ++ "end")
    return commented comment text) _ at hspells
  unfold definitionText
  generalize m.indent 1 _ = inner at hspells ⊢
  cases inner <;> exact hspells

theorem spells_initializerText (cs : List Method) (attrs : List Attribute) (hasParent : Bool) :
    Spells m (initializerText m cs attrs hasParent) (initializer cs attrs hasParent) :=
  spells_definitionText (comments_docText _ _) _ (by simp [initializerBody])

theorem spells_methodText (owner : String) (c : Method) :
    Spells m (methodText m owner c) (method owner c) := by
  unfold methodText method
  split
  · exact spells_definitionText (comments_docText _ _) _ (by simp [abstractBody])
  · exact spells_definitionText (comments_docText _ _) _ (by simp [body])

theorem ofText_accessorText (a : Attribute) : ofText (accessorText a) = accessor a := by
  unfold accessorText accessor
  cases access? a.visibility <;> simp [ofText_append]

/-- A type is moved by as many levels as it has modules around it. -/
theorem writes_typeText {blocks : List Spliced} {lss : List Lines}
    (h : List.Forall₂ (Spells m) blocks lss) (d : Diagram) (name summary head : String) :
    Writes m (typeText m d name summary head blocks) (typeBlock d name summary head lss) := by
  have hlines : ofTexts ["# " ++ summary, head] ++ (paragraphs lss).nest ++ ofTexts ["end"] =
      ofText ("# " ++ summary) ++ ofText head ++ (paragraphs lss).nest ++ ofText "end" := by
    simp [ofTexts]
  have hspells := spells_enclosedText h ["# " ++ summary, head] ["end"] (by simp)
  rw [hlines] at hspells
  unfold typeText typeBlock
  generalize enclosedText m _ _ _ = text at hspells ⊢
  cases d.packageOf name with
  | none =>
    have hwrites := hspells.writes_blank
    cases text <;> exact hwrites
  | some p =>
    have hwrites := (hspells.indent (moduleNames p).length).writes_blank
    cases text <;> exact hwrites

/-- The text of a class is that of its lines. -/
theorem writes_classText (d : Diagram) (c : ClassDecl) :
    Writes m (classText m d c) (classLines d c) := by
  have haccessors : (instanceAttributes c).flatMap accessor =
      ofTexts ((instanceAttributes c).map accessorText) := by
    simp only [ofTexts, List.flatMap_map, ofText_accessorText]
  have hinitializer : List.Forall₂ (Spells m)
      (if (constructors c).isEmpty then []
        else [initializerText m (constructors c) (instanceAttributes c) (d.parent? c).isSome])
      (if (constructors c).isEmpty then []
        else [initializer (constructors c) (instanceAttributes c) (d.parent? c).isSome]) := by
    split
    · exact .nil
    · exact .cons (spells_initializerText _ _ _) .nil
  unfold classLines
  rw [haccessors]
  exact writes_typeText
    (spells_append
      (spells_append
        (spells_append (spells_append (spells_blockTexts _) (spells_blockTexts _))
          (spells_blockTexts _))
        hinitializer)
      (spells_map fun c _ => spells_methodText _ c)) _ _ _ _

theorem writes_interfaceText (d : Diagram) (i : InterfaceDecl) :
    Writes m (interfaceText m d i) (interfaceLines d i) :=
  writes_typeText (spells_append (spells_blockTexts _) (spells_map fun c _ =>
    spells_definitionText (comments_docText _ _) _ (by simp [abstractBody]))) _ _ _ _

theorem writes_enumText (d : Diagram) (e : EnumDecl) :
    Writes m (enumText m d e) (enumLines d e) := by
  have hvalues : List.Forall₂ (Spells m)
      (if e.values.isEmpty then [] else [.ok (joinLines (constants e)), .ok (valueList e)])
      (if e.values.isEmpty then [] else [ofTexts (constants e), ofText (valueList e)]) := by
    split
    · exact .nil
    · next hne =>
      have hconstants : constants e ≠ [] := by simpa [constants, numbered] using hne
      exact .cons (spells_joinLines hconstants) (.cons (spells_ok _) .nil)
  exact writes_typeText hvalues _ _ _ _

/-- The texts of Ruby are those of its listing. -/
theorem fits_listing : listing.Fits emitter where
  header _ := (spells_ok "# frozen_string_literal: true").writes_blank
  footer _ _ := writes_nil
  packageStart _ := writes_packageStartText
  packageEnd _ := writes_packageEndText
  classText _ := writes_classText
  interfaceText _ := writes_interfaceText
  enumText _ := writes_enumText

end ClassSketch.Target.Ruby
