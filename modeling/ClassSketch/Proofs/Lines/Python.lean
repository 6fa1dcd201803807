import ClassSketch.Proofs.Lines.Spelling
import ClassSketch.Target.Python

/-!
# Lines of Python

Blocks have no end of their own, so a body has at least one line. Several constructors
are overloads of one initializer. The texts of the emitter spell these lines
(`fits_listing`).
-/

namespace ClassSketch.Target.Python

open Layout Lines

def initializer (signature : String) (params : List String) (attrs : List Attribute)
    (hasParent : Bool) : Lines :=
  ofText ("def __init__(" ++ signature ++ ") -> None:") ++
    (ofTexts (initializerBody params attrs hasParent)).nest

def overload (m : Method) : Lines :=
  ofTexts (overloadTexts m)

/-- One `__init__` for all constructors, after a signature for each if there are several. -/
def initializers (ms : List Method) (attrs : List Attribute) (hasParent : Bool) : List Lines :=
  match ms with
  | [] => []
  | [m] => [initializer (parameters true m.parameters) (m.parameters.map (·.name)) attrs hasParent]
  | ms => ms.map overload ++ [initializer "self, *args: Any, **kwargs: Any" [] attrs hasParent]

def abstractMethod (m : Method) : Lines :=
  ofTexts (decorators true m ++ [signature m ++ " ..."])

def method (m : Method) : Lines :=
  if m.isAbstract then abstractMethod m
  else ofTexts (decorators false m ++ [signature m]) ++ (ofTexts (body m)).nest

def classBlock (name : String) (generics bases : List String) (blocks : List Lines) : Lines :=
  (if generics.isEmpty then [] else ofTexts (typeVariables generics) ++ blank) ++
    ofText (classHead name generics bases) ++
    (paragraphs blocks).nest ++ blank ++ blank

def classLines (d : Diagram) (c : ClassDecl) : Lines :=
  classBlock c.name c.generics (classBases d c)
    ([ofText (docString (c.name ++ " class."))] ++ block (ofTexts (fields c)) ++
      initializers (constructors c) (instanceAttributes c) (d.parent? c).isSome ++
      c.methods.map method)

def interfaceLines (d : Diagram) (i : InterfaceDecl) : Lines :=
  classBlock i.name i.generics (interfaceBases d i)
    (ofText (docString (i.name ++ " interface.")) :: i.methods.map abstractMethod)

def enumLines (_ : Diagram) (e : EnumDecl) : Lines :=
  classBlock e.name [] ["Enum"]
    (ofText (docString (e.name ++ " enum.")) :: block (ofTexts (constants e)))

def listing : Listing where
  header := ofTexts imports ++ blank
  packageStart := fun name => ofText ("# Package: " ++ name) ++ blank
  classLines := classLines
  interfaceLines := interfaceLines
  enumLines := enumLines

/-! ## Spelling -/

variable {m : Margin}

theorem spells_initializerText (signature : String) (params : List String)
    (attrs : List Attribute) (hasParent : Bool) :
    Spells m (initializerText m signature params attrs hasParent)
      (initializer signature params attrs hasParent) :=
  (spells_ok _).append ((spells_joinLines (by simp [initializerBody])).indent 1)

/-- Several constructors give overloads and one initializer. -/
theorem spells_initializerTexts (attrs : List Attribute) (hasParent : Bool) (cs : List Method) :
    List.Forall₂ (Spells m) (initializerTexts m attrs hasParent cs)
      (initializers cs attrs hasParent) := by
  match cs with
  | [] => exact .nil
  | [c] => exact .cons (spells_initializerText _ _ _ _) .nil
  | c :: c' :: cs =>
    exact spells_append (spells_map fun c _ => spells_joinLines (by simp [overloadTexts]))
      (.cons (spells_initializerText _ _ _ _) .nil)

theorem spells_definitionText (isAbstract : Bool) (c : Method) (last : String) :
    Spells m (.ok (definitionText isAbstract c ++ last))
      (ofTexts (decorators isAbstract c ++ [signature c ++ last])) := by
  rw [definitionText, String.append_assoc, join_feed]
  exact spells_joinLines (by simp)

theorem spells_abstractText (c : Method) : Spells m (.ok (abstractText c)) (abstractMethod c) :=
  spells_definitionText true c " ..."

theorem spells_methodText (c : Method) : Spells m (methodText m c) (method c) := by
  unfold methodText method
  split
  · exact spells_abstractText c
  · have hhead := spells_definitionText (m := m) false c ""
    rw [String.append_empty, String.append_empty] at hhead
    exact hhead.append ((spells_joinLines (by simp [body])).indent 1)

/-- A class with its bases and a body that is not empty. -/
theorem writes_classBlockText {blocks : List Spliced} {lss : List Lines}
    (h : List.Forall₂ (Spells m) blocks lss) (hne : blocks ≠ []) (name : String)
    (generics bases : List String) :
    Writes m (classBlockText m name generics bases blocks)
      (classBlock name generics bases lss) := by
  have hwrites := (((spells_spread h hne).indent 1).below
    ((if generics.isEmpty then [] else typeVariables generics ++ [""]) ++
      [classHead name generics bases])).writes_blanks
  have hlines : ofTexts ((if generics.isEmpty then [] else typeVariables generics ++ [""]) ++
      [classHead name generics bases]) =
        (if generics.isEmpty then [] else ofTexts (typeVariables generics) ++ blank) ++
          ofText (classHead name generics bases) := by
    have hblank : ofText "" = blank := rfl
    split <;> simp [ofTexts, hblank]
  rw [hlines] at hwrites
  unfold spread at hwrites
  unfold classBlockText
  cases htexts : blocks.mapM id with
  | error f =>
    rw [htexts] at hwrites
    exact hwrites
  | ok texts =>
    rw [htexts] at hwrites
    change Writes m (do
      let inner ← m.indent 1 ("\n\n".intercalate texts)
      return joinLines ((if generics.isEmpty then [] else typeVariables generics ++ [""]) ++
        [classHead name generics bases] ++ [inner]) ++ "\n\n\n") _
    change Writes m (do
      let a ← (do
        let inner ← m.indent 1 ("\n\n".intercalate texts)
        return joinLines ((if generics.isEmpty then [] else typeVariables generics ++ [""]) ++
          [classHead name generics bases] ++ [inner]))
      return a ++ "\n\n\n") _ at hwrites
    generalize m.indent 1 _ = inner at hwrites ⊢
    cases inner <;> exact hwrites

/-- The text of a class is that of its lines. -/
theorem writes_classText (d : Diagram) (c : ClassDecl) :
    Writes m (classText m d c) (classLines d c) :=
  writes_classBlockText
    (spells_append
      (spells_append (spells_append (.cons (spells_ok _) .nil) (spells_blockTexts _))
        (spells_initializerTexts _ _ _))
      (spells_map fun c _ => spells_methodText c)) (by simp) _ _ _

theorem writes_interfaceText (d : Diagram) (i : InterfaceDecl) :
    Writes m (interfaceText m d i) (interfaceLines d i) :=
  writes_classBlockText (.cons (spells_ok _) (spells_map fun c _ => spells_abstractText c))
    (List.cons_ne_nil _ _) _ _ _

theorem writes_enumText (d : Diagram) (e : EnumDecl) :
    Writes m (enumText m d e) (enumLines d e) :=
  writes_classBlockText (.cons (spells_ok _) (spells_blockTexts _)) (List.cons_ne_nil _ _) _ _ _

/-- The texts of Python are those of its listing. -/
theorem fits_listing : listing.Fits emitter where
  header _ := (spells_joinLines (List.cons_ne_nil _ _)).writes_blank
  footer _ _ := writes_nil
  packageStart _ name := (spells_ok ("# Package: " ++ name)).writes_blank
  packageEnd _ _ := writes_nil
  classText _ := writes_classText
  interfaceText _ := writes_interfaceText
  enumText _ := writes_enumText

end ClassSketch.Target.Python
