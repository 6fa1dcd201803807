import ClassSketch.Proofs.Lines.Spelling
import ClassSketch.Target.Kotlin

/-!
# Lines of Kotlin

Static members are put together in a companion, which is a block in the block of its
class. The texts of the emitter spell these lines (`fits_listing`).
-/

namespace ClassSketch.Target.Kotlin

open Layout Lines

def constructor (hasParent : Bool) (m : Method) : Lines :=
  braced (constructorHead hasParent m) (ofText "// TODO: Implement constructor")

def method (m : Method) : Lines :=
  if m.isAbstract then ofText (signature false m)
  else braced (signature false m) (ofTexts (body m))

def typeBlock (summary head : String) (blocks : List Lines) : Lines :=
  starComment [summary] ++ braced head (paragraphs blocks) ++ blank

def companion (c : ClassDecl) : List Lines :=
  let members := (staticAttributes c).map (fun a => ofText (property a)) ++
    (c.methods.filter (·.isStatic)).map method
  if members.isEmpty then [] else [braced "companion object" (paragraphs members)]

def classLines (d : Diagram) (c : ClassDecl) : Lines :=
  typeBlock (c.name ++ " class") (classHead d c)
    (block (ofTexts ((instanceAttributes c).map property)) ++
      (constructors c).map (constructor (d.parent? c).isSome) ++
      (c.methods.filter (!·.isStatic)).map method ++ companion c)

def interfaceLines (d : Diagram) (i : InterfaceDecl) : Lines :=
  typeBlock (i.name ++ " interface") (interfaceHead d i)
    (i.methods.map fun m => ofText (signature true m))

def enumLines (_ : Diagram) (e : EnumDecl) : Lines :=
  typeBlock (e.name ++ " enum") ("enum class " ++ e.name ++ "(val value: Int)")
    (block (ofTexts (commaLines ";" (constants e))))

def listing : Listing where
  packageStart := fun name => ofText ("package " ++ name) ++ blank
  classLines := classLines
  interfaceLines := interfaceLines
  enumLines := enumLines

/-! ## Spelling -/

variable {m : Margin}

theorem spells_methodText (c : Method) : Spells m (methodText m c) (method c) := by
  unfold methodText method
  split
  · exact spells_ok _
  · exact spells_bracedText _ (spells_joinLines (by simp [body]))

/-- A companion is written only if there are static members. -/
theorem spells_companionText (c : ClassDecl) :
    List.Forall₂ (Spells m) (companionText m c) (companion c) := by
  have hmembers : List.Forall₂ (Spells m)
      ((staticAttributes c).map (fun a => .ok (property a)) ++
        (c.methods.filter (·.isStatic)).map (methodText m))
      ((staticAttributes c).map (fun a => ofText (property a)) ++
        (c.methods.filter (·.isStatic)).map method) :=
    spells_append (spells_map fun a _ => spells_ok _) (spells_map fun c _ => spells_methodText c)
  unfold companionText companion
  generalize (staticAttributes c).map _ ++ _ = texts at hmembers ⊢
  generalize (staticAttributes c).map _ ++ _ = members at hmembers ⊢
  cases hmembers with
  | nil => exact .nil
  | @cons r ls texts members hr hrest =>
    have hspread := spells_spread (.cons hr hrest) (List.cons_ne_nil _ _)
    have hspells := spells_bracedText "companion object" hspread
    refine .cons ?_ .nil
    unfold spread at hspells
    cases hall : (r :: texts).mapM id <;> rw [hall] at hspells <;> exact hspells

/-- The text of a class is that of its lines. -/
theorem writes_classText (d : Diagram) (c : ClassDecl) :
    Writes m (classText m d c) (classLines d c) :=
  writes_starredText
    (spells_append
      (spells_append
        (spells_append (spells_blockTexts _)
          (spells_map fun _ _ => spells_bracedText _ (spells_ok _)))
        (spells_map fun c _ => spells_methodText c))
      (spells_companionText c)) _ _

theorem writes_interfaceText (d : Diagram) (i : InterfaceDecl) :
    Writes m (interfaceText m d i) (interfaceLines d i) :=
  writes_starredText (spells_map fun _ _ => spells_ok _) _ _

theorem writes_enumText (d : Diagram) (e : EnumDecl) :
    Writes m (enumText m d e) (enumLines d e) := by
  have hempty : e.values.isEmpty = true ↔ constants e = [] := by simp [constants, numbered]
  have hblock := spells_commaBlock (m := m) ";" (constants e)
  simp only [← hempty] at hblock
  exact writes_starredText hblock _ _

/-- The texts of Kotlin are those of its listing. -/
theorem fits_listing : listing.Fits emitter where
  header _ := writes_nil
  footer _ _ := writes_nil
  packageStart _ name := (spells_ok ("package " ++ name)).writes_blank
  packageEnd _ _ := writes_nil
  classText _ := writes_classText
  interfaceText _ := writes_interfaceText
  enumText _ := writes_enumText

end ClassSketch.Target.Kotlin
