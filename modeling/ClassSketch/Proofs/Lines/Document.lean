import ClassSketch.Convert
import ClassSketch.Proofs.Lines.CSharp
import ClassSketch.Proofs.Lines.Java
import ClassSketch.Proofs.Lines.JavaScript
import ClassSketch.Proofs.Lines.Kotlin
import ClassSketch.Proofs.Lines.Python
import ClassSketch.Proofs.Lines.Ruby
import ClassSketch.Proofs.Lines.TypeScript

/-!
# Generated code as lines

Every language has a listing that fits its emitter (`Language.fits_listing`). So the
code that is generated is that of lines, which depend on the diagram and not on the
margin (`code_of_generate`), and code fails to be generated only by a step of these
lines (`fault_of_generate`). `generate_eq` says the same of the texts of the emitter
alone.
-/

namespace ClassSketch

open Layout Lines

def Language.listing : Language → Listing
  | csharp => Target.CSharp.listing
  | java => Target.Java.listing
  | javascript => Target.JavaScript.listing
  | kotlin => Target.Kotlin.listing
  | python => Target.Python.listing
  | ruby => Target.Ruby.listing
  | typescript => Target.TypeScript.listing

/-- In each language the emitter writes what the listing has. -/
theorem Language.fits_listing (l : Language) : l.listing.Fits l.emitter := by
  cases l with
  | csharp => exact Target.CSharp.fits_listing
  | java => exact Target.Java.fits_listing
  | javascript => exact Target.JavaScript.fits_listing
  | kotlin => exact Target.Kotlin.fits_listing
  | python => exact Target.Python.fits_listing
  | ruby => exact Target.Ruby.fits_listing
  | typescript => exact Target.TypeScript.fits_listing

/-- The margin that the options ask for, where there is memory for `memory` spaces. -/
def Language.margin (l : Language) (options : Options) (memory : Nat) : Margin where
  size := options.indentSize.getD l.emitter.indentSize
  memory := memory

theorem Layout.Lines.render_flatMap {α : Type} (size : Int) (f : α → Lines) (as : List α) :
    render size (as.flatMap f) = String.join (as.map fun a => render size (f a)) := by
  induction as with
  | nil => rfl
  | cons a as ih => rw [List.flatMap_cons, render_append, ih, List.map_cons, String.join_cons]

/-! ## Groups of entities -/

namespace Listing

variable (li : Listing) (size : Int) (d : Diagram)

/-- The lines of a group : what opens its package, its entities, what closes its package. -/
def groupLines (g : Option String × List Entity) : Lines :=
  g.1.elim [] li.packageStart ++ g.2.flatMap (li.entityLines d) ++ g.1.elim [] li.packageEnd

/-- The code of a group, entity by entity. -/
def groupCode (g : Option String × List Entity) : String :=
  render size (g.1.elim [] li.packageStart) ++
    String.join (g.2.map fun e => render size (li.entityLines d e)) ++
    render size (g.1.elim [] li.packageEnd)

/-- The code of a whole diagram, group by group. -/
def code (gs : List (Option String × List Entity)) : String :=
  render size li.header ++ String.join (gs.map (li.groupCode size d)) ++ render size (li.footer d)

/-- The lines of a whole diagram, group by group. -/
def lines (gs : List (Option String × List Entity)) : Lines :=
  li.header ++ gs.flatMap (li.groupLines d) ++ li.footer d

/-- The lines of a group are rendered part by part. -/
theorem render_groupLines (g : Option String × List Entity) :
    render size (li.groupLines d g) = li.groupCode size d g := by
  unfold groupLines groupCode
  rw [render_append, render_append, render_flatMap]

theorem render_lines (gs : List (Option String × List Entity)) :
    render size (li.lines d gs) = li.code size d gs := by
  unfold lines code
  rw [render_append, render_append, render_flatMap]
  simp only [render_groupLines]

end Listing

/-! ## Texts of an emitter -/

namespace Listing.Fits

variable {li : Listing} {em : Emitter} (h : li.Fits em) (m : Margin) (d : Diagram)

include h

/-- The text of an entity is that of its lines. -/
theorem entityText (e : Entity) : Writes m (em.entityText m d e) (li.entityLines d e) := by
  cases e with
  | cls c => exact h.classText m d c
  | interface i => exact h.interfaceText m d i
  | enum e => exact h.enumText m d e

/-- The text of a group is that of its lines. -/
theorem groupText (g : Option String × List Entity) :
    Writes m (Document.groupText em m d g) (li.groupLines d g) := by
  have hstart : Writes m (g.1.elim (.ok "") (em.packageStart m)) (g.1.elim [] li.packageStart) := by
    cases g.1 with
    | none => exact writes_nil
    | some name => exact h.packageStart m name
  have hstop : Writes m (g.1.elim (.ok "") (em.packageEnd m)) (g.1.elim [] li.packageEnd) := by
    cases g.1 with
    | none => exact writes_nil
    | some name => exact h.packageEnd m name
  have hentities := writes_mapM fun e (_ : e ∈ g.2) => h.entityText m d e
  have hwrites := (hstart.append hentities).append hstop
  simp only [bind_assoc, pure_bind] at hwrites
  exact hwrites

/-- The texts of groups one after the other, between the header and the footer. -/
theorem groupTexts (gs : List (Option String × List Entity)) :
    Writes m (do
        let texts ← gs.mapM (Document.groupText em m d)
        return em.header ++ String.join texts ++ em.footer d)
      (li.lines d gs) := by
  have hgroups := writes_mapM fun g (_ : g ∈ gs) => h.groupText m d g
  have hwrites := ((h.header m).append hgroups).append (h.footer m d)
  simp only [bind_assoc, pure_bind] at hwrites
  exact hwrites

end Listing.Fits

namespace Document

/-- The packages of the sections, with their entities. -/
def contents (doc : Document) : List (Option String × List Entity) :=
  doc.map fun s => (s.package, s.content.entities)

/-- The texts of a document are those of its groups. If they could not be made, the fault is
that of the first group with one. -/
theorem texts_eq (em : Emitter) (m : Margin) (d : Diagram) (doc : Document) :
    (doc.texts em m d).mapError Prod.fst = (contents doc).mapM (groupText em m d) := by
  induction doc with
  | nil => rfl
  | cons s doc ih =>
    rw [texts, contents, List.map_cons, List.mapM_cons]
    cases groupText em m d (s.package, s.content.entities) with
    | error f => rfl
    | ok text =>
      change _ = (do let rest ← (contents doc).mapM (groupText em m d); return text :: rest)
      rw [← ih]
      cases texts em m d doc <;> rfl

end Document

/-! ## Generated code -/

/-- The groups of entities that are written, in order. -/
def Language.groups (l : Language) (options : Options) (d : Diagram) :
    List (Option String × List Entity) :=
  Document.contents (Document.ofDiagram d l.emitter.hasPackages options.supertypesFirst)

section Generate

variable {memory : Nat} {l : Language} {options : Options} {d : Diagram}

/-- The code is the header, the texts of the groups one after the other, and the footer. It is
not generated if one of the texts cannot be made, with the fault of that text. -/
theorem generate_eq (memory : Nat) (l : Language) (options : Options) (d : Diagram) :
    ((generate memory l options d).map Generated.code).mapError Overwide.fault = (do
      let texts ← (l.groups options d).mapM
        (Document.groupText l.emitter (l.margin options memory) d)
      return l.emitter.header ++ String.join texts ++ l.emitter.footer d) := by
  simp only [Language.groups, ← Document.texts_eq]
  simp only [generate, Language.margin]
  cases Document.texts _ _ d _ <;> rfl

/-- What is generated is the text of the lines, or the fault of the widest margin in them. -/
theorem writes_generate (memory : Nat) (l : Language) (options : Options) (d : Diagram) :
    Writes (l.margin options memory)
      (((generate memory l options d).map Generated.code).mapError Overwide.fault)
      (l.listing.lines d (l.groups options d)) := by
  rw [generate_eq]
  exact l.fits_listing.groupTexts _ d _

/-- Generated code is that of the lines, for the size that was asked for. -/
theorem code_of_generate {out : Generated} (h : generate memory l options d = .ok out) :
    out.code = l.listing.code (options.indentSize.getD l.emitter.indentSize) d
      (l.groups options d) := by
  have hwrites := writes_generate memory l options d
  rw [h] at hwrites
  rw [(hwrites.text_eq rfl).2, Listing.render_lines]
  rfl

/-- Every step of the lines that are generated is possible. -/
theorem possible_of_generate {out : Generated} (h : generate memory l options d = .ok out) :
    (l.listing.lines d (l.groups options d)).Possible (l.margin options memory) := by
  have hwrites := writes_generate memory l options d
  rw [h] at hwrites
  exact (hwrites.text_eq rfl).1

/-- The text of an entity in generated code. -/
theorem entityText_of_generate {out : Generated} (h : generate memory l options d = .ok out)
    {g : Option String × List Entity} (hg : g ∈ l.groups options d) {e : Entity} (he : e ∈ g.2) :
    l.emitter.entityText (l.margin options memory) d e =
      .ok (render (options.indentSize.getD l.emitter.indentSize) (l.listing.entityLines d e)) := by
  refine (l.fits_listing.entityText _ d e).eq_ok fun line hline => ?_
  have hgroup : line ∈ l.listing.groupLines d g :=
    List.mem_append_left _ (List.mem_append_right _ (List.mem_flatMap.2 ⟨e, he, hline⟩))
  exact possible_of_generate h line
    (List.mem_append_left _ (List.mem_append_right _ (List.mem_flatMap.2 ⟨g, hg, hgroup⟩)))

/-- Code is not generated only if a line of some group was to be moved in too far. -/
theorem fault_of_generate {o : Overwide} (h : generate memory l options d = .error o) :
    ∃ g ∈ l.groups options d,
      (l.listing.groupLines d g).Faults (l.margin options memory) o.fault := by
  have hwrites := writes_generate memory l options d
  rw [h] at hwrites
  obtain ⟨line, hline, hstep⟩ := hwrites.fault rfl
  -- The header and the footer are texts, so none of their steps has a fault.
  rcases List.mem_append.1 hline with hline | hline
  · rcases List.mem_append.1 hline with hline | hline
    · have hheader := ((l.fits_listing.header (l.margin options memory)).text_eq rfl).1
      exact absurd hheader (Faults.not_possible ⟨line, hline, hstep⟩)
    · obtain ⟨g, hg, hmem⟩ := List.mem_flatMap.1 hline
      exact ⟨g, hg, line, hmem, hstep⟩
  · have hfooter := ((l.fits_listing.footer (l.margin options memory) d).text_eq rfl).1
    exact absurd hfooter (Faults.not_possible ⟨line, hline, hstep⟩)

end Generate

end ClassSketch
