import ClassSketch.Diagram.Lookup
import ClassSketch.Diagram.Order
import ClassSketch.Target.Basic

/-!
# From a diagram to a document

A document arranges the entities of a diagram: a section for each package,
in order, and then the entities that no package lists. A section holds the
entities that its package lists, in that order, as often as they are
listed; names without an entity are left out. Where a language has no
packages there is one section of all entities. On request the entities of
each section are put in an order with supertypes first.

`Document.texts` writes the sections with an emitter, up to the first one that cannot
be written.
-/

namespace ClassSketch

open Layout

/-- Entities that are written together, in a package or after all packages. -/
structure Section where
  package : Option String
  content : Diagram.Ordered

abbrev Document := List Section

namespace Document

/-- Orders the entities of a section if asked to. -/
def arrange (d : Diagram) (supertypesFirst : Bool) (es : List Entity) : Diagram.Ordered :=
  if supertypesFirst then d.order es else { entities := es, cyclic := [] }

/-- The names that some package lists. -/
def packagedNames (d : Diagram) : List String :=
  d.packages.flatMap (·.2)

/-- The entities that no package lists. -/
def unpackaged (d : Diagram) : List Entity :=
  d.grouped.filter fun e => !(packagedNames d).contains e.name

def packageSections (d : Diagram) (supertypesFirst : Bool) : Document :=
  d.packages.map fun (name, members) =>
    { package := some name, content := arrange d supertypesFirst (members.filterMap d.find?) }

def ofDiagram (d : Diagram) (hasPackages supertypesFirst : Bool) : Document :=
  if hasPackages then
    packageSections d supertypesFirst ++
      [{ package := none, content := arrange d supertypesFirst (unpackaged d) }]
  else [{ package := none, content := arrange d supertypesFirst d.grouped }]

/-- The text of some entities in a package: what opens the package, the entities, what closes
the package. -/
def groupText (em : Emitter) (m : Margin) (d : Diagram) (g : Option String × List Entity) :
    Spliced := do
  let start ← g.1.elim (.ok "") (em.packageStart m)
  let entities ← g.2.mapM (em.entityText m d)
  let stop ← g.1.elim (.ok "") (em.packageEnd m)
  return start ++ String.join entities ++ stop

/-- The texts of all sections, or else the first fault and the sections up to it. -/
def texts (em : Emitter) (m : Margin) (d : Diagram) :
    Document → Except (WidthFault × Document) (List String)
  | [] => .ok []
  | s :: doc =>
    match groupText em m d (s.package, s.content.entities) with
    | .error f => .error (f, [s])
    | .ok text =>
      match texts em m d doc with
      | .error (f, sections) => .error (f, s :: sections)
      | .ok rest => .ok (text :: rest)

def warnings (doc : Document) : List String :=
  doc.filterMap fun s => s.content.warning?

end Document

end ClassSketch
