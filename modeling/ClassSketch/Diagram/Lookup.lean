import ClassSketch.Diagram.Basic

/-!
# Looking things up in a diagram

Relationships refer to entities by name. A name that belongs to no entity of
the kind asked for is left out of the answers.
-/

namespace ClassSketch.Diagram

/-- The entity with a name: classes first, then interfaces, then enums. -/
def find? (d : Diagram) (name : String) : Option Entity :=
  d.grouped.find? fun e => e.name == name

/-- The class named by the first inheritance relationship of a class. A first
relationship that names no class means that there is no parent. -/
def parent? (d : Diagram) (c : ClassDecl) : Option ClassDecl :=
  (d.relationships.find? fun r => r.kind == .inheritance && r.source == c.name).bind fun r =>
    d.classes.find? fun p => p.name == r.target

/-- The interface with a name; of several the one declared last. -/
def interface? (d : Diagram) (name : String) : Option InterfaceDecl :=
  d.interfaces.reverse.find? fun i => i.name == name

/-- The interfaces that relationships of one kind lead to from `source`, each
name once, in the order of the relationships. -/
def interfacesVia (d : Diagram) (kind : RelationKind) (source : String) : List InterfaceDecl :=
  let links := d.relationships.filter fun r => r.kind == kind && r.source == source
  (links.map (·.target)).eraseDups.filterMap d.interface?

def implemented (d : Diagram) (c : ClassDecl) : List InterfaceDecl :=
  d.interfacesVia .implementation c.name

/-- The interfaces that an interface inherits from. -/
def extended (d : Diagram) (i : InterfaceDecl) : List InterfaceDecl :=
  d.interfacesVia .inheritance i.name

def associations (d : Diagram) (c : ClassDecl) : List Relationship :=
  d.relationships.filter fun r =>
    r.source == c.name && r.kind ∈ [.association, .aggregation, .composition]

/-- Whether something else inherits from the class. -/
def hasSubclasses (d : Diagram) (c : ClassDecl) : Bool :=
  d.relationships.any fun r => r.kind == .inheritance && r.target == c.name && r.source != c.name

/-- The first package that lists a name. -/
def packageOf (d : Diagram) (name : String) : Option String :=
  d.packages.of? name

/-! ## Changing one entity -/

/-- Changes the first element that satisfies `p`. -/
def modifyFirst {α : Type} (p : α → Bool) (f : α → α) : List α → List α
  | [] => []
  | a :: as => if p a then f a :: as else a :: modifyFirst p f as

/-- Changes the entity that `find?` finds. -/
def update (d : Diagram) (name : String) (f : Entity → Entity) : Diagram :=
  match d.find? name with
  | none => d
  | some e =>
    { d with entities := modifyFirst (fun x => x.kind == e.kind && x.name == name) f d.entities }

end ClassSketch.Diagram
