import ClassSketch.Diagram.Member

/-!
# Class diagrams

A diagram holds entities (classes, interfaces and enums) in the order of
their declaration, relationships between entity names, and packages. A
package lists the names of its members; packages and members keep the order
in which they came up. Nothing here requires that names are distinct or
that a listed name belongs to an entity.
-/

namespace ClassSketch

structure ClassDecl where
  name : String
  isAbstract : Bool := false
  package : Option String := none
  generics : List String := []
  attributes : List Attribute := []
  constructors : List Method := []
  methods : List Method := []
deriving Inhabited

structure InterfaceDecl where
  name : String
  package : Option String := none
  generics : List String := []
  methods : List Method := []
deriving Inhabited

structure EnumDecl where
  name : String
  package : Option String := none
  values : List String := []
deriving Inhabited

inductive Kind where
  | cls
  | interface
  | enum
deriving DecidableEq

inductive Entity where
  | cls (c : ClassDecl)
  | interface (i : InterfaceDecl)
  | enum (e : EnumDecl)
deriving Inhabited

namespace Entity

def kind : Entity → Kind
  | cls _ => .cls
  | interface _ => .interface
  | enum _ => .enum

def name : Entity → String
  | cls c => c.name
  | interface i => i.name
  | enum e => e.name

def package : Entity → Option String
  | cls c => c.package
  | interface i => i.package
  | enum e => e.package

def rename (name : String) : Entity → Entity
  | cls c => cls { c with name }
  | interface i => interface { i with name }
  | enum e => enum { e with name }

def class? : Entity → Option ClassDecl
  | cls c => some c
  | _ => none

def interface? : Entity → Option InterfaceDecl
  | interface i => some i
  | _ => none

def enum? : Entity → Option EnumDecl
  | enum e => some e
  | _ => none

end Entity

inductive RelationKind where
  | inheritance
  | implementation
  | association
  | aggregation
  | composition
  | dependency
deriving DecidableEq

/-- A directed edge between entity names. The source is the subtype, the owner
or the dependent side, however the arrow was drawn. -/
structure Relationship where
  source : String
  target : String
  kind : RelationKind
  label : Option String := none
deriving DecidableEq

/-! ## Packages -/

/-- Package names with the names of their members. -/
abbrev Packages := List (String × List String)

namespace Packages

/-- Makes sure that a package is listed, at the end if it is new. -/
def ensure (ps : Packages) (package : String) : Packages :=
  if ps.any (·.1 == package) then ps else ps ++ [(package, [])]

/-- Appends members to a package, which is listed first if it is new. -/
def add (ps : Packages) (package : String) (names : List String) : Packages :=
  (ps.ensure package).map fun p => if p.1 = package then (p.1, p.2 ++ names) else p

/-- Replaces the members of a package, which is listed first if it is new. -/
def set (ps : Packages) (package : String) (names : List String) : Packages :=
  (ps.ensure package).map fun p => if p.1 = package then (p.1, names) else p

/-- The record of listed packages. Of several lists for one name the last counts, in
the place of the first. -/
def ofList (ps : List (String × List String)) : Packages :=
  ps.foldl (fun qs p => qs.set p.1 p.2) []

def remove (ps : Packages) (package : String) : Packages :=
  ps.filter fun p => p.1 != package

/-- The first package that lists a name. -/
def of? (ps : Packages) (name : String) : Option String :=
  (ps.find? fun p => p.2.contains name).map (·.1)

theorem any_key_iff (ps : Packages) (package : String) :
    ps.any (·.1 == package) = true ↔ package ∈ ps.map (·.1) := by
  simp

theorem ensure_keys (ps : Packages) (package : String) :
    (ps.ensure package).map (·.1) =
      if package ∈ ps.map (·.1) then ps.map (·.1) else ps.map (·.1) ++ [package] := by
  simp only [ensure, any_key_iff]
  split <;> simp

theorem add_keys (ps : Packages) (package : String) (names : List String) :
    (ps.add package names).map (·.1) = (ps.ensure package).map (·.1) := by
  simp only [add, List.map_map]
  apply List.map_congr_left
  intro p _
  by_cases h : p.1 = package <;> simp [h]

theorem set_keys (ps : Packages) (package : String) (names : List String) :
    (ps.set package names).map (·.1) = (ps.ensure package).map (·.1) := by
  simp only [set, List.map_map]
  apply List.map_congr_left
  intro p _
  by_cases h : p.1 = package <;> simp [h]

end Packages

structure Diagram where
  entities : List Entity := []
  relationships : List Relationship := []
  packages : Packages := []
deriving Inhabited

namespace Diagram

def classes (d : Diagram) : List ClassDecl :=
  d.entities.filterMap Entity.class?

def interfaces (d : Diagram) : List InterfaceDecl :=
  d.entities.filterMap Entity.interface?

def enums (d : Diagram) : List EnumDecl :=
  d.entities.filterMap Entity.enum?

/-- All entities by kind: classes, then interfaces, then enums. -/
def grouped (d : Diagram) : List Entity :=
  d.classes.map .cls ++ d.interfaces.map .interface ++ d.enums.map .enum

def addEntity (d : Diagram) (e : Entity) : Diagram :=
  { d with entities := d.entities ++ [e] }

def relate (d : Diagram) (rs : List Relationship) : Diagram :=
  { d with relationships := d.relationships ++ rs }

def unrelate (d : Diagram) (source target : String) : Diagram :=
  { d with relationships := d.relationships.filter fun r => !(r.source == source && r.target == target) }

end Diagram

end ClassSketch
