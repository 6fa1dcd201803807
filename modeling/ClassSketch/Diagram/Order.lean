import ClassSketch.Diagram.Basic
import ClassSketch.Diagram.Heap

/-!
# Supertypes first

Some languages evaluate a supertype when the subtype is defined, so that
supertypes have to come first. `Diagram.order` arranges a list of entities
accordingly. Entities are handled by position, and a name stands for its first
position. Only supertypes in the list count, and an entity is not its own
supertype.

The edges between positions form a graph, each edge from a supertype to a
subtype. Every position has a degree, the number of its supertypes that are
not placed yet, and the positions of degree zero wait in a heap. Again and
again the least of them is placed, and the degree of its subtypes goes down.
Entities that are left when the heap is empty are on an inheritance cycle or
below one; they follow in the order in which they came, and are reported.

What keeps the graph is a parameter (`GraphLibrary`).
-/

namespace ClassSketch

/-- That the entity at one position is a supertype of the one at another. -/
structure SubtypeEdge where
  child : Nat
  parent : Nat
deriving DecidableEq

/-! ## Graphs -/

/-- What is used of a library for directed graphs. Vertices are positions. -/
structure GraphLibrary where
  Graph : Type
  ofEdges : (vertices : List Nat) → (edges : List SubtypeEdge) → Graph
  /-- The edges that lead to a vertex. -/
  inEdges : Graph → Nat → List SubtypeEdge
  /-- The ends of the edges that start at a vertex. -/
  successors : Graph → Nat → List Nat

/-- The library that looks everything up in the list of edges. -/
def GraphLibrary.edgeList : GraphLibrary where
  Graph := List SubtypeEdge
  ofEdges := fun _ edges => edges
  inEdges := fun edges i => edges.filter (·.child == i)
  successors := fun edges i => (edges.filter (·.parent == i)).map (·.child)

/-! ## Placing positions -/

/-- The number of supertypes that each position waits for, and the positions that
wait for none and are not placed. -/
structure Placing where
  degrees : List Int
  ready : Heap

namespace Placing

def ofDegrees (degrees : List Int) : Placing where
  degrees
  ready := .ofList ((List.range degrees.length).filter (degrees[·]? == some 0))

/-- A position waits for one supertype less. -/
def release (s : Placing) (i : Nat) : Placing :=
  match s.degrees[i]? with
  | none => s
  | some degree =>
    { degrees := s.degrees.set i (degree - 1)
      ready := if degree - 1 = 0 then s.ready.push i else s.ready }

/-- How often a position can still be placed or get ready. -/
def work (s : Placing) : Nat :=
  s.degrees.countP (0 < ·) + s.ready.toList.length

/-- A release leaves no more work : a position that gets ready had a degree before. -/
theorem work_release_le (s : Placing) (i : Nat) : (s.release i).work ≤ s.work := by
  unfold release
  split
  · exact Nat.le_refl _
  · next degree hdegree =>
    obtain ⟨hi, rfl⟩ := List.getElem?_eq_some_iff.1 hdegree
    have hcount := List.countP_set (p := fun d : Int => decide (0 < d)) (a := s.degrees[i] - 1) hi
    have hpos : 0 < s.degrees[i] → 0 < s.degrees.countP (0 < ·) := fun h =>
      List.countP_pos_iff.2 ⟨_, List.getElem_mem hi, decide_eq_true h⟩
    have hpush := (s.ready.perm_push i).length_eq
    simp only [decide_eq_true_eq] at hcount
    simp only [work, hcount]
    by_cases hzero : s.degrees[i] - 1 = 0
    · have hcounted := hpos (by omega)
      rw [if_pos (by omega), if_neg (by omega), if_pos hzero, hpush, List.length_cons]
      omega
    · rw [if_neg hzero]
      by_cases h : 0 < s.degrees[i]
      · have hcounted := hpos h
        rw [if_pos h, if_pos (by omega)]
        omega
      · rw [if_neg h, if_neg (by omega)]
        omega

theorem work_foldl_release_le (is : List Nat) (s : Placing) : (is.foldl release s).work ≤ s.work := by
  induction is generalizing s with
  | nil => exact Nat.le_refl _
  | cons i is ih => exact Nat.le_trans (ih _) (work_release_le s i)

/-- The positions in the order in which they are placed. -/
def run (successors : Nat → List Nat) (s : Placing) : List Nat :=
  match _h : s.ready.pop? with
  | none => []
  | some (i, ready) => i :: run successors ((successors i).foldl release { s with ready })
termination_by s.work
decreasing_by
  have hlength := (Heap.of_pop? _h).1.length_eq
  refine Nat.lt_of_le_of_lt (work_foldl_release_le _ _) ?_
  simp only [work, List.length_cons] at hlength ⊢
  omega

end Placing

/-- The positions below `n` that can be placed, in order. -/
def GraphLibrary.place (graphs : GraphLibrary) (n : Nat) (edges : List SubtypeEdge) : List Nat :=
  let vertices := List.range n
  let graph := graphs.ofEdges vertices edges
  let degrees := vertices.map fun i => ((graphs.inEdges graph i).length : Int)
  (Placing.ofDegrees degrees).run (graphs.successors graph)

namespace Diagram

/-! ## Edges -/

/-- Inheritance and implementation order entities. -/
def isSubtyping (r : Relationship) : Bool :=
  r.kind == .inheritance || r.kind == .implementation

/-- Notes the position of an entity, unless its name already has one. -/
def notePosition (index : List (String × Nat)) (p : Entity × Nat) : List (String × Nat) :=
  if (index.lookup p.1.name).isSome then index else index ++ [(p.1.name, p.2)]

/-- The first position of each name. -/
def positions (es : List Entity) : List (String × Nat) :=
  es.zipIdx.foldl notePosition []

/-- The edges found so far, and the pairs of positions that they join. -/
structure EdgeScan where
  edges : List SubtypeEdge := []
  seen : List (Nat × Nat) := []

/-- The edge of a relationship, unless the two positions are already joined. -/
def EdgeScan.add (index : List (String × Nat)) (scan : EdgeScan) (r : Relationship) : EdgeScan :=
  if !isSubtyping r then scan
  else match index.lookup r.source, index.lookup r.target with
    | some child, some parent =>
      if child = parent then scan
      else if scan.seen.contains (parent, child) then scan
      else { edges := scan.edges ++ [{ child, parent }], seen := scan.seen ++ [(parent, child)] }
    | _, _ => scan

/-- The edges between the entities of a list, each once. -/
def subtypeEdges (d : Diagram) (es : List Entity) : List SubtypeEdge :=
  (d.relationships.foldl (EdgeScan.add (positions es)) {}).edges

/-! ## Order -/

/-- Entities in an order, and those of them that cycles kept from being ordered. -/
structure Ordered where
  entities : List Entity
  cyclic : List Entity

/-- The entities of a list in order, with a given library for graphs. -/
def orderWith (graphs : GraphLibrary) (d : Diagram) (es : List Entity) : Ordered :=
  if es.length < 2 then { entities := es, cyclic := [] }
  else
    let placed := graphs.place es.length (d.subtypeEdges es)
    let cyclic :=
      if placed.length < es.length then (List.range es.length).filter (!placed.contains ·) else []
    { entities := (placed ++ cyclic).filterMap (es[·]?), cyclic := cyclic.filterMap (es[·]?) }

def order (d : Diagram) (es : List Entity) : Ordered :=
  d.orderWith .edgeList es

/-- The names on cycles, if there are any. -/
def Ordered.warning? (o : Ordered) : Option String :=
  if o.cyclic.isEmpty then none
  else some ("Inheritance cycle between " ++ ", ".intercalate (o.cyclic.map Entity.name) ++
    "; keeping declaration order")

end Diagram

end ClassSketch
