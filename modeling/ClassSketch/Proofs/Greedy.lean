import ClassSketch.Diagram.Order

/-!
# The greedy order

A second way to put supertypes first, without degrees and without a heap. Each
position that is left waits for those of its supertypes that are left. Again and
again the first position that waits for nothing is taken, until there is none
(`Waiting.settle`). Each position is taken once (`perm_settle`).
-/

namespace ClassSketch

/-- A position that is not taken yet, with those of its supertypes that are not. -/
structure Waiting where
  position : Nat
  parents : List Nat

namespace Waiting

/-- The positions below `n`, each waiting for all of its supertypes. -/
def ofEdges (n : Nat) (edges : List SubtypeEdge) : List Waiting :=
  (List.range n).map fun i =>
    { position := i, parents := (edges.filter (·.child == i)).map (·.parent) }

/-- Waits no longer for position `i`. -/
def release (i : Nat) (w : Waiting) : Waiting :=
  { w with parents := w.parents.filter (· != i) }

/-- What is left when position `i` is taken. -/
def take (i : Nat) (left : List Waiting) : List Waiting :=
  (left.filter (·.position != i)).map (release i)

/-- Taking what waits makes the list shorter, so that settling ends. -/
theorem length_take_lt {left : List Waiting} {w : Waiting} (h : w ∈ left) :
    (take w.position left).length < left.length := by
  rw [take, List.length_map]
  exact List.length_filter_lt_length_iff_exists.2 ⟨w, h, by simp⟩

/-- The positions in the order in which they are taken, and those that cannot be. -/
def settle (left : List Waiting) : List Nat × List Nat :=
  match _h : left.find? (·.parents.isEmpty) with
  | none => ([], left.map (·.position))
  | some w =>
    let rest := settle (take w.position left)
    (w.position :: rest.1, rest.2)
termination_by left.length
decreasing_by
  exact length_take_lt (List.mem_of_find?_eq_some _h)

/-- Where every position waits for another one, all are left over. -/
theorem settle_of_none {left : List Waiting} (h : left.find? (·.parents.isEmpty) = none) :
    settle left = ([], left.map position) := by
  rw [settle]
  split
  · rfl
  · next hsome => rw [h] at hsome; cases hsome

/-- The first position that waits for nothing is taken. -/
theorem settle_of_some {left : List Waiting} {w : Waiting}
    (h : left.find? (·.parents.isEmpty) = some w) :
    settle left = (w.position :: (settle (take w.position left)).1,
      (settle (take w.position left)).2) := by
  rw [settle]
  split
  · next hnone => rw [h] at hnone; cases hnone
  · next hsome => rw [h] at hsome; cases hsome; rfl

/-- What is taken is one position. -/
theorem map_position_take (i : Nat) (left : List Waiting) :
    (take i left).map position = (left.map position).filter (· != i) := by
  unfold take
  rw [List.map_map, List.filter_map]
  rfl

/-- At the start all positions wait. -/
theorem map_position_ofEdges (n : Nat) (edges : List SubtypeEdge) :
    (ofEdges n edges).map position = List.range n := by
  unfold ofEdges
  rw [List.map_map]
  exact List.map_id _

/-- Settling takes every position once. -/
theorem perm_settle (left : List Waiting) (h : (left.map position).Nodup) :
    ((settle left).1 ++ (settle left).2).Perm (left.map position) := by
  fun_induction settle left with
  | case1 left hnone => exact List.Perm.refl _
  | case2 left w hfind rest ih =>
    have hw : w.position ∈ left.map position :=
      List.mem_map_of_mem (List.mem_of_find?_eq_some hfind)
    rw [map_position_take] at ih
    have hrest := ih (h.filter _)
    rw [← h.erase_eq_filter] at hrest
    exact (hrest.cons w.position).trans (List.perm_cons_erase hw).symm

/-- Settling from the start takes every position below `n` once. -/
theorem perm_settle_ofEdges (n : Nat) (edges : List SubtypeEdge) :
    ((settle (ofEdges n edges)).1 ++ (settle (ofEdges n edges)).2).Perm (List.range n) := by
  have hpositions := map_position_ofEdges n edges
  rw [← hpositions]
  exact perm_settle _ (by rw [hpositions]; exact List.nodup_range)

end Waiting

/-- The entities of a list in the greedy order, with those left over at the end. -/
def Diagram.greedyOrder (d : Diagram) (es : List Entity) : Ordered :=
  let (sorted, stuck) := Waiting.settle (Waiting.ofEdges es.length (d.subtypeEdges es))
  { entities := (sorted ++ stuck).filterMap (es[·]?), cyclic := stuck.filterMap (es[·]?) }

end ClassSketch
