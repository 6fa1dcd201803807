/-!
# A heap of positions

A heap gives back the least of the numbers that were put in. It is a tree in
which no number stands above a smaller one. Two trees are joined along their
right branches, and the branches change sides on the way.
-/

namespace ClassSketch

inductive HeapTree where
  | leaf
  | node (left : HeapTree) (root : Nat) (right : HeapTree)

namespace HeapTree

/-- The numbers of a tree, its root first. -/
def toList : HeapTree → List Nat
  | leaf => []
  | node left root right => root :: (left.toList ++ right.toList)

/-- No number stands above a smaller one. -/
def Ordered : HeapTree → Prop
  | leaf => True
  | node left root right =>
    (∀ i ∈ left.toList ++ right.toList, root ≤ i) ∧ left.Ordered ∧ right.Ordered

/-- One tree of the numbers of two. -/
def merge : HeapTree → HeapTree → HeapTree
  | leaf, t => t
  | s, leaf => s
  | node left i right, node left' j right' =>
    if i ≤ j then node (merge right (node left' j right')) i left
    else node (merge (node left i right) right') j left'
termination_by s t => s.toList.length + t.toList.length
decreasing_by
  all_goals simp only [toList, List.length_cons, List.length_append]; omega

open scoped List in
/-- Merging keeps the numbers of both trees. -/
theorem perm_merge (s t : HeapTree) : (merge s t).toList.Perm (s.toList ++ t.toList) := by
  fun_induction merge s t with
  | case1 t => exact .refl _
  | case2 s => rw [toList, List.append_nil]
  | case3 left i right left' j right' h ih =>
    calc i :: ((merge right (node left' j right')).toList ++ left.toList)
      _ ~ i :: (right.toList ++ (node left' j right').toList ++ left.toList) :=
        (ih.append_right _).cons i
      _ ~ i :: (left.toList ++ (right.toList ++ (node left' j right').toList)) :=
        List.perm_append_comm.cons i
      _ = i :: (left.toList ++ right.toList) ++ (node left' j right').toList := by simp
  | case4 left i right left' j right' h ih =>
    calc j :: ((merge (node left i right) right').toList ++ left'.toList)
      _ ~ j :: ((node left i right).toList ++ right'.toList ++ left'.toList) :=
        (ih.append_right _).cons j
      _ = j :: ((node left i right).toList ++ (right'.toList ++ left'.toList)) := by simp
      _ ~ j :: ((node left i right).toList ++ (left'.toList ++ right'.toList)) :=
        (List.perm_append_comm.append_left _).cons j
      _ ~ (node left i right).toList ++ j :: (left'.toList ++ right'.toList) :=
        List.perm_middle.symm

/-- Merging keeps the heap order. -/
theorem ordered_merge {s t : HeapTree} (hs : s.Ordered) (ht : t.Ordered) :
    (merge s t).Ordered := by
  fun_induction merge s t with
  | case1 t => exact ht
  | case2 s => exact hs
  | case3 left i right left' j right' h ih =>
    obtain ⟨hroot, hleft, hright⟩ := hs
    refine ⟨fun k hk => ?_, ih hright ht, hleft⟩
    have hroot' := ht.1
    have hk' := ((perm_merge right (node left' j right')).append_right left.toList).mem_iff.1 hk
    simp only [toList, List.mem_append, List.mem_cons] at hk' hroot hroot'
    rcases hk' with (hk | rfl | hk) | hk
    · exact hroot k (.inr hk)
    · exact h
    · exact Nat.le_trans h (hroot' k hk)
    · exact hroot k (.inl hk)
  | case4 left i right left' j right' h ih =>
    obtain ⟨hroot', hleft', hright'⟩ := ht
    refine ⟨fun k hk => ?_, ih hs hright', hleft'⟩
    have hroot := hs.1
    have hk' := ((perm_merge (node left i right) right').append_right left'.toList).mem_iff.1 hk
    simp only [toList, List.mem_append, List.mem_cons] at hk' hroot hroot'
    have hlt : j ≤ i := Nat.le_of_lt (Nat.lt_of_not_le h)
    rcases hk' with ((rfl | hk) | hk) | hk
    · exact hlt
    · exact Nat.le_trans hlt (hroot k hk)
    · exact hroot' k (.inr hk)
    · exact hroot' k (.inl hk)

end HeapTree

/-- A tree in heap order. -/
structure Heap where
  tree : HeapTree
  ordered : tree.Ordered

namespace Heap

def toList (h : Heap) : List Nat :=
  h.tree.toList

def empty : Heap :=
  ⟨.leaf, trivial⟩

def push (h : Heap) (i : Nat) : Heap where
  tree := .merge (.node .leaf i .leaf) h.tree
  ordered := HeapTree.ordered_merge ⟨nofun, trivial, trivial⟩ h.ordered

def ofList (is : List Nat) : Heap :=
  is.foldl push empty

/-- The least number and the heap without it. -/
def pop? : Heap → Option (Nat × Heap)
  | ⟨.leaf, _⟩ => none
  | ⟨.node left root right, h⟩ => some (root, ⟨.merge left right, HeapTree.ordered_merge h.2.1 h.2.2⟩)

/-- Pushing puts one number in. -/
theorem perm_push (h : Heap) (i : Nat) : (h.push i).toList.Perm (i :: h.toList) :=
  HeapTree.perm_merge _ _

/-- A heap made of a list holds the numbers of the list. -/
theorem perm_ofList (is : List Nat) : (ofList is).toList.Perm is := by
  have hfold : ∀ h : Heap, (is.foldl push h).toList.Perm (is ++ h.toList) := by
    induction is with
    | nil => exact fun h => .refl _
    | cons i is ih =>
      intro h
      exact (ih (h.push i)).trans (((perm_push h i).append_left is).trans List.perm_middle)
  exact (hfold empty).trans (.of_eq (List.append_nil is))

theorem pop?_eq_none_iff {h : Heap} : h.pop? = none ↔ h.toList = [] := by
  obtain ⟨tree, hordered⟩ := h
  cases tree <;> simp [pop?, toList, HeapTree.toList]

/-- Popping takes one number out, and none of the numbers is less. -/
theorem of_pop? {h rest : Heap} {i : Nat} (hpop : h.pop? = some (i, rest)) :
    h.toList.Perm (i :: rest.toList) ∧ ∀ j ∈ h.toList, i ≤ j := by
  obtain ⟨tree, hordered⟩ := h
  cases tree with
  | leaf => cases hpop
  | node left root right =>
    cases hpop
    refine ⟨(HeapTree.perm_merge left right).symm.cons _, fun j hj => ?_⟩
    rcases List.mem_cons.1 hj with rfl | hj
    · exact Nat.le_refl j
    · exact hordered.1 j hj

end Heap

end ClassSketch
