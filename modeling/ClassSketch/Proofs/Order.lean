import Mathlib.Data.List.Nodup
import ClassSketch.Proofs.Greedy

/-!
# Placing by degrees is greedy

`Diagram.orderWith` counts the supertypes that each position waits for and keeps
those that wait for none in a heap. Here it is shown to give the greedy order, for
every library of graphs whose in-edges and successors are those of the given edges
(`GraphLibrary.Faithful`).

The edges are found once each, since the pairs that were seen are kept
(`mem_subtypeEdges`, `nodup_subtypeEdges`). While positions are placed, the degree of a
position is the number of its supertypes that are left, and the heap holds exactly the
positions that are left and wait for none (`Placing.Tracks`). So the least number of
the heap is the first position that waits for nothing, and each round of the loop is
one step of `Waiting.settle` (`Placing.run_eq_settle`). Each position is placed once, so the
ordered entities are the given ones in another order (`perm_order`), cycles or not.
-/

namespace ClassSketch

/-! ## Edges -/

namespace Diagram

/-- A name that has a position keeps it. -/
theorem lookup_notePosition (index : List (String × Nat)) (e : Entity) (k : Nat) (name : String) :
    (notePosition index (e, k)).lookup name =
      (index.lookup name).or (if e.name == name then some k else none) := by
  unfold notePosition
  by_cases hname : e.name = name
  · subst hname
    cases hlookup : index.lookup e.name with
    | none => simp [hlookup, List.lookup_append]
    | some j => simp [hlookup]
  · have hne : (name == e.name) = false := by simpa using Ne.symm hname
    split <;> simp [List.lookup_append, List.lookup_cons, hname, hne]

/-- The index holds the first position of every name. -/
theorem lookup_positions (es : List Entity) (name : String) :
    (positions es).lookup name = es.findIdx? (·.name == name) := by
  have hfold : ∀ (k : Nat) (index : List (String × Nat)),
      ((es.zipIdx k).foldl notePosition index).lookup name =
        (index.lookup name).or ((es.findIdx? (·.name == name)).map (· + k)) := by
    induction es with
    | nil => simp
    | cons e es ih =>
      intro k index
      rw [List.zipIdx_cons, List.foldl_cons, ih, lookup_notePosition, List.findIdx?_cons, Option.or_assoc]
      congr 1
      split
      · simp
      · rw [Option.none_or, Option.map_map]
        congr 1
        funext i
        simp only [Function.comp_apply]
        omega
  simpa [positions] using hfold 0 []

/-- The relationship joins the positions of an edge. -/
structure Joins (index : List (String × Nat)) (r : Relationship) (x : SubtypeEdge) : Prop where
  subtyping : isSubtyping r = true
  child : index.lookup r.source = some x.child
  parent : index.lookup r.target = some x.parent
  ne : x.child ≠ x.parent

namespace EdgeScan

/-- The pairs that were seen are those of the edges, and no edge was found twice. -/
structure Consistent (scan : EdgeScan) : Prop where
  seen : scan.seen = scan.edges.map fun x => (x.parent, x.child)
  nodup : scan.edges.Nodup

variable {index : List (String × Nat)} {scan : EdgeScan} {r : Relationship}

/-- The set of pairs seen so far knows the edges. -/
theorem Consistent.contains_seen (h : scan.Consistent) {child parent : Nat} :
    scan.seen.contains (parent, child) = true ↔ { child, parent } ∈ scan.edges := by
  rw [List.contains_iff_mem, h.seen, List.mem_map]
  constructor
  · rintro ⟨x, hx, heq⟩
    cases heq
    exact hx
  · exact fun hx => ⟨_, hx, rfl⟩

/-- What a relationship adds : nothing, or an edge that was not there. -/
theorem add_cases (h : scan.Consistent) (index : List (String × Nat)) (r : Relationship) :
    (scan.add index r = scan ∧ ∀ x, Joins index r x → x ∈ scan.edges) ∨
      ∃ x, Joins index r x ∧ x ∉ scan.edges ∧
        scan.add index r =
          { edges := scan.edges ++ [x], seen := scan.seen ++ [(x.parent, x.child)] } := by
  unfold add
  split
  · next hkind =>
    exact .inl ⟨rfl, fun x hx => by simp [hx.subtyping] at hkind⟩
  · next hkind =>
    split
    · next child parent hchild hparent =>
      have hunique : ∀ x, Joins index r x → x = { child, parent } := by
        rintro ⟨c, p⟩ ⟨-, hc, hp, -⟩
        cases hchild.symm.trans hc
        cases hparent.symm.trans hp
        rfl
      split
      · next hsame =>
        refine .inl ⟨rfl, fun x hx => absurd ?_ hx.ne⟩
        rw [hunique x hx]
        exact hsame
      · next hne =>
        split
        · next hseen => exact .inl ⟨rfl, fun x hx => hunique x hx ▸ h.contains_seen.1 hseen⟩
        · next hseen =>
          exact .inr ⟨_, ⟨by simpa using hkind, hchild, hparent, hne⟩,
            fun hx => hseen (h.contains_seen.2 hx), rfl⟩
    · next hnone => exact .inl ⟨rfl, fun x hx => absurd hx.parent (hnone _ _ hx.child)⟩

/-- Adding a relationship keeps the edges, the pairs and the parents in step. -/
theorem Consistent.add (h : scan.Consistent) : (scan.add index r).Consistent := by
  rcases add_cases h index r with ⟨heq, -⟩ | ⟨x, -, hx, heq⟩
  · rwa [heq]
  · rw [heq]
    refine ⟨by simp [h.seen], ?_⟩
    exact h.nodup.append (List.nodup_singleton x) (by simpa using hx)

/-- A relationship adds the edge that joins its two ends, if there is one. -/
theorem mem_add (h : scan.Consistent) {x : SubtypeEdge} :
    x ∈ (scan.add index r).edges ↔ x ∈ scan.edges ∨ Joins index r x := by
  rcases add_cases h index r with ⟨heq, hknown⟩ | ⟨y, hy, -, heq⟩
  · rw [heq]
    exact ⟨.inl, fun hx => hx.elim id (hknown x)⟩
  · rw [heq, List.mem_append, List.mem_singleton]
    refine or_congr_right ⟨fun hx => hx ▸ hy, fun hx => ?_⟩
    obtain ⟨c, p⟩ := x
    obtain ⟨c', p'⟩ := y
    cases hx.child.symm.trans hy.child
    cases hx.parent.symm.trans hy.parent
    rfl

/-- A run over relationships keeps what was found and adds what they join. -/
theorem Consistent.foldl (h : scan.Consistent) (rs : List Relationship) :
    (rs.foldl (EdgeScan.add index) scan).Consistent ∧
      ∀ x, x ∈ (rs.foldl (EdgeScan.add index) scan).edges ↔
        x ∈ scan.edges ∨ ∃ r ∈ rs, Joins index r x := by
  induction rs generalizing scan with
  | nil => simp [h]
  | cons r rs ih =>
    obtain ⟨hconsistent, hmem⟩ := ih (h.add (r := r))
    refine ⟨hconsistent, fun x => ?_⟩
    rw [List.foldl_cons, hmem, mem_add h, or_assoc, List.exists_mem_cons_iff]

end EdgeScan

variable {d : Diagram} {es : List Entity}

theorem consistent_empty : EdgeScan.Consistent {} :=
  ⟨rfl, List.nodup_nil⟩

/-- There is an edge between two positions exactly if a relationship of subtyping leads from
the name of the one to the name of the other. -/
theorem mem_subtypeEdges {x : SubtypeEdge} :
    x ∈ d.subtypeEdges es ↔ x.child ≠ x.parent ∧ ∃ r ∈ d.relationships, isSubtyping r = true ∧
      es.findIdx? (·.name == r.source) = some x.child ∧
      es.findIdx? (·.name == r.target) = some x.parent := by
  unfold subtypeEdges
  rw [(consistent_empty.foldl d.relationships).2]
  constructor
  · rintro (hx | ⟨r, hr, hkind, hchild, hparent, hne⟩)
    · cases hx
    · rw [lookup_positions] at hchild hparent
      exact ⟨hne, r, hr, hkind, hchild, hparent⟩
  · rintro ⟨hne, r, hr, hkind, hchild, hparent⟩
    rw [← lookup_positions] at hchild hparent
    exact .inr ⟨r, hr, hkind, hchild, hparent, hne⟩

/-- No edge is found twice. -/
theorem nodup_subtypeEdges : (d.subtypeEdges es).Nodup :=
  (consistent_empty.foldl d.relationships).1.nodup

end Diagram

/-! ## Graphs -/

/-- Edges between vertices below `n`, each once and none from a vertex to itself. -/
structure SimpleEdges (n : Nat) (edges : List SubtypeEdge) : Prop where
  nodup : edges.Nodup
  ne : ∀ x ∈ edges, x.child ≠ x.parent
  child_lt : ∀ x ∈ edges, x.child < n
  parent_lt : ∀ x ∈ edges, x.parent < n

/-- The in-edges and the successors of a vertex are those of the edges that were given, in
any order. -/
structure GraphLibrary.Faithful (graphs : GraphLibrary) : Prop where
  inEdges : ∀ {n edges}, SimpleEdges n edges → ∀ i < n,
    (graphs.inEdges (graphs.ofEdges (List.range n) edges) i).Perm (edges.filter (·.child == i))
  successors : ∀ {n edges}, SimpleEdges n edges → ∀ i < n,
    (graphs.successors (graphs.ofEdges (List.range n) edges) i).Perm
      ((edges.filter (·.parent == i)).map (·.child))

/-- The library that keeps the edges in a list is faithful. -/
theorem GraphLibrary.faithful_edgeList : edgeList.Faithful :=
  ⟨fun _ _ _ => .refl _, fun _ _ _ => .refl _⟩

/-- The edges of a diagram are without repetition and without loops. -/
theorem Diagram.simple_subtypeEdges {d : Diagram} {es : List Entity} :
    SimpleEdges es.length (d.subtypeEdges es) where
  nodup := nodup_subtypeEdges
  ne x hx := (mem_subtypeEdges.1 hx).1
  child_lt x hx := by
    obtain ⟨-, r, -, -, hchild, -⟩ := mem_subtypeEdges.1 hx
    exact (List.findIdx?_eq_some_iff_getElem.1 hchild).1
  parent_lt x hx := by
    obtain ⟨-, r, -, -, -, hparent⟩ := mem_subtypeEdges.1 hx
    exact (List.findIdx?_eq_some_iff_getElem.1 hparent).1

/-! ## The parents that are left -/

section Left

variable {n : Nat} {edges : List SubtypeEdge} {left : List Nat}

/-- The parents of a position that are among `left`. -/
def parentsAmong (edges : List SubtypeEdge) (left : List Nat) (i : Nat) : List Nat :=
  ((edges.filter (·.child == i)).map (·.parent)).filter left.contains

/-- The positions of `left`, each waiting for its parents among them. -/
def Waiting.among (edges : List SubtypeEdge) (left : List Nat) : List Waiting :=
  left.map fun i => { position := i, parents := parentsAmong edges left i }

theorem mem_parentsAmong {i p : Nat} :
    p ∈ parentsAmong edges left i ↔ { child := i, parent := p } ∈ edges ∧ p ∈ left := by
  unfold parentsAmong
  rw [List.mem_filter, List.mem_map, List.contains_iff_mem]
  refine and_congr_left fun _ => ⟨?_, fun h => ⟨_, List.mem_filter.2 ⟨h, by simp⟩, rfl⟩⟩
  rintro ⟨x, hx, rfl⟩
  obtain ⟨hmem, hchild⟩ := List.mem_filter.1 hx
  rw [beq_iff_eq] at hchild
  exact hchild ▸ hmem

theorem nodup_parentsAmong (hedges : edges.Nodup) (i : Nat) : (parentsAmong edges left i).Nodup := by
  refine (List.Nodup.map_on (fun x hx y hy hxy => ?_) (hedges.filter _)).filter _
  have hchild := (List.mem_filter.1 hx).2
  have hchild' := (List.mem_filter.1 hy).2
  rw [beq_iff_eq] at hchild hchild'
  obtain ⟨c, p⟩ := x
  obtain ⟨c', p'⟩ := y
  cases hxy
  cases hchild.trans hchild'.symm
  rfl

/-- A position that leaves is no parent any more. -/
theorem parentsAmong_filter (i c : Nat) :
    parentsAmong edges (left.filter (· != i)) c = (parentsAmong edges left c).filter (· != i) := by
  unfold parentsAmong
  rw [List.filter_filter]
  refine List.filter_congr fun p _ => ?_
  rw [Bool.eq_iff_iff]
  simp [and_comm]

/-- Without one position, each of its children waits for one parent less. -/
theorem length_parentsAmong_filter (hedges : edges.Nodup) {i : Nat} (hi : i ∈ left) (c : Nat) :
    ((parentsAmong edges (left.filter (· != i)) c).length : Int) =
      if { child := c, parent := i } ∈ edges then ((parentsAmong edges left c).length : Int) - 1
      else (parentsAmong edges left c).length := by
  rw [parentsAmong_filter]
  split
  · next hedge =>
    have hmem := mem_parentsAmong.2 ⟨hedge, hi⟩
    have hpos := List.length_pos_of_mem hmem
    rw [← (nodup_parentsAmong hedges c).erase_eq_filter, List.length_erase_of_mem hmem]
    omega
  · next hedge =>
    rw [List.filter_eq_self.2 fun p hp => ?_]
    rw [bne_iff_ne]
    rintro rfl
    exact hedge (mem_parentsAmong.1 hp).1

/-- Without one position, what waits for nothing are its children that waited for no other parent,
and what waited for nothing before. -/
theorem parentsAmong_filter_eq_nil_iff (hedges : edges.Nodup) {i : Nat} (hi : i ∈ left) (c : Nat) :
    parentsAmong edges (left.filter (· != i)) c = [] ↔
      { child := c, parent := i } ∈ edges ∧ (parentsAmong edges left c).length = 1 ∨
        parentsAmong edges left c = [] := by
  have hlength := length_parentsAmong_filter hedges hi c
  rw [← List.length_eq_zero_iff, ← List.length_eq_zero_iff (l := parentsAmong edges left c)]
  split at hlength
  · next hedge =>
    have hpos := List.length_pos_of_mem (mem_parentsAmong.2 ⟨hedge, hi⟩)
    simp only [hedge, true_and]
    omega
  · next hedge =>
    simp only [hedge, false_and, false_or]
    omega

namespace Waiting

/-- Taking a position among those that are left. -/
theorem take_among (i : Nat) : take i (among edges left) = among edges (left.filter (· != i)) := by
  unfold take among
  rw [List.filter_map, List.map_map]
  refine List.map_congr_left fun c _ => ?_
  rw [parentsAmong_filter]
  rfl

theorem map_position_among : (among edges left).map position = left := by
  unfold among
  rw [List.map_map]
  exact List.map_id _

/-- At the start the greedy list has all positions, each with all its parents. -/
theorem ofEdges_eq_among (h : SimpleEdges n edges) : ofEdges n edges = among edges (List.range n) := by
  refine List.map_congr_left fun i _ => ?_
  congr 1
  refine (List.filter_eq_self.2 fun p hp => ?_).symm
  obtain ⟨x, hx, rfl⟩ := List.mem_map.1 hp
  simpa using h.parent_lt x (List.mem_filter.1 hx).1

/-- The first that waits for nothing is the least one, where positions increase. -/
theorem find?_among (hincreasing : left.Pairwise (· < ·)) {i : Nat} (hi : i ∈ left)
    (hempty : parentsAmong edges left i = [])
    (hleast : ∀ j ∈ left, parentsAmong edges left j = [] → i ≤ j) :
    (among edges left).find? (·.parents.isEmpty) = some { position := i, parents := [] } := by
  obtain ⟨before, after, hleft⟩ := List.append_of_mem hi
  unfold among
  rw [List.find?_map, Option.map_eq_some_iff]
  refine ⟨i, List.find?_eq_some_iff_append.2 ⟨by simp [hempty], before, after, hleft, ?_⟩,
    by rw [hempty]⟩
  intro j hj
  rw [hleft, List.pairwise_append] at hincreasing
  have hlt : j < i := hincreasing.2.2 j hj i List.mem_cons_self
  have hmem : j ∈ left := hleft ▸ List.mem_append_left _ hj
  have hne : parentsAmong edges left j ≠ [] := fun h =>
    absurd (hleast j hmem h) (Nat.not_le.2 hlt)
  simpa using hne

end Waiting

end Left

/-! ## The loop -/

namespace Placing

/-! ### Releases -/

/-- Releasing a position lowers its degree and no other. -/
theorem getElem?_release (s : Placing) (i c : Nat) :
    (s.release i).degrees[c]? = s.degrees[c]?.map fun degree =>
      if c = i then degree - 1 else degree := by
  unfold release
  by_cases hc : c = i
  · subst hc
    cases hdegree : s.degrees[c]? with
    | none => simp [hdegree]
    | some degree =>
      have hlt := (List.getElem?_eq_some_iff.1 hdegree).1
      simp [hlt]
  · cases s.degrees[i]? with
    | none => simp [hc]
    | some degree => simp [hc, List.getElem?_set_ne (Ne.symm hc)]

/-- A position gets ready when the last degree is taken from it. -/
theorem perm_release (s : Placing) (i : Nat) :
    (s.release i).ready.toList.Perm
      ((if s.degrees[i]? = some 1 then [i] else []) ++ s.ready.toList) := by
  unfold release
  cases hdegree : s.degrees[i]? with
  | none => simp
  | some degree =>
    by_cases hone : degree = 1
    · simpa [hone] using s.ready.perm_push i
    · simp [hone, show degree - 1 ≠ 0 by omega]

variable {is : List Nat}

/-- Releasing several positions lowers the degree of each by one. -/
theorem getElem?_foldl_release (hnodup : is.Nodup) (s : Placing) (c : Nat) :
    (is.foldl release s).degrees[c]? = s.degrees[c]?.map fun degree =>
      if c ∈ is then degree - 1 else degree := by
  induction is generalizing s with
  | nil => simp
  | cons i is ih =>
    obtain ⟨hi, hrest⟩ := List.nodup_cons.1 hnodup
    rw [List.foldl_cons, ih hrest, getElem?_release, Option.map_map]
    congr 1
    funext degree
    by_cases hc : c = i
    · subst hc
      simp [hi]
    · simp [hc]

/-- Of the released positions, those with one parent left become ready. -/
theorem perm_foldl_release (hnodup : is.Nodup) (s : Placing) :
    (is.foldl release s).ready.toList.Perm
      (is.filter (fun i => s.degrees[i]? = some 1) ++ s.ready.toList) := by
  induction is generalizing s with
  | nil => simp
  | cons i is ih =>
    obtain ⟨hi, hrest⟩ := List.nodup_cons.1 hnodup
    have hsame : is.filter (fun c => (s.release i).degrees[c]? = some 1) =
        is.filter (fun c => s.degrees[c]? = some 1) := by
      refine List.filter_congr fun c hc => ?_
      have hne : c ≠ i := fun h => hi (h ▸ hc)
      simp [getElem?_release, hne]
    rw [List.foldl_cons]
    refine (ih hrest _).trans ?_
    rw [hsame, List.filter_cons]
    refine ((perm_release s i).append_left _).trans ?_
    by_cases hone : s.degrees[i]? = some 1
    · rw [if_pos hone, if_pos (decide_eq_true hone)]
      exact List.perm_middle
    · rw [if_neg hone, if_neg (by simpa using hone)]
      exact .refl _

/-! ### The invariant -/

/-- What holds between two rounds, when the positions of `left` are not placed : the degree
of a position is the number of its parents that are left, and the heap holds exactly the
positions that are left and have no parent left. -/
structure Tracks (n : Nat) (edges : List SubtypeEdge) (left : List Nat) (s : Placing) : Prop where
  increasing : left.Pairwise (· < ·)
  lt : ∀ i ∈ left, i < n
  closed : ∀ x ∈ edges, x.parent ∈ left → x.child ∈ left
  degree : ∀ c < n, s.degrees[c]? = some ((parentsAmong edges left c).length : Int)
  nodup : s.ready.toList.Nodup
  mem_ready : ∀ c, c ∈ s.ready.toList ↔ c ∈ left ∧ parentsAmong edges left c = []

variable {n : Nat} {edges : List SubtypeEdge} {left : List Nat} {s : Placing}

/-- The successors of a position, each once. -/
theorem successors_spec (hedges : SimpleEdges n edges) {i : Nat} {succs : List Nat}
    (hsuccs : succs.Perm ((edges.filter (·.parent == i)).map (·.child))) :
    succs.Nodup ∧ ∀ c, c ∈ succs ↔ { child := c, parent := i } ∈ edges := by
  constructor
  · refine hsuccs.nodup_iff.2 (List.Nodup.map_on (fun x hx y hy hxy => ?_) (hedges.nodup.filter _))
    have hparent := (List.mem_filter.1 hx).2
    have hparent' := (List.mem_filter.1 hy).2
    rw [beq_iff_eq] at hparent hparent'
    obtain ⟨c, p⟩ := x
    obtain ⟨c', p'⟩ := y
    cases hxy
    cases hparent.trans hparent'.symm
    rfl
  · intro c
    rw [hsuccs.mem_iff, List.mem_map]
    refine ⟨?_, fun h => ⟨_, List.mem_filter.2 ⟨h, by simp⟩, rfl⟩⟩
    rintro ⟨x, hx, rfl⟩
    obtain ⟨hmem, hparent⟩ := List.mem_filter.1 hx
    rw [beq_iff_eq] at hparent
    exact hparent ▸ hmem

/-- One round : the least position of the heap is placed and its children are released. -/
theorem Tracks.round (hedges : SimpleEdges n edges) (h : Tracks n edges left s) {i : Nat}
    {ready : Heap} (hpop : s.ready.pop? = some (i, ready)) {succs : List Nat}
    (hsuccs : succs.Perm ((edges.filter (·.parent == i)).map (·.child))) :
    Tracks n edges (left.filter (· != i)) (succs.foldl release { s with ready }) := by
  obtain ⟨hperm, -⟩ := Heap.of_pop? hpop
  obtain ⟨hnodup, hmem⟩ := successors_spec hedges hsuccs
  have hrest := List.nodup_cons.1 (hperm.nodup_iff.1 h.nodup)
  obtain ⟨hi, hfree⟩ := (h.mem_ready i).1 (hperm.mem_iff.2 List.mem_cons_self)
  have hready : ∀ c, c ∈ ready.toList ↔ c ≠ i ∧ c ∈ left ∧ parentsAmong edges left c = [] := by
    intro c
    rw [← h.mem_ready, hperm.mem_iff, List.mem_cons]
    refine ⟨fun hc => ⟨fun heq => hrest.1 (heq ▸ hc), .inr hc⟩, fun hc => hc.2.resolve_left hc.1⟩
  -- A child of `i` gets ready exactly if `i` was the last parent that it waited for.
  have hlast : ∀ c, c ∈ succs.filter (fun c => s.degrees[c]? = some 1) ↔
      { child := c, parent := i } ∈ edges ∧ (parentsAmong edges left c).length = 1 := by
    intro c
    rw [List.mem_filter, hmem, decide_eq_true_eq]
    refine and_congr_right fun hedge => ?_
    rw [h.degree c (hedges.child_lt _ hedge), Option.some_inj]
    omega
  have hreleased := perm_foldl_release hnodup { s with ready }
  refine ⟨h.increasing.filter _, fun c hc => h.lt c (List.mem_of_mem_filter hc), ?_, ?_, ?_, ?_⟩
  · intro x hx hparent
    obtain ⟨hleft, -⟩ := List.mem_filter.1 hparent
    refine List.mem_filter.2 ⟨h.closed x hx hleft, bne_iff_ne.2 fun heq => ?_⟩
    have hwaits : x.parent ∈ parentsAmong edges left i := mem_parentsAmong.2 ⟨heq ▸ hx, hleft⟩
    rw [hfree] at hwaits
    cases hwaits
  · intro c hc
    rw [getElem?_foldl_release hnodup, h.degree c hc, Option.map_some,
      length_parentsAmong_filter hedges.nodup hi]
    simp only [hmem]
  · refine hreleased.nodup_iff.2 ((hnodup.filter _).append hrest.2 fun c hc hc' => ?_)
    have hone := ((hlast c).1 hc).2
    rw [((hready c).1 hc').2.2] at hone
    cases hone
  · intro c
    rw [hreleased.mem_iff, List.mem_append, hlast, hready, List.mem_filter, bne_iff_ne,
      parentsAmong_filter_eq_nil_iff hedges.nodup hi]
    constructor
    · rintro (⟨hedge, hone⟩ | ⟨hne, hleft, hnil⟩)
      · exact ⟨⟨h.closed _ hedge hi, hedges.ne _ hedge⟩, .inl ⟨hedge, hone⟩⟩
      · exact ⟨⟨hleft, hne⟩, .inr hnil⟩
    · rintro ⟨⟨hleft, hne⟩, hchild | hnil⟩
      · exact .inl hchild
      · exact .inr ⟨hne, hleft, hnil⟩

/-- From a state that tracks the positions that are left, the loop takes them as `settle` does. -/
theorem run_eq_settle {successors : Nat → List Nat} (hedges : SimpleEdges n edges)
    (hsuccs : ∀ i < n, (successors i).Perm ((edges.filter (·.parent == i)).map (·.child)))
    (h : Tracks n edges left s) :
    run successors s = (Waiting.settle (Waiting.among edges left)).1 ∧
      left.filter (!(run successors s).contains ·) = (Waiting.settle (Waiting.among edges left)).2 := by
  fun_induction run successors s generalizing left with
  | case1 s hnone =>
    have hempty := Heap.pop?_eq_none_iff.1 hnone
    have hwaits : (Waiting.among edges left).find? (·.parents.isEmpty) = none := by
      refine List.find?_eq_none.2 fun w hw hfree => ?_
      obtain ⟨c, hc, rfl⟩ := List.mem_map.1 hw
      have hmem := (h.mem_ready c).2 ⟨hc, List.isEmpty_iff.1 hfree⟩
      rw [hempty] at hmem
      cases hmem
    rw [Waiting.settle_of_none hwaits, Waiting.map_position_among]
    exact ⟨rfl, List.filter_eq_self.2 fun i _ => by simp⟩
  | case2 s i ready hpop ih =>
    obtain ⟨hperm, hleast⟩ := Heap.of_pop? hpop
    obtain ⟨hi, hfree⟩ := (h.mem_ready i).1 (hperm.mem_iff.2 List.mem_cons_self)
    have hfind := Waiting.find?_among h.increasing hi hfree fun j hj hjfree =>
      hleast j ((h.mem_ready j).2 ⟨hj, hjfree⟩)
    obtain ⟨hrun, hleft⟩ := ih (h.round hedges hpop (hsuccs i (h.lt i hi)))
    rw [Waiting.settle_of_some hfind, Waiting.take_among, ← hrun, ← hleft, List.filter_filter]
    refine ⟨rfl, List.filter_congr fun c _ => ?_⟩
    rw [Bool.eq_iff_iff]
    simp [and_comm]

/-- At the start every position is left. -/
theorem tracks_ofDegrees (hedges : SimpleEdges n edges) {degrees : List Int}
    (hdegrees : degrees =
      (List.range n).map fun i => ((edges.filter (·.child == i)).length : Int)) :
    Tracks n edges (List.range n) (ofDegrees degrees) := by
  have hparents : ∀ c, (parentsAmong edges (List.range n) c).length =
      (edges.filter (·.child == c)).length := by
    intro c
    rw [parentsAmong, List.filter_eq_self.2 fun p hp => ?_, List.length_map]
    obtain ⟨x, hx, rfl⟩ := List.mem_map.1 hp
    simpa using hedges.parent_lt x (List.mem_filter.1 hx).1
  have hdegree : ∀ c < n, degrees[c]? = some ((parentsAmong edges (List.range n) c).length : Int) := by
    intro c hc
    rw [hdegrees, List.getElem?_map, List.getElem?_range hc, Option.map_some, hparents]
  have hlength : degrees.length = n := by rw [hdegrees, List.length_map, List.length_range]
  have hready := Heap.perm_ofList ((List.range degrees.length).filter (degrees[·]? == some 0))
  refine ⟨List.pairwise_lt_range, fun i hi => List.mem_range.1 hi, fun x hx _ => ?_, hdegree, ?_, ?_⟩
  · exact List.mem_range.2 (hedges.child_lt x hx)
  · exact hready.nodup_iff.2 (List.nodup_range.filter _)
  · intro c
    show c ∈ (Heap.ofList _).toList ↔ _
    rw [hready.mem_iff, List.mem_filter, hlength]
    refine and_congr_right fun hc => ?_
    rw [hdegree c (List.mem_range.1 hc), beq_iff_eq, Option.some_inj, Int.natCast_eq_zero,
      List.length_eq_zero_iff]

end Placing

/-- With a faithful library the placed positions are those that the greedy order takes, and
the others are left over. -/
theorem GraphLibrary.place_eq_settle {graphs : GraphLibrary} (hgraphs : graphs.Faithful) {n : Nat}
    {edges : List SubtypeEdge} (hedges : SimpleEdges n edges) :
    graphs.place n edges = (Waiting.settle (Waiting.ofEdges n edges)).1 ∧
      (List.range n).filter (!(graphs.place n edges).contains ·) =
        (Waiting.settle (Waiting.ofEdges n edges)).2 := by
  rw [Waiting.ofEdges_eq_among hedges]
  refine Placing.run_eq_settle hedges (hgraphs.successors hedges)
    (Placing.tracks_ofDegrees hedges (List.map_congr_left fun i hi => ?_))
  rw [(hgraphs.inEdges hedges i (List.mem_range.1 hi)).length_eq]

/-! ## The order -/

namespace Diagram

variable {graphs : GraphLibrary}

/-- Fewer than two entities are in order as they are. -/
theorem greedyOrder_of_short {d : Diagram} {es : List Entity} (hes : es.length < 2) :
    d.greedyOrder es = { entities := es, cyclic := [] } := by
  have hsimple : SimpleEdges es.length (d.subtypeEdges es) := simple_subtypeEdges
  have hedges : d.subtypeEdges es = [] := by
    refine List.eq_nil_iff_forall_not_mem.2 fun x hx => hsimple.ne x hx ?_
    have hchild := hsimple.child_lt x hx
    have hparent := hsimple.parent_lt x hx
    omega
  unfold greedyOrder
  rw [hedges]
  match es with
  | [] =>
    have hsettle : Waiting.settle (Waiting.ofEdges 0 []) = ([], []) := by decide +kernel
    rw [List.length_nil, hsettle]
    rfl
  | [e] =>
    have hsettle : Waiting.settle (Waiting.ofEdges 1 []) = ([0], []) := by decide +kernel
    rw [List.length_singleton, hsettle]
    rfl

/-- With every faithful library the order is the greedy one. -/
theorem orderWith_eq_greedyOrder (hgraphs : graphs.Faithful) (d : Diagram) (es : List Entity) :
    d.orderWith graphs es = d.greedyOrder es := by
  have hedges : SimpleEdges es.length (d.subtypeEdges es) := simple_subtypeEdges
  obtain ⟨hplaced, hleft⟩ := GraphLibrary.place_eq_settle hgraphs hedges
  have hlength := (Waiting.perm_settle_ofEdges es.length (d.subtypeEdges es)).length_eq
  rw [List.length_append, List.length_range, ← hplaced] at hlength
  unfold orderWith
  split
  · next hes => exact (greedyOrder_of_short hes).symm
  · simp only [hleft, greedyOrder, ← hplaced]
    split
    · rfl
    · rw [List.eq_nil_of_length_eq_zero
        (l := (Waiting.settle (Waiting.ofEdges es.length (d.subtypeEdges es))).2) (by omega)]

theorem filterMap_range_getElem? (es : List Entity) :
    (List.range es.length).filterMap (es[·]?) = es := by
  induction es with
  | nil => rfl
  | cons e es ih =>
    rw [List.length_cons, List.range_succ_eq_map, List.filterMap_cons, List.filterMap_map]
    simpa [Function.comp_def] using ih

/-- The order that is computed with degrees and a heap is the greedy one. -/
theorem order_eq_greedyOrder (d : Diagram) (es : List Entity) : d.order es = d.greedyOrder es :=
  orderWith_eq_greedyOrder GraphLibrary.faithful_edgeList d es

/-- The ordered entities are the given ones in another order. -/
theorem perm_order (d : Diagram) (es : List Entity) : (d.order es).entities.Perm es := by
  have hentities := (Waiting.perm_settle_ofEdges es.length (d.subtypeEdges es)).filterMap (es[·]?)
  rw [filterMap_range_getElem?] at hentities
  rw [order_eq_greedyOrder]
  exact hentities

end Diagram

end ClassSketch
