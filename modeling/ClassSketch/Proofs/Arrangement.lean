import Mathlib.Data.List.Sort
import Mathlib.Order.Bounds.Basic
import ClassSketch.Proofs.Supertypes

/-!
# The order is the greedy one

Positions have parents. A position is ready when it is not taken and all of its
parents are. The greedy arrangement takes the least ready position again and
again and puts what is never ready behind, in increasing order (`Arranged`). There
is at most one such arrangement (`Arranged.unique`).

`Waiting.settle` finds it, and with it the loop over degrees and the heap. While
positions are taken, the list it works on holds the positions that are left, each
with the parents that are left (`Waits`), and the first one without parents is the
least ready one. A position is left over exactly if a chain of parents leads from
it into a cycle : a taken position comes after its parents, so that no cycle is
among the taken ones, and where no cycle can be reached some position would still
be ready.

Uniqueness carries the rest. The order of entities depends only on which
relationships there are, and the order of an ordered list is the list itself, since
taking the positions one after the other is an arrangement of it.
-/

namespace ClassSketch

/-! ## Arrangements -/

section Arrangement

variable (parent : Nat → Nat → Prop) (n : Nat)

/-- A position below `n` that is not taken, while all of its parents are. -/
structure Ready (taken : List Nat) (i : Nat) : Prop where
  lt : i < n
  left : i ∉ taken
  parents : ∀ j, parent i j → j ∈ taken

/-- A chain of parents leads from `i` to a position on a cycle. -/
def RunsIntoCycle (i : Nat) : Prop :=
  ∃ j, Relation.ReflTransGen parent i j ∧ Relation.TransGen parent j j

/-- The greedy arrangement of the positions below `n`. -/
structure Arranged (sorted stuck : List Nat) : Prop where
  perm : (sorted ++ stuck).Perm (List.range n)
  mem_sorted : ∀ i < n, i ∈ sorted ↔ ¬RunsIntoCycle parent i
  least : ∀ taken i rest, sorted = taken ++ i :: rest → IsLeast {j | Ready parent n taken j} i
  increasing : stuck.Pairwise (· < ·)

variable {parent n} {sorted stuck sorted' stuck' : List Nat}

namespace Arranged

/-- No position is sorted twice. -/
theorem nodup (h : Arranged parent n sorted stuck) : sorted.Nodup :=
  (List.nodup_append.1 (h.perm.nodup_iff.2 List.nodup_range)).1

/-- There are no positions but those of the entities. -/
theorem lt_of_mem (h : Arranged parent n sorted stuck) {i : Nat} (hi : i ∈ sorted ++ stuck) :
    i < n :=
  List.mem_range.1 (h.perm.mem_iff.1 hi)

theorem length_eq (h : Arranged parent n sorted stuck) : sorted.length + stuck.length = n := by
  rw [← List.length_append, h.perm.length_eq, List.length_range]

/-- Which positions are sorted depends on cycles only, and not on the arrangement. -/
theorem perm_sorted (h : Arranged parent n sorted stuck) (h' : Arranged parent n sorted' stuck') :
    sorted.Perm sorted' := by
  refine (List.perm_ext_iff_of_nodup h.nodup h'.nodup).2 fun i => ⟨fun hi => ?_, fun hi => ?_⟩
  · have hlt := h.lt_of_mem (List.mem_append_left _ hi)
    exact (h'.mem_sorted i hlt).2 ((h.mem_sorted i hlt).1 hi)
  · have hlt := h'.lt_of_mem (List.mem_append_left _ hi)
    exact (h.mem_sorted i hlt).2 ((h'.mem_sorted i hlt).1 hi)

/-- The least ready position is taken each time, so that two arrangements that agree up to some
point go on alike. -/
theorem eq_of_append (h : Arranged parent n sorted stuck) (h' : Arranged parent n sorted' stuck')
    {taken rest rest' : List Nat} (hsorted : sorted = taken ++ rest)
    (hsorted' : sorted' = taken ++ rest') (hlength : rest.length = rest'.length) :
    rest = rest' := by
  induction rest generalizing taken rest' with
  | nil => exact (List.eq_nil_of_length_eq_zero hlength.symm).symm
  | cons i rest ih =>
    cases rest' with
    | nil => cases hlength
    | cons i' rest' =>
      obtain rfl : i = i' := (h.least _ _ _ hsorted).unique (h'.least _ _ _ hsorted')
      have hrest := ih (hsorted.trans (List.append_cons taken i rest))
        (hsorted'.trans (List.append_cons taken i rest')) (Nat.succ.inj hlength)
      rw [hrest]

/-- There is one arrangement only. -/
theorem unique (h : Arranged parent n sorted stuck) (h' : Arranged parent n sorted' stuck') :
    sorted = sorted' ∧ stuck = stuck' := by
  have hsorted : sorted = sorted' :=
    eq_of_append h h' (List.nil_append _).symm (List.nil_append _).symm (h.perm_sorted h').length_eq
  subst hsorted
  have hperm : stuck.Perm stuck' :=
    (List.perm_append_left_iff sorted).1 (h.perm.trans h'.perm.symm)
  refine ⟨rfl, hperm.eq_of_pairwise (fun a b _ _ hab hba => ?_) h.increasing h'.increasing⟩
  exact absurd (Nat.lt_trans hab hba) (Nat.lt_irrefl a)

end Arranged

/-! ## Cycles -/

/-- Where each position comes after its parents, no position runs into a cycle. -/
theorem not_runsIntoCycle
    (hparents : ∀ taken i rest, sorted = taken ++ i :: rest → ∀ j, parent i j → j ∈ taken)
    {i : Nat} (hi : i ∈ sorted) : ¬RunsIntoCycle parent i := by
  have hstep : ∀ a b, a ∈ sorted → parent a b → b ∈ sorted ∧ sorted.idxOf b < sorted.idxOf a := by
    intro a b ha hab
    obtain ⟨taken, rest, heq, hfirst⟩ := List.eq_append_cons_of_mem ha
    have hb : b ∈ taken := hparents _ _ _ heq b hab
    have hidx : sorted.idxOf a = taken.length := by
      rw [heq, List.idxOf_append_of_notMem hfirst, List.idxOf_cons_self, Nat.add_zero]
    rw [hidx, heq, List.idxOf_append_of_mem hb]
    exact ⟨List.mem_append_left _ hb, List.idxOf_lt_length_of_mem hb⟩
  rintro ⟨j, hij, hcycle⟩
  have hj : j ∈ sorted := by
    clear hcycle
    induction hij with
    | refl => exact hi
    | tail _ hab ih => exact (hstep _ _ ih hab).1
  have hdown : ∀ b, Relation.TransGen parent j b →
      b ∈ sorted ∧ sorted.idxOf b < sorted.idxOf j := by
    intro b hjb
    induction hjb with
    | single hab => exact hstep _ _ hj hab
    | tail _ hab ih =>
      obtain ⟨hmem, hlt⟩ := hstep _ _ ih.1 hab
      exact ⟨hmem, Nat.lt_trans hlt ih.2⟩
  exact Nat.lt_irrefl _ (hdown j hcycle).2

/-- When no position is ready any more, those that are left run into a cycle. -/
theorem runsIntoCycle_of_not_ready (hparent : ∀ i j, parent i j → j < n)
    (hnone : ∀ i, ¬Ready parent n sorted i) {i : Nat} (hlt : i < n) (hi : i ∉ sorted) :
    RunsIntoCycle parent i := by
  by_contra hfree
  -- Among the positions above `i` that are left, one has no other above it.
  let above (a b : Nat) : Prop := Relation.ReflTransGen parent i b ∧ Relation.TransGen parent b a
  have : IsStrictOrder Nat above :=
    { irrefl := fun a h => hfree ⟨a, h.1, h.2⟩
      trans := fun a b c hab hbc => ⟨hbc.1, hbc.2.trans hab.2⟩ }
  have hwf := (Set.finite_lt_nat n).wellFoundedOn (r := above)
  obtain ⟨m, ⟨hmlt, hm, hreached⟩, hmin⟩ := (Set.wellFoundedOn_iff.1 hwf).has_min
    {j | j < n ∧ j ∉ sorted ∧ Relation.ReflTransGen parent i j} ⟨i, hlt, hi, .refl⟩
  refine hnone m ⟨hmlt, hm, fun j hj => ?_⟩
  by_contra hleft
  have hjlt := hparent m j hj
  exact hmin j ⟨hjlt, hleft, hreached.tail hj⟩ ⟨⟨hreached, .single hj⟩, hjlt, hmlt⟩

/-- Where no position is ready at the end, the taken ones are those that do not run into a
cycle. -/
theorem Arranged.of_least (hparent : ∀ i j, parent i j → j < n)
    (hperm : (sorted ++ stuck).Perm (List.range n))
    (hleast : ∀ taken i rest, sorted = taken ++ i :: rest →
      IsLeast {j | Ready parent n taken j} i)
    (hnone : ∀ i, ¬Ready parent n sorted i) (hincreasing : stuck.Pairwise (· < ·)) :
    Arranged parent n sorted stuck := by
  refine ⟨hperm, fun i hi => ⟨fun hmem => ?_, fun hfree => ?_⟩, hleast, hincreasing⟩
  · exact not_runsIntoCycle (fun taken i rest heq => (hleast taken i rest heq).1.parents) hmem
  · by_contra hnot
    exact hfree (runsIntoCycle_of_not_ready hparent hnone hi hnot)

/-- A chain into a cycle goes through a parent. -/
theorem RunsIntoCycle.exists_parent {i : Nat} (h : RunsIntoCycle parent i) :
    ∃ j, parent i j ∧ RunsIntoCycle parent j := by
  obtain ⟨j, hij, hcycle⟩ := h
  rcases hij.cases_head with rfl | ⟨k, hik, hkj⟩
  · obtain ⟨k, hik, hki⟩ := Relation.TransGen.head'_iff.1 hcycle
    exact ⟨k, hik, i, hki, hcycle⟩
  · exact ⟨k, hik, j, hkj, hcycle⟩

/-- Nothing that is left in the end is ready. -/
theorem Arranged.not_ready (h : Arranged parent n sorted stuck) (i : Nat) :
    ¬Ready parent n sorted i := by
  rintro ⟨hlt, hleft, hparents⟩
  have hcycle : RunsIntoCycle parent i := by
    by_contra hfree
    exact hleft ((h.mem_sorted i hlt).2 hfree)
  obtain ⟨j, hij, hj⟩ := hcycle.exists_parent
  have hmem := hparents j hij
  exact (h.mem_sorted j (h.lt_of_mem (List.mem_append_left _ hmem))).1 hmem hj

/-! ## Settling -/

namespace Waiting

variable (parent n) in
/-- What `settle` works on when `taken` is taken : the positions that are left, each with the
parents that are left. -/
structure Waits (taken : List Nat) (left : List Waiting) : Prop where
  positions : left.map position = (List.range n).filter (· ∉ taken)
  parents : ∀ w ∈ left, ∀ j, j ∈ w.parents ↔ parent w.position j ∧ j ∉ taken

variable {taken : List Nat} {left : List Waiting}

namespace Waits

/-- What waits are the positions that were not taken. -/
theorem mem_positions (h : Waits parent n taken left) {i : Nat} :
    i ∈ left.map position ↔ i < n ∧ i ∉ taken := by
  rw [h.positions, List.mem_filter, List.mem_range, decide_eq_true_eq]

/-- A position is ready exactly if it waits for nothing. -/
theorem ready_iff (h : Waits parent n taken left) {i : Nat} :
    Ready parent n taken i ↔ ∃ w ∈ left, w.parents = [] ∧ w.position = i := by
  constructor
  · rintro ⟨hlt, hleft, hparents⟩
    obtain ⟨w, hw, rfl⟩ := List.mem_map.1 (h.mem_positions.2 ⟨hlt, hleft⟩)
    refine ⟨w, hw, List.eq_nil_iff_forall_not_mem.2 fun j hj => ?_, rfl⟩
    obtain ⟨hparent, hnot⟩ := (h.parents w hw j).1 hj
    exact hnot (hparents j hparent)
  · rintro ⟨w, hw, hempty, rfl⟩
    obtain ⟨hlt, hleft⟩ := h.mem_positions.1 (List.mem_map_of_mem hw)
    refine ⟨hlt, hleft, fun j hj => ?_⟩
    by_contra hnot
    have hmem := (h.parents w hw j).2 ⟨hj, hnot⟩
    rw [hempty] at hmem
    cases hmem

/-- If everything that waits has a parent to wait for, nothing is ready. -/
theorem not_ready (h : Waits parent n taken left) (hnone : left.find? (·.parents.isEmpty) = none)
    (i : Nat) : ¬Ready parent n taken i := by
  intro hready
  obtain ⟨w, hw, hempty, -⟩ := h.ready_iff.1 hready
  exact List.find?_eq_none.1 hnone w hw (List.isEmpty_iff.2 hempty)

/-- The first position that waits for nothing is the least ready one. -/
theorem isLeast (h : Waits parent n taken left) {w : Waiting}
    (hfind : left.find? (·.parents.isEmpty) = some w) :
    IsLeast {i | Ready parent n taken i} w.position := by
  obtain ⟨hempty, before, after, rfl, hbefore⟩ := List.find?_eq_some_iff_append.1 hfind
  rw [List.isEmpty_iff] at hempty
  refine ⟨h.ready_iff.2 ⟨w, by simp, hempty, rfl⟩, fun i hi => ?_⟩
  obtain ⟨v, hv, hvempty, rfl⟩ := h.ready_iff.1 hi
  have hincreasing : ((before ++ w :: after).map position).Pairwise (· < ·) := by
    rw [h.positions]
    exact List.pairwise_lt_range.filter _
  rcases List.mem_append.1 hv with hv | hv
  · exact absurd (List.isEmpty_iff.2 hvempty) (by simpa using hbefore v hv)
  · rcases List.mem_cons.1 hv with rfl | hv
    · exact Nat.le_refl _
    · rw [List.map_append, List.map_cons, List.pairwise_append, List.pairwise_cons] at hincreasing
      exact Nat.le_of_lt (hincreasing.2.1.1 _ (List.mem_map_of_mem hv))

/-- Taking a position keeps the rest waiting for the right parents. -/
theorem take (h : Waits parent n taken left) (i : Nat) :
    Waits parent n (taken ++ [i]) (take i left) where
  positions := by
    rw [map_position_take, h.positions, List.filter_filter]
    refine List.filter_congr fun j _ => ?_
    rw [Bool.eq_iff_iff]
    simp [and_comm]
  parents := by
    intro w hw j
    obtain ⟨v, hv, rfl⟩ := List.mem_map.1 hw
    have hparents := h.parents v (List.mem_filter.1 hv).1 j
    show j ∈ v.parents.filter (· != i) ↔ parent v.position j ∧ j ∉ taken ++ [i]
    rw [List.mem_filter, hparents]
    simp [and_assoc]

/-- What a run of `settle` does from any state on. -/
theorem settle (h : Waits parent n taken left) :
    (∀ before i after, (Waiting.settle left).1 = before ++ i :: after →
      IsLeast {j | Ready parent n (taken ++ before) j} i) ∧
    (Waiting.settle left).2 = (List.range n).filter (· ∉ taken ++ (Waiting.settle left).1) ∧
    ∀ i, ¬Ready parent n (taken ++ (Waiting.settle left).1) i := by
  induction left using Waiting.settle.induct generalizing taken with
  | case1 left hnone =>
    rw [settle_of_none hnone, List.append_nil]
    refine ⟨fun before i after heq => ?_, h.positions, h.not_ready hnone⟩
    exact absurd heq.symm (List.append_ne_nil_of_right_ne_nil _ (List.cons_ne_nil i after))
  | case2 left w hfind ih =>
    obtain ⟨hleast, hstuck, hnone⟩ := ih (h.take w.position)
    simp only [List.append_assoc, List.singleton_append] at hleast hstuck hnone
    rw [settle_of_some hfind]
    refine ⟨fun before i after heq => ?_, hstuck, hnone⟩
    cases before with
    | nil =>
      obtain ⟨rfl, -⟩ := List.cons.inj heq
      rw [List.append_nil]
      exact h.isLeast hfind
    | cons j before =>
      obtain ⟨rfl, htail⟩ := List.cons.inj heq
      exact hleast before i after htail

end Waits

/-- Settling from the start gives the greedy arrangement. -/
theorem arranged_settle (hparent : ∀ i j, parent i j → j < n) (h : Waits parent n [] left) :
    Arranged parent n (settle left).1 (settle left).2 := by
  obtain ⟨hleast, hstuck, hnone⟩ := h.settle
  rw [List.nil_append] at hstuck hnone
  have hpositions : left.map position = List.range n := by
    rw [h.positions]
    exact List.filter_eq_self.2 fun i _ => by simp
  refine .of_least hparent ?_ hleast hnone ?_
  · rw [← hpositions]
    exact perm_settle left (by rw [hpositions]; exact List.nodup_range)
  · rw [hstuck]
    exact List.pairwise_lt_range.filter _

end Waiting

end Arrangement

/-! ## Entities -/

namespace Diagram

/-- The name stands for the first of its positions. -/
structure FirstAt (es : List Entity) (name : String) (i : Nat) : Prop where
  named : ∃ e, es[i]? = some e ∧ e.name = name
  first : ∀ k < i, ∀ e, es[k]? = some e → e.name ≠ name

/-- Position `j` is a parent of position `i`, which is another one : a relationship of subtyping
leads from the name at `i` to the name at `j`. -/
structure ParentAt (d : Diagram) (es : List Entity) (i j : Nat) : Prop where
  ne : i ≠ j
  related : ∃ r ∈ d.relationships, (r.kind = .inheritance ∨ r.kind = .implementation) ∧
    FirstAt es r.source i ∧ FirstAt es r.target j

/-- A name stands for the first entity that has it. -/
theorem findIdx?_name_eq_some_iff {es : List Entity} {name : String} {i : Nat} :
    es.findIdx? (·.name == name) = some i ↔ FirstAt es name i := by
  rw [List.findIdx?_eq_some_iff_getElem]
  constructor
  · rintro ⟨hlt, hname, hfirst⟩
    refine ⟨⟨es[i], List.getElem?_eq_getElem hlt, by simpa using hname⟩, fun k hk e he => ?_⟩
    obtain ⟨hklt, rfl⟩ := List.getElem?_eq_some_iff.1 he
    simpa using hfirst k hk
  · rintro ⟨⟨e, he, hname⟩, hfirst⟩
    obtain ⟨hlt, rfl⟩ := List.getElem?_eq_some_iff.1 he
    refine ⟨hlt, by simpa using hname, fun k hk => ?_⟩
    simpa using hfirst k hk _ (List.getElem?_eq_getElem (Nat.lt_trans hk hlt))

theorem FirstAt.lt {es : List Entity} {name : String} {i : Nat} (h : FirstAt es name i) :
    i < es.length := by
  obtain ⟨e, he, -⟩ := h.named
  exact (List.getElem?_eq_some_iff.1 he).1

variable {d : Diagram} {es : List Entity}

/-- An edge joins two positions exactly if one is a parent of the other. -/
theorem mem_subtypeEdges_iff {i j : Nat} :
    { child := i, parent := j } ∈ d.subtypeEdges es ↔ d.ParentAt es i j := by
  rw [mem_subtypeEdges]
  simp only [findIdx?_name_eq_some_iff, isSubtyping, Bool.or_eq_true, beq_iff_eq]
  exact ⟨fun h => ⟨h.1, h.2⟩, fun h => ⟨h.1, h.2⟩⟩

/-- At the start every position waits for its parents. -/
theorem waits_ofEdges : Waiting.Waits (d.ParentAt es) es.length []
    (Waiting.ofEdges es.length (d.subtypeEdges es)) where
  positions := by
    rw [Waiting.map_position_ofEdges]
    exact (List.filter_eq_self.2 fun i _ => by simp).symm
  parents := by
    intro w hw j
    obtain ⟨i, -, rfl⟩ := List.mem_map.1 hw
    rw [← mem_subtypeEdges_iff, List.mem_map]
    constructor
    · rintro ⟨x, hx, rfl⟩
      obtain ⟨hmem, hchild⟩ := List.mem_filter.1 hx
      rw [beq_iff_eq] at hchild
      exact ⟨hchild ▸ hmem, List.not_mem_nil⟩
    · rintro ⟨hmem, -⟩
      exact ⟨_, List.mem_filter.2 ⟨hmem, by simp⟩, rfl⟩

/-- Settling the positions of a list arranges them. -/
theorem arranged_positions (d : Diagram) (es : List Entity) :
    Arranged (d.ParentAt es) es.length
      (Waiting.settle (Waiting.ofEdges es.length (d.subtypeEdges es))).1
      (Waiting.settle (Waiting.ofEdges es.length (d.subtypeEdges es))).2 := by
  refine Waiting.arranged_settle ?_ waits_ofEdges
  rintro i j ⟨-, r, -, -, -, hj⟩
  exact hj.lt

section Order

variable {sorted stuck : List Nat} (h : Arranged (d.ParentAt es) es.length sorted stuck)

include h

/-- The order is read off any arrangement of the positions, since there is only one. -/
theorem order_eq : d.order es =
    { entities := (sorted ++ stuck).filterMap (es[·]?), cyclic := stuck.filterMap (es[·]?) } := by
  obtain ⟨hsorted, hstuck⟩ := (arranged_positions d es).unique h
  rw [order_eq_greedyOrder, greedyOrder, ← hsorted, ← hstuck]

/-- Every position gives an entity. -/
theorem map_some_order : (d.order es).entities.map some = (sorted ++ stuck).map (es[·]?) ∧
    (d.order es).cyclic.map some = stuck.map (es[·]?) := by
  have hsome : ∀ is : List Nat, (∀ i ∈ is, i < es.length) →
      (is.filterMap (es[·]?)).map some = is.map (es[·]?) := by
    intro is his
    rw [List.map_filterMap, ← List.filterMap_eq_map]
    refine List.filterMap_congr fun i hi => ?_
    rw [Function.comp_apply, List.getElem?_eq_getElem (his i hi)]
    rfl
  rw [order_eq h]
  exact ⟨hsome _ fun i => h.lt_of_mem, hsome _ fun i hi => h.lt_of_mem (List.mem_append_right _ hi)⟩

/-- The entities on cycles stand at the end. -/
theorem exists_append_cyclic : (d.order es).cyclic.length = stuck.length ∧
    ∃ front, (d.order es).entities = front ++ (d.order es).cyclic := by
  constructor
  · simpa using congrArg List.length (map_some_order h).2
  · rw [order_eq h]
    exact ⟨_, List.filterMap_append⟩

end Order

/-- Whatever faithful library keeps the graph, ordering is the greedy arrangement : the
positions that do not run into a cycle, the least ready one first each time, then the others
as they came. The loop places the first part. Exactly if there are others, a warning names
them in this order. Of the relationships only the set matters. -/
theorem order_arranged (graphs : GraphLibrary) (hgraphs : graphs.Faithful) (d : Diagram)
    (es : List Entity) :
    d.orderWith graphs es = d.greedyOrder es ∧
    ∃ sorted stuck : List Nat, Arranged (d.ParentAt es) es.length sorted stuck ∧
      (∀ sorted' stuck', Arranged (d.ParentAt es) es.length sorted' stuck' →
        sorted' = sorted ∧ stuck' = stuck) ∧
      graphs.place es.length (d.subtypeEdges es) = sorted ∧
      (d.orderWith graphs es).entities.map some = (sorted ++ stuck).map (es[·]?) ∧
      (d.orderWith graphs es).cyclic.map some = stuck.map (es[·]?) ∧
      ((d.orderWith graphs es).warning? = none ↔ stuck = []) ∧
      (∀ message ∈ (d.orderWith graphs es).warning?, message = "Inheritance cycle between " ++
        ", ".intercalate ((d.orderWith graphs es).cyclic.map Entity.name) ++
          "; keeping declaration order") ∧
      ∀ d' : Diagram, (∀ r, r ∈ d'.relationships ↔ r ∈ d.relationships) →
        d'.orderWith graphs es = d.orderWith graphs es := by
  have h := arranged_positions d es
  obtain ⟨hentities, hcyclic⟩ := map_some_order h
  have horder := fun d' : Diagram =>
    (orderWith_eq_greedyOrder hgraphs d' es).trans (order_eq_greedyOrder d' es).symm
  refine ⟨orderWith_eq_greedyOrder hgraphs d es, _, _, h, fun sorted' stuck' h' => h'.unique h,
    (GraphLibrary.place_eq_settle hgraphs simple_subtypeEdges).1, ?_⟩
  rw [horder d]
  refine ⟨hentities, hcyclic, ?_, ?_, ?_⟩
  · have hnil : (d.order es).cyclic = [] ↔
        (Waiting.settle (Waiting.ofEdges es.length (d.subtypeEdges es))).2 = [] := by
      rw [← List.map_eq_nil_iff (f := some), hcyclic, List.map_eq_nil_iff]
    rw [← hnil, Ordered.warning?, ← List.isEmpty_iff]
    split <;> simp_all
  · intro message hmessage
    rw [Ordered.warning?] at hmessage
    split at hmessage
    · cases hmessage
    · exact (Option.some.inj hmessage).symm
  · intro d' hd'
    have hparent : d'.ParentAt es = d.ParentAt es := by
      funext i j
      refine propext ⟨fun hij => ⟨hij.ne, ?_⟩, fun hij => ⟨hij.ne, ?_⟩⟩
      · simpa only [hd'] using hij.related
      · simpa only [hd'] using hij.related
    rw [horder d', order_eq h, order_eq (d := d') (hparent ▸ h)]

/-- Two classes that extend each other, one that extends both, and one before its parent. -/
def loopDiagram : Diagram where
  entities := ["C", "A", "B", "E", "D"].map fun name => .cls { name }
  relationships := [("A", "B"), ("B", "A"), ("C", "A"), ("C", "B"), ("E", "D")].map fun (a, b) =>
    { source := a, target := b, kind := .inheritance }

theorem order_arranged_loop :
    GraphLibrary.edgeList.Faithful ∧ ∃ sorted stuck,
      Arranged (loopDiagram.ParentAt loopDiagram.entities) 5 sorted stuck ∧ sorted = [4, 3] ∧
      (loopDiagram.orderWith .edgeList loopDiagram.entities).cyclic.map some =
        stuck.map (loopDiagram.entities[·]?) ∧
      (loopDiagram.orderWith .edgeList loopDiagram.entities).warning? =
        some "Inheritance cycle between C, A, B; keeping declaration order" := by
  obtain ⟨-, sorted, stuck, harranged, -, hplaced, -, hcyclic, -⟩ :=
    order_arranged .edgeList GraphLibrary.faithful_edgeList loopDiagram loopDiagram.entities
  have hrun : GraphLibrary.edgeList.place loopDiagram.entities.length
      (loopDiagram.subtypeEdges loopDiagram.entities) = [4, 3] := by decide +kernel
  exact ⟨GraphLibrary.faithful_edgeList, sorted, stuck, harranged, hplaced.symm.trans hrun, hcyclic,
    by decide +kernel⟩

/-! ## Ordering twice -/

/-- If names are distinct, the first entity of a name is the only one. -/
theorem firstAt_iff (hnames : (es.map Entity.name).Nodup) {name : String} {i : Nat} :
    FirstAt es name i ↔ ∃ e, es[i]? = some e ∧ e.name = name := by
  refine ⟨FirstAt.named, fun ⟨e, he, hname⟩ => ⟨⟨e, he, hname⟩, fun k hk x hx hsame => ?_⟩⟩
  have hklt : k < (es.map Entity.name).length := by
    rw [List.length_map]
    exact (List.getElem?_eq_some_iff.1 hx).1
  have heq : (es.map Entity.name)[k]? = (es.map Entity.name)[i]? := by
    rw [List.getElem?_map, List.getElem?_map, hx, he, Option.map_some, Option.map_some, hsame,
      hname]
  exact Nat.ne_of_lt hk ((List.getElem?_inj hklt hnames).1 heq)

section Twice

variable {sorted stuck : List Nat} (h : Arranged (d.ParentAt es) es.length sorted stuck)

include h

/-- The entities stand in the order of their positions. -/
theorem getElem?_order {k i : Nat} (hi : (sorted ++ stuck)[k]? = some i) :
    (d.order es).entities[k]? = es[i]? := by
  have heq := congrArg (·[k]?) (map_some_order h).1
  simp only [List.getElem?_map, hi, Option.map_some] at heq
  obtain ⟨e, he, hsome⟩ := Option.map_eq_some_iff.1 heq
  rw [he, ← hsome]

theorem exists_getElem?_positions {k : Nat} (hk : k < es.length) :
    ∃ i, (sorted ++ stuck)[k]? = some i := by
  rw [← h.length_eq, ← List.length_append] at hk
  exact ⟨_, List.getElem?_eq_getElem hk⟩

theorem eq_of_getElem?_positions {k l i : Nat} (hk : (sorted ++ stuck)[k]? = some i)
    (hl : (sorted ++ stuck)[l]? = some i) : k = l :=
  (List.getElem?_inj (List.getElem?_eq_some_iff.1 hk).1
    (h.perm.nodup_iff.2 List.nodup_range)).1 (hk.trans hl.symm)

/-- What stands in a front part of the positions stands below its length. -/
theorem mem_front_iff {front back : List Nat} (hfront : sorted ++ stuck = front ++ back) {k i : Nat}
    (hi : (sorted ++ stuck)[k]? = some i) : i ∈ front ↔ k < front.length := by
  constructor
  · intro hmem
    obtain ⟨l, hl⟩ := List.mem_iff_getElem?.1 hmem
    have hlt : l < front.length := (List.getElem?_eq_some_iff.1 hl).1
    have hl' : (sorted ++ stuck)[l]? = some i := by
      rw [hfront, List.getElem?_append_left hlt, hl]
    exact eq_of_getElem?_positions h hi hl' ▸ hlt
  · intro hlt
    rw [hfront, List.getElem?_append_left hlt] at hi
    exact List.mem_of_getElem? hi

/-- The positions in the order, those of the sorted entities first. -/
theorem range_append_range' : List.range sorted.length ++ List.range' sorted.length stuck.length =
    List.range (d.order es).entities.length := by
  rw [(d.perm_order es).length_eq, ← h.length_eq, List.range_eq_range', List.range_eq_range',
    ← List.range'_append_1, Nat.zero_add]

variable (hnames : (es.map Entity.name).Nodup)

include hnames

/-- Parents stay parents when their positions are taken in order. -/
theorem parentAt_order_iff {k l i j : Nat} (hi : (sorted ++ stuck)[k]? = some i)
    (hj : (sorted ++ stuck)[l]? = some j) :
    d.ParentAt (d.order es).entities k l ↔ d.ParentAt es i j := by
  have hnames' : ((d.order es).entities.map Entity.name).Nodup :=
    ((d.perm_order es).map Entity.name).nodup_iff.2 hnames
  have hne : k ≠ l ↔ i ≠ j := by
    refine not_congr ⟨?_, ?_⟩
    · rintro rfl
      exact Option.some.inj (hi.symm.trans hj)
    · rintro rfl
      exact eq_of_getElem?_positions h hi hj
  have hrelated : ∀ r : Relationship,
      FirstAt (d.order es).entities r.source k ∧ FirstAt (d.order es).entities r.target l ↔
        FirstAt es r.source i ∧ FirstAt es r.target j := by
    intro r
    rw [firstAt_iff hnames', firstAt_iff hnames', firstAt_iff hnames, firstAt_iff hnames,
      getElem?_order h hi, getElem?_order h hj]
  constructor
  · rintro ⟨hkl, r, hr, hkind, hfirst⟩
    exact ⟨hne.1 hkl, r, hr, hkind, (hrelated r).1 hfirst⟩
  · rintro ⟨hij, r, hr, hkind, hfirst⟩
    exact ⟨hne.2 hij, r, hr, hkind, (hrelated r).2 hfirst⟩

/-- In an ordered list the parents of a position that could be sorted stand before it. -/
theorem lt_of_parentAt_order {k l : Nat} (hk : k < sorted.length)
    (hl : d.ParentAt (d.order es).entities k l) : l < k := by
  have hsorted : sorted = sorted.take k ++ sorted[k] :: sorted.drop (k + 1) := by
    rw [List.getElem_cons_drop, List.take_append_drop]
  have hi : (sorted ++ stuck)[k]? = some sorted[k] := by
    rw [List.getElem?_append_left hk, List.getElem?_eq_getElem hk]
  obtain ⟨j, hj⟩ := exists_getElem?_positions h (k := l) (by
    obtain ⟨-, r, -, -, -, hlast⟩ := hl
    exact (d.perm_order es).length_eq ▸ hlast.lt)
  have htaken : j ∈ sorted.take k :=
    (h.least _ _ _ hsorted).1.parents j ((parentAt_order_iff h hnames hi hj).1 hl)
  have hfront : sorted ++ stuck = sorted.take k ++ (sorted.drop k ++ stuck) := by
    rw [← List.append_assoc, List.take_append_drop]
  have hlt := (mem_front_iff h hfront hj).1 htaken
  rw [List.length_take] at hlt
  exact Nat.lt_of_lt_of_le hlt (Nat.min_le_left _ _)

/-- In an ordered list, each position that could not be sorted has a parent that could not. -/
theorem not_ready_order (k : Nat) : ¬Ready (d.ParentAt (d.order es).entities)
    (d.order es).entities.length (List.range sorted.length) k := by
  rintro ⟨hlt, hleft, hparents⟩
  rw [(d.perm_order es).length_eq] at hlt
  obtain ⟨i, hi⟩ := exists_getElem?_positions h hlt
  refine h.not_ready i ⟨h.lt_of_mem (List.mem_of_getElem? hi), fun hsorted => ?_, fun j hj => ?_⟩
  · exact hleft (List.mem_range.2 ((mem_front_iff h rfl hi).1 hsorted))
  · have hmem : j ∈ sorted ++ stuck := by
      obtain ⟨-, r, -, -, -, hlast⟩ := hj
      exact h.perm.mem_iff.2 (List.mem_range.2 hlast.lt)
    obtain ⟨l, hl⟩ := List.mem_iff_getElem?.1 hmem
    have hltl := List.mem_range.1 (hparents l ((parentAt_order_iff h hnames hi hl).2 hj))
    exact (mem_front_iff h rfl hl).2 hltl

/-- The positions of an ordered list are arranged as they are. -/
theorem arranged_order : Arranged (d.ParentAt (d.order es).entities) (d.order es).entities.length
    (List.range sorted.length) (List.range' sorted.length stuck.length) := by
  have hlength : (d.order es).entities.length = sorted.length + stuck.length := by
    rw [h.length_eq, (d.perm_order es).length_eq]
  have hparent : ∀ k l, d.ParentAt (d.order es).entities k l →
      l < (d.order es).entities.length := by
    rintro k l ⟨-, r, -, -, -, hl⟩
    exact hl.lt
  refine .of_least hparent ?_ ?_ (not_ready_order h hnames) List.pairwise_lt_range'
  · rw [range_append_range' h]
  · intro taken k rest heq
    rw [List.range_eq_range'] at heq
    obtain ⟨t, ht, rfl, hrest⟩ := List.range'_eq_append_iff.1 heq
    obtain ⟨hk, hpos, -⟩ := List.range'_eq_cons_iff.1 hrest.symm
    have hkt : k = t := by omega
    subst hkt
    have hlt : k < sorted.length := by omega
    refine ⟨⟨by omega, by simp, fun l hl => ?_⟩, fun j hj => ?_⟩
    · simpa using lt_of_parentAt_order h hnames hlt hl
    · simpa using hj.left

end Twice

/-- Ordering an ordered list of entities with distinct names changes nothing. -/
theorem order_order (d : Diagram) (es : List Entity) (hnames : (es.map Entity.name).Nodup) :
    d.order (d.order es).entities = d.order es := by
  have h := arranged_positions d es
  have h' := arranged_order h hnames
  have hentities : (d.order (d.order es).entities).entities = (d.order es).entities := by
    rw [order_eq h', range_append_range' h, filterMap_range_getElem?]
  obtain ⟨hlength, front, hfront⟩ := exists_append_cyclic h
  obtain ⟨hlength', front', hfront'⟩ := exists_append_cyclic h'
  have hsame : front' ++ (d.order (d.order es).entities).cyclic =
      front ++ (d.order es).cyclic := by
    rw [← hfront', hentities, hfront]
  have hcyclic : (d.order (d.order es).entities).cyclic = (d.order es).cyclic :=
    List.append_inj_right' hsame (by rw [hlength', hlength, List.length_range'])
  exact congrArg₂ Ordered.mk hentities hcyclic

theorem order_order_loop :
    (loopDiagram.entities.map Entity.name).Nodup ∧
    (loopDiagram.order loopDiagram.entities).entities.map Entity.name = ["D", "E", "C", "A", "B"] ∧
    (loopDiagram.order loopDiagram.entities).cyclic.map Entity.name = ["C", "A", "B"] ∧
    loopDiagram.order (loopDiagram.order loopDiagram.entities).entities =
      loopDiagram.order loopDiagram.entities :=
  ⟨by decide, by decide +kernel, by decide +kernel, order_order _ _ (by decide)⟩

end Diagram

end ClassSketch
