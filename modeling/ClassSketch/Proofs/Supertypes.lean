import Mathlib.Order.WellFoundedSet
import ClassSketch.Proofs.Sections

/-!
# Supertypes come first

The greedy order takes a position only when all that it waits for is taken, so
that what it waited for comes before it (`sublist_settle`). Where the waiting is
well-founded nothing is left over (`settle_left_eq_nil`).

The emitters find the supertypes of an entity by lookups in the diagram
(`Diagram.Supertype`), the ordering by positions in the list it is given. Both
come down to the relationships : a supertype is named by one of them
(`Supertype.exists_relationship`), and where names are distinct the position of a
name is that of its entity. Without cycles every section of a document therefore
has supertypes before their subtypes (`sublist_order`).
-/

namespace ClassSketch

open Layout

/-! ## Settling positions -/

namespace Waiting

variable {left : List Waiting}

/-- What is not taken stays, and no longer waits for what was. -/
theorem mem_take {i : Nat} {w : Waiting} (hw : w ∈ left) (hi : w.position ≠ i) :
    release i w ∈ take i left :=
  List.mem_map_of_mem (List.mem_filter.2 ⟨hw, by simpa using hi⟩)

/-- A position that is taken comes after all that it waited for. -/
theorem sublist_settle (hnodup : (left.map position).Nodup) {w : Waiting} (hw : w ∈ left) {p : Nat}
    (hp : p ∈ w.parents) (hi : w.position ∈ (settle left).1) :
    List.Sublist [p, w.position] (settle left).1 := by
  fun_induction settle left generalizing w with
  | case1 => exact absurd hi List.not_mem_nil
  | case2 left first hfind rest ih =>
    have hfirst : first ∈ left := List.mem_of_find?_eq_some hfind
    have hne : w.position ≠ first.position := by
      intro he
      obtain rfl := List.inj_on_of_nodup_map hnodup hw hfirst he
      have hempty := List.find?_some hfind
      rw [List.isEmpty_iff] at hempty
      simp [hempty] at hp
    have hrest : w.position ∈ rest.1 := (List.mem_cons.1 hi).resolve_left hne
    by_cases hpfirst : p = first.position
    · rw [hpfirst]
      exact List.cons_sublist_cons.2 (List.singleton_sublist.2 hrest)
    · have hnodup' : ((take first.position left).map position).Nodup := by
        rw [map_position_take]
        exact hnodup.filter _
      refine (ih hnodup' (mem_take hw hne) ?_ hrest).cons _
      exact List.mem_filter.2 ⟨hp, by simpa using hpfirst⟩

/-- Positions that wait along a well-founded relation, and only for each other, are all taken. -/
theorem settle_left_eq_nil {R : Nat → Nat → Prop} (hwf : WellFounded R)
    (hleft : ∀ w ∈ left, ∀ p ∈ w.parents, p ∈ left.map position ∧ R p w.position) :
    (settle left).2 = [] := by
  fun_induction settle left with
  | case1 left hnone =>
    cases hcases : left with
    | nil => rfl
    | cons w ws =>
      -- A least position waits for nothing, yet every position waits for another.
      obtain ⟨i, hi, hmin⟩ := hwf.has_min {i | i ∈ left.map position} ⟨w.position, by simp [hcases]⟩
      obtain ⟨v, hv, rfl⟩ := List.mem_map.1 hi
      have hparents := List.find?_eq_none.1 hnone v hv
      rw [List.isEmpty_iff] at hparents
      obtain ⟨p, hp⟩ := List.exists_mem_of_ne_nil _ hparents
      obtain ⟨hmem, hR⟩ := hleft v hv p hp
      exact absurd hR (hmin p hmem)
  | case2 left first hfind rest ih =>
    refine ih fun w hw p hp => ?_
    obtain ⟨v, hv, rfl⟩ := List.mem_map.1 hw
    obtain ⟨hp, hpfirst⟩ := List.mem_filter.1 hp
    obtain ⟨hmem, hR⟩ := hleft v (List.mem_filter.1 hv).1 p hp
    refine ⟨?_, hR⟩
    rw [map_position_take]
    exact List.mem_filter.2 ⟨hmem, hpfirst⟩

end Waiting

/-! ## Supertypes -/

namespace Diagram

/-- `s` is a supertype of `e` for the emitters. -/
inductive Supertype (d : Diagram) : Entity → Entity → Prop where
  | parent {c p : ClassDecl} (h : d.parent? c = some p) : Supertype d (.cls p) (.cls c)
  | implemented {c : ClassDecl} {i : InterfaceDecl} (h : i ∈ d.implemented c) :
      Supertype d (.interface i) (.cls c)
  | extended {i j : InterfaceDecl} (h : j ∈ d.extended i) :
      Supertype d (.interface j) (.interface i)

/-- A relationship of subtyping leads from the declared name `a` to the declared name `b`. -/
def Below (d : Diagram) (a b : String) : Prop :=
  a ∈ d.entities.map Entity.name ∧ b ∈ d.entities.map Entity.name ∧
    ∃ r ∈ d.relationships, isSubtyping r = true ∧ r.source = a ∧ r.target = b

/-- No declared name is below itself, in one step or in several. -/
def Acyclic (d : Diagram) : Prop :=
  ∀ a, ¬Relation.TransGen d.Below a a

theorem mem_interfacesVia {d : Diagram} {kind : RelationKind} {source : String} {i : InterfaceDecl}
    (h : i ∈ d.interfacesVia kind source) :
    ∃ r ∈ d.relationships, r.kind = kind ∧ r.source = source ∧ r.target = i.name := by
  obtain ⟨target, htarget, hi⟩ := List.mem_filterMap.1 h
  obtain ⟨r, hr, rfl⟩ := List.mem_map.1 (List.mem_eraseDups.1 htarget)
  obtain ⟨hmem, hlink⟩ := List.mem_filter.1 hr
  have hname : i.name = r.target := by simpa using List.find?_some hi
  simp only [Bool.and_eq_true, beq_iff_eq] at hlink
  exact ⟨r, hmem, hlink.1, hlink.2, hname.symm⟩

/-- The parent of a class is named by an inheritance relationship of the class. -/
theorem exists_of_parent? {d : Diagram} {c p : ClassDecl} (h : d.parent? c = some p) :
    p ∈ d.classes ∧
      ∃ r ∈ d.relationships, r.kind = .inheritance ∧ r.source = c.name ∧ r.target = p.name := by
  obtain ⟨r, hr, hp⟩ := Option.bind_eq_some_iff.1 h
  have hlink := List.find?_some hr
  have hname : p.name = r.target := by simpa using List.find?_some hp
  simp only [Bool.and_eq_true, beq_iff_eq] at hlink
  exact ⟨List.mem_of_find?_eq_some hp, r, List.mem_of_find?_eq_some hr, hlink.1, hlink.2, hname.symm⟩

/-- A supertype is there because of a relationship. -/
theorem Supertype.exists_relationship {d : Diagram} {s e : Entity} (h : d.Supertype s e) :
    ∃ r ∈ d.relationships, isSubtyping r = true ∧ r.source = e.name ∧ r.target = s.name := by
  cases h with
  | parent h =>
    obtain ⟨-, r, hr, hkind, hsource, htarget⟩ := exists_of_parent? h
    exact ⟨r, hr, by simp [isSubtyping, hkind], hsource, htarget⟩
  | implemented h =>
    obtain ⟨r, hr, hkind, hsource, htarget⟩ := mem_interfacesVia h
    exact ⟨r, hr, by simp [isSubtyping, hkind], hsource, htarget⟩
  | extended h =>
    obtain ⟨r, hr, hkind, hsource, htarget⟩ := mem_interfacesVia h
    exact ⟨r, hr, by simp [isSubtyping, hkind], hsource, htarget⟩

/-- Without cycles one can go up the supertypes only so far, as entities are finite in number. -/
theorem Acyclic.wellFounded {d : Diagram} (h : d.Acyclic) : WellFounded fun a b => d.Below b a := by
  have : IsStrictOrder String fun a b => Relation.TransGen d.Below b a :=
    { irrefl := h, trans := fun _ _ _ hba hcb => hcb.trans hba }
  have hfinite : {a | a ∈ d.entities.map Entity.name}.Finite := List.finite_toSet _
  have hwf := Set.wellFoundedOn_iff.1
    (hfinite.wellFoundedOn (r := fun a b => Relation.TransGen d.Below b a))
  exact Subrelation.wf (fun {a b} hba => ⟨.single hba, hba.2.1, hba.1⟩) hwf

/-- There is no cycle where every relationship of subtyping leads to a lower rank. -/
theorem acyclic_of_rank {d : Diagram} (rank : String → Nat)
    (h : ∀ r ∈ d.relationships, isSubtyping r = true → rank r.target < rank r.source) :
    d.Acyclic := by
  have hbelow : ∀ a b, Relation.TransGen d.Below a b → rank b < rank a := by
    intro a b hab
    induction hab with
    | single hab =>
      obtain ⟨-, -, r, hr, hkind, rfl, rfl⟩ := hab
      exact h r hr hkind
    | tail _ hbc ih =>
      obtain ⟨-, -, r, hr, hkind, rfl, rfl⟩ := hbc
      exact Nat.lt_trans (h r hr hkind) ih
  exact fun a ha => Nat.lt_irrefl _ (hbelow a a ha)

/-! ## Positions and names -/

variable {d : Diagram} {es : List Entity}

/-- Where names are distinct, the position of a name is that of its entity. -/
theorem findIdx?_name (hnames : (es.map Entity.name).Nodup) {e : Entity} (he : e ∈ es) :
    ∃ i, es.findIdx? (·.name == e.name) = some i ∧ es[i]? = some e := by
  cases hi : es.findIdx? (·.name == e.name) with
  | none => exact absurd (List.findIdx?_eq_none_iff.1 hi e he) (by simp)
  | some i =>
    obtain ⟨hlt, hname, -⟩ := List.findIdx?_eq_some_iff_getElem.1 hi
    have hsame : es[i] = e :=
      List.inj_on_of_nodup_map hnames (List.getElem_mem hlt) he (by simpa using hname)
    exact ⟨i, rfl, by rw [List.getElem?_eq_getElem hlt, hsame]⟩

theorem exists_of_findIdx?_name {name : String} {i : Nat}
    (h : es.findIdx? (·.name == name) = some i) : ∃ e ∈ es, es[i]? = some e ∧ e.name = name := by
  obtain ⟨hlt, hname, -⟩ := List.findIdx?_eq_some_iff_getElem.1 h
  exact ⟨es[i], List.getElem_mem hlt, List.getElem?_eq_getElem hlt, by simpa using hname⟩

/-- The name at a position. -/
def nameAt (es : List Entity) (i : Nat) : String :=
  (es[i]?).elim "" Entity.name

/-- An edge leads from an entity to one above it. -/
theorem below_of_mem_subtypeEdges (hes : ∀ e ∈ es, e ∈ d.entities) {x : SubtypeEdge}
    (hx : x ∈ d.subtypeEdges es) :
    x.parent < es.length ∧ d.Below (nameAt es x.child) (nameAt es x.parent) := by
  obtain ⟨-, r, hr, hkind, hchild, hparent⟩ := mem_subtypeEdges.1 hx
  obtain ⟨c, hc, hgetc, hnamec⟩ := exists_of_findIdx?_name hchild
  obtain ⟨p, hp, hgetp, hnamep⟩ := exists_of_findIdx?_name hparent
  refine ⟨(List.getElem?_eq_some_iff.1 hgetp).1, ?_⟩
  rw [nameAt, nameAt, hgetc, hgetp]
  exact ⟨List.mem_map_of_mem (hes c hc), List.mem_map_of_mem (hes p hp), r, hr, hkind,
    hnamec.symm, hnamep.symm⟩

/-! ## The order -/

/-- Without cycles no position is left over. -/
theorem settle_left_of_acyclic (hacyclic : d.Acyclic) (hes : ∀ e ∈ es, e ∈ d.entities) :
    (Waiting.settle (Waiting.ofEdges es.length (d.subtypeEdges es))).2 = [] := by
  refine Waiting.settle_left_eq_nil (InvImage.wf (nameAt es) hacyclic.wellFounded) ?_
  intro w hw p hp
  rw [Waiting.map_position_ofEdges]
  obtain ⟨i, -, rfl⟩ := List.mem_map.1 hw
  obtain ⟨x, hx, rfl⟩ := List.mem_map.1 hp
  obtain ⟨hmem, hchild⟩ := List.mem_filter.1 hx
  obtain ⟨hlt, hbelow⟩ := below_of_mem_subtypeEdges hes hmem
  rw [beq_iff_eq] at hchild
  exact ⟨List.mem_range.2 hlt, hchild ▸ hbelow⟩

/-- In the order of the entities a supertype stands before its subtypes. -/
theorem sublist_order (hacyclic : d.Acyclic) (hes : ∀ e ∈ es, e ∈ d.entities)
    (hnames : (es.map Entity.name).Nodup) {s e : Entity} (hs : s ∈ es) (he : e ∈ es)
    (h : d.Supertype s e) : List.Sublist [s, e] (d.order es).entities := by
  obtain ⟨r, hr, hkind, hsource, htarget⟩ := h.exists_relationship
  obtain ⟨p, hp, hgetp⟩ := findIdx?_name hnames hs
  obtain ⟨i, hi, hgeti⟩ := findIdx?_name hnames he
  have hne : i ≠ p := by
    rintro rfl
    have hsame : s = e := Option.some.inj (hgetp.symm.trans hgeti)
    have hself : d.Below e.name e.name :=
      ⟨List.mem_map_of_mem (hes e he), List.mem_map_of_mem (hes e he), r, hr, hkind, hsource,
        hsame ▸ htarget⟩
    exact hacyclic _ (.single hself)
  have hedge : { child := i, parent := p } ∈ d.subtypeEdges es :=
    mem_subtypeEdges.2 ⟨hne, r, hr, hkind, hsource ▸ hi, htarget ▸ hp⟩
  have hleft := settle_left_of_acyclic hacyclic hes
  have hnodup : ((Waiting.ofEdges es.length (d.subtypeEdges es)).map Waiting.position).Nodup := by
    rw [Waiting.map_position_ofEdges]
    exact List.nodup_range
  have hlt : i < es.length := (List.getElem?_eq_some_iff.1 hgeti).1
  have htaken : i ∈ (Waiting.settle (Waiting.ofEdges es.length (d.subtypeEdges es))).1 := by
    have hperm := Waiting.perm_settle_ofEdges es.length (d.subtypeEdges es)
    rw [hleft, List.append_nil] at hperm
    exact hperm.mem_iff.2 (List.mem_range.2 hlt)
  have hsub :
      List.Sublist [p, i] (Waiting.settle (Waiting.ofEdges es.length (d.subtypeEdges es))).1 :=
    Waiting.sublist_settle hnodup
      (w := { position := i,
              parents := ((d.subtypeEdges es).filter (·.child == i)).map (·.parent) })
      (List.mem_map.2 ⟨i, List.mem_range.2 hlt, rfl⟩)
      (List.mem_map.2 ⟨_, List.mem_filter.2 ⟨hedge, by simp⟩, rfl⟩) htaken
  have hentities := hsub.filterMap (es[·]?)
  simp only [List.filterMap_cons, hgetp, hgeti, List.filterMap_nil] at hentities
  simp only [order_eq_greedyOrder, greedyOrder, hleft, List.append_nil]
  exact hentities

end Diagram

/-! ## Sections and code -/

/-- With supertypes first, the sections of a document are the groups of its diagram, each
ordered by itself. -/
theorem Document.contents_supertypesFirst {d : Diagram} (hd : d.Agrees)
    (hnames : (d.entities.map Entity.name).Nodup) (hasPackages : Bool) :
    contents (ofDiagram d hasPackages true) =
      (d.groups hasPackages).map fun g => (g.1, (d.order g.2).entities) := by
  rw [← ofDiagram_groups_unordered hd hnames]
  unfold ofDiagram contents packageSections
  split <;> simp [arrange]

/-- Names are distinct in each group. -/
theorem Diagram.nodup_name_of_mem_groups {d : Diagram} (hd : d.Agrees)
    (hnames : (d.entities.map Entity.name).Nodup) {hasPackages : Bool}
    {g : Option String × List Entity} (hg : g ∈ d.groups hasPackages) :
    (∀ e ∈ g.2, e ∈ d.entities) ∧ (g.2.map Entity.name).Nodup := by
  have hperm := perm_groups hd hasPackages
  refine ⟨fun e he => hperm.mem_iff.1 (List.mem_flatMap.2 ⟨g, hg, he⟩), ?_⟩
  have hall := (hperm.map Entity.name).nodup_iff.2 hnames
  rw [List.map_flatMap, List.nodup_flatMap] at hall
  exact hall.1 g hg

/-- Entities that stand in this order in a group are written in this order. -/
theorem Listing.exists_code_eq (li : Listing) (size : Int) (d : Diagram)
    {gs : List (Option String × List Entity)} {g : Option String × List Entity} (hg : g ∈ gs)
    {s e : Entity} (h : List.Sublist [s, e] g.2) :
    ∃ before between after, li.code size d gs =
      before ++ Lines.render size (li.entityLines d s) ++ between ++
        Lines.render size (li.entityLines d e) ++ after := by
  let entityCode (es : List Entity) : String :=
    String.join (es.map fun e => Lines.render size (li.entityLines d e))
  obtain ⟨gs₁, gs₂, rfl⟩ := List.append_of_mem hg
  obtain ⟨es₁, es₂, hes, hs, he⟩ := List.cons_sublist_iff.1 h
  obtain ⟨as, bs, rfl⟩ := List.append_of_mem hs
  obtain ⟨cs, ds, rfl⟩ := List.append_of_mem (List.singleton_sublist.1 he)
  refine ⟨Lines.render size li.header ++ String.join (gs₁.map (li.groupCode size d)) ++
      Lines.render size (g.1.elim [] li.packageStart) ++ entityCode as,
    entityCode bs ++ entityCode cs,
    entityCode ds ++ Lines.render size (g.1.elim [] li.packageEnd) ++
      String.join (gs₂.map (li.groupCode size d)) ++ Lines.render size (li.footer d), ?_⟩
  simp only [entityCode, code, groupCode, hes, List.map_append, List.map_cons, String.join_append,
    String.join_cons, String.append_assoc]

/-- Code generated with supertypes first, from a text whose entities have distinct names and
no cycle of subtyping. In every group a supertype of an entity stands before that entity, and
so does its code. -/
theorem generate_supertypes_first (memory : Nat) (text : String)
    (hnames : ((Reading.ofText text).diagram.entities.map Entity.name).Nodup)
    (hacyclic : (Reading.ofText text).diagram.Acyclic) (l : Language) (options : Options)
    (hfirst : options.supertypesFirst = true) :
    let d := (Reading.ofText text).diagram
    let em := l.emitter
    let m := l.margin options memory
    ∃ arranged, Document.SameGroups arranged (d.groups em.hasPackages) ∧
      (∀ g ∈ arranged, ∀ s ∈ g.2, ∀ e ∈ g.2, d.Supertype s e → List.Sublist [s, e] g.2) ∧
      (∀ out, generate memory l options d = .ok out →
        out.code = l.listing.code m.size d arranged ∧
        ∀ g ∈ arranged, ∀ s ∈ g.2, ∀ e ∈ g.2, d.Supertype s e →
          ∃ supertext subtext before between after,
            em.entityText m d s = .ok supertext ∧ em.entityText m d e = .ok subtext ∧
            out.code = before ++ supertext ++ between ++ subtext ++ after) ∧
      ∀ o, generate memory l options d = .error o →
        ∃ g ∈ arranged, (l.listing.groupLines d g).Faults m o.fault := by
  intro d em m
  have hd : d.Agrees := agrees_ofText text
  have hsections : Document.contents (Document.ofDiagram d em.hasPackages options.supertypesFirst) =
      (d.groups em.hasPackages).map fun g => (g.1, (d.order g.2).entities) := by
    rw [hfirst]
    exact Document.contents_supertypesFirst hd hnames _
  have hprecedes : ∀ g ∈ (d.groups em.hasPackages).map fun g => (g.1, (d.order g.2).entities),
      ∀ s ∈ g.2, ∀ e ∈ g.2, d.Supertype s e → List.Sublist [s, e] g.2 := by
    intro g hg s hs e he h
    obtain ⟨h₀, hh₀, rfl⟩ := List.mem_map.1 hg
    obtain ⟨hes, hnodup⟩ := Diagram.nodup_name_of_mem_groups hd hnames hh₀
    have hperm := d.perm_order h₀.2
    exact Diagram.sublist_order hacyclic hes hnodup (hperm.mem_iff.1 hs) (hperm.mem_iff.1 he) h
  refine ⟨_, Document.ofDiagram_groups hd hnames _ options.supertypesFirst, ?_, fun out hout => ?_,
    fun _ => fault_of_generate⟩
  · rw [hsections]
    exact hprecedes
  · have hcode := code_of_generate hout
    refine ⟨hcode, fun g hg s hs e he h => ?_⟩
    have hsub : List.Sublist [s, e] g.2 := by
      rw [hsections] at hg
      exact hprecedes g hg s hs e he h
    obtain ⟨before, between, after, heq⟩ := l.listing.exists_code_eq m.size d hg hsub
    exact ⟨_, _, before, between, after, entityText_of_generate hout hg hs,
      entityText_of_generate hout hg he, hcode.trans heq⟩

/-- A class before its parent and its interface, which in turn comes before its own parent. -/
def layeredText : String :=
  "package p \x7b\nclass B extends A implements I\nclass A\ninterface I extends J\n\x7d\ninterface J"

theorem layeredText_read :
    let d := (Reading.ofText layeredText).diagram
    (d.entities.map Entity.name).Nodup ∧
    (∀ r ∈ d.relationships, Diagram.isSubtyping r = true →
      ["J", "I", "A", "B"].idxOf r.target < ["J", "I", "A", "B"].idxOf r.source) ∧
    (d.classes.map fun c => (c.name, (d.parent? c).map (·.name), (d.implemented c).map (·.name))) =
      [("B", some "A", ["I"]), ("A", none, [])] ∧
    (d.groups true).map (fun g => (g.1, g.2.map Entity.name)) =
      [(some "p", ["B", "A", "I"]), (none, ["J"])] := by
  decide +kernel

theorem generate_supertypes_first_package :
    let d := (Reading.ofText layeredText).diagram
    (d.entities.map Entity.name).Nodup ∧ d.Acyclic ∧
    (d.classes.map fun c => (c.name, (d.parent? c).map (·.name), (d.implemented c).map (·.name))) =
      [("B", some "A", ["I"]), ("A", none, [])] ∧
    (d.groups true).map (fun g => (g.1, g.2.map Entity.name)) =
      [(some "p", ["B", "A", "I"]), (none, ["J"])] ∧
    ∃ arranged, Document.SameGroups arranged (d.groups Language.java.emitter.hasPackages) ∧
      ∀ g ∈ arranged, ∀ s ∈ g.2, ∀ e ∈ g.2, d.Supertype s e → List.Sublist [s, e] g.2 := by
  intro d
  obtain ⟨hnames, hrank, hclasses, hgroups⟩ := layeredText_read
  have hacyclic : d.Acyclic :=
    Diagram.acyclic_of_rank (fun name => ["J", "I", "A", "B"].idxOf name) hrank
  obtain ⟨arranged, hsame, hfirst, -, -⟩ :=
    generate_supertypes_first 100 layeredText hnames hacyclic .java { supertypesFirst := true } rfl
  exact ⟨hnames, hacyclic, hclasses, hgroups, arranged, hsame, hfirst⟩

end ClassSketch
