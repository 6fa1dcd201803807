import Mathlib.Data.List.Basic
import Mathlib.Data.List.Forall2
import ClassSketch.Proofs.Lines.Document
import ClassSketch.Proofs.Membership
import ClassSketch.Proofs.Order

/-!
# Every entity is written once

A document finds the entities of a package through the names that the package
lists, and the other entities through the names that no package lists. When
the two records of membership agree and no two entities share a name, this
comes down to the package that an entity names itself (`Diagram.groups`) : the
sections of a document are the groups, in the same order (`ofDiagram_groups`),
and the groups together hold every entity once (`perm_groups`). Putting
supertypes first reorders a section and moves nothing between sections. The
generated code is the text of these sections, one after the other
(`code_of_generate`).
-/

namespace ClassSketch

open Layout

/-! ## Groups of entities -/

namespace Diagram

/-- The entities by the package they name : a group for each package, in order, and then
those that name none. A language without packages has one group of all entities. -/
def groups (d : Diagram) (hasPackages : Bool) : List (Option String × List Entity) :=
  if hasPackages then
    d.packages.map (fun p => (some p.1, d.entities.filter fun e => e.package == some p.1)) ++
      [(none, d.grouped.filter fun e => e.package == none)]
  else [(none, d.grouped)]

/-- Grouping by kind keeps every entity. -/
theorem perm_grouped (d : Diagram) : d.grouped.Perm d.entities := by
  unfold grouped classes interfaces enums
  induction d.entities with
  | nil => exact List.Perm.refl _
  | cons e es ih =>
    cases e with
    | cls c => exact ih.cons (.cls c)
    | interface i =>
      refine List.Perm.trans ?_ (ih.cons (.interface i))
      simp only [List.filterMap_cons, Entity.class?, Entity.interface?, Entity.enum?,
        List.map_cons, List.append_assoc]
      exact List.perm_middle
    | enum n =>
      refine List.Perm.trans ?_ (ih.cons (.enum n))
      simp only [List.filterMap_cons, Entity.class?, Entity.interface?, Entity.enum?,
        List.map_cons]
      exact List.perm_middle

/-- Entities fall apart into those of distinct packages and those of none. -/
theorem perm_flatMap_filter (ps : List String) (hps : ps.Nodup) (es : List Entity)
    (hes : ∀ e ∈ es, ∀ p, e.package = some p → p ∈ ps) :
    (ps.flatMap (fun p => es.filter fun e => e.package == some p) ++
      es.filter fun e => e.package == none).Perm es := by
  induction ps generalizing es with
  | nil =>
    have hnone : ∀ e ∈ es, (e.package == none) = true := by
      intro e he
      cases hp : e.package with
      | none => rfl
      | some p => exact absurd (hes e he p hp) List.not_mem_nil
    rw [List.flatMap_nil, List.nil_append, List.filter_eq_self.2 hnone]
  | cons p ps ih =>
    obtain ⟨hp, hps⟩ := List.nodup_cons.1 hps
    have hrest := ih hps (es.filter fun e => !(e.package == some p)) fun e he q hq => by
      obtain ⟨hmem, hne⟩ := List.mem_filter.1 he
      refine (List.mem_cons.1 (hes e hmem q hq)).resolve_left ?_
      rintro rfl
      simp [hq] at hne
    -- Removing the entities of `p` changes no other group.
    have hsame : ∀ o : Option String, o ≠ some p →
        (es.filter fun e => !(e.package == some p)).filter (fun e => e.package == o) =
          es.filter fun e => e.package == o := by
      intro o ho
      rw [List.filter_filter]
      refine List.filter_congr fun e _ => ?_
      by_cases he : e.package = o
      · simp [he, ho]
      · simp [he]
    have hflat : ps.flatMap (fun q => (es.filter fun e => !(e.package == some p)).filter
        fun e => e.package == some q) = ps.flatMap fun q => es.filter fun e => e.package == some q :=
      List.flatMap_congr fun q hq => hsame (some q) fun he => hp (Option.some.inj he ▸ hq)
    rw [hflat, hsame none (by simp)] at hrest
    rw [List.flatMap_cons, List.append_assoc]
    exact (hrest.append_left _).trans (List.filter_append_perm _ es)

/-- The groups together hold every entity once. -/
theorem perm_groups {d : Diagram} (hd : d.Agrees) (hasPackages : Bool) :
    ((d.groups hasPackages).flatMap (·.2)).Perm d.entities := by
  unfold groups
  split
  · rw [List.flatMap_append, List.flatMap_map, List.flatMap_singleton]
    have hgroup := (d.perm_grouped.filter fun e => e.package == none)
    refine (hgroup.append_left _).trans ?_
    have hflat := perm_flatMap_filter (d.packages.map (·.1)) hd.nodup d.entities hd.listed
    rw [List.flatMap_map] at hflat
    exact hflat
  · rw [List.flatMap_singleton]
    exact d.perm_grouped

/-! ## Names -/

/-- Where names are distinct, looking up the name of an entity finds the entity. -/
theorem find?_name {d : Diagram} (hnames : (d.entities.map Entity.name).Nodup) {e : Entity}
    (he : e ∈ d.entities) : d.find? e.name = some e := by
  have hgrouped : (d.grouped.map Entity.name).Nodup :=
    (d.perm_grouped.map Entity.name).nodup_iff.2 hnames
  have hmem : e ∈ d.grouped := d.perm_grouped.mem_iff.2 he
  unfold find?
  generalize d.grouped = es at hgrouped hmem
  induction es with
  | nil => exact absurd hmem List.not_mem_nil
  | cons a es ih =>
    obtain ⟨ha, hes⟩ := List.nodup_cons.1 (List.map_cons ▸ hgrouped)
    rcases List.mem_cons.1 hmem with rfl | hmem
    · simp
    · have hne : ¬a.name = e.name := fun h => ha (h ▸ List.mem_map_of_mem hmem)
      rw [List.find?_cons_of_neg (by simpa using hne)]
      exact ih hes hmem

/-- The members of a package are the entities that have it, if names are distinct. -/
theorem filterMap_find?_membersOf {d : Diagram} (hnames : (d.entities.map Entity.name).Nodup)
    (p : String) : (d.membersOf p).filterMap d.find? =
      d.entities.filter fun e => e.package == some p := by
  unfold membersOf
  rw [List.filterMap_map]
  have hfind : ∀ e ∈ d.entities.filter fun e => e.package == some p,
      (d.find? ∘ Entity.name) e = some e :=
    fun e he => find?_name hnames (List.mem_filter.1 he).1
  rw [List.filterMap_congr hfind, List.filterMap_some]

/-- Where names are distinct, a package lists the name of an entity exactly if the entity
names a package. -/
theorem mem_packagedNames {d : Diagram} (hd : d.Agrees)
    (hnames : (d.entities.map Entity.name).Nodup) {e : Entity} (he : e ∈ d.entities) :
    e.name ∈ Document.packagedNames d ↔ e.package ≠ none := by
  unfold Document.packagedNames
  rw [List.mem_flatMap]
  constructor
  · rintro ⟨q, hq, hname⟩
    rw [hd.members q hq] at hname
    obtain ⟨e', he', hsame⟩ := List.mem_map.1 hname
    obtain ⟨hmem', hpackage⟩ := List.mem_filter.1 he'
    obtain rfl : e' = e := by
      have h1 := find?_name hnames hmem'
      rw [hsame, find?_name hnames he] at h1
      exact (Option.some.inj h1).symm
    simp only [beq_iff_eq] at hpackage
    simp [hpackage]
  · intro hne
    obtain ⟨p, hp⟩ := Option.ne_none_iff_exists'.1 hne
    obtain ⟨q, hq, rfl⟩ := List.mem_map.1 (hd.listed e he p hp)
    refine ⟨q, hq, ?_⟩
    rw [hd.members q hq]
    exact List.mem_map_of_mem (List.mem_filter.2 ⟨he, by simpa using hp⟩)

end Diagram

/-! ## Sections -/

namespace Document

/-- Groups of the same packages with the same entities, in any order within a group. -/
def SameGroups (gs hs : List (Option String × List Entity)) : Prop :=
  List.Forall₂ (fun g h => g.1 = h.1 ∧ g.2.Perm h.2) gs hs

/-- Arranging a group loses and repeats nothing. -/
theorem perm_arrange (d : Diagram) (supertypesFirst : Bool) (es : List Entity) :
    (arrange d supertypesFirst es).entities.Perm es := by
  unfold arrange
  split
  · exact d.perm_order es
  · exact List.Perm.refl _

/-- What is in no package has none. -/
theorem unpackaged_eq {d : Diagram} (hd : d.Agrees) (hnames : (d.entities.map Entity.name).Nodup) :
    unpackaged d = d.grouped.filter fun e => e.package == none := by
  refine List.filter_congr fun e he => ?_
  have hiff := d.mem_packagedNames hd hnames (d.perm_grouped.mem_iff.1 he)
  by_cases hp : e.package = none
  · simp [hp, hiff]
  · have hmem := hiff.2 hp
    simp [hmem, Option.isSome_iff_ne_none, hp]

/-- The sections of a document are the groups of its diagram, each in some order. -/
theorem ofDiagram_groups {d : Diagram} (hd : d.Agrees) (hnames : (d.entities.map Entity.name).Nodup)
    (hasPackages supertypesFirst : Bool) :
    SameGroups (contents (ofDiagram d hasPackages supertypesFirst)) (d.groups hasPackages) := by
  unfold ofDiagram Diagram.groups contents SameGroups
  split
  · rw [List.map_append]
    refine List.rel_append ?_ ?_
    · unfold packageSections
      rw [List.map_map, List.forall₂_map_left_iff, List.forall₂_map_right_iff, List.forall₂_same]
      intro q hq
      refine ⟨rfl, ?_⟩
      show (arrange d supertypesFirst (q.2.filterMap d.find?)).entities.Perm _
      rw [hd.members q hq, Diagram.filterMap_find?_membersOf hnames]
      exact perm_arrange d supertypesFirst _
    · refine .cons ⟨rfl, ?_⟩ .nil
      rw [← unpackaged_eq hd hnames]
      exact perm_arrange d supertypesFirst _
  · exact .cons ⟨rfl, perm_arrange d supertypesFirst _⟩ .nil

/-- Without an order by supertypes, the sections are the groups of the diagram. -/
theorem ofDiagram_groups_unordered {d : Diagram} (hd : d.Agrees)
    (hnames : (d.entities.map Entity.name).Nodup) (hasPackages : Bool) :
    contents (ofDiagram d hasPackages false) = d.groups hasPackages := by
  unfold ofDiagram Diagram.groups contents
  split
  · rw [List.map_append, ← unpackaged_eq hd hnames]
    congr 1
    unfold packageSections
    rw [List.map_map]
    refine List.map_congr_left fun q hq => ?_
    show (some q.1, q.2.filterMap d.find?) = _
    rw [hd.members q hq, Diagram.filterMap_find?_membersOf hnames]
  · rfl

end Document

/-! ## Generated code -/

/-- Code is generated if and only if the texts of all groups can be made, and then it has
them one after the other. -/
theorem generate_cases (memory : Nat) (l : Language) (options : Options) (d : Diagram) :
    let em := l.emitter
    let texts := (l.groups options d).mapM (Document.groupText em (l.margin options memory) d)
    (∀ out, generate memory l options d = .ok out →
        ∃ ts, texts = .ok ts ∧ out.code = em.header ++ String.join ts ++ em.footer d) ∧
      ∀ o, generate memory l options d = .error o → texts = .error o.fault := by
  intro em texts
  have heq : ((generate memory l options d).map Generated.code).mapError Overwide.fault =
      (do let ts ← texts; return em.header ++ String.join ts ++ em.footer d) :=
    generate_eq memory l options d
  refine ⟨fun out hout => ?_, fun o ho => ?_⟩
  · rw [hout] at heq
    cases htexts : texts with
    | error f =>
      rw [htexts] at heq
      cases heq
    | ok ts =>
      rw [htexts] at heq
      exact ⟨ts, rfl, Except.ok.inj heq⟩
  · rw [ho] at heq
    cases htexts : texts with
    | error f =>
      rw [htexts] at heq
      exact congrArg Except.error (Except.error.inj heq).symm
    | ok ts =>
      rw [htexts] at heq
      cases heq

/-- Code generated from a text whose entities have distinct names. The groups of its
diagram hold every entity once; each is of one package, in the order of the packages, the
last one of no package. The code is that of the groups one after the other, and the
entities of a group stand in some order, their own unless supertypes are to come
first. Only an indentation of impossible width keeps the code from being generated. -/
theorem generate_writes_groups (memory : Nat) (text : String)
    (hnames : ((Reading.ofText text).diagram.entities.map Entity.name).Nodup)
    (l : Language) (options : Options) :
    let d := (Reading.ofText text).diagram
    let em := l.emitter
    let m := l.margin options memory
    let gs := d.groups em.hasPackages
    (gs.flatMap (·.2)).Perm d.entities ∧
    (gs.map (·.1) = if em.hasPackages then d.packages.map (fun p => some p.1) ++ [none] else [none]) ∧
    (d.packages.map (·.1)).Nodup ∧
    (em.hasPackages = true → ∀ g ∈ gs, ∀ e ∈ g.2, e.package = g.1) ∧
    ∃ arranged, Document.SameGroups arranged gs ∧
      (options.supertypesFirst = false → arranged = gs) ∧
      (∀ out, generate memory l options d = .ok out →
        out.code = l.listing.code m.size d arranged ∧
        ∃ texts, arranged.mapM (Document.groupText em m d) = .ok texts ∧
          out.code = em.header ++ String.join texts ++ em.footer d) ∧
      ∀ o, generate memory l options d = .error o →
        arranged.mapM (Document.groupText em m d) = .error o.fault ∧
        ∃ g ∈ arranged, (l.listing.groupLines d g).Faults m o.fault := by
  intro d em m gs
  have hd : d.Agrees := agrees_ofText text
  refine ⟨Diagram.perm_groups hd _, ?_, hd.nodup, ?_, _, Document.ofDiagram_groups hd hnames _
    options.supertypesFirst, ?_,
    fun out h => ⟨code_of_generate h, (generate_cases memory l options d).1 out h⟩,
    fun o h => ⟨(generate_cases memory l options d).2 o h, fault_of_generate h⟩⟩
  · show (Diagram.groups d em.hasPackages).map (·.1) = _
    unfold Diagram.groups
    split <;> simp
  · intro hpackages g hg e he
    have hgroups : gs = d.groups true := by rw [← hpackages]
    rw [hgroups] at hg
    rcases List.mem_append.1 hg with hg | hg
    · obtain ⟨p, -, rfl⟩ := List.mem_map.1 hg
      exact eq_of_beq (List.mem_filter.1 he).2
    · rw [List.mem_singleton.1 hg] at he ⊢
      exact eq_of_beq (List.mem_filter.1 he).2
  · intro hflag
    rw [hflag]
    exact Document.ofDiagram_groups_unordered hd hnames _

/-- A package that is opened twice has one group, and its entities may change places there. -/
theorem generate_writes_groups_reopened :
    let text := "package p \x7b\nclass A extends C\n\x7d\nclass B\npackage p \x7b\nclass C\n\x7d"
    let d := (Reading.ofText text).diagram
    let em := Language.csharp.emitter
    (d.entities.map Entity.name).Nodup ∧
    (d.groups em.hasPackages).map (fun g => (g.1, g.2.map Entity.name)) =
      [(some "p", ["A", "C"]), (none, ["B"])] ∧
    ∃ arranged, Document.SameGroups arranged (d.groups em.hasPackages) ∧
      ∀ out, generate 1000 .csharp { supertypesFirst := true } d = .ok out →
        out.code = Language.csharp.listing.code em.indentSize d arranged := by
  intro text d em
  have hnames : (d.entities.map Entity.name).Nodup := by decide +kernel
  obtain ⟨-, -, -, -, arranged, hsame, -, hcode, -⟩ :=
    generate_writes_groups 1000 text hnames .csharp { supertypesFirst := true }
  exact ⟨hnames, by decide +kernel, arranged, hsame, fun out h => (hcode out h).1⟩

end ClassSketch
