import ClassSketch.Proofs.Nesting.Basic
import ClassSketch.Proofs.Sections
import ClassSketch.Proofs.Types

/-!
# Neat lines from a tidy diagram

A diagram is tidy when every text that a listing takes from it is nested : the
names of packages, the names and type parameters of entities, and all that stands
in members. A listing is tidy when its lines for a tidy diagram are neat,
package by package and entity by entity (`Listing.Tidy`). Then every document is
neat, whatever its order, and the generated code is nested (`nested_of_generate`).
Neat lines are moved in level by level, so code is generated whenever one level
is of a possible width (`exists_generate`).
-/

namespace ClassSketch

open Text Layout

/-! ## Tidy diagrams -/

/-- A type, if there is one, without braces in its names. -/
def TypeExpr.Tidy (type : Option TypeExpr) : Prop :=
  ∀ t ∈ type, t.Named Unbraced

theorem TypeExpr.tidy_none : TypeExpr.Tidy none :=
  nofun

structure Parameter.Tidy (p : Parameter) : Prop where
  name : Nested p.name
  type : TypeExpr.Tidy p.type

structure Attribute.Tidy (a : Attribute) : Prop where
  name : Nested a.name
  type : TypeExpr.Tidy a.type

structure Method.Tidy (m : Method) : Prop where
  name : Nested m.name
  returns : TypeExpr.Tidy m.returns
  parameters : ∀ p ∈ m.parameters, p.Tidy

structure ClassDecl.Tidy (c : ClassDecl) : Prop where
  name : Nested c.name
  generics : ∀ g ∈ c.generics, Nested g
  attributes : ∀ a ∈ c.attributes, a.Tidy
  constructors : ∀ m ∈ c.constructors, m.Tidy
  methods : ∀ m ∈ c.methods, m.Tidy

structure InterfaceDecl.Tidy (i : InterfaceDecl) : Prop where
  name : Nested i.name
  generics : ∀ g ∈ i.generics, Nested g
  methods : ∀ m ∈ i.methods, m.Tidy

structure EnumDecl.Tidy (e : EnumDecl) : Prop where
  name : Nested e.name
  values : ∀ v ∈ e.values, Nested v

def Entity.Tidy : Entity → Prop
  | .cls c => c.Tidy
  | .interface i => i.Tidy
  | .enum e => e.Tidy

theorem Entity.Tidy.name {e : Entity} (h : e.Tidy) : Nested e.name := by
  cases e with
  | cls c => exact ClassDecl.Tidy.name h
  | interface i => exact InterfaceDecl.Tidy.name h
  | enum e => exact EnumDecl.Tidy.name h

structure Diagram.Tidy (d : Diagram) : Prop where
  entities : ∀ e ∈ d.entities, e.Tidy
  packages : ∀ p ∈ d.packages.map (·.1), Nested p

namespace Diagram.Tidy

variable {d : Diagram} (h : d.Tidy)

include h

/-- The name of a parent is nested, as it is that of an entity. -/
theorem parent {c p : ClassDecl} (hp : d.parent? c = some p) : Nested p.name := by
  obtain ⟨r, -, hfind⟩ := Option.bind_eq_some_iff.1 hp
  obtain ⟨e, he, hclass⟩ := List.mem_filterMap.1 (List.mem_of_find?_eq_some hfind)
  cases e with
  | cls c' =>
    cases hclass
    exact (h.entities _ he).name
  | interface i => cases hclass
  | enum e => cases hclass

theorem interfacesVia {kind : RelationKind} {source : String} :
    ∀ i ∈ d.interfacesVia kind source, Nested i.name := by
  intro i hi
  obtain ⟨target, -, hfind⟩ := List.mem_filterMap.1 hi
  have hmem := List.mem_reverse.1 (List.mem_of_find?_eq_some hfind)
  obtain ⟨e, he, hinterface⟩ := List.mem_filterMap.1 hmem
  cases e with
  | cls c => cases hinterface
  | interface i' =>
    cases hinterface
    exact (h.entities _ he).name
  | enum e => cases hinterface

end Diagram.Tidy

/-! ## Types and members -/

namespace Target

open TypeExpr (Named)

/-- A type is written without braces if its names have none. -/
theorem nested_render {t : TypeExpr} (h : t.Named Unbraced) : Nested t.render :=
  .of_unbraced (TypeExpr.forall_mem_chars (forall_mem_of_all rfl) h)

/-- Names of types that bring no brace into the name of a tidy type. -/
structure TypeNames.Tidy (names : TypeNames) : Prop where
  absent : Nested names.absent
  plain : ∀ p ∈ names.plain, Nested p.2
  containers : ∀ p ∈ names.containers, Nested p.2
  applied : ∀ written container n, Nested written → (∀ c ∈ container, Nested c) →
    Nested (names.applied written container n)

theorem nested_of_lookup {table : List (String × String)} (h : ∀ p ∈ table, Nested p.2)
    {key value : String} (hlookup : table.lookup key = some value) : Nested value := by
  obtain ⟨l, r, rfl, -⟩ := List.lookup_eq_some_iff.1 hlookup
  exact h (key, value) (by simp)

/-- The name for a type in the target is nested. -/
theorem TypeNames.Tidy.name {names : TypeNames} (h : names.Tidy) {type : Option TypeExpr}
    (ht : TypeExpr.Tidy type) : Nested (names.name type) := by
  cases type with
  | none => exact h.absent
  | some t =>
    obtain ⟨name, args⟩ := t
    obtain ⟨hname, -⟩ := ht _ rfl
    have hwritten : Nested name := hname.nesting_eq 0
    simp only [TypeNames.name]
    split
    · exact h.applied _ _ _ hwritten fun c hc => nested_of_lookup h.containers hc
    · cases hplain : names.plain.lookup (foldKey name.toList) with
      | none => exact hwritten
      | some value => exact nested_of_lookup h.plain hplain

theorem nested_angled {filler : String} (hfiller : Nested filler) (written : String)
    (container : Option String) (n : Nat) (hwritten : Nested written)
    (hcontainer : ∀ c ∈ container, Nested c) : Nested (angled filler written container n) := by
  have hhead : Nested (container.getD written) := by
    cases container with
    | none => exact hwritten
    | some c => exact hcontainer c rfl
  have hargs : Nested (commas (List.replicate n filler)) :=
    nested_commas fun w hw => List.eq_of_mem_replicate hw ▸ hfiller
  exact ((hhead.append (.literal rfl)).append hargs).append (.literal rfl)

theorem nested_call {name args : String} (hname : Nested name) (hargs : Nested args) :
    Nested (name ++ "(" ++ args ++ ")") :=
  ((hname.append (.literal rfl)).append hargs).append (.literal rfl)

/-- A list of names after a word, nothing if there are none. -/
theorem nested_clause {p : Prop} [Decidable p] {word : String} (hword : Nested word)
    {names : List String} (h : ∀ n ∈ names, Nested n) :
    Nested (if p then "" else word ++ commas names) :=
  .ite (.literal rfl) (hword.append (nested_commas h))

/-- A text that only stands under a condition. -/
theorem nested_optional {p : Prop} [Decidable p] {s : String} (h : Nested s) :
    ∀ t ∈ (if p then [s] else []), Nested t := by
  split
  · exact List.forall_mem_singleton.2 h
  · exact List.forall_mem_nil _

theorem nested_return {value : String} (h : Nested value) : Nested ("return " ++ value ++ ";") :=
  .append (.append (.literal rfl) h) (.literal rfl)

theorem tidy_defaultConstructor {c : ClassDecl} (h : c.Tidy) : (defaultConstructor c).Tidy where
  name := h.name
  returns := TypeExpr.tidy_none
  parameters := List.forall_mem_nil _

/-- A default constructor has nothing in it that could have a brace. -/
theorem tidy_constructors {c : ClassDecl} (h : c.Tidy) : ∀ m ∈ constructors c, m.Tidy := by
  unfold constructors
  split
  · exact List.forall_mem_singleton.2 (tidy_defaultConstructor h)
  · exact h.constructors

/-- Merged parameters are parameters of some constructor. -/
theorem tidy_mergedParameters {ms : List Method} (h : ∀ m ∈ ms, m.Tidy) :
    ∀ p ∈ mergedParameters ms, p.Tidy := by
  have hall : ∀ p ∈ ms.flatMap (·.parameters), p.Tidy := by
    intro p hp
    obtain ⟨m, hm, hp⟩ := List.mem_flatMap.1 hp
    exact (h m hm).parameters p hp
  unfold mergedParameters
  refine List.foldlRecOn (motive := fun ps : List Parameter => ∀ p ∈ ps, p.Tidy) _ _
    (List.forall_mem_nil _) ?_
  intro ps hps p hp
  split
  · exact hps
  · exact List.forall_mem_append.2 ⟨hps, List.forall_mem_singleton.2 (hall p hp)⟩

end Target

/-! ## Documents -/

/-- A listing that writes neat lines for a tidy diagram. -/
structure Listing.Tidy (li : Listing) : Prop where
  header : Neat li.header
  footer : ∀ d : Diagram, d.Tidy → Neat (li.footer d)
  package : ∀ name body, Nested name → Neat body →
    Neat (li.packageStart name ++ body ++ li.packageEnd name)
  classLines : ∀ (d : Diagram) (c : ClassDecl), d.Tidy → c.Tidy → Neat (li.classLines d c)
  interfaceLines : ∀ (d : Diagram) (i : InterfaceDecl), d.Tidy → i.Tidy →
    Neat (li.interfaceLines d i)
  enumLines : ∀ (d : Diagram) (e : EnumDecl), e.Tidy → Neat (li.enumLines d e)

/-- A document has only packages and entities of its diagram. -/
theorem Document.mem_ofDiagram {d : Diagram} {hasPackages supertypesFirst : Bool} {s : Section}
    (hs : s ∈ ofDiagram d hasPackages supertypesFirst) :
    (∀ p ∈ s.package, p ∈ d.packages.map (·.1)) ∧ ∀ e ∈ s.content.entities, e ∈ d.entities := by
  have harrange : ∀ es : List Entity, (∀ e ∈ es, e ∈ d.entities) →
      ∀ e ∈ (arrange d supertypesFirst es).entities, e ∈ d.entities :=
    fun es hes e he => hes e ((perm_arrange d supertypesFirst es).mem_iff.1 he)
  have hgrouped : ∀ e ∈ d.grouped, e ∈ d.entities := fun e => d.perm_grouped.mem_iff.1
  unfold ofDiagram at hs
  split at hs
  · rcases List.mem_append.1 hs with hs | hs
    · obtain ⟨p, hp, rfl⟩ := List.mem_map.1 hs
      refine ⟨fun _ hname => Option.mem_some.1 hname ▸ List.mem_map_of_mem hp, harrange _ ?_⟩
      intro e he
      obtain ⟨name, -, hfind⟩ := List.mem_filterMap.1 he
      exact hgrouped e (List.mem_of_find?_eq_some hfind)
    · obtain rfl := List.mem_singleton.1 hs
      exact ⟨nofun, harrange _ fun e he => hgrouped e (List.mem_filter.1 he).1⟩
  · obtain rfl := List.mem_singleton.1 hs
    exact ⟨nofun, harrange _ hgrouped⟩

section Document

variable {li : Listing} {d : Diagram}

/-- The lines of an entity are neat. -/
theorem Listing.Tidy.entityLines (hli : li.Tidy) (hd : d.Tidy) {e : Entity} (he : e.Tidy) :
    Neat (li.entityLines d e) := by
  cases e with
  | cls c => exact hli.classLines d c hd he
  | interface i => exact hli.interfaceLines d i hd he
  | enum e => exact hli.enumLines d e he

/-- So are those of a package around its entities. -/
theorem Listing.Tidy.groupLines (hli : li.Tidy) (hd : d.Tidy) {g : Option String × List Entity}
    (hname : ∀ p ∈ g.1, p ∈ d.packages.map (·.1)) (hentities : ∀ e ∈ g.2, e ∈ d.entities) :
    Neat (li.groupLines d g) := by
  have hbody : Neat (g.2.flatMap (li.entityLines d)) :=
    .flatMap fun e he => hli.entityLines hd (hd.entities e (hentities e he))
  obtain ⟨name, es⟩ := g
  cases name with
  | none => exact (Neat.nil.append hbody).append .nil
  | some p => exact hli.package p _ (hd.packages p (hname p rfl)) hbody

/-- The lines of a document from a tidy diagram are neat. -/
theorem Listing.Tidy.lines (hli : li.Tidy) (hd : d.Tidy) (hasPackages supertypesFirst : Bool) :
    Neat (li.lines d (Document.contents (Document.ofDiagram d hasPackages supertypesFirst))) := by
  refine (hli.header.append (.flatMap fun g hg => ?_)).append (hli.footer d hd)
  obtain ⟨s, hs, rfl⟩ := List.mem_map.1 hg
  obtain ⟨hname, hentities⟩ := Document.mem_ofDiagram hs
  exact hli.groupLines hd hname hentities

end Document

section Generate

variable {memory : Nat} {l : Language} {options : Options} {d : Diagram}

/-- And those of the whole listing, with any margin. -/
theorem nested_of_generate (hli : l.listing.Tidy) (hd : d.Tidy) {out : Generated}
    (h : generate memory l options d = .ok out) : Nested out.code := by
  have hlines := hli.lines hd l.emitter.hasPackages options.supertypesFirst
  rw [Nested, code_of_generate h, ← Listing.render_lines, nesting_render]
  exact hlines.nesting_eq

/-- Neat lines are written whenever one level is of a possible width. -/
theorem exists_generate (hli : l.listing.Tidy) (hd : d.Tidy)
    (hwidth : widthFault? memory (options.indentSize.getD l.emitter.indentSize) = none) :
    ∃ out, generate memory l options d = .ok out := by
  cases hgenerate : generate memory l options d with
  | ok out => exact ⟨out, rfl⟩
  | error o =>
    obtain ⟨g, hg, line, hline, n, hn, hfault⟩ := fault_of_generate hgenerate
    obtain ⟨s, hs, rfl⟩ := List.mem_map.1 hg
    obtain ⟨hname, hentities⟩ := Document.mem_ofDiagram hs
    have hstep := (hli.groupLines hd hname hentities).step_le line hline n hn
    have hnone : (l.margin options memory).fault? n = none := by
      rcases Nat.le_one_iff_eq_zero_or_eq_one.1 hstep with rfl | rfl
      · exact Margin.fault?_zero _
      · rw [Margin.fault?, Int.natCast_one, Int.one_mul]
        exact hwidth
    cases hnone.symm.trans hfault

end Generate

end ClassSketch
