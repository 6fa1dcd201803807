import ClassSketch.Proofs.Rules

/-!
# The two records of package membership

An entity names its package, and a package lists the names of its members.
The reader writes both records, the first when it makes the entity and the
second when it registers it. `Diagram.Agrees` says that they tell the same
story : every package is listed once, an entity's package is listed, and a
package lists the names of the entities that name it, in the order of their
declaration.

Every rule of the reader keeps this (`agrees_step`), so it holds of every
diagram that is read from a text, however broken (`agrees_ofText`). Seen by
kinds, the list of a package interleaves its classes, its interfaces and its
enums (`interleaving_membersOf`).
-/

namespace ClassSketch

open Source

/-! ## Packages -/

namespace Packages

/-- A listed package stays, a new one is listed without members. -/
theorem mem_ensure {ps : Packages} {package : String} {q : String × List String} :
    q ∈ ps.ensure package ↔ q ∈ ps ∨ q = (package, []) ∧ package ∉ ps.map (·.1) := by
  simp only [ensure, any_key_iff]
  split
  · next hk => simp [hk]
  · next hk => simp [hk]

/-- The lists of other packages stay, and that of `package` grows at its end. -/
theorem mem_add {ps : Packages} {package : String} {names : List String}
    {q : String × List String} (h : q ∈ ps.add package names) :
    (q.1 ≠ package ∧ q ∈ ps) ∨
      ∃ old, q = (package, old ++ names) ∧ (package, old) ∈ ps.ensure package := by
  obtain ⟨p, hp, rfl⟩ := List.mem_map.1 h
  by_cases hk : p.1 = package
  · rw [if_pos hk]
    have hpair : p = (package, p.2) := Prod.ext hk rfl
    exact Or.inr ⟨p.2, by rw [hk], hpair ▸ hp⟩
  · rw [if_neg hk]
    rcases mem_ensure.1 hp with hm | ⟨rfl, -⟩
    · exact Or.inl ⟨hk, hm⟩
    · exact absurd rfl hk

/-- No package is listed twice. -/
theorem nodup_keys_ensure {ps : Packages} (package : String) (h : (ps.map (·.1)).Nodup) :
    ((ps.ensure package).map (·.1)).Nodup := by
  rw [ensure_keys]
  split
  · exact h
  · next hk =>
    refine List.nodup_append.2 ⟨h, by simp, ?_⟩
    intro a ha b hb
    rw [List.mem_singleton.1 hb]
    exact fun he => hk (he ▸ ha)

/-- A package is listed after it was ensured, and all others as before. -/
theorem mem_keys_ensure {ps : Packages} {package p : String} :
    p ∈ (ps.ensure package).map (·.1) ↔ p ∈ ps.map (·.1) ∨ p = package := by
  rw [ensure_keys]
  split
  · next hk => exact ⟨Or.inl, fun h => h.elim id fun he => he ▸ hk⟩
  · simp

end Packages

/-! ## Agreement -/

namespace Diagram

/-- The names of the entities that name a package, in the order of declaration. -/
def membersOf (d : Diagram) (package : String) : List String :=
  (d.entities.filter fun e => e.package == some package).map Entity.name

/-- Entities and packages tell the same story. -/
structure Agrees (d : Diagram) : Prop where
  nodup : (d.packages.map (·.1)).Nodup
  listed : ∀ e ∈ d.entities, ∀ p, e.package = some p → p ∈ d.packages.map (·.1)
  members : ∀ q ∈ d.packages, q.2 = d.membersOf q.1

/-- No entity names a package that is not listed. -/
theorem Agrees.membersOf_eq_nil {d : Diagram} (h : d.Agrees) {p : String}
    (hp : p ∉ d.packages.map (·.1)) : d.membersOf p = [] := by
  have hnone : ∀ e ∈ d.entities, ¬(e.package == some p) = true := by
    intro e he hpack
    exact hp (h.listed e he p (by simpa using hpack))
  rw [membersOf, List.filter_eq_nil_iff.2 hnone, List.map_nil]

/-- Agreement about a package that is to be listed. -/
theorem Agrees.members_ensure {d : Diagram} (h : d.Agrees) {package : String}
    {q : String × List String} (hq : q ∈ d.packages.ensure package) : q.2 = d.membersOf q.1 := by
  rcases Packages.mem_ensure.1 hq with hm | ⟨rfl, hp⟩
  · exact h.members q hm
  · exact (h.membersOf_eq_nil hp).symm

/-- A new package has no members yet. -/
theorem Agrees.ensure {d : Diagram} (h : d.Agrees) (package : String) :
    Agrees { d with packages := d.packages.ensure package } where
  nodup := Packages.nodup_keys_ensure package h.nodup
  listed e he p hp := Packages.mem_keys_ensure.2 (Or.inl (h.listed e he p hp))
  members _ hq := h.members_ensure hq

theorem Agrees.relate {d : Diagram} (h : d.Agrees) (rs : List Relationship) :
    (d.relate rs).Agrees :=
  ⟨h.nodup, h.listed, h.members⟩

/-- Agreement only looks at the packages and names of the entities. -/
theorem Agrees.congr {d d' : Diagram} (h : d.Agrees) (hp : d'.packages = d.packages)
    (he : d'.entities.map (fun e => (e.package, e.name)) =
      d.entities.map fun e => (e.package, e.name)) : d'.Agrees := by
  have hof : ∀ (c : Diagram) (p : String), c.membersOf p =
      ((c.entities.map fun e => (e.package, e.name)).filter (·.1 == some p)).map (·.2) := by
    intro c p
    rw [membersOf, List.filter_map, List.map_map]
    rfl
  refine ⟨by rw [hp]; exact h.nodup, ?_, ?_⟩
  · intro e hmem p hpack
    have hpair : (e.package, e.name) ∈ d.entities.map fun e => (e.package, e.name) := by
      rw [← he]
      exact List.mem_map_of_mem hmem
    obtain ⟨e₀, hmem₀, heq⟩ := List.mem_map.1 hpair
    rw [hp]
    exact h.listed e₀ hmem₀ p ((Prod.mk.inj heq).1.trans hpack)
  · intro q hq
    rw [hp] at hq
    rw [h.members q hq, hof, hof, he]

end Diagram

/-! ## Steps of the reader -/

namespace Source

@[simp] theorem EntityHeader.package_entity (h : EntityHeader) (package : Option String) :
    (h.entity package).package = package := by
  unfold EntityHeader.entity
  cases h.kind <;> rfl

@[simp] theorem EntityHeader.name_entity (h : EntityHeader) (package : Option String) :
    (h.entity package).name = String.ofList h.name := by
  unfold EntityHeader.entity
  cases h.kind <;> rfl

end Source

/-- A member changes neither the package nor the name of its entity. -/
theorem Entity.attach_place {e e' : Entity} {d : Member.Declaration} {taken : Bool}
    (h : e.attach d = (taken, e')) : e'.package = e.package ∧ e'.name = e.name := by
  rcases attach_cases h with ⟨c, c', rfl, rfl, hc⟩ | ⟨i, i', rfl, rfl, hi⟩ | ⟨en, rfl, rfl, -⟩
  · unfold ClassDecl.attach at hc
    split at hc <;> cases hc <;> exact ⟨rfl, rfl⟩
  · unfold InterfaceDecl.attach at hi
    split at hi <;> cases hi <;> exact ⟨rfl, rfl⟩
  · exact ⟨rfl, rfl⟩

namespace Source.Reader

theorem bodyLine_place {e e' : Entity} {text : List Char} (h : bodyLine e text = (none, e')) :
    e'.package = e.package ∧ e'.name = e.name := by
  rcases bodyLine_none h with hoffer | ⟨en, vs, rfl, -, rfl⟩
  · obtain ⟨d, -, hattach⟩ := Entity.exists_of_offer_true hoffer
    exact Entity.attach_place hattach
  · exact ⟨rfl, rfl⟩

/-- A new entity is listed in its package, at the end. -/
theorem agrees_register {d : Diagram} (hd : d.Agrees) (h : EntityHeader)
    (package : Option String) : (register d h package).Agrees := by
  have hfilter : ∀ p, (register d h package).membersOf p =
      d.membersOf p ++ if package = some p then [String.ofList h.name] else [] := by
    intro p
    simp only [Diagram.membersOf, register, List.filter_append, List.map_append]
    by_cases hp : package = some p <;> simp [hp]
  cases package with
  | none =>
    refine ⟨hd.nodup, ?_, ?_⟩
    · intro e he p hp
      rcases List.mem_append.1 he with he | he
      · exact hd.listed e he p hp
      · rw [List.mem_singleton.1 he] at hp
        simp at hp
    · intro q hq
      rw [hfilter, hd.members q hq]
      simp
  | some package =>
    have hkeys : (register d h (some package)).packages.map (·.1) =
        (d.packages.ensure package).map (·.1) := Packages.add_keys _ _ _
    refine ⟨by rw [hkeys]; exact Packages.nodup_keys_ensure package hd.nodup, ?_, ?_⟩
    · intro e he p hp
      rw [hkeys, Packages.mem_keys_ensure]
      rcases List.mem_append.1 he with he | he
      · exact Or.inl (hd.listed e he p hp)
      · rw [List.mem_singleton.1 he, EntityHeader.package_entity] at hp
        exact Or.inr (Option.some.inj hp).symm
    · intro q hq
      rw [hfilter]
      rcases Packages.mem_add hq with ⟨hne, hm⟩ | ⟨old, rfl, hold⟩
      · rw [if_neg fun he => hne (Option.some.inj he).symm, List.append_nil]
        exact hd.members q hm
      · rw [if_pos rfl, ← hd.members_ensure hold]

/-- No rule makes the two records disagree. -/
theorem Rule.agrees {r r' : Reader} {line : List Char} {reason : Option SkipReason}
    (h : Rule r line r' reason) (hr : r.diagram.Agrees) : r'.diagram.Agrees := by
  cases h with
  | openEntity => exact hr
  | openPackage => exact hr
  | package hread => exact hr.ensure _
  | unbalanced => exact hr
  | closeBlock => exact hr
  | header => exact agrees_register hr _ _
  | closeBody => exact hr
  | bodyBrace => rwa [diagram_deepen]
  | rejected => rwa [diagram_deepen]
  | @accepted n e e' _ _ _ hget hbody =>
    obtain ⟨hpackage, hname⟩ := bodyLine_place hbody
    obtain ⟨hn, rfl⟩ := List.getElem?_eq_some_iff.1 hget
    refine hr.congr rfl ?_
    have hlt : n < (r.diagram.entities.map fun e => (e.package, e.name)).length := by
      simpa using hn
    have hsame : (e'.package, e'.name) =
        (r.diagram.entities.map fun e => (e.package, e.name))[n] := by
      rw [List.getElem_map, hpackage, hname]
    rw [List.map_set, hsame, List.set_getElem_self]
  | relationship => exact hr.relate _
  | unsupported => exact hr
  | unrecognized => exact hr

/-- Every step keeps the two records of membership in agreement. -/
theorem agrees_step (r : Reader) (line : List Char) (hcursor : r.cursor.Aligned)
    (hr : r.diagram.Agrees) : (r.step line).1.diagram.Agrees :=
  (rule_step hcursor line).agrees hr

end Source.Reader

/-! ## Kinds -/

/-- A list that merges three lists, each in its order. -/
inductive Interleaving {α : Type} : List α → List α → List α → List α → Prop where
  | nil : Interleaving [] [] [] []
  | first {a : α} {as bs cs l : List α} (h : Interleaving as bs cs l) :
      Interleaving (a :: as) bs cs (a :: l)
  | second {b : α} {as bs cs l : List α} (h : Interleaving as bs cs l) :
      Interleaving as (b :: bs) cs (b :: l)
  | third {c : α} {as bs cs l : List α} (h : Interleaving as bs cs l) :
      Interleaving as bs (c :: cs) (c :: l)

/-- The members of a package interleave its classes, its interfaces and its enums. -/
theorem interleaving_membersOf (d : Diagram) (p : String) :
    Interleaving ((d.classes.filter fun c => c.package == some p).map ClassDecl.name)
      ((d.interfaces.filter fun i => i.package == some p).map InterfaceDecl.name)
      ((d.enums.filter fun e => e.package == some p).map EnumDecl.name) (d.membersOf p) := by
  unfold Diagram.classes Diagram.interfaces Diagram.enums Diagram.membersOf
  induction d.entities with
  | nil => exact .nil
  | cons e es ih =>
    by_cases hp : e.package = some p
    · have hname : ((e :: es).filter fun e => e.package == some p).map Entity.name =
          e.name :: (es.filter fun e => e.package == some p).map Entity.name := by
        simp [hp]
      rw [hname]
      cases e with
      | cls c => simpa [List.filterMap_cons, Entity.class?, Entity.interface?, Entity.enum?,
          Entity.name, show c.package = some p from hp] using ih.first
      | interface i => simpa [List.filterMap_cons, Entity.class?, Entity.interface?, Entity.enum?,
          Entity.name, show i.package = some p from hp] using ih.second
      | enum n => simpa [List.filterMap_cons, Entity.class?, Entity.interface?, Entity.enum?,
          Entity.name, show n.package = some p from hp] using ih.third
    · have hname : ((e :: es).filter fun e => e.package == some p).map Entity.name =
          (es.filter fun e => e.package == some p).map Entity.name := by
        simp [hp]
      rw [hname]
      cases e with
      | cls c => simpa [List.filterMap_cons, Entity.class?, Entity.interface?, Entity.enum?,
          show ¬c.package = some p from hp] using ih
      | interface i => simpa [List.filterMap_cons, Entity.class?, Entity.interface?, Entity.enum?,
          show ¬i.package = some p from hp] using ih
      | enum n => simpa [List.filterMap_cons, Entity.class?, Entity.interface?, Entity.enum?,
          show ¬n.package = some p from hp] using ih

/-- The records of package membership agree in every diagram read from a text. -/
theorem agrees_ofText (text : String) : (Reading.ofText text).diagram.Agrees :=
  Reader.run_invariant Reader.agrees_step (r := {}) rfl ⟨by simp, by simp, by simp⟩ _

/-- In every diagram read from a text, packages are listed once, each lists its classes,
interfaces and enums in an interleaving of their declaration orders, and the package of
an entity is listed. -/
theorem packages_interleave_kinds (text : String) :
    ((Reading.ofText text).diagram.packages.map (·.1)).Nodup ∧
    (∀ p names, (p, names) ∈ (Reading.ofText text).diagram.packages →
      Interleaving
        (((Reading.ofText text).diagram.classes.filter fun c => c.package == some p).map
          ClassDecl.name)
        (((Reading.ofText text).diagram.interfaces.filter fun i => i.package == some p).map
          InterfaceDecl.name)
        (((Reading.ofText text).diagram.enums.filter fun e => e.package == some p).map
          EnumDecl.name) names) ∧
    ∀ e ∈ (Reading.ofText text).diagram.entities,
      e.package = none ∨ ∃ p ∈ (Reading.ofText text).diagram.packages.map (·.1),
        e.package = some p := by
  have hd := agrees_ofText text
  refine ⟨hd.nodup, ?_, ?_⟩
  · intro p names hp
    have hnames : names = (Reading.ofText text).diagram.membersOf p := hd.members _ hp
    rw [hnames]
    exact interleaving_membersOf _ p
  · intro e he
    cases hpackage : e.package with
    | none => exact Or.inl rfl
    | some p => exact Or.inr ⟨p, hd.listed e he p hpackage, rfl⟩

end ClassSketch
