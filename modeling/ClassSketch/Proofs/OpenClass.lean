import ClassSketch.Proofs.Blocks.Reading
import ClassSketch.Proofs.Supertypes
import ClassSketch.Proofs.WellFormed.Reading

/-!
# Kotlin classes that may be inherited from

A Kotlin class is final unless it is declared `open` or `abstract`. The parent in
the head of a class is found by the first inheritance relationship of the class
(`Diagram.parent?`), and whether a class is open by all inheritance relationships
that lead to it from another name (`Diagram.hasSubclasses`).

The relationship that gives a class its parent therefore opens the parent
(`hasSubclasses_of_parent?`), and all classes are in the code under the head that
`Kotlin.header` says (`Kotlin.infix_opening`). Only a class that is its own parent
may be final (`superclass_open`).
-/

namespace ClassSketch

open Text Layout

/-! ## Parents and subclasses -/

namespace Diagram

variable {d : Diagram} {c p : ClassDecl}

/-- A class has subclasses if another name inherits from it. -/
theorem hasSubclasses_iff (d : Diagram) (c : ClassDecl) : d.hasSubclasses c = true ↔
    ∃ r ∈ d.relationships, r.kind = .inheritance ∧ r.target = c.name ∧ r.source ≠ c.name := by
  simp [hasSubclasses, and_assoc]

/-- So a parent of another class has one. -/
theorem hasSubclasses_of_parent? (h : d.parent? c = some p) (hne : p.name ≠ c.name) :
    d.hasSubclasses p = true := by
  obtain ⟨-, r, hr, hkind, hsource, htarget⟩ := exists_of_parent? h
  exact (hasSubclasses_iff d p).2 ⟨r, hr, hkind, htarget, hsource.trans_ne hne.symm⟩

end Diagram

/-! ## Entities in generated code -/

theorem Layout.Lines.infix_flush_flatMap {α : Type} (f : α → Lines) {as : List α} {a : α}
    (h : a ∈ as) : (f a).flush <:+: flush (as.flatMap f) := by
  obtain ⟨before, after, rfl⟩ := List.append_of_mem h
  rw [List.flatMap_append, List.flatMap_cons, flush_append, flush_append, ← List.append_assoc]
  exact List.infix_append _ _ _

namespace Document

/-- The groups have the same entities, in some order. -/
theorem SameGroups.exists_perm {gs hs : List (Option String × List Entity)} (h : SameGroups gs hs)
    {group : Option String × List Entity} (hgroup : group ∈ hs) : ∃ g ∈ gs, g.2.Perm group.2 := by
  induction h with
  | nil => cases hgroup
  | cons hsame _ ih =>
    rcases List.mem_cons.1 hgroup with rfl | hgroup
    · exact ⟨_, List.mem_cons_self, hsame.2⟩
    · obtain ⟨g, hg, hperm⟩ := ih hgroup
      exact ⟨g, List.mem_cons_of_mem _ hg, hperm⟩

/-- Where names are distinct, every entity is in some section. -/
theorem exists_section {d : Diagram} (hd : d.Agrees) (hnames : (d.entities.map Entity.name).Nodup)
    {e : Entity} (he : e ∈ d.entities) (hasPackages supertypesFirst : Bool) :
    ∃ s ∈ ofDiagram d hasPackages supertypesFirst, e ∈ s.content.entities := by
  have hgroups := (Diagram.perm_groups hd hasPackages).mem_iff.2 he
  obtain ⟨group, hgroup, hmem⟩ := List.mem_flatMap.1 hgroups
  obtain ⟨g, hg, hperm⟩ :=
    (ofDiagram_groups hd hnames hasPackages supertypesFirst).exists_perm hgroup
  obtain ⟨s, hs, rfl⟩ := List.mem_map.1 hg
  exact ⟨s, hs, hperm.mem_iff.2 hmem⟩

end Document

/-- The lines of an entity stand in those of its diagram. -/
theorem Listing.infix_entityLines (li : Listing) (d : Diagram)
    {gs : List (Option String × List Entity)} {g : Option String × List Entity} (hg : g ∈ gs)
    {e : Entity} (he : e ∈ g.2) :
    (li.entityLines d e).flush <:+: (li.lines d gs).flush := by
  have hgroup : (li.entityLines d e).flush <:+: (li.groupLines d g).flush :=
    Target.infix_surround _ (Lines.infix_flush_flatMap _ he) _
  exact Target.infix_surround _ (hgroup.trans (Lines.infix_flush_flatMap _ hg)) _

/-- Generated code has the lines of every entity. -/
theorem infix_entityLines_of_generate {memory : Nat} {l : Language} {options : Options}
    {d : Diagram} (hd : d.Agrees) (hnames : (d.entities.map Entity.name).Nodup) {out : Generated}
    (h : generate memory l options d = .ok out) {e : Entity} (he : e ∈ d.entities) :
    (l.listing.entityLines d e).flush <:+: flushLines out.code := by
  obtain ⟨s, hs, hmem⟩ := Document.exists_section hd hnames he l.emitter.hasPackages
    options.supertypesFirst
  have hg : (s.package, s.content.entities) ∈ l.groups options d := List.mem_map_of_mem hs
  rw [flushLines_of_generate h]
  exact (l.listing.infix_entityLines d hg hmem).trans (List.prefix_append _ _).isInfix

/-! ## Heads of classes -/

namespace Target

theorem flush_starComment {text : String} (h : '\n' ∉ text.toList) :
    (starComment [text]).flush = ["/**", "* " ++ text, "*/"] := by
  have hline : FlushLine ("* " ++ text) := .append (by decide) h
  have hspace : " * " ++ text = spaces 1 ++ ("* " ++ text) := by
    rw [← String.append_assoc]
    rfl
  have htext : flushLines (" * " ++ text) = ["* " ++ text] := by
    rw [hspace, flushLines_spaces, hline.flushLines_eq]
  have hopen : flushLines "/**" = ["/**"] := by decide +kernel
  have hclose : flushLines " */" = ["*/"] := by decide +kernel
  simp [starComment, htext, hopen, hclose]

theorem prefix_braced (head : String) (body : Lines) :
    flushLines (head ++ " " ++ openBrace) <+: (braced head body).flush := by
  rw [braced, Lines.flush_append, Lines.flush_append, Lines.flush_ofText, List.append_assoc]
  exact List.prefix_append _ _

namespace Kotlin

/-- The line that opens a class, with a modifier and supertypes. -/
def header (modifier : String) (c : ClassDecl) (supers : List String) : String :=
  modifier ++ "class " ++ c.name ++ typeParams c.generics ++
    (if supers.isEmpty then "" else " : " ++ commas supers) ++ " " ++ openBrace

/-- A class up to its opening brace, leading spaces aside. -/
def opening (modifier : String) (c : ClassDecl) (supers : List String) : List String :=
  ["/**", "* " ++ c.name ++ " class", "*/", header modifier c supers]

variable {d : Diagram} {c p : ClassDecl}

/-- No supertype has a line feed in it. -/
theorem not_mem_supertypes (hd : d.WellFormed) (c : ClassDecl) :
    ∀ w ∈ supertypes d c, '\n' ∉ w.toList := by
  have hfeed : ∀ {s : String}, isWordText s.toList = true → '\n' ∉ s.toList :=
    fun h => (FlushLine.of_isWordText h).feed
  refine List.forall_mem_append.2 ⟨fun w hw => ?_, List.forall_mem_map.2 fun i hi => ?_⟩
  · obtain ⟨p, hp, rfl⟩ := Option.map_eq_some_iff.1 (Option.mem_toList.1 hw)
    have hname := hfeed (hd.parent hp)
    exact not_mem_ite (not_mem_append hname (by decide)) hname
  · exact hfeed (hd.interfacesVia i hi)

/-- The head of a class is one line, without a margin of its own. -/
theorem flushLine_header (hd : d.WellFormed) (hc : c.WellFormed) (hunbroken : c.Unbroken) :
    FlushLine (header (inheritance d c) c (supertypes d c)) := by
  have hmodifier : Flush (inheritance d c).toList := by
    unfold inheritance
    split
    · decide
    · split <;> decide
  have hclass : FlushLine (inheritance d c ++ "class ") := .of_append hmodifier (by decide)
  refine ((((hclass.append (FlushLine.of_isWordText hc.name).feed).append
    (not_mem_typeParams hunbroken.generics)).append ?_).append (by decide)).append (by decide)
  exact not_mem_ite (by decide)
    (not_mem_append (by decide) (not_mem_commas (not_mem_supertypes hd c)))

/-- The comment and the head stand in the class as one piece. -/
theorem infix_opening (hd : d.WellFormed) (hc : c.WellFormed) (hunbroken : c.Unbroken) :
    opening (inheritance d c) c (supertypes d c) <:+: (classLines d c).flush := by
  have hsummary : '\n' ∉ (c.name ++ " class").toList :=
    not_mem_append (FlushLine.of_isWordText hc.name).feed (by decide)
  have hopening : opening (inheritance d c) c (supertypes d c) =
      (starComment [c.name ++ " class"]).flush ++
        flushLines (header (inheritance d c) c (supertypes d c)) := by
    rw [flush_starComment hsummary, (flushLine_header hd hc hunbroken).flushLines_eq,
      ← String.append_assoc]
    rfl
  rw [hopening, classLines, typeBlock, Lines.flush_append, Lines.flush_append]
  exact ((List.prefix_append_right_inj _).2 (prefix_braced _ _)).isInfix.trans
    (List.prefix_append _ _).isInfix

/-- The parent is the first supertype in the head of a class. -/
theorem exists_supertypes_of_parent? (h : d.parent? c = some p) :
    ∃ call ∈ [p.name, p.name ++ "()"], ∃ interfaces, supertypes d c = call :: interfaces := by
  refine ⟨if (constructors c).isEmpty then p.name ++ "()" else p.name, ?_,
    (d.implemented c).map (·.name), ?_⟩
  · split <;> simp
  · rw [supertypes, h, Option.map_some, Option.toList_some, List.singleton_append]

/-- A class is open for inheritance if it is abstract or has subclasses. -/
theorem inheritance_mem_iff (d : Diagram) (c : ClassDecl) :
    inheritance d c ∈ ["open ", "abstract "] ↔ c.isAbstract = true ∨ d.hasSubclasses c = true := by
  unfold inheritance
  cases c.isAbstract <;> cases d.hasSubclasses c <;> decide

end Kotlin

end Target

open Target

/-- Code generated from a text whose entities have distinct names. Every class is
declared in it. The parent of a class stands first behind the colon, and it is declared
`open` or `abstract` unless the class is its own parent, is not abstract and no other
name inherits from it. -/
theorem superclass_open (memory : Nat) (text : String)
    (hnames : ((Reading.ofText text).diagram.entities.map Entity.name).Nodup) (options : Options) :
    let d := (Reading.ofText text).diagram
    let size := options.indentSize.getD Language.kotlin.emitter.indentSize
    (widthFault? memory (Language.kotlin.deepest d * size) = none →
      ∃ out, generate memory .kotlin options d = .ok out) ∧
    (∀ out, generate memory .kotlin options d = .ok out → ∀ c ∈ d.classes,
      Kotlin.opening (Kotlin.inheritance d c) c (Kotlin.supertypes d c) <:+: flushLines out.code) ∧
    ∀ c ∈ d.classes, ∀ p ∈ d.parent? c,
      p ∈ d.classes ∧
      (∃ call ∈ [p.name, p.name ++ "()"], ∃ interfaces, Kotlin.supertypes d c = call :: interfaces) ∧
      (p.name ≠ c.name → Kotlin.inheritance d p ∈ ["open ", "abstract "]) ∧
      (Kotlin.inheritance d p ∈ ["open ", "abstract "] ↔ p.isAbstract = true ∨
        ∃ r ∈ d.relationships, r.kind = .inheritance ∧ r.target = p.name ∧ r.source ≠ p.name) := by
  intro d size
  refine ⟨exists_generate_of_width, fun out hout c hc => ?_, fun c hc p hp => ?_⟩
  · have hentity := Diagram.mem_classes_iff.1 hc
    have hd : d.WellFormed := Source.Reader.wellFormed_after _
    have hopening := Kotlin.infix_opening hd (hd.entities _ hentity) (unbroken_ofText text _ hentity)
    exact hopening.trans (infix_entityLines_of_generate (agrees_ofText text) hnames hout hentity)
  · refine ⟨(Diagram.exists_of_parent? hp).1, Kotlin.exists_supertypes_of_parent? hp, fun hne => ?_, ?_⟩
    · exact (Kotlin.inheritance_mem_iff d p).2 (.inr (Diagram.hasSubclasses_of_parent? hp hne))
    · rw [Kotlin.inheritance_mem_iff, Diagram.hasSubclasses_iff]

/-- An abstract class that is its own parent, below it a class and its subclass. -/
def selfParent : String :=
  "class B<T> extends A implements I\nclass A\nabstract class C\nC <|-- C\nA <|-- C\ninterface I"

/-- A class may be read that has no parent but itself. -/
theorem selfParent_read :
    let d := (Reading.ofText selfParent).diagram
    (d.entities.map Entity.name).Nodup ∧
    widthFault? 100 (Language.kotlin.deepest d * 4) = none ∧
    (d.classes.map fun c => Kotlin.opening (Kotlin.inheritance d c) c (Kotlin.supertypes d c)) =
      [["/**", "* B class", "*/", "class B<T> : A, I \x7b"],
        ["/**", "* A class", "*/", "open class A : C \x7b"],
        ["/**", "* C class", "*/", "abstract class C : C() \x7b"]] ∧
    ∃ c ∈ d.classes, ∃ p ∈ d.parent? c, c.name = "B" ∧ p.name = "A" := by
  decide +kernel

theorem superclass_open_selfParent :
    let d := (Reading.ofText selfParent).diagram
    (d.entities.map Entity.name).Nodup ∧ ∃ out, generate 100 .kotlin {} d = .ok out ∧
    ["/**", "* B class", "*/", "class B<T> : A, I \x7b"] <:+: flushLines out.code ∧
    ["/**", "* A class", "*/", "open class A : C \x7b"] <:+: flushLines out.code ∧
    ["/**", "* C class", "*/", "abstract class C : C() \x7b"] <:+: flushLines out.code ∧
    ∃ c ∈ d.classes, ∃ p ∈ d.parent? c, c.name = "B" ∧ p.name = "A" ∧
      Kotlin.inheritance d p ∈ ["open ", "abstract "] := by
  intro d
  obtain ⟨hnames, hwidth, hopenings, c, hc, p, hp, hcname, hpname⟩ := selfParent_read
  obtain ⟨hexists, hdeclared, hopen⟩ := superclass_open 100 selfParent hnames {}
  obtain ⟨out, hout⟩ := hexists hwidth
  have hlines : ∀ o ∈ d.classes.map fun c =>
      Kotlin.opening (Kotlin.inheritance d c) c (Kotlin.supertypes d c), o <:+: flushLines out.code :=
    List.forall_mem_map.2 (hdeclared out hout)
  rw [hopenings] at hlines
  have hne : p.name ≠ c.name := by
    rw [hcname, hpname]
    decide
  exact ⟨hnames, out, hout, hlines _ (by simp), hlines _ (by simp), hlines _ (by simp), c, hc, p, hp,
    hcname, hpname, (hopen c hc p hp).2.2.1 hne⟩

/-- A class that only inherits from itself extends a final class. -/
theorem own_parent_final :
    let d := (Reading.ofText "class A\nA <|-- A").diagram
    (d.entities.map Entity.name).Nodup ∧
    (∃ c ∈ d.classes, ∃ p ∈ d.parent? c, p.name = c.name ∧
      Kotlin.inheritance d p ∉ ["open ", "abstract "]) ∧
    (generate 100 .kotlin {} d).toOption.map (fun out => flushLines out.code) =
      some ["/**", "* A class", "*/", "class A : A \x7b", "constructor() : super() \x7b",
        "// TODO: Implement constructor", "\x7d", "\x7d", "", ""] := by
  decide +kernel

end ClassSketch
