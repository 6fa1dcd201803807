import ClassSketch.Proofs.Nesting.Listing

/-!
# Indentation

The lines of a generated text, each without the spaces at its front
(`flushLines`), are the lines of the texts that were put in, whatever the size of
a level (`flushLines_render`).

Lines are moved in by one level at a time, in Ruby also by all modules of a
package at once. `Language.deepest` bounds the levels of one step, and code is
generated whenever that many levels are of a possible width.
-/

namespace ClassSketch

namespace Layout

/-! ## Lines without leading spaces -/

/-- A text without the spaces at its front. -/
def dropSpaces (s : String) : String :=
  String.ofList (s.toList.dropWhile (· == ' '))

/-- The lines of a text, each without the spaces at its front. -/
def flushLines (s : String) : List String :=
  (splitText s).map dropSpaces

/-- A line feed ends a line. -/
theorem flushLines_feed (s t : String) :
    flushLines (s ++ "\n" ++ t) = flushLines s ++ flushLines t := by
  have hchars : (s ++ "\n" ++ t).toList = s.toList ++ '\n' :: t.toList := by simp
  rw [flushLines, splitText, hchars, List.splitOn_append_cons_self, List.map_append, List.map_append]
  rfl

theorem map_dropSpaces_modifyHead (ss : List (List Char)) :
    ((ss.modifyHead (' ' :: ·)).map String.ofList).map dropSpaces =
      (ss.map String.ofList).map dropSpaces := by
  cases ss with
  | nil => rfl
  | cons s ss => simp [dropSpaces]

/-- Spaces in front are not seen in the flush lines. -/
theorem flushLines_spaces (width : Int) (s : String) :
    flushLines (spaces width ++ s) = flushLines s := by
  unfold spaces flushLines splitText
  rw [String.toList_append, String.toList_ofList]
  induction width.toNat with
  | zero => rfl
  | succ n ih =>
    rw [List.replicate_succ, List.cons_append, List.splitOn_cons_eq_if_modifyHead,
      if_neg (by decide), map_dropSpaces_modifyHead, ih]

/-- Nor is the margin of a line. -/
theorem flushLines_padLine (width : Int) (s : String) :
    flushLines (padLine width s) = flushLines s := by
  unfold padLine
  split
  · rfl
  · exact flushLines_spaces width s

/-- The lines of all texts, each without the spaces at its front. -/
def Lines.flush (ls : Lines) : List String :=
  ls.flatMap fun l => flushLines l.text

/-- Rendered lines without leading spaces are those of the texts, with an empty one at
the end. -/
theorem flushLines_render (size : Int) (ls : Lines) :
    flushLines (ls.render size) = ls.flush ++ [""] := by
  induction ls with
  | nil =>
    rw [Lines.render, List.map_nil]
    decide +kernel
  | cons l ls ih =>
    have hcons : Lines.render size (l :: ls) = l.render size ++ "\n" ++ Lines.render size ls := by
      rw [Lines.render, List.map_cons, String.join_cons, Lines.render]
    rw [hcons, flushLines_feed, ih, Line.render, flushLines_padLine, ← List.append_assoc]
    rfl

/-! ## Steps -/

/-- No line was moved in by more than `k` levels at once. -/
def Lines.Within (k : Nat) (ls : Lines) : Prop :=
  ∀ l ∈ ls, ∀ n ∈ l.steps, n ≤ k

namespace Lines

variable {k : Nat} {ls ms : Lines}

theorem Within.mono {j : Nat} (h : ls.Within j) (hk : j ≤ k) : ls.Within k :=
  fun l hl n hn => (h l hl n hn).trans hk

@[simp]
theorem within_nil : Within k [] :=
  nofun

@[simp]
theorem within_append : Within k (ls ++ ms) ↔ ls.Within k ∧ ms.Within k :=
  List.forall_mem_append

@[simp]
theorem within_flatMap {α : Type} {f : α → Lines} {as : List α} :
    Within k (as.flatMap f) ↔ ∀ a ∈ as, (f a).Within k := by
  simp only [Within, List.mem_flatMap]
  exact ⟨fun h a ha l hl => h l ⟨a, ha, hl⟩, fun h l ⟨a, ha, hl⟩ => h a ha l hl⟩

@[simp]
theorem within_ofText (s : String) : (ofText s).Within k := by
  intro l hl
  obtain ⟨text, -, rfl⟩ := List.mem_map.1 hl
  exact List.forall_mem_nil _

@[simp]
theorem within_ofTexts (ss : List String) : (ofTexts ss).Within k :=
  within_flatMap.2 fun s _ => within_ofText s

@[simp]
theorem within_blank : blank.Within k :=
  within_ofText ""

/-- Nesting adds one step, of as many levels as it nests by. -/
theorem within_nestBy {n : Nat} (h : ls.Within k) : (ls.nestBy n).Within (max k n) := by
  intro l hl
  obtain ⟨m, hm, rfl⟩ := List.mem_map.1 hl
  refine List.forall_mem_cons.2 ⟨Nat.le_max_right k n, fun j hj => ?_⟩
  exact (h m hm j hj).trans (Nat.le_max_left k n)

@[simp]
theorem within_nest : ls.nest.Within 1 ↔ ls.Within 1 := by
  refine ⟨fun h l hl n hn => ?_, within_nestBy⟩
  exact h _ (List.mem_map_of_mem hl) n (List.mem_cons_of_mem 1 hn)

theorem within_ite {p : Prop} [Decidable p] (hls : ls.Within k) (hms : ms.Within k) :
    Within k (if p then ls else ms) := by
  split
  · exact hls
  · exact hms

/-- Paragraphs are as deep as their blocks. -/
@[simp]
theorem within_paragraphs {bs : List Lines} : (paragraphs bs).Within k ↔ Within k bs.flatten := by
  induction bs with
  | nil => simp [paragraphs]
  | cons b bs ih =>
    cases bs with
    | nil => simp [paragraphs]
    | cons c cs => simp [paragraphs_cons_cons, ih]

end Lines

end Layout

open Layout Lines

/-! ## Emitters -/

namespace Target

variable {head : String} {body : Lines} {texts : List String}

@[simp]
theorem within_braced : (braced head body).Within 1 ↔ body.Within 1 := by
  simp [braced]

@[simp]
theorem within_bracedBelow : (bracedBelow head body).Within 1 ↔ body.Within 1 := by
  simp [bracedBelow]

@[simp]
theorem within_starComment : (starComment texts).Within 1 := by
  simp [starComment]

@[simp]
theorem flatten_block (ls : Lines) : (block ls).flatten = ls := by
  cases ls <;> simp [block]

namespace Java

theorem within_doc (summary : String) (ps : List Parameter) (returns : Option TypeExpr) :
    (doc summary ps returns).Within 1 :=
  within_starComment

theorem within_constructor (owner : String) (hasParent : Bool) (m : Method) :
    (constructor owner hasParent m).Within 1 := by
  simp [constructor, within_doc]

theorem within_signature (inInterface : Bool) (m : Method) : (signature inInterface m).Within 1 := by
  simp [signature, within_doc]

theorem within_method (m : Method) : (method m).Within 1 := by
  simp [method, within_ite, within_doc, within_signature]

/-- All lines of Java are within one level. -/
theorem within_entityLines (d : Diagram) (e : Entity) : (listing.entityLines d e).Within 1 := by
  cases e with
  | cls c =>
    simp [Listing.entityLines, listing, classLines, typeBlock, ← List.flatMap_def,
      within_constructor, within_method]
  | interface i =>
    simp [Listing.entityLines, listing, interfaceLines, typeBlock, ← List.flatMap_def,
      within_signature]
  | enum e => simp [Listing.entityLines, listing, enumLines, typeBlock, within_ite]

end Java

namespace Kotlin

theorem within_constructor (hasParent : Bool) (m : Method) : (constructor hasParent m).Within 1 := by
  simp [constructor]

theorem within_method (m : Method) : (method m).Within 1 := by
  simp [method, within_ite]

theorem within_companion (c : ClassDecl) : Within 1 (companion c).flatten := by
  simp only [companion]
  split
  · exact within_nil
  · simp [← List.flatMap_def, within_method]

/-- All lines of Kotlin are within one level. -/
theorem within_entityLines (d : Diagram) (e : Entity) : (listing.entityLines d e).Within 1 := by
  cases e with
  | cls c =>
    simp [Listing.entityLines, listing, classLines, typeBlock, ← List.flatMap_def,
      within_constructor, within_method, within_companion]
  | interface i =>
    simp [Listing.entityLines, listing, interfaceLines, typeBlock, ← List.flatMap_def]
  | enum e => simp [Listing.entityLines, listing, enumLines, typeBlock]

end Kotlin

namespace CSharp

theorem within_summary (text : String) : (summary text).Within 1 := by
  simp [summary]

theorem within_doc (text : String) (ps : List Parameter) (returns : Option TypeExpr) :
    (doc text ps returns).Within 1 := by
  cases returns with
  | none => simp [doc, within_summary]
  | some t => simp [doc, within_summary, within_ite]

theorem within_typeBlock {inPackage : Bool} {text head : String} {blocks : List Lines}
    (h : Within 1 blocks.flatten) : (typeBlock inPackage text head blocks).Within 1 := by
  simp [typeBlock, within_ite, within_summary, h]

theorem within_constructor (owner : String) (hasParent : Bool) (m : Method) :
    (constructor owner hasParent m).Within 1 := by
  simp [constructor, within_doc]

theorem within_method (m : Method) : (method m).Within 1 := by
  simp [method, within_ite, within_doc]

/-- All lines of C# are within one level. -/
theorem within_entityLines (d : Diagram) (e : Entity) : (listing.entityLines d e).Within 1 := by
  cases e with
  | cls c =>
    exact within_typeBlock (by simp [← List.flatMap_def, within_constructor, within_method])
  | interface i =>
    exact within_typeBlock (by simp [← List.flatMap_def, interfaceMethod, within_doc])
  | enum e => exact within_typeBlock (by simp)

end CSharp

namespace TypeScript

theorem within_typeBlock {inPackage : Bool} {summary head : String} {blocks : List Lines}
    (h : Within 1 blocks.flatten) : (typeBlock inPackage summary head blocks).Within 1 := by
  simp [typeBlock, within_ite, h]

theorem within_constructorBlock (ms : List Method) (hasParent : Bool) :
    Within 1 (constructorBlock ms hasParent).flatten := by
  match ms with
  | [] => exact within_nil
  | [m] => simp [constructorBlock]
  | m :: n :: ms => simp [constructorBlock]

theorem within_method (m : Method) : (method m).Within 1 := by
  simp [method, within_ite]

/-- All lines of TypeScript are within one level. -/
theorem within_entityLines (d : Diagram) (e : Entity) : (listing.entityLines d e).Within 1 := by
  cases e with
  | cls c =>
    exact within_typeBlock (by simp [← List.flatMap_def, within_constructorBlock, within_method])
  | interface i => exact within_typeBlock (by simp [← List.flatMap_def])
  | enum e => exact within_typeBlock (by simp)

end TypeScript

namespace JavaScript

theorem within_doc (tags : List String) (ps : List Parameter) (returns : Option TypeExpr) :
    (doc tags ps returns).Within 1 := by
  simp [doc, comment, within_ite]

theorem within_constructor (ms : List Method) (attrs : List Attribute) (hasParent : Bool) :
    (constructor ms attrs hasParent).Within 1 := by
  simp [constructor, within_doc, assignment]

theorem within_constructorBlock (c : ClassDecl) (hasParent : Bool) :
    Within 1 (constructorBlock c hasParent).flatten := by
  simp only [constructorBlock]
  split_ifs <;> simp [within_constructor]

theorem within_methodWith (tags : List String) (m : Method) (body : List String) :
    (methodWith tags m body).Within 1 := by
  simp [methodWith, within_doc]

/-- All lines of JavaScript are within one level. -/
theorem within_entityLines (d : Diagram) (e : Entity) : (listing.entityLines d e).Within 1 := by
  cases e with
  | cls c =>
    simp [Listing.entityLines, listing, classLines, typeBlock, ← List.flatMap_def,
      within_constructorBlock, method, within_ite, within_methodWith]
  | interface i =>
    simp [Listing.entityLines, listing, interfaceLines, typeBlock, ← List.flatMap_def, guard,
      within_methodWith]
  | enum e => simp [Listing.entityLines, listing, enumLines, within_ite]

end JavaScript

namespace Python

theorem within_classBlock {name : String} {generics bases : List String} {blocks : List Lines}
    (h : Within 1 blocks.flatten) : (classBlock name generics bases blocks).Within 1 := by
  simp [classBlock, within_ite, h]

theorem within_initializers (ms : List Method) (attrs : List Attribute) (hasParent : Bool) :
    Within 1 (initializers ms attrs hasParent).flatten := by
  unfold initializers
  split <;> simp [← List.flatMap_def, overload, initializer]

theorem within_method (m : Method) : (method m).Within 1 := by
  simp [method, abstractMethod, within_ite]

/-- All lines of Python are within one level. -/
theorem within_entityLines (d : Diagram) (e : Entity) : (listing.entityLines d e).Within 1 := by
  cases e with
  | cls c =>
    exact within_classBlock (by simp [← List.flatMap_def, within_initializers, within_method])
  | interface i => exact within_classBlock (by simp [← List.flatMap_def, abstractMethod])
  | enum e => exact within_classBlock (by simp)

end Python

namespace Ruby

theorem within_definition {comment : Lines} (h : comment.Within 1) (signature : String)
    (body : List String) : (definition comment signature body).Within 1 := by
  simp [definition, h]

theorem within_doc (ps : List Parameter) (returns : Option TypeExpr) : (doc ps returns).Within 1 := by
  simp [doc, within_ite]

theorem within_accessor (a : Attribute) : (accessor a).Within 1 := by
  cases h : access? a.visibility <;> simp [accessor, h]

theorem within_method (owner : String) (m : Method) : (method owner m).Within 1 := by
  simp [method, abstractMethod, methodWith, within_ite, within_definition, within_doc]

/-- Modules are as deep as there are names before them. -/
theorem within_packageStart (package : String) :
    (packageStart package).Within (moduleNames package).length := by
  refine within_flatMap.2 fun (m, i) hm => ?_
  have hi := (List.mem_zipIdx hm).2.1
  exact (within_nestBy (within_ofText (k := 0) _)).mono (by simp at hi ⊢; omega)

theorem within_packageEnd (package : String) :
    (packageEnd package).Within (moduleNames package).length := by
  refine within_append.2 ⟨within_flatMap.2 fun i hi => ?_, within_blank⟩
  have hi := List.mem_range.1 (List.mem_reverse.1 hi)
  exact (within_nestBy (within_ofText (k := 0) _)).mono (by omega)

/-- The most modules of a package, or the one level that other lines are moved in. -/
def deepest (d : Diagram) : Nat :=
  (1 :: d.packages.map fun p => (moduleNames p.1).length).max?.getD 1

theorem one_le_deepest (d : Diagram) : 1 ≤ deepest d :=
  List.le_max?_getD_of_mem List.mem_cons_self

/-- No package of the diagram has more modules than the deepest. -/
theorem length_moduleNames_le {d : Diagram} {p : String} (h : p ∈ d.packages.map (·.1)) :
    (moduleNames p).length ≤ deepest d := by
  obtain ⟨q, hq, rfl⟩ := List.mem_map.1 h
  exact List.le_max?_getD_of_mem (List.mem_cons_of_mem _ (List.mem_map_of_mem hq))

/-- A type of Ruby is as deep as its package says. -/
theorem within_typeBlock {d : Diagram} {name summary head : String} {blocks : List Lines}
    (h : Within 1 blocks.flatten) : (typeBlock d name summary head blocks).Within (deepest d) := by
  have hlines : Within 1 (ofText ("# " ++ summary) ++ ofText head ++ (paragraphs blocks).nest ++
      ofText "end") := by
    simp [h]
  refine within_append.2 ⟨?_, within_blank⟩
  cases hpackage : d.packageOf name with
  | none => exact hlines.mono (one_le_deepest d)
  | some p =>
    obtain ⟨q, hq, rfl⟩ := Option.map_eq_some_iff.1 hpackage
    have hmem := List.mem_map_of_mem (f := (·.1)) (List.mem_of_find?_eq_some hq)
    exact (within_nestBy hlines).mono (Nat.max_le.2 ⟨one_le_deepest d, length_moduleNames_le hmem⟩)

/-- All lines of Ruby are within the deepest package. -/
theorem within_entityLines (d : Diagram) (e : Entity) :
    (listing.entityLines d e).Within (deepest d) := by
  cases e with
  | cls c =>
    refine within_typeBlock ?_
    simp only [List.flatten_append, flatten_block, ← List.flatMap_def, within_append, includes,
      within_ofTexts, within_flatMap, within_accessor, within_method]
    split_ifs <;> simp [initializer, within_definition, within_doc]
  | interface i =>
    refine within_typeBlock ?_
    simp [← List.flatMap_def, includes, abstractMethod, methodWith, within_definition, within_doc]
  | enum e =>
    refine within_typeBlock ?_
    split_ifs <;> simp

end Ruby

end Target

/-! ## Generated code -/

/-- The most levels that a line is moved in at once. -/
def Language.deepest (l : Language) (d : Diagram) : Nat :=
  match l with
  | ruby => Target.Ruby.deepest d
  | _ => 1

theorem Listing.within_groupLines {li : Listing} {d : Diagram} {k : Nat}
    {g : Option String × List Entity}
    (hpackage : ∀ p ∈ g.1, (li.packageStart p).Within k ∧ (li.packageEnd p).Within k)
    (hentities : ∀ e, (li.entityLines d e).Within k) : (li.groupLines d g).Within k := by
  obtain ⟨package, es⟩ := g
  have hbody : Within k (es.flatMap (li.entityLines d)) := within_flatMap.2 fun e _ => hentities e
  cases package with
  | none => exact within_append.2 ⟨within_append.2 ⟨within_nil, hbody⟩, within_nil⟩
  | some p =>
    obtain ⟨hstart, hend⟩ := hpackage p rfl
    exact within_append.2 ⟨within_append.2 ⟨hstart, hbody⟩, hend⟩

/-- The steps of a section are within the bound of its language. -/
theorem Language.within_groupLines (l : Language) {d : Diagram} {g : Option String × List Entity}
    (hname : ∀ p ∈ g.1, p ∈ d.packages.map (·.1)) :
    (l.listing.groupLines d g).Within (l.deepest d) := by
  cases l with
  | csharp =>
    exact Listing.within_groupLines (fun p _ => by simp [listing, Target.CSharp.listing])
      (Target.CSharp.within_entityLines d)
  | java =>
    exact Listing.within_groupLines (fun p _ => by simp [listing, Target.Java.listing])
      (Target.Java.within_entityLines d)
  | javascript =>
    exact Listing.within_groupLines (fun p _ => by simp [listing, Target.JavaScript.listing])
      (Target.JavaScript.within_entityLines d)
  | kotlin =>
    exact Listing.within_groupLines (fun p _ => by simp [listing, Target.Kotlin.listing])
      (Target.Kotlin.within_entityLines d)
  | python =>
    exact Listing.within_groupLines (fun p _ => by simp [listing, Target.Python.listing])
      (Target.Python.within_entityLines d)
  | ruby =>
    refine Listing.within_groupLines (fun p hp => ?_) (Target.Ruby.within_entityLines d)
    have hdepth := Target.Ruby.length_moduleNames_le (hname p hp)
    exact ⟨(Target.Ruby.within_packageStart p).mono hdepth,
      (Target.Ruby.within_packageEnd p).mono hdepth⟩
  | typescript =>
    exact Listing.within_groupLines (fun p _ => by simp [listing, Target.TypeScript.listing])
      (Target.TypeScript.within_entityLines d)

/-- Fewer levels are of a possible width if more are. -/
theorem Layout.widthFault?_of_le {memory : Nat} {size : Int} {j k : Nat} (hjk : j ≤ k)
    (h : widthFault? memory (k * size) = none) : widthFault? memory (j * size) = none := by
  rw [widthFault?_eq_none_iff] at h ⊢
  have hindex : 0 < indexBound := by decide
  have hle : (j : Int) ≤ k := Int.ofNat_le.2 hjk
  rcases Int.le_total 0 size with hsize | hsize
  · have hmono := Int.mul_le_mul_of_nonneg_right hle hsize
    have hnonneg := Int.mul_nonneg (Int.natCast_nonneg j) hsize
    omega
  · have hmono := Int.mul_le_mul_of_nonpos_right hle hsize
    have hnonpos := Int.mul_nonpos_of_nonneg_of_nonpos (Int.natCast_nonneg j) hsize
    omega

/-- Lines are possible if the deepest step is. -/
theorem Layout.Lines.Within.possible {m : Margin} {k : Nat} {ls : Lines} (h : ls.Within k)
    (hk : m.fault? k = none) : ls.Possible m :=
  fun l hl n hn => widthFault?_of_le (h l hl n hn) hk

section Generate

variable {memory : Nat} {l : Language} {options : Options} {d : Diagram}

/-- If the deepest margin is possible, a listing is generated. -/
theorem exists_generate_of_width
    (h : (l.margin options memory).fault? (l.deepest d) = none) :
    ∃ out, generate memory l options d = .ok out := by
  cases hgenerate : generate memory l options d with
  | ok out => exact ⟨out, rfl⟩
  | error o =>
    obtain ⟨g, hg, hfaults⟩ := fault_of_generate hgenerate
    obtain ⟨s, hs, rfl⟩ := List.mem_map.1 hg
    have hwithin : (l.listing.groupLines d (s.package, s.content.entities)).Within (l.deepest d) :=
      l.within_groupLines (Document.mem_ofDiagram hs).1
    exact absurd (hwithin.possible h) hfaults.not_possible

/-- Without leading spaces, generated code has the lines of its document. -/
theorem flushLines_of_generate {out : Generated} (h : generate memory l options d = .ok out) :
    flushLines out.code = (l.listing.lines d (l.groups options d)).flush ++ [""] := by
  rw [code_of_generate h, ← Listing.render_lines, flushLines_render]

end Generate

/-- Code is generated whenever the deepest step is of a possible width, and then the
size of a level shows only in the spaces at the front of the lines. -/
theorem generate_indent_spaces (l : Language) (d : Diagram) (supertypesFirst : Bool) :
    (∀ (memory : Nat) (size : Int), widthFault? memory (l.deepest d * size) = none →
      ∃ out, generate memory l { indentSize := some size, supertypesFirst } d = .ok out) ∧
    ∀ (memory memory' : Nat) (m n : Int) (a b : Generated),
      generate memory l { indentSize := some m, supertypesFirst } d = .ok a →
      generate memory' l { indentSize := some n, supertypesFirst } d = .ok b →
        (splitText a.code).length = (splitText b.code).length ∧
          flushLines a.code = flushLines b.code := by
  refine ⟨fun memory size h => exists_generate_of_width h, fun memory memory' m n a b ha hb => ?_⟩
  have hlines : flushLines a.code = flushLines b.code := by
    rw [flushLines_of_generate ha, flushLines_of_generate hb]
    rfl
  refine ⟨?_, hlines⟩
  have hlength := congrArg List.length hlines
  rwa [flushLines, flushLines, List.length_map, List.length_map] at hlength

/-- A class with a line feed and spaces in its name, in a package of two modules. -/
def brokenName : Diagram where
  entities := [.cls { name := "A\n  B", package := some "p.q" }]
  packages := [("p.q", ["A\n  B"])]

/-- A size below zero needs no memory, and gives the same flush lines. -/
theorem generate_indent_spaces_negative :
    widthFault? 0 (Language.ruby.deepest brokenName * (-3)) = none ∧
    widthFault? 100 (Language.ruby.deepest brokenName * 4) = none ∧
    ∃ a b, generate 0 .ruby { indentSize := some (-3), supertypesFirst := true } brokenName = .ok a ∧
      generate 100 .ruby { indentSize := some 4, supertypesFirst := true } brokenName = .ok b ∧
      (splitText a.code).length = (splitText b.code).length ∧
      flushLines a.code = flushLines b.code := by
  have hnegative : widthFault? 0 (Language.ruby.deepest brokenName * (-3)) = none := by
    decide +kernel
  have hfour : widthFault? 100 (Language.ruby.deepest brokenName * 4) = none := by decide +kernel
  obtain ⟨hexists, hsame⟩ := generate_indent_spaces .ruby brokenName true
  obtain ⟨a, ha⟩ := hexists 0 (-3) hnegative
  obtain ⟨b, hb⟩ := hexists 100 4 hfour
  exact ⟨hnegative, hfour, a, b, ha, hb, hsame 0 100 (-3) 4 a b ha hb⟩

end ClassSketch
