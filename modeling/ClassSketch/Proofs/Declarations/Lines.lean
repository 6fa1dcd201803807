import Mathlib.Data.List.Flatten
import ClassSketch.Proofs.Indentation

/-!
# Lines that declare members

A language declares an attribute and a method of a class by one text each
(`Language.attributeText`, `Language.signatureText`). The lines of a class, leading
spaces aside, hold the lines of all these texts (`Language.holds_classLines`), in an
order that the language chooses (`Language.declarations`). In it the static and
the instance attributes and methods each keep the order of the class.

Where instance attributes are assigned in an initializer (`Language.initializer?`),
its lines are a part of the class and hold the assignments.
-/

namespace ClassSketch

open Layout

/-! ## Lines without leading spaces -/

namespace Layout

theorem flushLines_of_not_mem {s : String} (h : '\n' ∉ s.toList) : flushLines s = [dropSpaces s] := by
  rw [flushLines, splitText, Text.splitOn_of_not_mem h, List.map_singleton, List.map_singleton,
    String.ofList_toList]

/-- A text that is one line without spaces at its front. -/
theorem flushLines_eq_singleton {s : String} (hfeed : '\n' ∉ s.toList)
    (hspace : s.toList.head? ≠ some ' ') : flushLines s = [s] := by
  have hdrop : s.toList.dropWhile (· == ' ') = s.toList := by
    cases hs : s.toList with
    | nil => rfl
    | cons c cs =>
      rw [hs] at hspace
      exact List.dropWhile_cons_of_neg (by simpa using hspace)
  rw [flushLines_of_not_mem hfeed, dropSpaces, hdrop, String.ofList_toList]

namespace Lines

variable (ls ms : Lines)

/-- The lines of two blocks follow each other. -/
@[simp]
theorem flush_append : flush (ls ++ ms) = ls.flush ++ ms.flush :=
  List.flatMap_append

@[simp]
theorem flush_nestBy (n : Nat) : (ls.nestBy n).flush = ls.flush :=
  List.flatMap_map ..

/-- Nesting moves lines only, and flush lines have no margin. -/
@[simp]
theorem flush_nest : ls.nest.flush = ls.flush :=
  flush_nestBy ls 1

@[simp]
theorem flush_flatMap {α : Type} (f : α → Lines) (as : List α) :
    flush (as.flatMap f) = as.flatMap fun a => (f a).flush :=
  List.flatMap_assoc

/-- A text is as many lines as it has line feeds, and one. -/
@[simp]
theorem flush_ofText (s : String) : (ofText s).flush = flushLines s := by
  rw [flush, ofText, List.flatMap_map, flushLines, List.map_eq_flatMap]
  refine List.flatMap_congr fun text htext => ?_
  obtain ⟨p, hp, rfl⟩ := List.mem_map.1 htext
  refine flushLines_of_not_mem ?_
  rw [String.toList_ofList]
  exact not_mem_of_mem_splitOn hp

@[simp]
theorem flush_ofTexts (ss : List String) : (ofTexts ss).flush = ss.flatMap flushLines := by
  simp [ofTexts]

/-- Paragraphs have blank lines between them, and no line is lost. -/
theorem sublist_flush_paragraphs (bs : List Lines) :
    (flush bs.flatten).Sublist (paragraphs bs).flush := by
  induction bs with
  | nil => exact List.Sublist.refl _
  | cons b bs ih =>
    cases bs with
    | nil => simp [paragraphs]
    | cons c cs =>
      rw [paragraphs_cons_cons, List.flatten_cons, flush_append, flush_append, flush_append]
      exact (List.sublist_append_left _ _).append ih

/-- The lines of all texts stand in `ls`, in order. -/
def Holds (ls : Lines) (texts : List String) : Prop :=
  (texts.flatMap flushLines).Sublist ls.flush

variable {ls ms} {ss ts : List String}

namespace Holds

/-- Texts that are held by two blocks in turn. -/
theorem append (hls : ls.Holds ss) (hms : ms.Holds ts) : Holds (ls ++ ms) (ss ++ ts) := by
  rw [Holds, List.flatMap_append, flush_append]
  exact List.Sublist.append hls hms

theorem left (h : ls.Holds ss) (ms : Lines) : Holds (ls ++ ms) ss := by
  rw [Holds, flush_append]
  exact List.Sublist.trans h (List.sublist_append_left _ _)

theorem right (ls : Lines) (h : ms.Holds ss) : Holds (ls ++ ms) ss := by
  rw [Holds, flush_append]
  exact List.Sublist.trans h (List.sublist_append_right _ _)

theorem nest (h : ls.Holds ss) : ls.nest.Holds ss := by
  rwa [Holds, flush_nest]

theorem ofText (s : String) : (ofText s).Holds [s] := by
  rw [Holds, flush_ofText, List.flatMap_singleton]

theorem ofTexts (h : ts.Sublist ss) : (ofTexts ss).Holds ts := by
  rw [Holds, flush_ofTexts]
  exact h.flatMap _

theorem flatMap {α : Type} {f : α → Lines} {text : α → String} {as : List α}
    (h : ∀ a ∈ as, (f a).Holds [text a]) : Holds (as.flatMap f) (as.map text) := by
  rw [Holds, flush_flatMap, List.flatMap_map]
  refine List.Sublist.flatMap_right as fun a ha => ?_
  have htext := h a ha
  rwa [Holds, List.flatMap_singleton] at htext

/-- Paragraphs hold what their blocks hold. -/
theorem paragraphs {bs : List Lines} (h : Holds bs.flatten ss) : (paragraphs bs).Holds ss :=
  List.Sublist.trans h (sublist_flush_paragraphs bs)

end Holds

/-- Each block stands in the paragraphs as one piece. -/
theorem infix_flush_paragraphs {bs : List Lines} {b : Lines} (h : b ∈ bs) :
    b.flush <:+: (paragraphs bs).flush := by
  induction bs with
  | nil => cases h
  | cons a bs ih =>
    cases bs with
    | nil =>
      rw [List.mem_singleton.1 h]
      simp [paragraphs]
    | cons c cs =>
      rw [paragraphs_cons_cons, flush_append, flush_append]
      rcases List.mem_cons.1 h with rfl | h
      · rw [List.append_assoc]
        exact (List.prefix_append _ _).isInfix
      · exact (ih h).trans (List.suffix_append _ _).isInfix

end Lines

end Layout

open Lines

/-! ## Texts of members -/

def ClassDecl.staticMethods (c : ClassDecl) : List Method :=
  c.methods.filter (·.isStatic)

def ClassDecl.instanceMethods (c : ClassDecl) : List Method :=
  c.methods.filter (!·.isStatic)

namespace Target

/-- The parameters of `__init__`, which takes anything for several constructors. -/
def Python.initSignature : List Method → String
  | [m] => parameters true m.parameters
  | _ => "self, *args: Any, **kwargs: Any"

/-- The parameters of `__init__` that attributes are assigned from. -/
def Python.initNames : List Method → List String
  | [m] => m.parameters.map (·.name)
  | _ => []

/-- A class variable, an annotation in a class without `__init__`, or an assignment in it. -/
def Python.attributeText (c : ClassDecl) (a : Attribute) : String :=
  if a.isStatic then classVariable a
  else if c.isAbstract && c.constructors.isEmpty then typedName a
  else assignment (initNames (constructors c)) a

def Ruby.attributeText (a : Attribute) : String :=
  if a.isStatic then staticField a
  else (if a.isFinal then "attr_reader :" else "attr_accessor :") ++ a.name

def JavaScript.attributeText (c : ClassDecl) (a : Attribute) : String :=
  if a.isStatic then staticField a
  else
    let names := (mergedParameters c.constructors).map (·.name)
    "this." ++ a.name ++ " = " ++
      (if names.contains a.name then a.name else placeholder a.type) ++ ";"

end Target

namespace Language

open Target

/-- The text that declares an attribute of a class. -/
def attributeText (l : Language) (c : ClassDecl) (a : Attribute) : String :=
  match l with
  | csharp => CSharp.property a
  | java => Java.field a
  | javascript => JavaScript.attributeText c a
  | kotlin => Kotlin.property a
  | python => Python.attributeText c a
  | ruby => Ruby.attributeText a
  | typescript => TypeScript.field a

/-- The text that a method of a class starts with. -/
def signatureText (l : Language) (m : Method) : String :=
  match l with
  | csharp => if m.isAbstract then CSharp.signature false m ++ ";" else CSharp.signature false m
  | java =>
    if m.isAbstract then Java.declaration false m ++ ";"
    else Java.declaration false m ++ " " ++ openBrace
  | javascript =>
    wordIf m.isStatic "static " ++ m.name ++ "(" ++ commas (m.parameters.map (·.name)) ++ ")" ++
      " " ++ openBrace
  | kotlin =>
    if m.isAbstract then Kotlin.signature false m else Kotlin.signature false m ++ " " ++ openBrace
  | python => if m.isAbstract then Python.signature m ++ " ..." else Python.signature m
  | ruby => Ruby.signature m
  | typescript =>
    if m.isAbstract then TypeScript.signature false m ++ ";"
    else TypeScript.signature false m ++ " " ++ openBrace

/-- The texts of all members, in the order in which the language declares them. -/
def declarations (l : Language) (c : ClassDecl) : List String :=
  match l with
  | csharp | java | typescript =>
    c.attributes.map (l.attributeText c) ++ c.methods.map l.signatureText
  | kotlin =>
    (instanceAttributes c).map (l.attributeText c) ++ c.instanceMethods.map l.signatureText ++
      ((staticAttributes c).map (l.attributeText c) ++ c.staticMethods.map l.signatureText)
  | javascript | python | ruby =>
    (staticAttributes c).map (l.attributeText c) ++ (instanceAttributes c).map (l.attributeText c) ++
      c.methods.map l.signatureText

/-- The initializer in which instance attributes are assigned, in languages that do so. -/
def initializer? (l : Language) (d : Diagram) (c : ClassDecl) : Option Lines :=
  match l with
  | javascript => (JavaScript.constructorBlock c (d.parent? c).isSome).head?
  | python =>
    if c.isAbstract && c.constructors.isEmpty then none
    else some (Python.initializer (Python.initSignature (constructors c))
      (Python.initNames (constructors c)) (instanceAttributes c) (d.parent? c).isSome)
  | _ => none

end Language

/-! ## Where members stand -/

namespace Target

variable {body : Lines} {ts : List String}

/-- The body stands between the braces as one piece. -/
theorem infix_braced (head : String) (body : Lines) : body.flush <:+: (braced head body).flush := by
  rw [braced, flush_append, flush_append, flush_nest]
  exact List.infix_append _ _ _

theorem infix_surround {inner ls : Lines} (before : Lines) (h : inner.flush <:+: ls.flush)
    (after : Lines) : inner.flush <:+: flush (before ++ ls ++ after) := by
  rw [flush_append, flush_append]
  exact h.trans (List.infix_append _ _ _)

theorem infix_bracedBelow (head : String) (body : Lines) :
    body.flush <:+: (bracedBelow head body).flush := by
  rw [bracedBelow, flush_append, flush_append, flush_nest]
  exact List.infix_append _ _ _

/-- A type stays whole where it moves into a namespace. -/
theorem infix_packaged (inPackage : Bool) (before : Lines) {inner ls : Lines}
    (h : inner.flush <:+: ls.flush) :
    inner.flush <:+: flush ((if inPackage then nest (before ++ ls) else before ++ ls) ++ blank) := by
  have hlines : inner.flush <:+: flush (before ++ ls) := by
    rw [flush_append]
    exact h.trans (List.suffix_append _ _).isInfix
  rw [flush_append]
  refine List.IsInfix.trans ?_ (List.prefix_append _ _).isInfix
  cases inPackage with
  | false => exact hlines
  | true => rwa [if_pos rfl, flush_nest]

theorem holds_head (head : String) (body : Lines) :
    (braced head body).Holds [head ++ " " ++ openBrace] :=
  ((Holds.ofText _).left _).left _

theorem holds_headBelow (head : String) (body : Lines) : (bracedBelow head body).Holds [head] :=
  (((Holds.ofText _).left _).left _).left _

theorem holds_braced (head : String) (h : body.Holds ts) : (braced head body).Holds ts :=
  (h.nest.right _).left _

theorem holds_bracedBelow (head : String) (h : body.Holds ts) : (bracedBelow head body).Holds ts :=
  (h.nest.right _).left _

theorem map_staticAttributes {f g : Attribute → String} (h : ∀ a, a.isStatic = true → f a = g a)
    (c : ClassDecl) : (staticAttributes c).map f = (staticAttributes c).map g :=
  List.map_congr_left fun a ha => h a (List.mem_filter.1 ha).2

theorem map_instanceAttributes {f g : Attribute → String} (h : ∀ a, a.isStatic = false → f a = g a)
    (c : ClassDecl) : (instanceAttributes c).map f = (instanceAttributes c).map g :=
  List.map_congr_left fun a ha => h a (by simpa using (List.mem_filter.1 ha).2)

/-- Attributes, constructors and methods, block after block. -/
theorem holds_members {field : Attribute → String} {signature : Method → String}
    {method : Method → Lines} (hmethod : ∀ m, (method m).Holds [signature m]) (as : List Attribute)
    (constructors : List Lines) (ms : List Method) :
    Holds (block (ofTexts (as.map field)) ++ constructors ++ ms.map method).flatten
      (as.map field ++ ms.map signature) := by
  rw [List.flatten_append, List.flatten_append, flatten_block, ← List.flatMap_def]
  exact ((Holds.ofTexts (List.Sublist.refl _)).left _).append (.flatMap fun m _ => hmethod m)

namespace Java

theorem holds_method (m : Method) : (method m).Holds [Language.java.signatureText m] := by
  simp only [Language.signatureText, method, signature]
  split
  · exact (Holds.ofText _).right _
  · exact (holds_head _ _).right _

/-- A class of Java holds the declarations of its members. -/
theorem holds_classLines (d : Diagram) (c : ClassDecl) :
    (classLines d c).Holds (Language.java.declarations c) :=
  ((holds_braced _ (.paragraphs (holds_members holds_method _ _ _))).right _).left _

end Java

namespace CSharp

theorem holds_method (m : Method) : (method m).Holds [Language.csharp.signatureText m] := by
  simp only [Language.signatureText, method]
  split
  · exact (Holds.ofText _).right _
  · exact (holds_headBelow _ _).right _

theorem holds_typeBlock (inPackage : Bool) (text head : String) {blocks : List Lines}
    (h : Holds blocks.flatten ts) : (typeBlock inPackage text head blocks).Holds ts := by
  have hlines := (holds_bracedBelow head h.paragraphs).right (summary text)
  cases inPackage with
  | false => exact hlines.left _
  | true => exact hlines.nest.left _

/-- A class of C# holds the declarations of its members. -/
theorem holds_classLines (d : Diagram) (c : ClassDecl) :
    (classLines d c).Holds (Language.csharp.declarations c) :=
  holds_typeBlock _ _ _ (holds_members holds_method _ _ _)

end CSharp

namespace TypeScript

theorem holds_method (m : Method) : (method m).Holds [Language.typescript.signatureText m] := by
  simp only [Language.signatureText, method]
  split
  · exact Holds.ofText _
  · exact holds_head _ _

theorem holds_typeBlock (inPackage : Bool) (summary head : String) {blocks : List Lines}
    (h : Holds blocks.flatten ts) : (typeBlock inPackage summary head blocks).Holds ts := by
  have hlines := (holds_braced head h.paragraphs).right (ofText ("/** " ++ summary ++ " */"))
  cases inPackage with
  | false => exact hlines.left _
  | true => exact hlines.nest.left _

/-- A class of TypeScript holds the declarations of its members. -/
theorem holds_classLines (d : Diagram) (c : ClassDecl) :
    (classLines d c).Holds (Language.typescript.declarations c) :=
  holds_typeBlock _ _ _ (holds_members holds_method _ _ _)

end TypeScript

namespace Kotlin

theorem holds_method (m : Method) : (method m).Holds [Language.kotlin.signatureText m] := by
  simp only [Language.signatureText, method]
  split
  · exact Holds.ofText _
  · exact holds_head _ _

/-- Static members of Kotlin are held by the companion. -/
theorem holds_companion (c : ClassDecl) : Holds (companion c).flatten
    ((staticAttributes c).map property ++ c.staticMethods.map Language.kotlin.signatureText) := by
  simp only [companion]
  split
  · next h =>
    obtain ⟨hfields, hmethods⟩ := List.append_eq_nil_iff.1 (List.isEmpty_iff.1 h)
    rw [List.map_eq_nil_iff.1 hfields, ClassDecl.staticMethods, List.map_eq_nil_iff.1 hmethods]
    exact List.Sublist.refl _
  · rw [List.flatten_singleton]
    refine holds_braced _ (.paragraphs ?_)
    rw [List.flatten_append, ← List.flatMap_def, ← List.flatMap_def]
    exact (Holds.flatMap fun a _ => .ofText _).append (.flatMap fun m _ => holds_method m)

/-- A class of Kotlin holds the declarations of its members. -/
theorem holds_classLines (d : Diagram) (c : ClassDecl) :
    (classLines d c).Holds (Language.kotlin.declarations c) := by
  refine ((holds_braced _ (.paragraphs ?_)).right _).left _
  rw [List.flatten_append]
  exact (holds_members holds_method _ _ _).append (holds_companion c)

end Kotlin

namespace JavaScript

theorem attributeText_of_static (c : ClassDecl) {a : Attribute} (h : a.isStatic = true) :
    attributeText c a = staticField a :=
  if_pos h

theorem holds_method (m : Method) : (method m).Holds [Language.javascript.signatureText m] := by
  simp only [method]
  split <;> exact (holds_head _ _).right _

/-- A constructor assigns the attributes in their order. -/
theorem holds_constructor (c : ClassDecl) {ms : List Method}
    (hms : mergedParameters ms = mergedParameters c.constructors) (hasParent : Bool) :
    (constructor ms (instanceAttributes c) hasParent).Holds
      ((instanceAttributes c).map (attributeText c)) := by
  refine (holds_braced _ ((Holds.right _ (.flatMap fun a ha => ?_)).left _)).right _
  have hstatic : a.isStatic = false := by simpa using (List.mem_filter.1 ha).2
  rw [attributeText, hstatic, hms]
  exact (Holds.ofText _).right _

/-- There is one constructor, unless there is nothing to assign in an abstract class. -/
theorem constructorBlock_cases (c : ClassDecl) (hasParent : Bool) :
    (constructorBlock c hasParent = [] ∧ instanceAttributes c = []) ∨
      ∃ ms, mergedParameters ms = mergedParameters c.constructors ∧
        constructorBlock c hasParent = [constructor ms (instanceAttributes c) hasParent] := by
  simp only [constructorBlock]
  split
  · exact Or.inr ⟨c.constructors, rfl, rfl⟩
  · next hnone =>
    have hempty : c.constructors = [] := by simpa using hnone
    split
    · refine Or.inr ⟨_, ?_, rfl⟩
      rw [hempty]
      rfl
    · next hattrs => exact Or.inl ⟨rfl, by simp_all⟩

/-- There is a constructor whenever there is an attribute to assign. -/
theorem holds_constructorBlock (c : ClassDecl) (hasParent : Bool) :
    Holds (constructorBlock c hasParent).flatten ((instanceAttributes c).map (attributeText c)) := by
  rcases constructorBlock_cases c hasParent with ⟨hblock, hattrs⟩ | ⟨ms, hms, hblock⟩
  · rw [hblock, hattrs]
    exact List.Sublist.refl _
  · rw [hblock, List.flatten_singleton]
    exact holds_constructor c hms hasParent

/-- A class of JavaScript holds the declarations of its members. -/
theorem holds_classLines (d : Diagram) (c : ClassDecl) :
    (classLines d c).Holds (Language.javascript.declarations c) := by
  refine ((holds_braced _ (.paragraphs ?_)).right _).left _
  rw [List.flatten_append, List.flatten_append, flatten_block, ← List.flatMap_def,
    ← map_staticAttributes (fun a => attributeText_of_static c)]
  exact ((Holds.ofTexts (List.Sublist.refl _)).append (holds_constructorBlock c _)).append
    (.flatMap fun m _ => holds_method m)

/-- The constructor stands in the class as one piece, with the assignments in it. -/
theorem infix_constructor {d : Diagram} {c : ClassDecl} {init : Lines}
    (h : init ∈ (constructorBlock c (d.parent? c).isSome).head?) :
    init.flush <:+: (classLines d c).flush ∧
      init.Holds ((instanceAttributes c).map (attributeText c)) := by
  rcases constructorBlock_cases c (d.parent? c).isSome with ⟨hblock, -⟩ | ⟨ms, hms, hblock⟩
  · rw [hblock] at h
    cases h
  · rw [hblock] at h
    cases h
    refine ⟨?_, holds_constructor c hms _⟩
    refine (infix_flush_paragraphs ?_).trans
      (infix_surround _ (infix_braced ("class " ++ c.name ++
        (d.parent? c).elim "" fun p => " extends " ++ p.name) _) _)
    rw [hblock]
    simp

end JavaScript

namespace Python

theorem holds_method (m : Method) : (method m).Holds [Language.python.signatureText m] := by
  simp only [Language.signatureText, method]
  split
  · exact Holds.ofTexts (List.sublist_append_right _ _)
  · exact (Holds.ofTexts (List.sublist_append_right _ _)).left _

theorem holds_classBlock (name : String) (generics bases : List String) {blocks : List Lines}
    {ts : List String} (h : Holds blocks.flatten ts) : (classBlock name generics bases blocks).Holds ts :=
  ((h.paragraphs.nest.right _).left _).left _

theorem infix_classBlock (name : String) (generics bases : List String) (blocks : List Lines) :
    (paragraphs blocks).flush <:+: (classBlock name generics bases blocks).flush := by
  rw [classBlock, List.append_assoc]
  exact infix_surround _ (by simp) _

/-- Overloads come before the initializer that assigns. -/
theorem exists_initializers {ms : List Method} (h : ms ≠ []) (attrs : List Attribute)
    (hasParent : Bool) : ∃ overloads, initializers ms attrs hasParent =
      overloads ++ [initializer (initSignature ms) (initNames ms) attrs hasParent] := by
  match ms with
  | [m] => exact ⟨[], rfl⟩
  | m :: n :: ms => exact ⟨_, rfl⟩

/-- An initializer assigns the attributes in their order. -/
theorem holds_initializer (signature : String) (names : List String) (attrs : List Attribute)
    (hasParent : Bool) :
    (initializer signature names attrs hasParent).Holds (attrs.map (assignment names)) := by
  refine Holds.right _ (.nest (.ofTexts ?_))
  exact (List.sublist_append_right _ _).trans (List.sublist_append_left _ _)

/-- Only an abstract class without constructors has no `__init__`. -/
theorem constructors_eq_nil_iff (c : ClassDecl) :
    constructors c = [] ↔ (c.isAbstract && c.constructors.isEmpty) = true := by
  unfold constructors
  cases c.isAbstract <;> cases c.constructors <;> simp

theorem attributeText_of_static (c : ClassDecl) {a : Attribute} (h : a.isStatic = true) :
    attributeText c a = classVariable a :=
  if_pos h

theorem attributeText_of_instance {c : ClassDecl}
    (h : ¬(c.isAbstract && c.constructors.isEmpty) = true) (a : Attribute) (ha : a.isStatic = false) :
    attributeText c a = assignment (initNames (constructors c)) a := by
  rw [attributeText, ha, if_neg (by decide), if_neg h]

/-- Instance attributes are in the class or in its last initializer. -/
theorem holds_attributes (c : ClassDecl) (hasParent : Bool) :
    Holds (ofTexts (fields c) ++
        (initializers (constructors c) (instanceAttributes c) hasParent).flatten)
      ((staticAttributes c).map (attributeText c) ++ (instanceAttributes c).map (attributeText c)) := by
  rw [map_staticAttributes fun a => attributeText_of_static c]
  by_cases h : (c.isAbstract && c.constructors.isEmpty) = true
  · have htyped : ∀ a : Attribute, a.isStatic = false → attributeText c a = typedName a :=
      fun a ha => by rw [attributeText, ha, if_neg (by decide), if_pos h]
    rw [map_instanceAttributes htyped, fields, if_pos h]
    exact (Holds.ofTexts (List.Sublist.refl _)).left _
  · obtain ⟨overloads, hinit⟩ := exists_initializers (mt (constructors_eq_nil_iff c).1 h)
      (instanceAttributes c) hasParent
    rw [map_instanceAttributes (attributeText_of_instance h), fields, if_neg h, List.append_nil, hinit,
      List.flatten_append, List.flatten_singleton]
    exact (Holds.ofTexts (List.Sublist.refl _)).append (.right _ (holds_initializer ..))

/-- A class of Python holds the declarations of its members. -/
theorem holds_classLines (d : Diagram) (c : ClassDecl) :
    (classLines d c).Holds (Language.python.declarations c) := by
  refine holds_classBlock _ _ _ ?_
  rw [List.flatten_append, List.flatten_append, List.flatten_append, flatten_block, ← List.flatMap_def,
    List.append_assoc [_].flatten]
  exact ((holds_attributes c _).right _).append (.flatMap fun m _ => holds_method m)

/-- The initializer stands in the class as one piece, with the assignments in it. -/
theorem infix_initializer {d : Diagram} {c : ClassDecl} {init : Lines}
    (h : init ∈ Language.python.initializer? d c) :
    init.flush <:+: (classLines d c).flush ∧
      init.Holds ((instanceAttributes c).map (attributeText c)) := by
  obtain ⟨hinit, hsome⟩ := Option.ite_none_left_eq_some.1 h
  cases hsome
  obtain ⟨overloads, hblocks⟩ := exists_initializers (mt (constructors_eq_nil_iff c).1 hinit)
    (instanceAttributes c) (d.parent? c).isSome
  rw [map_instanceAttributes (attributeText_of_instance hinit)]
  refine ⟨?_, holds_initializer ..⟩
  refine (infix_flush_paragraphs ?_).trans (infix_classBlock _ _ _ _)
  rw [hblocks]
  simp

end Python

namespace Ruby

theorem holds_method (owner : String) (m : Method) :
    (method owner m).Holds [Language.ruby.signatureText m] := by
  simp only [method]
  split <;> exact ((((Holds.ofText _).right _).left _).left _)

theorem holds_accessor {a : Attribute} (h : a.isStatic = false) :
    (accessor a).Holds [attributeText a] := by
  rw [attributeText, h]
  exact ((Holds.ofText _).right _).left _

theorem holds_typeBlock (d : Diagram) (name summary head : String) {blocks : List Lines}
    {ts : List String} (h : Holds blocks.flatten ts) :
    (typeBlock d name summary head blocks).Holds ts := by
  have hlines := (h.paragraphs.nest.right (ofText ("# " ++ summary) ++ ofText head)).left (ofText "end")
  unfold typeBlock
  refine Holds.left ?_ _
  split
  · exact hlines
  · rwa [Holds, flush_nestBy]

/-- A class of Ruby holds the declarations of its members. -/
theorem holds_classLines (d : Diagram) (c : ClassDecl) :
    (classLines d c).Holds (Language.ruby.declarations c) := by
  have hstatic : ∀ a : Attribute, a.isStatic = true → attributeText a = staticField a :=
    fun a ha => if_pos ha
  have hinstance : ∀ a ∈ instanceAttributes c, (accessor a).Holds [attributeText a] :=
    fun a ha => holds_accessor (by simpa using (List.mem_filter.1 ha).2)
  refine holds_typeBlock _ _ _ _ ?_
  rw [List.flatten_append, List.flatten_append, List.flatten_append, List.flatten_append,
    flatten_block, flatten_block, ← List.flatMap_def, ← map_staticAttributes hstatic]
  refine ((Holds.append ?_ (.flatMap hinstance)).left _).append (.flatMap fun m _ => holds_method _ m)
  exact (Holds.ofTexts (List.Sublist.refl _)).right _

end Ruby

end Target

namespace Language

open Target

/-- The lines of a class hold the declarations of all members. -/
theorem holds_classLines (l : Language) (d : Diagram) (c : ClassDecl) :
    (l.listing.classLines d c).Holds (l.declarations c) := by
  cases l with
  | csharp => exact CSharp.holds_classLines d c
  | java => exact Java.holds_classLines d c
  | javascript => exact JavaScript.holds_classLines d c
  | kotlin => exact Kotlin.holds_classLines d c
  | python => exact Python.holds_classLines d c
  | ruby => exact Ruby.holds_classLines d c
  | typescript => exact TypeScript.holds_classLines d c

variable (l : Language) (c : ClassDecl)

/-! ## Order -/

/-- Static attributes are among the declarations, in their order. -/
theorem sublist_staticAttributes :
    ((staticAttributes c).map (l.attributeText c)).Sublist (l.declarations c) := by
  have hfilter := (List.filter_sublist (p := (·.isStatic)) (l := c.attributes)).map (l.attributeText c)
  cases l with
  | csharp | java | typescript => exact hfilter.trans (List.sublist_append_left _ _)
  | kotlin => exact (List.sublist_append_left _ _).trans (List.sublist_append_right _ _)
  | javascript | python | ruby =>
    exact (List.sublist_append_left _ _).trans (List.sublist_append_left _ _)

/-- So are the attributes of the instances. -/
theorem sublist_instanceAttributes :
    ((instanceAttributes c).map (l.attributeText c)).Sublist (l.declarations c) := by
  have hfilter := (List.filter_sublist (p := (!·.isStatic)) (l := c.attributes)).map (l.attributeText c)
  cases l with
  | csharp | java | typescript => exact hfilter.trans (List.sublist_append_left _ _)
  | kotlin => exact (List.sublist_append_left _ _).trans (List.sublist_append_left _ _)
  | javascript | python | ruby =>
    exact (List.sublist_append_right _ _).trans (List.sublist_append_left _ _)

/-- So are static methods. -/
theorem sublist_staticMethods : (c.staticMethods.map l.signatureText).Sublist (l.declarations c) := by
  have hfilter := (List.filter_sublist (p := (·.isStatic)) (l := c.methods)).map l.signatureText
  cases l with
  | kotlin => exact (List.sublist_append_right _ _).trans (List.sublist_append_right _ _)
  | csharp | java | typescript | javascript | python | ruby =>
    exact hfilter.trans (List.sublist_append_right _ _)

/-- And the methods of the instances. -/
theorem sublist_instanceMethods :
    (c.instanceMethods.map l.signatureText).Sublist (l.declarations c) := by
  have hfilter := (List.filter_sublist (p := (!·.isStatic)) (l := c.methods)).map l.signatureText
  cases l with
  | kotlin => exact (List.sublist_append_right _ _).trans (List.sublist_append_left _ _)
  | csharp | java | typescript | javascript | python | ruby =>
    exact hfilter.trans (List.sublist_append_right _ _)

/-- Each member is declared once. -/
theorem perm_declarations :
    ((staticAttributes c).map (l.attributeText c) ++ (instanceAttributes c).map (l.attributeText c) ++
      (c.instanceMethods.map l.signatureText ++ c.staticMethods.map l.signatureText)).Perm
      (l.declarations c) := by
  have hattributes := (List.filter_append_perm (·.isStatic) c.attributes).map (l.attributeText c)
  have hmethods := (List.filter_append_perm (·.isStatic) c.methods).map l.signatureText
  rw [List.map_append] at hattributes hmethods
  have hswapped := List.perm_append_comm.trans hmethods
  cases l with
  | csharp | java | typescript => exact hattributes.append hswapped
  | kotlin =>
    refine List.perm_iff_count.2 fun text => ?_
    simp only [declarations, List.count_append]
    omega
  | javascript | python | ruby => exact hswapped.append_left _

/-- In each language that has an initializer, it stands in the class as one piece. -/
theorem infix_initializer {d : Diagram} {init : Lines} (h : init ∈ l.initializer? d c) :
    init.flush <:+: (l.listing.classLines d c).flush ∧
      init.Holds ((instanceAttributes c).map (l.attributeText c)) := by
  cases l with
  | csharp | java | kotlin | ruby | typescript => cases h
  | javascript => exact JavaScript.infix_constructor h
  | python => exact Python.infix_initializer h

end Language

end ClassSketch
