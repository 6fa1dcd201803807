import ClassSketch.Proofs.Declarations.Texts
import ClassSketch.Proofs.WellFormed.Reading

/-!
# Return types and return statements

The head of a method takes its return type from the table of the language
(`TypeNames`), and whether the stub below it returns a value is decided by the kind
of the type (`Placeholder`). Three languages write the return type of every method
(`TypedLanguage`), and their tables write `void` for `void` alone
(`TypeNames.name_eq_void_iff`). A type is of kind `void` if it is called `void`,
`none` or `unit` (`Placeholder.ofType_eq_void_iff`).

So head and body agree for all types but the last two (`void_iff_no_return`): a
method of type `Unit` has `Unit` in its head and no return statement in its body.
-/

namespace ClassSketch

open Text Layout

/-! ## Types of kind void -/

/-- The name of a type without arguments, in lower case. -/
def TypeExpr.plainKey? (t : TypeExpr) : Option String :=
  if t.isGeneric then none else some (foldKey t.name.toList)

namespace Placeholder

theorem ofKey_eq_void_iff (key : String) : ofKey key = void ↔ key ∈ ["void", "none", "unit"] := by
  unfold ofKey
  split <;> simp_all

/-- Three key words stand for a method without a value. -/
theorem ofType_eq_void_iff {t : TypeExpr} (h : Trimmed t.name.toList) :
    ofType t = void ↔ ∃ key ∈ ["void", "none", "unit"], t.plainKey? = some key := by
  unfold ofType TypeExpr.plainKey?
  split
  · simp
  · rw [ofName, h.trim_eq, ofKey_eq_void_iff]
    simp

end Placeholder

namespace Target

/-- Tables that have `void` for `void` and for nothing else. -/
structure TypeNames.OnlyVoid (names : TypeNames) : Prop where
  absent : names.absent = "void"
  lookup_void : names.plain.lookup "void" = some "void"
  plain : ∀ p ∈ names.plain, p.2 = "void" → p.1 = "void"
  applied : ∀ written container n, names.applied written container n ≠ "void"

theorem TypeNames.OnlyVoid.lookup_getD_eq_iff {names : TypeNames} (h : names.OnlyVoid)
    (name : String) : (names.plain.lookup (foldKey name.toList)).getD name = "void" ↔
      foldKey name.toList = "void" := by
  constructor
  · intro hname
    cases hlookup : names.plain.lookup (foldKey name.toList) with
    | none =>
      rw [hlookup, Option.getD_none] at hname
      rw [hname]
      decide
    | some value =>
      rw [hlookup, Option.getD_some] at hname
      obtain ⟨before, after, hplain, -⟩ := List.lookup_eq_some_iff.1 hlookup
      exact h.plain (foldKey name.toList, value) (hplain ▸ by simp) hname
  · intro hkey
    rw [hkey, h.lookup_void, Option.getD_some]

/-- One of them only, and no type at all, is written as `void`. -/
theorem TypeNames.name_eq_void_iff {names : TypeNames} (h : names.OnlyVoid)
    (type : Option TypeExpr) :
    names.name type = "void" ↔ ∀ t ∈ type, t.plainKey? = some "void" := by
  cases type with
  | none => simp [TypeNames.name, h.absent]
  | some t =>
    simp only [TypeNames.name, TypeExpr.plainKey?, Option.mem_some_iff, forall_eq']
    split
    · simp [h.applied]
    · rw [h.lookup_getD_eq_iff, Option.some.injEq]

/-- A type with arguments is not written so. -/
theorem angled_ne_void (filler written : String) (container : Option String) (n : Nat) :
    angled filler written container n ≠ "void" := by
  intro h
  have hmem : '<' ∈ (angled filler written container n).toList := by simp [angled]
  rw [h] at hmem
  exact absurd hmem (by decide)

theorem onlyVoid_java : Java.typeNames.OnlyVoid where
  absent := rfl
  lookup_void := by decide
  plain := by decide
  applied := angled_ne_void _

theorem onlyVoid_csharp : CSharp.typeNames.OnlyVoid where
  absent := rfl
  lookup_void := by decide
  plain := by decide
  applied := angled_ne_void _

theorem onlyVoid_typescript : TypeScript.typeNames.OnlyVoid where
  absent := rfl
  lookup_void := by decide
  plain := by decide
  applied := angled_ne_void _

/-- No value is returned without a type or with one of the three key words. -/
theorem returnsValue_eq_false_iff {m : Method} (h : ∀ t ∈ m.returns, t.Named Trimmed) :
    returnsValue m = false ↔
      ∀ t ∈ m.returns, ∃ key ∈ ["void", "none", "unit"], t.plainKey? = some key := by
  rw [returnsValue, bne_eq_false_iff_eq]
  cases hreturns : m.returns with
  | none => simp [Placeholder.ofType?]
  | some t =>
    obtain ⟨hname, -⟩ := h t hreturns
    simp only [Placeholder.ofType?, Option.elim_some, Option.mem_some_iff, forall_eq']
    exact Placeholder.ofType_eq_void_iff hname

/-- Return statements start with the keyword. -/
def IsReturn (statement : String) : Prop :=
  "return".toList <+: statement.toList

instance (statement : String) : Decidable (IsReturn statement) :=
  inferInstanceAs (Decidable (_ <+: _))

end Target

open Target

/-! ## Methods with a return type -/

/-- The languages that write a return type in the head of every method. -/
inductive TypedLanguage where
  | csharp
  | java
  | typescript

namespace TypedLanguage

def language : TypedLanguage → Language
  | csharp => .csharp
  | java => .java
  | typescript => .typescript

/-- The head of a concrete method with a given return type. -/
def head (l : TypedLanguage) (m : Method) (type : String) : String :=
  match l with
  | csharp =>
    " ".intercalate ([CSharp.access m.visibility] ++ (if m.isStatic then ["static"] else []) ++
      [type, m.name ++ "(" ++ CSharp.parameters m.parameters ++ ")"])
  | java =>
    words [Java.access m.visibility, wordIf m.isStatic "static", type,
      m.name ++ "(" ++ Java.parameters m.parameters ++ ")"]
  | typescript =>
    " ".intercalate ([TypeScript.access m.visibility] ++ (if m.isStatic then ["static"] else []) ++
      [m.name ++ "(" ++ TypeScript.parameters m.parameters ++ "): " ++ type])

/-- A method with its braces, leading spaces aside. -/
def methodLines (l : TypedLanguage) (head : String) (statements : List String) : List String :=
  match l with
  | csharp => [head, openBrace] ++ statements ++ [closeBrace]
  | java | typescript => [head ++ " " ++ openBrace] ++ statements ++ [closeBrace]

def returnType (l : TypedLanguage) (m : Method) : String :=
  l.language.emitter.typeName m.returns

def placeholder (l : TypedLanguage) : Placeholder → String :=
  match l with
  | csharp => CSharp.placeholder
  | java => Java.placeholder
  | typescript => TypeScript.placeholder

/-- The body of a concrete method. -/
def statements (l : TypedLanguage) (m : Method) : List String :=
  match l with
  | csharp => CSharp.body m
  | java => Java.body m
  | typescript => TypeScript.body m

variable (l : TypedLanguage) (m : Method)

/-- The type is written as `void` without a type or with that key word. -/
theorem returnType_eq_void_iff :
    l.returnType m = "void" ↔ ∀ t ∈ m.returns, t.plainKey? = some "void" := by
  cases l with
  | csharp => exact TypeNames.name_eq_void_iff onlyVoid_csharp m.returns
  | java => exact TypeNames.name_eq_void_iff onlyVoid_java m.returns
  | typescript => exact TypeNames.name_eq_void_iff onlyVoid_typescript m.returns

theorem statements_eq : l.statements m = "// TODO: Implement method" ::
    if returnsValue m then ["return " ++ l.placeholder (.ofType? m.returns) ++ ";"] else [] := by
  cases l <;> rfl

/-- No statement returns exactly if no value is returned. -/
theorem forall_not_isReturn_iff :
    (∀ s ∈ l.statements m, ¬IsReturn s) ↔ returnsValue m = false := by
  have htodo : ¬IsReturn "// TODO: Implement method" := by decide
  have hreturn : IsReturn ("return " ++ l.placeholder (.ofType? m.returns) ++ ";") := by
    rw [IsReturn, String.toList_append, String.toList_append, List.append_assoc]
    exact List.IsPrefix.trans (by decide) (List.prefix_append _ _)
  rw [statements_eq]
  cases returnsValue m <;> simp [htodo, hreturn]

/-! ## Methods in the code of a class -/

theorem flushLine_statements : ∀ s ∈ l.statements m, FlushLine s := by
  have hplaceholder : ∀ kind, '\n' ∉ (l.placeholder kind).toList := fun kind => by
    cases l <;> cases kind <;> decide
  have hreturn : FlushLine ("return " ++ l.placeholder (.ofType? m.returns) ++ ";") :=
    (FlushLine.append (by decide) (hplaceholder _)).append (by decide)
  rw [statements_eq]
  refine List.forall_mem_cons.2 ⟨by decide, ?_⟩
  split
  · exact List.forall_mem_singleton.2 hreturn
  · exact List.forall_mem_nil _

/-- The lines of a method of a class. -/
def method : Lines :=
  match l with
  | csharp => CSharp.method m
  | java => Java.method m
  | typescript => TypeScript.method m

/-- A head with a body in braces. -/
def block (head : String) (body : Lines) : Lines :=
  match l with
  | csharp => bracedBelow head body
  | java | typescript => braced head body

/-- A method has its head, its statements and its braces for flush lines. -/
theorem flush_block {head : String} (hhead : FlushLine head) {statements : List String}
    (hstatements : ∀ s ∈ statements, FlushLine s) :
    (l.block head (Lines.ofTexts statements)).flush = l.methodLines head statements := by
  have hopen : FlushLine openBrace := by decide
  have hclose : FlushLine closeBrace := by decide
  have hheadOpen : FlushLine (head ++ " " ++ openBrace) := (hhead.append (by decide)).append hopen.feed
  have hbody := flatMap_flushLines hstatements
  cases l with
  | csharp =>
    simp [block, methodLines, bracedBelow, hhead.flushLines_eq, hopen.flushLines_eq,
      hclose.flushLines_eq, hbody]
  | java | typescript =>
    simp [block, methodLines, braced, hheadOpen.flushLines_eq, hclose.flushLines_eq, hbody]

variable {m}

section Concrete

variable (hconcrete : m.isAbstract = false)

include hconcrete

theorem signature_csharp : CSharp.signature false m = csharp.head m (csharp.returnType m) := by
  rw [CSharp.signature, hconcrete]
  rfl

theorem declaration_java : Java.declaration false m = java.head m (java.returnType m) := by
  rw [Java.declaration, hconcrete]
  rfl

theorem signature_typescript :
    TypeScript.signature false m = typescript.head m (typescript.returnType m) := by
  rw [TypeScript.signature, hconcrete, Bool.not_false, Bool.false_and, Bool.and_true]
  rfl

/-- The head of a method is one line. -/
theorem flushLine_head (h : m.OneLine) : FlushLine (l.head m (l.returnType m)) := by
  cases l with
  | csharp => exact signature_csharp hconcrete ▸ CSharp.flushLine_signature h
  | java => exact declaration_java hconcrete ▸ Java.flushLine_declaration h
  | typescript => exact signature_typescript hconcrete ▸ TypeScript.flushLine_signature h

/-- A method ends with its head and body. -/
theorem suffix_method :
    l.block (l.head m (l.returnType m)) (Lines.ofTexts (l.statements m)) <:+ l.method m := by
  cases l with
  | csharp =>
    rw [method, CSharp.method, hconcrete, signature_csharp hconcrete]
    exact List.suffix_append _ _
  | java =>
    rw [method, Java.method, hconcrete, declaration_java hconcrete]
    exact List.suffix_append _ _
  | typescript =>
    rw [method, TypeScript.method, hconcrete, signature_typescript hconcrete]
    exact List.suffix_rfl

end Concrete

/-- A method stands in its class as one piece. -/
theorem infix_method (d : Diagram) {c : ClassDecl} (hm : m ∈ c.methods) :
    (l.method m).flush <:+: (l.language.listing.classLines d c).flush := by
  have hmem : l.method m ∈ c.methods.map l.method := List.mem_map_of_mem hm
  have hpart := fun blocks => Lines.infix_flush_paragraphs (List.mem_append_right blocks hmem)
  cases l with
  | csharp => exact infix_packaged _ _ ((hpart _).trans (infix_bracedBelow _ _))
  | java => exact infix_surround _ ((hpart _).trans (infix_braced _ _)) _
  | typescript => exact infix_packaged _ _ ((hpart _).trans (infix_braced _ _))

/-- The code of a class has the head and the body of each concrete method. -/
theorem infix_methodLines (d : Diagram) {c : ClassDecl} (h : c.OneLine) (hm : m ∈ c.methods)
    (hconcrete : m.isAbstract = false) (size : Int) :
    l.methodLines (l.head m (l.returnType m)) (l.statements m) <:+:
      flushLines ((l.language.listing.classLines d c).render size) := by
  have hblock := l.flush_block (l.flushLine_head hconcrete (h.methods m hm)) (l.flushLine_statements m)
  obtain ⟨doc, hmethod⟩ := l.suffix_method hconcrete
  have hlines : l.methodLines (l.head m (l.returnType m)) (l.statements m) <:+ (l.method m).flush := by
    rw [← hmethod, Lines.flush_append, hblock]
    exact List.suffix_append _ _
  rw [flushLines_render]
  exact (hlines.isInfix.trans (l.infix_method d hm)).trans (List.prefix_append _ _).isInfix

/-- Head and body agree on whether a value is returned for all types but two. -/
theorem agree_iff (h : ∀ t ∈ m.returns, t.Named Trimmed) :
    (l.returnType m = "void" ↔ ∀ s ∈ l.statements m, ¬IsReturn s) ↔
      ∀ t ∈ m.returns, t.plainKey? ≠ some "none" ∧ t.plainKey? ≠ some "unit" := by
  rw [l.returnType_eq_void_iff, l.forall_not_isReturn_iff, returnsValue_eq_false_iff h]
  cases m.returns with
  | none => simp
  | some t =>
    simp only [Option.mem_some_iff, forall_eq', List.mem_cons, List.not_mem_nil, or_false,
      exists_eq_or_imp, exists_eq_left]
    grind

end TypedLanguage

/-- In the code of a class, a concrete method of type `void` has no return statement and
one of another type has one, unless the type is called `none` or `unit`: its head has
then another type than `void`, but its body has no return statement. -/
theorem void_iff_no_return (l : TypedLanguage) (text : String) {c : ClassDecl}
    (hc : c ∈ (Reading.ofText text).diagram.classes) {m : Method} (hm : m ∈ c.methods)
    (hconcrete : m.isAbstract = false) (margin : Margin) :
    (margin.fault? (l.language.deepest (Reading.ofText text).diagram) = none → ∃ code,
      l.language.emitter.classText margin (Reading.ofText text).diagram c = .ok code) ∧
    (∀ code, l.language.emitter.classText margin (Reading.ofText text).diagram c = .ok code →
      l.methodLines (l.head m (l.returnType m)) (l.statements m) <:+: flushLines code) ∧
    ((l.returnType m = "void" ↔ ∀ s ∈ l.statements m, ¬IsReturn s) ↔
      ∀ t ∈ m.returns, t.plainKey? ≠ some "none" ∧ t.plainKey? ≠ some "unit") := by
  have hwrites := l.language.fits_listing.classText margin (Reading.ofText text).diagram c
  refine ⟨fun hwidth => ?_, fun code hcode => ?_, ?_⟩
  · exact ⟨_, hwrites.eq_ok ((l.language.within_classLines _ c).possible hwidth)⟩
  · rw [(hwrites.text_eq hcode).2]
    exact l.infix_methodLines _ (oneLine_of_mem_classes hc) hm hconcrete margin.size
  · have hclass : c.WellFormed :=
      (Source.Reader.wellFormed_after _).entities _ (Diagram.mem_classes_iff.1 hc)
    exact l.agree_iff (hclass.methods m hm).1.returns

/-- A method of a generic type and one of type `Unit`. -/
def unitMethod : String :=
  "class Box \x7b\n#get(key: int): List<String>\n+clear(): Unit\n\x7d"

/-- A method with a value is written with its type and a return. -/
theorem void_iff_no_return_get :
    ∃ c ∈ (Reading.ofText unitMethod).diagram.classes, ∃ m ∈ c.methods, ∃ code,
      m.isAbstract = false ∧
      Language.java.emitter.classText { size := 4, memory := 80 }
        (Reading.ofText unitMethod).diagram c = .ok code ∧
      ["protected List<Object> get(int key) \x7b", "// TODO: Implement method", "return null;",
        "\x7d"] <:+: flushLines code ∧
      (TypedLanguage.java.returnType m = "void" ↔
        ∀ s ∈ TypedLanguage.java.statements m, ¬IsReturn s) := by
  have hget : ∃ c ∈ (Reading.ofText unitMethod).diagram.classes, ∃ m ∈ c.methods,
      m.isAbstract = false ∧
      TypedLanguage.java.methodLines (TypedLanguage.java.head m (TypedLanguage.java.returnType m))
        (TypedLanguage.java.statements m) = ["protected List<Object> get(int key) \x7b",
          "// TODO: Implement method", "return null;", "\x7d"] ∧
      ∀ t ∈ m.returns, t.plainKey? ≠ some "none" ∧ t.plainKey? ≠ some "unit" := by
    decide +kernel
  have hwidth : Margin.fault? { size := 4, memory := 80 }
      (Language.java.deepest (Reading.ofText unitMethod).diagram) = none := by
    decide +kernel
  obtain ⟨c, hc, m, hm, hconcrete, hlines, htype⟩ := hget
  obtain ⟨hexists, hcode, hagree⟩ :=
    void_iff_no_return .java unitMethod hc hm hconcrete { size := 4, memory := 80 }
  obtain ⟨code, hrender⟩ := hexists hwidth
  exact ⟨c, hc, m, hm, code, hconcrete, hrender, hlines ▸ hcode code hrender, hagree.2 htype⟩

/-- A method of type `Unit` has this type in its head, but does not return a value. -/
theorem unit_without_return :
    ∃ c ∈ (Reading.ofText "class A \x7b\n+m(): Unit\n\x7d").diagram.classes, ∃ m ∈ c.methods,
      m.isAbstract = false ∧
      TypedLanguage.java.head m (TypedLanguage.java.returnType m) = "public Unit m()" ∧
      TypedLanguage.csharp.head m (TypedLanguage.csharp.returnType m) = "public Unit m()" ∧
      TypedLanguage.typescript.head m (TypedLanguage.typescript.returnType m) = "public m(): Unit" ∧
      ∀ l ∈ [TypedLanguage.csharp, .java, .typescript],
        l.statements m = ["// TODO: Implement method"] ∧
        ¬(l.returnType m = "void" ↔ ∀ s ∈ l.statements m, ¬IsReturn s) := by
  decide +kernel

end ClassSketch
