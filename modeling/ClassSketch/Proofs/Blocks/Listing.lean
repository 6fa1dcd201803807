import ClassSketch.Proofs.Blocks.Lines
import ClassSketch.Proofs.WellFormed.Basic

/-!
# Blocks in emitted lines

The lines that Ruby writes for a package, a type and a method are blocks, if the
names in them are words and no text has a line feed. A package opens a module for
each of its names, and `end` stands as often behind it (`blocks_package`). The names
are never empty and have only letters and digits, whatever the package is called
(`isWordText_moduleNames`).

`Entity.Unbroken` says what is needed of an entity besides being well formed : no
line feed in its type parameters, types and parameters.
-/

namespace ClassSketch

open Text Layout

/-! ## Entities without line feeds -/

structure ClassDecl.Unbroken (c : ClassDecl) : Prop where
  generics : ∀ g ∈ c.generics, '\n' ∉ g.toList
  attributes : ∀ a ∈ c.attributes, a.OneLine
  constructors : ∀ m ∈ c.constructors, m.OneLine
  methods : ∀ m ∈ c.methods, m.OneLine

structure InterfaceDecl.Unbroken (i : InterfaceDecl) : Prop where
  generics : ∀ g ∈ i.generics, '\n' ∉ g.toList
  methods : ∀ m ∈ i.methods, m.OneLine

/-- No line feed in an entity; the values of an enum are words anyway. -/
def Entity.Unbroken : Entity → Prop
  | .cls c => c.Unbroken
  | .interface i => i.Unbroken
  | .enum _ => True

theorem Entity.WellFormed.isWordText_name {e : Entity} (h : e.WellFormed) :
    isWordText e.name.toList = true := by
  cases e with
  | cls c => exact ClassDecl.WellFormed.name h
  | interface i => exact InterfaceDecl.WellFormed.name h
  | enum e => exact EnumDecl.WellFormed.name h

namespace Diagram.WellFormed

variable {d : Diagram} (h : d.WellFormed)

include h

/-- The name of a parent is a word. -/
theorem parent {c p : ClassDecl} (hp : d.parent? c = some p) : isWordText p.name.toList = true := by
  obtain ⟨r, -, hfind⟩ := Option.bind_eq_some_iff.1 hp
  have hmem := mem_classes_iff.1 (List.mem_of_find?_eq_some hfind)
  exact (h.entities _ hmem).isWordText_name

theorem interfacesVia {kind : RelationKind} {source : String} :
    ∀ i ∈ d.interfacesVia kind source, isWordText i.name.toList = true := by
  intro i hi
  obtain ⟨target, -, hfind⟩ := List.mem_filterMap.1 hi
  have hmem := List.mem_reverse.1 (List.mem_of_find?_eq_some hfind)
  obtain ⟨e, he, hinterface⟩ := List.mem_filterMap.1 hmem
  cases e with
  | cls c => cases hinterface
  | interface i' =>
    cases hinterface
    exact (h.entities _ he).isWordText_name
  | enum e => cases hinterface

end Diagram.WellFormed

namespace Target

/-- Merged parameters come from the constructors. -/
theorem mergedParameters_subset (ms : List Method) :
    mergedParameters ms ⊆ ms.flatMap (·.parameters) := by
  unfold mergedParameters
  refine List.foldlRecOn (motive := fun ps => ps ⊆ ms.flatMap (·.parameters)) _ _
    (List.nil_subset _) ?_
  intro ps hps p hp
  split
  · exact hps
  · exact List.append_subset.2 ⟨hps, List.cons_subset.2 ⟨hp, List.nil_subset _⟩⟩

theorem not_mem_typeParams {names : List String} (h : ∀ n ∈ names, '\n' ∉ n.toList) :
    '\n' ∉ (typeParams names).toList :=
  not_mem_ite (by decide)
    (not_mem_append (not_mem_append (by decide) (not_mem_commas h)) (by decide))

theorem not_mem_digits (n : Nat) : '\n' ∉ (toString n).toList := by
  rw [Nat.toString_eq_repr, Nat.toList_repr]
  intro hmem
  exact absurd (Nat.isDigit_of_mem_toDigits (by decide) (by decide) hmem) (by decide)

namespace Ruby

/-! ## Heads of blocks -/

/-- A word ends where the tail starts. -/
theorem isWordWith_append {tail : List Char → Bool} {w rest : List Char} (hw : isWordText w = true)
    (hend : rest.head?.any isWord = false) (htail : rest = [] ∨ tail rest = true) :
    isWordWith tail (w ++ rest) = true := by
  obtain ⟨hne, hall⟩ := (Bool.and_eq_true _ _).mp hw
  have htake := takeSome_append (p := isWord) (s := rest) (by simpa using hne)
    (List.all_eq_true.1 hall) hend
  rw [isWordWith, htake]
  rcases htail with rfl | htail <;> simp [*]

/-- The head of a class opens a block, with a parent or without. -/
theorem opensBlock_class {name : String} (hname : isWordText name.toList = true)
    {parent : Option ClassDecl} (hparent : ∀ p ∈ parent, isWordText p.name.toList = true) :
    opensBlock ("class " ++ name ++ parent.elim "" fun p => " < " ++ p.name) = true := by
  have hhead : ∀ rest : List Char, rest.head?.any isWord = false →
      (rest = [] ∨ isSuperclass rest = true) →
      isClassHead ("class ".toList ++ (name.toList ++ rest)) = true := by
    intro rest hend hrest
    rw [isClassHead, after?_append]
    exact isWordWith_append hname hend hrest
  have hdrop : ∀ s, dropAccess ("class ".toList ++ s) = "class ".toList ++ s := fun _ => rfl
  rw [opensBlock, String.toList_append, String.toList_append, List.append_assoc, hdrop]
  cases parent with
  | none =>
    simp only [hhead [] rfl (Or.inl rfl), Option.elim_none, String.toList_empty, Bool.true_or]
  | some p =>
    have hsuper : isSuperclass (" < " ++ p.name).toList = true := by
      rw [String.toList_append, isSuperclass, after?_append]
      exact hparent p rfl
    have hend : (" < " ++ p.name).toList.head?.any isWord = false := by
      rw [String.toList_append]
      rfl
    simp only [hhead _ hend (Or.inr hsuper), Option.elim_some, Bool.true_or]

/-- The head of a module opens a block. -/
theorem opensBlock_module {name : String} (hname : isWordText name.toList = true) :
    opensBlock ("module " ++ name) = true := by
  have hdrop : ∀ s, dropAccess ("module ".toList ++ s) = "module ".toList ++ s := fun _ => rfl
  have hhead : isModuleHead ("module ".toList ++ name.toList) = true := by
    rw [isModuleHead, after?_append]
    exact hname
  simp only [opensBlock, String.toList_append, hdrop, hhead, Bool.or_true, Bool.true_or]

/-- A parameter list, or none. -/
def IsTail (rest : List Char) : Prop :=
  rest = [] ∨ isParameterList rest = true

theorem isTail_params (params : String) : IsTail ("(" ++ params ++ ")").toList := by
  have hchars : ("(" ++ params ++ ")").toList = ('(' :: params.toList) ++ [')'] := by simp
  refine Or.inr ?_
  rw [hchars, isParameterList, List.getLast?_concat]
  rfl

/-- A definition has a word for its name, and maybe parameters behind it. -/
theorem isDefinitionHead_append (isStatic : Bool) {w rest : List Char} (hw : isWordText w = true)
    (hrest : IsTail rest) :
    isDefinitionHead ("def ".toList ++ ((if isStatic then "self." else "").toList ++ (w ++ rest))) =
      true := by
  have hend : rest.head?.any isWord = false := by
    rcases hrest with rfl | hlist
    · rfl
    · obtain ⟨hhead, -⟩ := (Bool.and_eq_true _ _).mp hlist
      rw [beq_iff_eq.1 hhead]
      decide
  have hname := isWordWith_append hw hend hrest
  rw [isDefinitionHead, after?_append, Option.any_some]
  cases isStatic with
  | false => simp [hname]
  | true => simp only [if_true, after?_append, Option.any_some, hname, Bool.or_true]

section Definition

variable {line : String} {s : List Char} (hline : line.toList = "def ".toList ++ s)
  (h : isDefinitionHead ("def ".toList ++ s) = true)

include hline h

theorem opensBlock_of_definition : opensBlock line = true := by
  have hdrop : dropAccess ("def ".toList ++ s) = "def ".toList ++ s := rfl
  rw [opensBlock, hline, hdrop, h, Bool.or_true]

theorem opensBlock_of_access {w : String} (hw : (w ++ " ").toList ∈ accessWords) :
    opensBlock (w ++ " " ++ line) = true := by
  have hdrop : ∀ a ∈ accessWords, dropAccess (a ++ ("def ".toList ++ s)) = "def ".toList ++ s := by
    intro a ha
    simp only [accessWords, List.mem_cons, List.not_mem_nil, or_false] at ha
    rcases ha with rfl | rfl | rfl <;> rfl
  have hchars : (w ++ " " ++ line).toList = (w ++ " ").toList ++ ("def ".toList ++ s) := by
    rw [String.toList_append, hline]
  rw [opensBlock, hchars, hdrop _ hw, h, Bool.or_true]

end Definition

/-- The signature of a method opens a block, with any access before it. -/
theorem opensBlock_signature {m : Method} (h : m.OneLine) : opensBlock (signature m) = true := by
  have htail : IsTail (if commas (m.parameters.map (·.name)) = "" then ""
      else "(" ++ commas (m.parameters.map (·.name)) ++ ")").toList := by
    split
    · exact Or.inl rfl
    · exact isTail_params _
  have hhead := isDefinitionHead_append m.isStatic h.name htail
  have hline : ∀ a b c d : String, (a ++ b ++ c ++ d).toList =
      a.toList ++ (b.toList ++ (c.toList ++ d.toList)) := by simp
  simp only [signature]
  split
  · exact opensBlock_of_definition (hline ..) hhead
  · next w haccess =>
    refine opensBlock_of_access (hline ..) hhead ?_
    split
    · decide
    · cases hvisibility : m.visibility <;> rw [hvisibility] at haccess <;> cases haccess <;> decide

/-! ## Members -/

theorem plain_placeholder (type : Option TypeExpr) : Plain (placeholder type) := by
  unfold placeholder
  split <;> decide

/-- A definition is a block, with a comment before it. -/
theorem blocks_definition {comment : Lines} {signature : String} {body : List String}
    (hcomment : Blocks comment.flush) (hline : FlushLine signature)
    (hhead : opensBlock signature = true) (hbody : ∀ s ∈ body, Plain s) :
    Blocks (definition comment signature body).flush := by
  rw [definition, List.append_assoc, List.append_assoc,
    ← List.append_assoc (Lines.ofText signature)]
  exact blocks_append hcomment (blocks_surround hline hhead (blocks_ofTexts hbody))

theorem oneLine_typeNames : typeNames.OneLine where
  absent := by decide
  plain := by decide +kernel
  containers := by decide +kernel
  applied := by
    intro written known n hwritten hknown
    cases known with
    | none => exact hwritten
    | some c => exact hknown c rfl

theorem not_mem_typeName {type : Option TypeExpr} (h : ∀ t ∈ type, t.Named Flush) :
    '\n' ∉ (typeNames.name type).toList :=
  (flush_typeName oneLine_typeNames h).feed

theorem plain_returnComment {type : Option TypeExpr} (h : ∀ t ∈ type, t.Named Flush) :
    Plain ("# @return [" ++ typeNames.name type ++ "]") :=
  ((Aside.append (by decide) (not_mem_typeName h)).append (by decide)).plain

/-- Comments are plain. -/
theorem blocks_doc {ps : List Parameter} (hps : ∀ p ∈ ps, p.OneLine) {returns : Option TypeExpr}
    (hreturns : ∀ t ∈ returns, t.Named Flush) : Blocks (doc ps returns).flush := by
  refine blocks_append (blocks_ofTexts (List.forall_mem_map.2 fun p hp => ?_)) ?_
  · have hparam : Aside ("# @param " ++ p.name) := .append (by decide) (hps p hp).name
    have htype := not_mem_typeName (hps p hp).type
    exact (((hparam.append (by decide)).append htype).append (by decide)).plain
  · split
    · exact .nil
    · exact blocks_ofText (plain_returnComment hreturns)

/-- So is a static field. -/
theorem plain_staticField {a : Attribute} (h : a.OneLine) : Plain (staticField a) := by
  have hword := FlushLine.of_isWordText h.name
  have hall := List.all_eq_true.1 ((Bool.and_eq_true _ _).mp h.name).2
  have hsolid : ' ' ∉ a.name.toList := fun hmem => absurd (hall _ hmem) (by decide)
  refine .spaced ?_ ?_ (by decide) (by decide) (plain_placeholder a.type).line.feed
  · exact .ite (flushLine_upper h.name) (FlushLine.append (by decide) hword.feed)
  · split
    · rw [upper, String.toList_ofList]
      intro hmem
      obtain ⟨c, hc, hspace⟩ := List.mem_flatMap.1 hmem
      have hupper := (isSolid_upperChar (isSolid_of_isWord (hall c hc))).2
      exact absurd (List.all_eq_true.1 hupper _ hspace) (by decide)
    · rw [String.toList_append]
      exact List.not_mem_append (by decide) hsolid

theorem blocks_accessor {a : Attribute} (h : a.OneLine) : Blocks (accessor a).flush := by
  have hname := (FlushLine.of_isWordText h.name).feed
  refine blocks_append (blocks_append (blocks_ofText (plain_returnComment h.type)) ?_) ?_
  · have hhead : Aside (if a.isFinal then "attr_reader :" else "attr_accessor :") := by
      split <;> decide
    exact blocks_ofText (hhead.append hname).plain
  · cases haccess : access? a.visibility with
    | none => exact .nil
    | some w =>
      have hhidden : '\n' ∉ (if a.isFinal then "" else ", :" ++ a.name ++ "=").toList :=
        not_mem_ite (by decide) (not_mem_append (not_mem_append (by decide) hname) (by decide))
      have hsolid : ' ' ∉ w.toList := by
        cases hvisibility : a.visibility <;> rw [hvisibility] at haccess <;> cases haccess <;>
          decide
      refine blocks_ofText ?_
      rw [String.append_assoc]
      exact .spaced (flushLine_access? haccess) hsolid (by decide) (by decide)
        (not_mem_append hname hhidden)

theorem blocks_initializer {ms : List Method} (hms : ∀ m ∈ ms, m.OneLine) {attrs : List Attribute}
    (hattrs : ∀ a ∈ attrs, a.OneLine) (hasParent : Bool) :
    Blocks (initializer ms attrs hasParent).flush := by
  have hparams : ∀ p ∈ mergedParameters ms, p.OneLine := by
    intro p hp
    obtain ⟨m, hm, hp⟩ := List.mem_flatMap.1 (mergedParameters_subset ms hp)
    exact (hms m hm).parameters p hp
  have hnames : '\n' ∉ (commas (((mergedParameters ms).map (·.name)).map (· ++ " = nil"))).toList :=
    not_mem_commas (List.forall_mem_map.2 (List.forall_mem_map.2 fun p hp =>
      not_mem_append (hparams p hp).name (by decide)))
  refine blocks_definition (blocks_doc hparams nofun) ?_ ?_ ?_
  · exact .ite (by decide) (FlushLine.append (.append (by decide) hnames) (by decide))
  · unfold initializerHead
    split
    · decide
    · refine opensBlock_of_definition (s := "initialize".toList ++ ("(" ++ commas
        (((mergedParameters ms).map (·.name)).map (· ++ " = nil")) ++ ")").toList) (by simp) ?_
      exact isDefinitionHead_append false (w := "initialize".toList) (by decide) (isTail_params _)
  · refine List.forall_mem_append.2 ⟨List.forall_mem_append.2 ⟨?_, ?_⟩, ?_⟩
    · split
      · exact List.forall_mem_singleton.2 (by decide)
      · exact List.forall_mem_nil _
    · refine List.forall_mem_map.2 fun a ha => ?_
      have hname := (FlushLine.of_isWordText (hattrs a ha).name).feed
      have hhead : Aside ("@" ++ a.name) := .append (by decide) hname
      exact ((hhead.append (by decide)).append
        (not_mem_ite hname (plain_placeholder a.type).line.feed)).plain
    · exact List.forall_mem_singleton.2 (by decide)

theorem blocks_methodWith {m : Method} (h : m.OneLine) {body : List String}
    (hbody : ∀ s ∈ body, Plain s) : Blocks (methodWith m body).flush :=
  blocks_definition (blocks_doc h.parameters h.returns) (flushLine_signature h)
    (opensBlock_signature h) hbody

theorem blocks_abstractMethod {owner : String} (howner : isWordText owner.toList = true)
    {m : Method} (h : m.OneLine) : Blocks (abstractMethod owner m).flush := by
  have hraise : Aside ("raise NotImplementedError, '" ++ owner) :=
    .append (by decide) (FlushLine.of_isWordText howner).feed
  refine blocks_methodWith h (List.forall_mem_singleton.2 ?_)
  exact (((hraise.append (by decide)).append (FlushLine.of_isWordText h.name).feed).append
    (by decide)).plain

theorem blocks_method {owner : String} (howner : isWordText owner.toList = true) {m : Method}
    (h : m.OneLine) : Blocks (method owner m).flush := by
  unfold method
  split
  · exact blocks_abstractMethod howner h
  · refine blocks_methodWith h (List.forall_mem_cons.2 ⟨by decide, ?_⟩)
    split
    · exact List.forall_mem_singleton.2 (plain_placeholder m.returns)
    · exact List.forall_mem_nil _

/-! ## Types -/

/-- A type is a block, whatever the modules around it are. -/
theorem blocks_typeBlock {d : Diagram} {name summary head : String} {blocks : List Lines}
    (hsummary : '\n' ∉ summary.toList) (hline : FlushLine head) (hhead : opensBlock head = true)
    (hblocks : ∀ b ∈ blocks, Blocks b.flush) :
    Blocks (typeBlock d name summary head blocks).flush := by
  have hcomment : Plain ("# " ++ summary) := (Aside.append (by decide) hsummary).plain
  have hlines : Blocks (Lines.ofText ("# " ++ summary) ++ Lines.ofText head ++
      (Lines.paragraphs blocks).nest ++ Lines.ofText "end").flush := by
    rw [List.append_assoc, List.append_assoc, ← List.append_assoc (Lines.ofText head)]
    exact blocks_append (blocks_ofText hcomment)
      (blocks_surround hline hhead (blocks_paragraphs hblocks))
  refine blocks_append ?_ blocks_blank
  cases d.packageOf name with
  | none => exact hlines
  | some p =>
    rw [Lines.flush_nestBy]
    exact hlines

theorem blocks_of_mem_block {ls : Lines} (h : Blocks ls.flush) :
    ∀ b ∈ block ls, Blocks b.flush := by
  unfold block
  split
  · exact List.forall_mem_nil _
  · exact List.forall_mem_singleton.2 h

theorem blocks_includes {is : List InterfaceDecl}
    (h : ∀ i ∈ is, isWordText i.name.toList = true) : ∀ b ∈ includes is, Blocks b.flush := by
  refine blocks_of_mem_block (blocks_ofTexts (List.forall_mem_map.2 fun i hi => ?_))
  exact (Aside.append (by decide) (FlushLine.of_isWordText (h i hi)).feed).plain

variable {d : Diagram}

/-- The blocks of a class match. -/
theorem blocks_classLines (hd : d.WellFormed) {c : ClassDecl} (hc : c.WellFormed)
    (hunbroken : c.Unbroken) : Blocks (classLines d c).flush := by
  have hname := FlushLine.of_isWordText hc.name
  have hparent : ∀ p ∈ d.parent? c, isWordText p.name.toList = true := fun p hp => hd.parent hp
  have hconstructors : ∀ m ∈ constructors c, m.OneLine := by
    unfold constructors
    split
    · exact List.forall_mem_singleton.2 ⟨hc.name, nofun, List.forall_mem_nil _⟩
    · exact hunbroken.constructors
  have hinstance : ∀ a ∈ instanceAttributes c, a.OneLine := fun a ha =>
    hunbroken.attributes a (List.mem_of_mem_filter ha)
  refine blocks_typeBlock ?_ ?_ (opensBlock_class hc.name hparent) ?_
  · exact not_mem_append (not_mem_append (not_mem_append (not_mem_ite (by decide) (by decide))
      hname.feed) (not_mem_typeParams hunbroken.generics)) (by decide)
  · refine .append (.append (by decide) hname.feed) ?_
    cases hp : d.parent? c with
    | none => decide
    | some p => exact not_mem_append (by decide) (FlushLine.of_isWordText (hparent p hp)).feed
  · simp only [List.forall_mem_append, List.forall_mem_map]
    refine ⟨⟨⟨⟨blocks_includes hd.interfacesVia, blocks_of_mem_block (blocks_ofTexts ?_)⟩,
      blocks_of_mem_block (blocks_flatMap ?_)⟩, ?_⟩, fun m hm => ?_⟩
    · exact List.forall_mem_map.2 fun a ha =>
        plain_staticField (hunbroken.attributes a (List.mem_of_mem_filter ha))
    · exact fun a ha => blocks_accessor (hinstance a ha)
    · split
      · exact List.forall_mem_nil _
      · exact List.forall_mem_singleton.2 (blocks_initializer hconstructors hinstance _)
    · exact blocks_method hc.name (hunbroken.methods m hm)

/-- The blocks of an interface match. -/
theorem blocks_interfaceLines (hd : d.WellFormed) {i : InterfaceDecl} (hi : i.WellFormed)
    (hunbroken : i.Unbroken) : Blocks (interfaceLines d i).flush := by
  have hname := FlushLine.of_isWordText hi.name
  refine blocks_typeBlock ?_ (.append (by decide) hname.feed) (opensBlock_module hi.name)
    (List.forall_mem_append.2 ⟨blocks_includes hd.interfacesVia, ?_⟩)
  · exact not_mem_append (not_mem_append hname.feed (not_mem_typeParams hunbroken.generics))
      (by decide)
  · exact List.forall_mem_map.2 fun m hm => blocks_abstractMethod hi.name (hunbroken.methods m hm)

/-- The blocks of an enumeration match. -/
theorem blocks_enumLines (d : Diagram) {e : EnumDecl} (he : e.WellFormed) :
    Blocks (enumLines d e).flush := by
  have hname := FlushLine.of_isWordText he.name
  have hvalue : ∀ v ∈ e.values, '\n' ∉ v.toList := fun v hv =>
    (FlushLine.of_isWordText (he.values v hv)).feed
  refine blocks_typeBlock (not_mem_append hname.feed (by decide)) (.append (by decide) hname.feed)
    (opensBlock_module he.name) ?_
  split
  · exact List.forall_mem_nil _
  · refine List.forall_mem_cons.2 ⟨blocks_ofTexts ?_, List.forall_mem_singleton.2 ?_⟩
    · refine List.forall_mem_map.2 fun (v, i) hv => ?_
      have hword := he.values v (List.fst_mem_of_mem_zipIdx hv)
      have hall := List.all_eq_true.1 ((Bool.and_eq_true _ _).mp hword).2
      have hsolid : ' ' ∉ v.toList := fun hmem => absurd (hall _ hmem) (by decide)
      exact .spaced (.of_isWordText hword) hsolid (by decide) (by decide) (not_mem_digits i)
    · exact blocks_ofText
        ((Aside.append (by decide) (not_mem_commas hvalue)).append (by decide)).plain

/-- The blocks of an entity match. -/
theorem blocks_entityLines (hd : d.WellFormed) {e : Entity} (he : e.WellFormed)
    (hunbroken : e.Unbroken) : Blocks (listing.entityLines d e).flush := by
  cases e with
  | cls c => exact blocks_classLines hd he hunbroken
  | interface i => exact blocks_interfaceLines hd he hunbroken
  | enum e => exact blocks_enumLines d he

/-! ## Packages -/

/-- What holds of every letter and digit of ASCII. -/
theorem of_isModuleChar {P : Char → Prop}
    (h : ∀ n < 128, isModuleChar (Char.ofNat n) = true → P (Char.ofNat n)) {c : Char}
    (hc : isModuleChar c = true) : P c := by
  have hlt : c.toNat < 128 := by
    have htoNat : c.toNat = c.val.toNat := rfl
    delta isModuleChar Char.isAlphanum Char.isAlpha Char.isUpper Char.isLower Char.isDigit at hc
    simp [UInt32.le_iff_toNat_le] at hc
    omega
  have hP := h c.toNat hlt
  rw [Char.ofNat_toNat] at hP
  exact hP hc

/-- The name of a module has only the characters of a word. -/
theorem isModuleChar_of_mem_moduleName (part : List Char) :
    ∀ c ∈ moduleName part, isModuleChar c = true := by
  intro c hc
  obtain ⟨word, hword, hc⟩ := List.mem_flatMap.1 hc
  have hchars : ∀ x ∈ word, isModuleChar x = true := fun x hx => by
    simpa using (of_mem_splitOnP (List.mem_of_mem_filter hword)).2 x hx
  cases word with
  | nil => cases hc
  | cons x word =>
    obtain ⟨hx, hrest⟩ := List.forall_mem_cons.1 hchars
    rcases List.mem_cons.1 hc with rfl | hc
    · exact of_isModuleChar (P := fun c => isModuleChar c.toUpper = true) (by decide +kernel) hx
    · exact hrest c hc

/-- The modules of a package are named by words, whatever the package is called. -/
theorem isWordText_moduleNames (package : String) :
    ∀ m ∈ moduleNames package, isWordText m.toList = true := by
  unfold moduleNames
  simp only
  split
  · exact List.forall_mem_singleton.2 (by decide)
  · refine List.forall_mem_map.2 fun name hname => ?_
    obtain ⟨hpart, hne⟩ := List.mem_filter.1 hname
    obtain ⟨part, -, rfl⟩ := List.mem_map.1 hpart
    rw [String.toList_ofList]
    refine (Bool.and_eq_true _ _).mpr ⟨hne, List.all_eq_true.2 fun c hc => ?_⟩
    exact of_isModuleChar (P := fun c => isWord c = true) (by decide +kernel)
      (isModuleChar_of_mem_moduleName part c hc)

theorem flushLine_module {name : String} (h : isWordText name.toList = true) :
    FlushLine ("module " ++ name) :=
  .append (by decide) (FlushLine.of_isWordText h).feed

/-- A package opens a module for each part of its name. -/
theorem flush_packageStart (package : String) :
    (packageStart package).flush = (moduleNames package).map ("module " ++ ·) := by
  have hnames := isWordText_moduleNames package
  rw [packageStart, Lines.flush_flatMap]
  conv_rhs => rw [← List.zipIdx_map_fst 0 (moduleNames package), List.map_map, List.map_eq_flatMap]
  refine List.flatMap_congr fun (m, i) hm => ?_
  have hword := hnames m (List.fst_mem_of_mem_zipIdx hm)
  rw [Lines.flush_nestBy, Lines.flush_ofText, (flushLine_module hword).flushLines_eq]
  rfl

/-- And it closes as many. -/
theorem flush_packageEnd (package : String) :
    (packageEnd package).flush = List.replicate (moduleNames package).length "end" ++ [""] := by
  have hend : flushLines "end" = ["end"] := FlushLine.flushLines_eq (by decide)
  have hblank : Lines.blank.flush = [""] := by decide
  simp only [packageEnd, Lines.flush_append, Lines.flush_flatMap, Lines.flush_nestBy,
    Lines.flush_ofText, hend, hblank, ← List.map_eq_flatMap, List.map_const', List.length_reverse,
    List.length_range]

/-- As many `end` as there are modules around lines. -/
theorem blocks_modules {names lines : List String}
    (hnames : ∀ m ∈ names, isWordText m.toList = true) (h : Blocks lines) :
    Blocks (names.map ("module " ++ ·) ++ lines ++ List.replicate names.length "end") := by
  induction names with
  | nil => simpa using h
  | cons m names ih =>
    obtain ⟨hm, hnames⟩ := List.forall_mem_cons.1 hnames
    have hblock := Blocks.block (opensBlock_module hm) (ih hnames)
    rw [List.length_cons, List.replicate_succ', List.map_cons, ← List.append_assoc]
    exact hblock

/-- So the modules of a package are blocks around its members. -/
theorem blocks_package (package : String) {body : Lines} (h : Blocks body.flush) :
    Blocks (packageStart package ++ body ++ packageEnd package).flush := by
  have hmodules := blocks_modules (isWordText_moduleNames package) h
  rw [Lines.flush_append, Lines.flush_append, flush_packageStart, flush_packageEnd,
    ← List.append_assoc]
  exact hmodules.append (.plain (by decide) (by decide))

end Ruby

end Target

/-! ## Documents -/

open Target.Ruby

/-- The lines of a document are blocks, whatever its order. -/
theorem Document.blocks_lines {d : Diagram} (hd : d.WellFormed)
    (hunbroken : ∀ e ∈ d.entities, e.Unbroken) (supertypesFirst : Bool) :
    Blocks (listing.lines d (contents (ofDiagram d true supertypesFirst))).flush := by
  have hheader : Blocks listing.header.flush :=
    blocks_append (blocks_ofText (by decide)) blocks_blank
  have hfooter : Blocks (Lines.flush (listing.footer d)) := .nil
  refine blocks_append (blocks_append hheader (blocks_flatMap fun g hg => ?_)) hfooter
  obtain ⟨s, hs, rfl⟩ := List.mem_map.1 hg
  obtain ⟨-, hentities⟩ := mem_ofDiagram hs
  have hbody : Blocks (Lines.flush (s.content.entities.flatMap (listing.entityLines d))) :=
    blocks_flatMap fun e he => blocks_entityLines hd (hd.entities e (hentities e he))
      (hunbroken e (hentities e he))
  unfold Listing.groupLines
  cases s.package with
  | none => exact blocks_append (blocks_append .nil hbody) .nil
  | some p => exact blocks_package p hbody

end ClassSketch
