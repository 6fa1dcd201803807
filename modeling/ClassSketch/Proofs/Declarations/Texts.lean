import Mathlib.Data.List.Perm.Subperm
import ClassSketch.Proofs.Declarations.Lines
import ClassSketch.Proofs.Declarations.Reading

/-!
# One line for every member

The text that declares a member of a class is one line and starts with no space
(`FlushLine`), if the member has no line feed in it
(`Language.flushLine_attributeText`, `Language.flushLine_signatureText`). A text is
a flush line if its first part is one and no line feed follows
(`FlushLine.append`), so the proofs follow the way the text is put together.

So the code of a class that is read off a text has one line for each of its
members (`Language.Declares`).
-/

namespace ClassSketch

open Text Layout

/-! ## Texts on one line -/

namespace Text

instance (s : List Char) : Decidable (Flush s) :=
  decidable_of_iff ('\n' ∉ s ∧ s.head? ≠ some ' ') ⟨fun h => ⟨h.1, h.2⟩, fun h => ⟨h.feed, h.space⟩⟩

/-- Flush texts may be joined. -/
theorem Flush.append {s t : List Char} (hs : Flush s) (ht : Flush t) : Flush (s ++ t) := by
  cases s with
  | nil => exact ht
  | cons c s => exact ⟨List.not_mem_append hs.feed ht.feed, hs.space⟩

/-- A text of one line that starts with something else than a space. -/
structure FlushLine (s : String) : Prop where
  flush : Flush s.toList
  ne_nil : s.toList ≠ []

instance (s : String) : Decidable (FlushLine s) :=
  decidable_of_iff (Flush s.toList ∧ s.toList ≠ [])
    ⟨fun h => ⟨h.1, h.2⟩, fun h => ⟨h.flush, h.ne_nil⟩⟩

namespace FlushLine

variable {s t : String}

theorem feed (h : FlushLine s) : '\n' ∉ s.toList :=
  h.flush.feed

/-- A flush line is the only line of its text, and has no margin to lose. -/
theorem flushLines_eq (h : FlushLine s) : flushLines s = [s] :=
  flushLines_eq_singleton h.flush.feed h.flush.space

/-- After the first character anything may follow but a line feed. -/
theorem append (hs : FlushLine s) (ht : '\n' ∉ t.toList) : FlushLine (s ++ t) := by
  obtain ⟨c, cs, hc⟩ := List.exists_cons_of_ne_nil hs.ne_nil
  obtain ⟨⟨hfeed, hspace⟩, -⟩ := hs
  rw [hc] at hfeed hspace
  constructor <;> rw [String.toList_append, hc]
  · exact ⟨List.not_mem_append hfeed ht, hspace⟩
  · exact List.cons_ne_nil _ _

/-- A flush line may have a flush text in front of it. -/
theorem of_append (hs : Flush s.toList) (ht : FlushLine t) : FlushLine (s ++ t) := by
  constructor <;> rw [String.toList_append]
  · exact hs.append ht.flush
  · exact List.append_ne_nil_of_right_ne_nil _ ht.ne_nil

theorem ite {p : Prop} [Decidable p] (hs : FlushLine s) (ht : FlushLine t) :
    FlushLine (if p then s else t) := by
  split
  · exact hs
  · exact ht

/-- A word is a flush line. -/
theorem of_isWordText (h : isWordText s.toList = true) : FlushLine s := by
  obtain ⟨hne, hword⟩ := (Bool.and_eq_true _ _).mp h
  have hall := List.all_eq_true.1 hword
  refine ⟨⟨fun hmem => absurd (hall _ hmem) (by decide), fun hhead => ?_⟩, fun hnil => ?_⟩
  · exact absurd (hall _ (List.mem_of_mem_head? hhead)) (by decide)
  · rw [hnil] at hne
    cases hne

end FlushLine

theorem not_mem_append {s t : String} (hs : '\n' ∉ s.toList) (ht : '\n' ∉ t.toList) :
    '\n' ∉ (s ++ t).toList := by
  rw [String.toList_append]
  exact List.not_mem_append hs ht

theorem not_mem_ite {p : Prop} [Decidable p] {s t : String} (hs : '\n' ∉ s.toList)
    (ht : '\n' ∉ t.toList) : '\n' ∉ (if p then s else t).toList := by
  split
  · exact hs
  · exact ht

/-- Texts without line feeds are joined to one without. -/
theorem not_mem_intercalate {sep : String} {ws : List String} (hsep : '\n' ∉ sep.toList)
    (h : ∀ w ∈ ws, '\n' ∉ w.toList) : '\n' ∉ (sep.intercalate ws).toList := by
  rw [String.toList_intercalate]
  induction ws with
  | nil => exact List.not_mem_nil
  | cons w ws ih =>
    obtain ⟨hw, hws⟩ := List.forall_mem_cons.1 h
    cases ws with
    | nil => simpa using hw
    | cons v vs =>
      rw [List.map_cons, List.map_cons, List.intercalate_cons_cons]
      exact List.not_mem_append (List.not_mem_append hw hsep) (ih hws)

/-- Texts in a row start as the first of them does. -/
theorem flushLine_intercalate {sep w : String} {ws : List String} (hsep : '\n' ∉ sep.toList)
    (hw : FlushLine w) (hws : ∀ w ∈ ws, '\n' ∉ w.toList) : FlushLine (sep.intercalate (w :: ws)) := by
  cases ws with
  | nil => rwa [String.intercalate_singleton]
  | cons v vs =>
    have hrest := not_mem_intercalate hsep hws
    rw [String.intercalate_cons_cons]
    exact (hw.append hsep).append hrest

end Text

namespace Target

theorem not_mem_commas {ws : List String} (h : ∀ w ∈ ws, '\n' ∉ w.toList) :
    '\n' ∉ (commas ws).toList :=
  not_mem_intercalate (by decide) h

/-- A call with its parameters in parentheses. -/
theorem flushLine_call {name params : String} (hname : FlushLine name)
    (hparams : '\n' ∉ params.toList) : FlushLine (name ++ "(" ++ params ++ ")") :=
  ((hname.append (by decide)).append hparams).append (by decide)

/-- Words in a row, the first of which is always there. -/
theorem flushLine_row {w : String} {ws : List String} (hw : FlushLine w)
    (hws : ∀ w ∈ ws, '\n' ∉ w.toList) : FlushLine (" ".intercalate ([w] ++ ws)) :=
  flushLine_intercalate (by decide) hw hws

/-- A word that only stands under a condition. -/
theorem not_mem_optional {p : Prop} [Decidable p] {w : String} (h : '\n' ∉ w.toList) :
    ∀ v ∈ (if p then [w] else []), '\n' ∉ v.toList := by
  split
  · exact List.forall_mem_singleton.2 h
  · exact List.forall_mem_nil _

theorem flush_wordIf (b : Bool) {w : String} (h : Flush w.toList) : Flush (wordIf b w).toList := by
  unfold wordIf
  split
  · exact h
  · decide

/-- Words of which at least one is there. -/
theorem flushLine_words {ws : List String} {w : String} (h : ∀ v ∈ ws, Flush v.toList)
    (hw : w ∈ ws) (hne : w.toList ≠ []) : FlushLine (words ws) := by
  have hmem : w ∈ ws.filter (· ≠ "") := List.mem_filter.2 ⟨hw, by simpa using hne⟩
  unfold words
  cases hfilter : ws.filter (· ≠ "") with
  | nil =>
    rw [hfilter] at hmem
    cases hmem
  | cons v vs =>
    have hkept : ∀ u ∈ v :: vs, u ∈ ws ∧ u ≠ "" := fun u hu => by
      rw [← hfilter] at hu
      simpa using List.mem_filter.1 hu
    obtain ⟨⟨hv, hvne⟩, hvs⟩ := List.forall_mem_cons.1 hkept
    exact flushLine_intercalate (by decide) ⟨h v hv, by simpa using hvne⟩
      fun u hu => (h u (hvs u hu).1).feed

/-! ## Names of types -/

/-- Names on one line for types that are written on one line. -/
structure TypeNames.OneLine (names : TypeNames) : Prop where
  absent : Flush names.absent.toList
  plain : ∀ p ∈ names.plain, Flush p.2.toList
  containers : ∀ p ∈ names.containers, Flush p.2.toList
  applied : ∀ written container n, Flush written.toList → (∀ c ∈ container, Flush c.toList) →
    Flush (names.applied written container n).toList

theorem flush_of_lookup {table : List (String × String)} (h : ∀ p ∈ table, Flush p.2.toList)
    {key value : String} (hlookup : table.lookup key = some value) : Flush value.toList := by
  obtain ⟨l, r, rfl, -⟩ := List.lookup_eq_some_iff.1 hlookup
  exact h (key, value) (by simp)

/-- The name of a type is flush if the names in the type are. -/
theorem flush_typeName {names : TypeNames} (h : names.OneLine) {type : Option TypeExpr}
    (ht : ∀ t ∈ type, t.Named Flush) : Flush (names.name type).toList := by
  cases type with
  | none => exact h.absent
  | some t =>
    obtain ⟨name, args⟩ := t
    obtain ⟨hname, -⟩ := ht _ rfl
    simp only [TypeNames.name]
    split
    · exact h.applied _ _ _ hname fun c hc => flush_of_lookup h.containers hc
    · cases hplain : names.plain.lookup (foldKey name.toList) with
      | none => exact hname
      | some value => exact flush_of_lookup h.plain hplain

/-- A container before its arguments, all of which are the same. -/
theorem flush_container {name filler opening closing : String} (n : Nat) (hname : Flush name.toList)
    (hfiller : '\n' ∉ filler.toList) (hopening : FlushLine opening)
    (hclosing : '\n' ∉ closing.toList) :
    Flush (name ++ opening ++ commas (List.replicate n filler) ++ closing).toList := by
  have hargs : '\n' ∉ (commas (List.replicate n filler)).toList :=
    not_mem_commas fun w hw => List.eq_of_mem_replicate hw ▸ hfiller
  exact (((FlushLine.of_append hname hopening).append hargs).append hclosing).flush

/-- Arguments in angle brackets do not spoil a flush name. -/
theorem flush_angled {filler : String} (hfiller : '\n' ∉ filler.toList) (written : String)
    (container : Option String) (n : Nat) (hwritten : Flush written.toList)
    (hcontainer : ∀ c ∈ container, Flush c.toList) :
    Flush (angled filler written container n).toList := by
  refine flush_container n ?_ hfiller (by decide) (by decide)
  cases container with
  | none => exact hwritten
  | some c => exact hcontainer c rfl

/-! ## Parameters -/

section Parameters

variable {ps : List Parameter}

theorem not_mem_names (h : ∀ p ∈ ps, p.OneLine) : '\n' ∉ (commas (ps.map (·.name))).toList :=
  not_mem_commas (List.forall_mem_map.2 fun p hp => (h p hp).name)

variable {names : TypeNames} (hnames : names.OneLine)

include hnames

/-- Parameters are written without line feeds, the type first or the name first. -/
theorem not_mem_typeFirst (h : ∀ p ∈ ps, p.OneLine) :
    '\n' ∉ (commas (ps.map fun p => names.name p.type ++ " " ++ p.name)).toList :=
  not_mem_commas (List.forall_mem_map.2 fun p hp => not_mem_append
    (not_mem_append (flush_typeName hnames (h p hp).type).feed (by decide)) (h p hp).name)

theorem forall_nameFirst (h : ∀ p ∈ ps, p.OneLine) :
    ∀ w ∈ ps.map fun p => p.name ++ ": " ++ names.name p.type, '\n' ∉ w.toList :=
  List.forall_mem_map.2 fun p hp => not_mem_append
    (not_mem_append (h p hp).name (by decide)) (flush_typeName hnames (h p hp).type).feed

theorem not_mem_nameFirst (h : ∀ p ∈ ps, p.OneLine) :
    '\n' ∉ (commas (ps.map fun p => p.name ++ ": " ++ names.name p.type)).toList :=
  not_mem_commas (forall_nameFirst hnames h)

end Parameters

/-! ## Java -/

namespace Java

theorem oneLine_typeNames : typeNames.OneLine where
  absent := by decide
  plain := by decide +kernel
  containers := by decide +kernel
  applied := flush_angled (by decide)

theorem flush_access (v : Visibility) : Flush (access v).toList := by
  unfold access
  split <;> decide

theorem flushLine_field {a : Attribute} (h : a.OneLine) : FlushLine (field a) := by
  have hname := FlushLine.of_isWordText h.name
  refine (flushLine_words (List.forall_iff_forall_mem.1 ?_) (List.mem_of_getLast? rfl)
    hname.ne_nil).append (by decide)
  exact ⟨flush_access _, flush_wordIf _ (by decide), flush_wordIf _ (by decide),
    flush_typeName oneLine_typeNames h.type, hname.flush⟩

theorem flushLine_declaration {m : Method} (h : m.OneLine) : FlushLine (declaration false m) := by
  have hcall := flushLine_call (.of_isWordText h.name) (not_mem_typeFirst oneLine_typeNames h.parameters)
  refine flushLine_words (List.forall_iff_forall_mem.1 ?_) (List.mem_of_getLast? rfl) hcall.ne_nil
  exact ⟨flush_wordIf _ (flush_access _), flush_wordIf _ (by decide), flush_wordIf _ (by decide),
    flush_typeName oneLine_typeNames h.returns, hcall.flush⟩

end Java

/-! ## C# -/

namespace CSharp

theorem oneLine_typeNames : typeNames.OneLine where
  absent := by decide
  plain := by decide +kernel
  containers := by decide +kernel
  applied := flush_angled (by decide)

theorem flushLine_access (v : Visibility) : FlushLine (access v) := by
  unfold access
  split <;> decide

theorem flushLine_property {a : Attribute} (h : a.OneLine) : FlushLine (property a) := by
  have hwords : ∀ w ∈ (if a.isStatic then ["static"] else []) ++ [typeNames.name a.type, a.name],
      '\n' ∉ w.toList :=
    List.forall_mem_append.2 ⟨not_mem_optional (by decide), List.forall_iff_forall_mem.1
      ⟨(flush_typeName oneLine_typeNames h.type).feed, (FlushLine.of_isWordText h.name).feed⟩⟩
  rw [property, List.append_assoc]
  exact ((((flushLine_row (flushLine_access _) hwords).append (by decide)).append (by decide)).append
    (not_mem_ite (by decide) (by decide))).append (by decide)

theorem flushLine_signature {m : Method} (h : m.OneLine) : FlushLine (signature false m) := by
  have hcall := flushLine_call (.of_isWordText h.name) (not_mem_typeFirst oneLine_typeNames h.parameters)
  have hwords : ∀ w ∈ (if m.isAbstract && !false then ["abstract"] else []) ++
      ((if m.isStatic then ["static"] else []) ++
        [typeNames.name m.returns, m.name ++ "(" ++ parameters m.parameters ++ ")"]),
      '\n' ∉ w.toList :=
    List.forall_mem_append.2 ⟨not_mem_optional (by decide), List.forall_mem_append.2
      ⟨not_mem_optional (by decide), List.forall_iff_forall_mem.1
        ⟨(flush_typeName oneLine_typeNames h.returns).feed, hcall.feed⟩⟩⟩
  rw [signature, List.append_assoc, List.append_assoc]
  exact flushLine_row (flushLine_access _) hwords

end CSharp

/-! ## TypeScript -/

namespace TypeScript

theorem oneLine_typeNames : typeNames.OneLine where
  absent := by decide
  plain := by decide +kernel
  containers := by decide +kernel
  applied := flush_angled (by decide)

theorem flushLine_access (v : Visibility) : FlushLine (access v) := by
  unfold access
  split <;> decide

theorem flushLine_field {a : Attribute} (h : a.OneLine) : FlushLine (field a) := by
  have hlast : FlushLine (a.name ++ ": " ++ typeNames.name a.type ++ ";") :=
    (((FlushLine.of_isWordText h.name).append (by decide)).append
      (flush_typeName oneLine_typeNames h.type).feed).append (by decide)
  rw [field, List.append_assoc, List.append_assoc]
  refine flushLine_row (flushLine_access _) (List.forall_mem_append.2 ⟨?_, List.forall_mem_append.2
    ⟨?_, List.forall_mem_singleton.2 hlast.feed⟩⟩)
  · exact not_mem_optional (by decide)
  · exact not_mem_optional (by decide)

theorem flushLine_signature {m : Method} (h : m.OneLine) : FlushLine (signature false m) := by
  have hlast : FlushLine (m.name ++ "(" ++ parameters m.parameters ++ "): " ++
      typeNames.name m.returns) :=
    ((((FlushLine.of_isWordText h.name).append (by decide)).append
      (not_mem_nameFirst oneLine_typeNames h.parameters)).append (by decide)).append
      (flush_typeName oneLine_typeNames h.returns).feed
  rw [signature, List.append_assoc, List.append_assoc]
  refine flushLine_row (flushLine_access _) (List.forall_mem_append.2 ⟨?_, List.forall_mem_append.2
    ⟨?_, List.forall_mem_singleton.2 hlast.feed⟩⟩)
  · exact not_mem_optional (by decide)
  · exact not_mem_optional (by decide)

end TypeScript

/-! ## Kotlin -/

namespace Kotlin

theorem oneLine_typeNames : typeNames.OneLine where
  absent := by decide
  plain := by decide +kernel
  containers := by decide +kernel
  applied := flush_angled (by decide)

theorem flush_access (v : Visibility) : Flush (access v).toList := by
  unfold access
  split <;> decide

theorem not_mem_placeholder (type : Option TypeExpr) : '\n' ∉ (placeholder type).toList := by
  have hzero : ∀ name, '\n' ∉ (zero name).toList := fun name => by
    unfold zero
    split <;> decide
  unfold placeholder
  split
  · decide
  · exact hzero _
  all_goals decide

theorem not_mem_propertyType {type : Option TypeExpr} (h : ∀ t ∈ type, t.Named Flush) :
    '\n' ∉ (propertyType type).toList := by
  have hname := (flush_typeName oneLine_typeNames h).feed
  simp only [propertyType]
  cases Placeholder.ofType? type with
  | boolean | numeric | character | text => exact hname
  | void | other => exact not_mem_ite hname (not_mem_append hname (by decide))

theorem flushLine_property {a : Attribute} (h : a.OneLine) : FlushLine (property a) := by
  have hname : FlushLine (a.name ++ ": " ++ propertyType a.type) :=
    ((FlushLine.of_isWordText h.name).append (by decide)).append (not_mem_propertyType h.type)
  have hkeyword : FlushLine (if a.isFinal then "val" else "var") := .ite (by decide) (by decide)
  refine ((flushLine_words (List.forall_iff_forall_mem.1 ?_) (List.mem_of_getLast? rfl)
    hname.ne_nil).append (by decide)).append (not_mem_placeholder a.type)
  exact ⟨flush_access _, hkeyword.flush, hname.flush⟩

theorem flushLine_signature {m : Method} (h : m.OneLine) : FlushLine (signature false m) := by
  have hhead : FlushLine ("fun " ++ m.name) :=
    FlushLine.append (by decide) (FlushLine.of_isWordText h.name).feed
  have hcall := flushLine_call hhead (not_mem_nameFirst oneLine_typeNames h.parameters)
  refine (flushLine_words (List.forall_iff_forall_mem.1 ?_) (List.mem_of_getLast? rfl)
    hcall.ne_nil).append (not_mem_ite ?_ (by decide))
  · exact ⟨flush_wordIf _ (flush_access _), flush_wordIf _ (by decide), hcall.flush⟩
  · exact not_mem_append (by decide) (flush_typeName oneLine_typeNames h.returns).feed

end Kotlin

/-! ## JavaScript -/

namespace JavaScript

theorem not_mem_placeholder (type : Option TypeExpr) : '\n' ∉ (placeholder type).toList := by
  unfold placeholder
  split <;> decide

theorem flushLine_attributeText (c : ClassDecl) {a : Attribute} (h : a.OneLine) :
    FlushLine (attributeText c a) := by
  have hname := (FlushLine.of_isWordText h.name).feed
  have hvalue := not_mem_placeholder a.type
  have hstatic : FlushLine ("static " ++ a.name) := .append (by decide) hname
  have hthis : FlushLine ("this." ++ a.name) := .append (by decide) hname
  refine .ite ?_ ?_
  · exact ((hstatic.append (by decide)).append hvalue).append (by decide)
  · exact ((hthis.append (by decide)).append (not_mem_ite hname hvalue)).append (by decide)

theorem flushLine_signatureText {m : Method} (h : m.OneLine) :
    FlushLine (Language.javascript.signatureText m) := by
  have hparams := not_mem_names h.parameters
  have hhead : FlushLine (wordIf m.isStatic "static " ++ m.name) :=
    .of_append (flush_wordIf _ (by decide)) (.of_isWordText h.name)
  exact ((flushLine_call hhead hparams).append (by decide)).append (by decide)

end JavaScript

/-! ## Python -/

namespace Python

theorem flush_bracketed (written : String) (container : Option String) (n : Nat)
    (hwritten : Flush written.toList) (hcontainer : ∀ c ∈ container, Flush c.toList) :
    Flush (bracketed written container n).toList := by
  cases container with
  | none => exact hwritten
  | some c => exact flush_container n (hcontainer c rfl) (by decide) (by decide) (by decide)

theorem oneLine_typeNames : typeNames.OneLine where
  absent := by decide
  plain := by decide +kernel
  containers := by decide +kernel
  applied := flush_bracketed

theorem flush_underscore (v : Visibility) : Flush (underscore v).toList := by
  unfold underscore
  split <;> decide

theorem not_mem_placeholder (type : Option TypeExpr) : '\n' ∉ (placeholder type).toList := by
  unfold placeholder
  cases Placeholder.ofType? type <;> decide

theorem not_mem_fieldType {type : Option TypeExpr} (h : ∀ t ∈ type, t.Named Flush) :
    '\n' ∉ (fieldType type).toList := by
  have hname := (flush_typeName oneLine_typeNames h).feed
  exact not_mem_ite hname (not_mem_append (not_mem_append (by decide) hname) (by decide))

theorem flushLine_memberName {a : Attribute} (h : a.OneLine) : FlushLine (memberName a) :=
  .of_append (flush_underscore _) (.of_isWordText h.name)

theorem flushLine_assignment (params : List String) {a : Attribute} (h : a.OneLine) :
    FlushLine (assignment params a) := by
  have hmember : FlushLine ("self." ++ memberName a) :=
    .append (by decide) (flushLine_memberName h).feed
  refine .ite ?_ ?_
  · exact (hmember.append (by decide)).append (FlushLine.of_isWordText h.name).feed
  · exact (((hmember.append (by decide)).append (not_mem_fieldType h.type)).append (by decide)).append
      (not_mem_placeholder a.type)

theorem flushLine_attributeText (c : ClassDecl) {a : Attribute} (h : a.OneLine) :
    FlushLine (attributeText c a) := by
  have hmember := flushLine_memberName h
  refine .ite ?_ (.ite ?_ (flushLine_assignment _ h))
  · exact (((hmember.append (by decide)).append (not_mem_fieldType h.type)).append (by decide)).append
      (not_mem_placeholder a.type)
  · exact (hmember.append (by decide)).append (flush_typeName oneLine_typeNames h.type).feed

theorem flushLine_signature {m : Method} (h : m.OneLine) : FlushLine (signature m) := by
  have hparams : '\n' ∉ (parameters (!m.isStatic) m.parameters).toList := by
    refine not_mem_commas (List.forall_mem_append.2 ⟨not_mem_optional (by decide), ?_⟩)
    exact forall_nameFirst oneLine_typeNames h.parameters
  have hhead : FlushLine ("def " ++ underscore m.visibility ++ m.name) :=
    (FlushLine.append (by decide) (flush_underscore _).feed).append
      (FlushLine.of_isWordText h.name).feed
  exact ((((hhead.append (by decide)).append hparams).append (by decide)).append
    (flush_typeName oneLine_typeNames h.returns).feed).append (by decide)

end Python

/-! ## Ruby -/

namespace Ruby

theorem not_mem_placeholder (type : Option TypeExpr) : '\n' ∉ (placeholder type).toList := by
  unfold placeholder
  split <;> decide

/-- Neither a space nor a line feed. -/
def isSolid (c : Char) : Bool :=
  c != ' ' && c != '\n'

theorem isSolid_of_isWord {c : Char} (h : isWord c = true) : isSolid c = true := by
  have hspace : c ≠ ' ' := by
    rintro rfl
    exact absurd h (by decide)
  have hfeed : c ≠ '\n' := by
    rintro rfl
    exact absurd h (by decide)
  simp [isSolid, hspace, hfeed]

theorem isSolid_ofNat {n : Nat} (h : 33 ≤ n) : isSolid (Char.ofNat n) = true := by
  by_cases hn : n.isValidChar
  · have htoNat : (Char.ofNat n).toNat = n := by
      rw [Char.ofNat, dif_pos hn]
      rfl
    have hne : ∀ c : Char, c.toNat < 33 → Char.ofNat n ≠ c := by
      rintro c hlt rfl
      omega
    simp [isSolid, hne ' ' (by decide), hne '\n' (by decide)]
  · rw [Char.ofNat, dif_neg hn]
    decide

/-- The upper-case form of a solid character is not empty and solid. -/
theorem isSolid_upperChar {c : Char} (hc : isSolid c = true) :
    upperChar c ≠ [] ∧ (upperChar c).all isSolid = true := by
  have hascii : ∀ n < 128, isSolid (Char.ofNat n) = true → isSolid (Char.ofNat n).toUpper = true := by
    decide +kernel
  have hexpansions : upperExpansions.all
      (fun e => !e.2.toList.isEmpty && e.2.toList.all isSolid) = true := by
    decide +kernel
  have hruns : upperRuns.all (fun r => 33 ≤ r.2.2.2) = true := by decide +kernel
  simp only [upperChar]
  split
  · next hlt =>
    have hupper := hascii c.toNat hlt
    rw [Char.ofNat_toNat] at hupper
    simp [hupper hc]
  · split
    · next s hlookup =>
      obtain ⟨l, r, heq, -⟩ := List.lookup_eq_some_iff.1 hlookup
      have hs := List.all_eq_true.1 hexpansions (c.toNat, s) (heq ▸ by simp)
      simpa using hs
    · split
      · next lo hi stride first hfind =>
        have hfirst := List.all_eq_true.1 hruns _ (List.mem_of_find?_eq_some hfind)
        have hsolid := isSolid_ofNat (n := first + (c.toNat - lo)) (by simp at hfirst; omega)
        simp [hsolid]
      · simp [hc]

theorem flushLine_upper {s : String} (h : isWordText s.toList = true) : FlushLine (upper s) := by
  obtain ⟨hne, hword⟩ := (Bool.and_eq_true _ _).mp h
  have hsolid : ∀ c ∈ s.toList, isSolid c = true := fun c hc =>
    isSolid_of_isWord (List.all_eq_true.1 hword c hc)
  have hall : ∀ x ∈ s.toList.flatMap upperChar, isSolid x = true := fun x hx => by
    obtain ⟨c, hc, hx⟩ := List.mem_flatMap.1 hx
    exact List.all_eq_true.1 (isSolid_upperChar (hsolid c hc)).2 x hx
  constructor <;> rw [upper, String.toList_ofList]
  · refine ⟨fun hmem => absurd (hall _ hmem) (by decide), fun hhead => ?_⟩
    exact absurd (hall _ (List.mem_of_mem_head? hhead)) (by decide)
  · cases hs : s.toList with
    | nil =>
      rw [hs] at hne
      cases hne
    | cons c cs =>
      have hc := (isSolid_upperChar (hsolid c (hs ▸ List.mem_cons_self))).1
      exact List.append_ne_nil_of_left_ne_nil hc _

theorem flushLine_attributeText {a : Attribute} (h : a.OneLine) : FlushLine (attributeText a) := by
  have hname := (FlushLine.of_isWordText h.name).feed
  refine .ite ?_ ?_
  · refine FlushLine.append (.append (.ite (flushLine_upper h.name) ?_) (by decide))
      (not_mem_placeholder a.type)
    exact .append (by decide) hname
  · exact FlushLine.append (.ite (by decide) (by decide)) hname

theorem flushLine_access? {v : Visibility} {w : String} (h : access? v = some w) : FlushLine w := by
  unfold access? at h
  split at h
  · cases h
    decide
  · cases h
    decide
  · cases h

theorem flushLine_signature {m : Method} (h : m.OneLine) : FlushLine (signature m) := by
  have hparams := not_mem_names h.parameters
  have hhead : FlushLine ("def " ++ (if m.isStatic then "self." else "") ++ m.name) :=
    (FlushLine.append (by decide) (not_mem_ite (by decide) (by decide))).append
      (FlushLine.of_isWordText h.name).feed
  have hlist : '\n' ∉ ("(" ++ commas (m.parameters.map (·.name)) ++ ")").toList :=
    not_mem_append (not_mem_append (by decide) hparams) (by decide)
  have hempty : '\n' ∉ "".toList := by decide
  have hplain := hhead.append
    (not_mem_ite (p := commas (m.parameters.map (·.name)) = "") hempty hlist)
  simp only [signature]
  split
  · exact hplain
  · next w haccess =>
    have hword := FlushLine.ite (p := m.isStatic) (s := "private_class_method") (by decide)
      (flushLine_access? haccess)
    exact (hword.append (by decide)).append hplain.feed

end Ruby

end Target

/-! ## Members of a class -/

namespace Language

open Target

variable {c : ClassDecl} (h : c.OneLine)

include h

theorem flushLine_attributeText (l : Language) {a : Attribute} (ha : a ∈ c.attributes) :
    FlushLine (l.attributeText c a) := by
  have ha := h.attributes a ha
  cases l with
  | csharp => exact CSharp.flushLine_property ha
  | java => exact Java.flushLine_field ha
  | javascript => exact JavaScript.flushLine_attributeText c ha
  | kotlin => exact Kotlin.flushLine_property ha
  | python => exact Python.flushLine_attributeText c ha
  | ruby => exact Ruby.flushLine_attributeText ha
  | typescript => exact TypeScript.flushLine_field ha

theorem flushLine_signatureText (l : Language) {m : Method} (hm : m ∈ c.methods) :
    FlushLine (l.signatureText m) := by
  have hm := h.methods m hm
  cases l with
  | csharp =>
    have hsignature := CSharp.flushLine_signature hm
    exact .ite (hsignature.append (by decide)) hsignature
  | java =>
    have hdeclaration := Java.flushLine_declaration hm
    exact .ite (hdeclaration.append (by decide))
      ((hdeclaration.append (by decide)).append (by decide))
  | javascript => exact JavaScript.flushLine_signatureText hm
  | kotlin =>
    have hsignature := Kotlin.flushLine_signature hm
    exact .ite hsignature ((hsignature.append (by decide)).append (by decide))
  | python =>
    have hsignature := Python.flushLine_signature hm
    exact .ite (hsignature.append (by decide)) hsignature
  | ruby => exact Ruby.flushLine_signature hm
  | typescript =>
    have hsignature := TypeScript.flushLine_signature hm
    exact .ite (hsignature.append (by decide)) ((hsignature.append (by decide)).append (by decide))

theorem flushLine_of_mem_declarations {l : Language} {text : String}
    (htext : text ∈ l.declarations c) : FlushLine text := by
  have hmem := (l.perm_declarations c).mem_iff.2 htext
  simp only [List.mem_append, List.mem_map] at hmem
  rcases hmem with (⟨a, ha, rfl⟩ | ⟨a, ha, rfl⟩) | ⟨m, hm, rfl⟩ | ⟨m, hm, rfl⟩
  · exact l.flushLine_attributeText h (List.mem_of_mem_filter ha)
  · exact l.flushLine_attributeText h (List.mem_of_mem_filter ha)
  · exact l.flushLine_signatureText h (List.mem_of_mem_filter hm)
  · exact l.flushLine_signatureText h (List.mem_of_mem_filter hm)

end Language

/-! ## Code of a class -/

theorem Text.flatMap_flushLines {texts : List String} (h : ∀ t ∈ texts, FlushLine t) :
    texts.flatMap flushLines = texts := by
  rw [List.flatMap_congr fun t ht => (h t ht).flushLines_eq, List.flatMap_singleton']

/-- Lines that declare the members of a class, static and instance ones each in the
order of the class, and no two members by one line. -/
structure Language.Declares (l : Language) (d : Diagram) (c : ClassDecl) (lines : List String) :
    Prop where
  statics : ((Target.staticAttributes c).map (l.attributeText c)).Sublist lines
  instances : ((Target.instanceAttributes c).map (l.attributeText c)).Sublist lines
  methods : (c.instanceMethods.map l.signatureText).Sublist lines
  staticMethods : (c.staticMethods.map l.signatureText).Sublist lines
  apart : List.Subperm ((Target.staticAttributes c).map (l.attributeText c) ++
    (Target.instanceAttributes c).map (l.attributeText c) ++
    (c.instanceMethods.map l.signatureText ++ c.staticMethods.map l.signatureText)) lines
  /-- An initializer is a part of the class and assigns all instance attributes. -/
  initializer : ∀ init ∈ l.initializer? d c, List.IsInfix init.flush lines ∧
    ((Target.instanceAttributes c).map (l.attributeText c)).Sublist init.flush
  assigned : l = .javascript → Target.instanceAttributes c ≠ [] → (l.initializer? d c).isSome

namespace Language

theorem within_classLines (l : Language) (d : Diagram) (c : ClassDecl) :
    (l.listing.classLines d c).Within (l.deepest d) := by
  cases l with
  | csharp => exact Target.CSharp.within_entityLines d (.cls c)
  | java => exact Target.Java.within_entityLines d (.cls c)
  | javascript => exact Target.JavaScript.within_entityLines d (.cls c)
  | kotlin => exact Target.Kotlin.within_entityLines d (.cls c)
  | python => exact Target.Python.within_entityLines d (.cls c)
  | ruby => exact Target.Ruby.within_entityLines d (.cls c)
  | typescript => exact Target.TypeScript.within_entityLines d (.cls c)

theorem isSome_initializer_javascript (d : Diagram) {c : ClassDecl}
    (h : Target.instanceAttributes c ≠ []) : (javascript.initializer? d c).isSome := by
  rcases Target.JavaScript.constructorBlock_cases c (d.parent? c).isSome with
    ⟨-, hnil⟩ | ⟨ms, -, hblock⟩
  · exact absurd hnil h
  · rw [initializer?, hblock]
    rfl

/-- Code of a class declares its members if they are on one line each. -/
theorem declares_flushLines (l : Language) (d : Diagram) {c : ClassDecl} (h : c.OneLine)
    (size : Int) : l.Declares d c (flushLines ((l.listing.classLines d c).render size)) := by
  rw [flushLines_render]
  have hall : (l.declarations c).Sublist ((l.listing.classLines d c).flush ++ [""]) := by
    have hholds := l.holds_classLines d c
    rw [Lines.Holds, flatMap_flushLines fun t ht => flushLine_of_mem_declarations h ht] at hholds
    exact hholds.trans (List.sublist_append_left _ _)
  have hinstances := (l.sublist_instanceAttributes c).subset
  refine
    { statics := (l.sublist_staticAttributes c).trans hall
      instances := (l.sublist_instanceAttributes c).trans hall
      methods := (l.sublist_instanceMethods c).trans hall
      staticMethods := (l.sublist_staticMethods c).trans hall
      apart := (l.perm_declarations c).subperm.trans hall.subperm
      initializer := fun init hinit => ?_
      assigned := fun hl hne => ?_ }
  · obtain ⟨hpart, hholds⟩ := l.infix_initializer c hinit
    rw [Lines.Holds,
      flatMap_flushLines fun t ht => flushLine_of_mem_declarations h (hinstances ht)] at hholds
    exact ⟨hpart.trans (List.prefix_append _ _).isInfix, hholds⟩
  · subst hl
    exact isSome_initializer_javascript d hne

end Language

/-- Code of a class that is read off a text declares all its members. It exists
whenever the deepest step is of a possible width. -/
theorem code_declares_members (l : Language) (text : String) {c : ClassDecl}
    (hc : c ∈ (Reading.ofText text).diagram.classes) (m : Margin) :
    (m.fault? (l.deepest (Reading.ofText text).diagram) = none →
      ∃ code, l.emitter.classText m (Reading.ofText text).diagram c = .ok code) ∧
    ∀ code, l.emitter.classText m (Reading.ofText text).diagram c = .ok code →
      l.Declares (Reading.ofText text).diagram c (flushLines code) := by
  have hwrites := l.fits_listing.classText m (Reading.ofText text).diagram c
  refine ⟨fun hwidth => ⟨_, hwrites.eq_ok ((l.within_classLines _ c).possible hwidth)⟩, ?_⟩
  intro code hcode
  rw [(hwrites.text_eq hcode).2]
  exact l.declares_flushLines _ (oneLine_of_mem_classes hc) m.size

/-- An abstract class with members of every kind. -/
def abstractShape : String :=
  "abstract class Shape \x7b\n\x7bstatic\x7d n : int\n-name : String\n+x : float\n" ++
  "Shape(name : String)\n\x7babstract\x7d area()\n\x7bstatic\x7d make()\n\x7d"

theorem code_declares_members_abstractShape :
    ∃ c ∈ (Reading.ofText abstractShape).diagram.classes, ∃ code,
      (Target.staticAttributes c).map (Language.python.attributeText c) =
        ["n: ClassVar[int] = 0"] ∧
      (Target.instanceAttributes c).map (Language.python.attributeText c) =
        ["self._name = name", "self.x: float = 0"] ∧
      c.instanceMethods.map Language.python.signatureText = ["def area(self) -> None: ..."] ∧
      c.staticMethods.map Language.python.signatureText = ["def make() -> None:"] ∧
      (Language.python.initializer? (Reading.ofText abstractShape).diagram c).isSome ∧
      Language.python.emitter.classText { size := 2, memory := 80 }
        (Reading.ofText abstractShape).diagram c = .ok code ∧
      Language.python.Declares (Reading.ofText abstractShape).diagram c (flushLines code) := by
  have hclass : ∃ c ∈ (Reading.ofText abstractShape).diagram.classes,
      (Target.staticAttributes c).map (Language.python.attributeText c) =
        ["n: ClassVar[int] = 0"] ∧
      (Target.instanceAttributes c).map (Language.python.attributeText c) =
        ["self._name = name", "self.x: float = 0"] ∧
      c.instanceMethods.map Language.python.signatureText = ["def area(self) -> None: ..."] ∧
      c.staticMethods.map Language.python.signatureText = ["def make() -> None:"] ∧
      (Language.python.initializer? (Reading.ofText abstractShape).diagram c).isSome := by
    decide +kernel
  obtain ⟨c, hc, hstatics, hinstances, hmethods, hstaticMethods, hinit⟩ := hclass
  have hwidth : Margin.fault? { size := 2, memory := 80 }
      (Language.python.deepest (Reading.ofText abstractShape).diagram) = none := by
    decide +kernel
  obtain ⟨hexists, hdeclares⟩ :=
    code_declares_members .python abstractShape hc { size := 2, memory := 80 }
  obtain ⟨code, hcode⟩ := hexists hwidth
  have hlines := hdeclares code hcode
  exact ⟨c, hc, code, hstatics, hinstances, hmethods, hstaticMethods, hinit, hcode, hlines⟩

end ClassSketch
