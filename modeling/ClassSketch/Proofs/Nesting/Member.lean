import Mathlib.Data.Option.Basic
import ClassSketch.Member.Declaration
import ClassSketch.Proofs.MemberForm
import ClassSketch.Proofs.Nesting.Listing

/-!
# Members without braces

Whatever is read off a member line is made of characters of that line : the parts
of a call or field form (`CallText.Within`, `FieldText.Within`) and the names in a
type (`named_read`). So a line whose text has no braces declares a tidy member
(`tidy_of_read?`), and a tidy entity stays tidy when it takes it
(`Entity.Tidy.attach`).
-/

namespace ClassSketch

open Text

/-! ## Parts of a text -/

namespace Text

theorem Unbraced.mono {s t : List Char} (h : Unbraced s) (hsub : t ⊆ s) : Unbraced t :=
  fun c hc => h c (hsub hc)

end Text

/-! ## Types -/

namespace TypeExpr

/-- The pieces between commas come from the text. -/
theorem subset_of_mem_pieces {depth : Int} {s p : List Char} (h : p ∈ pieces depth s) : p ⊆ s := by
  induction s generalizing depth p with
  | nil => simp_all [pieces]
  | cons c s ih =>
    unfold pieces at h
    split at h
    · rcases List.mem_cons.1 h with rfl | h
      · exact List.nil_subset _
      · exact List.subset_cons_of_subset c (ih h)
    · obtain ⟨q, qs, hq⟩ := List.exists_cons_of_ne_nil (pieces_ne_nil (angleStep depth c) s)
      rw [hq, List.modifyHead_cons] at h
      rcases List.mem_cons.1 h with rfl | h
      · exact List.cons_subset_cons c (ih (hq ▸ List.mem_cons_self))
      · exact List.subset_cons_of_subset c (ih (hq ▸ List.mem_cons_of_mem _ h))

theorem subset_of_mem_topLevelParts {s p : List Char} (h : p ∈ topLevelParts s) : p ⊆ s := by
  have hp : p ∈ (pieces 0 s).map trim := by
    simp only [topLevelParts] at h
    split at h
    · exact (List.dropLast_sublist _).mem h
    · exact h
  obtain ⟨q, hq, rfl⟩ := List.mem_map.1 hp
  exact List.Subset.trans (trim_subset q) (subset_of_mem_pieces hq)

/-- So do the base and the arguments of a type. -/
theorem subset_of_genericParts? {s base : List Char} {parts : List (List Char)}
    (h : genericParts? s = some (base, parts)) : base ⊆ s ∧ ∀ p ∈ parts, p ⊆ s := by
  obtain ⟨a, rfl, rfl, rfl⟩ := genericParts?_eq_some_iff.1 h
  refine ⟨fun c hc => List.mem_append_left _ (trim_subset _ hc),
    List.forall_mem_map.2 fun q hq c hc => ?_⟩
  have hpiece : q ∈ pieces 0 ([','].intercalate a.args) := by
    rwa [pieces_intercalate a.whole a.args_ne_nil]
  have hinner := subset_of_mem_pieces hpiece (trim_subset q hc)
  exact List.mem_append_right _ (List.mem_cons_of_mem _ (List.mem_append_left _ hinner))

/-- The names in a type are made of characters of its text. -/
theorem named_read (s : List Char) : Named (· ⊆ s) (read s) := by
  fun_induction read s with
  | case1 s _ =>
    refine .intro ?_ (List.forall_mem_nil _)
    rw [String.toList_ofList]
    exact trim_subset s
  | case2 s base parts h ih =>
    obtain ⟨hbase, hparts⟩ := subset_of_genericParts? h
    refine .intro ?_ fun a ha => ?_
    · rw [String.toList_ofList]
      exact List.Subset.trans hbase (trim_subset s)
    · obtain ⟨⟨p, hp⟩, -, rfl⟩ := List.mem_map.1 ha
      have hsub : p ⊆ s := List.Subset.trans (hparts p hp) (trim_subset s)
      exact (ih p hp).mono fun t ht => List.Subset.trans ht hsub

/-- A type that is read from a text without braces has none. -/
theorem unbraced_read {s : List Char} (h : Unbraced s) : Named Unbraced (read s) :=
  (named_read s).mono fun _ ht => h.mono ht

theorem named_plain {p : List Char → Prop} {name : String} (h : p name.toList) :
    Named p ⟨name, []⟩ :=
  .intro h (List.forall_mem_nil _)

theorem tidy_map_read {s : Option (List Char)} (h : ∀ t ∈ s, Unbraced t) : Tidy (s.map read) := by
  rintro t ht
  obtain ⟨u, hu, rfl⟩ := Option.map_eq_some_iff.1 ht
  exact unbraced_read (h u hu)

theorem named_getD {p : List Char → Prop} {type : Option TypeExpr} (h : ∀ t ∈ type, t.Named p)
    {t : TypeExpr} (ht : t.Named p) : (type.getD t).Named p := by
  cases type with
  | none => exact ht
  | some u => exact h u rfl

end TypeExpr

/-! ## Parameters -/

namespace Parameter

/-- The name and the type of a parameter come from its text. -/
theorem nameAndType_subset (part : List Char) :
    (nameAndType part).1 ⊆ part ∧ (nameAndType part).2 ⊆ part := by
  unfold nameAndType
  split
  · next hcut =>
    obtain ⟨hname, htype⟩ := subset_of_cutAt hcut
    exact ⟨List.Subset.trans (trim_subset _) hname, List.Subset.trans (trim_subset _) htype⟩
  · split
    · next type name hcut =>
      obtain ⟨⟨a, b⟩, hrev, heq⟩ := Option.map_eq_some_iff.1 hcut
      cases heq
      obtain ⟨hname, htype⟩ := subset_of_cutAt hrev
      have hpart : ∀ t : List Char, t ⊆ (trim part).reverse → t.reverse ⊆ part := fun t ht c hc =>
        trim_subset part (List.mem_reverse.1 (ht (List.mem_reverse.1 hc)))
      exact ⟨hpart a hname, List.Subset.trans (trim_subset _) (hpart b htype)⟩
    · exact ⟨trim_subset part, List.nil_subset _⟩

theorem unbraced_typeOrObject {s : List Char} (h : Unbraced s) :
    (typeOrObject s).Named Unbraced := by
  unfold typeOrObject
  split
  · exact TypeExpr.named_plain (forall_mem_of_all rfl)
  · exact TypeExpr.unbraced_read h

/-- A parameter that is read from a text without braces has none. -/
theorem tidy_of_read? {part : List Char} (hpart : Unbraced part) {p : Parameter}
    (h : read? part = some p) : p.Tidy := by
  obtain ⟨hname, htype⟩ := nameAndType_subset part
  simp only [read?] at h
  split at h
  · cases h
  · cases h
    refine ⟨.of_unbraced (hpart.mono hname), fun t ht => ?_⟩
    cases ht
    exact unbraced_typeOrObject (hpart.mono htype)

theorem tidy_readAll {s : List Char} (h : Unbraced s) : ∀ p ∈ readAll s, p.Tidy := by
  unfold readAll
  split
  · exact List.forall_mem_nil _
  · intro p hp
    obtain ⟨part, hpart, hread⟩ := List.mem_filterMap.1 hp
    exact tidy_of_read? (h.mono (TypeExpr.subset_of_mem_topLevelParts hpart)) hread

end Parameter

/-! ## Declarations -/

namespace Member

variable {s : List Char}

/-- A shape whose texts are nested. -/
def Shape.Tidy : Shape → Prop
  | .call name parameters returns =>
    Nested name ∧ (∀ p ∈ parameters, p.Tidy) ∧ TypeExpr.Tidy returns
  | .field name type => Nested name ∧ TypeExpr.Tidy type

namespace Declaration

theorem takeSign_subset (s : List Char) : (takeSign s).2 ⊆ s := by
  unfold takeSign
  split
  · exact List.nil_subset _
  · split
    · exact List.subset_cons_of_subset _ (trim_subset _)
    · exact List.Subset.refl _

theorem takeKeywords_subset (s : List Char) : (takeKeywords s).2 ⊆ s := by
  fun_induction takeKeywords s with
  | case1 s => exact List.Subset.refl s
  | case2 s => exact List.Subset.refl s
  | case3 s => exact List.Subset.refl s
  | case4 s word tail hcut m hm hblank ms rest hrest ih =>
    rw [hrest] at ih
    exact fun c hc => (subset_of_cutAt hcut).2 (trimStart_subset tail (ih hc))

/-- A member that is read from a text without braces has none. -/
theorem tidy_of_shape? {modifiers : List Modifier} (hs : Unbraced s) {shape : Shape}
    (h : shape? modifiers s = some shape) : shape.Tidy := by
  unfold shape? at h
  split at h
  · next c hcall =>
    have hwithin : c.Within s := by
      split at hcall
      · cases hcall
      · exact within_of_call? hcall
    cases h
    exact ⟨.of_unbraced (hs.mono hwithin.name), Parameter.tidy_readAll (hs.mono hwithin.params),
      TypeExpr.tidy_map_read fun t ht => hs.mono (hwithin.type t ht)⟩
  · obtain ⟨f, hf, rfl⟩ := Option.map_eq_some_iff.1 h
    have hwithin := within_of_field? hf
    exact ⟨.of_unbraced (hs.mono hwithin.name),
      TypeExpr.tidy_map_read fun t ht => hs.mono (hwithin.type t ht)⟩

/-- A line without braces besides its tags declares a tidy member. -/
theorem tidy_of_read? {line : List Char} (hline : Unbraced (bare line)) {d : Declaration}
    (h : read? line = some d) : d.shape.Tidy := by
  obtain ⟨shape, hshape, rfl⟩ := Option.map_eq_some_iff.1 h
  exact tidy_of_shape? ((hline.mono (takeSign_subset _)).mono (takeKeywords_subset _)) hshape

/-- What is left of a line without its tags comes from the tokens that are no tags. -/
theorem bare_subset (line : List Char) : bare line ⊆ (tokens line).flatMap Token.blanked := by
  have hopening : ∀ s, dropOpening s ⊆ s := by
    intro s
    unfold dropOpening
    split
    · exact List.Subset.trans (trimEnd_subset _) (List.dropLast_subset s)
    · exact List.Subset.refl s
  have hsemicolons : ∀ s, dropSemicolons s ⊆ s := fun s c hc =>
    List.mem_reverse.1 ((List.dropWhile_suffix _).subset (List.mem_reverse.1 hc))
  exact fun c hc => trim_subset _ (hopening _ (hsemicolons _ (trim_subset _ hc)))

section Declared

variable {d : Declaration} (h : d.shape.Tidy)

include h

/-- A method has the parts of the declaration that it is made of. -/
theorem tidy_of_method? {m : Method} (hm : d.method? = some m) : m.Tidy := by
  have hvoid : TypeExpr.Named Unbraced ⟨"void", []⟩ := TypeExpr.named_plain (forall_mem_of_all rfl)
  unfold method? at hm
  cases hshape : d.shape with
  | call name parameters returns =>
    rw [hshape] at h hm
    cases hm
    obtain ⟨hname, hparameters, hreturns⟩ := h
    exact ⟨hname, fun t ht => Option.some.inj ht ▸ TypeExpr.named_getD hreturns hvoid, hparameters⟩
  | field name type =>
    rw [hshape] at h hm
    obtain ⟨hname, htype⟩ := h
    simp only [Option.ite_none_right_eq_some, Option.some.injEq] at hm
    rw [← hm.2]
    exact ⟨hname, fun t ht => Option.some.inj ht ▸ TypeExpr.named_getD htype hvoid,
      List.forall_mem_nil _⟩

theorem tidy_of_constructor? {owner : String} {m : Method} (hm : d.constructor? owner = some m) :
    m.Tidy := by
  unfold constructor? at hm
  split at hm
  · next name parameters hshape =>
    rw [hshape] at h
    obtain ⟨hname, hparameters, -⟩ := h
    simp only [Option.ite_none_right_eq_some, Option.some.injEq] at hm
    rw [← hm.2]
    exact ⟨hname, TypeExpr.tidy_none, hparameters⟩
  · cases hm

theorem tidy_of_attribute? {a : Attribute} (ha : d.attribute? = some a) : a.Tidy := by
  have hobject : TypeExpr.Named Unbraced ⟨"Object", []⟩ :=
    TypeExpr.named_plain (forall_mem_of_all rfl)
  unfold attribute? at ha
  split at ha
  · cases ha
  · next name type hshape =>
    rw [hshape] at h
    cases ha
    exact ⟨h.1, fun t ht => Option.some.inj ht ▸ TypeExpr.named_getD h.2 hobject⟩

end Declared

end Declaration

end Member

open Member

/-- A class stays tidy when a member is attached. -/
theorem ClassDecl.Tidy.attach {c c' : ClassDecl} (hc : c.Tidy) {d : Declaration}
    (hd : d.shape.Tidy) {taken : Bool} (h : c.attach d = (taken, c')) : c'.Tidy := by
  unfold ClassDecl.attach at h
  split at h
  · next hconstructor =>
    cases h
    exact { hc with
      constructors := List.forall_mem_append.2 ⟨hc.constructors, List.forall_mem_singleton.2
        (Declaration.tidy_of_constructor? hd hconstructor)⟩ }
  · next hmethod =>
    cases h
    exact { hc with
      methods := List.forall_mem_append.2 ⟨hc.methods, List.forall_mem_singleton.2
        (Declaration.tidy_of_method? hd hmethod)⟩ }
  · next hattribute =>
    cases h
    exact { hc with
      attributes := List.forall_mem_append.2 ⟨hc.attributes, List.forall_mem_singleton.2
        (Declaration.tidy_of_attribute? hd hattribute)⟩ }
  · cases h
    exact hc

/-- So does an interface. -/
theorem InterfaceDecl.Tidy.attach {i i' : InterfaceDecl} (hi : i.Tidy) {d : Declaration}
    (hd : d.shape.Tidy) {taken : Bool} (h : i.attach d = (taken, i')) : i'.Tidy := by
  unfold InterfaceDecl.attach at h
  split at h
  · next hmethod =>
    cases h
    exact { hi with
      methods := List.forall_mem_append.2 ⟨hi.methods, List.forall_mem_singleton.2
        (Declaration.tidy_of_method? hd hmethod)⟩ }
  · cases h
    exact hi

/-- A tidy entity takes tidy members and stays tidy. -/
theorem Entity.Tidy.attach {e e' : Entity} (he : e.Tidy) {d : Declaration} (hd : d.shape.Tidy)
    {taken : Bool} (h : e.attach d = (taken, e')) : e'.Tidy := by
  rcases attach_cases h with ⟨c, c', rfl, rfl, hc⟩ | ⟨i, i', rfl, rfl, hi⟩ | ⟨en, rfl, rfl, -⟩
  · exact ClassDecl.Tidy.attach he hd hc
  · exact InterfaceDecl.Tidy.attach he hd hi
  · exact he

end ClassSketch
