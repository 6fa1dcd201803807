import ClassSketch.Proofs.Nesting.Reading

/-!
# Members without line feeds

A fragment is a part of one line, so that no line feed stands in it
(`not_mem_of_mem_fragments`). What a member line declares is made of its
characters, and a type is trimmed before it is named : its names start with no
blank (`flush_read`). The names of attributes and methods are words. All this is
said by `OneLine`, of members and of classes, and every class that is read off a
text satisfies it (`oneLine_of_mem_classes`).
-/

namespace ClassSketch

open Text

/-! ## Flush texts -/

namespace Text

/-- A text without a line feed and without a space at its front. -/
structure Flush (s : List Char) : Prop where
  feed : '\n' ∉ s
  space : s.head? ≠ some ' '

theorem flush_trim {s : List Char} (h : '\n' ∉ s) : Flush (trim s) where
  feed := fun hmem => h (trim_subset s hmem)
  space := by
    intro hspace
    have hstart := startsBlank_trim s
    rw [startsBlank, hspace] at hstart
    cases hstart

end Text

/-! ## Types and parameters -/

namespace TypeExpr

/-- The names in a type are trimmed. -/
theorem flush_read {s : List Char} (h : '\n' ∉ s) : Named Flush (read s) := by
  fun_induction read s with
  | case1 s _ =>
    refine .intro ?_ (List.forall_mem_nil _)
    rw [String.toList_ofList]
    exact flush_trim h
  | case2 s base parts hgeneric ih =>
    obtain ⟨a, heq, rfl, -⟩ := genericParts?_eq_some_iff.1 hgeneric
    refine .intro ?_ fun t ht => ?_
    · rw [String.toList_ofList]
      have hbase : a.base ⊆ trim s := heq ▸ List.subset_append_left _ _
      exact flush_trim fun hmem => h (trim_subset s (hbase hmem))
    · obtain ⟨⟨p, hp⟩, -, rfl⟩ := List.mem_map.1 ht
      exact ih p hp fun hmem => h (trim_subset s ((subset_of_genericParts? hgeneric).2 p hp hmem))

/-- A type is read to names without a line feed and without space around them. -/
theorem flush_map_read {s : Option (List Char)} (h : ∀ t ∈ s, '\n' ∉ t) :
    ∀ t ∈ s.map read, t.Named Flush := by
  intro t ht
  obtain ⟨u, hu, rfl⟩ := Option.map_eq_some_iff.1 ht
  exact flush_read (h u hu)

end TypeExpr

/-- A parameter without a line feed. -/
structure Parameter.OneLine (p : Parameter) : Prop where
  name : '\n' ∉ p.name.toList
  type : ∀ t ∈ p.type, t.Named Flush

/-- An attribute whose name is a word and whose type has no line feed. -/
structure Attribute.OneLine (a : Attribute) : Prop where
  name : isWordText a.name.toList = true
  type : ∀ t ∈ a.type, t.Named Flush

/-- A method whose name is a word, without a line feed in types and parameters. -/
structure Method.OneLine (m : Method) : Prop where
  name : isWordText m.name.toList = true
  returns : ∀ t ∈ m.returns, t.Named Flush
  parameters : ∀ p ∈ m.parameters, p.OneLine

structure ClassDecl.OneLine (c : ClassDecl) : Prop where
  attributes : ∀ a ∈ c.attributes, a.OneLine
  methods : ∀ m ∈ c.methods, m.OneLine

namespace Parameter

theorem flush_typeOrObject {s : List Char} (h : '\n' ∉ s) : (typeOrObject s).Named Flush := by
  unfold typeOrObject
  split
  · exact TypeExpr.named_plain ⟨by decide, by decide⟩
  · exact TypeExpr.flush_read h

/-- Parameters are read from one line to one line. -/
theorem oneLine_readAll {s : List Char} (h : '\n' ∉ s) : ∀ p ∈ readAll s, p.OneLine := by
  unfold readAll
  split
  · exact List.forall_mem_nil _
  · intro p hp
    obtain ⟨part, hpart, hread⟩ := List.mem_filterMap.1 hp
    have hfeed : '\n' ∉ part := fun hmem => h (TypeExpr.subset_of_mem_topLevelParts hpart hmem)
    obtain ⟨hname, htype⟩ := nameAndType_subset part
    simp only [read?] at hread
    split at hread
    · cases hread
    · cases hread
      refine ⟨?_, fun t ht => ?_⟩
      · rw [String.toList_ofList]
        exact fun hmem => hfeed (hname hmem)
      · cases ht
        exact flush_typeOrObject fun hmem => hfeed (htype hmem)

end Parameter

/-! ## Declarations -/

namespace Member

variable {s : List Char}

theorem isWordText_of_takeSome {w r : List Char} (h : takeSome isWord s = some (w, r)) :
    isWordText w = true := by
  obtain ⟨-, hne, hall, -⟩ := eq_of_takeSome h
  simpa [isWordText, hne] using hall

theorem isWordText_of_plainCall? {c : CallText} (h : plainCall? s = some c) :
    isWordText c.name = true := by
  unfold plainCall? at h
  split at h
  · cases h
  · next name rest hword =>
    split at h
    · obtain ⟨t, -, hsuffix⟩ := List.exists_of_findSome?_eq_some h
      obtain ⟨type, -, rfl⟩ := Option.map_eq_some_iff.1 hsuffix
      exact isWordText_of_takeSome hword
    · cases h

/-- The name of a method is a word. -/
theorem isWordText_of_call? {c : CallText} (h : call? s = some c) : isWordText c.name = true := by
  rcases (Option.orElse_eq_some _ _ _).1 h with h | ⟨-, h⟩
  · obtain ⟨⟨a, rest⟩, -, hcall⟩ := List.exists_of_findSome?_eq_some h
    obtain ⟨plain, hplain, rfl⟩ := Option.map_eq_some_iff.1 hcall
    have hname := isWordText_of_plainCall? hplain
    exact hname
  · exact isWordText_of_plainCall? h

/-- The name of an attribute is a word. -/
theorem isWordText_of_field? {f : FieldText} (h : field? s = some f) : isWordText f.name = true := by
  rcases (Option.orElse_eq_some _ _ _).1 h with h | ⟨-, h⟩
  · unfold suffixedField? at h
    split at h
    · cases h
    · next hword =>
      obtain ⟨type, -, rfl⟩ := Option.map_eq_some_iff.1 h
      exact isWordText_of_takeSome hword
  · obtain ⟨⟨a, rest⟩, -, hfield⟩ := List.exists_of_findSome?_eq_some h
    obtain ⟨hword, hsome⟩ := Option.ite_none_right_eq_some.1 hfield
    cases hsome
    exact hword

def Shape.OneLine : Shape → Prop
  | .call name parameters returns =>
    isWordText name.toList = true ∧ (∀ p ∈ parameters, p.OneLine) ∧ ∀ t ∈ returns, t.Named Flush
  | .field name type => isWordText name.toList = true ∧ ∀ t ∈ type, t.Named Flush

namespace Declaration

/-- What is read from one line has no line feed in its parts. -/
theorem oneLine_of_shape? {modifiers : List Modifier} (hs : '\n' ∉ s) {shape : Shape}
    (h : shape? modifiers s = some shape) : shape.OneLine := by
  unfold shape? at h
  split at h
  · next c hcall =>
    have hc : call? s = some c := by
      split at hcall
      · cases hcall
      · exact hcall
    have hwithin := within_of_call? hc
    cases h
    refine ⟨?_, Parameter.oneLine_readAll fun hmem => hs (hwithin.params hmem),
      TypeExpr.flush_map_read fun t ht hmem => hs (hwithin.type t ht hmem)⟩
    rw [String.toList_ofList]
    exact isWordText_of_call? hc
  · obtain ⟨f, hf, rfl⟩ := Option.map_eq_some_iff.1 h
    have hwithin := within_of_field? hf
    refine ⟨?_, TypeExpr.flush_map_read fun t ht hmem => hs (hwithin.type t ht hmem)⟩
    rw [String.toList_ofList]
    exact isWordText_of_field? hf

/-- A blank stands for a tag, and every other character is one of the line. -/
theorem not_mem_bare {line : List Char} (h : '\n' ∉ line) : '\n' ∉ bare line := by
  intro hmem
  obtain ⟨t, ht, hchar⟩ := List.mem_flatMap.1 (bare_subset line hmem)
  cases t with
  | tag m => exact absurd (List.mem_singleton.1 hchar) (by decide)
  | opening => exact absurd (List.mem_singleton.1 hchar) (by decide)
  | closing => exact absurd (List.mem_singleton.1 hchar) (by decide)
  | other c =>
    refine h ?_
    rw [← flatMap_chars_tokens line]
    exact List.mem_flatMap.2 ⟨_, ht, hchar⟩

theorem oneLine_of_read? {line : List Char} (hline : '\n' ∉ line) {d : Declaration}
    (h : read? line = some d) : d.shape.OneLine := by
  obtain ⟨shape, hshape, rfl⟩ := Option.map_eq_some_iff.1 h
  refine oneLine_of_shape? (fun hmem => not_mem_bare hline ?_) hshape
  exact takeSign_subset _ (takeKeywords_subset _ hmem)

section Declared

variable {d : Declaration} (h : d.shape.OneLine)

include h

/-- A method has the parts of the declaration that it is made of. -/
theorem oneLine_of_method? {m : Method} (hm : d.method? = some m) : m.OneLine := by
  have hvoid : TypeExpr.Named Flush ⟨"void", []⟩ := TypeExpr.named_plain ⟨by decide, by decide⟩
  unfold method? at hm
  cases hshape : d.shape with
  | call name parameters returns =>
    rw [hshape] at h hm
    cases hm
    obtain ⟨hname, hparameters, hreturns⟩ := h
    exact ⟨hname, fun t ht => Option.some.inj ht ▸ TypeExpr.named_getD hreturns hvoid, hparameters⟩
  | field name type =>
    rw [hshape] at h hm
    obtain ⟨hname, htype⟩ := h
    obtain ⟨-, hsome⟩ := Option.ite_none_right_eq_some.1 hm
    cases hsome
    exact ⟨hname, fun t ht => Option.some.inj ht ▸ TypeExpr.named_getD htype hvoid,
      List.forall_mem_nil _⟩

/-- And so has an attribute. -/
theorem oneLine_of_attribute? {a : Attribute} (ha : d.attribute? = some a) : a.OneLine := by
  have hobject : TypeExpr.Named Flush ⟨"Object", []⟩ := TypeExpr.named_plain ⟨by decide, by decide⟩
  unfold attribute? at ha
  split at ha
  · cases ha
  · next name type hshape =>
    rw [hshape] at h
    cases ha
    exact ⟨h.1, fun t ht => Option.some.inj ht ▸ TypeExpr.named_getD h.2 hobject⟩

end Declared

end Declaration

end Member

open Member

/-- A class stays in one line per member when a member is attached. -/
theorem ClassDecl.OneLine.attach {c c' : ClassDecl} (hc : c.OneLine) {d : Declaration}
    (hd : d.shape.OneLine) {taken : Bool} (h : c.attach d = (taken, c')) : c'.OneLine := by
  unfold ClassDecl.attach at h
  split at h
  · cases h
    exact ⟨hc.attributes, hc.methods⟩
  · next hmethod =>
    cases h
    exact ⟨hc.attributes, List.forall_mem_append.2 ⟨hc.methods, List.forall_mem_singleton.2
      (Declaration.oneLine_of_method? hd hmethod)⟩⟩
  · next hattribute =>
    cases h
    exact ⟨List.forall_mem_append.2 ⟨hc.attributes, List.forall_mem_singleton.2
      (Declaration.oneLine_of_attribute? hd hattribute)⟩, hc.methods⟩
  · cases h
    exact hc

/-! ## Steps -/

namespace Source

theorem dropLineComment_subset (quoted : Bool) (s : List Char) : dropLineComment quoted s ⊆ s := by
  fun_induction dropLineComment quoted s with
  | case1 => exact List.Subset.refl _
  | case2 quoted cs ih => exact List.cons_subset_cons '"' ih
  | case3 => exact List.nil_subset _
  | case4 quoted c cs _ _ ih => exact List.cons_subset_cons c ih

/-- Cleaning a line adds no characters. -/
theorem cleanLine_subset (raw : List Char) : cleanLine raw ⊆ raw := by
  simp only [cleanLine]
  split
  · exact List.nil_subset _
  · exact List.Subset.trans (trim_subset _) (dropLineComment_subset false raw)

theorem subset_of_mem_splitBraces {line piece : List Char} (h : piece ∈ splitBraces line) :
    piece ⊆ line := by
  obtain ⟨raw, hraw, rfl⟩ := List.mem_map.1 (List.mem_filter.1 h).1
  refine List.Subset.trans (trim_subset raw) fun c hc => ?_
  rw [← flatMap_chars_tokens line, ← flatten_cutBraces]
  exact List.mem_flatten.2 ⟨raw, hraw, hc⟩

/-- Fragments have no line feeds. -/
theorem not_mem_of_mem_fragments {text : List Char} {f : Fragment} (h : f ∈ fragments text) :
    '\n' ∉ f.text := by
  obtain ⟨⟨line, n⟩, hline, hmem⟩ := List.mem_flatMap.1 h
  obtain ⟨piece, hpiece, rfl⟩ := List.mem_map.1 hmem
  obtain ⟨raw, hraw, rfl⟩ := List.mem_map.1 (List.fst_mem_of_mem_zipIdx hline)
  intro hfeed
  have hbreak := not_isLineBreak_of_mem_splitLines _ raw hraw '\n'
    (cleanLine_subset raw (subset_of_mem_splitBraces hpiece hfeed))
  exact absurd hbreak (by decide)

end Source

/-- Members of a class are on one line each. -/
def Entity.OneLine : Entity → Prop
  | .cls c => c.OneLine
  | .interface _ | .enum _ => True

namespace Source

/-- A new entity has no members yet. -/
theorem EntityHeader.oneLine_entity (h : EntityHeader) (package : Option String) :
    (h.entity package).OneLine := by
  unfold EntityHeader.entity
  cases h.kind with
  | cls => exact ⟨List.forall_mem_nil _, List.forall_mem_nil _⟩
  | interface | enum => exact trivial

namespace Reader

theorem bodyText_subset (line : List Char) : bodyText line ⊆ line := by
  unfold bodyText
  split
  · exact List.Subset.trans (trim_subset _) (List.dropLast_subset line)
  · exact List.Subset.refl _

/-- A line of a body leaves the entity in one line per member. -/
theorem oneLine_bodyLine {e e' : Entity} (he : e.OneLine) {text : List Char} (htext : '\n' ∉ text)
    (h : bodyLine e text = (none, e')) : e'.OneLine := by
  rcases bodyLine_none h with hoffer | ⟨en, vs, -, -, rfl⟩
  · obtain ⟨d, hd, hattach⟩ := Entity.exists_of_offer_true hoffer
    rcases Entity.attach_cases hattach with
      ⟨c, c', rfl, rfl, hc⟩ | ⟨i, i', rfl, rfl, -⟩ | ⟨en, rfl, rfl, -⟩
    · exact ClassDecl.OneLine.attach he (Declaration.oneLine_of_read? htext hd) hc
    · exact trivial
    · exact trivial
  · exact trivial

end Reader

end Source

open Source

theorem Diagram.mem_classes_iff {d : Diagram} {c : ClassDecl} :
    c ∈ d.classes ↔ Entity.cls c ∈ d.entities := by
  refine List.mem_filterMap.trans ⟨?_, fun h => ⟨_, h, rfl⟩⟩
  rintro ⟨e, he, hclass⟩
  cases e with
  | cls c' =>
    cases hclass
    exact he
  | interface i => cases hclass
  | enum e => cases hclass

/-- Whatever the text, no member of a class has a line feed in it. -/
theorem oneLine_of_mem_classes {text : String} {c : ClassDecl}
    (hc : c ∈ (Reading.ofText text).diagram.classes) : c.OneLine := by
  have hentities : ∀ e ∈ (Reading.ofText text).diagram.entities, e.OneLine := by
    refine Reader.forall_entities_after (fun f _ r h package _ => h.oneLine_entity package) ?_
    intro f hf e e' he hbody
    have hfeed := not_mem_of_mem_fragments hf
    exact Reader.oneLine_bodyLine he (fun hmem => hfeed (Reader.bodyText_subset _ hmem)) hbody
  exact hentities _ (Diagram.mem_classes_iff.1 hc)

end ClassSketch
