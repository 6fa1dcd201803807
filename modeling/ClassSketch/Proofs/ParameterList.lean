import ClassSketch.Proofs.SpacedType

/-!
# Reading back a list of parameters

A parameter is written `name: Type` or `Type name`, and a list may mix the two styles
(`Spelling`). A type may have commas and blanks of its own. The commas stand in its
brackets, so that a spelling is whole (`Spelling.whole_core`) and the list is cut between the
spellings. Of the blanks, those of the first style stand behind the colon, and in the
second style the last one stands before the name, which has none.
-/

namespace ClassSketch.Parameter

open Text

/-! ## One parameter -/

/-- The text of a type is read to that type. -/
theorem typeOrObject_chars {t : TypeExpr} (ht : t.Named TypeExpr.IsName) :
    typeOrObject t.chars = t := by
  rw [typeOrObject, if_neg (by simpa using (TypeExpr.trimmed_chars ht).ne_nil),
    TypeExpr.read_chars ht]

theorem read?_of_nameAndType {part name : List Char} {t : TypeExpr}
    (h : nameAndType part = (name, t.chars)) (hname : name ≠ []) (ht : t.Named TypeExpr.IsName) :
    read? part = some { name := String.ofList name, type := some t } := by
  unfold read?
  rw [h]
  simp only [typeOrObject_chars ht]
  rw [if_neg (by simpa using hname)]

section Styles

variable {name : List Char} {t : TypeExpr} (ht : t.Named TypeExpr.IsName)

include ht

/-- A parameter with a colon has its name in front. -/
theorem read?_nameFirst (hname : Trimmed name) (hcolon : ':' ∉ name) :
    read? (name ++ ':' :: ' ' :: t.chars) = some { name := String.ofList name, type := some t } := by
  refine read?_of_nameAndType ?_ hname.ne_nil ht
  rw [nameAndType, cutAt_append hcolon]
  exact Prod.ext hname.trim_eq (TypeExpr.trimmed_chars ht).trim_space

/-- Without a colon the name is behind the last space. -/
theorem read?_typeFirst (hname : Trimmed name) (hspace : ' ' ∉ name) (hcolon : ':' ∉ name)
    (hcolon' : ':' ∉ t.chars) :
    read? (t.chars ++ ' ' :: name) = some { name := String.ofList name, type := some t } := by
  have htrimmed := TypeExpr.trimmed_chars ht
  have hnone : cutAt ':' (t.chars ++ ' ' :: name) = none := by
    rw [cutAt_eq_none_iff]
    simp [hcolon, hcolon']
  have hlast : cutAtLastSpace (t.chars ++ ' ' :: name) = some (t.chars, name) := by
    rw [cutAtLastSpace, List.reverse_append, List.reverse_cons, List.append_assoc,
      List.singleton_append, cutAt_append (by simpa using hspace)]
    simp
  have htrim : trim (t.chars ++ ' ' :: name) = t.chars ++ ' ' :: name := by
    have h := (htrimmed.append hname [' ']).trim_eq
    rwa [List.append_assoc] at h
  refine read?_of_nameAndType ?_ hname.ne_nil ht
  simp only [nameAndType, hnone, htrim, hlast, htrimmed.trim_eq]

end Styles

/-! ## Spellings -/

/-- A blank list has no parts. -/
theorem topLevelParts_eq_nil {s : List Char} (h : allBlank s = true) :
    TypeExpr.topLevelParts s = [] := by
  have hblank : ∀ c ∈ s, isBlank c = true := List.all_eq_true.1 h
  have htrim : trim s = [] := trim_append_blanks [] hblank
  simp [TypeExpr.topLevelParts, TypeExpr.pieces_whole (TypeExpr.whole_blanks hblank), htrim]

/-- A blank list has no parts. -/
theorem readAll_eq_filterMap (s : List Char) :
    readAll s = (TypeExpr.topLevelParts s).filterMap read? := by
  unfold readAll
  split
  · next h => rw [topLevelParts_eq_nil h, List.filterMap_nil]
  · rfl

/-- Which of the two a parameter starts with. -/
inductive Style where
  | nameFirst
  | typeFirst

/-- A parameter as it stands between the commas of a list, with blanks around it. -/
structure Spelling where
  style : Style
  name : List Char
  type : TypeExpr
  lead : List Char
  trail : List Char
  name_ne_nil : name ≠ []
  name_plain : ∀ c ∈ name, isBlank c = false ∧ c ∉ [',', ':', '<', '>']
  type_named : type.Named fun s => Trimmed s ∧ ∀ c ∈ s, c ∉ [',', ':', '<', '>']
  lead_blank : ∀ c ∈ lead, isBlank c = true
  trail_blank : ∀ c ∈ trail, isBlank c = true

namespace Spelling

variable (p : Spelling)

def core : List Char :=
  match p.style with
  | .nameFirst => p.name ++ ':' :: ' ' :: p.type.chars
  | .typeFirst => p.type.chars ++ ' ' :: p.name

def chars : List Char :=
  p.lead ++ p.core ++ p.trail

def parameter : Parameter where
  name := String.ofList p.name
  type := some p.type

theorem padded : Padded p.core p.chars :=
  ⟨p.lead, p.trail, rfl, p.lead_blank, p.trail_blank⟩

/-- No blanks and no signs of a list are in a name. -/
theorem not_mem_name {c : Char} (hc : isBlank c = true ∨ c ∈ [',', ':', '<', '>']) :
    c ∉ p.name := by
  intro hmem
  obtain ⟨hblank, hsign⟩ := p.name_plain c hmem
  rcases hc with hc | hc
  · rw [hc] at hblank
    cases hblank
  · exact hsign hc

theorem trimmed_name : Trimmed p.name :=
  .of_forall p.name_ne_nil fun c hc => (p.name_plain c hc).1

theorem isName_type : p.type.Named TypeExpr.IsName := by
  refine p.type_named.mono fun s h => ⟨h.1, fun c hc => ?_⟩
  obtain ⟨hcomma, -, hopen, hclose⟩ : c ≠ ',' ∧ c ≠ ':' ∧ c ≠ '<' ∧ c ≠ '>' := by
    simpa using h.2 c hc
  exact ⟨hcomma, hopen, hclose⟩

theorem colon_not_mem_type : ':' ∉ p.type.chars := by
  have hname : p.type.Named fun s => ∀ c ∈ s, c ≠ ':' :=
    p.type_named.mono fun s h c hc hcolon => h.2 c hc (by simp [hcolon])
  exact fun h => TypeExpr.forall_mem_chars (forall_mem_of_all (by decide)) hname _ h rfl

theorem trimmed_core : Trimmed p.core := by
  have htype := TypeExpr.trimmed_chars p.isName_type
  unfold core
  cases p.style with
  | nameFirst => simpa using p.trimmed_name.append htype [':', ' ']
  | typeFirst => simpa using htype.append p.trimmed_name [' ']

/-- The commas of a parameter are inside of its brackets. -/
theorem whole_core : TypeExpr.Whole p.core := by
  have htype := TypeExpr.whole_chars p.isName_type
  have hname : TypeExpr.Whole p.name := .of_forall fun c hc => by
    refine ⟨?_, ?_, ?_⟩ <;> rintro rfl <;> exact p.not_mem_name (.inr (by decide)) hc
  have hspace : TypeExpr.Whole [' '] := .singleton (by decide)
  unfold core
  cases p.style with
  | nameFirst =>
    have hcolon : TypeExpr.Whole [':'] := .singleton (by decide)
    exact hname.append (hcolon.append (hspace.append htype))
  | typeFirst => exact htype.append (hspace.append hname)

/-- In either form a parameter is read to its name and type. -/
theorem read?_core : read? p.core = some p.parameter := by
  unfold core
  cases p.style with
  | nameFirst => exact read?_nameFirst p.isName_type p.trimmed_name (p.not_mem_name (.inr (by decide)))
  | typeFirst =>
    exact read?_typeFirst p.isName_type p.trimmed_name (p.not_mem_name (.inl (by decide)))
      (p.not_mem_name (.inr (by decide))) p.colon_not_mem_type

end Spelling

/-- A list of parameters, each in its own style, is read as these parameters in their order. -/
theorem readAll_spellings (ps : List Spelling) :
    readAll ([','].intercalate (ps.map Spelling.chars)) = ps.map Spelling.parameter := by
  rw [readAll_eq_filterMap]
  by_cases hne : ps = []
  · rw [hne]
    rfl
  have hpieces : TypeExpr.pieces 0 ([','].intercalate (ps.map Spelling.chars)) =
      ps.map Spelling.chars :=
    TypeExpr.pieces_intercalate (List.forall_mem_map.2 fun p _ => p.whole_core.of_padded p.padded)
      (by simpa using hne)
  have htrim : (ps.map Spelling.chars).map trim = ps.map Spelling.core := by
    rw [List.map_map]
    exact List.map_congr_left fun p _ => p.padded.trim_eq p.trimmed_core
  have hparts : TypeExpr.topLevelParts ([','].intercalate (ps.map Spelling.chars)) =
      ps.map Spelling.core := by
    refine TypeExpr.topLevelParts_of_pieces hpieces htrim fun hnil => ?_
    obtain ⟨p, -, hp⟩ := List.mem_map.1 hnil
    exact p.trimmed_core.ne_nil hp
  have hread : read? ∘ Spelling.core = some ∘ Spelling.parameter := funext Spelling.read?_core
  rw [hparts, List.filterMap_map, hread, List.filterMap_eq_map]

/-- A type with a comma and a blank of its own, and more blanks around it. -/
def mapSpelling (style : Style) : Spelling where
  style := style
  name := "m".toList
  type := ⟨"Map", [⟨"K", []⟩, ⟨"V", []⟩]⟩
  lead := [' ', ' ']
  trail := ['\t']
  name_ne_nil := by decide
  name_plain := forall_mem_of_all (by decide)
  type_named := by
    have hplain : ∀ s ∈ ["Map".toList, "K".toList, "V".toList],
        Trimmed s ∧ ∀ c ∈ s, c ∉ [',', ':', '<', '>'] := by
      simp only [List.forall_mem_cons]
      exact ⟨⟨.of_trim_eq (by decide) rfl, forall_mem_of_all (by decide)⟩,
        ⟨.of_trim_eq (by decide) rfl, forall_mem_of_all (by decide)⟩,
        ⟨.of_trim_eq (by decide) rfl, forall_mem_of_all (by decide)⟩, List.forall_mem_nil _⟩
    refine .intro (hplain _ (by decide)) (List.forall_mem_cons.2 ⟨?_, List.forall_mem_singleton.2 ?_⟩)
    · exact .intro (hplain _ (by decide)) (List.forall_mem_nil _)
    · exact .intro (hplain _ (by decide)) (List.forall_mem_nil _)
  lead_blank := forall_mem_of_all (by decide)
  trail_blank := forall_mem_of_all (by decide)

example :
    let ps := [mapSpelling .typeFirst, mapSpelling .nameFirst]
    [','].intercalate (ps.map Spelling.chars) = "  Map<K, V> m\t,  m: Map<K, V>\t".toList ∧
    ps.map Spelling.parameter = readAll "  Map<K, V> m\t,  m: Map<K, V>\t".toList := by
  cbv

end ClassSketch.Parameter
