import ClassSketch.Member.Parameters
import ClassSketch.Proofs.Brackets

/-!
# Reading back a written type

A text is read as a generic type exactly if it is an application : a base that is not
blank, and in angle brackets a list of whole texts that are not blank
(`Application`, `genericParts?_eq_some_iff`). Each argument is then read on its own
(`Application.read_chars`).

A type is written as such an application, so that a type whose names are proper
(`Named`) is read back as it was (`read_chars`).
-/

namespace ClassSketch.TypeExpr

open Text

/-! ## Applications -/

/-- A base and its arguments, as they stand in a text. -/
structure Application where
  base : List Char
  args : List (List Char)
  unopened : '<' ∉ base
  base_visible : trim base ≠ []
  args_ne_nil : args ≠ []
  visible : ∀ a ∈ args, trim a ≠ []
  whole : ∀ a ∈ args, Whole a

def Application.chars (a : Application) : List Char :=
  a.base ++ '<' :: ([','].intercalate a.args ++ ['>'])

/-- An application is cut into its base and its arguments. -/
theorem Application.genericParts?_chars (a : Application) :
    genericParts? a.chars = some (trim a.base, a.args.map trim) := by
  have hpieces := pieces_intercalate a.whole a.args_ne_nil
  have hvisible : ∀ p ∈ pieces 0 ([','].intercalate a.args), trim p ≠ [] := by
    rw [hpieces]
    exact a.visible
  have hbalanced : balanced ([','].intercalate a.args) = true := by
    have h := balancedFrom_intercalate a.whole 0 []
    rwa [List.append_nil] at h
  have hlist := isArgList_iff.2 ⟨hbalanced, hvisible⟩
  rw [chars, genericParts?, cutAt_append a.unopened]
  simp only [List.getLast?_concat, List.dropLast_concat]
  rw [if_pos ⟨trivial, a.base_visible, hlist⟩, topLevelParts_of_visible hvisible, hpieces]

/-- What is read as generic is an application, and its parts are trimmed. -/
theorem genericParts?_eq_some_iff {s base : List Char} {parts : List (List Char)} :
    genericParts? s = some (base, parts) ↔
      ∃ a : Application, s = a.chars ∧ base = trim a.base ∧ parts = a.args.map trim := by
  constructor
  · intro h
    unfold genericParts? at h
    split at h
    · cases h
    · next front rest hcut =>
      obtain ⟨⟨hlast, hbase, hlist⟩, hsome⟩ := Option.ite_none_right_eq_some.1 h
      obtain ⟨heq, hopen⟩ := eq_of_cutAt hcut
      obtain ⟨inner, rfl⟩ := List.getLast?_eq_some_iff.1 hlast
      rw [List.dropLast_concat] at hlist hsome
      obtain ⟨hbalanced, hvisible⟩ := isArgList_iff.1 hlist
      rw [topLevelParts_of_visible hvisible] at hsome
      cases hsome
      refine ⟨⟨front, pieces 0 inner, hopen, hbase, pieces_ne_nil 0 inner, hvisible,
        fun p hp => whole_of_mem_pieces hbalanced hp⟩, ?_, rfl, rfl⟩
      rw [Application.chars, intercalate_pieces, heq]
  · rintro ⟨a, rfl, rfl, rfl⟩
    exact a.genericParts?_chars

/-- A text with arguments is read argument by argument. -/
theorem read_of_genericParts? {s base : List Char} {parts : List (List Char)}
    (h : genericParts? (trim s) = some (base, parts)) :
    read s = ⟨String.ofList base, parts.map read⟩ := by
  rw [read]
  split
  · next hnone => rw [h] at hnone; cases hnone
  · next hsome =>
    rw [h] at hsome
    cases hsome
    simp

/-- A text without arguments is a name as it stands. -/
theorem read_of_not_generic {s : List Char} (h : genericParts? (trim s) = none) :
    read s = ⟨String.ofList (trim s), []⟩ := by
  rw [read]
  split
  · rfl
  · next hsome => rw [h] at hsome; cases hsome

/-- Blanks around a text do not change its type. -/
theorem read_trim (s : List Char) : read (trim s) = read s := by
  cases h : genericParts? (trim s) with
  | none =>
    rw [read_of_not_generic h, read_of_not_generic (by rwa [trim_trim]), trim_trim]
  | some found => rw [read_of_genericParts? h, read_of_genericParts? (by rwa [trim_trim])]

theorem map_read_trim (as : List (List Char)) : (as.map trim).map read = as.map read := by
  rw [List.map_map]
  exact List.map_congr_left fun a _ => read_trim a

/-- A trimmed application is read argument by argument. -/
theorem Application.read_chars {a : Application} {s : List Char} (h : trim s = a.chars) :
    read s = ⟨String.ofList (trim a.base), a.args.map read⟩ := by
  have hparts := a.genericParts?_chars
  rw [← h] at hparts
  rw [read_of_genericParts? hparts, map_read_trim]

/-- Arguments may have a space after each comma. -/
theorem exists_application {base : List Char} {args : List (List Char)} (hopen : '<' ∉ base)
    (hbase : Trimmed base) (hne : args ≠ []) (htrimmed : ∀ a ∈ args, Trimmed a)
    (hwhole : ∀ a ∈ args, Whole a) : ∃ a : Application,
      a.chars = base ++ ('<' :: commaList args ++ ['>']) ∧ a.base = base ∧
        a.args.map trim = args := by
  obtain ⟨first, rest, rfl⟩ := List.exists_cons_of_ne_nil hne
  have htrim := map_trim_spaced htrimmed
  refine ⟨⟨base, first :: rest.map (' ' :: ·), hopen, ?_, List.cons_ne_nil _ _, ?_,
    whole_spaced hwhole⟩, ?_, rfl, htrim⟩
  · rw [hbase.trim_eq]
    exact hbase.ne_nil
  · intro a ha
    have hmem : trim a ∈ first :: rest := htrim ▸ List.mem_map_of_mem ha
    exact (htrimmed _ hmem).ne_nil
  · rw [Application.chars, commaList_eq_intercalate]
    rfl

/-- The arguments of a type are read one by one if each is whole, with its brackets closed. -/
theorem read_applied {base : List Char} {args : List (List Char)} (hopen : '<' ∉ base)
    (hbase : Trimmed base) (hne : args ≠ []) (htrimmed : ∀ a ∈ args, Trimmed a)
    (hwhole : ∀ a ∈ args, Whole a) :
    read (base ++ ('<' :: commaList args ++ ['>'])) = ⟨String.ofList base, args.map read⟩ := by
  obtain ⟨a, hchars, rfl, rfl⟩ := exists_application hopen hbase hne htrimmed hwhole
  have htrim : trim (a.base ++ ('<' :: commaList (a.args.map trim) ++ ['>'])) = a.chars := by
    rw [hchars, ← List.append_assoc]
    exact (hbase.append (.singleton (by decide)) _).trim_eq
  rw [Application.read_chars htrim, hbase.trim_eq, map_read_trim]

/-! ## Types -/

/-- A type all of whose names satisfy `p`. -/
inductive Named (p : List Char → Prop) : TypeExpr → Prop where
  | intro {name : String} {args : List TypeExpr} (hname : p name.toList)
      (hargs : ∀ a ∈ args, Named p a) : Named p ⟨name, args⟩

/-- What holds of all names of a type may be weakened. -/
theorem Named.mono {p q : List Char → Prop} (hpq : ∀ s, p s → q s) {t : TypeExpr}
    (h : Named p t) : Named q t := by
  induction h with
  | intro hname _ ih => exact .intro (hpq _ hname) ih

/-- A name that can be told from the signs around it. -/
structure IsName (s : List Char) : Prop where
  trimmed : Trimmed s
  plain : ∀ c ∈ s, c ≠ ',' ∧ c ≠ '<' ∧ c ≠ '>'

/-- A type with arguments is written with angle brackets and commas. -/
theorem chars_generic (name : String) {args : List TypeExpr} (hargs : args ≠ []) :
    chars ⟨name, args⟩ = name.toList ++ ('<' :: commaList (args.map chars) ++ ['>']) := by
  obtain ⟨a, as, rfl⟩ := List.exists_cons_of_ne_nil hargs
  rw [chars_eq_intercalate, List.append_assoc]
  rfl

/-- A type is written with the characters of its names and with four signs. -/
theorem forall_mem_chars {p : Char → Prop} (hsigns : ∀ c ∈ ['<', '>', ',', ' '], p c)
    {t : TypeExpr} (h : Named (fun s => ∀ c ∈ s, p c) t) : ∀ c ∈ t.chars, p c := by
  induction h with
  | @intro name args hname _ ih =>
    by_cases hargs : args = []
    · rw [hargs, chars_plain]
      exact hname
    · have hlist : ∀ c ∈ commaList (args.map chars), p c :=
        forall_mem_commaList (hsigns _ (by simp)) (hsigns _ (by simp)) (List.forall_mem_map.2 ih)
      rw [chars_generic name hargs]
      refine List.forall_mem_append.2 ⟨hname, List.forall_mem_append.2 ⟨?_, ?_⟩⟩
      · exact List.forall_mem_cons.2 ⟨hsigns _ (by simp), hlist⟩
      · exact List.forall_mem_singleton.2 (hsigns _ (by simp))

theorem trimmed_chars_of_name {t : TypeExpr} (h : Trimmed t.name.toList) : Trimmed t.chars := by
  obtain ⟨name, args⟩ := t
  by_cases hargs : args = []
  · rw [hargs, chars_plain]
    exact h
  · rw [chars_generic name hargs, ← List.append_assoc]
    exact h.append (.singleton (by decide)) _

section Named

variable {t : TypeExpr} (h : Named IsName t)

include h

/-- The brackets in a written type are closed. -/
theorem whole_chars : Whole t.chars := by
  induction h with
  | @intro name args hname _ ih =>
    have hwhole := Whole.of_forall hname.plain
    by_cases hargs : args = []
    · rw [hargs, chars_plain]
      exact hwhole
    · rw [chars_generic name hargs]
      exact hwhole.append (.bracket_commaList (List.forall_mem_map.2 ih))

theorem trimmed_chars : Trimmed t.chars := by
  cases h with
  | intro hname _ => exact trimmed_chars_of_name hname.trimmed

end Named

/-- A type that is written as it is read : a plain name is no application, and the arguments of a
generic one can be told apart. -/
inductive Canonical : TypeExpr → Prop where
  | plain {name : String} (htrim : trim name.toList = name.toList)
      (hplain : ∀ a : Application, name.toList ≠ a.chars) : Canonical ⟨name, []⟩
  | generic {name : String} {args : List TypeExpr} (hopen : '<' ∉ name.toList)
      (hname : Trimmed name.toList) (hne : args ≠ []) (hargs : ∀ a ∈ args, Canonical a)
      (htrimmed : ∀ a ∈ args, Trimmed a.chars) (hwhole : ∀ a ∈ args, Whole a.chars) :
      Canonical ⟨name, args⟩

/-- A type in canonical form is read as it was written. -/
theorem Canonical.read_chars {t : TypeExpr} (h : Canonical t) : read t.chars = t := by
  induction h with
  | @plain name htrim hplain =>
    have hnone : genericParts? (trim name.toList) = none := by
      cases hsome : genericParts? (trim name.toList) with
      | none => rfl
      | some found =>
        obtain ⟨a, heq, -⟩ := genericParts?_eq_some_iff.1 hsome
        exact absurd (htrim.symm.trans heq) (hplain a)
    rw [chars_plain, read_of_not_generic hnone, htrim, String.ofList_toList]
  | @generic name args hopen hname hne _ htrimmed hwhole ih =>
    have hread : ∀ a ∈ args, (read ∘ chars) a = a := ih
    rw [chars_generic name hne, read_applied hopen hname (by simpa using hne)
      (List.forall_mem_map.2 htrimmed) (List.forall_mem_map.2 hwhole), String.ofList_toList,
      List.map_map, List.map_congr_left hread, List.map_id']

/-- With plain names a type is in canonical form. -/
theorem Named.canonical {t : TypeExpr} (h : Named IsName t) : Canonical t := by
  induction h with
  | @intro name args hname hargs ih =>
    have hopen : '<' ∉ name.toList := fun hc => (hname.plain _ hc).2.1 rfl
    by_cases hne : args = []
    · subst hne
      refine .plain hname.trimmed.trim_eq fun a ha => hopen ?_
      simp [ha, Application.chars]
    · exact .generic hopen hname.trimmed hne ih (fun a ha => trimmed_chars (hargs a ha))
        fun a ha => whole_chars (hargs a ha)

/-- A type with proper names is read back as it was written. -/
theorem read_chars {t : TypeExpr} (h : Named IsName t) : read t.chars = t :=
  h.canonical.read_chars

end ClassSketch.TypeExpr
