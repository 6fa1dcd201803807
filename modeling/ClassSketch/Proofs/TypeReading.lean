import ClassSketch.Proofs.Types

/-!
# What reading a type keeps

Every text is read as a type, however malformed it is. A text that is no application
becomes a plain name with whatever brackets and commas it holds. Such a name may stand as
an argument in a well-formed type, since an argument is only asked to be whole.

Reading loses nothing but blanks (`unspaced_chars_read`), and writing what was read puts
back only the spaces behind the commas. What is read is canonical (`canonical_read`) :
the arguments of a whole text are written as whole texts again (`whole_chars_read`), so
that the written form is cut where the text was cut. The canonical types are exactly those
that are read back as they were written (`ofString_render_eq_iff`).
-/

namespace ClassSketch.TypeExpr

open Text

/-! ## Characters -/

theorem unspaced_intercalate (as : List (List Char)) :
    unspaced ([','].intercalate as) = [','].intercalate (as.map unspaced) := by
  induction as with
  | nil => rfl
  | cons a as ih =>
    cases as with
    | nil => simp only [List.map_cons, List.map_nil, List.intercalate_singleton]
    | cons b bs =>
      rw [List.intercalate_cons_cons, unspaced_append, unspaced_append, ih]
      simp only [List.map_cons, List.intercalate_cons_cons]
      rfl

theorem unspaced_commaList (as : List (List Char)) :
    unspaced (commaList as) = [','].intercalate (as.map unspaced) := by
  cases as with
  | nil => rfl
  | cons a as =>
    rw [commaList_eq_intercalate, unspaced_intercalate, List.map_cons, List.map_map]
    rfl

theorem unspaced_applied (base inner : List Char) : unspaced (base ++ '<' :: (inner ++ ['>'])) =
    unspaced base ++ '<' :: (unspaced inner ++ ['>']) := by
  rw [unspaced_append, unspaced_cons (by decide), unspaced_append]
  rfl

/-- Nothing but blanks is lost. -/
theorem unspaced_chars_read (s : List Char) : unspaced (read s).chars = unspaced s := by
  induction s using read.induct with
  | case1 s hplain =>
    rw [read_of_not_generic hplain, chars_plain, String.toList_ofList, unspaced_trim]
  | case2 s base parts hgeneric ih =>
    obtain ⟨a, heq, rfl, rfl⟩ := genericParts?_eq_some_iff.1 hgeneric
    have hne : (a.args.map trim).map read ≠ [] := by simpa using a.args_ne_nil
    have hargs : (((a.args.map trim).map read).map chars).map unspaced =
        a.args.map unspaced := by
      simp only [List.map_map]
      refine List.map_congr_left fun p hp => ?_
      exact (ih (trim p) (List.mem_map_of_mem hp)).trans (unspaced_trim p)
    calc unspaced (read s).chars
        = unspaced (trim a.base) ++ '<' ::
            (unspaced (commaList (((a.args.map trim).map read).map chars)) ++ ['>']) := by
          rw [read_of_genericParts? hgeneric, chars_generic _ hne, String.toList_ofList]
          exact unspaced_applied _ _
      _ = unspaced a.chars := by
          rw [unspaced_trim, unspaced_commaList, hargs, Application.chars, unspaced_applied,
            unspaced_intercalate]
      _ = unspaced s := by rw [← heq, unspaced_trim]

/-- A type is generic exactly if it is an application. -/
theorem isGeneric_read_iff (s : List Char) :
    (read s).isGeneric = true ↔ ∃ a : Application, trim s = a.chars := by
  constructor
  · intro h
    cases hparts : genericParts? (trim s) with
    | none =>
      rw [read_of_not_generic hparts] at h
      cases h
    | some found =>
      obtain ⟨a, heq, -⟩ := genericParts?_eq_some_iff.1 hparts
      exact ⟨a, heq⟩
  · rintro ⟨a, ha⟩
    rw [Application.read_chars ha]
    simp [isGeneric, a.args_ne_nil]

/-- A type that is read off a text has the characters of the text, blanks apart, and it is taken
apart whenever the text is an application. -/
theorem unspaced_render_ofString (text : String) :
    unspaced (ofString text).render.toList = unspaced text.toList ∧
      ((ofString text).isGeneric = true ↔ ∃ a : Application, trim text.toList = a.chars) := by
  refine ⟨?_, isGeneric_read_iff text.toList⟩
  rw [render, String.toList_ofList]
  exact unspaced_chars_read text.toList

/-! ## Canonical types -/

/-- What is read is written without blanks around it. -/
theorem trimmed_chars_read {s : List Char} (h : trim s ≠ []) : Trimmed (read s).chars := by
  refine trimmed_chars_of_name ?_
  cases hparts : genericParts? (trim s) with
  | none =>
    rw [read_of_not_generic hparts, String.toList_ofList]
    exact trimmed_trim h
  | some found =>
    obtain ⟨a, heq, -⟩ := genericParts?_eq_some_iff.1 hparts
    rw [Application.read_chars heq, String.toList_ofList]
    exact trimmed_trim a.base_visible

/-- The type of a whole text is written as a whole text. -/
theorem whole_chars_read {s : List Char} (h : Whole s) : Whole (read s).chars := by
  induction s using read.induct with
  | case1 s hplain =>
    rw [read_of_not_generic hplain, chars_plain, String.toList_ofList]
    exact h.trim
  | case2 s base parts hgeneric ih =>
    obtain ⟨a, heq, rfl, rfl⟩ := genericParts?_eq_some_iff.1 hgeneric
    have hne : (a.args.map trim).map read ≠ [] := by simpa using a.args_ne_nil
    -- what stands before the first bracket of a whole text is plain
    have htext : Whole (a.base ++ '<' :: ([','].intercalate a.args ++ ['>'])) := by
      have htrim := h.trim
      rwa [heq] at htrim
    have hbase := htext.plain_of_append a.unopened
    rw [read_of_genericParts? hgeneric, chars_generic _ hne, String.toList_ofList]
    refine (Whole.of_forall fun c hc => hbase c (trim_subset _ hc)).append (.bracket_commaList ?_)
    refine List.forall_mem_map.2 (List.forall_mem_map.2 fun p hp => ih p hp ?_)
    obtain ⟨q, hq, rfl⟩ := List.mem_map.1 hp
    exact (a.whole q hq).trim

/-- What is read is canonical. -/
theorem canonical_read (s : List Char) : Canonical (read s) := by
  induction s using read.induct with
  | case1 s hplain =>
    rw [read_of_not_generic hplain]
    refine .plain ?_ fun a ha => ?_
    · rw [String.toList_ofList, trim_trim]
    · rw [String.toList_ofList] at ha
      rw [ha, a.genericParts?_chars] at hplain
      cases hplain
  | case2 s base parts hgeneric ih =>
    obtain ⟨a, heq, rfl, rfl⟩ := genericParts?_eq_some_iff.1 hgeneric
    have hvisible : ∀ p ∈ a.args.map trim, trim p ≠ [] := List.forall_mem_map.2 fun p hp => by
      rw [trim_trim]
      exact a.visible p hp
    have hwhole : ∀ p ∈ a.args.map trim, Whole p :=
      List.forall_mem_map.2 fun p hp => (a.whole p hp).trim
    rw [read_of_genericParts? hgeneric]
    refine .generic ?_ ?_ (by simpa using a.args_ne_nil) (List.forall_mem_map.2 ih)
      (List.forall_mem_map.2 fun p hp => trimmed_chars_read (hvisible p hp))
      (List.forall_mem_map.2 fun p hp => whole_chars_read (hwhole p hp))
    · rw [String.toList_ofList]
      exact fun hmem => a.unopened (trim_subset _ hmem)
    · rw [String.toList_ofList]
      exact trimmed_trim a.base_visible

/-- A type is read back exactly if it is canonical. -/
theorem ofString_render_eq_iff (t : TypeExpr) : ofString t.render = t ↔ Canonical t := by
  rw [ofString, render, String.toList_ofList]
  exact ⟨fun h => h ▸ canonical_read t.chars, Canonical.read_chars⟩

/-- What is read is canonical, so that writing it and reading it again changes nothing. -/
theorem ofString_render_ofString (text : String) :
    Canonical (ofString text) ∧ ofString (ofString text).render = ofString text := by
  have hcanonical : Canonical (ofString text) := canonical_read text.toList
  exact ⟨hcanonical, (ofString_render_eq_iff _).2 hcanonical⟩

end ClassSketch.TypeExpr
