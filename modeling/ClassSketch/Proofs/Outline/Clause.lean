import ClassSketch.Proofs.ClauseType

/-!
# Clauses of an outline

The names in the clauses of an entry are types without arguments, so both clauses are
read as they are written (`clauseNames_tail`).
-/

namespace ClassSketch.Outline

open Text Source EntityHeader

/-- A name as a type without arguments. -/
def Reference.clauseType (r : Reference) : ClauseType :=
  .applied r.toDotted (fun w hw h => r.unreserved w hw (mem_reserved_of_mem_clauseWords _ h)) []

theorem map_clauseType_chars (rs : List Reference) :
    (rs.map Reference.clauseType).map ClauseType.chars = rs.map fun r => r.chars := by
  rw [List.map_map]
  refine List.map_congr_left fun r _ => ?_
  show TypeExpr.chars ⟨r.text, []⟩ = r.chars
  rw [TypeExpr.chars_plain]
  exact String.toList_ofList

theorem map_base_clauseType (rs : List Reference) :
    (ClauseType.upToNested (rs.map Reference.clauseType)).map ClauseType.base =
      rs.map fun r => r.text := by
  induction rs with
  | nil => rfl
  | cons r rs ih => exact congrArg (r.text :: ·) ih

/-- The references of an entry are written as a clause. -/
theorem clauseChars_eq (k : List Char) (rs : List Reference) :
    clauseChars k rs = clauseText k (rs.map Reference.clauseType) := by
  rw [clauseChars, clauseText, map_clauseType_chars, List.isEmpty_map]

theorem clauseChars_of_ne_nil (k : List Char) {rs : List Reference} (hrs : rs ≠ []) :
    clauseChars k rs =
      ' ' :: k ++ ' ' :: commaList ((rs.map Reference.toDotted).map Dotted.chars) := by
  rw [clauseChars, if_neg (by simpa using hrs), List.map_map]
  rfl

/-- What follows the name of an entry are the clauses and the brace. -/
theorem tail_eq (e : Entry) : e.tail = clauses (e.parents.map Reference.clauseType)
    (e.interfaces.map Reference.clauseType) e.body?.isSome := by
  rw [Entry.tail, clauseChars_eq, clauseChars_eq, List.append_assoc]
  rfl

theorem head?_trimStart_tail (e : Entry) : (trimStart e.tail).head? ≠ some '<' := by
  rw [tail_eq]
  exact head?_trimStart_clauses _ _ _

/-- The clauses of an entry are found in what follows its name. -/
theorem clauseNames_tail (e : Entry) :
    clauseNames "extends".toList e.tail = e.parents.map (fun r => r.text) ∧
      clauseNames "implements".toList e.tail = e.interfaces.map fun r => r.text := by
  have hclauses := clauseNames_clauses (e.parents.map Reference.clauseType)
    (e.interfaces.map Reference.clauseType) e.body?.isSome
  rwa [← tail_eq, map_base_clauseType, map_base_clauseType] at hclauses

end ClassSketch.Outline
