import ClassSketch.Text.Blank

/-!
# Angle brackets

A list of types or parameters is separated by the commas that stand at
angle depth zero. The depth may become negative, and a comma at a negative
depth does not separate either. `pieces` cuts at those commas and loses
nothing (`intercalate_pieces`); `topLevelParts` trims the pieces and drops
a blank one at the end.
-/

namespace ClassSketch.TypeExpr

open Text

/-- The angle depth after one more character. -/
def angleStep (depth : Int) (c : Char) : Int :=
  if c = '<' then depth + 1 else if c = '>' then depth - 1 else depth

/-- What stands between the commas at depth zero, when the text starts at `depth`. -/
def pieces (depth : Int) : List Char → List (List Char)
  | [] => [[]]
  | c :: cs =>
    if c = ',' ∧ depth = 0 then [] :: pieces depth cs
    else (pieces (angleStep depth c) cs).modifyHead (c :: ·)

theorem pieces_ne_nil (depth : Int) (s : List Char) : pieces depth s ≠ [] := by
  induction s generalizing depth with
  | nil => simp [pieces]
  | cons c cs ih =>
    unfold pieces
    split
    · simp
    · obtain ⟨p, ps, h⟩ := List.exists_cons_of_ne_nil (ih (angleStep depth c))
      simp [h]

theorem intercalate_pieces (depth : Int) (s : List Char) :
    [','].intercalate (pieces depth s) = s := by
  induction s generalizing depth with
  | nil => simp [pieces, List.intercalate]
  | cons c cs ih =>
    unfold pieces
    split
    · next h =>
      obtain ⟨p, ps, hp⟩ := List.exists_cons_of_ne_nil (pieces_ne_nil depth cs)
      have := ih depth
      rw [hp] at this ⊢
      rw [List.intercalate_cons_cons, this, h.1]
      rfl
    · have := ih (angleStep depth c)
      obtain ⟨p, ps, hp⟩ := List.exists_cons_of_ne_nil (pieces_ne_nil (angleStep depth c) cs)
      rw [hp] at this ⊢
      cases ps with
      | nil => simpa [List.intercalate] using this
      | cons q qs => simpa [List.intercalate_cons_cons] using this

theorem length_le_of_mem_pieces {depth : Int} {s p : List Char} (h : p ∈ pieces depth s) :
    p.length ≤ s.length := by
  induction s generalizing depth p with
  | nil => simp_all [pieces]
  | cons c cs ih =>
    unfold pieces at h
    split at h
    · rcases List.mem_cons.1 h with rfl | h
      · simp
      · exact Nat.le_succ_of_le (ih h)
    · obtain ⟨q, qs, hq⟩ := List.exists_cons_of_ne_nil (pieces_ne_nil (angleStep depth c) cs)
      rw [hq, List.modifyHead_cons] at h
      rcases List.mem_cons.1 h with rfl | h
      · simpa using ih (hq ▸ List.mem_cons_self)
      · exact Nat.le_succ_of_le (ih (hq ▸ List.mem_cons_of_mem _ h))

/-- The trimmed parts between the commas at depth zero. Only a last part that
is blank is left out. -/
def topLevelParts (s : List Char) : List (List Char) :=
  let parts := (pieces 0 s).map trim
  if parts.getLast? = some [] then parts.dropLast else parts

theorem length_le_of_mem_topLevelParts {s p : List Char} (h : p ∈ topLevelParts s) :
    p.length ≤ s.length := by
  have hp : p ∈ (pieces 0 s).map trim := by
    simp only [topLevelParts] at h
    split at h
    · exact (List.dropLast_sublist _).mem h
    · exact h
  obtain ⟨q, hq, rfl⟩ := List.mem_map.1 hp
  exact Nat.le_trans (length_trim_le q) (length_le_of_mem_pieces hq)

/-- Whether the angle brackets of a text match, when `depth` of them are open. -/
def balancedFrom : Nat → List Char → Bool
  | depth, [] => depth == 0
  | depth, c :: cs =>
    if c = '<' then balancedFrom (depth + 1) cs
    else if c = '>' then
      match depth with
      | 0 => false
      | d + 1 => balancedFrom d cs
    else balancedFrom depth cs

def balanced (s : List Char) : Bool :=
  balancedFrom 0 s

end ClassSketch.TypeExpr
