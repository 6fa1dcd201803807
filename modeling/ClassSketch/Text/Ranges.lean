/-!
# Tables of code points

A character class outside ASCII is given as a table of closed ranges of
code points. All tables follow version 14.0 of the Unicode character
database.
-/

namespace ClassSketch.Text

/-- Whether a code point lies in one of the closed ranges of a table. -/
def inRanges (table : List (Nat × Nat)) (n : Nat) : Bool :=
  table.any fun r => r.1 ≤ n && n ≤ r.2

theorem inRanges_iff {table : List (Nat × Nat)} {n : Nat} :
    inRanges table n = true ↔ ∃ r ∈ table, r.1 ≤ n ∧ n ≤ r.2 := by
  simp [inRanges]

end ClassSketch.Text
