/-!
# Widths of padding

The width of a padding is a number of levels times the size of a level, and
may be any whole number. A negative width pads with nothing. A width has to
fit into 64 bits with a sign even where it pads nothing, and there has to
be memory for its spaces. How many spaces there is memory for is up to the
machine and stays a parameter. `widthFault?_eq_none_iff` says which widths are
possible.
-/

namespace ClassSketch.Layout

/-- Why a padding cannot be made. -/
inductive WidthFault where
  /-- The width does not fit into 64 bits. -/
  | unindexable
  /-- There is no memory for the spaces. -/
  | outOfMemory
deriving DecidableEq

def WidthFault.message : WidthFault → String
  | unindexable => "cannot fit 'int' into an index-sized integer"
  | outOfMemory => ""

/-- Widths are below this bound, and not below its negative. -/
def indexBound : Int :=
  Int.pow 2 63

/-- What keeps a padding from being made where there is memory for `memory` spaces. -/
def widthFault? (memory : Nat) (width : Int) : Option WidthFault :=
  if width < -indexBound ∨ indexBound ≤ width then some .unindexable
  else if memory < width then some .outOfMemory
  else none

theorem widthFault?_eq_none_iff {memory : Nat} {width : Int} :
    widthFault? memory width = none ↔
      -indexBound ≤ width ∧ width < indexBound ∧ width ≤ memory := by
  unfold widthFault?
  repeat' split
  all_goals simp
  all_goals omega

end ClassSketch.Layout
