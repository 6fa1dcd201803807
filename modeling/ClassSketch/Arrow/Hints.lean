import ClassSketch.Text.Scan

/-!
# Layout hints inside an arrow

The stroke of an arrow may be interrupted by a style such as `[#red]` or by
a direction such as `up`. Both are dropped. A direction is only recognised
after a dash, or after one or two dots that follow a blank or an arrow tip,
so that a dotted name such as `com.d.Order` stays whole.
-/

namespace ClassSketch.Arrow

open Text

def isStrokeChar (c : Char) : Bool :=
  c == '-' || c == '.'

/-- Whether the stroke goes on at the front of a text. -/
def strokeFollows (s : List Char) : Bool :=
  s.head?.any isStrokeChar

/-- Drops the styles between two stroke characters; `before` is the character
before the text. -/
def dropStyles (before : Option Char) : List Char → List Char
  | [] => []
  | c :: cs =>
    if c = '[' ∧ before.any isStrokeChar then
      match _h : cutAt ']' cs with
      | some (_, rest) =>
        if strokeFollows rest then dropStyles (some ']') rest else c :: dropStyles (some c) cs
      | none => c :: dropStyles (some c) cs
    else c :: dropStyles (some c) cs
termination_by s => s.length
decreasing_by
  · exact Nat.lt_succ_of_lt (length_lt_of_cutAt _h)
  all_goals simp

def directionWords : List (List Char) :=
  ["up".toList, "down".toList, "left".toList, "right".toList, ['u'], ['d'], ['l'], ['r']]

/-- The direction word at the front, when the stroke goes on after it. -/
def direction? (s : List Char) : Option (List Char × List Char) :=
  directionWords.findSome? fun w =>
    (after? w s).bind fun rest => if strokeFollows rest then some (w, rest) else none

theorem eq_of_direction? {s w rest : List Char} (h : direction? s = some (w, rest)) :
    s = w ++ rest ∧ w ∈ directionWords := by
  obtain ⟨w', hw, h⟩ := List.exists_of_findSome?_eq_some h
  obtain ⟨rest', hr, h⟩ := Option.bind_eq_some_iff.1 h
  split at h
  · simp only [Option.some.injEq, Prod.mk.injEq] at h
    rw [← h.1, ← h.2]
    exact ⟨after?_eq_some_iff.1 hr, hw⟩
  · simp at h

theorem length_lt_of_direction? {s w rest : List Char} (h : direction? s = some (w, rest)) :
    rest.length < s.length := by
  obtain ⟨rfl, hw⟩ := eq_of_direction? h
  have : w ≠ [] := by
    rintro rfl
    simp [directionWords] at hw
  have := List.length_pos_iff.2 this
  simp
  omega

/-- A blank or the end of an arrow tip. -/
def isEdge (c : Char) : Bool :=
  isBlank c || c == '|' || c == '<' || c == '*'

/-- Whether a direction may follow; `before` is the text before it, last
character first. -/
def admitsDirection : List Char → Bool
  | '-' :: _ => true
  | '.' :: '.' :: c :: _ => isEdge c
  | '.' :: c :: _ => isEdge c
  | _ => false

def dropDirections (before : List Char) : List Char → List Char
  | [] => []
  | c :: cs =>
    if admitsDirection before then
      match _h : direction? (c :: cs) with
      | some (w, rest) => dropDirections (w.reverse ++ before) rest
      | none => c :: dropDirections (c :: before) cs
    else c :: dropDirections (c :: before) cs
termination_by s => s.length
decreasing_by
  · exact length_lt_of_direction? _h
  all_goals simp

/-- A line without its styles and directions. -/
def dropHints (s : List Char) : List Char :=
  dropDirections [] (dropStyles none s)

end ClassSketch.Arrow
