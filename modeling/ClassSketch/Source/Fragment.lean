import ClassSketch.Source.Comment
import ClassSketch.Source.Token

/-!
# Fragments

A line is cut at its structural braces: an opening brace ends a fragment, a
closing brace stands alone. So `package "p" { class A { } }` has the
fragments `package "p" {`, `class A {`, `}` and `}`. Blank fragments are
left out and the others are trimmed.
-/

namespace ClassSketch.Source

open Text

/-- A piece of a line, with the number of the line. -/
structure Fragment where
  line : Nat
  text : List Char
deriving DecidableEq

/-- The pieces between structural braces. -/
def cutBraces : List Token → List (List Char)
  | [] => [[]]
  | .opening :: ts => ['{'] :: cutBraces ts
  | .closing :: ts => [] :: ['}'] :: cutBraces ts
  | .tag m :: ts => (cutBraces ts).modifyHead (m.tag ++ ·)
  | .other c :: ts => (cutBraces ts).modifyHead (c :: ·)

def splitBraces (line : List Char) : List (List Char) :=
  ((cutBraces (tokens line)).map trim).filter (!·.isEmpty)

theorem cutBraces_ne_nil (ts : List Token) : cutBraces ts ≠ [] := by
  induction ts with
  | nil => simp [cutBraces]
  | cons t ts ih =>
    obtain ⟨p, ps, h⟩ := List.exists_cons_of_ne_nil ih
    cases t <;> simp [cutBraces, h]

theorem flatten_cutBraces (ts : List Token) :
    (cutBraces ts).flatten = ts.flatMap Token.chars := by
  induction ts with
  | nil => rfl
  | cons t ts ih =>
    obtain ⟨p, ps, h⟩ := List.exists_cons_of_ne_nil (cutBraces_ne_nil ts)
    cases t <;> simp_all [cutBraces, Token.chars]

/-- The fragments of a diagram text, lines numbered from one. -/
def fragments (text : List Char) : List Fragment :=
  ((cleanLines text).zipIdx 1).flatMap fun (line, n) =>
    (splitBraces line).map fun piece => { line := n, text := piece }

end ClassSketch.Source
