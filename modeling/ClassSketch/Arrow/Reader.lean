import ClassSketch.Arrow.Basic
import ClassSketch.Arrow.Hints
import ClassSketch.Text.Word

/-!
# Reading a relationship

A relationship line is two dotted names with an arrow between them. Quoted
texts may stand in the line and a text may follow a colon: the first quoted
text that is not blank is the label, else the text after the colon.

Since a full stop may belong to a name and to a dotted stroke, one line may
be read in several ways. The longest left name that lets the rest be read is
taken (`nameRests`), then the longest stroke (`dotRests`).
-/

namespace ClassSketch

open Text

namespace Arrow

/-- The name that makes up the rest of a line. -/
def rightName? (s : List Char) : Option (List Char) :=
  if isDottedText (trimStart s) then some (trimStart s) else none

/-- A right tip and the name after it. A circle is only a tip when no name
character follows it directly. -/
def tippedName? : List Char → Option (Tip × List Char)
  | '|' :: '>' :: s => (rightName? s).map fun r => (.triangle, r)
  | '>' :: s => (rightName? s).map fun r => (.angle, r)
  | '*' :: s => (rightName? s).map fun r => (.diamond, r)
  | 'o' :: s => if s.head?.any isDotted then none else (rightName? s).map fun r => (.circle, r)
  | _ => none

def tailAndName? (s : List Char) : Option (Tip × List Char) :=
  tippedName? s <|> (rightName? s).map fun r => (.plain, r)

/-- What may follow a stroke of dots, the shortest stroke first. -/
def dotRests : List Char → List (List Char)
  | '.' :: s => s :: dotRests s
  | _ => []

/-- The ways to read a stroke at the front, the longest first. -/
def strokes (s : List Char) : List (Stroke × List Char) :=
  match s with
  | '-' :: _ => [(.solid, s.dropWhile (· == '-'))]
  | _ => (dotRests s).reverse.map fun r => (.dotted, r)

/-- The left tip and what follows it. A circle is only a tip after a blank. -/
def headTip (spaced : Bool) : List Char → Tip × List Char
  | '<' :: '|' :: s => (.triangle, s)
  | '<' :: s => (.angle, s)
  | '*' :: s => (.diamond, s)
  | 'o' :: s => if spaced then (.circle, s) else (.plain, 'o' :: s)
  | s => (.plain, s)

/-- The arrow and the right name, when the left name has been read. -/
def afterLeft? (s : List Char) : Option (Arrow × List Char) :=
  let (head, rest) := headTip (s.head?.any isBlank) (trimStart s)
  (strokes rest).findSome? fun (stroke, rest) =>
    (tailAndName? rest).map fun (tail, right) => ({ head, stroke, tail }, right)

/-- What may follow a left name, the shortest name first. -/
def nameRests : List Char → List (List Char)
  | c :: cs => if isDotted c then cs :: nameRests cs else []
  | [] => []

/-- Left name, arrow and right name of a trimmed line. -/
def split? (s : List Char) : Option (List Char × Arrow × List Char) :=
  (nameRests s).reverse.findSome? fun rest =>
    (afterLeft? rest).map fun (arrow, right) => (before rest s, arrow, right)

end Arrow

namespace Relationship

/-- The first quoted text, of the parts of a line between its quotes. -/
def firstQuoted? : List (List Char) → Option (List Char)
  | _ :: q :: _ :: _ => some q
  | _ => none

/-- The line with a blank for each quoted text. A quote without a partner stays. -/
def unquoted : List (List Char) → List Char
  | [] => []
  | [a] => a
  | [a, b] => a ++ '"' :: b
  | a :: _ :: b :: rest => a ++ ' ' :: unquoted (b :: rest)

/-- The trimmed text, if there is one. -/
def label? (s : List Char) : Option String :=
  if allBlank s then none else some (String.ofList (trim s))

/-- The line before its first colon and the text after it. -/
def cutColon (s : List Char) : List Char × List Char :=
  (cutAt ':' s).getD (s, [])

/-- The relationship that an arrow between two names stands for. -/
def ofArrow? (left : List Char) (arrow : Arrow) (right : List Char) (label : Option String) :
    Option Relationship :=
  arrow.meaning?.map fun (kind, direction) =>
    let (source, target) := match direction with
      | .rightward => (left, right)
      | .leftward => (right, left)
    { source := String.ofList source, target := String.ofList target, kind, label }

/-- Links marked `[hidden]` are for layout only. -/
def hiddenMark : List Char :=
  "[hidden]".toList

def read? (line : List Char) : Option Relationship :=
  if occursIn hiddenMark line then none
  else
    let parts := line.splitOn '"'
    let (drawn, text) := cutColon (unquoted parts)
    let label := (firstQuoted? parts).bind label? <|> label? text
    (Arrow.split? (trim (Arrow.dropHints drawn))).bind fun (left, arrow, right) =>
      ofArrow? left arrow right label

end Relationship

end ClassSketch
