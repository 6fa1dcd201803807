import ClassSketch.Text.Blank
import ClassSketch.Text.LineBreak
import ClassSketch.Text.Scan
import ClassSketch.Text.Word

/-!
# Comments and markers

A diagram text is reduced to its lines without comments:

* a block comment, `/* ... */` or `/' ... '/`, is replaced by the line feeds
  in it, so that the lines after it keep their numbers;
* a line comment runs from the first apostrophe outside double quotes;
* a line that starts with `@startuml` or `@enduml` is empty.

Each line is trimmed.
-/

namespace ClassSketch.Source

open Text

/-- What stands before and after the first `a` that is followed by `b`. -/
def cutPair (a b : Char) : List Char → Option (List Char × List Char)
  | [] => none
  | [_] => none
  | x :: y :: s =>
    if x = a ∧ y = b then some ([], s)
    else (cutPair a b (y :: s)).map fun (p, q) => (x :: p, q)

theorem eq_of_cutPair {a b : Char} {s p q : List Char} (h : cutPair a b s = some (p, q)) :
    s = p ++ a :: b :: q := by
  fun_induction cutPair a b s generalizing p q with
  | case1 => simp at h
  | case2 => simp at h
  | case3 x y s hxy => simp_all
  | case4 x y s hxy ih =>
    obtain ⟨⟨p', q'⟩, hc, he⟩ := Option.map_eq_some_iff.1 h
    simp only [Prod.mk.injEq] at he
    rw [ih hc, ← he.1, ← he.2]
    rfl

/-- The mark of a block comment that opens at the front, and what follows the
opening. -/
def opening? : List Char → Option (Char × List Char)
  | '/' :: '*' :: s => some ('*', s)
  | '/' :: '\'' :: s => some ('\'', s)
  | _ => none

theorem length_lt_of_opening? {s inner : List Char} {mark : Char}
    (h : opening? s = some (mark, inner)) : inner.length < s.length := by
  unfold opening? at h
  split at h
  · simp only [Option.some.injEq, Prod.mk.injEq] at h
    rw [← h.2, List.length_cons, List.length_cons]
    omega
  · simp only [Option.some.injEq, Prod.mk.injEq] at h
    rw [← h.2, List.length_cons, List.length_cons]
    omega
  · simp at h

/-- The body of a block comment at the front, and what follows the comment. The
marks in `unclosed` are known not to be closed any more. -/
def blockComment? (unclosed : List Char) (s : List Char) : Option (List Char × List Char) :=
  match opening? s with
  | none => none
  | some (mark, inner) => if mark ∈ unclosed then none else cutPair mark '/' inner

theorem length_lt_of_blockComment? {unclosed s body rest : List Char}
    (h : blockComment? unclosed s = some (body, rest)) : rest.length < s.length := by
  unfold blockComment? at h
  split at h
  · simp at h
  · next mark inner ho =>
    split at h
    · simp at h
    · have := length_lt_of_opening? ho
      rw [eq_of_cutPair h] at this
      simp at this
      omega

/-- Drops the block comments. When the comment at the front is not closed, no later
one with its mark is. -/
def dropBlocks (unclosed : List Char) : List Char → List Char
  | [] => []
  | c :: cs =>
    match _h : blockComment? unclosed (c :: cs) with
    | some (body, rest) => List.replicate (body.count '\n') '\n' ++ dropBlocks unclosed rest
    | none => c :: dropBlocks (((opening? (c :: cs)).map (·.1)).toList ++ unclosed) cs
termination_by s => s.length
decreasing_by
  · exact length_lt_of_blockComment? _h
  · simp

def dropBlockComments (s : List Char) : List Char :=
  dropBlocks [] s

/-- Drops a line comment; `quoted` tells whether the text starts inside double quotes. -/
def dropLineComment (quoted : Bool) : List Char → List Char
  | [] => []
  | c :: cs =>
    if c = '"' then c :: dropLineComment (!quoted) cs
    else if c = '\'' ∧ quoted = false then []
    else c :: dropLineComment quoted cs

/-- Whether a line starts with a marker that no word character continues. -/
def isMarker (line : List Char) : Bool :=
  ["@startuml".toList, "@enduml".toList].any fun m =>
    (after? m line).any fun rest => !rest.head?.any isWord

def cleanLine (raw : List Char) : List Char :=
  let line := trim (dropLineComment false raw)
  if isMarker line then [] else line

def cleanLines (text : List Char) : List (List Char) :=
  (splitLines (dropBlockComments text)).map cleanLine

end ClassSketch.Source
