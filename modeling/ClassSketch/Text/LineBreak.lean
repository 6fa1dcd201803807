/-!
# Line breaks

A line ends at a line feed, a carriage return, the two together, or one of
the other vertical separators. A break at the end of a text opens no
further line, so the empty text has no lines. `normalizeNewlines` is the
narrower rule for a text read from a file: only carriage returns and line
feeds count, and each break becomes one line feed.
-/

namespace ClassSketch.Text

def isLineBreak (c : Char) : Bool :=
  c ∈ ['\n', '\x0b', '\x0c', '\r', '\x1c', '\x1d', '\x1e', '\x85', '\u2028', '\u2029']

/-- The lines of a text, without their breaks. -/
def splitLines : List Char → List (List Char)
  | [] => []
  | '\r' :: '\n' :: cs => [] :: splitLines cs
  | c :: cs =>
    if isLineBreak c then [] :: splitLines cs
    else match splitLines cs with
      | [] => [[c]]
      | l :: ls => (c :: l) :: ls

/-- One line feed for each carriage return, line feed, or pair of the two. -/
def normalizeNewlines : List Char → List Char
  | [] => []
  | '\r' :: '\n' :: cs => '\n' :: normalizeNewlines cs
  | '\r' :: cs => '\n' :: normalizeNewlines cs
  | c :: cs => c :: normalizeNewlines cs

/-- No line holds a line break. -/
theorem not_isLineBreak_of_mem_splitLines (s : List Char) :
    ∀ l ∈ splitLines s, ∀ c ∈ l, isLineBreak c = false := by
  fun_induction splitLines s with
  | case1 => simp
  | case2 cs ih => simpa using ih
  | case3 c cs _ h ih => simpa using ih
  | case4 c cs _ h hs ih => simpa using h
  | case5 c cs _ h l ls hs ih =>
    rw [hs] at ih
    simp only [List.mem_cons, forall_eq_or_imp] at ih ⊢
    exact ⟨⟨by simpa using h, ih.1⟩, ih.2⟩

theorem not_mem_normalizeNewlines (s : List Char) : '\r' ∉ normalizeNewlines s := by
  fun_induction normalizeNewlines s with
  | case1 => simp
  | case2 cs ih => simpa using ih
  | case3 cs _ ih => simpa using ih
  | case4 c cs _ h ih => simp_all [eq_comm]

end ClassSketch.Text
