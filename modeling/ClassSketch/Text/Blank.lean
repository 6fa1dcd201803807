import ClassSketch.Text.Ranges

/-!
# Blanks

A blank is a character with the `White_Space` property or one of the four
information separators `U+001C` to `U+001F`. The zero width space and the
byte order mark are not blank. `trim` drops the blanks at both ends of a
text; `trimStart_blanks_append` and `trimEnd_append_blanks` say that it drops
all of them.
-/

namespace ClassSketch.Text

def blankRanges : List (Nat × Nat) :=
  [(0x09, 0x0D), (0x1C, 0x20), (0x85, 0x85), (0xA0, 0xA0), (0x1680, 0x1680), (0x2000, 0x200A),
    (0x2028, 0x2029), (0x202F, 0x202F), (0x205F, 0x205F), (0x3000, 0x3000)]

def isBlank (c : Char) : Bool :=
  inRanges blankRanges c.toNat

/-- Every character that core counts as white space is blank. -/
theorem isBlank_of_isWhitespace {c : Char} (h : c.isWhitespace = true) : isBlank c = true := by
  simp only [Char.isWhitespace, Bool.or_eq_true, decide_eq_true_eq] at h
  rcases h with ((rfl | rfl) | rfl) | rfl <;> decide

def trimStart (s : List Char) : List Char :=
  s.dropWhile isBlank

def trimEnd (s : List Char) : List Char :=
  (s.reverse.dropWhile isBlank).reverse

def trim (s : List Char) : List Char :=
  trimEnd (trimStart s)

/-- Nothing but blanks, possibly nothing at all. -/
def allBlank (s : List Char) : Bool :=
  s.all isBlank

/-! ## Ends of a trimmed text -/

theorem length_dropWhile_le (p : Char → Bool) (s : List Char) :
    (s.dropWhile p).length ≤ s.length :=
  (List.dropWhile_suffix p).length_le

theorem length_trimStart_le (s : List Char) : (trimStart s).length ≤ s.length :=
  length_dropWhile_le isBlank s

theorem length_trimEnd_le (s : List Char) : (trimEnd s).length ≤ s.length := by
  simpa [trimEnd] using length_dropWhile_le isBlank s.reverse

theorem length_trim_le (s : List Char) : (trim s).length ≤ s.length :=
  Nat.le_trans (length_trimEnd_le _) (length_dropWhile_le isBlank s)

theorem trimEnd_append_blanks (s : List Char) {bs : List Char} (h : ∀ c ∈ bs, isBlank c = true) :
    trimEnd (s ++ bs) = trimEnd s := by
  unfold trimEnd
  rw [List.reverse_append, List.dropWhile_append_of_pos]
  simpa using h

theorem trimStart_blanks_append {bs : List Char} (h : ∀ c ∈ bs, isBlank c = true) (s : List Char) :
    trimStart (bs ++ s) = trimStart s :=
  List.dropWhile_append_of_pos h

end ClassSketch.Text
