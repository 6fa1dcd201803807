import ClassSketch.Text.Printable

/-!
# Quoted text in messages

Messages show a text in quotes with its unprintable characters escaped.
Single quotes are used unless the text holds a single quote and no double
quote. `hexDigits` pads the code point to two, four or eight lower-case
digits, whichever is the least that holds it.
-/

namespace ClassSketch.Text

/-- The `width` low hexadecimal digits of a number. -/
def hexDigits : Nat → Nat → List Char
  | 0, _ => []
  | width + 1, n => hexDigits width (n / 16) ++ [Nat.digitChar (n % 16)]

/-- A character by its code point. -/
def escapeCode (c : Char) : List Char :=
  let n := c.toNat
  if n < 0x100 then '\\' :: 'x' :: hexDigits 2 n
  else if n < 0x10000 then '\\' :: 'u' :: hexDigits 4 n
  else '\\' :: 'U' :: hexDigits 8 n

def escapeChar (quote c : Char) : List Char :=
  if c = quote ∨ c = '\\' then ['\\', c]
  else if c = '\t' then ['\\', 't']
  else if c = '\n' then ['\\', 'n']
  else if c = '\r' then ['\\', 'r']
  else if isPrintable c then [c]
  else escapeCode c

/-- The quote that encloses a text. -/
def quoteMark (s : List Char) : Char :=
  if '\'' ∈ s ∧ '"' ∉ s then '"' else '\''

def quotedChars (s : List Char) : List Char :=
  let q := quoteMark s
  q :: s.flatMap (escapeChar q) ++ [q]

def quoted (s : String) : String :=
  String.ofList (quotedChars s.toList)

theorem length_hexDigits (width n : Nat) : (hexDigits width n).length = width := by
  induction width generalizing n with
  | zero => rfl
  | succ w ih => simp [hexDigits, ih]

end ClassSketch.Text
