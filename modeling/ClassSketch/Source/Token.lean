import ClassSketch.Text.Scan

/-!
# Modifier tags and structural braces

Six words in braces, such as `{static}`, are modifier tags. Every other
brace is structural: it opens or closes a block. `tokens` reads a text as
tags, structural braces and single other characters, and
`flatMap_chars_tokens` says that nothing is lost.
-/

namespace ClassSketch

open Text

inductive Modifier where
  | static
  | final
  | abstract
  | classifier
  | field
  | method
deriving DecidableEq

namespace Modifier

def all : List Modifier :=
  [static, final, abstract, classifier, field, method]

def word : Modifier → List Char
  | static => "static".toList
  | final => "final".toList
  | abstract => "abstract".toList
  | classifier => "classifier".toList
  | field => "field".toList
  | method => "method".toList

/-- The modifier as a tag, in braces. -/
def tag (m : Modifier) : List Char :=
  '{' :: m.word ++ ['}']

/-- The modifier that a keyword before a declaration stands for. Only three of
the six have a keyword. -/
def ofKeyword? (w : List Char) : Option Modifier :=
  [abstract, static, final].find? fun m => m.word == w

/-- The tag at the front of a text and what follows it. -/
def tag? (s : List Char) : Option (Modifier × List Char) :=
  all.findSome? fun m => (after? m.tag s).map fun r => (m, r)

theorem eq_of_tag? {s r : List Char} {m : Modifier} (h : tag? s = some (m, r)) :
    s = m.tag ++ r := by
  obtain ⟨m', -, h⟩ := List.exists_of_findSome?_eq_some h
  obtain ⟨r', hr, h⟩ := Option.map_eq_some_iff.1 h
  simp only [Prod.mk.injEq] at h
  rw [← h.1, ← h.2]
  exact after?_eq_some_iff.1 hr

theorem length_lt_of_tag? {s r : List Char} {m : Modifier} (h : tag? s = some (m, r)) :
    r.length < s.length := by
  rw [eq_of_tag? h]
  simp [tag]
  omega

end Modifier

inductive Token where
  | tag (m : Modifier)
  | opening
  | closing
  | other (c : Char)
deriving DecidableEq

namespace Token

def chars : Token → List Char
  | tag m => m.tag
  | opening => ['{']
  | closing => ['}']
  | other c => [c]

/-- A single character that does not start a tag. -/
def ofChar (c : Char) : Token :=
  if c = '{' then opening else if c = '}' then closing else other c

theorem chars_ofChar (c : Char) : (ofChar c).chars = [c] := by
  unfold ofChar
  repeat' split
  all_goals simp_all [chars]

def modifier? : Token → Option Modifier
  | tag m => some m
  | _ => none

/-- The text of a token, a blank in place of a tag. -/
def blanked : Token → List Char
  | tag _ => [' ']
  | t => t.chars

end Token

def tokens : List Char → List Token
  | [] => []
  | c :: cs =>
    match _h : Modifier.tag? (c :: cs) with
    | some (m, r) => .tag m :: tokens r
    | none => .ofChar c :: tokens cs
termination_by s => s.length
decreasing_by
  · exact Modifier.length_lt_of_tag? _h
  · simp

theorem flatMap_chars_tokens (s : List Char) : (tokens s).flatMap Token.chars = s := by
  fun_induction tokens s with
  | case1 => rfl
  | case2 c cs m r h ih => simp [ih, Token.chars, Modifier.eq_of_tag? h]
  | case3 c cs h ih => simp [ih, Token.chars_ofChar]

end ClassSketch
