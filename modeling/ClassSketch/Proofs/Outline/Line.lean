import ClassSketch.Proofs.Comments
import ClassSketch.Proofs.Outline.Basic
import ClassSketch.Proofs.Tokens

/-!
# Lines of an outline

Every line of an outline is one fragment of its text : no comment, marker or
line break is found in it, its indentation is trimmed, and it has a structural
brace at its end or is one (`IsLine`). So the fragments of a laid out text are
its lines with their numbers (`fragments_layout`).

Most lines are written with the characters of words and a few signs
(`isInk`), none of which means anything at this level.
-/

namespace ClassSketch

open Text

/-! ## Ink -/

/-- A word character or one of the signs that names, types, arrows and members are written with. -/
def isInk (c : Char) : Bool :=
  isWord c || ".<>,:()-|*+#~ ".toList.contains c

/-- A text of such characters. -/
def Ink (s : List Char) : Prop :=
  ∀ c ∈ s, isInk c = true

namespace Ink

theorem of_word {s : List Char} (h : ∀ c ∈ s, isWord c = true) : Ink s := by
  intro c hc
  rw [isInk, h c hc, Bool.true_or]

theorem append {s t : List Char} (hs : Ink s) (ht : Ink t) : Ink (s ++ t) :=
  List.forall_mem_append.2 ⟨hs, ht⟩

theorem cons {c : Char} {s : List Char} (hc : isInk c = true) (hs : Ink s) : Ink (c :: s) :=
  List.forall_mem_cons.2 ⟨hc, hs⟩

theorem commaList {as : List (List Char)} (has : ∀ a ∈ as, Ink a) : Ink (commaList as) :=
  forall_mem_commaList (by decide) (by decide) has

/-- No other character is in a text of ink. -/
theorem not_mem {s : List Char} (h : Ink s) {c : Char} (hc : isInk c = false) : c ∉ s :=
  fun hmem => absurd (h c hmem) (by simp [hc])

theorem isInk_lineBreak : ∀ c ∈ ['\n', '\x0b', '\x0c', '\r', '\x1c', '\x1d', '\x1e', '\x85', '\u2028',
    '\u2029'], isInk c = false :=
  forall_mem_of_all (by decide +kernel)

theorem isInk_calm : ∀ c ∈ ['/', '"', '\'', '@'], isInk c = false :=
  forall_mem_of_all (by decide)

theorem isLineBreak {s : List Char} (h : Ink s) : ∀ c ∈ s, isLineBreak c = false := by
  intro c hc
  by_contra hbreak
  rw [Bool.not_eq_false, Text.isLineBreak, decide_eq_true_eq] at hbreak
  exact h.not_mem (isInk_lineBreak c hbreak) hc

theorem plain {s : List Char} (h : Ink s) : ∀ c ∈ s, c ≠ '{' ∧ c ≠ '}' := by
  refine fun c hc => ⟨?_, ?_⟩ <;> rintro rfl <;> exact h.not_mem (by decide) hc

end Ink

/-! ## Fragments -/

namespace Source

/-- A comment cannot start before its mark. -/
theorem dropLineComment_append {a : List Char} (h : '"' ∉ a) (hc : '\'' ∉ a) (quoted : Bool)
    (s : List Char) : dropLineComment quoted (a ++ s) = a ++ dropLineComment quoted s := by
  induction a with
  | nil => rfl
  | cons c a ih =>
    obtain ⟨h1, h2⟩ := not_or.1 (mt List.mem_cons.2 h)
    obtain ⟨h3, h4⟩ := not_or.1 (mt List.mem_cons.2 hc)
    rw [List.cons_append, dropLineComment, if_neg (Ne.symm h1), if_neg fun hq => h3 hq.1.symm,
      ih h2 h4, List.cons_append]

/-- Inside quotes an apostrophe starts no comment. -/
theorem dropLineComment_quoted {a : List Char} (h : '"' ∉ a) (s : List Char) :
    dropLineComment true (a ++ s) = a ++ dropLineComment true s := by
  induction a with
  | nil => rfl
  | cons c a ih =>
    obtain ⟨h1, h2⟩ := not_or.1 (mt List.mem_cons.2 h)
    have hquote : ¬(c = '\'' ∧ true = false) := fun hq => nomatch hq.2
    rw [List.cons_append, dropLineComment, if_neg (Ne.symm h1), if_neg hquote, ih h2,
      List.cons_append]

theorem isMarker_eq_false {s : List Char} (h : s.head? ≠ some '@') : isMarker s = false := by
  have hnone : ∀ m : List Char, after? ('@' :: m) s = none := by
    intro m
    cases hm : after? ('@' :: m) s with
    | none => rfl
    | some r =>
      rw [after?_eq_some_iff.1 hm] at h
      exact absurd rfl h
  show ((after? ('@' :: "startuml".toList) s).any _ || ((after? ('@' :: "enduml".toList) s).any _ ||
    false)) = false
  rw [hnone, hnone]
  rfl

/-- A line that is a fragment as it stands. -/
structure IsLine (l : List Char) : Prop where
  trimmed : Trimmed l
  noSlash : '/' ∉ l
  noBreak : ∀ c ∈ l, isLineBreak c = false
  noComment : dropLineComment false l = l
  noMarker : l.head? ≠ some '@'
  split : splitBraces l = [l]

namespace IsLine

/-- A line of tokens other than structural braces. -/
theorem of_tokens {u : List Token} (hu : ∀ t ∈ u, t.Plain)
    (ht : Trimmed (u.flatMap Token.chars)) (hcalm : ∀ c ∈ u.flatMap Token.chars,
      isLineBreak c = false ∧ c ∉ ['/', '"', '\'', '@']) : IsLine (u.flatMap Token.chars) := by
  have hnot : ∀ c ∈ ['/', '"', '\'', '@'], c ∉ u.flatMap Token.chars := fun c hc h =>
    (hcalm c h).2 hc
  refine ⟨ht, hnot _ (by simp), fun c h => (hcalm c h).1, ?_, ?_, splitBraces_plain hu ht⟩
  · have h := dropLineComment_append (hnot '"' (by simp)) (hnot '\'' (by simp)) false []
    rwa [List.append_nil, dropLineComment, List.append_nil] at h
  · exact fun h => hnot '@' (by simp) (List.mem_of_head? h)

end IsLine

theorem flatMap_chars_map_other (s : List Char) : (s.map Token.other).flatMap Token.chars = s := by
  induction s with
  | nil => rfl
  | cons c s ih =>
    rw [List.map_cons, List.flatMap_cons, ih]
    rfl

theorem plain_map_other {s : List Char} (h : ∀ c ∈ s, c ≠ '{' ∧ c ≠ '}') :
    ∀ t ∈ s.map Token.other, t.Plain :=
  List.forall_mem_map.2 h

namespace IsLine

theorem head?_ne_of_ink {s : List Char} (h : Ink s) (t : List Char) (hs : s ≠ []) :
    (s ++ t).head? ≠ some '@' := by
  obtain ⟨c, s, rfl⟩ := List.exists_cons_of_ne_nil hs
  rintro hc
  obtain rfl : c = '@' := Option.some.inj hc
  exact h.not_mem (by decide) List.mem_cons_self

/-- A text of ink without blanks around it is a line that cleaning leaves as it is. -/
theorem of_ink {s : List Char} (h : Ink s) (ht : Trimmed s) : IsLine s := by
  have hline := of_tokens (u := s.map Token.other) (plain_map_other h.plain)
  rw [flatMap_chars_map_other] at hline
  refine hline ht fun c hc => ⟨h.isLineBreak c hc, fun hmem => ?_⟩
  exact h.not_mem (Ink.isInk_calm c hmem) hc

/-- A line of ink with an opening brace after it. -/
theorem of_ink_opening {s : List Char} (h : Ink s) (hne : s ≠ []) (ht : Trimmed (s ++ ['{'])) :
    IsLine (s ++ ['{']) where
  trimmed := ht
  noSlash := by simpa using h.not_mem (c := '/') (by decide)
  noBreak := List.forall_mem_append.2 ⟨h.isLineBreak, forall_mem_of_all (by decide)⟩
  noComment := dropLineComment_append (h.not_mem (by decide)) (h.not_mem (by decide)) false ['{']
  noMarker := head?_ne_of_ink h ['{'] hne
  split := by
    have hs := splitBraces_opening (plain_map_other h.plain) (by rwa [flatMap_chars_map_other])
    rwa [flatMap_chars_map_other] at hs

theorem closing : IsLine ['}'] where
  trimmed := .singleton (by decide)
  noSlash := by decide
  noBreak := forall_mem_of_all (by decide)
  noComment := rfl
  noMarker := by decide
  split := by decide +kernel

end IsLine

end Source

namespace Outline

open Source

/-- The indent is cleaned away. -/
theorem cleanLine_indent (i : Indent) {l : List Char} (h : IsLine l) :
    cleanLine (i.chars ++ l) = l := by
  have hquote : '"' ∉ i.chars := fun hc => absurd (i.blank _ hc).1 (by decide)
  have hcomment : '\'' ∉ i.chars := fun hc => absurd (i.blank _ hc).1 (by decide)
  have htrim : trim (dropLineComment false (i.chars ++ l)) = l := by
    rw [dropLineComment_append hquote hcomment, h.noComment]
    exact h.trimmed.trim_append fun c hc => (i.blank c hc).1
  simp only [cleanLine, htrim, isMarker_eq_false h.noMarker]
  rfl

/-- Lines as fragments, the first of them at line `n`. -/
def numbered (n : Nat) (ls : List (List Char)) : List Fragment :=
  (ls.zipIdx n).map fun ln => { line := ln.2, text := ln.1 }

/-- Lines are numbered on. -/
theorem numbered_append (n : Nat) (ls ls' : List (List Char)) :
    numbered n (ls ++ ls') = numbered n ls ++ numbered (n + ls.length) ls' := by
  rw [numbered, List.zipIdx_append, List.map_append]
  rfl

section Layout

variable {indent : Nat → Indent} {ls : List (List Char)} (hls : ∀ l ∈ ls, IsLine l)

include hls

theorem not_mem_layout (n : Nat) : '/' ∉ layout indent n ls := by
  induction ls generalizing n with
  | nil => exact List.not_mem_nil
  | cons l ls ih =>
    obtain ⟨hl, hrest⟩ := List.forall_mem_cons.1 hls
    have hindent : '/' ∉ (indent n).chars := fun hc =>
      absurd ((indent n).blank _ hc).1 (by decide)
    simp only [layout, List.mem_append, List.mem_cons, not_or]
    exact ⟨⟨hindent, hl.noSlash⟩, by decide, ih hrest (n + 1)⟩

/-- Cleaning the layout gives the lines back, whatever their indents and breaks are. -/
theorem map_cleanLine_layout (n : Nat) :
    (splitLines (layout indent n ls)).map cleanLine = ls := by
  induction ls generalizing n with
  | nil => rfl
  | cons l ls ih =>
    obtain ⟨hl, hrest⟩ := List.forall_mem_cons.1 hls
    have hbreak : ∀ c ∈ (indent n).chars ++ l, isLineBreak c = false :=
      List.forall_mem_append.2 ⟨fun c hc => ((indent n).blank c hc).2, hl.noBreak⟩
    rw [layout, splitLines_append hbreak, List.map_cons, cleanLine_indent _ hl, ih hrest]

/-- The fragments of laid out lines are the lines. -/
theorem fragments_layout : fragments (layout indent 1 ls) = numbered 1 ls := by
  have hclean : cleanLines (layout indent 1 ls) = ls := by
    rw [cleanLines, dropBlockComments_eq_self (not_mem_layout hls 1),
      map_cleanLine_layout hls]
  have hsplit : ∀ ln ∈ ls.zipIdx 1,
      ((splitBraces ln.1).map fun piece => ({ line := ln.2, text := piece } : Fragment)) =
        [{ line := ln.2, text := ln.1 }] := by
    intro ln hln
    rw [(hls ln.1 (List.fst_mem_of_mem_zipIdx hln)).split]
    rfl
  rw [fragments, hclean]
  exact (List.flatMap_congr hsplit).trans List.map_eq_flatMap.symm

end Layout

end Outline

end ClassSketch
