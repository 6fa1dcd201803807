import ClassSketch.Proofs.LineBreak
import ClassSketch.Proofs.Scan
import ClassSketch.Source.Reader

/-!
# Comments and markers around a text

A text is a row of spans, each a character outside block comments or a whole block
comment (`spans`). Dropping the comments keeps the characters and the line feeds in
the comments (`dropBlockComments_eq`), although the scanner also remembers which
comments are known to have no end (`Unclosed`). A text without a slash neither
opens nor closes a comment, so that its characters are spans of their own, before
another text and after it (`spans_append_left`, `spans_append_right`).

Hence the markers around a diagram are optional : the line before the text moves
every fragment down by one line and the line after it has no fragments
(`fragments_marked`).
-/

namespace ClassSketch

namespace Source

open Text

/-! ## Spans -/

/-- A character outside block comments, or what stands between the slashes of a block
comment. -/
inductive Span where
  | char (c : Char)
  | comment (inside : List Char)
deriving DecidableEq

namespace Span

/-- The span as it stands in the text. -/
def source : Span → List Char
  | char c => [c]
  | comment inside => '/' :: inside ++ ['/']

/-- What is left of the span without comments. -/
def kept : Span → List Char
  | char c => [c]
  | comment inside => List.replicate (inside.count '\n') '\n'

end Span

/-- The block comment at the front of a text, and what follows it. -/
def comment? (s : List Char) : Option (Span × List Char) :=
  (opening? s).bind fun (mark, inner) =>
    (cutPair mark '/' inner).map fun (body, rest) => (.comment (mark :: body ++ [mark]), rest)

/-- A comment is an opening, and the text up to the first closing of the same mark. -/
theorem exists_of_comment? {s rest : List Char} {span : Span} (h : comment? s = some (span, rest)) :
    ∃ mark inner body, opening? s = some (mark, inner) ∧
      cutPair mark '/' inner = some (body, rest) ∧ span = .comment (mark :: body ++ [mark]) := by
  obtain ⟨⟨mark, inner⟩, hopening, hcut⟩ := Option.bind_eq_some_iff.1 h
  obtain ⟨⟨body, rest⟩, hpair, heq⟩ := Option.map_eq_some_iff.1 hcut
  cases heq
  exact ⟨mark, inner, body, hopening, hpair, rfl⟩

/-- There is no comment if there is no opening or if it is never closed. -/
theorem comment?_eq_none_iff {s : List Char} :
    comment? s = none ↔ ∀ mark inner, opening? s = some (mark, inner) →
      cutPair mark '/' inner = none := by
  simp [comment?]

/-- A comment opens with a slash and one of the two marks. -/
theorem mark_of_opening? {s inner : List Char} {mark : Char} (h : opening? s = some (mark, inner)) :
    s = '/' :: mark :: inner ∧ (mark = '*' ∨ mark = '\'') := by
  unfold opening? at h
  split at h
  · cases h
    exact ⟨rfl, .inl rfl⟩
  · cases h
    exact ⟨rfl, .inr rfl⟩
  · cases h

theorem opening?_of_ne {c : Char} (hc : c ≠ '/') (s : List Char) : opening? (c :: s) = none := by
  cases h : opening? (c :: s) with
  | none => rfl
  | some o => exact absurd (List.cons.inj (mark_of_opening? h).1).1 hc

/-- The source of a comment and what follows it make up the text. -/
theorem eq_of_comment? {s rest : List Char} {span : Span} (h : comment? s = some (span, rest)) :
    s = span.source ++ rest := by
  obtain ⟨mark, inner, body, hopening, hpair, rfl⟩ := exists_of_comment? h
  rw [(mark_of_opening? hopening).1, eq_of_cutPair hpair]
  simp [Span.source]

theorem length_lt_of_comment? {s rest : List Char} {span : Span}
    (h : comment? s = some (span, rest)) : rest.length < s.length := by
  obtain ⟨mark, inner, body, -, -, rfl⟩ := exists_of_comment? h
  rw [eq_of_comment? h]
  simp [Span.source]
  omega

def spans : List Char → List Span
  | [] => []
  | c :: cs =>
    match _h : comment? (c :: cs) with
    | some (span, rest) => span :: spans rest
    | none => .char c :: spans cs
termination_by s => s.length
decreasing_by
  · exact length_lt_of_comment? _h
  · simp

/-- A comment at the front is the first span. -/
theorem spans_of_comment? {c : Char} {cs rest : List Char} {span : Span}
    (h : comment? (c :: cs) = some (span, rest)) : spans (c :: cs) = span :: spans rest := by
  rw [spans]
  split
  · next heq =>
    rw [h] at heq
    cases heq
    rfl
  · next heq =>
    rw [h] at heq
    cases heq

/-- Otherwise the first character is a span of its own. -/
theorem spans_of_none {c : Char} {cs : List Char} (h : comment? (c :: cs) = none) :
    spans (c :: cs) = .char c :: spans cs := by
  rw [spans]
  split
  · next heq =>
    rw [h] at heq
    cases heq
  · rfl

/-- The spans together are the text. -/
theorem flatMap_source_spans (s : List Char) : (spans s).flatMap Span.source = s := by
  fun_induction spans s with
  | case1 => rfl
  | case2 c cs span rest h ih => rw [List.flatMap_cons, ih, eq_of_comment? h]
  | case3 c cs h ih =>
    rw [List.flatMap_cons, ih]
    rfl

/-! ## Comments without an end -/

theorem cutPair_tail {a b x : Char} {s : List Char} (h : cutPair a b (x :: s) = none) :
    cutPair a b s = none := by
  cases s with
  | nil => rfl
  | cons y s =>
    rw [cutPair] at h
    split at h
    · cases h
    · exact Option.map_eq_none_iff.1 h

/-- There is nothing to cut at if the pair stands nowhere. -/
theorem cutPair_eq_none_iff {a b : Char} {s : List Char} :
    cutPair a b s = none ↔ ∀ p q, s ≠ p ++ a :: b :: q := by
  constructor
  · rintro h p q rfl
    induction p with
    | nil => simp [cutPair] at h
    | cons x p ih => exact ih (cutPair_tail h)
  · intro h
    cases hcut : cutPair a b s with
    | none => rfl
    | some found => exact absurd (eq_of_cutPair hcut) (h found.1 found.2)

/-- Comments with these marks have no end wherever they open in the text. -/
def Unclosed (marks s : List Char) : Prop :=
  ∀ mark ∈ marks, ∀ p inner, s = p ++ '/' :: mark :: inner → cutPair mark '/' inner = none

/-- A mark that is closed nowhere in a text is closed nowhere in its end. -/
theorem Unclosed.suffix {marks s t : List Char} (h : Unclosed marks (s ++ t)) : Unclosed marks t :=
  fun mark hmark p inner ht => h mark hmark (s ++ p) inner (by rw [ht, List.append_assoc])

/-- A comment without an end at the front has no later one with its mark either. -/
theorem unclosed_of_opening? {c mark : Char} {cs inner : List Char}
    (h : opening? (c :: cs) = some (mark, inner)) (hinner : cutPair mark '/' inner = none) :
    Unclosed [mark] cs := by
  obtain ⟨heq, hmark⟩ := mark_of_opening? h
  obtain ⟨rfl, rfl⟩ := List.cons.inj heq
  intro m hm p later hlater
  obtain rfl := List.mem_singleton.1 hm
  cases p with
  | nil =>
    obtain ⟨rfl, -⟩ := List.cons.inj hlater
    rcases hmark with hslash | hslash <;> cases hslash
  | cons x p =>
    obtain ⟨-, rfl⟩ := List.cons.inj hlater
    rw [cutPair_eq_none_iff] at hinner ⊢
    rintro u v rfl
    exact hinner (p ++ '/' :: m :: u) v (by simp)

/-- An opening that was not closed may be remembered as such from the next character on. -/
theorem Unclosed.cons {marks cs : List Char} {c : Char} (h : Unclosed marks (c :: cs))
    (hcomment : comment? (c :: cs) = none) :
    Unclosed (((opening? (c :: cs)).map (·.1)).toList ++ marks) cs := by
  intro mark hmem
  rcases List.mem_append.1 hmem with hmem | hmem
  · obtain ⟨⟨m, inner⟩, hopening, rfl⟩ := Option.map_eq_some_iff.1 (Option.mem_toList.1 hmem)
    have hinner := comment?_eq_none_iff.1 hcomment m inner hopening
    exact unclosed_of_opening? hopening hinner m List.mem_cons_self
  · exact Unclosed.suffix (s := [c]) h mark hmem

/-- The scanner does not miss a comment because of the marks that it remembers. -/
theorem blockComment?_of_comment? {marks s rest : List Char} {span : Span} (h : Unclosed marks s)
    (hcomment : comment? s = some (span, rest)) :
    ∃ body, blockComment? marks s = some (body, rest) ∧
      span.kept = List.replicate (body.count '\n') '\n' := by
  obtain ⟨mark, inner, body, hopening, hpair, rfl⟩ := exists_of_comment? hcomment
  obtain ⟨hs, hmark⟩ := mark_of_opening? hopening
  have hclosed : mark ∉ marks := fun hmem => by
    have hnone := h mark hmem [] inner hs
    rw [hpair] at hnone
    cases hnone
  refine ⟨body, ?_, ?_⟩
  · simp only [blockComment?, hopening, if_neg hclosed, hpair]
  · rcases hmark with rfl | rfl <;> simp [Span.kept]

/-- Marks that are known to be unclosed hide no comment. -/
theorem blockComment?_of_none {s : List Char} (marks : List Char) (hcomment : comment? s = none) :
    blockComment? marks s = none := by
  unfold blockComment?
  split
  · rfl
  · next mark inner hopening =>
    rw [comment?_eq_none_iff.1 hcomment mark inner hopening, ite_self]

/-- Dropping comments in one pass keeps what the spans keep. The marks in the pass are those that
are known to be unclosed, and by the invariant no comment of these marks begins any more. -/
theorem dropBlocks_eq {marks s : List Char} (h : Unclosed marks s) :
    dropBlocks marks s = (spans s).flatMap Span.kept := by
  fun_induction spans s generalizing marks with
  | case1 =>
    rw [dropBlocks]
    rfl
  | case2 c cs span rest hcomment ih =>
    obtain ⟨body, hblock, hkept⟩ := blockComment?_of_comment? h hcomment
    rw [eq_of_comment? hcomment] at h
    rw [dropBlocks]
    split
    · next hsome =>
      rw [hblock] at hsome
      cases hsome
      rw [ih h.suffix, List.flatMap_cons, hkept]
    · next hnone =>
      rw [hblock] at hnone
      cases hnone
  | case3 c cs hcomment ih =>
    rw [dropBlocks]
    split
    · next hsome =>
      rw [blockComment?_of_none marks hcomment] at hsome
      cases hsome
    · rw [ih (h.cons hcomment)]
      rfl

/-- Dropping block comments keeps the characters outside them and the line feeds in them. -/
theorem dropBlockComments_eq (s : List Char) :
    dropBlockComments s = (spans s).flatMap Span.kept :=
  dropBlocks_eq fun _ hmark => absurd hmark List.not_mem_nil

/-! ## Texts without a slash -/

/-- What is appended comes out at the end, if it cannot close the pair. -/
theorem cutPair_append {a b : Char} (s : List Char) {t : List Char} (ht : b ∉ t) :
    cutPair a b (s ++ t) = (cutPair a b s).map fun cut => (cut.1, cut.2 ++ t) := by
  fun_induction cutPair a b s with
  | case1 =>
    rw [Option.map_none, cutPair_eq_none_iff]
    rintro p q rfl
    exact ht (by simp)
  | case2 x =>
    rw [Option.map_none, cutPair_eq_none_iff]
    intro p q heq
    cases p with
    | nil =>
      obtain ⟨-, rfl⟩ := List.cons.inj heq
      exact ht (by simp)
    | cons y p =>
      obtain ⟨-, rfl⟩ := List.cons.inj heq
      exact ht (by simp)
  | case3 x y s h => simp [cutPair, h]
  | case4 x y s h ih =>
    rw [List.cons_append, List.cons_append, cutPair, if_neg h, ← List.cons_append, ih]
    simp [Function.comp_def]

/-- The end of a text that neither closes a comment nor completes its opening. -/
structure Calm (t : List Char) : Prop where
  noSlash : '/' ∉ t
  noMark : t.head? ≠ some '*' ∧ t.head? ≠ some '\''

theorem opening?_cons_cons (c d : Char) (s : List Char) :
    opening? (c :: d :: s) = if c = '/' ∧ (d = '*' ∨ d = '\'') then some (d, s) else none := by
  unfold opening?
  split
  · next heq =>
    cases heq
    rfl
  · next heq =>
    cases heq
    rfl
  · next hstar hquote =>
    rw [if_neg]
    rintro ⟨rfl, rfl | rfl⟩
    · exact hstar s rfl
    · exact hquote s rfl

/-- A calm text does not turn the end of another one into an opening. -/
theorem opening?_append {c : Char} {cs t : List Char} (ht : Calm t) :
    opening? (c :: cs ++ t) = (opening? (c :: cs)).map fun o => (o.1, o.2 ++ t) := by
  cases cs with
  | nil =>
    have hsingle : opening? [c] = none := by simp [opening?]
    rw [hsingle, Option.map_none]
    cases h : opening? ([c] ++ t) with
    | none => rfl
    | some o =>
      obtain ⟨heq, hmark⟩ := mark_of_opening? h
      obtain ⟨-, rfl⟩ := List.cons.inj heq
      rcases hmark with hmark | hmark
      · exact absurd (congrArg some hmark) ht.noMark.1
      · exact absurd (congrArg some hmark) ht.noMark.2
  | cons d cs =>
    rw [List.cons_append, List.cons_append, opening?_cons_cons, opening?_cons_cons]
    split <;> rfl

/-- A calm text behind a comment stays outside of it. -/
theorem comment?_append {c : Char} {cs t : List Char} (ht : Calm t) :
    comment? (c :: cs ++ t) = (comment? (c :: cs)).map fun found => (found.1, found.2 ++ t) := by
  rw [comment?, opening?_append ht, comment?]
  cases opening? (c :: cs) with
  | none => rfl
  | some o =>
    simp only [Option.map_some, Option.bind_some, cutPair_append o.2 ht.noSlash, Option.map_map]
    rfl

/-- A text without slashes opens no comment. -/
theorem spans_append_left {s : List Char} (hs : '/' ∉ s) (t : List Char) :
    spans (s ++ t) = s.map .char ++ spans t := by
  induction s with
  | nil => rfl
  | cons c s ih =>
    obtain ⟨hc, hs⟩ := not_or.1 (mt List.mem_cons.2 hs)
    have hnone : comment? (c :: (s ++ t)) = none := by
      rw [comment?, opening?_of_ne (Ne.symm hc), Option.bind_none]
    rw [List.cons_append, spans_of_none hnone, ih hs, List.map_cons, List.cons_append]

/-- A calm text closes no comment and opens none. -/
theorem spans_append_right (s : List Char) {t : List Char} (ht : Calm t) :
    spans (s ++ t) = spans s ++ t.map .char := by
  fun_induction spans s with
  | case1 =>
    have hspans := spans_append_left ht.noSlash []
    rwa [List.append_nil, spans, List.append_nil] at hspans
  | case2 c cs span rest h ih =>
    have hcomment : comment? (c :: (cs ++ t)) = some (span, rest ++ t) := by
      rw [← List.cons_append, comment?_append ht, h, Option.map_some]
    rw [List.cons_append, spans_of_comment? hcomment, ih, List.cons_append]
  | case3 c cs h ih =>
    have hcomment : comment? (c :: (cs ++ t)) = none := by
      rw [← List.cons_append, comment?_append ht, h, Option.map_none]
    rw [List.cons_append, spans_of_none hcomment, ih, List.cons_append]

theorem flatMap_kept_map_char (s : List Char) : (s.map Span.char).flatMap Span.kept = s := by
  rw [List.flatMap_map]
  exact List.flatMap_singleton' s

/-- A text without block comments stays as it is. -/
theorem dropBlockComments_eq_self {s : List Char} (h : '/' ∉ s) : dropBlockComments s = s := by
  have hspans := spans_append_left h []
  rw [List.append_nil, spans, List.append_nil] at hspans
  rw [dropBlockComments_eq, hspans, flatMap_kept_map_char]

/-! ## Fragments by line -/

/-- The fragments of lines without comments, the first of them with number `n`. -/
def lineFragments (n : Nat) (ls : List (List Char)) : List Fragment :=
  (ls.zipIdx n).flatMap fun (l, i) => (splitBraces l).map fun piece => { line := i, text := piece }

theorem lineFragments_cons (n : Nat) (l : List Char) (ls : List (List Char)) :
    lineFragments n (l :: ls) =
      ((splitBraces l).map fun piece => { line := n, text := piece }) ++ lineFragments (n + 1) ls := by
  rw [lineFragments, List.zipIdx_cons, List.flatMap_cons]
  rfl

/-- The fragments of two lists of lines, the second numbered on from the first. -/
theorem lineFragments_append (n : Nat) (ls ms : List (List Char)) :
    lineFragments n (ls ++ ms) = lineFragments n ls ++ lineFragments (n + ls.length) ms := by
  rw [lineFragments, List.zipIdx_append, List.flatMap_append]
  rfl

theorem splitBraces_nil : splitBraces [] = [] := by
  rw [splitBraces, tokens]
  rfl

/-- Empty lines have no fragments. -/
theorem lineFragments_of_empty (n : Nat) {ls : List (List Char)} (h : ∀ l ∈ ls, l = []) :
    lineFragments n ls = [] := by
  induction ls generalizing n with
  | nil => rfl
  | cons l ls ih =>
    obtain ⟨rfl, hls⟩ := List.forall_mem_cons.1 h
    rw [lineFragments_cons, splitBraces_nil, ih _ hls]
    rfl

/-- The fragment one line further down. -/
def Fragment.down (f : Fragment) : Fragment :=
  { f with line := f.line + 1 }

def Skipped.down (s : Skipped) : Skipped :=
  { s with fragment := s.fragment.down }

/-- A line more at the top moves all fragments down by one. -/
theorem lineFragments_succ (n : Nat) (ls : List (List Char)) :
    lineFragments (n + 1) ls = (lineFragments n ls).map Fragment.down := by
  induction ls generalizing n with
  | nil => rfl
  | cons l ls ih =>
    rw [lineFragments_cons, lineFragments_cons, ih, List.map_append, List.map_map]
    rfl

/-- The reader looks at the texts of fragments only. -/
theorem Reader.run_down (r : Reader) (fs : List Fragment) :
    r.run (fs.map Fragment.down) = ((r.run fs).1, (r.run fs).2.map Skipped.down) := by
  induction fs generalizing r with
  | nil => rfl
  | cons f fs ih =>
    have htext : f.down.text = f.text := rfl
    simp only [List.map_cons, run, htext, ih, List.map_append]
    cases (r.step f.text).2 <;> rfl

/-! ## Markers -/

/-- The line before a diagram. -/
def startMarker : List Char :=
  "@startuml".toList

/-- The line after a diagram. -/
def endMarker : List Char :=
  "@enduml".toList

/-- The lines with the start and the end marker take no part in comments. -/
theorem dropBlockComments_marked (s : List Char) :
    dropBlockComments (startMarker ++ '\n' :: s ++ '\n' :: endMarker) =
      startMarker ++ '\n' :: dropBlockComments s ++ '\n' :: endMarker := by
  have hend : Calm ('\n' :: endMarker) := ⟨by decide, by decide, by decide⟩
  have hstart : '/' ∉ startMarker ++ ['\n'] := by decide
  have hmarked := spans_append_left hstart (s ++ '\n' :: endMarker)
  rw [spans_append_right s hend] at hmarked
  rw [dropBlockComments_eq, dropBlockComments_eq]
  simp only [List.append_assoc, List.cons_append, List.nil_append] at hmarked ⊢
  rw [hmarked, List.flatMap_append, List.flatMap_append, flatMap_kept_map_char, flatMap_kept_map_char]
  simp

/-- Markers move the fragments of a text down by a line. -/
theorem fragments_marked (s : List Char) :
    fragments (startMarker ++ '\n' :: s ++ '\n' :: endMarker) =
      (fragments s).map Fragment.down := by
  have hstart : ∀ c ∈ startMarker, isLineBreak c = false := forall_mem_of_all (by decide)
  have hend : ∀ c ∈ endMarker, isLineBreak c = false := forall_mem_of_all (by decide)
  obtain ⟨n, hlines⟩ := exists_splitLines_append_line (dropBlockComments s) hend (by decide)
  have hclean : cleanLines (startMarker ++ '\n' :: s ++ '\n' :: endMarker) =
      [] :: cleanLines s ++ List.replicate (n + 1) [] := by
    rw [cleanLines, dropBlockComments_marked, List.append_assoc, List.cons_append,
      splitLines_append hstart, hlines, cleanLines]
    have hempty : cleanLine startMarker = [] ∧ cleanLine endMarker = [] ∧ cleanLine [] = [] := by
      decide
    simp [hempty, List.replicate_succ']
  show lineFragments 1 (cleanLines _) = (lineFragments 1 (cleanLines s)).map Fragment.down
  rw [hclean, List.cons_append, lineFragments_cons, splitBraces_nil, lineFragments_append,
    lineFragments_of_empty _ fun l hl => List.eq_of_mem_replicate hl, ← lineFragments_succ]
  simp

end Source

open Source

/-- A text reads the same between markers, all that is skipped one line further down. -/
theorem ofText_marked (text : String) :
    Reading.ofText ("@startuml\n" ++ text ++ "\n@enduml") =
      { diagram := (Reading.ofText text).diagram
        skipped := (Reading.ofText text).skipped.map Skipped.down } := by
  have hchars : ("@startuml\n" ++ text ++ "\n@enduml").toList =
      startMarker ++ '\n' :: text.toList ++ '\n' :: endMarker := by
    rw [String.toList_append, String.toList_append]
    rfl
  rw [Reading.ofText, hchars, fragments_marked, Reader.run_down]
  rfl

end ClassSketch
