import Mathlib.Data.List.Induction
import ClassSketch.Proofs.Comments

/-!
# Line numbers without comments

A block comment leaves its line feeds behind, so that what follows it keeps its line
number. A comment may hold other breaks than line feeds, and its removal may bring
a carriage return and a line feed together that were two breaks. Either way a break
is lost (`Loses`), and breaks are never won (`breaks_kept_le`). So every character
outside comments keeps its number exactly if no break is lost before the last of
them (`keepsNumbers_iff`). Then each line without comments is what the line of the
same number in the text has outside comments (`getD_splitLines_kept`), and a
fragment has the number of the line that it was taken from.
-/

namespace ClassSketch

open Text

namespace Source

/-! ## Lost breaks -/

/-- The text of spans. -/
def source (ps : List Span) : List Char :=
  ps.flatMap Span.source

/-- The text of spans without comments. -/
def kept (ps : List Span) : List Char :=
  ps.flatMap Span.kept

theorem source_snoc (ps : List Span) (p : Span) : source (ps ++ [p]) = source ps ++ p.source := by
  rw [source, List.flatMap_append, List.flatMap_singleton, source]

theorem kept_snoc (ps : List Span) (p : Span) : kept (ps ++ [p]) = kept ps ++ p.kept := by
  rw [kept, List.flatMap_append, List.flatMap_singleton, kept]

/-- A break is lost at a span : not all its breaks are kept, or a line feed comes to stand
after a carriage return from which it was kept apart. -/
def Loses (seen : List Span) (p : Span) : Prop :=
  breaks p.kept < breaks p.source ∨
    Meets (kept seen) p.kept ∧ ¬Meets (source seen) p.source

/-- No break is lost at any of the spans. -/
def Lossless (ps : List Span) : Prop :=
  ∀ seen p rest, ps = seen ++ p :: rest → ¬Loses seen p

/-- Spans are without loss exactly if each is, in front of those behind it. -/
theorem lossless_snoc {ps : List Span} {p : Span} :
    Lossless (ps ++ [p]) ↔ Lossless ps ∧ ¬Loses ps p := by
  constructor
  · intro h
    refine ⟨fun seen q rest hps => h seen q (rest ++ [p]) ?_, h ps p [] rfl⟩
    rw [hps, List.append_assoc, List.cons_append]
  · rintro ⟨hps, hp⟩ seen q rest heq
    rcases List.eq_nil_or_concat rest with rfl | ⟨rest, last, rfl⟩
    · obtain ⟨rfl, hq⟩ := List.append_inj' heq rfl
      rwa [← List.singleton_inj.1 hq]
    · have hsplit : ps ++ [p] = (seen ++ q :: rest) ++ [last] := by simpa using heq
      exact hps seen q rest (List.append_inj' hsplit rfl).1

/-- What is kept of a span breaks no more lines than the span does. -/
theorem Span.breaks_kept_le (p : Span) : breaks p.kept ≤ breaks p.source := by
  cases p with
  | char c => exact Nat.le_refl _
  | comment inside =>
    have hfront : ¬Meets ['/'] (inside ++ ['/']) := fun h => absurd h.1 (by decide)
    have hback : ¬Meets inside ['/'] := fun h => absurd h.2 (by decide)
    have hsource : breaks (['/'] ++ (inside ++ ['/'])) = 0 + (breaks inside + 0) := by
      rw [breaks_append_of_not_meets hfront, breaks_append_of_not_meets hback]
      rfl
    show breaks (List.replicate _ '\n') ≤ breaks (['/'] ++ (inside ++ ['/']))
    rw [breaks_replicate, hsource]
    have hcount := count_le_breaks inside
    omega

/-- A carriage return and a line feed that stand together are not kept apart. -/
theorem meets_kept {ps : List Span} {p : Span} (h : Meets (source ps) p.source) :
    Meets (kept ps) p.kept := by
  obtain ⟨hreturn, hfeed⟩ := h
  have hp : p.kept = p.source := by
    cases p with
    | char c => rfl
    | comment inside => exact absurd hfeed (by simp [Span.source])
  refine ⟨?_, hp ▸ hfeed⟩
  rcases List.eq_nil_or_concat ps with rfl | ⟨qs, q, rfl⟩
  · cases hreturn
  · rw [List.concat_eq_append] at hreturn ⊢
    rw [source_snoc] at hreturn
    rw [kept_snoc]
    cases q with
    | char c =>
      rw [Span.source, List.getLast?_concat] at hreturn
      rw [Span.kept, List.getLast?_concat, hreturn]
    | comment inside =>
      rw [Span.source, ← List.append_assoc, List.getLast?_concat] at hreturn
      exact absurd hreturn (by decide)

/-- A span adds as many breaks without comments as with them, or loses some. -/
theorem breaks_snoc (ps : List Span) (p : Span) :
    ∃ lost, breaks (source (ps ++ [p])) + breaks (kept ps) =
      breaks (kept (ps ++ [p])) + breaks (source ps) + lost ∧ (lost = 0 ↔ ¬Loses ps p) := by
  have hsource := breaks_append (source ps) p.source
  have hkept := breaks_append (kept ps) p.kept
  have hle := p.breaks_kept_le
  rw [← source_snoc] at hsource
  rw [← kept_snoc] at hkept
  by_cases hs : Meets (source ps) p.source
  · rw [if_pos hs] at hsource
    rw [if_pos (meets_kept hs)] at hkept
    refine ⟨breaks p.source - breaks p.kept, by omega, ?_⟩
    simp only [Loses, hs, not_true_eq_false, and_false, or_false]
    omega
  · rw [if_neg hs] at hsource
    by_cases hk : Meets (kept ps) p.kept
    · rw [if_pos hk] at hkept
      exact ⟨breaks p.source - breaks p.kept + 1, by omega, by simp [Loses, hs, hk]⟩
    · rw [if_neg hk] at hkept
      refine ⟨breaks p.source - breaks p.kept, by omega, ?_⟩
      simp only [Loses, hk, false_and, or_false]
      omega

/-- Without comments there are as many breaks, or some were lost. -/
theorem breaks_kept_le (ps : List Span) :
    breaks (kept ps) ≤ breaks (source ps) ∧
      (breaks (kept ps) = breaks (source ps) ↔ Lossless ps) := by
  induction ps using List.reverseRecOn with
  | nil => exact ⟨Nat.le_refl _, fun _ seen p rest h => absurd h (by simp), fun _ => rfl⟩
  | append_singleton ps p ih =>
    obtain ⟨lost, hlost, hiff⟩ := breaks_snoc ps p
    rw [lossless_snoc, ← hiff, ← ih.2]
    omega

/-! ## Line numbers -/

/-- Every character outside block comments stands on a line of the same number with the
comments and without them. -/
def KeepsNumbers (s : List Char) : Prop :=
  ∀ before c after, spans s = before ++ .char c :: after →
    lineNumber (kept before) c = lineNumber (source before) c

/-- No break is lost up to the last character outside block comments. -/
def KeepsBreaks (s : List Char) : Prop :=
  ∀ seen p rest, spans s = seen ++ p :: rest → (∃ c, .char c ∈ p :: rest) → ¬Loses seen p

/-- A character keeps the number of its line exactly if no comment before it loses a break. -/
theorem lineNumber_kept_iff (before : List Span) (c : Char) :
    lineNumber (kept before) c = lineNumber (source before) c ↔ Lossless (before ++ [.char c]) := by
  have hkept : kept (before ++ [.char c]) = kept before ++ [c] := kept_snoc before _
  have hsource : source (before ++ [.char c]) = source before ++ [c] := source_snoc before _
  rw [lineNumber_eq, lineNumber_eq, Nat.add_right_cancel_iff, ← hkept, ← hsource]
  exact (breaks_kept_le _).2

/-- All line numbers are kept exactly if all breaks are. -/
theorem keepsNumbers_iff (s : List Char) : KeepsNumbers s ↔ KeepsBreaks s := by
  constructor
  · rintro h seen p rest hs ⟨c, hc⟩
    obtain ⟨u, v, hrest⟩ := List.append_of_mem hc
    have hnumber := h (seen ++ u) c v (by rw [hs, hrest, List.append_assoc])
    rw [lineNumber_kept_iff, List.append_assoc] at hnumber
    cases u with
    | nil =>
      obtain ⟨rfl, -⟩ := List.cons.inj hrest
      exact hnumber seen _ [] rfl
    | cons q u =>
      obtain ⟨rfl, -⟩ := List.cons.inj hrest
      exact hnumber seen _ _ rfl
  · intro h before c after hs
    rw [lineNumber_kept_iff]
    intro seen p rest heq
    refine h seen p (rest ++ after) ?_ ⟨c, ?_⟩
    · rw [hs, ← List.cons_append, ← List.append_assoc, ← heq, List.append_assoc]
      rfl
    · have hlast := congrArg List.getLast? heq
      rw [List.getLast?_concat, List.getLast?_append_of_ne_nil _ (List.cons_ne_nil p rest)] at hlast
      exact List.mem_append_left after (List.mem_of_getLast? hlast.symm)

/-! ## Lines outside comments -/

/-- The characters of spans on line `n`, comments and line breaks left out; `seen` is the
text before the spans. -/
def charsOn (n : Nat) (seen : List Char) : List Span → List Char
  | [] => []
  | .char c :: ps =>
    (if isLineBreak c = false ∧ lineNumber seen c = n then [c] else []) ++
      charsOn n (seen ++ [c]) ps
  | .comment inside :: ps => charsOn n (seen ++ (Span.comment inside).source) ps

/-- What line `n` of a text has outside block comments. -/
def lineOutside (s : List Char) (n : Nat) : List Char :=
  charsOn n [] (spans s)

/-- The characters of a line in two lists of spans, the second read on from the first. -/
theorem charsOn_append (n : Nat) (seen : List Char) (ps qs : List Span) :
    charsOn n seen (ps ++ qs) = charsOn n seen ps ++ charsOn n (seen ++ source ps) qs := by
  induction ps generalizing seen with
  | nil => simp [charsOn, source]
  | cons p ps ih =>
    cases p with
    | char c => simp [charsOn, ih, source, Span.source]
    | comment inside => simp [charsOn, ih, source]

/-- Line feeds at the end change no line. -/
theorem getD_splitLines_feeds (s : List Char) (k i : Nat) :
    (splitLines (s ++ List.replicate k '\n')).getD i [] = (splitLines s).getD i [] := by
  induction k with
  | zero => rw [List.replicate_zero, List.append_nil]
  | succ k ih =>
    have hbreak : ¬(isLineBreak '\n' = false ∧
        lineNumber (s ++ List.replicate k '\n') '\n' = i + 1) := fun h => absurd h.1 (by decide)
    rw [List.replicate_succ', ← List.append_assoc, getD_splitLines_snoc, if_neg hbreak, ih,
      List.append_nil]

/-- If the numbers are kept, a line without comments is what the line of the same number
has outside comments. -/
theorem getD_splitLines_kept {ps : List Span} (h : ∀ before c after, ps = before ++ .char c :: after →
      lineNumber (kept before) c = lineNumber (source before) c) (i : Nat) :
    (splitLines (kept ps)).getD i [] = charsOn (i + 1) [] ps := by
  induction ps using List.reverseRecOn with
  | nil => rfl
  | append_singleton ps p ih =>
    have hps := ih fun before c after hsplit => h before c (after ++ [p]) (by
      rw [hsplit, List.append_assoc, List.cons_append])
    rw [kept_snoc, charsOn_append, ← hps, List.nil_append]
    cases p with
    | char c =>
      rw [Span.kept, getD_splitLines_snoc, h ps c [] rfl, charsOn, charsOn, List.append_nil]
    | comment inside =>
      rw [Span.kept, getD_splitLines_feeds, charsOn, charsOn, List.append_nil]

/-- If the numbers are kept, a fragment has the number of the line it was taken from. -/
theorem mem_lineOutside {s : List Char} (h : KeepsNumbers s) {f : Fragment} (hf : f ∈ fragments s) :
    f.text ∈ splitBraces (cleanLine (lineOutside s f.line)) := by
  obtain ⟨⟨l, n⟩, hl, hmem⟩ := List.mem_flatMap.1 hf
  obtain ⟨piece, hpiece, rfl⟩ := List.mem_map.1 hmem
  obtain ⟨hn, hget⟩ := List.mem_zipIdx_iff_le_and_getElem?_sub.1 hl
  rw [cleanLines, List.getElem?_map] at hget
  obtain ⟨raw, hraw, rfl⟩ := Option.map_eq_some_iff.1 hget
  have hline := getD_splitLines_kept h (n - 1)
  rw [← show dropBlockComments s = kept (spans s) from dropBlockComments_eq s,
    List.getD_eq_getElem?_getD, hraw, Option.getD_some, Nat.sub_add_cancel hn] at hline
  rwa [hline] at hpiece

/-- Only fragments of the run are skipped. -/
theorem mem_of_mem_skipped {r : Reader} {fs : List Fragment} {k : Skipped}
    (h : k ∈ (r.run fs).2) : k.fragment ∈ fs := by
  induction fs generalizing r with
  | nil => cases h
  | cons f fs ih =>
    rcases List.mem_append.1 h with h | h
    · obtain ⟨reason, -, rfl⟩ := Option.map_eq_some_iff.1 (Option.mem_toList.1 h)
      exact List.mem_cons_self
    · exact List.mem_cons_of_mem f (ih h)

/-- A text with as many breaks without comments as with them keeps all of them. -/
theorem keepsBreaks_of_breaks_eq {s : List Char} (h : breaks (dropBlockComments s) = breaks s) :
    KeepsBreaks s := by
  have hsource : source (spans s) = s := flatMap_source_spans s
  have hkept : kept (spans s) = dropBlockComments s := (dropBlockComments_eq s).symm
  have hlossless := (breaks_kept_le (spans s)).2.1 (by rw [hsource, hkept, h])
  exact fun seen p rest hs _ => hlossless seen p rest hs

end Source

open Source

/-- Characters outside block comments keep their line numbers when the comments are dropped
exactly if no break is lost before the last of them. If they do, every fragment and every
skipped one has the number of the line that it was taken from. -/
theorem numbers_kept_iff (text : String) :
    (∀ before c after, spans text.toList = before ++ .char c :: after →
      text.toList = source before ++ c :: source after ∧
        dropBlockComments text.toList = kept before ++ c :: kept after) ∧
    (KeepsNumbers text.toList ↔ KeepsBreaks text.toList) ∧
    (KeepsNumbers text.toList →
      (∀ f ∈ fragments text.toList,
        f.text ∈ splitBraces (cleanLine (lineOutside text.toList f.line))) ∧
      ∀ k ∈ (Reading.ofText text).skipped,
        k.fragment.text ∈ splitBraces (cleanLine (lineOutside text.toList k.fragment.line))) := by
  refine ⟨fun before c after hs => ⟨?_, ?_⟩, keepsNumbers_iff _, fun h => ⟨?_, ?_⟩⟩
  · rw [← flatMap_source_spans text.toList, hs, List.flatMap_append, List.flatMap_cons]
    rfl
  · rw [dropBlockComments_eq, hs, List.flatMap_append, List.flatMap_cons]
    rfl
  · exact fun f hf => mem_lineOutside h hf
  · exact fun k hk => mem_lineOutside h (mem_of_mem_skipped hk)

/-- A comment over two lines, one that ends with a carriage return and a line feed. -/
def commentedText : String :=
  "/* a\r\n b */ x\n/' c\nd '/ y"

theorem numbers_kept_iff_commented :
    KeepsNumbers commentedText.toList ∧ ⟨4, ['y']⟩ ∈ fragments commentedText.toList ∧
      ['y'] ∈ splitBraces (cleanLine (lineOutside commentedText.toList 4)) := by
  have hbreaks : breaks (dropBlockComments commentedText.toList) = breaks commentedText.toList := by
    decide +kernel
  have hmem : (⟨4, ['y']⟩ : Fragment) ∈ fragments commentedText.toList := by decide +kernel
  obtain ⟨-, hiff, hlines⟩ := numbers_kept_iff commentedText
  have hkeeps := hiff.2 (keepsBreaks_of_breaks_eq hbreaks)
  have hline := (hlines hkeeps).1 _ hmem
  exact ⟨hkeeps, hmem, hline⟩

/-- A carriage return in a comment, and a comment between a carriage return and a line feed. -/
theorem numbers_lost :
    ¬KeepsNumbers "/*\r*/x".toList ∧ ¬KeepsNumbers "x\r/**/\ny".toList ∧
      (Reading.ofText "/*\r*/x").skipped.map (·.fragment.line) = [1] ∧
      lineOutside "/*\r*/x".toList 1 = [] ∧ lineOutside "/*\r*/x".toList 2 = ['x'] := by
  refine ⟨fun h => ?_, fun h => ?_, by decide +kernel, by decide +kernel, by decide +kernel⟩
  · have hx := h [.comment ['*', '\r', '*']] 'x' [] (by decide +kernel)
    exact absurd hx (by decide)
  · have hy := h [.char 'x', .char '\r', .comment ['*', '*']] '\n' [.char 'y'] (by decide +kernel)
    exact absurd hy (by decide)

end ClassSketch
