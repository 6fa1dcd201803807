import ClassSketch.Arrow.Reader
import ClassSketch.Proofs.Outline.Header

/-!
# Links of an outline

A link is read as the relationship that it means (`Link.read?_chars`). Nothing in
its line is taken for a layout hint : no letter that starts a direction follows
a stroke, and a full stop inside a name follows a letter (`KeepsHints`). Of the
ways to read the line the one with the longest left name and the longest stroke
is taken, and these are the name and the stroke that are written, since a blank
ends the name and a tip or a blank ends the stroke (`split?_spaced`).
-/

namespace ClassSketch

open Text

/-! ## Blanks -/

namespace Text

theorem isDotted_eq_false_of_isBlank {c : Char} (h : isBlank c = true) : isDotted c = false := by
  by_contra hdotted
  rw [isBlank_eq_false_of_isDotted (by simpa using hdotted)] at h
  cases h

/-- At least one blank. -/
structure Blanks where
  chars : List Char
  ne_nil : chars ≠ []
  blank : ∀ c ∈ chars, isBlank c = true

namespace Blanks

def space : Blanks :=
  ⟨[' '], by decide, by simpa using (by decide : isBlank ' ' = true)⟩

variable (bs : Blanks)

theorem exists_cons : ∃ b t, bs.chars = b :: t ∧ isBlank b = true := by
  obtain ⟨b, t, hbt⟩ := List.exists_cons_of_ne_nil bs.ne_nil
  exact ⟨b, t, hbt, bs.blank b (by simp [hbt])⟩

theorem trimStart_append (s : List Char) : trimStart (bs.chars ++ s) = trimStart s :=
  trimStart_blanks_append bs.blank s

end Blanks

end Text

/-! ## Hints -/

namespace Arrow

/-- Without brackets there is no style. -/
theorem dropStyles_eq_self {s : List Char} (h : '[' ∉ s) (before : Option Char) :
    dropStyles before s = s := by
  induction s generalizing before with
  | nil => rw [dropStyles]
  | cons c s ih =>
    obtain ⟨hc, hs⟩ := not_or.1 (mt List.mem_cons.2 h)
    rw [dropStyles, if_neg fun hstyle => hc hstyle.1.symm, ih hs]

/-- After the text `before`, no direction is dropped from `s`, whatever follows it. -/
def KeepsHints (before s : List Char) : Prop :=
  ∀ t, dropDirections before (s ++ t) = s ++ dropDirections (s.reverse ++ before) t

namespace KeepsHints

variable {before s s' : List Char}

theorem nil : KeepsHints before [] :=
  fun _ => rfl

/-- Texts in turn keep their hints if the second does behind the first. -/
theorem append (h : KeepsHints before s) (h' : KeepsHints (s.reverse ++ before) s') :
    KeepsHints before (s ++ s') := by
  intro t
  rw [List.append_assoc, h, h', List.reverse_append, List.append_assoc, List.append_assoc]

theorem cons {c : Char} (hc : admitsDirection before = true → ∀ t, direction? (c :: t) = none)
    (h : KeepsHints (c :: before) s) : KeepsHints before (c :: s) := by
  intro t
  have hstep : dropDirections before (c :: (s ++ t)) =
      c :: dropDirections (c :: before) (s ++ t) := by
    rw [dropDirections]
    split
    · next hadmits =>
      split
      · next hsome => rw [hc hadmits] at hsome; cases hsome
      · rfl
    · rfl
  rw [List.cons_append, hstep, h, List.reverse_cons, List.append_assoc]
  rfl

/-- A text that keeps its hints is left as it is. -/
theorem eq_self (h : KeepsHints before s) : dropDirections before s = s := by
  have hs := h []
  rwa [List.append_nil, dropDirections, List.append_nil] at hs

end KeepsHints

theorem exists_of_mem_directionWords {w : List Char} (hw : w ∈ directionWords) :
    ∃ c v, w = c :: v ∧ c ∈ ['u', 'd', 'l', 'r'] := by
  have hfirst : ∀ w ∈ directionWords, w.head?.any (· ∈ ['u', 'd', 'l', 'r']) = true := by decide
  cases w with
  | nil => cases hfirst _ hw
  | cons c v => exact ⟨c, v, rfl, of_decide_eq_true (hfirst _ hw)⟩

/-- A direction starts with one of four letters. -/
theorem direction?_eq_none {c : Char} (hc : c ∉ ['u', 'd', 'l', 'r']) (t : List Char) :
    direction? (c :: t) = none := by
  cases hsome : direction? (c :: t) with
  | none => rfl
  | some found =>
    obtain ⟨heq, hw⟩ := eq_of_direction? hsome
    obtain ⟨x, v, hxv, hx⟩ := exists_of_mem_directionWords hw
    rw [hxv] at heq
    obtain rfl : c = x := (List.cons.inj heq).1
    exact absurd hx hc

theorem keepsHints_of_forall {s : List Char} (h : ∀ c ∈ s, c ∉ ['u', 'd', 'l', 'r'])
    (before : List Char) : KeepsHints before s := by
  induction s generalizing before with
  | nil => exact .nil
  | cons c s ih =>
    obtain ⟨hc, hs⟩ := List.forall_mem_cons.1 h
    exact .cons (fun _ => direction?_eq_none hc) (ih hs _)

theorem admitsDirection_cons {c : Char} (hdash : c ≠ '-') (hdot : c ≠ '.') (before : List Char) :
    admitsDirection (c :: before) = false := by
  rw [admitsDirection]
  · exact fun _ h => hdash (List.cons.inj h).1
  · exact fun _ _ h => hdot (List.cons.inj h).1
  · exact fun _ _ h => hdot (List.cons.inj h).1

/-- After a letter no direction is looked for, nor after a full stop that follows a letter. -/
theorem admitsDirection_word {c : Char} (hc : isWord c = true) (before : List Char) :
    admitsDirection (c :: before) = false ∧ admitsDirection ('.' :: c :: before) = false := by
  have hsigns : ∀ x ∈ ['-', '.', '|', '<', '*'], isWord x = false :=
    forall_mem_of_all (by decide)
  have hne : ∀ x ∈ ['-', '.', '|', '<', '*'], c ≠ x := by
    rintro x hx rfl
    rw [hsigns c hx] at hc
    cases hc
  have hedge : isEdge c = false := by
    simp [isEdge, isBlank_eq_false_of_isWord hc, hne]
  refine ⟨admitsDirection_cons (hne '-' (by simp)) (hne '.' (by simp)) _, ?_⟩
  rw [admitsDirection]
  · exact hedge
  · exact fun _ _ h => absurd h (hne '.' (by simp))

/-- A word is no direction unless a stroke is before it. -/
theorem keepsHints_word {w : List Char} (hw : ∀ c ∈ w, isWord c = true) {before : List Char}
    (hbefore : admitsDirection before = false) : KeepsHints before w := by
  induction w generalizing before with
  | nil => exact .nil
  | cons c w ih =>
    obtain ⟨hc, hrest⟩ := List.forall_mem_cons.1 hw
    refine .cons (fun hadmits => ?_) (ih hrest (admitsDirection_word hc before).1)
    rw [hbefore] at hadmits
    cases hadmits

end Arrow

namespace Outline

open Arrow

theorem Word.exists_reverse (w : Word) (t : List Char) :
    ∃ c u, w.chars.reverse ++ t = c :: u ∧ isWord c = true := by
  have hne : w.chars.reverse ≠ [] := by simpa using w.chars_ne_nil
  obtain ⟨c, u, hcu⟩ := List.exists_cons_of_ne_nil hne
  refine ⟨c, u ++ t, by rw [hcu]; rfl, w.isWord_of_mem c ?_⟩
  rw [← List.mem_reverse, hcu]
  exact List.mem_cons_self

/-- What follows the first word of a dotted name. -/
def Dotted.behind (d : Dotted) : List Char :=
  d.more.flatMap fun w => '.' :: w.chars

/-- A word ends with a letter, so that no full stop after it is a stroke. -/
theorem keepsHints_behind (d : Dotted) (before : List Char) :
    KeepsHints (d.first.chars.reverse ++ before) d.behind := by
  obtain ⟨first, more⟩ := d
  induction more generalizing first before with
  | nil => exact .nil
  | cons w ws ih =>
    obtain ⟨c, u, hcu, hc⟩ := first.exists_reverse before
    have hadmits := admitsDirection_word hc u
    rw [hcu]
    refine .cons (fun h => ?_) (.append (keepsHints_word w.isWord_of_mem hadmits.2) (ih _ w))
    rw [hadmits.1] at h
    cases h

/-- Nor is a dotted name, as full stops within it have a word before them. -/
theorem keepsHints_dotted (d : Dotted) {before : List Char}
    (hbefore : admitsDirection before = false) : KeepsHints before d.chars :=
  (keepsHints_word d.first.isWord_of_mem hbefore).append (keepsHints_behind d before)

end Outline

/-! ## The parts of a link -/

namespace Arrow

/-- A function that lists what follows each character of a run lists what follows the run
after it, and the rests that are longer before it. -/
theorem reverse_rests {p : Char → Prop} {f : List Char → List (List Char)}
    (hstep : ∀ c s, p c → f (c :: s) = s :: f s) (r : List Char) {a : List Char} (ha : a ≠ [])
    (hp : ∀ c ∈ a, p c) : ∃ l, (f (a ++ r)).reverse = (f r).reverse ++ r :: l := by
  induction a with
  | nil => exact absurd rfl ha
  | cons c a ih =>
    obtain ⟨hc, hrest⟩ := List.forall_mem_cons.1 hp
    rw [List.cons_append, hstep _ _ hc, List.reverse_cons]
    cases a with
    | nil => exact ⟨[], rfl⟩
    | cons d a =>
      obtain ⟨l, hl⟩ := ih (List.cons_ne_nil d a) hrest
      rw [hl, List.append_assoc, List.cons_append]
      exact ⟨_, rfl⟩

theorem nameRests_eq_nil {s : List Char} (h : s.head?.any isDotted = false) : nameRests s = [] := by
  cases s with
  | nil => rfl
  | cons c s => exact if_neg (by simpa using h)

/-- The longest name is tried first. -/
theorem reverse_nameRests (r : List Char) {s : List Char} (hs : isDottedText s = true) :
    ∃ l, (nameRests (s ++ r)).reverse = (nameRests r).reverse ++ r :: l := by
  obtain ⟨hne, hdotted⟩ := isDottedText_iff.1 hs
  exact reverse_rests (fun c s hc => by rw [nameRests, if_pos hc]) r hne hdotted

/-- The characters that arrows are made of. -/
def signs : List Char :=
  ['<', '|', '*', 'o', '-', '.', '>']

variable (a : Arrow) (n : Nat) (s : List Char)

theorem mem_signs : ∀ c ∈ a.chars n, c ∈ signs := by
  have htips : ∀ tip : Tip, (∀ c ∈ tip.leftChars, c ∈ signs) ∧ ∀ c ∈ tip.rightChars, c ∈ signs := by
    intro tip
    cases tip <;> exact ⟨forall_mem_of_all (by decide), forall_mem_of_all (by decide)⟩
  have hstroke : a.stroke.char ∈ signs := by
    cases a.stroke <;> decide
  refine List.forall_mem_append.2
    ⟨List.forall_mem_append.2 ⟨(htips a.head).1, ?_⟩, (htips a.tail).2⟩
  intro c hc
  rwa [List.eq_of_mem_replicate hc]

/-- Blanks and signs of arrows, in any order. -/
def IsDrawing (s : List Char) : Prop :=
  ∀ c ∈ s, isBlank c = true ∨ c ∈ signs

/-- No direction starts with a blank or a sign. -/
theorem not_drawing_of_mem : ∀ c ∈ ['u', 'd', 'l', 'r'], ¬(isBlank c = true ∨ c ∈ signs) :=
  forall_mem_of_all (by decide)

namespace IsDrawing

variable {s t : List Char}

theorem append (hs : IsDrawing s) (ht : IsDrawing t) : IsDrawing (s ++ t) :=
  List.forall_mem_append.2 ⟨hs, ht⟩

theorem keepsHints (h : IsDrawing s) (before : List Char) : KeepsHints before s :=
  keepsHints_of_forall (fun c hc hmem => not_drawing_of_mem c hmem (h c hc)) before

end IsDrawing

/-- An arrow is made of signs only. -/
theorem isDrawing_chars : IsDrawing (a.chars n) :=
  fun c hc => .inr (a.mem_signs n c hc)

theorem isDrawing_blanks (bs : Blanks) : IsDrawing bs.chars :=
  fun c hc => .inl (bs.blank c hc)

theorem trimmed_chars : Trimmed (a.chars n) := by
  have hblank : ∀ c ∈ signs, isBlank c = false := forall_mem_of_all (by decide)
  refine .of_forall ?_ fun c hc => hblank c (a.mem_signs n c hc)
  exact List.append_ne_nil_of_left_ne_nil (List.append_ne_nil_of_right_ne_nil _ (by simp)) _

/-- A circle is only a left tip after a blank. -/
theorem headTip_chars {isSpaced : Bool} (h : a.head = .circle → isSpaced = true) :
    headTip isSpaced (a.chars n ++ s) =
      (a.head, List.replicate (n + 1) a.stroke.char ++ (a.tail.rightChars ++ s)) := by
  obtain ⟨head, stroke, tail⟩ := a
  have hrest : ∀ u, headTip isSpaced (u ++ (List.replicate (n + 1) stroke.char ++
      (tail.rightChars ++ s))) = headTip isSpaced (u ++ stroke.char ::
        (List.replicate n stroke.char ++ (tail.rightChars ++ s))) := fun u => rfl
  rw [chars, List.append_assoc, List.append_assoc, hrest]
  cases head with
  | circle =>
    obtain rfl := h rfl
    rfl
  | plain | triangle | angle | diamond => cases stroke <;> rfl

/-- The longest stroke is tried first. -/
theorem strokes_replicate {stroke : Stroke} {t : List Char} (ht : t.head? ≠ some stroke.char) :
    ∃ l, strokes (List.replicate (n + 1) stroke.char ++ t) = (stroke, t) :: l := by
  cases stroke with
  | solid =>
    have hdrop : (List.replicate (n + 1) '-' ++ t).dropWhile (· == '-') = t := by
      rw [List.dropWhile_append_of_pos fun c hc => by simp [List.eq_of_mem_replicate hc]]
      cases t with
      | nil => rfl
      | cons c t => exact List.dropWhile_cons_of_neg fun hc => ht (congrArg some (eq_of_beq hc))
    refine ⟨[], ?_⟩
    show [(Stroke.solid, (List.replicate (n + 1) '-' ++ t).dropWhile (· == '-'))] = [(.solid, t)]
    rw [hdrop]
  | dotted =>
    have hrest : dotRests t = [] := by
      unfold dotRests
      split
      · exact absurd rfl ht
      · rfl
    obtain ⟨l, hl⟩ := reverse_rests (p := (· = '.')) (f := dotRests)
      (fun c s hc => by rw [hc, dotRests]) t (a := List.replicate (n + 1) '.')
      (by simp) fun c hc => List.eq_of_mem_replicate hc
    rw [hrest] at hl
    refine ⟨l.map fun r => (.dotted, r), ?_⟩
    show (dotRests (List.replicate (n + 1) '.' ++ t)).reverse.map (fun r => (Stroke.dotted, r)) = _
    rw [hl]
    rfl

theorem ne_stroke_of_isBlank {c : Char} (h : isBlank c = true) : c ≠ '-' ∧ c ≠ '.' := by
  constructor <;> rintro rfl <;> cases h

theorem admitsDirection_blanks (bs : Blanks) (s : List Char) :
    admitsDirection (bs.chars.reverse ++ s) = false := by
  obtain ⟨b, t, hbt⟩ := List.exists_cons_of_ne_nil (List.reverse_ne_nil_iff.2 bs.ne_nil)
  have hb : isBlank b = true := bs.blank b (by rw [← List.mem_reverse, hbt]; simp)
  rw [hbt]
  exact admitsDirection_cons (ne_stroke_of_isBlank hb).1 (ne_stroke_of_isBlank hb).2 _

/-- Behind blanks the right name is read to the end. -/
theorem rightName?_blanks (bs : Blanks) (d : Outline.Dotted) :
    rightName? (bs.chars ++ d.chars) = some d.chars := by
  have htrim : trimStart (bs.chars ++ d.chars) = d.chars := by
    rw [bs.trimStart_append, trimStart_eq_self d.trimmed.startsBlank_eq]
  rw [rightName?, htrim, if_pos d.isDottedText_chars]

theorem tippedName?_blanks (bs : Blanks) : tippedName? (bs.chars ++ s) = none := by
  obtain ⟨b, t, hbt, hb⟩ := bs.exists_cons
  have hsigns : ∀ c ∈ ['|', '>', '*', 'o'], isBlank c = false := forall_mem_of_all (by decide)
  have hne : ∀ c ∈ ['|', '>', '*', 'o'], b ≠ c := by
    rintro c hc rfl
    rw [hsigns b hc] at hb
    cases hb
  rw [hbt, List.cons_append, tippedName?]
  all_goals
    intros
    simp_all

/-- A blank ends the right tip. -/
theorem tailAndName?_rightChars (tip : Tip) (bs : Blanks) (d : Outline.Dotted) :
    tailAndName? (tip.rightChars ++ (bs.chars ++ d.chars)) = some (tip, d.chars) := by
  have hname := rightName?_blanks bs d
  have hdotted : (bs.chars ++ d.chars).head?.any isDotted = false := by
    obtain ⟨b, t, hbt, hb⟩ := bs.exists_cons
    rw [hbt]
    exact isDotted_eq_false_of_isBlank hb
  cases tip with
  | plain =>
    rw [Tip.rightChars, List.nil_append, tailAndName?, tippedName?_blanks, hname]
    rfl
  | circle =>
    simp only [Tip.rightChars, tailAndName?, tippedName?, List.cons_append, List.nil_append, hdotted,
      hname]
    rfl
  | triangle | angle | diamond =>
    simp only [Tip.rightChars, tailAndName?, tippedName?, List.cons_append, List.nil_append, hname]
    rfl

/-- Behind the left name, the arrow and the right name are read. -/
theorem afterLeft?_chars (before after : Blanks) (d : Outline.Dotted) :
    afterLeft? (before.chars ++ (a.chars n ++ (after.chars ++ d.chars))) = some (a, d.chars) := by
  have htrim : trimStart (before.chars ++ (a.chars n ++ (after.chars ++ d.chars))) =
      a.chars n ++ (after.chars ++ d.chars) := by
    rw [before.trimStart_append, (a.trimmed_chars n).trimStart_append]
  have htip : (a.tail.rightChars ++ (after.chars ++ d.chars)).head? ≠ some a.stroke.char := by
    obtain ⟨b, t, hbt, hb⟩ := after.exists_cons
    rw [hbt]
    cases a.tail <;> cases a.stroke <;>
      simp [Tip.rightChars, Stroke.char, ne_stroke_of_isBlank hb]
  obtain ⟨l, hl⟩ := strokes_replicate n htip
  have hblank :
      (before.chars ++ (a.chars n ++ (after.chars ++ d.chars))).head?.any isBlank = true := by
    obtain ⟨b, t, hbt, hb⟩ := before.exists_cons
    rw [hbt]
    exact hb
  simp only [afterLeft?, hblank, htrim, headTip_chars a n _ fun _ => rfl, hl, List.findSome?_cons,
    tailAndName?_rightChars]
  rfl

section Spaced

variable (left right : Outline.Dotted) (before after : Blanks)

/-- An arrow between two names, with blanks on both sides. -/
def spaced : List Char :=
  left.chars ++ (before.chars ++ (a.chars n ++ (after.chars ++ right.chars)))

/-- A blank ends the left name. -/
theorem split?_spaced :
    split? (a.spaced n left right before after) = some (left.chars, a, right.chars) := by
  have hrest : nameRests (before.chars ++ (a.chars n ++ (after.chars ++ right.chars))) = [] := by
    obtain ⟨b, t, hbt, hb⟩ := before.exists_cons
    rw [hbt]
    exact nameRests_eq_nil (isDotted_eq_false_of_isBlank hb)
  obtain ⟨l, hl⟩ := reverse_nameRests (before.chars ++ (a.chars n ++ (after.chars ++ right.chars)))
    left.isDottedText_chars
  rw [hrest] at hl
  simp only [spaced, split?, hl, List.reverse_nil, List.nil_append, List.findSome?_cons,
    afterLeft?_chars, Option.map_some, before_append]

theorem not_mem_spaced {c : Char} (hdotted : isDotted c = false) (hblank : isBlank c = false)
    (hsigns : c ∉ signs) : c ∉ a.spaced n left right before after := by
  have hblanks : ∀ bs : Blanks, c ∉ bs.chars := fun bs hc => by
    rw [bs.blank c hc] at hblank
    cases hblank
  simp only [spaced, List.mem_append, not_or]
  exact ⟨left.not_mem hdotted, hblanks before, fun h => hsigns (a.mem_signs n c h), hblanks after,
    right.not_mem hdotted⟩

theorem trimmed_spaced : Trimmed (a.spaced n left right before after) := by
  have h := left.trimmed.append right.trimmed (before.chars ++ (a.chars n ++ after.chars))
  simpa [spaced] using h

/-- Nothing around a spaced arrow is a hint. -/
theorem dropHints_spaced {e : List Char} (he : ∀ c ∈ e, isBlank c = true) :
    dropHints (a.spaced n left right before after ++ e) =
      a.spaced n left right before after ++ e := by
  have hstyle : '[' ∉ a.spaced n left right before after ++ e := by
    refine mt List.mem_append.1 (not_or.2 ⟨?_, fun h => by cases he _ h⟩)
    exact a.not_mem_spaced n left right before after (by decide) (by decide) (by decide)
  rw [dropHints, dropStyles_eq_self hstyle]
  have heq : a.spaced n left right before after ++ e =
      left.chars ++ (before.chars ++ (a.chars n ++ after.chars)) ++ right.chars ++ e := by
    simp [spaced]
  rw [heq]
  refine KeepsHints.eq_self (.append (.append (.append ?_ ?_) ?_) ?_)
  · exact Outline.keepsHints_dotted _ rfl
  · exact ((isDrawing_blanks before).append
      ((a.isDrawing_chars n).append (isDrawing_blanks after))).keepsHints _
  · refine Outline.keepsHints_dotted _ ?_
    simpa using admitsDirection_blanks after _
  · exact IsDrawing.keepsHints (fun c hc => .inl (he c hc)) _

end Spaced

end Arrow

/-! ## Whole links -/

namespace Relationship

/-- A line without a quoted text and a colon is its arrow between its names. -/
theorem read?_bare {line : List Char} (hhidden : ¬hiddenMark <:+: line) (hquote : '"' ∉ line)
    (hcolon : ':' ∉ line) :
    read? line = (Arrow.split? (trim (Arrow.dropHints line))).bind fun found =>
      ofArrow? found.1 found.2.1 found.2.2 none := by
  have hparts : line.splitOn '"' = [line] := splitOn_of_not_mem hquote
  have hcut : cutColon line = (line, []) := by
    rw [cutColon, cutAt_eq_none_iff.2 hcolon]
    rfl
  have hunquoted : unquoted [line] = line := rfl
  rw [read?, if_neg (mt occursIn_iff.1 hhidden)]
  simp only [hparts, hunquoted, hcut]
  rfl

theorem not_marked_of_not_mem {line : List Char} (h : '[' ∉ line) : ¬hiddenMark <:+: line :=
  fun hmark => h (hmark.subset (by decide))

/-- A link with blanks around its arrow is read by its arrow and its names. -/
theorem read?_spaced (a : Arrow) (n : Nat) (left right : Outline.Dotted) (before after : Blanks) :
    read? (a.spaced n left right before after) = ofArrow? left.chars a right.chars none := by
  have hmem {c : Char} := a.not_mem_spaced (c := c) n left right before after
  have hhints := a.dropHints_spaced n left right before after (List.forall_mem_nil _)
  rw [List.append_nil] at hhints
  rw [read?_bare (not_marked_of_not_mem (hmem (by decide) (by decide) (by decide)))
    (hmem (by decide) (by decide) (by decide)) (hmem (by decide) (by decide) (by decide)), hhints,
    (a.trimmed_spaced n left right before after).trim_eq, a.split?_spaced]
  rfl

end Relationship

namespace Outline.Link

open Arrow Source

variable (l : Link)

/-- A link of an outline has a space on both sides of its arrow. -/
theorem chars_eq : l.chars =
    l.arrow.spaced l.length l.left.toDotted l.right.toDotted .space .space :=
  rfl

/-- It is a line that cleaning leaves as it is. -/
theorem isLine : IsLine l.chars := by
  have hsigns : ∀ c ∈ signs, isInk c = true := forall_mem_of_all (by decide)
  have harrow : Ink (l.arrow.chars l.length) := fun c hc =>
    hsigns c (l.arrow.mem_signs l.length c hc)
  have hspace : isInk ' ' = true := by decide
  refine .of_ink (l.left.ink.append (.cons hspace (harrow.append (.cons hspace l.right.ink)))) ?_
  rw [chars_eq]
  exact trimmed_spaced ..

theorem not_mem_chars {c : Char} (hdotted : isDotted c = false) (hblank : isBlank c = false)
    (hsigns : c ∉ signs) : c ∉ l.chars := by
  rw [chars_eq]
  exact not_mem_spaced _ _ _ _ _ _ hdotted hblank hsigns

theorem noHeader (r : Reader) : r.NoHeader l.chars := by
  obtain ⟨⟨⟨first, more⟩, hreserved⟩, arrow, n, right, kind, direction, hmeaning⟩ := l
  have hfirst : first.chars ∉ reserved := hreserved first List.mem_cons_self
  rw [chars, Dotted.chars, List.append_assoc]
  refine Source.noHeader first.isWord_of_mem ?_ r (Or.inl hfirst)
  cases more <;> rfl

/-- So it is read to its relationship. -/
theorem read?_chars : Relationship.read? l.chars = some l.relationship := by
  rw [chars_eq, Relationship.read?_spaced, Relationship.ofArrow?, l.meaning, relationship]
  cases l.direction <;> rfl

end Outline.Link

end ClassSketch
