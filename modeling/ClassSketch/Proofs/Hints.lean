import ClassSketch.Proofs.Outline.Link
import ClassSketch.Proofs.WellFormed.Reading

/-!
# Layout hints

The stroke of an arrow may be interrupted by a hint : a direction, or a style in
square brackets (`Hint`). Hints are dropped before the arrow is read, so that the line
means what it means without them.

A direction is only looked for after a dash, or after one or two dots that follow a
blank or a tip. After a longer run of dots it stays in the line, and no arrow is found
then : what stands before the right name has only blanks and signs in it
(`followsDrawing_of_afterLeft?`), and the letters of a direction are neither. So a hint is
transparent exactly where it is looked for (`Hint.Admitted`).
-/

namespace ClassSketch

open Text Outline

/-- A direction, or a style that does not hide the arrow. -/
inductive Hint where
  | direction (word : List Char) (known : word ∈ Arrow.directionWords)
  | style (text : List Char) (plain : ∀ c ∈ text, c ∉ ['[', ']', ':', '"'])
      (shown : text ≠ "hidden".toList)

namespace Hint

def chars : Hint → List Char
  | direction word _ => word
  | style text _ _ => '[' :: (text ++ [']'])

/-- Whether a hint is looked for behind a stroke of `m + 1` characters after a blank or a tip. -/
def Admitted (stroke : Stroke) (m : Nat) : Hint → Prop
  | direction .. => stroke = .dotted → m ≤ 1
  | style .. => True

end Hint

namespace Arrow

/-! ## Directions -/

theorem isWordText_of_mem_directionWords : ∀ w ∈ directionWords, isWordText w = true := by
  decide

/-- A direction is read as a word of its own if a stroke follows. -/
theorem takeSome_directionWord {w rest : List Char} (hw : w ∈ directionWords)
    (hrest : strokeFollows rest = true) : takeSome isWord (w ++ rest) = some (w, rest) := by
  refine Word.takeSome_append ⟨w, isWordText_of_mem_directionWords w hw⟩ ?_
  cases rest with
  | nil => rfl
  | cons c rest =>
    have hstroke : isStrokeChar c = true := hrest
    rw [isStrokeChar, Bool.or_eq_true, beq_iff_eq, beq_iff_eq] at hstroke
    show isWord c = false
    rcases hstroke with rfl | rfl <;> decide

/-- The direction at the front is the whole first word, and the stroke goes on after it. -/
theorem direction?_eq_some_iff {s w rest : List Char} : direction? s = some (w, rest) ↔
    s = w ++ rest ∧ w ∈ directionWords ∧ strokeFollows rest = true := by
  have hfound : ∀ {w rest}, direction? s = some (w, rest) →
      s = w ++ rest ∧ w ∈ directionWords ∧ strokeFollows rest = true := by
    intro w rest h
    obtain ⟨heq, hw⟩ := eq_of_direction? h
    obtain ⟨w', -, h⟩ := List.exists_of_findSome?_eq_some h
    obtain ⟨rest', -, h⟩ := Option.bind_eq_some_iff.1 h
    obtain ⟨hstroke, h⟩ := Option.ite_none_right_eq_some.1 h
    cases h
    exact ⟨heq, hw, hstroke⟩
  refine ⟨hfound, fun ⟨heq, hw, hrest⟩ => ?_⟩
  cases hsome : direction? s with
  | none =>
    have hnone := List.findSome?_eq_none_iff.1 hsome w hw
    rw [heq, after?_append, Option.bind_some, if_pos hrest] at hnone
    cases hnone
  | some found =>
    -- both words are the longest front without a stroke
    obtain ⟨w', rest'⟩ := found
    obtain ⟨heq', hw', hrest'⟩ := hfound hsome
    rw [← takeSome_directionWord hw' hrest', ← takeSome_directionWord hw hrest, ← heq, ← heq']

theorem not_mem_direction {w : List Char} (hw : w ∈ directionWords) {c : Char}
    (hc : isWord c = false) : c ∉ (Hint.direction w hw).chars :=
  Word.not_mem ⟨w, isWordText_of_mem_directionWords w hw⟩ hc

/-- Inside of a stroke a direction is dropped. -/
theorem dropDirections_direction {before w rest : List Char}
    (hbefore : admitsDirection before = true) (hw : w ∈ directionWords)
    (hrest : strokeFollows rest = true) :
    dropDirections before (w ++ rest) = dropDirections (w.reverse ++ before) rest := by
  have hfound := direction?_eq_some_iff.2 ⟨rfl, hw, hrest⟩
  cases w with
  | nil => exact absurd hw (by decide)
  | cons c w =>
    rw [List.cons_append] at hfound ⊢
    rw [dropDirections, if_pos hbefore]
    split
    · next hsome =>
      rw [hfound] at hsome
      cases hsome
      rfl
    · next hnone =>
      rw [hfound] at hnone
      cases hnone

/-- Behind a stroke that follows a blank or a tip a direction is looked for, unless the stroke is
a run of three dots or more. -/
theorem admitsDirection_run {stroke : Stroke} (m : Nat) {s : List Char}
    (hs : stroke = .dotted → s.head?.any isEdge = true) :
    admitsDirection (List.replicate (m + 1) stroke.char ++ s) = true ↔
      (stroke = .dotted → m ≤ 1) := by
  cases stroke with
  | solid => exact iff_of_true rfl fun h => by cases h
  | dotted =>
    cases s with
    | nil => cases hs rfl
    | cons c s =>
      have hedge : isEdge c = true := hs rfl
      match m with
      | 0 =>
        refine iff_of_true ?_ fun _ => Nat.zero_le 1
        show admitsDirection ('.' :: c :: s) = true
        rw [admitsDirection]
        · exact hedge
        · rintro _ _ rfl
          cases hedge
      | 1 => exact iff_of_true hedge fun _ => Nat.le_refl 1
      | k + 2 => exact iff_of_false Bool.false_ne_true fun h => absurd (h rfl) (by omega)

/-! ## Styles -/

/-- A text without brackets has no style in it. -/
theorem dropStyles_append {s : List Char} (hs : '[' ∉ s) (before : Option Char) (t : List Char) :
    dropStyles before (s ++ t) = s ++ dropStyles (s.getLast?.or before) t := by
  induction s generalizing before with
  | nil => rfl
  | cons c s ih =>
    obtain ⟨hc, hrest⟩ := not_or.1 (mt List.mem_cons.2 hs)
    rw [List.cons_append, dropStyles, if_neg fun h => hc h.1.symm, ih hrest, List.getLast?_cons]
    cases s.getLast? <;> rfl

/-- Inside of a stroke a style is dropped. -/
theorem dropStyles_style {c : Char} (hc : isStrokeChar c = true) {text rest : List Char}
    (htext : ']' ∉ text) (hrest : strokeFollows rest = true) :
    dropStyles (some c) ('[' :: (text ++ ']' :: rest)) = dropStyles (some ']') rest := by
  have hcut := cutAt_append htext rest
  rw [dropStyles, if_pos ⟨rfl, hc⟩]
  split
  · next hsome =>
    rw [hcut] at hsome
    cases hsome
    rw [if_pos hrest]
  · next hnone =>
    rw [hcut] at hnone
    cases hnone

/-! ## What stands before the right name -/

/-- `r` is what follows a drawing at the front of `s`. -/
def FollowsDrawing (r s : List Char) : Prop :=
  ∃ p, s = p ++ r ∧ IsDrawing p

namespace FollowsDrawing

variable {r s t : List Char}

theorem refl (s : List Char) : FollowsDrawing s s :=
  ⟨[], rfl, List.forall_mem_nil _⟩

/-- Drawings may follow each other. -/
theorem trans (h : FollowsDrawing r s) (h' : FollowsDrawing s t) : FollowsDrawing r t := by
  obtain ⟨p, rfl, hp⟩ := h
  obtain ⟨q, rfl, hq⟩ := h'
  exact ⟨q ++ p, (List.append_assoc ..).symm, hq.append hp⟩

theorem cons {c : Char} (hc : c ∈ signs) (h : FollowsDrawing r s) : FollowsDrawing r (c :: s) := by
  obtain ⟨p, rfl, hp⟩ := h
  exact ⟨c :: p, rfl, List.forall_mem_cons.2 ⟨.inr hc, hp⟩⟩

theorem trimStart (s : List Char) : FollowsDrawing (trimStart s) s := by
  obtain ⟨bs, hbs, hblank, -⟩ := exists_trimStart s
  exact ⟨bs, hbs, fun c hc => .inl (hblank c hc)⟩

end FollowsDrawing

/-- The tip at the head belongs to the drawing. -/
theorem followsDrawing_headTip (isSpaced : Bool) (s : List Char) :
    FollowsDrawing (headTip isSpaced s).2 s := by
  have hsign {c : Char} (hc : c ∈ signs) (t : List Char) : FollowsDrawing t (c :: t) :=
    (FollowsDrawing.refl t).cons hc
  unfold headTip
  split
  · exact (hsign (by decide) _).cons (by decide)
  · exact hsign (by decide) _
  · exact hsign (by decide) _
  · split
    · exact hsign (by decide) _
    · exact .refl _
  · exact .refl _

theorem followsDrawing_of_mem_dotRests {s r : List Char} (h : r ∈ dotRests s) :
    FollowsDrawing r s := by
  fun_induction dotRests s with
  | case1 s ih =>
    rcases List.mem_cons.1 h with rfl | h
    · exact (FollowsDrawing.refl r).cons (by decide)
    · exact (ih h).cons (by decide)
  | case2 => cases h

/-- So does the stroke. -/
theorem followsDrawing_of_mem_strokes {s r : List Char} {stroke : Stroke}
    (h : (stroke, r) ∈ strokes s) : FollowsDrawing r s := by
  unfold strokes at h
  split at h
  · cases List.mem_singleton.1 h
    refine ⟨_, List.takeWhile_append_dropWhile.symm, fun c hc => .inr ?_⟩
    have hdash := List.mem_takeWhile_imp (p := (· == '-')) hc
    rw [eq_of_beq hdash]
    decide
  · obtain ⟨r', hr', heq⟩ := List.mem_map.1 h
    cases heq
    exact followsDrawing_of_mem_dotRests (List.mem_reverse.1 hr')

/-- And the tip at the tail. -/
theorem followsDrawing_of_tailAndName? {s r : List Char} {tip : Tip}
    (h : tailAndName? s = some (tip, r)) : FollowsDrawing r s := by
  have hname : ∀ {t tip'}, (rightName? t).map (fun r => (tip', r)) = some (tip, r) →
      FollowsDrawing r t := by
    intro t tip' hmap
    obtain ⟨r', hr', heq⟩ := Option.map_eq_some_iff.1 hmap
    cases heq
    obtain ⟨-, hsome⟩ := Option.ite_none_right_eq_some.1 hr'
    cases hsome
    exact .trimStart t
  rcases (Option.orElse_eq_some _ _ _).1 h with h | ⟨-, h⟩
  · unfold tippedName? at h
    split at h
    · exact ((hname h).cons (by decide)).cons (by decide)
    · exact (hname h).cons (by decide)
    · exact (hname h).cons (by decide)
    · split at h
      · cases h
      · exact (hname h).cons (by decide)
    · cases h
  · exact hname h

/-- Only blanks and signs stand between the left and the right name. -/
theorem followsDrawing_of_afterLeft? {s r : List Char} {a : Arrow}
    (h : afterLeft? s = some (a, r)) : FollowsDrawing r s ∧ isDottedText r = true := by
  obtain ⟨⟨stroke, t⟩, hstroke, hmap⟩ := List.exists_of_findSome?_eq_some h
  obtain ⟨⟨tip, r'⟩, htail, heq⟩ := Option.map_eq_some_iff.1 hmap
  cases heq
  have hhead := followsDrawing_headTip (s.head?.any isBlank) (trimStart s)
  exact ⟨(followsDrawing_of_tailAndName? htail).trans ((followsDrawing_of_mem_strokes hstroke).trans
    (hhead.trans (.trimStart s))), isDottedText_of_tailAndName? htail⟩

section Interrupted

variable {u y : List Char} {x : Char} (hx : ¬(isBlank x = true ∨ x ∈ signs))
  (hy : ¬∀ c ∈ y, isDotted c = true)

include hx hy

/-- A character that is neither blank nor a sign belongs to the right name, and then so does all
that follows. -/
theorem afterLeft?_interrupted : afterLeft? (u ++ x :: y) = none := by
  cases hsome : afterLeft? (u ++ x :: y) with
  | none => rfl
  | some found =>
    obtain ⟨⟨p, heq, hp⟩, hdotted⟩ := followsDrawing_of_afterLeft? hsome
    have hmem := (isDottedText_iff.1 hdotted).2
    rcases List.append_eq_append_iff.1 heq with ⟨t, rfl, htail⟩ | ⟨t, rfl, hr⟩
    · cases t with
      | nil =>
        rw [List.nil_append] at htail
        rw [← htail] at hmem
        exact absurd (fun c hc => hmem c (List.mem_cons_of_mem x hc)) hy
      | cons c t =>
        obtain rfl := (List.cons.inj htail).1
        exact absurd (hp x (by simp)) hx
    · rw [hr] at hmem
      exact absurd (fun c hc => hmem c (by simp [hc])) hy

/-- A line is not read when such a character stands behind the end of the first name. -/
theorem split?_interrupted (hu : ¬∀ c ∈ u, isDotted c = true) : split? (u ++ x :: y) = none := by
  refine List.findSome?_eq_none_iff.2 fun rest hrest => ?_
  obtain ⟨name, heq, hname⟩ := isDottedText_of_mem_nameRests (List.mem_reverse.1 hrest)
  have hmem := (isDottedText_iff.1 hname).2
  rcases List.append_eq_append_iff.1 heq with ⟨t, rfl, -⟩ | ⟨t, rfl, rfl⟩
  · exact absurd (fun c hc => hmem c (List.mem_append_left t hc)) hu
  · rw [afterLeft?_interrupted hx hy]
    rfl

end Interrupted

end Arrow

/-! ## Lines with a hint -/

namespace Arrow

/-- The table has no dotted arrow with a circle, and exactly one end of a dotted one is plain. -/
theorem dotted_of_meaning? {a : Arrow} (h : a.meaning? ≠ none) (hdotted : a.stroke = .dotted) :
    a.head ≠ .circle ∧ (a.head = .plain ↔ a.tail ≠ .plain) := by
  obtain ⟨head, stroke, tail⟩ := a
  obtain rfl : stroke = .dotted := hdotted
  revert h
  cases head <;> cases tail <;> decide

/-- An arrow of the table gives a relationship. -/
theorem ofArrow?_ne_none {a : Arrow} (h : a.meaning? ≠ none) (left right : List Char)
    (label : Option String) : Relationship.ofArrow? left a right label ≠ none := by
  rw [Relationship.ofArrow?, ne_eq, Option.map_eq_none_iff]
  exact h

section Hinted

variable (a : Arrow) (m : Nat) (h : Hint) (n : Nat) (left right : Dotted) (before after : Blanks)

/-- The left name, and the arrow up to the first `m + 1` characters of its stroke. -/
def upToHint : List Char :=
  left.chars ++ (before.chars ++ (a.head.leftChars ++ List.replicate (m + 1) a.stroke.char))

/-- The arrow from the last `n + 1` characters of its stroke on, and the right name. -/
def afterHint : List Char :=
  List.replicate (n + 1) a.stroke.char ++ (a.tail.rightChars ++ after.chars) ++ right.chars

/-- An arrow between two names, with blanks on both sides and a hint in its stroke. -/
def hinted : List Char :=
  a.upToHint m left before ++ (h.chars ++ a.afterHint n right after)

/-- The two halves of a link, without a hint between them, are the link. -/
theorem upToHint_append_afterHint : a.upToHint m left before ++ a.afterHint n right after =
    a.spaced (m + n + 1) left right before after := by
  have hstroke : List.replicate (m + n + 1 + 1) a.stroke.char =
      List.replicate (m + 1) a.stroke.char ++ List.replicate (n + 1) a.stroke.char := by
    rw [List.replicate_append_replicate]
    congr 1
    omega
  simp only [upToHint, afterHint, spaced, chars, hstroke, List.append_assoc]

/-- A hint has a stroke behind it. -/
theorem strokeFollows_afterHint : strokeFollows (a.afterHint n right after) = true := by
  cases hstroke : a.stroke <;> simp [afterHint, hstroke, List.replicate_succ, strokeFollows,
    isStrokeChar, Stroke.char]

section NotMem

variable {c : Char} (hdotted : isDotted c = false) (hblank : isBlank c = false)
  (hsigns : c ∉ signs)

include hdotted hblank hsigns

theorem not_mem_upToHint_and_afterHint :
    c ∉ a.upToHint m left before ∧ c ∉ a.afterHint n right after := by
  have hspaced := a.not_mem_spaced (m + n + 1) left right before after hdotted hblank hsigns
  rw [← upToHint_append_afterHint] at hspaced
  exact not_or.1 (mt List.mem_append.2 hspaced)

variable {h}

/-- A link with a hint has no characters but those of its parts. -/
theorem not_mem_hinted (hhint : c ∉ h.chars) : c ∉ a.hinted m h n left right before after := by
  obtain ⟨hleft, hright⟩ :=
    a.not_mem_upToHint_and_afterHint m n left right before after hdotted hblank hsigns
  simp [hinted, hleft, hhint, hright]

end NotMem

theorem isDrawing_leftChars : IsDrawing (a.head.leftChars ++ List.replicate (m + 1) a.stroke.char) :=
  fun c hc => a.isDrawing_chars m c (List.mem_append_left _ hc)

/-- There is no hint in the first half of a link. -/
theorem keepsHints_upToHint : KeepsHints [] (a.upToHint m left before) :=
  (keepsHints_dotted left rfl).append
    (((isDrawing_blanks before).append (a.isDrawing_leftChars m)).keepsHints _)

/-- Nor in the second half, whatever is before it. -/
theorem keepsHints_afterHint (s : List Char) : KeepsHints s (a.afterHint n right after) := by
  have hstroke : IsDrawing (List.replicate (n + 1) a.stroke.char) := fun c hc =>
    a.isDrawing_leftChars n c (List.mem_append_right _ hc)
  have htail : IsDrawing a.tail.rightChars := fun c hc =>
    a.isDrawing_chars n c (List.mem_append_right _ hc)
  refine ((hstroke.append (htail.append (isDrawing_blanks after))).keepsHints s).append
    (keepsHints_dotted right ?_)
  simpa using admitsDirection_blanks after _

/-- The first half ends in a stroke. -/
theorem getLast?_upToHint : (a.upToHint m left before).getLast? = some a.stroke.char := by
  simp [upToHint, List.replicate_succ']

variable {a m}

/-- In an arrow of the table the first dot of a stroke follows a blank or a tip. -/
theorem admitsDirection_upToHint (ha : a.meaning? ≠ none) :
    admitsDirection (a.upToHint m left before).reverse = true ↔ (a.stroke = .dotted → m ≤ 1) := by
  have hreverse : (a.upToHint m left before).reverse = List.replicate (m + 1) a.stroke.char ++
      (left.chars ++ (before.chars ++ a.head.leftChars)).reverse := by
    simp [upToHint]
  rw [hreverse]
  refine admitsDirection_run m fun hdotted => ?_
  rw [List.head?_reverse, List.getLast?_append, List.getLast?_append]
  cases hhead : a.head with
  | circle => exact absurd hhead (dotted_of_meaning? ha hdotted).1
  | triangle | angle | diamond => rfl
  | plain =>
    have hblank := before.blank _ (List.getLast_mem before.ne_nil)
    rw [List.getLast?_eq_some_getLast before.ne_nil]
    show isEdge (before.chars.getLast before.ne_nil) = true
    rw [isEdge, hblank]
    rfl

/-- A hint that is looked for is dropped. -/
theorem dropHints_hinted (ha : a.meaning? ≠ none) (hadmitted : h.Admitted a.stroke m) :
    dropHints (a.hinted m h n left right before after) =
      a.spaced (m + n + 1) left right before after := by
  rw [← upToHint_append_afterHint, dropHints]
  cases h with
  | direction w hw =>
    have hstyle := a.not_mem_hinted m n left right before after (c := '[') (by decide) (by decide)
      (by decide) (not_mem_direction hw (by decide))
    have hadmits := (admitsDirection_upToHint left before ha).2 hadmitted
    rw [dropStyles_eq_self hstyle, hinted, Hint.chars, a.keepsHints_upToHint, List.append_nil,
      dropDirections_direction hadmits hw (a.strokeFollows_afterHint n right after),
      (a.keepsHints_afterHint n right after _).eq_self]
  | style text plain _ =>
    obtain ⟨hleft, hright⟩ := a.not_mem_upToHint_and_afterHint (c := '[') m n left right before
      after (by decide) (by decide) (by decide)
    have hclose : ']' ∉ text := fun hmem => plain _ hmem (by decide)
    have hstroke : isStrokeChar a.stroke.char = true := by
      cases a.stroke <;> rfl
    rw [hinted, Hint.chars, dropStyles_append hleft, getLast?_upToHint, Option.some_or, List.cons_append,
      List.append_assoc, List.singleton_append,
      dropStyles_style hstroke hclose (a.strokeFollows_afterHint n right after),
      dropStyles_eq_self hright]
    exact ((a.keepsHints_upToHint m left before).append
      (a.keepsHints_afterHint n right after _)).eq_self

/-- A link with a hint has a name at both ends, and no blanks around it. -/
theorem trimmed_hinted : Trimmed (a.hinted m h n left right before after) := by
  have htrimmed := left.trimmed.append right.trimmed (before.chars ++ (a.head.leftChars ++
    (List.replicate (m + 1) a.stroke.char ++ (h.chars ++ (List.replicate (n + 1) a.stroke.char ++
      (a.tail.rightChars ++ after.chars))))))
  simpa only [hinted, upToHint, afterHint, List.append_assoc] using htrimmed

/-- A direction that is not looked for stays in the line, which is not read then. -/
theorem split?_hinted (ha : a.meaning? ≠ none) (hadmitted : ¬h.Admitted a.stroke m) :
    split? (trim (dropHints (a.hinted m h n left right before after))) = none := by
  cases h with
  | style => exact absurd trivial hadmitted
  | direction w hw =>
    have hstyle := a.not_mem_hinted m n left right before after (c := '[') (by decide) (by decide)
      (by decide) (not_mem_direction hw (by decide))
    have hadmits : admitsDirection ((a.upToHint m left before).reverse ++ []) = false := by
      rw [List.append_nil]
      exact Bool.eq_false_iff.2 (mt (admitsDirection_upToHint left before ha).1 hadmitted)
    have hword : ∀ c ∈ w, isWord c = true :=
      Word.isWord_of_mem ⟨w, isWordText_of_mem_directionWords w hw⟩
    have hkeeps : KeepsHints [] (a.hinted m (.direction w hw) n left right before after) :=
      (a.keepsHints_upToHint m left before).append
        ((keepsHints_word hword hadmits).append (a.keepsHints_afterHint n right after _))
    have hblank : ∀ bs : Blanks, ¬∀ c ∈ bs.chars, isDotted c = true := by
      intro bs hdotted
      obtain ⟨b, t, hbt, hb⟩ := bs.exists_cons
      have hmem := hdotted b (by simp [hbt])
      rw [isDotted_eq_false_of_isBlank hb] at hmem
      cases hmem
    obtain ⟨x, v, rfl, hx⟩ := exists_of_mem_directionWords hw
    rw [dropHints, dropStyles_eq_self hstyle, hkeeps.eq_self, (trimmed_hinted ..).trim_eq, hinted]
    refine split?_interrupted (not_drawing_of_mem x hx) (fun hdotted => hblank after fun c hc => hdotted c ?_)
      fun hdotted => hblank before fun c hc => hdotted c ?_
    · simp [afterHint, hc]
    · simp [upToHint, hc]

end Hinted

end Arrow

namespace Relationship

/-- Where nothing else is in square brackets, only the style `hidden` is the mark. -/
theorem eq_hidden_of_marked {u text v : List Char} (hu : '[' ∉ u) (hv : '[' ∉ v)
    (hopen : '[' ∉ text) (hclose : ']' ∉ text) (h : hiddenMark <:+: u ++ '[' :: (text ++ ']' :: v)) :
    text = "hidden".toList := by
  have hmark : hiddenMark = '[' :: ("hidden".toList ++ [']']) := by decide
  have hend : ']' ∉ "hidden".toList := by decide
  obtain ⟨s, t, heq⟩ := h
  rw [hmark, List.append_assoc, List.cons_append, List.append_assoc, List.singleton_append] at heq
  obtain ⟨-, -, hrest⟩ :=
    (List.append_cons_inj_of_notMem hu (by simp [hopen, hv])).1 heq.symm
  have hcut := cutAt_append hclose v
  rw [hrest, cutAt_append hend t] at hcut
  exact (Prod.mk.inj (Option.some.inj hcut)).1.symm

section Hinted

variable (a : Arrow) (m : Nat) (h : Hint) (n : Nat) (left right : Dotted) (before after : Blanks)

theorem not_marked_hinted :
    ¬hiddenMark <:+: a.hinted m h n left right before after := by
  cases h with
  | direction w hw =>
    exact not_marked_of_not_mem (a.not_mem_hinted m n left right before after (by decide)
      (by decide) (by decide) (Arrow.not_mem_direction hw (by decide)))
  | style text plain shown =>
    obtain ⟨hleft, hright⟩ := a.not_mem_upToHint_and_afterHint (c := '[') m n left right before
      after (by decide) (by decide) (by decide)
    intro hinfix
    rw [Arrow.hinted, Hint.chars, List.cons_append, List.append_assoc, List.singleton_append]
      at hinfix
    exact shown (eq_hidden_of_marked hleft hright (fun hmem => plain _ hmem (by decide))
      (fun hmem => plain _ hmem (by decide)) hinfix)

/-- A link with a hint is read by its arrow alone : it has no label and no quotation. -/
theorem read?_hinted_eq :
    read? (a.hinted m h n left right before after) =
      (Arrow.split? (trim (Arrow.dropHints (a.hinted m h n left right before after)))).bind
        fun found => ofArrow? found.1 found.2.1 found.2.2 none := by
  have hhint : ∀ c ∈ ['"', ':'], c ∉ h.chars := by
    intro c hc
    cases h with
    | direction w hw =>
      exact Arrow.not_mem_direction hw (forall_mem_of_all (p := (isWord · = false)) (by decide) c hc)
    | style text plain _ =>
      have hne : ∀ c ∈ ['"', ':'], c ≠ '[' ∧ c ≠ ']' ∧ c ∈ ['[', ']', ':', '"'] :=
        forall_mem_of_all (by decide)
      obtain ⟨hopen, hclose, hmem⟩ := hne c hc
      have htext : c ∉ text := fun htext => plain c htext hmem
      simp [Hint.chars, hopen, hclose, htext]
  exact read?_bare (not_marked_hinted a m h n left right before after)
    (a.not_mem_hinted m n left right before after (by decide) (by decide) (by decide)
      (hhint _ (by decide)))
    (a.not_mem_hinted m n left right before after (by decide) (by decide) (by decide)
      (hhint _ (by decide)))

end Hinted

/-- A hint in an arrow of the table is transparent exactly if it is looked for where it stands :
always, but for a direction after three dots or more. Otherwise the line is not read. -/
theorem read?_hinted (a : Arrow) (ha : a.meaning? ≠ none) (m n : Nat) (h : Hint)
    (left right : Dotted) (before after before' after' : Blanks) :
    (read? (a.hinted m h n left right before after) =
        read? (a.spaced (m + n + 1) left right before' after') ↔ h.Admitted a.stroke m) ∧
      (¬h.Admitted a.stroke m → read? (a.hinted m h n left right before after) = none) := by
  have hnone : ¬h.Admitted a.stroke m →
      read? (a.hinted m h n left right before after) = none := by
    intro hadmitted
    rw [read?_hinted_eq, Arrow.split?_hinted h n left right before after ha hadmitted]
    rfl
  refine ⟨⟨fun heq => ?_, fun hadmitted => ?_⟩, hnone⟩
  · by_contra hadmitted
    rw [hnone hadmitted, read?_spaced] at heq
    exact Arrow.ofArrow?_ne_none ha _ _ _ heq.symm
  · rw [read?_hinted_eq, Arrow.dropHints_hinted h n left right before after ha hadmitted,
      (a.trimmed_spaced ..).trim_eq, a.split?_spaced, read?_spaced]
    rfl

/-- The link `o.d <|..left. up.o`, or the same with more dots before the direction. -/
def turnedLink (m : Nat) : List Char :=
  Arrow.hinted ⟨.triangle, .dotted, .plain⟩ m (.direction "left".toList (by decide)) 0
    ⟨⟨"o".toList, by decide⟩, [⟨"d".toList, by decide⟩]⟩
    ⟨⟨"up".toList, by decide⟩, [⟨"o".toList, by decide⟩]⟩ .space .space

theorem read?_hinted_turned :
    Arrow.meaning? ⟨.triangle, .dotted, .plain⟩ ≠ none ∧
    turnedLink 1 = "o.d <|..left. up.o".toList ∧ turnedLink 2 = "o.d <|...left. up.o".toList ∧
    read? (turnedLink 1) =
      some { source := "o.d", target := "up.o", kind := .implementation } ∧
    read? (turnedLink 2) = none := by
  have hmeaning : Arrow.meaning? ⟨.triangle, .dotted, .plain⟩ ≠ none := by decide
  have hread (m : Nat) := read?_hinted ⟨.triangle, .dotted, .plain⟩ hmeaning m 0
    (.direction "left".toList (by decide)) ⟨⟨"o".toList, by decide⟩, [⟨"d".toList, by decide⟩]⟩
    ⟨⟨"up".toList, by decide⟩, [⟨"o".toList, by decide⟩]⟩ .space .space .space .space
  refine ⟨hmeaning, by decide, by decide, ?_, (hread 2).2 fun h => absurd (h rfl) (by decide)⟩
  exact ((hread 1).1.2 fun _ => Nat.le_refl 1).trans (read?_spaced ..)

/-- Behind three dots a direction is not dropped, and the link is lost. -/
theorem direction_misread :
    Arrow.hinted ⟨.plain, .dotted, .angle⟩ 2 (.direction "up".toList (by decide)) 0
      ⟨⟨['A'], by decide⟩, []⟩ ⟨⟨['B'], by decide⟩, []⟩ .space .space = "A ...up.> B".toList ∧
    Arrow.spaced ⟨.plain, .dotted, .angle⟩ 3 ⟨⟨['A'], by decide⟩, []⟩ ⟨⟨['B'], by decide⟩, []⟩
      .space .space = "A ....> B".toList ∧
    read? "A ...up.> B".toList = none ∧
    read? "A ....> B".toList = some { source := "A", target := "B", kind := .dependency } := by
  refine ⟨by decide, by decide, ?_, ?_⟩ <;> decide +kernel

end Relationship

end ClassSketch
