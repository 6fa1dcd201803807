import ClassSketch.Proofs.Hints

/-!
# Arrows without blanks

Blanks around an arrow may be left out, but then its ends are told from the names by
their characters alone (`Arrow.glued`). Two of them are characters of names too.

A full stop belongs to a name as well as to a stroke. The longest left name is taken
that lets the rest be read, so that of a dotted stroke without a left tip only the last
dot is left (`Arrow.gluedLeft`). And a direction is looked for directly after a stroke,
so that a right name such as `d.Order` loses its first word there
(`Arrow.gluedRight`). In all other cases the blanks do not matter (`Arrow.Separates`).
-/

namespace ClassSketch

open Text Outline

namespace Arrow

/-! ## Directions at the front of a name -/

theorem head?_behind (d : Dotted) : d.behind.head?.any isWord = false := by
  obtain ⟨first, more⟩ := d
  cases more <;> rfl

/-- A stroke follows the first word of a dotted name exactly if a full stop does. -/
theorem strokeFollows_behind {d : Dotted} : strokeFollows d.behind = true ↔ d.more ≠ [] := by
  obtain ⟨first, more⟩ := d
  cases more <;> simp [Dotted.behind, strokeFollows, isStrokeChar]

/-- The first word of a name is taken for a direction if one is looked for and a full stop
follows it. -/
theorem dropDirections_dotted (d : Dotted) (before : List Char) :
    dropDirections before d.chars =
      if admitsDirection before = true ∧ d.more ≠ [] ∧ d.first.chars ∈ directionWords then d.behind
      else d.chars := by
  have hchars : d.chars = d.first.chars ++ d.behind := rfl
  split
  · next h =>
    obtain ⟨hadmits, hmore, hfirst⟩ := h
    rw [hchars, dropDirections_direction hadmits hfirst (strokeFollows_behind.2 hmore),
      (keepsHints_behind d before).eq_self]
  · next h =>
    by_cases hadmits : admitsDirection before = true
    · have hnone : direction? d.chars = none := by
        cases hsome : direction? d.chars with
        | none => rfl
        | some found =>
          obtain ⟨w, rest⟩ := found
          obtain ⟨heq, hw, hrest⟩ := direction?_eq_some_iff.1 hsome
          have hsplit := d.first.takeSome_append (head?_behind d)
          rw [← hchars, heq, takeSome_directionWord hw hrest] at hsplit
          cases hsplit
          exact absurd ⟨hadmits, strokeFollows_behind.1 hrest, hw⟩ h
      -- the first letter stays, and behind a letter no direction is looked for
      obtain ⟨c, w, hcw⟩ := List.exists_cons_of_ne_nil d.first.chars_ne_nil
      have hword : ∀ x ∈ c :: w, isWord x = true := hcw ▸ d.first.isWord_of_mem
      obtain ⟨hc, hw⟩ := List.forall_mem_cons.1 hword
      have hbehind := keepsHints_behind d before
      rw [hcw, List.reverse_cons, List.append_assoc] at hbehind
      have hkeeps := (keepsHints_word hw (admitsDirection_word hc before).1).append hbehind
      rw [hchars, hcw, List.cons_append] at hnone ⊢
      rw [dropDirections, if_pos hadmits]
      split
      · next hsome =>
        rw [hnone] at hsome
        cases hsome
      · rw [hkeeps.eq_self]
    · exact (keepsHints_dotted d (Bool.eq_false_iff.2 hadmits)).eq_self

variable {a : Arrow} {n : Nat}

/-- A direction is looked for behind an arrow that ends with its stroke, unless this is a run of
three dots or more. -/
theorem admitsDirection_chars (ha : a.meaning? ≠ none) (s : List Char) :
    admitsDirection ((a.chars n).reverse ++ s) = true ↔
      a.tail = .plain ∧ (a.stroke = .dotted → n ≤ 1) := by
  have hreverse : (a.chars n).reverse ++ s = a.tail.rightChars.reverse ++
      (List.replicate (n + 1) a.stroke.char ++ (a.head.leftChars.reverse ++ s)) := by
    simp [chars]
  rw [hreverse]
  cases htail : a.tail with
  | plain =>
    refine (admitsDirection_run n fun hdotted => ?_).trans ⟨fun h => ⟨rfl, h⟩, fun h => h.2⟩
    obtain ⟨hcircle, hplain⟩ := dotted_of_meaning? ha hdotted
    cases hhead : a.head with
    | plain => exact absurd htail (hplain.1 hhead)
    | circle => exact absurd hhead hcircle
    | triangle | angle | diamond => rfl
  | triangle | angle | diamond | circle =>
    refine iff_of_false ?_ fun h => by cases h.1
    rw [Bool.not_eq_true]
    exact admitsDirection_cons (by decide) (by decide) _

/-! ## Reading the line -/

section Text

variable {r : List Char} (hr : isDottedText r = true)

include hr

theorem rightName?_dotted : rightName? r = some r := by
  have htrim := trimStart_eq_self (trimmed_of_isDottedText hr).startsBlank_eq
  rw [rightName?, htrim, if_pos hr]

/-- No right tip is found at the front of a name, not even a circle. -/
theorem tippedName?_dotted : tippedName? r = none := by
  obtain ⟨hne, hdotted⟩ := isDottedText_iff.1 hr
  unfold tippedName?
  split
  · exact absurd (hdotted _ List.mem_cons_self) (by decide)
  · exact absurd (hdotted _ List.mem_cons_self) (by decide)
  · exact absurd (hdotted _ List.mem_cons_self) (by decide)
  · next s =>
    cases s with
    | nil => rfl
    | cons c s => exact if_pos (hdotted c (by simp))
  · rfl

/-- A tip and the name behind it are told apart, unless the tip is a circle, which is a letter. -/
theorem tailAndName?_glued {tip : Tip} (htip : tip ≠ .circle) :
    tailAndName? (tip.rightChars ++ r) = some (tip, r) := by
  have hname := rightName?_dotted hr
  cases tip with
  | circle => exact absurd rfl htip
  | plain =>
    rw [Tip.rightChars, List.nil_append, tailAndName?, tippedName?_dotted hr, hname]
    rfl
  | triangle | angle | diamond =>
    simp only [Tip.rightChars, tailAndName?, tippedName?, List.cons_append, List.nil_append, hname]
    rfl

variable (hhead : a.head ≠ .circle) (htail : a.tail ≠ .circle)
  (hdot : a.stroke = .dotted → r.head? ≠ some '.')

include hhead htail hdot

/-- Behind the left name, the arrow is read up to the right name. -/
theorem afterLeft?_glued : afterLeft? (a.chars n ++ r) = some (a, r) := by
  have htrimmed : Trimmed (a.chars n ++ r) := by
    have h := (a.trimmed_chars n).append (trimmed_of_isDottedText hr) []
    rwa [List.append_nil] at h
  have hblank : (a.chars n ++ r).head?.any isBlank = false := htrimmed.startsBlank_eq
  have htrim : trimStart (a.chars n ++ r) = a.chars n ++ r := trimStart_eq_self hblank
  have hend : (a.tail.rightChars ++ r).head? ≠ some a.stroke.char := by
    obtain ⟨hne, hdotted⟩ := isDottedText_iff.1 hr
    cases htip : a.tail with
    | triangle | angle | diamond | circle => cases a.stroke <;> simp [Tip.rightChars, Stroke.char]
    | plain =>
      cases hstroke : a.stroke with
      | dotted => exact hdot hstroke
      | solid => exact fun h => absurd (hdotted _ (List.mem_of_head? h)) (by decide)
  obtain ⟨l, hl⟩ := strokes_replicate n hend
  have hcircle : a.head = .circle → false = true := fun h => absurd h hhead
  simp only [afterLeft?, hblank, htrim, headTip_chars a n r hcircle, hl, List.findSome?_cons,
    tailAndName?_glued hr htail]
  rfl

/-- A tip or a dash ends the left name, and then the arrow is found as it is. -/
theorem split?_glued_of_tip (left : Dotted) (h : a.head = .plain → a.stroke = .solid) :
    split? (left.chars ++ (a.chars n ++ r)) = some (left.chars, a, r) := by
  have hrest : nameRests (a.chars n ++ r) = [] := by
    refine nameRests_eq_nil ?_
    cases hfirst : a.head with
    | circle => exact absurd hfirst hhead
    | plain =>
      rw [chars, hfirst, h hfirst]
      rfl
    | triangle | angle | diamond =>
      rw [chars, hfirst]
      rfl
  obtain ⟨l, hl⟩ := reverse_nameRests (a.chars n ++ r) left.isDottedText_chars
  rw [hrest] at hl
  simp only [split?, hl, List.reverse_nil, List.nil_append, List.findSome?_cons,
    afterLeft?_glued hr hhead htail hdot, Option.map_some, before_append]

/-- Without a left tip the left name takes all dots of the stroke but the last. -/
theorem split?_glued_of_dots (left : Dotted) (hplain : a.head = .plain)
    (hstroke : a.stroke = .dotted) (htip : a.tail = .triangle ∨ a.tail = .angle) :
    split? (left.chars ++ (a.chars n ++ r)) = some (left.chars ++ List.replicate n '.', a, r) := by
  have hchars : ∀ k, a.chars k = List.replicate k '.' ++ '.' :: a.tail.rightChars := by
    intro k
    rw [chars, hplain, hstroke, List.replicate_succ', Tip.leftChars, List.nil_append,
      List.append_assoc]
    rfl
  have hleft : isDottedText (left.chars ++ List.replicate n '.') = true := by
    refine isDottedText_iff.2 ⟨by simp [left.chars_ne_nil], List.forall_mem_append.2
      ⟨left.isDotted_of_mem, fun c hc => ?_⟩⟩
    rw [List.eq_of_mem_replicate hc]
    rfl
  have hrests : nameRests ('.' :: (a.tail.rightChars ++ r)) = [a.tail.rightChars ++ r] := by
    rcases htip with htip | htip <;> rw [htip] <;> rfl
  -- without a dot for the stroke nothing is read
  have hnone : afterLeft? (a.tail.rightChars ++ r) = none := by
    rcases htip with htip | htip <;> rw [htip] <;> rfl
  have hsome : afterLeft? ('.' :: (a.tail.rightChars ++ r)) = some (a, r) := by
    have h := afterLeft?_glued (n := 0) hr hhead htail hdot
    rwa [hchars] at h
  obtain ⟨l, hl⟩ := reverse_nameRests ('.' :: (a.tail.rightChars ++ r)) hleft
  have hline : left.chars ++ (a.chars n ++ r) =
      left.chars ++ List.replicate n '.' ++ '.' :: (a.tail.rightChars ++ r) := by
    simp [hchars]
  rw [hrests] at hl
  simp only [split?, hline, hl, List.reverse_singleton, List.singleton_append, List.findSome?_cons,
    hnone, hsome, Option.map_none, Option.map_some, before_append]

end Text

/-! ## Names as they are read -/

section Names

variable (a n) (left right : Dotted)

/-- An arrow between two names, without blanks. -/
def glued : List Char :=
  left.chars ++ (a.chars n ++ right.chars)

/-- The left name with the dots that are taken for its own. -/
def gluedLeft : List Char :=
  match a.head, a.stroke with
  | .plain, .dotted => left.chars ++ List.replicate n '.'
  | _, _ => left.chars

/-- The first word of the right name is read as a direction. -/
def SeesDirection : Prop :=
  (a.tail = .plain ∧ (a.stroke = .dotted → n ≤ 1)) ∧ right.more ≠ [] ∧
    right.first.chars ∈ directionWords

instance : Decidable (a.SeesDirection n right) :=
  inferInstanceAs (Decidable ((_ ∧ _) ∧ _ ∧ _))

/-- The right name without a direction; the dot after this goes to a dotted stroke. -/
def gluedRight : List Char :=
  if a.SeesDirection n right then
    match a.stroke with
    | .solid => right.behind
    | .dotted => right.behind.tail
  else right.chars

/-- The stroke ends neither in the left name nor before a direction. -/
structure Separates : Prop where
  left : a.head = .plain → a.stroke = .dotted → n = 0
  right : ¬a.SeesDirection n right

variable {a n}

/-- A glued link has only names and the signs of arrows in it. -/
theorem not_mem_glued {c : Char} (hdotted : isDotted c = false) (hsigns : c ∉ signs) :
    c ∉ a.glued n left right := by
  have harrow : c ∉ a.chars n := fun h => hsigns (a.mem_signs n c h)
  simp [glued, left.not_mem hdotted, harrow, right.not_mem hdotted]

/-- A dotted stroke is drawn into the left name only if no tip is in between. -/
theorem gluedLeft_of_tip (h : a.head = .plain → a.stroke = .solid) :
    a.gluedLeft n left = left.chars := by
  unfold gluedLeft
  split
  · next hplain hdotted =>
    rw [h hplain] at hdotted
    cases hdotted
  · rfl

/-- The only thing that can be taken for a hint is the first word of the right name. -/
theorem dropHints_glued (ha : a.meaning? ≠ none) : dropHints (a.glued n left right) =
    left.chars ++ (a.chars n ++ if a.SeesDirection n right then right.behind else right.chars) := by
  have hstyle : '[' ∉ a.glued n left right := not_mem_glued left right (by decide) (by decide)
  have hsees : (admitsDirection ((a.chars n).reverse ++ (left.chars.reverse ++ [])) = true ∧
      right.more ≠ [] ∧ right.first.chars ∈ directionWords) ↔ a.SeesDirection n right :=
    and_congr_left fun _ => admitsDirection_chars ha _
  rw [dropHints, dropStyles_eq_self hstyle, glued, keepsHints_dotted left rfl,
    (a.isDrawing_chars n).keepsHints, dropDirections_dotted, if_congr hsees rfl rfl]

/-- What stands behind the first word of a longer name starts with a full stop. -/
theorem isDottedText_behind (hmore : right.more ≠ []) :
    isDottedText right.behind = true ∧ ∃ d : Dotted, right.behind = '.' :: d.chars := by
  obtain ⟨first, more⟩ := right
  cases more with
  | nil => exact absurd rfl hmore
  | cons w ws =>
    refine ⟨isDottedText_iff.2 ⟨List.cons_ne_nil _ _, ?_⟩, ⟨w, ws⟩, rfl⟩
    exact List.forall_mem_cons.2 ⟨by decide, (⟨w, ws⟩ : Dotted).isDotted_of_mem⟩

theorem head?_dotted : right.chars.head? ≠ some '.' := by
  obtain ⟨c, w, hcw⟩ := List.exists_cons_of_ne_nil right.first.chars_ne_nil
  have hword := right.first.isWord_of_mem c (by simp [hcw])
  rw [Dotted.chars, hcw]
  rintro ⟨⟩
  cases hword

section Read

variable (ha : a.meaning? ≠ none) (hhead : a.head ≠ .circle) (htail : a.tail ≠ .circle)

include ha hhead htail

/-- A glued link is split behind the left name, which may have taken dots from the stroke. -/
theorem split?_glued {r : List Char} (hr : isDottedText r = true)
    (hdot : a.stroke = .dotted → r.head? ≠ some '.') :
    split? (left.chars ++ (a.chars n ++ r)) = some (a.gluedLeft n left, a, r) := by
  by_cases htip : a.head = .plain → a.stroke = .solid
  · rw [gluedLeft_of_tip left htip, split?_glued_of_tip hr hhead htail hdot left htip]
  · obtain ⟨hplain, hsolid⟩ := Classical.not_imp.1 htip
    have hdotted : a.stroke = .dotted := by
      cases hstroke : a.stroke with
      | solid => exact absurd hstroke hsolid
      | dotted => rfl
    have hright : a.tail = .triangle ∨ a.tail = .angle := by
      obtain ⟨head, stroke, tail⟩ := a
      obtain rfl : head = .plain := hplain
      obtain rfl : stroke = .dotted := hdotted
      revert ha
      cases tail <;> decide
    rw [gluedLeft, hplain, hdotted,
      split?_glued_of_dots hr hhead htail hdot left hplain hdotted hright]

/-- The arrow is found as it is, between the names as they are read. -/
theorem split?_dropHints_glued : split? (trim (dropHints (a.glued n left right))) =
    some (a.gluedLeft n left, a, a.gluedRight n right) := by
  have hsplit {k : Nat} {r : List Char} := split?_glued (n := k) (r := r) left ha hhead htail
  have htrim {r : List Char} (hr : isDottedText r = true) :
      trim (left.chars ++ (a.chars n ++ r)) = left.chars ++ (a.chars n ++ r) := by
    have h := (left.trimmed.append (trimmed_of_isDottedText hr) (a.chars n)).trim_eq
    rwa [List.append_assoc] at h
  rw [dropHints_glued left right ha, gluedRight]
  by_cases hsees : a.SeesDirection n right
  · obtain ⟨⟨hplain, -⟩, hmore, -⟩ := id hsees
    obtain ⟨hdotted, d, hd⟩ := isDottedText_behind right hmore
    rw [if_pos hsees, if_pos hsees, htrim hdotted]
    cases hstroke : a.stroke with
    | solid => exact hsplit hdotted fun h => by rw [hstroke] at h; cases h
    | dotted =>
      -- the stroke takes the full stop behind the direction
      have hline : a.chars n ++ right.behind = a.chars (n + 1) ++ d.chars := by
        rw [hd, chars, chars, hplain, hstroke, List.replicate_succ' (n := n + 1)]
        simp [Tip.rightChars, Stroke.char]
      have htip : a.head = .plain → a.stroke = .solid := fun hhead =>
        absurd hplain ((dotted_of_meaning? ha hstroke).2.1 hhead)
      rw [hline, hsplit d.isDottedText_chars fun _ => head?_dotted d, gluedLeft_of_tip left htip,
        gluedLeft_of_tip left htip, hd]
      rfl
  · rw [if_neg hsees, if_neg hsees, htrim right.isDottedText_chars,
      hsplit right.isDottedText_chars fun _ => head?_dotted right]

end Read

/-- The left name is read as it is written exactly if the stroke leaves it alone. -/
theorem gluedLeft_eq_iff :
    a.gluedLeft n left = left.chars ↔ (a.head = .plain → a.stroke = .dotted → n = 0) := by
  unfold gluedLeft
  split
  · next hplain hdotted => simp [hplain, hdotted]
  · next h => exact iff_of_true rfl fun hplain hdotted => absurd hdotted (h hplain)

/-- The name that is read is shorter. -/
theorem gluedRight_eq_iff : a.gluedRight n right = right.chars ↔ ¬a.SeesDirection n right := by
  refine ⟨fun heq hsees => ?_, fun hsees => if_neg hsees⟩
  have hlength : (a.gluedRight n right).length ≤ right.behind.length := by
    rw [gluedRight, if_pos hsees]
    cases a.stroke with
    | solid => exact Nat.le_refl _
    | dotted => exact right.behind.tail_suffix.length_le
  have hfirst := List.length_pos_iff.2 right.first.chars_ne_nil
  have hchars : right.chars.length = right.first.chars.length + right.behind.length :=
    List.length_append
  rw [heq] at hlength
  omega

end Names

/-- A relationship tells the names that it was read from. -/
theorem ofArrow?_inj (ha : a.meaning? ≠ none) {left right left' right' : List Char}
    {label : Option String} : Relationship.ofArrow? left a right label =
      Relationship.ofArrow? left' a right' label ↔ left = left' ∧ right = right' := by
  obtain ⟨⟨kind, direction⟩, hmeaning⟩ := Option.ne_none_iff_exists'.1 ha
  rw [Relationship.ofArrow?, Relationship.ofArrow?, hmeaning]
  cases direction <;> simp [String.ofList_inj, and_comm]

end Arrow

namespace Relationship

/-- Without blanks the arrow is still read, between the names that it leaves. The line means what
it means with blanks exactly if no dot of the stroke can belong to the left name and no direction
to the right one. -/
theorem read?_glued (a : Arrow) (ha : a.meaning? ≠ none) (hhead : a.head ≠ .circle)
    (htail : a.tail ≠ .circle) (n : Nat) (left right : Dotted) :
    read? (a.glued n left right) =
        ofArrow? (a.gluedLeft n left) a (a.gluedRight n right) none ∧
      (read? (a.glued n left right) = read? (a.spaced n left right .space .space) ↔
        a.Separates n right) := by
  have hmem {c : Char} := Arrow.not_mem_glued (a := a) (n := n) (c := c) left right
  have hread : read? (a.glued n left right) =
      ofArrow? (a.gluedLeft n left) a (a.gluedRight n right) none := by
    rw [read?_bare (not_marked_of_not_mem (hmem (by decide) (by decide)))
      (hmem (by decide) (by decide)) (hmem (by decide) (by decide)),
      Arrow.split?_dropHints_glued left right ha hhead htail]
    rfl
  refine ⟨hread, ?_⟩
  rw [hread, read?_spaced, Arrow.ofArrow?_inj ha, Arrow.gluedLeft_eq_iff, Arrow.gluedRight_eq_iff]
  exact ⟨fun h => ⟨h.1, h.2⟩, fun h => ⟨h.left, h.right⟩⟩

/-- The link `o.d<..d.o`, or the same with more dots. -/
def tightLink (n : Nat) : List Char :=
  Arrow.glued ⟨.angle, .dotted, .plain⟩ n ⟨⟨['o'], rfl⟩, [⟨['d'], rfl⟩]⟩ ⟨⟨['d'], rfl⟩, [⟨['o'], rfl⟩]⟩

/-- Behind three dots no direction is looked for, so that the right name stays whole. -/
theorem read?_glued_tight :
    (Arrow.meaning? ⟨.angle, .dotted, .plain⟩ ≠ none ∧ Tip.angle ≠ .circle ∧ Tip.plain ≠ .circle) ∧
    tightLink 1 = "o.d<..d.o".toList ∧ tightLink 2 = "o.d<...d.o".toList ∧
    read? (tightLink 1) = some { source := "o", target := "o.d", kind := .dependency } ∧
    read? (tightLink 2) = some { source := "d.o", target := "o.d", kind := .dependency } ∧
    read? (tightLink 2) = read? "o.d <... d.o".toList := by
  have hmeaning : Arrow.meaning? ⟨.angle, .dotted, .plain⟩ ≠ none := by decide
  have hread (n : Nat) := read?_glued ⟨.angle, .dotted, .plain⟩ hmeaning (by decide) (by decide) n
    ⟨⟨['o'], rfl⟩, [⟨['d'], rfl⟩]⟩ ⟨⟨['d'], rfl⟩, [⟨['o'], rfl⟩]⟩
  refine ⟨⟨hmeaning, by decide, by decide⟩, by decide, by decide, (hread 1).1.trans (by decide),
    (hread 2).1.trans (by decide), (hread 2).2.2 ⟨fun h => ?_, fun h => ?_⟩⟩
  · cases h
  · exact absurd (h.1.2 rfl) (by decide)

def nameA : Dotted := ⟨⟨['A'], by decide⟩, []⟩

def nameB : Dotted := ⟨⟨['B'], by decide⟩, []⟩

/-- The name `d.B`, whose first word is a direction. -/
def nameDB : Dotted := ⟨⟨['d'], rfl⟩, [nameB.first]⟩

/-- A name takes a dot of the stroke, or loses a word that reads as a direction. -/
theorem blanks_matter :
    (Arrow.glued ⟨.plain, .dotted, .angle⟩ 1 nameA nameB = "A..>B".toList ∧
      Arrow.spaced ⟨.plain, .dotted, .angle⟩ 1 nameA nameB .space .space = "A ..> B".toList ∧
      read? "A..>B".toList = some { source := "A.", target := "B", kind := .dependency } ∧
      read? "A ..> B".toList = some { source := "A", target := "B", kind := .dependency }) ∧
    Arrow.glued ⟨.plain, .solid, .plain⟩ 1 nameA nameDB = "A--d.B".toList ∧
    Arrow.spaced ⟨.plain, .solid, .plain⟩ 1 nameA nameDB .space .space = "A -- d.B".toList ∧
    read? "A--d.B".toList = some { source := "A", target := ".B", kind := .association } ∧
    read? "A -- d.B".toList = some { source := "A", target := "d.B", kind := .association } := by
  refine ⟨⟨by decide, by decide, ?_, ?_⟩, by decide, by decide, ?_, ?_⟩ <;> decide +kernel

end Relationship

end ClassSketch
