import ClassSketch.Layout.Indent
import ClassSketch.Proofs.Scan

/-!
# Lines with their steps of indentation

Code as a list of lines, each with the steps that it was moved in by. The number of
spaces per level is not part of a line. It comes in only when the lines are put into
one text : with a line feed between them (`Lines.joined`), or with one after each
(`Lines.render`).

A text is cut at its line feeds before it is moved in. So it does not matter for lines
that have no line feed in them (`Lines.Single`) whether their text is moved in or they
are, one by one (`Lines.pad_joined`). Every step has to be of a possible width, whatever
the steps add up to (`Lines.Possible`).
-/

namespace ClassSketch.Layout

/-! ## Texts -/

/-- No part of a text between two separators has a separator in it. -/
theorem not_mem_of_mem_splitOn {c : Char} {s p : List Char} (h : p ∈ s.splitOn c) : c ∉ p := by
  rw [List.splitOn_eq_splitOnP] at h
  exact fun hc => by simpa using (Text.of_mem_splitOnP h).2 c hc

/-- Cutting a text at its line feeds loses nothing. -/
theorem joinLines_splitText (s : String) : joinLines (splitText s) = s := by
  apply String.toList_inj.1
  rw [joinLines, splitText, String.toList_intercalate, List.map_map]
  simp [Function.comp_def]

/-- Texts without line feeds are found again in what they are joined to. -/
theorem splitText_joinLines {ss : List String} (hne : ss ≠ []) (h : ∀ s ∈ ss, '\n' ∉ s.toList) :
    splitText (joinLines ss) = ss := by
  have hsplit : (joinLines ss).toList.splitOn '\n' = ss.map String.toList := by
    rw [joinLines, String.toList_intercalate]
    exact List.splitOn_intercalate '\n' (List.forall_mem_map.2 h) (List.map_eq_nil_iff.not.2 hne)
  rw [splitText, hsplit, List.map_map]
  simp

theorem splitText_ne_nil (s : String) : splitText s ≠ [] :=
  List.map_eq_nil_iff.not.2 (List.splitOn_ne_nil '\n' s.toList)

/-- The line feeds of two texts, one below the other. -/
theorem splitText_append (s t : String) :
    splitText (s ++ "\n" ++ t) = splitText s ++ splitText t := by
  have hchars : (s ++ "\n" ++ t).toList = s.toList ++ '\n' :: t.toList := by simp
  rw [splitText, hchars, List.splitOn_append_cons_self, List.map_append, splitText, splitText]

/-- Line feeds after texts, and a text at the end. -/
theorem join_feed (ss : List String) (t : String) :
    String.join (ss.map (· ++ "\n")) ++ t = joinLines (ss ++ [t]) := by
  induction ss with
  | nil => simp [joinLines]
  | cons s ss ih =>
    obtain ⟨u, us, hu⟩ := List.exists_cons_of_ne_nil (List.append_ne_nil_of_right_ne_nil ss
      (List.cons_ne_nil t []))
    rw [List.map_cons, String.join_cons, String.append_assoc, ih, List.cons_append, hu, joinLines,
      joinLines, String.intercalate_cons_cons]

/-- A text with spaces before every line that is not empty. -/
def pad (width : Int) (s : String) : String :=
  joinLines ((splitText s).map (padLine width))

/-- Widths of one sign add up. -/
theorem spaces_add (j k : Nat) (size : Int) :
    spaces ((j + k : Nat) * size) = spaces (k * size) ++ spaces (j * size) := by
  have hsum : ((j + k : Nat) * size).toNat = (k * size).toNat + (j * size).toNat := by
    rcases Int.le_total 0 size with hsize | hsize
    · have hj := Int.mul_nonneg (Int.natCast_nonneg j) hsize
      have hk := Int.mul_nonneg (Int.natCast_nonneg k) hsize
      rw [Int.natCast_add, Int.add_mul]
      omega
    · have hj := Int.mul_nonpos_of_nonneg_of_nonpos (Int.natCast_nonneg j) hsize
      have hk := Int.mul_nonpos_of_nonneg_of_nonpos (Int.natCast_nonneg k) hsize
      rw [Int.natCast_add, Int.add_mul]
      omega
  rw [spaces, hsum, ← List.replicate_append_replicate, String.ofList_append]
  rfl

/-- A line that is moved in twice has the spaces of both steps, and none if it is empty. -/
theorem padLine_add (j k : Nat) (size : Int) (s : String) :
    padLine ((j + k : Nat) * size) s = padLine (k * size) (padLine (j * size) s) := by
  by_cases hs : s = ""
  · rw [hs]
    rfl
  · have hne : spaces (j * size) ++ s ≠ "" := fun h => hs (String.append_eq_empty_iff.1 h).2
    simp only [padLine, if_neg hs, if_neg hne, spaces_add, String.append_assoc]

/-- Padding puts no line feed into a line. -/
theorem not_mem_padLine {s : String} (h : '\n' ∉ s.toList) (width : Int) :
    '\n' ∉ (padLine width s).toList := by
  unfold padLine
  split
  · exact h
  · rw [spaces, String.toList_append, String.toList_ofList]
    refine List.not_mem_append (fun hmem => ?_) h
    exact absurd (List.eq_of_mem_replicate hmem) (by decide)

/-- Every text may stay where it is. -/
@[simp]
theorem Margin.fault?_zero (m : Margin) : m.fault? 0 = none := by
  refine widthFault?_eq_none_iff.2 ?_
  rw [Int.zero_mul]
  exact ⟨by decide, by decide, Int.natCast_nonneg _⟩

/-! ## Lines -/

structure Line where
  /-- The levels that the line was moved in by, the last step first. -/
  steps : List Nat := []
  text : String
deriving DecidableEq, Inhabited

abbrev Lines := List Line

def Line.level (l : Line) : Nat :=
  l.steps.foldr (· + ·) 0

def Line.render (size : Int) (l : Line) : String :=
  padLine (l.level * size) l.text

namespace Lines

/-- A text, which may itself have several lines, at the outermost level. -/
def ofText (s : String) : Lines :=
  (splitText s).map fun text => { text }

def ofTexts (ss : List String) : Lines :=
  ss.flatMap ofText

def blank : Lines :=
  [{ text := "" }]

/-- Moves lines inwards. -/
def nestBy (n : Nat) (ls : Lines) : Lines :=
  ls.map fun l => { l with steps := n :: l.steps }

def nest (ls : Lines) : Lines :=
  nestBy 1 ls

/-- Blocks with an empty line between each two. -/
def paragraphs (blocks : List Lines) : Lines :=
  blank.intercalate blocks

/-- The rendered lines in one text, with a line feed between each two. -/
def joined (size : Int) (ls : Lines) : String :=
  joinLines (ls.map (·.render size))

/-- Every line rendered, each with a line feed at its end. -/
def render (size : Int) (ls : Lines) : String :=
  String.join (ls.map fun l => l.render size ++ "\n")

/-- Every step is of a possible width. -/
def Possible (m : Margin) (ls : Lines) : Prop :=
  ∀ l ∈ ls, ∀ n ∈ l.steps, m.fault? n = none

/-- Some step has the fault. -/
def Faults (m : Margin) (f : WidthFault) (ls : Lines) : Prop :=
  ∃ l ∈ ls, ∃ n ∈ l.steps, m.fault? n = some f

/-- No line has a line feed in it. -/
def Single (ls : Lines) : Prop :=
  ∀ l ∈ ls, '\n' ∉ l.text.toList

variable {m : Margin} {f : WidthFault} {ls ms : Lines}

/-- Lines of which a step has a fault are not all of a possible width. -/
theorem Faults.not_possible (h : ls.Faults m f) : ¬ls.Possible m := by
  obtain ⟨l, hl, n, hn, hfault⟩ := h
  exact fun hpossible => by cases (hpossible l hl n hn).symm.trans hfault

theorem paragraphs_cons_cons (b c : Lines) (bs : List Lines) :
    paragraphs (b :: c :: bs) = b ++ blank ++ paragraphs (c :: bs) :=
  List.intercalate_cons_cons

@[simp]
theorem ofTexts_append (ss ts : List String) : ofTexts (ss ++ ts) = ofTexts ss ++ ofTexts ts :=
  List.flatMap_append

theorem ofText_append (s t : String) : ofText (s ++ "\n" ++ t) = ofText s ++ ofText t := by
  rw [ofText, splitText_append, List.map_append, ofText, ofText]

theorem ofText_ne_nil (s : String) : ofText s ≠ [] :=
  List.map_eq_nil_iff.not.2 (splitText_ne_nil s)

/-! ### Lines without line feeds -/

@[simp]
theorem single_nil : Single [] :=
  nofun

/-- Each line of the two blocks has one line of text. -/
@[simp]
theorem single_append : Single (ls ++ ms) ↔ ls.Single ∧ ms.Single :=
  List.forall_mem_append

@[simp]
theorem single_flatMap {α : Type} {f : α → Lines} {as : List α} :
    Single (as.flatMap f) ↔ ∀ a ∈ as, (f a).Single := by
  simp only [Single, List.mem_flatMap]
  exact ⟨fun h a ha l hl => h l ⟨a, ha, hl⟩, fun h l ⟨a, ha, hl⟩ => h a ha l hl⟩

/-- A text is cut at its line feeds, so none is left. -/
@[simp]
theorem single_ofText (s : String) : (ofText s).Single := by
  intro l hl
  obtain ⟨text, htext, rfl⟩ := List.mem_map.1 hl
  obtain ⟨p, hp, rfl⟩ := List.mem_map.1 htext
  rw [String.toList_ofList]
  exact not_mem_of_mem_splitOn hp

@[simp]
theorem single_ofTexts (ss : List String) : (ofTexts ss).Single :=
  single_flatMap.2 fun s _ => single_ofText s

@[simp]
theorem single_blank : blank.Single :=
  single_ofText ""

@[simp]
theorem single_nestBy {n : Nat} : (ls.nestBy n).Single ↔ ls.Single :=
  List.forall_mem_map

@[simp]
theorem single_nest : ls.nest.Single ↔ ls.Single :=
  single_nestBy

@[simp]
theorem single_paragraphs {bs : List Lines} : (paragraphs bs).Single ↔ Single bs.flatten := by
  induction bs with
  | nil => simp [paragraphs]
  | cons b bs ih =>
    cases bs with
    | nil => simp [paragraphs]
    | cons c cs => simp [paragraphs_cons_cons, ih]

/-! ### Lines in one text -/

/-- The text of lines one below the other. -/
theorem joined_append (hls : ls ≠ []) (hms : ms ≠ []) (size : Int) :
    (ls ++ ms).joined size = ls.joined size ++ "\n" ++ ms.joined size := by
  rw [joined, List.map_append, joinLines, String.intercalate_append_of_ne_nil
    (List.map_eq_nil_iff.not.2 hls) (List.map_eq_nil_iff.not.2 hms)]
  rfl

/-- A text that is not moved in is that of its lines. -/
theorem joined_ofText (size : Int) (s : String) : (ofText s).joined size = s := by
  have hline : ((·.render size) ∘ fun text => ({ text } : Line)) = id := by
    funext text
    simp [Line.render, Line.level, padLine, spaces]
  rw [joined, ofText, List.map_map, hline, List.map_id, joinLines_splitText]

/-- The text of lines is cut into the lines again. -/
theorem splitText_joined (size : Int) (hne : ls ≠ []) (h : ls.Single) :
    splitText (ls.joined size) = ls.map (·.render size) := by
  refine splitText_joinLines (List.map_eq_nil_iff.not.2 hne) fun s hs => ?_
  obtain ⟨l, hl, rfl⟩ := List.mem_map.1 hs
  exact not_mem_padLine (h l hl) _

/-- Nesting pads what is rendered. -/
theorem map_render_nestBy (size : Int) (k : Nat) (ls : Lines) :
    (ls.nestBy k).map (·.render size) = (ls.map (·.render size)).map (padLine (k * size)) := by
  rw [nestBy, List.map_map, List.map_map]
  refine List.map_congr_left fun l _ => ?_
  have hlevel : Line.level { l with steps := k :: l.steps } = l.level + k := by
    rw [Line.level, List.foldr_cons, Nat.add_comm, Line.level]
  rw [Function.comp_apply, Function.comp_apply, Line.render, hlevel]
  exact padLine_add l.level k size l.text

/-- Moving lines in moves their text in. -/
theorem pad_joined (size : Int) (k : Nat) (hne : ls ≠ []) (h : ls.Single) :
    pad (k * size) (ls.joined size) = (ls.nestBy k).joined size := by
  rw [pad, splitText_joined size hne h, ← map_render_nestBy]
  rfl

@[simp]
theorem render_nil (size : Int) : render size [] = "" :=
  rfl

/-- Blocks are rendered in turn. -/
theorem render_append (size : Int) (a b : Lines) :
    render size (a ++ b) = render size a ++ render size b := by
  rw [render, List.map_append, String.join_append]
  rfl

/-- A line feed at the end closes the last line. -/
theorem render_eq_joined (size : Int) (hne : ls ≠ []) :
    ls.render size = ls.joined size ++ "\n" := by
  induction ls with
  | nil => exact absurd rfl hne
  | cons l ls ih =>
    have hcons : render size (l :: ls) = l.render size ++ "\n" ++ render size ls := by
      rw [render, List.map_cons, String.join_cons, render]
    cases ls with
    | nil => simp [render, joined, joinLines]
    | cons k ks =>
      have hjoined := joined_append (List.cons_ne_nil l []) (List.cons_ne_nil k ks) size
      rw [hcons, ih (by simp), ← String.append_assoc]
      exact congrArg (· ++ "\n") hjoined.symm

end Lines

end ClassSketch.Layout
