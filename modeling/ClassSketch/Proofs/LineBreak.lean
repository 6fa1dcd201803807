import Mathlib.Data.List.Basic
import ClassSketch.Text.LineBreak

/-!
# Counting lines

`breaks` counts the line breaks of a text, and `lineNumber` is the number of the
line that a character stands on, from what stands before it. A carriage return
and a line feed that follows it are one break. So the breaks of two texts in a row
add up, less one if the first ends with a carriage return and the second starts
with a line feed (`Meets`, `breaks_append`).

A text is split into lines character by character : one more character is added to
the line of its number, or is a break and added to none (`getD_splitLines_snoc`).
-/

namespace ClassSketch.Text

/-- A carriage return at the end of the first text, a line feed at the start of the second. -/
def Meets (a b : List Char) : Prop :=
  a.getLast? = some '\r' ∧ b.head? = some '\n'

instance (a b : List Char) : Decidable (Meets a b) :=
  inferInstanceAs (Decidable (_ ∧ _))

namespace Meets

variable {a s t : List Char}

theorem append (h : Meets a s) (t : List Char) : Meets a (s ++ t) :=
  ⟨h.1, by rw [List.head?_append, h.2, Option.some_or]⟩

/-- A carriage return with no line feed after it only meets one in the text that follows. -/
theorem of_append {x : Char} (hpair : ∀ cs, x = '\r' → s = '\n' :: cs → False)
    (h : Meets [x] (s ++ t)) : x = '\r' ∧ s = [] ∧ t.head? = some '\n' := by
  obtain ⟨hreturn, hfeed⟩ := h
  have hx : x = '\r' := Option.some.inj hreturn
  cases s with
  | nil => exact ⟨hx, rfl, hfeed⟩
  | cons y s => exact (hpair s hx (by rw [Option.some.inj hfeed])).elim

end Meets

/-! ## Lines from the front -/

/-- A character that breaks no line goes to the front of the first line. -/
theorem splitLines_cons {c : Char} (hc : isLineBreak c = false) (s : List Char) :
    splitLines (c :: s) = (c :: (splitLines s).headD []) :: (splitLines s).tail := by
  rw [splitLines, if_neg (by simp [hc])]
  · cases splitLines s <;> rfl
  · rintro cs rfl -
    cases hc

/-- A break that is complete ends an empty line. -/
theorem splitLines_break {c : Char} (hc : isLineBreak c = true) {s : List Char}
    (h : ¬Meets [c] s) : splitLines (c :: s) = [] :: splitLines s := by
  rw [splitLines, if_pos hc]
  rintro cs rfl rfl
  exact h ⟨rfl, rfl⟩

theorem splitLines_ne_nil {s : List Char} (h : s ≠ []) : splitLines s ≠ [] := by
  fun_cases splitLines s with
  | case1 => exact absurd rfl h
  | case2 => exact List.cons_ne_nil _ _
  | case3 => exact List.cons_ne_nil _ _
  | case4 => exact List.cons_ne_nil _ _
  | case5 => exact List.cons_ne_nil _ _

/-- A line feed ends a line that has no break in it. -/
theorem splitLines_append {l : List Char} (h : ∀ c ∈ l, isLineBreak c = false) (s : List Char) :
    splitLines (l ++ '\n' :: s) = l :: splitLines s := by
  induction l with
  | nil => exact splitLines_break (by decide) fun hmeets => absurd hmeets.1 (by decide)
  | cons c l ih =>
    obtain ⟨hc, hl⟩ := List.forall_mem_cons.1 h
    rw [List.cons_append, splitLines_cons hc, ih hl, List.headD_cons, List.tail_cons]

/-- Without a break there is one line. -/
theorem splitLines_singleton {l : List Char} (h : ∀ c ∈ l, isLineBreak c = false) (hl : l ≠ []) :
    splitLines l = [l] := by
  induction l with
  | nil => exact absurd rfl hl
  | cons c l ih =>
    obtain ⟨hc, hrest⟩ := List.forall_mem_cons.1 h
    rw [splitLines_cons hc]
    cases l with
    | nil => rfl
    | cons d l => rw [ih hrest (List.cons_ne_nil d l), List.headD_cons, List.tail_cons]

/-! ## Breaks -/

/-- The number of line breaks in a text. -/
def breaks : List Char → Nat
  | [] => 0
  | '\r' :: '\n' :: cs => breaks cs + 1
  | c :: cs => if isLineBreak c then breaks cs + 1 else breaks cs

theorem breaks_singleton (c : Char) : breaks [c] = if isLineBreak c then 1 else 0 := by
  rw [breaks]
  · rfl
  · rintro cs - h
    cases h

/-- A first character counts on its own, unless it is one break with what follows. -/
theorem breaks_cons (c : Char) (s : List Char) :
    breaks (c :: s) + (if Meets [c] s then 1 else 0) = breaks [c] + breaks s := by
  by_cases h : Meets [c] s
  · rw [if_pos h]
    obtain ⟨hc, hs⟩ := h
    obtain rfl : c = '\r' := Option.some.inj hc
    obtain ⟨t, rfl⟩ := List.head?_eq_some_iff.1 hs
    have hfeed : breaks ('\n' :: t) = breaks t + 1 := by
      rw [breaks, if_pos (by decide)]
      simp
    rw [breaks, breaks_singleton, hfeed, if_pos (by decide)]
    omega
  · have hpair : ∀ cs, c = '\r' → s = '\n' :: cs → False := by
      rintro cs rfl rfl
      exact h ⟨rfl, rfl⟩
    rw [if_neg h, breaks.eq_3 _ _ hpair, breaks_singleton]
    split <;> omega

/-- Breaks add up, but a break whose two characters are torn apart is counted twice. -/
theorem breaks_append (a b : List Char) :
    breaks (a ++ b) + (if Meets a b then 1 else 0) = breaks a + breaks b := by
  induction a with
  | nil => simp [Meets, breaks]
  | cons c a ih =>
    cases a with
    | nil => exact breaks_cons c b
    | cons x a =>
      have hwhole := breaks_cons c (x :: a ++ b)
      have hfront := breaks_cons c (x :: a)
      have hlast : Meets (c :: x :: a) b ↔ Meets (x :: a) b := by
        rw [Meets, Meets, List.getLast?_cons_cons]
      have hhead : Meets [c] (x :: a ++ b) ↔ Meets [c] (x :: a) := Iff.rfl
      rw [List.cons_append, if_congr hlast rfl rfl]
      rw [if_congr hhead rfl rfl] at hwhole
      omega

/-- Texts that do not meet have their own breaks. -/
theorem breaks_append_of_not_meets {a b : List Char} (h : ¬Meets a b) :
    breaks (a ++ b) = breaks a + breaks b := by
  have hsum := breaks_append a b
  rwa [if_neg h] at hsum

theorem breaks_replicate (n : Nat) : breaks (List.replicate n '\n') = n := by
  induction n with
  | zero => rfl
  | succ n ih =>
    have hmeets : ¬Meets ['\n'] (List.replicate n '\n') := fun h => absurd h.1 (by decide)
    rw [List.replicate_succ, ← List.singleton_append, breaks_append_of_not_meets hmeets, ih,
      breaks_singleton, if_pos (by decide), Nat.add_comm]

/-- Every line feed ends a line. -/
theorem count_le_breaks (s : List Char) : s.count '\n' ≤ breaks s := by
  fun_induction breaks s with
  | case1 => exact Nat.le_refl 0
  | case2 cs ih => simpa using ih
  | case3 c cs _ _ ih =>
    rw [List.count_cons]
    split <;> omega
  | case4 c cs _ hc ih =>
    have hne : c ≠ '\n' := by
      rintro rfl
      exact hc (by decide)
    rwa [List.count_cons_of_ne hne]

/-! ## Line numbers -/

/-- The number of the line on which a character stands, the first being 1. -/
def lineNumber (before : List Char) (c : Char) : Nat :=
  (splitLines (before ++ [c])).length

theorem lineNumber_pos (s : List Char) (c : Char) : 0 < lineNumber s c :=
  List.length_pos_iff.2 (splitLines_ne_nil (by simp))

/-- Only a break changes the number of the line. -/
theorem lineNumber_cons {x : Char} (hx : isLineBreak x = false) (s : List Char) (c : Char) :
    lineNumber (x :: s) c = lineNumber s c := by
  have hpos := lineNumber_pos s c
  rw [lineNumber, List.cons_append, splitLines_cons hx, List.length_cons, List.length_tail]
  exact Nat.sub_add_cancel hpos

/-- There is a line for each break, and one more if something follows the last break. -/
theorem length_splitLines (s : List Char) :
    (splitLines s).length = breaks s + if s.getLast?.any (!isLineBreak ·) then 1 else 0 := by
  fun_induction breaks s with
  | case1 => rfl
  | case2 cs ih =>
    rw [splitLines, List.length_cons, ih]
    cases cs with
    | nil => rfl
    | cons c cs =>
      simp only [List.getLast?_cons_cons]
      omega
  | case3 x cs hpair hx ih =>
    rw [splitLines.eq_3 _ _ hpair, if_pos hx, List.length_cons, ih]
    cases cs with
    | nil => simp [hx]
    | cons c cs =>
      simp only [List.getLast?_cons_cons]
      omega
  | case4 x cs hpair hx ih =>
    have hx : isLineBreak x = false := by simpa using hx
    rw [splitLines_cons hx]
    cases cs with
    | nil => simp [hx, breaks, splitLines]
    | cons c cs =>
      have hne := List.length_pos_iff.2 (splitLines_ne_nil (List.cons_ne_nil c cs))
      simp only [List.getLast?_cons_cons]
      rw [← ih, List.length_cons, List.length_tail]
      omega

/-- The number of a line is that of the breaks up to it. -/
theorem lineNumber_eq (s : List Char) (c : Char) :
    lineNumber s c = breaks (s ++ [c]) + if isLineBreak c then 0 else 1 := by
  rw [lineNumber, length_splitLines, List.getLast?_concat, Option.any_some]
  cases isLineBreak c <;> rfl

/-! ## Lines from the back -/

/-- A character in front changes the first line alone. -/
theorem getD_splitLines_cons {c : Char} (hc : isLineBreak c = false) (s : List Char) (i : Nat) :
    (splitLines (c :: s)).getD i [] =
      (if i = 0 then [c] else []) ++ (splitLines s).getD i [] := by
  rw [splitLines_cons hc]
  cases i with
  | zero => cases splitLines s <;> rfl
  | succ i => cases splitLines s <;> simp

/-- A line that is over before the last character stays as it is. -/
theorem getD_snoc_of_over {s t : List Char} {c : Char}
    (hwhole : splitLines (t ++ [c]) = [] :: splitLines (s ++ [c]))
    (hfront : splitLines t = [] :: splitLines s)
    (h : ∀ i, (splitLines (s ++ [c])).getD i [] = (splitLines s).getD i [] ++
      if isLineBreak c = false ∧ lineNumber s c = i + 1 then [c] else []) (i : Nat) :
    (splitLines (t ++ [c])).getD i [] = (splitLines t).getD i [] ++
      if isLineBreak c = false ∧ lineNumber t c = i + 1 then [c] else [] := by
  have hnumber : lineNumber t c = lineNumber s c + 1 := by
    rw [lineNumber, hwhole, List.length_cons, lineNumber]
  have hpos := lineNumber_pos s c
  rw [hwhole, hfront, hnumber]
  cases i with
  | zero => simp [Nat.ne_of_gt hpos]
  | succ i => simpa using h i

/-- One more character belongs to the line of its number, unless it is a break. -/
theorem getD_splitLines_snoc (s : List Char) (c : Char) (i : Nat) :
    (splitLines (s ++ [c])).getD i [] = (splitLines s).getD i [] ++
      if isLineBreak c = false ∧ lineNumber s c = i + 1 then [c] else [] := by
  fun_induction breaks s generalizing i with
  | case1 =>
    cases hc : isLineBreak c with
    | true =>
      rw [List.nil_append, splitLines_break hc (by simp [Meets])]
      cases i <;> simp [splitLines]
    | false =>
      have hnumber : lineNumber [] c = 1 := by
        rw [lineNumber, List.nil_append, splitLines_cons hc]
        rfl
      rw [List.nil_append, getD_splitLines_cons hc, hnumber]
      cases i <;> simp [splitLines]
  | case2 cs ih =>
    refine getD_snoc_of_over ?_ ?_ ih i
    · rw [List.cons_append, List.cons_append, splitLines]
    · rw [splitLines]
  | case3 x cs hpair hx ih =>
    by_cases hmeets : Meets [x] (cs ++ [c])
    · obtain ⟨rfl, rfl, hfeed⟩ := Meets.of_append hpair hmeets
      obtain rfl : c = '\n' := Option.some.inj hfeed
      cases i <;> rfl
    · have hfront : ¬Meets [x] cs := fun h => hmeets (h.append [c])
      exact getD_snoc_of_over (splitLines_break hx hmeets) (splitLines_break hx hfront) ih i
  | case4 x cs _ hx ih =>
    have hx : isLineBreak x = false := by simpa using hx
    rw [List.cons_append, getD_splitLines_cons hx, getD_splitLines_cons hx, ih, lineNumber_cons hx,
      List.append_assoc]

/-- A line feed and a line put to the end of a text are lines of their own, with an
empty line between if the text already ended with a break. -/
theorem exists_splitLines_append_line (s : List Char) {l : List Char}
    (h : ∀ c ∈ l, isLineBreak c = false) (hl : l ≠ []) :
    ∃ n, splitLines (s ++ '\n' :: l) = splitLines s ++ List.replicate n [] ++ [l] := by
  have hline : splitLines ('\n' :: l) = [[], l] := by
    rw [splitLines_break (by decide) fun hmeets => absurd hmeets.1 (by decide),
      splitLines_singleton h hl]
  fun_induction breaks s with
  | case1 => exact ⟨1, hline⟩
  | case2 cs ih =>
    obtain ⟨n, hn⟩ := ih
    refine ⟨n, ?_⟩
    rw [List.cons_append, List.cons_append, splitLines, hn, splitLines]
    rfl
  | case3 x cs hpair hx ih =>
    by_cases hmeets : Meets [x] (cs ++ '\n' :: l)
    · obtain ⟨rfl, rfl, -⟩ := Meets.of_append hpair hmeets
      refine ⟨0, ?_⟩
      rw [List.cons_append, List.nil_append, splitLines, splitLines_singleton h hl]
      rfl
    · obtain ⟨n, hn⟩ := ih
      have hfront : ¬Meets [x] cs := fun hcs => hmeets (hcs.append _)
      refine ⟨n, ?_⟩
      rw [List.cons_append, splitLines_break hx hmeets, hn, splitLines_break hx hfront]
      rfl
  | case4 x cs _ hx ih =>
    have hx : isLineBreak x = false := by simpa using hx
    rw [List.cons_append, splitLines_cons hx, splitLines_cons hx]
    cases hcs : splitLines cs with
    | nil =>
      have hnil : cs = [] := by
        by_contra hne
        exact splitLines_ne_nil hne hcs
      rw [hnil, List.nil_append, hline]
      exact ⟨0, rfl⟩
    | cons m ms =>
      obtain ⟨n, hn⟩ := ih
      rw [hn, hcs]
      exact ⟨n, rfl⟩

end ClassSketch.Text
