import Mathlib.Data.List.Forall2
import ClassSketch.Proofs.Lines.Basic
import ClassSketch.Target.Basic

/-!
# Spliced texts and the lines that they spell

An emitter puts a text together from parts that were moved in before, and moves the
whole in again. `Spells` ties such a text to lines that know nothing of the margin : if
it could be put together, then all steps of the lines are possible and the text is
that of the lines, and otherwise the fault is that of one of their steps.

There is a lemma for each way of putting texts together : one below the other
(`Spells.append`, `spells_stack`), with empty lines in between (`spells_paragraphs`),
moved in (`Spells.indent`), and in a block (`Target.spells_bracedText`,
`Target.spells_enclosedText`). `Writes` does the same for whole parts of a file, which
end in a line feed.
-/

namespace ClassSketch

namespace Layout

open Lines

/-! ## Spelling -/

/-- The text, if it could be put together, is that of the lines. -/
structure Spells (m : Margin) (r : Spliced) (ls : Lines) : Prop where
  ne_nil : ls ≠ []
  single : ls.Single
  text_eq {text : String} : r = .ok text → ls.Possible m ∧ text = ls.joined m.size
  fault {f : WidthFault} : r = .error f → ls.Faults m f

section Spells

variable {m : Margin} {r s : Spliced} {ls ms : Lines}

theorem possible_of_steps_nil (h : ∀ l ∈ ls, l.steps = []) : ls.Possible m :=
  fun l hl n hn => by simp [h l hl] at hn

theorem possible_ofText (s : String) : (ofText s).Possible m := by
  refine possible_of_steps_nil fun l hl => ?_
  obtain ⟨text, -, rfl⟩ := List.mem_map.1 hl
  rfl

/-- A text that is not moved in. -/
theorem spells_ok (s : String) : Spells m (.ok s) (ofText s) where
  ne_nil := ofText_ne_nil s
  single := single_ofText s
  text_eq := by
    rintro _ ⟨⟩
    exact ⟨possible_ofText s, (joined_ofText m.size s).symm⟩
  fault := nofun

/-- One text below another. -/
theorem Spells.append (hr : Spells m r ls) (hs : Spells m s ms) :
    Spells m (do let a ← r; let b ← s; return a ++ "\n" ++ b) (ls ++ ms) where
  ne_nil := List.append_ne_nil_of_left_ne_nil hr.ne_nil ms
  single := single_append.2 ⟨hr.single, hs.single⟩
  text_eq := by
    intro text h
    cases r with
    | error f => cases h
    | ok a =>
      cases s with
      | error f => cases h
      | ok b =>
        cases h
        obtain ⟨hls, ha⟩ := hr.text_eq rfl
        obtain ⟨hms, hb⟩ := hs.text_eq rfl
        refine ⟨fun l hl => (List.mem_append.1 hl).elim (hls l) (hms l), ?_⟩
        rw [joined_append hr.ne_nil hs.ne_nil, ha, hb]
  fault := by
    intro f h
    cases r with
    | error g =>
      cases h
      obtain ⟨l, hl, hn⟩ := hr.fault rfl
      exact ⟨l, List.mem_append_left ms hl, hn⟩
    | ok a =>
      cases s with
      | ok b => cases h
      | error g =>
        cases h
        obtain ⟨l, hl, hn⟩ := hs.fault rfl
        exact ⟨l, List.mem_append_right ls hl, hn⟩

/-- A text that is moved in. The steps inside are made before. -/
theorem Spells.indent (h : Spells m r ls) (k : Nat) :
    Spells m (do let a ← r; m.indent k a) (ls.nestBy k) where
  ne_nil := List.map_eq_nil_iff.not.2 h.ne_nil
  single := single_nestBy.2 h.single
  text_eq := by
    intro text htext
    cases r with
    | error f => cases htext
    | ok a =>
      obtain ⟨hpossible, rfl⟩ := h.text_eq rfl
      change m.indent k (ls.joined m.size) = .ok text at htext
      unfold Margin.indent at htext
      split at htext
      · cases htext
      · next hstep =>
        cases htext
        refine ⟨fun l hl n hn => ?_, pad_joined m.size k h.ne_nil h.single⟩
        obtain ⟨inner, hinner, rfl⟩ := List.mem_map.1 hl
        rcases List.mem_cons.1 hn with rfl | hn
        · exact hstep
        · exact hpossible inner hinner n hn
  fault := by
    intro f hf
    cases r with
    | error g =>
      cases hf
      obtain ⟨l, hl, n, hn, hfault⟩ := h.fault rfl
      exact ⟨_, List.mem_map_of_mem hl, n, List.mem_cons_of_mem k hn, hfault⟩
    | ok a =>
      change m.indent k a = .error f at hf
      unfold Margin.indent at hf
      split at hf
      · next g hstep =>
        cases hf
        obtain ⟨l, rest, rfl⟩ := List.exists_cons_of_ne_nil h.ne_nil
        exact ⟨_, List.mem_cons_self, k, List.mem_cons_self, hstep⟩
      · cases hf

/-- A text that is moved in only under a condition. -/
theorem Spells.indentIf (h : Spells m r ls) (p : Bool) :
    Spells m (do let a ← r; (if p then m.indent 1 a else .ok a)) (if p then ls.nest else ls) := by
  cases p with
  | true => exact h.indent 1
  | false => cases r <;> exact h

/-! ### Several texts -/

/-- Texts one below the other. -/
def stack (parts : List Spliced) : Spliced :=
  joinLines <$> parts.mapM id

/-- Texts with an empty line between each two. -/
def spread (parts : List Spliced) : Spliced :=
  ("\n\n".intercalate ·) <$> parts.mapM id

theorem stack_cons_cons (r s : Spliced) (parts : List Spliced) :
    stack (r :: s :: parts) = (do let a ← r; let b ← stack (s :: parts); return a ++ "\n" ++ b) := by
  unfold stack
  rw [List.mapM_cons, List.mapM_cons]
  cases r with
  | error f => rfl
  | ok a =>
    cases s with
    | error f => rfl
    | ok b =>
      cases parts.mapM id with
      | error f => rfl
      | ok rest => exact congrArg Except.ok String.intercalate_cons_cons

theorem spread_cons_cons (r s : Spliced) (parts : List Spliced) :
    spread (r :: s :: parts) =
      (do let a ← r; let b ← spread (s :: parts); return a ++ "\n" ++ ("" ++ "\n" ++ b)) := by
  unfold spread
  rw [List.mapM_cons, List.mapM_cons]
  cases r with
  | error f => rfl
  | ok a =>
    cases s with
    | error f => rfl
    | ok b =>
      cases parts.mapM id with
      | error f => rfl
      | ok rest =>
        refine congrArg Except.ok (String.intercalate_cons_cons.trans ?_)
        rw [String.append_assoc, String.append_assoc]
        rfl

/-- Texts that are joined by line feeds are lines in turn. -/
theorem spells_stack {parts : List Spliced} {lss : List Lines}
    (h : List.Forall₂ (Spells m) parts lss) (hne : parts ≠ []) :
    Spells m (stack parts) lss.flatten := by
  induction h with
  | nil => exact absurd rfl hne
  | @cons r ls parts lss hr hparts ih =>
    cases hparts with
    | nil =>
      rw [List.flatten_singleton]
      cases r <;> simpa [stack, joinLines] using hr
    | cons hs hrest =>
      rw [stack_cons_cons, List.flatten_cons]
      exact hr.append (ih (List.cons_ne_nil _ _))

/-- Texts that are joined by blank lines are paragraphs. -/
theorem spells_spread {parts : List Spliced} {lss : List Lines}
    (h : List.Forall₂ (Spells m) parts lss) (hne : parts ≠ []) :
    Spells m (spread parts) (paragraphs lss) := by
  induction h with
  | nil => exact absurd rfl hne
  | @cons r ls parts lss hr hparts ih =>
    cases hparts with
    | nil => cases r <;> simpa [spread, paragraphs] using hr
    | cons hs hrest =>
      have hbelow := ih (List.cons_ne_nil _ _)
      rw [spread_cons_cons, paragraphs_cons_cons, List.append_assoc]
      generalize spread _ = below at hbelow ⊢
      have hspells := hr.append ((spells_ok "").append hbelow)
      cases below <;> exact hspells

/-- Texts that are made one by one. -/
theorem spells_map {α : Type} {f : α → Spliced} {g : α → Lines} {as : List α}
    (h : ∀ a ∈ as, Spells m (f a) (g a)) : List.Forall₂ (Spells m) (as.map f) (as.map g) := by
  rw [List.forall₂_map_left_iff, List.forall₂_map_right_iff, List.forall₂_same]
  exact h

/-- Texts that are made one by one, one below the other. -/
theorem spells_mapM {α : Type} {f : α → Spliced} {g : α → Lines} {as : List α}
    (h : ∀ a ∈ as, Spells m (f a) (g a)) (hne : as ≠ []) :
    Spells m (do let texts ← as.mapM f; return joinLines texts) (as.flatMap g) := by
  have hspells := spells_stack (spells_map h) (List.map_eq_nil_iff.not.2 hne)
  rw [stack, List.mapM_map, ← List.flatMap_def] at hspells
  cases htexts : as.mapM f <;> exact htexts ▸ hspells

/-- Texts one below the other that are not moved in. -/
theorem spells_joinLines {texts : List String} (hne : texts ≠ []) :
    Spells m (.ok (joinLines texts)) (ofTexts texts) := by
  have hspells := spells_mapM (m := m) (fun s (_ : s ∈ texts) => spells_ok s) hne
  have hok : texts.mapM Except.ok = (.ok texts : Except WidthFault (List String)) :=
    List.mapM_pure.trans (congrArg Except.ok (List.map_id texts))
  rw [hok] at hspells
  exact hspells

/-- A text below others, if there are any. -/
theorem Spells.below (h : Spells m r ls) (above : List String) :
    Spells m (do let a ← r; return joinLines (above ++ [a])) (ofTexts above ++ ls) := by
  cases above with
  | nil => cases r <;> simpa [joinLines, ofTexts] using h
  | cons s ss =>
    have hspells := (spells_joinLines (List.cons_ne_nil s ss)).append h
    cases r with
    | error f => exact hspells
    | ok a =>
      have hjoin : joinLines (s :: ss ++ [a]) = joinLines (s :: ss) ++ "\n" ++ a := by
        rw [joinLines, String.intercalate_append_of_ne_nil (by simp) (by simp),
          String.intercalate_singleton]
        rfl
      change Spells m (.ok (joinLines (s :: ss ++ [a]))) _
      rw [hjoin]
      exact hspells

/-- A text between two others. -/
theorem Spells.enclosed (h : Spells m r ls) (above below : String) :
    Spells m (do let a ← r; return above ++ "\n" ++ a ++ "\n" ++ below)
      (ofText above ++ ls ++ ofText below) := by
  have hspells := ((spells_ok above).append h).append (spells_ok below)
  cases r <;> exact hspells

/-- A text between others. -/
theorem Spells.between (h : Spells m r ls) (above : List String) {below : List String}
    (hbelow : below ≠ []) :
    Spells m (do let a ← r; return joinLines (above ++ [a] ++ below))
      (ofTexts above ++ ls ++ ofTexts below) := by
  have hspells := (h.below above).append (spells_joinLines hbelow)
  cases r with
  | error f => exact hspells
  | ok a =>
    have hjoin : joinLines (above ++ [a] ++ below) =
        joinLines (above ++ [a]) ++ "\n" ++ joinLines below :=
      String.intercalate_append_of_ne_nil (by simp) hbelow
    change Spells m (.ok (joinLines (above ++ [a] ++ below))) _
    rw [hjoin]
    exact hspells

end Spells

end Layout

open Layout Lines

namespace Target

variable {m : Margin}

/-! ## Shapes -/

/-- A block whose opening brace ends the head line. -/
def braced (head : String) (body : Lines) : Lines :=
  ofText (head ++ " " ++ openBrace) ++ body.nest ++ ofText closeBrace

/-- A block whose opening brace has a line of its own. -/
def bracedBelow (head : String) (body : Lines) : Lines :=
  ofText head ++ ofText openBrace ++ body.nest ++ ofText closeBrace

/-- A comment with a star before each line. -/
def starComment (texts : List String) : Lines :=
  ofText "/**" ++ ofTexts (texts.map (" * " ++ ·)) ++ ofText " */"

/-- One block of all lines, or none if there are no lines. -/
def block (ls : Lines) : List Lines :=
  if ls.isEmpty then [] else [ls]

/-- Items with a comma after each but the last, which is followed by `last`. -/
def commaLines (last : String) : List String → List String
  | [] => []
  | [a] => [a ++ last]
  | a :: b :: rest => (a ++ ",") :: commaLines last (b :: rest)

theorem ofTexts_starComment (texts : List String) :
    ofTexts (["/**"] ++ texts.map (" * " ++ ·) ++ [" */"]) = starComment texts := by
  simp [ofTexts, starComment]

theorem spells_starCommentText (texts : List String) :
    Spells m (.ok (starCommentText texts)) (starComment texts) := by
  rw [← ofTexts_starComment]
  exact spells_joinLines (by simp)

theorem starCommentText_ne_empty (texts : List String) : starCommentText texts ≠ "" := by
  rw [starCommentText, joinLines, String.intercalate_append_of_ne_nil (by simp) (by simp)]
  simp

section Blocks

variable {r : Spliced} {ls : Lines}

/-- A body that is indented between braces. -/
theorem spells_bracedText (head : String) (h : Spells m r ls) :
    Spells m (do let body ← r; bracedText m head body) (braced head ls) := by
  have hspells := (h.indent 1).enclosed (head ++ " " ++ openBrace) closeBrace
  cases r <;> exact hspells

/-- The same with the opening brace on a line of its own. -/
theorem spells_bracedBelowText (head : String) (h : Spells m r ls) :
    Spells m (do let body ← r; bracedBelowText m head body) (bracedBelow head ls) := by
  have hspells := (h.indent 1).enclosed (head ++ "\n" ++ openBrace) closeBrace
  rw [ofText_append] at hspells
  cases r <;> exact hspells

/-- Blocks with empty lines between them, moved in between the texts above and below. -/
theorem spells_enclosedText {blocks : List Spliced} {lss : List Lines}
    (h : List.Forall₂ (Spells m) blocks lss) (above below : List String) (hbelow : below ≠ []) :
    Spells m (enclosedText m above blocks below)
      (ofTexts above ++ (paragraphs lss).nest ++ ofTexts below) := by
  cases h with
  | nil =>
    have hne : above ++ [] ++ below ≠ [] := by simp [hbelow]
    have hspells := spells_joinLines (m := m) hne
    rw [ofTexts_append, ofTexts_append] at hspells
    exact hspells
  | @cons r ls blocks lss hr hblocks =>
    have hspells := ((spells_spread (.cons hr hblocks) (List.cons_ne_nil _ _)).indent 1).between
      above hbelow
    unfold spread at hspells
    unfold enclosedText
    rw [List.mapM_cons] at hspells ⊢
    cases r with
    | error f => exact hspells
    | ok a =>
      cases hrest : blocks.mapM id with
      | error f =>
        rw [hrest] at hspells
        exact hspells
      | ok rest =>
        rw [hrest] at hspells
        change Spells m (do
          let inner ← (fun s => [s]) <$> m.indent 1 ("\n\n".intercalate (a :: rest))
          return joinLines (above ++ inner ++ below)) _
        change Spells m (do
          let inner ← m.indent 1 ("\n\n".intercalate (a :: rest))
          return joinLines (above ++ [inner] ++ below)) _ at hspells
        generalize m.indent 1 _ = inner at hspells ⊢
        cases inner <;> exact hspells

end Blocks

/-! ## Lists of blocks -/

/-- Some blocks and then others. -/
theorem spells_append {as bs : List Spliced} {lss mss : List Lines}
    (ha : List.Forall₂ (Spells m) as lss) (hb : List.Forall₂ (Spells m) bs mss) :
    List.Forall₂ (Spells m) (as ++ bs) (lss ++ mss) :=
  List.rel_append ha hb

theorem ofTexts_ne_nil {texts : List String} (hne : texts ≠ []) : ofTexts texts ≠ [] := by
  obtain ⟨s, rest, rfl⟩ := List.exists_cons_of_ne_nil hne
  exact List.append_ne_nil_of_left_ne_nil (ofText_ne_nil s) _

theorem isEmpty_ofTexts (texts : List String) : (ofTexts texts).isEmpty = texts.isEmpty := by
  cases texts with
  | nil => rfl
  | cons s texts => exact List.isEmpty_eq_false_iff.2 (ofTexts_ne_nil (List.cons_ne_nil s texts))

/-- A block of texts, or none at all if there are no texts. -/
theorem spells_blockTexts (texts : List String) :
    List.Forall₂ (Spells m) (blockTexts texts) (block (ofTexts texts)) := by
  cases texts with
  | nil => exact .nil
  | cons s texts =>
    rw [block, isEmpty_ofTexts]
    exact .cons (spells_joinLines (List.cons_ne_nil s texts)) .nil

/-- Items with commas after them, one below the other. -/
theorem intercalate_commaLines (last : String) {items : List String} (hne : items ≠ []) :
    ",\n".intercalate items ++ last = joinLines (commaLines last items) := by
  induction items with
  | nil => exact absurd rfl hne
  | cons a items ih =>
    cases items with
    | nil => simp [commaLines, joinLines]
    | cons b items =>
      have hfeed : ",\n" = "," ++ "\n" := by decide
      rw [String.intercalate_cons_cons, String.append_assoc, ih (List.cons_ne_nil _ _), commaLines,
        joinLines]
      obtain ⟨c, cs, hcs⟩ : ∃ c cs, commaLines last (b :: items) = c :: cs := by
        cases items <;> exact ⟨_, _, rfl⟩
      rw [hcs, joinLines, String.intercalate_cons_cons, hfeed]
      simp [String.append_assoc]

theorem commaLines_ne_nil (last : String) {items : List String} (hne : items ≠ []) :
    commaLines last items ≠ [] := by
  match items with
  | [a] => exact List.cons_ne_nil _ _
  | a :: b :: rest => exact List.cons_ne_nil _ _

/-- Items with commas between them, each on a line. -/
theorem spells_commas (last : String) {items : List String} (hne : items ≠ []) :
    Spells m (.ok (",\n".intercalate items ++ last)) (ofTexts (commaLines last items)) := by
  rw [intercalate_commaLines last hne]
  exact spells_joinLines (commaLines_ne_nil last hne)

/-- One block of all items, or none if there are no items. -/
theorem spells_commaBlock (last : String) (items : List String) :
    List.Forall₂ (Spells m) (if items = [] then [] else [.ok (",\n".intercalate items ++ last)])
      (block (ofTexts (commaLines last items))) := by
  split
  · next hnil =>
    rw [hnil]
    exact .nil
  · next hne =>
    rw [block, isEmpty_ofTexts, List.isEmpty_eq_false_iff.2 (commaLines_ne_nil last hne)]
    exact .cons (spells_commas last hne) .nil

/-- Numbered items are not empty if they are made from texts that are not. -/
theorem numbered_ne_empty {f : String → String → String} (h : ∀ v n, f v n ≠ "") (first : Nat)
    (values : List String) : ∀ s ∈ numbered first f values, s ≠ "" := by
  intro s hs
  obtain ⟨v, -, rfl⟩ := List.mem_map.1 hs
  exact h _ _

/-! ## Comments -/

/-- A list of texts that are not empty is joined to an empty text only if it is empty. -/
theorem intercalate_eq_empty_iff (sep : String) {texts : List String} (h : ∀ s ∈ texts, s ≠ "") :
    sep.intercalate texts = "" ↔ texts = [] := by
  match texts with
  | [] => simp
  | [a] => simpa using h
  | a :: b :: rest => simp [String.intercalate_cons_cons, h a]

/-- A comment that is spelled by its lines, or an empty one without lines. -/
inductive Comments (m : Margin) : String → Lines → Prop where
  | none : Comments m "" []
  | some {text : String} {ls : Lines} (hne : text ≠ "") (h : Spells m (.ok text) ls) :
    Comments m text ls

/-- A text below a comment. Whether there is a comment does not depend on the margin. -/
theorem spells_commented {comment : String} {r : Spliced} {ls ms : Lines}
    (hcomment : Comments m comment ls) (h : Spells m r ms) :
    Spells m (do let text ← r; return commented comment text) (ls ++ ms) := by
  cases hcomment with
  | none => cases r <;> exact h
  | some hne hspells =>
    have hbelow : ∀ text, commented comment text = comment ++ "\n" ++ text := fun _ => if_neg hne
    simp only [hbelow]
    exact hspells.append h

theorem comments_joinLines {texts : List String} (h : ∀ s ∈ texts, s ≠ "") :
    Comments m (joinLines texts) (ofTexts texts) := by
  by_cases hnil : texts = []
  · rw [hnil]
    exact .none
  · exact .some ((intercalate_eq_empty_iff "\n" h).not.2 hnil) (spells_joinLines hnil)

end Target

/-! ## Parts of a file -/

namespace Layout

/-- The text, if it could be put together, is that of the lines with a line feed after
each. -/
structure Writes (m : Margin) (r : Spliced) (ls : Lines) : Prop where
  text_eq {text : String} : r = .ok text → ls.Possible m ∧ text = ls.render m.size
  fault {f : WidthFault} : r = .error f → ls.Faults m f

variable {m : Margin} {r s : Spliced} {ls ms : Lines}

theorem writes_nil : Writes m (.ok "") [] where
  text_eq := by
    rintro _ ⟨⟩
    exact ⟨nofun, rfl⟩
  fault := nofun

/-- A text with a line feed at its end. -/
theorem Spells.writes (h : Spells m r ls) : Writes m (do let a ← r; return a ++ "\n") ls where
  text_eq := by
    intro text htext
    cases r with
    | error f => cases htext
    | ok a =>
      cases htext
      obtain ⟨hpossible, ha⟩ := h.text_eq rfl
      exact ⟨hpossible, by rw [render_eq_joined m.size h.ne_nil, ha]⟩
  fault := by
    intro f hf
    cases r with
    | ok a => cases hf
    | error g =>
      cases hf
      exact h.fault rfl

/-- A text with an empty line below it. -/
theorem Spells.writes_blank (h : Spells m r ls) :
    Writes m (do let a ← r; return a ++ "\n\n") (ls ++ blank) := by
  have hwrites := (h.append (spells_ok "")).writes
  cases r with
  | error f => exact hwrites
  | ok a =>
    have htext : a ++ "\n" ++ "" ++ "\n" = a ++ "\n\n" := by
      rw [String.append_assoc, String.append_assoc]
      rfl
    change Writes m (.ok (a ++ "\n\n")) (ls ++ blank)
    rw [← htext]
    exact hwrites

/-- A text with two empty lines below it. -/
theorem Spells.writes_blanks (h : Spells m r ls) :
    Writes m (do let a ← r; return a ++ "\n\n\n") (ls ++ blank ++ blank) := by
  have hwrites := (h.append (spells_ok "")).writes_blank
  cases r with
  | error f => exact hwrites
  | ok a =>
    have htext : a ++ "\n" ++ "" ++ "\n\n" = a ++ "\n\n\n" := by
      rw [String.append_assoc, String.append_assoc]
      rfl
    change Writes m (.ok (a ++ "\n\n\n")) (ls ++ blank ++ blank)
    rw [← htext]
    exact hwrites

/-- A text with an empty line below it, which is moved in only under a condition. -/
theorem Spells.writes_indentIf (h : Spells m r ls) (p : Bool) :
    Writes m (do
      let a ← r
      let a ← (if p then m.indent 1 a else .ok a)
      return a ++ "\n\n") ((if p then ls.nest else ls) ++ blank) := by
  have hwrites := (h.indentIf p).writes_blank
  cases r <;> exact hwrites

/-- One part after another. -/
theorem Writes.append (hr : Writes m r ls) (hs : Writes m s ms) :
    Writes m (do let a ← r; let b ← s; return a ++ b) (ls ++ ms) where
  text_eq := by
    intro text h
    cases r with
    | error f => cases h
    | ok a =>
      cases s with
      | error f => cases h
      | ok b =>
        cases h
        obtain ⟨hls, ha⟩ := hr.text_eq rfl
        obtain ⟨hms, hb⟩ := hs.text_eq rfl
        refine ⟨fun l hl => (List.mem_append.1 hl).elim (hls l) (hms l), ?_⟩
        rw [render_append, ha, hb]
  fault := by
    intro f h
    cases r with
    | error g =>
      cases h
      obtain ⟨l, hl, hn⟩ := hr.fault rfl
      exact ⟨l, List.mem_append_left ms hl, hn⟩
    | ok a =>
      cases s with
      | ok b => cases h
      | error g =>
        cases h
        obtain ⟨l, hl, hn⟩ := hs.fault rfl
        exact ⟨l, List.mem_append_right ls hl, hn⟩

/-- Parts one after the other. -/
theorem writes_mapM {α : Type} {f : α → Spliced} {g : α → Lines} {as : List α}
    (h : ∀ a ∈ as, Writes m (f a) (g a)) :
    Writes m (do let texts ← as.mapM f; return String.join texts) (as.flatMap g) := by
  induction as with
  | nil => exact writes_nil
  | cons a as ih =>
    have hwrites := (h a List.mem_cons_self).append
      (ih fun b hb => h b (List.mem_cons_of_mem a hb))
    rw [List.mapM_cons, List.flatMap_cons]
    cases hfirst : f a with
    | error e =>
      rw [hfirst] at hwrites
      exact hwrites
    | ok text =>
      rw [hfirst] at hwrites
      cases hrest : as.mapM f with
      | error e =>
        rw [hrest] at hwrites
        exact hwrites
      | ok texts =>
        rw [hrest] at hwrites
        change Writes m (.ok (String.join (text :: texts))) _
        rw [String.join_cons]
        exact hwrites

/-- What could be put together or not, by the steps of the lines. -/
theorem Writes.eq_ok (h : Writes m r ls) (hpossible : ls.Possible m) :
    r = .ok (ls.render m.size) := by
  cases r with
  | error f => exact absurd hpossible (h.fault rfl).not_possible
  | ok text => rw [(h.text_eq rfl).2]

end Layout

/-- A type with a comment above it. -/
theorem Target.writes_starredText {m : Margin} {blocks : List Spliced} {lss : List Lines}
    (h : List.Forall₂ (Spells m) blocks lss) (comment : List String) (head : String) :
    Writes m (starredText m comment head blocks)
      (starComment comment ++ braced head (paragraphs lss) ++ blank) := by
  have hspells := spells_enclosedText h
    (["/**"] ++ comment.map (" * " ++ ·) ++ [" */", head ++ " " ++ openBrace]) [closeBrace]
    (by simp)
  have hlines : ofTexts (["/**"] ++ comment.map (" * " ++ ·) ++ [" */", head ++ " " ++ openBrace]) ++
      (paragraphs lss).nest ++ ofTexts [closeBrace] =
        starComment comment ++ braced head (paragraphs lss) := by
    simp [ofTexts, starComment, braced]
  rw [hlines] at hspells
  exact hspells.writes_blank

/-! ## Listings -/

/-- The parts of a diagram as lines of one target language. -/
structure Listing where
  header : Lines := []
  footer : Diagram → Lines := fun _ => []
  packageStart : String → Lines
  packageEnd : String → Lines := fun _ => []
  classLines : Diagram → ClassDecl → Lines
  interfaceLines : Diagram → InterfaceDecl → Lines
  enumLines : Diagram → EnumDecl → Lines

def Listing.entityLines (li : Listing) (d : Diagram) : Entity → Lines
  | .cls c => li.classLines d c
  | .interface i => li.interfaceLines d i
  | .enum e => li.enumLines d e

/-- Every text of the emitter is that of the lines, for every margin. -/
structure Listing.Fits (li : Listing) (em : Emitter) : Prop where
  header (m : Margin) : Writes m (.ok em.header) li.header
  footer (m : Margin) (d : Diagram) : Writes m (.ok (em.footer d)) (li.footer d)
  packageStart (m : Margin) (name : String) :
    Writes m (em.packageStart m name) (li.packageStart name)
  packageEnd (m : Margin) (name : String) : Writes m (em.packageEnd m name) (li.packageEnd name)
  classText (m : Margin) (d : Diagram) (c : ClassDecl) :
    Writes m (em.classText m d c) (li.classLines d c)
  interfaceText (m : Margin) (d : Diagram) (i : InterfaceDecl) :
    Writes m (em.interfaceText m d i) (li.interfaceLines d i)
  enumText (m : Margin) (d : Diagram) (e : EnumDecl) :
    Writes m (em.enumText m d e) (li.enumLines d e)

end ClassSketch
