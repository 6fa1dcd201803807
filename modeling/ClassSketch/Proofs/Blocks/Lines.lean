import ClassSketch.Proofs.Declarations.Texts

/-!
# Blocks of lines

In Ruby a line opens a block (`opensBlock`) and a line that is `end` closes it.
The blocks of lines match when no lines at the front close more blocks than they
open, and all blocks are closed in the end (`BlocksMatch`). This is read off the way
the lines are put together (`Blocks`) : single lines that are no border of a block,
parts in a row, and a part with a border around it.

What opens a block is a keyword, a space and a word (`exists_of_opensBlock`). So a
line is no border if it starts with none of the first letters of keywords
(`Aside`), or if something else than a word follows its first space
(`Plain.spaced`), whatever names and values it has besides.
-/

namespace ClassSketch

open Text Layout

namespace Target.Ruby

/-! ## Borders of blocks -/

/-- The words that may stand before a definition, with the space behind them. -/
def accessWords : List (List Char) :=
  ["private ".toList, "protected ".toList, "private_class_method ".toList]

def dropAccess (s : List Char) : List Char :=
  (accessWords.findSome? (after? · s)).getD s

/-- A word at the front, with nothing behind it or what `tail` accepts. -/
def isWordWith (tail : List Char → Bool) (s : List Char) : Bool :=
  (takeSome isWord s).any fun (_, rest) => rest.isEmpty || tail rest

/-- What names the superclass behind the name of a class. -/
def isSuperclass (s : List Char) : Bool :=
  (after? " < ".toList s).any isWordText

/-- Parentheses around all that is left of a line. -/
def isParameterList (s : List Char) : Bool :=
  s.head? == some '(' && s.getLast? == some ')'

def isClassHead (s : List Char) : Bool :=
  (after? "class ".toList s).any (isWordWith isSuperclass)

def isModuleHead (s : List Char) : Bool :=
  (after? "module ".toList s).any isWordText

def isDefinitionHead (s : List Char) : Bool :=
  (after? "def ".toList s).any fun t =>
    isWordWith isParameterList t || (after? "self.".toList t).any (isWordWith isParameterList)

/-- Whether a line without leading spaces opens a block. -/
def opensBlock (line : String) : Bool :=
  let s := dropAccess line.toList
  isClassHead s || isModuleHead s || isDefinitionHead s

/-- Whether a line without leading spaces closes a block. -/
def closesBlock (line : String) : Bool :=
  line == "end"

/-- No lines at the front close more blocks than they open, and all are closed in the end. -/
structure BlocksMatch (lines : List String) : Prop where
  closed_le : ∀ front, front <+: lines → front.countP closesBlock ≤ front.countP opensBlock
  closed_eq : lines.countP closesBlock = lines.countP opensBlock

/-! ## Matching blocks -/

/-- Lines in which every block is closed where it should be. -/
inductive Blocks : List String → Prop where
  | nil : Blocks []
  | plain {line : String} (hopens : opensBlock line = false) (hcloses : closesBlock line = false) :
      Blocks [line]
  | append {ls ms : List String} (hls : Blocks ls) (hms : Blocks ms) : Blocks (ls ++ ms)
  | block {head : String} {body : List String} (hhead : opensBlock head = true)
      (hbody : Blocks body) : Blocks (head :: (body ++ ["end"]))

/-- No line both opens and closes a block. -/
theorem closesBlock_of_opensBlock {line : String} (h : opensBlock line = true) :
    closesBlock line = false := by
  refine beq_eq_false_iff_ne.2 ?_
  rintro rfl
  exact absurd h (by decide)

/-- Blocks match in two listings in turn. -/
theorem BlocksMatch.append {ls ms : List String} (hls : BlocksMatch ls) (hms : BlocksMatch ms) :
    BlocksMatch (ls ++ ms) where
  closed_le := by
    rintro front ⟨rest, hrest⟩
    rcases List.append_eq_append_iff.1 hrest with ⟨b, rfl, -⟩ | ⟨b, rfl, rfl⟩
    · exact hls.closed_le front (List.prefix_append front b)
    · have hb := hms.closed_le b (List.prefix_append b rest)
      rw [List.countP_append, List.countP_append, hls.closed_eq]
      exact Nat.add_le_add_left hb _
  closed_eq := by rw [List.countP_append, List.countP_append, hls.closed_eq, hms.closed_eq]

/-- A border around lines whose blocks match : only the whole closes its block. -/
theorem BlocksMatch.block {head : String} (hhead : opensBlock head = true) {body : List String}
    (h : BlocksMatch body) : BlocksMatch (head :: (body ++ ["end"])) := by
  have hopen := List.countP_cons_of_pos (l := body ++ ["end"]) hhead
  have hclose : (head :: (body ++ ["end"])).countP closesBlock = body.countP closesBlock + 1 := by
    rw [List.countP_cons_of_neg (by simp [closesBlock_of_opensBlock hhead]), List.countP_append]
    rfl
  have hbody : (body ++ ["end"]).countP opensBlock = body.countP opensBlock := List.countP_append
  have hall : (head :: (body ++ ["end"])).countP closesBlock =
      (head :: (body ++ ["end"])).countP opensBlock := by
    rw [hclose, hopen, hbody, h.closed_eq]
  refine ⟨fun front hfront => ?_, hall⟩
  cases front with
  | nil => exact Nat.le_refl _
  | cons x front =>
    obtain ⟨rfl, hrest⟩ := List.cons_prefix_cons.1 hfront
    rcases List.prefix_concat_iff.1 hrest with rfl | hinside
    · exact hall.le
    · rw [List.countP_cons_of_neg (by simp [closesBlock_of_opensBlock hhead]),
        List.countP_cons_of_pos hhead]
      exact (h.closed_le front hinside).trans (Nat.le_succ _)

/-- Lines that are made of blocks have their blocks matched. The induction follows how they are
made. -/
theorem Blocks.blocksMatch {lines : List String} (h : Blocks lines) : BlocksMatch lines := by
  induction h with
  | nil => exact ⟨fun front hfront => by rw [List.prefix_nil.1 hfront]; rfl, rfl⟩
  | @plain line hopens hcloses =>
    have hnone : [line].countP closesBlock = 0 := by simp [hcloses]
    refine ⟨fun front hfront => ?_, by simp [hopens, hcloses]⟩
    have hle := hfront.sublist.countP_le (p := closesBlock)
    omega
  | append _ _ ihls ihms => exact ihls.append ihms
  | block hhead _ ih => exact ih.block hhead

/-! ## Lines inside a block -/

/-- The words with which a line that opens a block can start. -/
def keywords : List (List Char) :=
  ["private".toList, "protected".toList, "private_class_method".toList, "class".toList,
    "module".toList, "def".toList]

theorem exists_of_isWordText {s : List Char} (h : isWordText s = true) :
    ∃ c r, isWord c = true ∧ s = c :: r := by
  obtain ⟨hne, hall⟩ := (Bool.and_eq_true _ _).mp h
  cases s with
  | nil => cases hne
  | cons c r => exact ⟨c, r, List.all_eq_true.1 hall c List.mem_cons_self, rfl⟩

theorem exists_of_isWordWith {tail : List Char → Bool} {s : List Char}
    (h : isWordWith tail s = true) : ∃ c r, isWord c = true ∧ s = c :: r := by
  obtain ⟨⟨w, rest⟩, htake, -⟩ := (Option.any_eq_true ..).1 h
  obtain ⟨rfl, -, -, -⟩ := eq_of_takeSome htake
  obtain ⟨c, r, hc, rfl⟩ := exists_of_isWordText (Member.isWordText_of_takeSome htake)
  exact ⟨c, r ++ rest, hc, rfl⟩

theorem exists_of_head {s : List Char}
    (h : (isClassHead s || isModuleHead s || isDefinitionHead s) = true) :
    ∃ k ∈ ["class".toList, "module".toList, "def".toList], ∃ c r, isWord c = true ∧
      s = k ++ ' ' :: c :: r := by
  rcases (Bool.or_eq_true _ _).mp h with h | h
  · rcases (Bool.or_eq_true _ _).mp h with h | h
    · obtain ⟨t, ht, hword⟩ := (Option.any_eq_true ..).1 h
      obtain ⟨c, r, hc, rfl⟩ := exists_of_isWordWith hword
      have hs := after?_eq_some_iff.1 ht
      exact ⟨_, List.mem_of_getElem? (i := 0) rfl, c, r, hc, hs⟩
    · obtain ⟨t, ht, hword⟩ := (Option.any_eq_true ..).1 h
      obtain ⟨c, r, hc, rfl⟩ := exists_of_isWordText hword
      have hs := after?_eq_some_iff.1 ht
      exact ⟨_, List.mem_of_getElem? (i := 1) rfl, c, r, hc, hs⟩
  · obtain ⟨t, ht, hname⟩ := (Option.any_eq_true ..).1 h
    have hstart : ∃ c r, isWord c = true ∧ t = c :: r := by
      rcases (Bool.or_eq_true _ _).mp hname with hword | hself
      · exact exists_of_isWordWith hword
      · obtain ⟨u, hu, -⟩ := (Option.any_eq_true ..).1 hself
        exact ⟨'s', "elf.".toList ++ u, by decide, after?_eq_some_iff.1 hu⟩
    obtain ⟨c, r, hc, rfl⟩ := hstart
    have hs := after?_eq_some_iff.1 ht
    exact ⟨_, List.mem_of_getElem? (i := 2) rfl, c, r, hc, hs⟩

/-- What opens a block is a keyword, a space and a word. -/
theorem exists_of_opensBlock {line : String} (h : opensBlock line = true) :
    ∃ k ∈ keywords, ∃ c r, isWord c = true ∧ line.toList = k ++ ' ' :: c :: r := by
  obtain ⟨k, hk, c, r, hc, hs⟩ := exists_of_head h
  have hsub : ∀ k ∈ ["class".toList, "module".toList, "def".toList],
      k ∈ keywords ∧ k.head?.any isWord = true := by decide
  obtain ⟨hkeyword, hletter⟩ := hsub k hk
  unfold dropAccess at hs
  cases hfound : accessWords.findSome? (after? · line.toList) with
  | none =>
    rw [hfound] at hs
    exact ⟨k, hkeyword, c, r, hc, hs⟩
  | some t =>
    -- The next word is the keyword that follows.
    rw [hfound] at hs
    obtain ⟨w, hw, ht⟩ := List.exists_of_findSome?_eq_some hfound
    have haccess : ∀ w ∈ accessWords, w.dropLast ∈ keywords ∧ w = w.dropLast ++ [' '] := by decide
    obtain ⟨hdrop, hspace⟩ := haccess w hw
    cases k with
    | nil => cases hletter
    | cons x k =>
      refine ⟨_, hdrop, x, k ++ ' ' :: c :: r, hletter, ?_⟩
      rw [after?_eq_some_iff.1 ht, show t = _ from hs]
      nth_rewrite 1 [hspace]
      simp

/-- A text on a line of its own that is no border of a block. -/
structure Plain (s : String) : Prop where
  line : FlushLine s
  opens : opensBlock s = false
  closes : closesBlock s = false

instance (s : String) : Decidable (Plain s) :=
  decidable_of_iff (FlushLine s ∧ opensBlock s = false ∧ closesBlock s = false)
    ⟨fun h => ⟨h.1, h.2.1, h.2.2⟩, fun h => ⟨h.line, h.opens, h.closes⟩⟩

/-- The first letters of the borders of a block. -/
def initials : List Char :=
  ['p', 'c', 'm', 'd', 'e']

/-- A line at the border of a block starts with one of a few letters. -/
theorem head?_of_border {line : String} (h : opensBlock line = true ∨ closesBlock line = true) :
    line.toList.head?.any (· ∈ initials) = true := by
  rcases h with hopens | hcloses
  · obtain ⟨k, hk, c, r, -, hline⟩ := exists_of_opensBlock hopens
    have hinitial : ∀ k ∈ keywords, k.head?.any (· ∈ initials) = true := by decide
    have hletter := hinitial k hk
    rw [hline]
    cases k with
    | nil => cases hletter
    | cons x k => exact hletter
  · rw [beq_iff_eq.1 hcloses]
    decide

/-- A line that starts with no letter of a border. -/
structure Aside (s : String) : Prop where
  line : FlushLine s
  head : s.toList.head?.any (· ∈ initials) = false

instance (s : String) : Decidable (Aside s) :=
  decidable_of_iff (FlushLine s ∧ s.toList.head?.any (· ∈ initials) = false)
    ⟨fun h => ⟨h.1, h.2⟩, fun h => ⟨h.line, h.head⟩⟩

/-- A text aside may have more text behind it, in the same line. -/
theorem Aside.append {s t : String} (hs : Aside s) (ht : '\n' ∉ t.toList) : Aside (s ++ t) where
  line := hs.line.append ht
  head := by
    obtain ⟨c, cs, hc⟩ := List.exists_cons_of_ne_nil hs.line.ne_nil
    have hhead := hs.head
    rw [hc] at hhead
    rwa [String.toList_append, hc]

/-- What is aside neither opens nor closes a block. -/
theorem Aside.plain {s : String} (h : Aside s) : Plain s := by
  have hborder : ¬(opensBlock s = true ∨ closesBlock s = true) := fun hborder => by
    have hhead := h.head
    rw [head?_of_border hborder] at hhead
    cases hhead
  obtain ⟨hopens, hcloses⟩ := not_or.1 hborder
  exact ⟨h.line, Bool.eq_false_iff.2 hopens, Bool.eq_false_iff.2 hcloses⟩

/-- A space with something else than a word behind it. -/
def isSeparator : List Char → Bool
  | ' ' :: c :: _ => !isWord c
  | _ => false

/-- A line with something else than a word behind its first space. -/
theorem Plain.spaced {s sep t : String} (hs : FlushLine s) (hsolid : ' ' ∉ s.toList)
    (hsep : isSeparator sep.toList = true) (hfeed : '\n' ∉ sep.toList) (ht : '\n' ∉ t.toList) :
    Plain (s ++ sep ++ t) := by
  obtain ⟨x, rest, hsep, hx⟩ : ∃ x rest, sep.toList = ' ' :: x :: rest ∧ isWord x = false := by
    unfold isSeparator at hsep
    split at hsep
    · next c rest heq => exact ⟨c, rest, heq, by simpa using hsep⟩
    · cases hsep
  have hline : (s ++ sep ++ t).toList = s.toList ++ ' ' :: x :: (rest ++ t.toList) := by
    simp [hsep]
  refine ⟨(hs.append hfeed).append ht, ?_, ?_⟩
  · refine Bool.eq_false_iff.2 fun h => ?_
    obtain ⟨k, hk, c, r, hc, heq⟩ := exists_of_opensBlock h
    have hkeyword : ∀ k ∈ keywords, ' ' ∉ k := by decide
    -- Both spaces are the first one of the line.
    have hcut := cutAt_append (hkeyword k hk) (c :: r)
    rw [← heq, hline, cutAt_append hsolid] at hcut
    simp only [Option.some.injEq, Prod.mk.injEq, List.cons.injEq] at hcut
    rw [hcut.2.1, hc] at hx
    cases hx
  · refine Bool.eq_false_iff.2 fun h => ?_
    have hmem : ' ' ∈ (s ++ sep ++ t).toList := by simp [hsep]
    rw [beq_iff_eq.1 h] at hmem
    exact absurd hmem (by decide)

/-! ## Layout -/

section Layout

variable {ls ms : Lines}

theorem blocks_append (hls : Blocks ls.flush) (hms : Blocks ms.flush) :
    Blocks (ls ++ ms).flush := by
  rw [Lines.flush_append]
  exact hls.append hms

theorem blocks_flatMap {α : Type} {f : α → Lines} {as : List α}
    (h : ∀ a ∈ as, Blocks (f a).flush) : Blocks (Lines.flush (as.flatMap f)) := by
  induction as with
  | nil => exact .nil
  | cons a as ih =>
    obtain ⟨ha, has⟩ := List.forall_mem_cons.1 h
    rw [List.flatMap_cons]
    exact blocks_append ha (ih has)

/-- A plain text has no blocks. -/
theorem blocks_ofText {s : String} (h : Plain s) : Blocks (Lines.ofText s).flush := by
  rw [Lines.flush_ofText, h.line.flushLines_eq]
  exact .plain h.opens h.closes

theorem blocks_ofTexts {ss : List String} (h : ∀ s ∈ ss, Plain s) :
    Blocks (Lines.ofTexts ss).flush :=
  blocks_flatMap fun s hs => blocks_ofText (h s hs)

theorem blocks_blank : Blocks Lines.blank.flush :=
  .plain (by decide) (by decide)

/-- Blank lines between the paragraphs are plain. -/
theorem blocks_paragraphs {bs : List Lines} (h : ∀ b ∈ bs, Blocks b.flush) :
    Blocks (Lines.paragraphs bs).flush := by
  induction bs with
  | nil => exact .nil
  | cons b bs ih =>
    obtain ⟨hb, hbs⟩ := List.forall_mem_cons.1 h
    cases bs with
    | nil =>
      rw [Lines.paragraphs, List.intercalate_singleton]
      exact hb
    | cons c cs =>
      rw [Lines.paragraphs_cons_cons]
      exact blocks_append (blocks_append hb blocks_blank) (ih hbs)

/-- A head, a body and an end are a block. -/
theorem blocks_surround {head : String} (hline : FlushLine head) (hhead : opensBlock head = true)
    (h : Blocks ls.flush) : Blocks (Lines.ofText head ++ ls.nest ++ Lines.ofText "end").flush := by
  have hlines : (Lines.ofText head ++ ls.nest ++ Lines.ofText "end").flush =
      head :: (ls.flush ++ ["end"]) := by
    have hend : flushLines "end" = ["end"] := FlushLine.flushLines_eq (by decide)
    simp [hline.flushLines_eq, hend]
  rw [hlines]
  exact .block hhead h

end Layout

end Target.Ruby

end ClassSketch
