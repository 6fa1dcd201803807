import Mathlib.Data.List.Induction
import Mathlib.Data.List.TakeWhile
import ClassSketch.Text.Scan

/-!
# What the recognisers find

Each recogniser of a text is described twice : what a find says about the text
(`eq_of_takeSome`, `eq_of_afterBlanks?`), and what is found in a text of a
given form (`takeSome_append`, `cutAt_append`).
-/

namespace ClassSketch.Text

/-- What is checked for each character of a text holds of all of them. -/
theorem forall_mem_of_all {p : Char → Prop} [DecidablePred p] {s : List Char}
    (h : s.all (fun c => decide (p c)) = true) : ∀ c ∈ s, p c :=
  fun c hc => of_decide_eq_true (List.all_eq_true.1 h c hc)

/-! ## Trimming -/

/-- Whether a text starts with a blank. -/
def startsBlank (s : List Char) : Bool :=
  s.head?.any isBlank

/-- A text that starts with no blank is left alone. -/
theorem trimStart_eq_self {s : List Char} (h : startsBlank s = false) : trimStart s = s := by
  cases s with
  | nil => rfl
  | cons c s => exact List.dropWhile_cons_of_neg (by simpa [startsBlank] using h)

/-- What is trimmed at the start is blank, and what stays does not start with a blank. -/
theorem exists_trimStart (s : List Char) :
    ∃ bs, s = bs ++ trimStart s ∧ (∀ c ∈ bs, isBlank c = true) ∧
      startsBlank (trimStart s) = false := by
  refine ⟨s.takeWhile isBlank, List.takeWhile_append_dropWhile.symm, ?_, ?_⟩
  · exact fun c hc => List.mem_takeWhile_imp hc
  · unfold startsBlank trimStart
    cases h : s.dropWhile isBlank with
    | nil => rfl
    | cons c r =>
      have := List.head_dropWhile_not isBlank (l := s) (by simp [h])
      simpa [h] using this

/-- Trimming the front adds no character. -/
theorem trimStart_subset (s : List Char) : trimStart s ⊆ s :=
  (List.dropWhile_suffix isBlank).subset

theorem trimEnd_subset (s : List Char) : trimEnd s ⊆ s := by
  intro c hc
  exact List.mem_reverse.1 ((List.dropWhile_suffix isBlank).subset (List.mem_reverse.1 hc))

theorem trim_subset (s : List Char) : trim s ⊆ s :=
  List.Subset.trans (trimEnd_subset _) (trimStart_subset s)

/-- Trimming the end looks at the last character alone, and goes on only past a blank. -/
theorem trimEnd_snoc (s : List Char) (c : Char) :
    trimEnd (s ++ [c]) = if isBlank c then trimEnd s else s ++ [c] := by
  unfold trimEnd
  rw [List.reverse_append, List.reverse_singleton, List.singleton_append]
  by_cases hc : isBlank c = true
  · rw [List.dropWhile_cons_of_pos hc, if_pos hc]
  · rw [List.dropWhile_cons_of_neg hc, if_neg hc, List.reverse_cons, List.reverse_reverse]

/-- A character at the end that is not blank stays there. -/
theorem trim_snoc_of_not_isBlank {c : Char} (hc : isBlank c = false) (s : List Char) :
    trim (s ++ [c]) = trimStart s ++ [c] := by
  have hstart : trimStart (s ++ [c]) = trimStart s ++ [c] := by
    unfold trimStart
    rw [List.dropWhile_append]
    split
    · next hnil =>
      rw [List.isEmpty_iff.1 hnil, List.dropWhile_cons_of_neg (by simp [hc])]
      rfl
    · rfl
  rw [trim, hstart, trimEnd_snoc, if_neg (by simp [hc])]

/-- A text with no blank at either end. -/
structure Trimmed (s : List Char) : Prop where
  head : ∃ c ∈ s.head?, isBlank c = false
  last : ∃ c ∈ s.getLast?, isBlank c = false

namespace Trimmed

variable {a b s : List Char}

theorem singleton {c : Char} (hc : isBlank c = false) : Trimmed [c] :=
  ⟨⟨c, rfl, hc⟩, ⟨c, rfl, hc⟩⟩

/-- What is appended may be empty but must not end with a blank. -/
theorem extend (ha : Trimmed a) (hb : ∀ c ∈ b.getLast?, isBlank c = false) : Trimmed (a ++ b) where
  head := by
    obtain ⟨c, hc, hblank⟩ := ha.head
    exact ⟨c, by rw [List.head?_append, Option.mem_def.1 hc]; rfl, hblank⟩
  last := by
    cases hlast : b.getLast? with
    | none =>
      rw [List.getLast?_eq_none_iff.1 hlast, List.append_nil]
      exact ha.last
    | some c => exact ⟨c, by rw [List.getLast?_append, hlast]; rfl, hb c hlast⟩

/-- A text without any blanks is trimmed. -/
theorem of_forall (hne : s ≠ []) (h : ∀ c ∈ s, isBlank c = false) : Trimmed s where
  head := ⟨s.head hne, List.head?_eq_some_head hne, h _ (List.head_mem hne)⟩
  last := ⟨s.getLast hne, List.getLast?_eq_some_getLast hne, h _ (List.getLast_mem hne)⟩

theorem isBlank_getLast? (h : Trimmed s) : ∀ c ∈ s.getLast?, isBlank c = false := by
  intro c hc
  obtain ⟨d, hd, hblank⟩ := h.last
  rwa [Option.mem_unique hc hd]

/-- What stands between trimmed texts does not matter. -/
theorem append (ha : Trimmed a) (hb : Trimmed b) (m : List Char) : Trimmed (a ++ m ++ b) := by
  rw [List.append_assoc]
  refine ha.extend fun c hc => hb.isBlank_getLast? c ?_
  obtain ⟨d, hd, -⟩ := hb.last
  rw [Option.mem_def.1 hd]
  rwa [List.getLast?_append, Option.mem_def.1 hd] at hc

theorem ne_nil (h : Trimmed s) : s ≠ [] := by
  rintro rfl
  obtain ⟨c, hc, -⟩ := h.head
  cases hc

theorem startsBlank_eq (h : Trimmed s) : startsBlank s = false := by
  obtain ⟨c, hc, hblank⟩ := h.head
  rw [startsBlank, Option.mem_def.1 hc]
  exact hblank

/-- Trimming stops at the front of a trimmed text, whatever comes after it. -/
theorem trimStart_append (h : Trimmed s) (t : List Char) : trimStart (s ++ t) = s ++ t := by
  refine trimStart_eq_self ?_
  obtain ⟨c, hc, hblank⟩ := h.head
  rw [startsBlank, List.head?_append, Option.mem_def.1 hc]
  exact hblank

/-- A text is trimmed to what stands after the blanks in front. -/
theorem trim_append (h : Trimmed s) {i : List Char} (hi : ∀ c ∈ i, isBlank c = true) :
    trim (i ++ s) = s := by
  obtain ⟨c, hc, hblank⟩ := h.last
  obtain ⟨t, rfl⟩ := List.getLast?_eq_some_iff.1 (Option.mem_def.1 hc)
  rw [trim, trimStart_blanks_append hi, trimStart_eq_self h.startsBlank_eq, trimEnd_snoc,
    if_neg (by simp [hblank])]

/-- Trimmed texts are those that trimming leaves alone. -/
theorem trim_eq (h : Trimmed s) : trim s = s :=
  h.trim_append (i := []) (by simp)

theorem trimStart_space (h : Trimmed s) (t : List Char) : trimStart (' ' :: (s ++ t)) = s ++ t :=
  h.trimStart_append t

theorem trim_space (h : Trimmed s) : trim (' ' :: s) = s :=
  h.trim_eq

/-- What trimming does not change has no blank at its ends. -/
theorem of_trim_eq (hne : s ≠ []) (h : trim s = s) : Trimmed s := by
  have hstart : trimStart s = s := by
    refine (List.dropWhile_suffix isBlank).eq_of_length_le ?_
    have hle := length_trimEnd_le (trimStart s)
    rwa [← trim, h] at hle
  have hend : trimEnd s = s := by rwa [trim, hstart] at h
  refine ⟨⟨s.head hne, List.head?_eq_some_head hne, ?_⟩, ?_⟩
  · obtain ⟨-, -, -, hfirst⟩ := exists_trimStart s
    rw [hstart, startsBlank, List.head?_eq_some_head hne] at hfirst
    exact hfirst
  · obtain ⟨t, c, rfl⟩ := (List.eq_nil_or_concat s).resolve_left hne
    rw [List.concat_eq_append] at hend ⊢
    refine ⟨c, by simp, ?_⟩
    rw [trimEnd_snoc] at hend
    split at hend
    · have hle := length_trimEnd_le t
      rw [hend, List.length_append, List.length_singleton] at hle
      exact absurd hle (Nat.not_succ_le_self _)
    · next hc => simpa using hc

end Trimmed

/-- Trimming the end does not reach into a trimmed text. -/
theorem trimEnd_append {a : List Char} (ha : Trimmed a) (s : List Char) :
    trimEnd (a ++ s) = a ++ trimEnd s := by
  induction s using List.reverseRecOn with
  | nil =>
    have htrim := ha.trim_eq
    rw [trim, trimStart_eq_self ha.startsBlank_eq] at htrim
    rw [List.append_nil, htrim]
    exact (List.append_nil a).symm
  | append_singleton s c ih =>
    rw [← List.append_assoc, trimEnd_snoc, trimEnd_snoc, ih]
    split
    · rfl
    · rw [List.append_assoc]

/-! ### What is trimmed -/

/-- Trimming the end leaves a front part. -/
theorem trimEnd_prefix (s : List Char) : trimEnd s <+: s := by
  have hsuffix := List.reverse_prefix.2 (List.dropWhile_suffix isBlank (l := s.reverse))
  rwa [List.reverse_reverse] at hsuffix

theorem startsBlank_trim (s : List Char) : startsBlank (trim s) = false := by
  obtain ⟨-, -, -, hstart⟩ := exists_trimStart s
  obtain ⟨rest, hrest⟩ := trimEnd_prefix (trimStart s)
  rw [trim]
  cases htrim : trimEnd (trimStart s) with
  | nil => rfl
  | cons c cs =>
    rw [htrim] at hrest
    rwa [← hrest] at hstart

section Trim

variable {s : List Char}

/-- A character that fails the test is never dropped. -/
theorem mem_dropWhile {p : Char → Bool} {c : Char} (hc : c ∈ s) (hp : p c = false) :
    c ∈ s.dropWhile p := by
  rw [← List.takeWhile_append_dropWhile (p := p) (l := s)] at hc
  refine (List.mem_append.1 hc).resolve_left fun htake => ?_
  rw [List.mem_takeWhile_imp htake] at hp
  cases hp

/-- Trimming leaves what is not blank. -/
theorem mem_trim {c : Char} (hc : c ∈ s) (hblank : isBlank c = false) : c ∈ trim s := by
  have hstart : c ∈ trimStart s := mem_dropWhile hc hblank
  exact List.mem_reverse.2 (mem_dropWhile (List.mem_reverse.2 hstart) hblank)

/-- What is left after trimming is trimmed, unless nothing is left. -/
theorem trimmed_trim (h : trim s ≠ []) : Trimmed (trim s) where
  head := by
    have hstart := startsBlank_trim s
    rw [startsBlank, List.head?_eq_some_head h] at hstart
    exact ⟨_, List.head?_eq_some_head h, hstart⟩
  last := by
    unfold trim trimEnd at h ⊢
    have hne : (trimStart s).reverse.dropWhile isBlank ≠ [] := by simpa using h
    refine ⟨_, (List.getLast?_reverse).trans (List.head?_eq_some_head hne), ?_⟩
    simpa using List.head_dropWhile_not isBlank hne

/-- A text that starts with something else than a blank. -/
theorem trim_trimStart_ne_nil (h : trimStart s ≠ []) : trim (trimStart s) ≠ [] := by
  obtain ⟨-, -, -, hstart⟩ := exists_trimStart s
  rw [startsBlank, List.head?_eq_some_head h] at hstart
  exact List.ne_nil_of_mem (mem_trim (List.head_mem h) hstart)

/-- Trimming twice is trimming once. -/
theorem trim_trim (s : List Char) : trim (trim s) = trim s := by
  by_cases h : trim s = []
  · rw [h]
    rfl
  · exact (trimmed_trim h).trim_eq

/-- Blanks at the end are lost. -/
theorem trim_append_blanks (s : List Char) {bs : List Char} (hbs : ∀ c ∈ bs, isBlank c = true) :
    trim (s ++ bs) = trim s := by
  have hstart : trimStart (s ++ bs) = if (trimStart s).isEmpty then [] else trimStart s ++ bs := by
    unfold trimStart
    rw [List.dropWhile_append, List.dropWhile_eq_nil_iff.2 hbs]
  rw [trim, hstart, trim]
  split
  · next h => rw [List.isEmpty_iff.1 h]
  · exact trimEnd_append_blanks _ hbs

/-- What is trimmed away is blank. -/
theorem exists_trim (s : List Char) : ∃ bs cs, s = bs ++ trim s ++ cs ∧
    (∀ c ∈ bs, isBlank c = true) ∧ ∀ c ∈ cs, isBlank c = true := by
  obtain ⟨bs, hbs, hblank, -⟩ := exists_trimStart s
  obtain ⟨cs, hcs, hblank', -⟩ := exists_trimStart (trimStart s).reverse
  refine ⟨bs, cs.reverse, ?_, hblank, fun c hc => hblank' c (List.mem_reverse.1 hc)⟩
  have hend : trimStart s = trim s ++ cs.reverse := by
    have h := congrArg List.reverse hcs
    rw [List.reverse_reverse, List.reverse_append] at h
    exact h
  rw [List.append_assoc, ← hend, ← hbs]

/-- The last character of a text that is not blank. -/
theorem exists_last (h : trim s ≠ []) : ∃ u c bs, s = u ++ c :: bs ∧ isBlank c = false ∧
    ∀ b ∈ bs, isBlank b = true := by
  obtain ⟨bs, cs, heq, -, hcs⟩ := exists_trim s
  obtain ⟨c, hc, hblank⟩ := (trimmed_trim h).last
  obtain ⟨t, ht⟩ := List.getLast?_eq_some_iff.1 (Option.mem_def.1 hc)
  refine ⟨bs ++ t, c, cs, ?_, hblank, hcs⟩
  rw [ht] at heq
  simpa using heq

/-- The last character that is no blank ends the trimmed text. -/
theorem getLast?_trim (u : List Char) {c : Char} (hc : isBlank c = false) {bs : List Char}
    (hbs : ∀ b ∈ bs, isBlank b = true) : (trim (u ++ c :: bs)).getLast? = some c := by
  rw [List.append_cons, trim_append_blanks _ hbs, trim_snoc_of_not_isBlank hc, List.getLast?_concat]

end Trim

/-- The characters of a text that are not blank. -/
def unspaced (s : List Char) : List Char :=
  s.filter fun c => !isBlank c

theorem unspaced_append (s t : List Char) : unspaced (s ++ t) = unspaced s ++ unspaced t :=
  List.filter_append s t

theorem unspaced_cons {c : Char} (hc : isBlank c = false) (s : List Char) :
    unspaced (c :: s) = c :: unspaced s :=
  List.filter_cons_of_pos (by simp [hc])

/-- Only blanks are deleted with the blanks. -/
theorem unspaced_eq_nil {s : List Char} (h : ∀ c ∈ s, isBlank c = true) : unspaced s = [] :=
  List.filter_eq_nil_iff.2 fun c hc => by simp [h c hc]

/-- Trimming deletes blanks only. -/
theorem unspaced_trim (s : List Char) : unspaced (trim s) = unspaced s := by
  obtain ⟨bs, cs, heq, hbs, hcs⟩ := exists_trim s
  conv_rhs => rw [heq, unspaced_append, unspaced_append, unspaced_eq_nil hbs, unspaced_eq_nil hcs]
  rw [List.append_nil, List.nil_append]

/-! ## Recognisers -/

theorem after?_append (p s : List Char) : after? p (p ++ s) = some s :=
  after?_eq_some_iff.2 rfl

/-- A text is cut at the first place where the character stands. -/
theorem cutAt_append {c : Char} {a : List Char} (h : c ∉ a) (b : List Char) :
    cutAt c (a ++ c :: b) = some (a, b) := by
  induction a with
  | nil => simp [cutAt]
  | cons x a ih =>
    simp only [List.mem_cons, not_or] at h
    simp [cutAt, Ne.symm h.1, ih h.2]

/-- What is taken is a front part that passes the test, not empty and as long as can be. -/
theorem eq_of_takeSome {p : Char → Bool} {s w r : List Char} (h : takeSome p s = some (w, r)) :
    s = w ++ r ∧ w ≠ [] ∧ (∀ c ∈ w, p c = true) ∧ r.head?.any p = false := by
  unfold takeSome at h
  split at h
  · cases h
  · next hne =>
    cases h
    refine ⟨List.takeWhile_append_dropWhile.symm, hne, fun c hc => List.mem_takeWhile_imp hc, ?_⟩
    cases hd : s.dropWhile p with
    | nil => rfl
    | cons c r =>
      have := List.head_dropWhile_not p (l := s) (by simp [hd])
      simpa [hd] using this

/-- Conversely, a front part that passes the test and that nothing extends is taken. -/
theorem takeSome_append {p : Char → Bool} {w s : List Char} (hw : w ≠ [])
    (hp : ∀ c ∈ w, p c = true) (hs : s.head?.any p = false) :
    takeSome p (w ++ s) = some (w, s) := by
  have htake : s.takeWhile p = [] ∧ s.dropWhile p = s := by
    cases s with
    | nil => exact ⟨rfl, rfl⟩
    | cons c s =>
      have hc : ¬p c = true := by simpa using hs
      exact ⟨List.takeWhile_cons_of_neg hc, List.dropWhile_cons_of_neg hc⟩
  unfold takeSome
  rw [List.takeWhile_append_of_pos hp, List.dropWhile_append_of_pos hp, htake.1, htake.2,
    List.append_nil]
  split
  · exact absurd rfl hw
  · rfl

/-- Behind at least one blank, all further blanks are skipped. -/
theorem eq_of_afterBlanks? {s r : List Char} (h : afterBlanks? s = some r) :
    ∃ b bs, s = b :: bs ++ r ∧ isBlank b = true ∧ r = trimStart r := by
  cases s with
  | nil => cases h
  | cons c cs =>
    rw [afterBlanks?] at h
    split at h
    · next hc =>
      obtain rfl := Option.some.inj h
      obtain ⟨bs, hbs, -, hstart⟩ := exists_trimStart cs
      exact ⟨c, bs, congrArg _ hbs, hc, (trimStart_eq_self hstart).symm⟩
    · cases h

/-! ## Lists -/

/-- A list of texts, a comma and a space between them. -/
def commaList (as : List (List Char)) : List Char :=
  [',', ' '].intercalate as

theorem commaList_cons_cons (a b : List Char) (as : List (List Char)) :
    commaList (a :: b :: as) = a ++ ',' :: ' ' :: commaList (b :: as) := by
  simp [commaList, List.intercalate_cons_cons]

theorem commaList_singleton (a : List Char) : commaList [a] = a :=
  List.intercalate_singleton

/-- A list with commas has no characters but those of its parts, commas and spaces. -/
theorem forall_mem_commaList {p : Char → Prop} (hcomma : p ',') (hspace : p ' ')
    {as : List (List Char)} (has : ∀ a ∈ as, ∀ c ∈ a, p c) : ∀ c ∈ commaList as, p c := by
  induction as with
  | nil => exact List.forall_mem_nil p
  | cons a as ih =>
    obtain ⟨ha, hrest⟩ := List.forall_mem_cons.1 has
    cases as with
    | nil => rwa [commaList_singleton]
    | cons b bs =>
      rw [commaList_cons_cons]
      exact List.forall_mem_append.2 ⟨ha, List.forall_mem_cons.2 ⟨hcomma,
        List.forall_mem_cons.2 ⟨hspace, ih hrest⟩⟩⟩

theorem mem_commaList {as : List (List Char)} {a : List Char} (ha : a ∈ as) {c : Char}
    (hc : c ∈ a) : c ∈ commaList as := by
  induction as with
  | nil => cases ha
  | cons b as ih =>
    cases as with
    | nil =>
      rw [commaList_singleton, ← List.mem_singleton.1 ha]
      exact hc
    | cons d ds =>
      rw [commaList_cons_cons]
      rcases List.mem_cons.1 ha with rfl | ha
      · exact List.mem_append_left _ hc
      · exact List.mem_append_right _ (List.mem_cons_of_mem _ (List.mem_cons_of_mem _ (ih ha)))

/-- A list with commas ends as its last part does. -/
theorem getLast?_commaList {as : List (List Char)} {a : List Char} (hne : a ≠ []) :
    (commaList (as ++ [a])).getLast? = a.getLast? := by
  induction as with
  | nil => rw [List.nil_append, commaList_singleton]
  | cons b as ih =>
    obtain ⟨c, cs, hcs⟩ := List.exists_cons_of_ne_nil (List.append_ne_nil_of_right_ne_nil as
      (List.cons_ne_nil a []))
    rw [List.cons_append, hcs, commaList_cons_cons, ← hcs, List.getLast?_append, List.getLast?_cons,
      List.getLast?_cons, ih, List.getLast?_eq_some_getLast hne]
    rfl

/-- A list of trimmed parts is trimmed. -/
theorem trimmed_commaList {as : List (List Char)} (hne : as ≠ []) (htrim : ∀ a ∈ as, Trimmed a) :
    Trimmed (commaList as) := by
  obtain ⟨init, a, rfl⟩ := (List.eq_nil_or_concat as).resolve_left hne
  rw [List.concat_eq_append] at htrim ⊢
  have ha := htrim a (by simp)
  refine ⟨?_, ?_⟩
  · cases init with
    | nil =>
      rw [List.nil_append, commaList_singleton]
      exact ha.head
    | cons b bs =>
      obtain ⟨c, hc, hblank⟩ := (htrim b (by simp)).head
      obtain ⟨d, ds, hds⟩ := List.exists_cons_of_ne_nil (List.append_ne_nil_of_right_ne_nil bs
        (List.cons_ne_nil a []))
      refine ⟨c, ?_, hblank⟩
      rw [List.cons_append, hds, commaList_cons_cons, List.head?_append, Option.mem_def.1 hc]
      rfl
  · obtain ⟨c, hc, hblank⟩ := ha.last
    exact ⟨c, by rw [getLast?_commaList ha.ne_nil]; exact hc, hblank⟩

/-! ### Parts between commas -/

/-- A part between separators has characters of the text, and no separator. -/
theorem of_mem_splitOnP {q : Char → Bool} {s p : List Char} (h : p ∈ s.splitOnP q) :
    p ⊆ s ∧ ∀ c ∈ p, q c = false := by
  induction s generalizing p with
  | nil =>
    obtain rfl := List.mem_singleton.1 h
    exact ⟨List.Subset.refl _, List.forall_mem_nil _⟩
  | cons x s ih =>
    rw [List.splitOnP_cons_eq_if_modifyHead] at h
    split at h
    · rcases List.mem_cons.1 h with rfl | h
      · exact ⟨List.nil_subset _, List.forall_mem_nil _⟩
      · exact ⟨List.subset_cons_of_subset x (ih h).1, (ih h).2⟩
    · next hx =>
      obtain ⟨r, rs, hr⟩ := List.exists_cons_of_ne_nil (List.splitOnP_ne_nil q s)
      rw [hr, List.modifyHead_cons] at h
      rcases List.mem_cons.1 h with rfl | h
      · obtain ⟨hsub, hall⟩ := ih (hr ▸ List.mem_cons_self)
        exact ⟨List.cons_subset_cons x hsub,
          List.forall_mem_cons.2 ⟨Bool.eq_false_iff.2 hx, hall⟩⟩
      · obtain ⟨hsub, hall⟩ := ih (hr ▸ List.mem_cons_of_mem r h)
        exact ⟨List.subset_cons_of_subset x hsub, hall⟩

theorem subset_of_mem_commaParts {s p : List Char} (h : p ∈ commaParts s) : p ⊆ s := by
  obtain ⟨q, hq, rfl⟩ := List.mem_map.1 (List.mem_filter.1 h).1
  rw [List.splitOn_eq_splitOnP] at hq
  exact List.Subset.trans (trim_subset q) (of_mem_splitOnP hq).1

/-- A comma separates the parts before it from those behind it. -/
theorem commaParts_append (s t : List Char) :
    commaParts (s ++ ',' :: t) = commaParts s ++ commaParts t := by
  unfold commaParts List.splitOn
  rw [List.splitOnP_append_cons s t (by decide), List.map_append, List.filter_append]

theorem commaParts_space (s : List Char) : commaParts (' ' :: s) = commaParts s := by
  have htrim : ∀ p, trim (' ' :: p) = trim p := fun p => rfl
  unfold commaParts
  rw [List.splitOn_cons_eq_if_modifyHead, if_neg (by decide)]
  cases s.splitOn ',' with
  | nil => rfl
  | cons p ps => rw [List.modifyHead_cons, List.map_cons, htrim, List.map_cons]

theorem splitOn_of_not_mem {c : Char} {s : List Char} (h : c ∉ s) : s.splitOn c = [s] := by
  refine List.splitOnP_eq_singleton fun x hx => beq_eq_false_iff_ne.2 ?_
  rintro rfl
  exact h hx

/-- Without a comma there is one part. -/
theorem commaParts_of_not_mem {s : List Char} (h : ',' ∉ s) (ht : Trimmed s) :
    commaParts s = [s] := by
  rw [commaParts, splitOn_of_not_mem h, List.map_singleton, ht.trim_eq,
    List.filter_cons_of_pos (by simpa using ht.ne_nil)]
  rfl

/-- Parts without commas are found again in the list that they are written to. -/
theorem commaParts_commaList {as : List (List Char)} (has : ∀ a ∈ as, ',' ∉ a ∧ Trimmed a) :
    commaParts (commaList as) = as := by
  induction as with
  | nil => rfl
  | cons a as ih =>
    obtain ⟨⟨hcomma, htrim⟩, hrest⟩ := List.forall_mem_cons.1 has
    cases as with
    | nil => rw [commaList_singleton, commaParts_of_not_mem hcomma htrim]
    | cons b bs =>
      rw [commaList_cons_cons, commaParts_append, commaParts_of_not_mem hcomma htrim,
        commaParts_space, ih hrest]
      rfl

end ClassSketch.Text
