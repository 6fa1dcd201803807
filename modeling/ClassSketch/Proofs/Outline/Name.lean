import ClassSketch.Proofs.Outline.Line

/-!
# Names and types as texts

What the words, dotted words and types of an outline look like to a recogniser :
which characters they are made of, that they have no blank at their ends, and
where a scan over them stops. A keyword is found at the start of a text only
if it is the whole first word and a blank follows it (`keyword_eq_none`).
-/

namespace ClassSketch

open Text

/-! ## Words -/

namespace Text

theorem isWord_eq_false_of_isBlank {c : Char} (h : isBlank c = true) : isWord c = false := by
  have htable : ∀ r ∈ blankRanges, ∀ n ∈ List.range' r.1 (r.2 + 1 - r.1),
      isWord (Char.ofNat n) = false := by
    decide +kernel
  obtain ⟨r, hr, hle, hge⟩ := inRanges_iff.1 h
  have hmem : c.toNat ∈ List.range' r.1 (r.2 + 1 - r.1) := by
    rw [List.mem_range'_1]
    omega
  have hword := htable r hr c.toNat hmem
  rwa [Char.ofNat_toNat] at hword

theorem isBlank_eq_false_of_isWord {c : Char} (h : isWord c = true) : isBlank c = false := by
  by_contra hblank
  rw [isWord_eq_false_of_isBlank (by simpa using hblank)] at h
  cases h

theorem isBlank_eq_false_of_isDotted {c : Char} (h : isDotted c = true) : isBlank c = false := by
  rw [isDotted, Bool.or_eq_true, beq_iff_eq] at h
  rcases h with h | rfl
  · exact isBlank_eq_false_of_isWord h
  · decide

/-- A keyword at the start of a text is the whole first word, with a blank after it. -/
theorem keyword_eq_none {k w s : List Char} (hk : ∀ c ∈ k, isWord c = true)
    (hw : ∀ c ∈ w, isWord c = true) (hs : s.head?.any isWord = false)
    (h : w ≠ k ∨ startsBlank s = false) : (after? k (w ++ s)).bind afterBlanks? = none := by
  cases hfound : (after? k (w ++ s)).bind afterBlanks? with
  | none => rfl
  | some r =>
    obtain ⟨t, hafter, hblanks⟩ := Option.bind_eq_some_iff.1 hfound
    obtain ⟨b, bs, rfl, hb, -⟩ := eq_of_afterBlanks? hblanks
    have hstop : (b :: bs ++ r).head?.any isWord = false := isWord_eq_false_of_isBlank hb
    have htake : ∀ {u v : List Char}, (∀ c ∈ u, isWord c = true) → v.head?.any isWord = false →
        (u ++ v).takeWhile isWord = u := by
      intro u v hu hv
      rw [List.takeWhile_append_of_pos hu]
      cases v with
      | nil => rw [List.takeWhile_nil, List.append_nil]
      | cons c v =>
        rw [List.takeWhile_cons_of_neg (by simpa using hv), List.append_nil]
    have heq := after?_eq_some_iff.1 hafter
    have hwk : w = k := by rw [← htake hw hs, heq, htake hk hstop]
    rw [hwk] at heq
    rw [List.append_cancel_left heq] at h
    rcases h with hne | hblank
    · exact absurd hwk hne
    · exact absurd hblank (by simp [startsBlank, hb])

end Text

namespace Outline

namespace Word

variable (w : Word)

theorem isWord_of_mem : ∀ c ∈ w.chars, isWord c = true := by
  have h := w.isWordText
  rw [Text.isWordText, Bool.and_eq_true, List.all_eq_true] at h
  exact h.2

theorem chars_ne_nil : w.chars ≠ [] := by
  have h := w.isWordText
  rw [Text.isWordText, Bool.and_eq_true] at h
  simpa using h.1

theorem ink : Ink w.chars :=
  .of_word w.isWord_of_mem

theorem trimmed : Trimmed w.chars :=
  .of_forall w.chars_ne_nil fun c hc => isBlank_eq_false_of_isWord (w.isWord_of_mem c hc)

/-- A character that is not of a word is not in one. -/
theorem not_mem {c : Char} (hc : isWord c = false) : c ∉ w.chars :=
  fun h => absurd (w.isWord_of_mem c h) (by simp [hc])

/-- A word is read up to its end. -/
theorem takeSome_append {s : List Char} (hs : s.head?.any isWord = false) :
    takeSome isWord (w.chars ++ s) = some (w.chars, s) :=
  Text.takeSome_append w.chars_ne_nil w.isWord_of_mem hs

end Word

namespace Dotted

variable (d : Dotted)

theorem isDotted_of_mem : ∀ c ∈ d.chars, isDotted c = true := by
  refine List.forall_mem_append.2 ⟨fun c hc => isDotted_of_isWord (d.first.isWord_of_mem c hc), ?_⟩
  intro c hc
  obtain ⟨w, -, hw⟩ := List.mem_flatMap.1 hc
  rcases List.mem_cons.1 hw with rfl | hw
  · decide
  · exact isDotted_of_isWord (w.isWord_of_mem c hw)

theorem chars_ne_nil : d.chars ≠ [] :=
  List.append_ne_nil_of_left_ne_nil d.first.chars_ne_nil _

theorem ink : Ink d.chars := by
  intro c hc
  have h := d.isDotted_of_mem c hc
  rw [isDotted, Bool.or_eq_true, beq_iff_eq] at h
  rcases h with h | rfl
  · rw [isInk, h, Bool.true_or]
  · decide

theorem trimmed : Trimmed d.chars :=
  .of_forall d.chars_ne_nil fun c hc => isBlank_eq_false_of_isDotted (d.isDotted_of_mem c hc)

theorem not_mem {c : Char} (hc : isDotted c = false) : c ∉ d.chars :=
  fun h => absurd (d.isDotted_of_mem c h) (by simp [hc])

/-- A dotted name is read up to its end. -/
theorem takeSome_append {s : List Char} (hs : s.head?.any isDotted = false) :
    takeSome isDotted (d.chars ++ s) = some (d.chars, s) :=
  Text.takeSome_append d.chars_ne_nil d.isDotted_of_mem hs

theorem isName : TypeExpr.IsName d.chars where
  trimmed := d.trimmed
  plain c hc := by
    refine ⟨?_, ?_, ?_⟩ <;> rintro rfl <;> exact d.not_mem (by decide) hc

end Dotted

namespace TypeText

variable (t : TypeText)

theorem isName : t.type.Named TypeExpr.IsName :=
  t.named.mono fun _ ⟨d, hd⟩ => hd ▸ d.isName

theorem trimmed : Trimmed t.type.chars :=
  TypeExpr.trimmed_chars t.isName

/-- A type has the characters of its names and four signs. -/
theorem forall_mem {p : Char → Prop} (hsigns : ∀ c ∈ ['<', '>', ',', ' '], p c)
    (hp : ∀ d : Dotted, ∀ c ∈ d.chars, p c) : ∀ c ∈ t.type.chars, p c :=
  TypeExpr.forall_mem_chars hsigns (t.named.mono fun _ ⟨d, hd⟩ => hd ▸ hp d)

theorem ink : Ink t.type.chars :=
  t.forall_mem (forall_mem_of_all (by decide)) fun d => d.ink

theorem not_mem {c : Char} (hsigns : c ∉ ['<', '>', ',', ' ']) (hc : isDotted c = false) :
    c ∉ t.type.chars := by
  intro h
  refine t.forall_mem (p := fun x => x ≠ c) ?_ ?_ c h rfl
  · rintro x hx rfl
    exact hsigns hx
  · rintro d x hx rfl
    exact d.not_mem hc hx

end TypeText

end Outline

end ClassSketch
