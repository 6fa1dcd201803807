import ClassSketch.Proofs.Scan
import ClassSketch.TypeExpr.Reader

/-!
# Texts with angle brackets

Inside brackets no comma separates. A text whose brackets match and that has no comma
outside them goes through `pieces` as a whole (`Whole`), and a list of such texts is cut
where it was joined (`pieces_intercalate`). Whether a text is whole can be seen from the
text alone (`whole_iff`), and a text whose brackets match is cut into whole texts
(`whole_of_mem_pieces`).

So a text is a list of arguments exactly if its brackets match and none of its pieces is
blank (`isArgList_iff`).
-/

namespace ClassSketch.TypeExpr

open Text

/-! ## Texts without commas at the top -/

/-- A text that can stand before any other without a cut in it, its brackets matching. -/
structure Whole (a : List Char) : Prop where
  pieces (d : Nat) (s : List Char) :
    pieces d (a ++ s) = (TypeExpr.pieces d s).modifyHead (a ++ ·)
  balanced (d : Nat) (s : List Char) : balancedFrom d (a ++ s) = balancedFrom d s

/-- A character that does not cut goes to the front of the first piece. -/
theorem pieces_cons {depth : Int} {c : Char} (h : c ≠ ',' ∨ depth ≠ 0) (s : List Char) :
    pieces depth (c :: s) = (pieces (angleStep depth c) s).modifyHead (c :: ·) := by
  rw [pieces, if_neg]
  rintro ⟨hc, hd⟩
  exact h.elim (· hc) (· hd)

theorem modifyHead_modifyHead_append (a b : List Char) (ps : List (List Char)) :
    (ps.modifyHead (b ++ ·)).modifyHead (a ++ ·) = ps.modifyHead (a ++ b ++ ·) := by
  cases ps <;> simp

namespace Whole

theorem nil : Whole [] where
  pieces d s := by
    obtain ⟨p, ps, h⟩ := List.exists_cons_of_ne_nil (pieces_ne_nil d s)
    simp [h]
  balanced _ _ := rfl

/-- Whole texts may follow each other. -/
theorem append {a b : List Char} (ha : Whole a) (hb : Whole b) : Whole (a ++ b) where
  pieces d s := by
    rw [List.append_assoc, ha.pieces, hb.pieces, modifyHead_modifyHead_append]
  balanced d s := by rw [List.append_assoc, ha.balanced, hb.balanced]

theorem singleton {c : Char} (h : c ≠ ',' ∧ c ≠ '<' ∧ c ≠ '>') : Whole [c] where
  pieces d s := by
    have hstep : angleStep d c = d := by rw [angleStep, if_neg h.2.1, if_neg h.2.2]
    rw [List.singleton_append, pieces_cons (Or.inl h.1), hstep]
    rfl
  balanced d s := by simp [balancedFrom, h.2.1, h.2.2]

/-- A text without commas and brackets is whole. -/
theorem of_forall {a : List Char} (h : ∀ c ∈ a, c ≠ ',' ∧ c ≠ '<' ∧ c ≠ '>') : Whole a := by
  induction a with
  | nil => exact nil
  | cons c a ih =>
    obtain ⟨hc, ha⟩ := List.forall_mem_cons.1 h
    exact (singleton hc).append (ih ha)

end Whole

/-- A comma behind a whole text cuts it off. -/
theorem pieces_append_comma {a : List Char} (ha : Whole a) (s : List Char) :
    pieces 0 (a ++ ',' :: s) = a :: pieces 0 s := by
  have h : pieces 0 (a ++ ',' :: s) = (pieces 0 (',' :: s)).modifyHead (a ++ ·) := ha.pieces 0 _
  rw [h, pieces, if_pos ⟨rfl, rfl⟩, List.modifyHead_cons, List.append_nil]

/-- A whole text is one piece. -/
theorem pieces_whole {a : List Char} (ha : Whole a) : pieces 0 a = [a] := by
  have h : pieces 0 (a ++ []) = [a ++ []] := ha.pieces 0 []
  rwa [List.append_nil] at h

/-! ## Matching brackets -/

/-- One character of a text whose brackets match makes the same step at every depth. -/
theorem balancedFrom_step {k : Nat} {c : Char} {s : List Char}
    (h : balancedFrom k (c :: s) = true) : ∃ k' : Nat, balancedFrom k' s = true ∧
      angleStep k c = k' ∧ ∀ e : Nat, angleStep (k + e : Nat) c = (k' + e : Nat) ∧
        ∀ t, balancedFrom (k + e) (c :: t) = balancedFrom (k' + e) t := by
  by_cases hopen : c = '<'
  · subst hopen
    refine ⟨k + 1, h, rfl, fun e => ⟨?_, fun t => ?_⟩⟩
    · show ((k + e : Nat) : Int) + 1 = (k + 1 + e : Nat)
      omega
    · rw [Nat.add_right_comm]
      rfl
  by_cases hclose : c = '>'
  · subst hclose
    cases k with
    | zero => cases h
    | succ k =>
      have hstep (e : Nat) : angleStep (k + 1 + e : Nat) '>' = (k + e : Nat) := by
        show ((k + 1 + e : Nat) : Int) - 1 = (k + e : Nat)
        omega
      refine ⟨k, h, hstep 0, fun e => ⟨hstep e, fun t => ?_⟩⟩
      rw [Nat.add_right_comm]
      rfl
  · have hkeep : ∀ d t, balancedFrom d (c :: t) = balancedFrom d t := by
      intro d t
      simp [balancedFrom, hopen, hclose]
    have hstep (d : Int) : angleStep d c = d := by
      rw [angleStep, if_neg hopen, if_neg hclose]
    exact ⟨k, (hkeep k s).symm.trans h, hstep k, fun e => ⟨hstep _, hkeep (k + e)⟩⟩

/-- A character that does not cut adds no piece. -/
theorem length_pieces_cons {depth : Int} {c : Char} (h : c ≠ ',' ∨ depth ≠ 0) (s : List Char) :
    (pieces depth (c :: s)).length = (pieces (angleStep depth c) s).length := by
  rw [pieces_cons h, List.length_modifyHead]

/-- A comma outside brackets cuts. -/
theorem length_pieces_comma (s : List Char) :
    (pieces 0 (',' :: s)).length = (pieces 0 s).length + 1 := by
  rw [pieces, if_pos ⟨rfl, rfl⟩, List.length_cons]

/-- A text with one piece has no comma at depth zero in front. -/
theorem ne_comma_of_length_pieces {depth : Int} {c : Char} {s : List Char}
    (h : (pieces depth (c :: s)).length = 1) : c ≠ ',' ∨ depth ≠ 0 := by
  by_contra hcut
  simp only [not_or, not_not] at hcut
  obtain ⟨rfl, rfl⟩ := hcut
  rw [length_pieces_comma] at h
  exact pieces_ne_nil 0 s (List.length_eq_zero_iff.1 (by omega))

/-- With `e` more brackets open, only the depth of what follows changes. Inside a bracket nothing
is cut, whatever the text. -/
theorem pieces_append_of_balancedFrom {k : Nat} {a : List Char} (hb : balancedFrom k a = true)
    {e : Nat} (hp : e ≠ 0 ∨ (pieces k a).length = 1) (s : List Char) :
    pieces (k + e : Nat) (a ++ s) = (pieces e s).modifyHead (a ++ ·) ∧
      balancedFrom (k + e) (a ++ s) = balancedFrom e s := by
  induction a generalizing k with
  | nil =>
    obtain rfl : k = 0 := by simpa [balancedFrom] using hb
    rw [Nat.zero_add]
    exact ⟨Whole.nil.pieces e s, rfl⟩
  | cons c a ih =>
    obtain ⟨k', hb', hangle, hstep⟩ := balancedFrom_step hb
    have hcut : c ≠ ',' ∨ ((k + e : Nat) : Int) ≠ 0 := by
      rcases hp with he | hp
      · exact .inr (by omega)
      · exact (ne_comma_of_length_pieces hp).imp_right fun hk => by omega
    have hp' : e ≠ 0 ∨ (pieces k' a).length = 1 := hp.imp_right fun hp => by
      rwa [length_pieces_cons (ne_comma_of_length_pieces hp), hangle] at hp
    obtain ⟨hpieces, hbalanced⟩ := ih hb' hp'
    constructor
    · rw [List.cons_append, pieces_cons hcut, (hstep e).1, hpieces]
      exact modifyHead_modifyHead_append [c] a _
    · rw [List.cons_append, (hstep e).2, hbalanced]

/-- A text is whole if its brackets match and no comma cuts it. -/
theorem whole_iff {a : List Char} : Whole a ↔ balanced a = true ∧ (pieces 0 a).length = 1 := by
  constructor
  · intro h
    have hbalanced := h.balanced 0 []
    rw [List.append_nil] at hbalanced
    exact ⟨hbalanced, by rw [pieces_whole h]; rfl⟩
  · rintro ⟨hb, hp⟩
    have h (d : Nat) (s : List Char) := pieces_append_of_balancedFrom hb (.inr hp) (e := d) s
    simp only [Nat.zero_add] at h
    exact ⟨fun d s => (h d s).1, fun d s => (h d s).2⟩

/-- In brackets every text is whole whose own brackets match. -/
theorem Whole.bracket {a : List Char} (h : TypeExpr.balanced a = true) :
    Whole ('<' :: a ++ ['>']) where
  pieces d s := by
    have hinside := (pieces_append_of_balancedFrom h (.inl (Nat.succ_ne_zero d)) ('>' :: s)).1
    have hclose : angleStep (d + 1 : Nat) '>' = d := by
      show ((d + 1 : Nat) : Int) - 1 = d
      omega
    rw [Nat.zero_add, pieces_cons (Or.inl (by decide)), hclose] at hinside
    rw [List.append_assoc, List.cons_append, pieces_cons (Or.inl (by decide))]
    show List.modifyHead _ (TypeExpr.pieces (d + 1 : Nat) (a ++ '>' :: s)) = _
    rw [hinside]
    cases TypeExpr.pieces d s <;> simp
  balanced d s := by
    have hinside := (pieces_append_of_balancedFrom h (.inl (Nat.succ_ne_zero d)) ('>' :: s)).2
    rw [Nat.zero_add] at hinside
    show balancedFrom (d + 1) (a ++ ['>'] ++ s) = _
    rw [List.append_assoc, List.singleton_append, hinside]
    rfl

/-- Inside of `k` brackets, the first piece closes them, and each piece after it is whole. The
induction is on the text, for all depths at once. -/
theorem whole_of_mem_pieces_from {k : Nat} {s : List Char} (hb : balancedFrom k s = true) :
    ∃ p ps, pieces k s = p :: ps ∧ balancedFrom k p = true ∧ (pieces k p).length = 1 ∧
      ∀ q ∈ ps, Whole q := by
  induction s generalizing k with
  | nil => exact ⟨[], [], rfl, hb, rfl, List.forall_mem_nil _⟩
  | cons c s ih =>
    obtain ⟨k', hb', hangle, hstep⟩ := balancedFrom_step hb
    obtain ⟨p, ps, hps, hp, hlength, hrest⟩ := ih hb'
    by_cases hcut : c = ',' ∧ (k : Int) = 0
    · obtain ⟨rfl, hk⟩ := hcut
      obtain rfl : k = 0 := by omega
      obtain rfl : k' = 0 := by
        have h : (0 : Int) = k' := hangle
        omega
      refine ⟨[], p :: ps, ?_, rfl, rfl, List.forall_mem_cons.2 ⟨whole_iff.2 ⟨hp, hlength⟩, hrest⟩⟩
      show pieces 0 (',' :: s) = _
      rw [pieces, if_pos ⟨rfl, rfl⟩]
      exact congrArg _ hps
    · have hcut' : c ≠ ',' ∨ (k : Int) ≠ 0 := Decidable.not_and_iff_or_not.1 hcut
      refine ⟨c :: p, ps, ?_, ?_, ?_, hrest⟩
      · rw [pieces_cons hcut', hangle, hps, List.modifyHead_cons]
      · exact ((hstep 0).2 p).trans hp
      · rw [length_pieces_cons hcut', hangle, hlength]

/-- A text whose brackets match is cut into whole texts. -/
theorem whole_of_mem_pieces {s p : List Char} (hs : balanced s = true) (hp : p ∈ pieces 0 s) :
    Whole p := by
  obtain ⟨q, qs, hqs, hq, hlength, hrest⟩ := whole_of_mem_pieces_from hs
  have hmem : p ∈ q :: qs := hqs ▸ hp
  rcases List.mem_cons.1 hmem with rfl | hmem
  · exact whole_iff.2 ⟨hq, hlength⟩
  · exact hrest p hmem

/-! ### Lists of whole texts -/

/-- Outside brackets a list of whole texts is cut into them. -/
theorem pieces_intercalate {as : List (List Char)} (has : ∀ a ∈ as, Whole a) (hne : as ≠ []) :
    pieces 0 ([','].intercalate as) = as := by
  induction as with
  | nil => exact absurd rfl hne
  | cons a as ih =>
    obtain ⟨ha, hrest⟩ := List.forall_mem_cons.1 has
    cases as with
    | nil => rw [List.intercalate_singleton, pieces_whole ha]
    | cons b bs =>
      rw [List.intercalate_cons_cons, List.append_assoc, List.singleton_append,
        pieces_append_comma ha, ih hrest (List.cons_ne_nil b bs)]

theorem commaList_eq_intercalate (a : List Char) (as : List (List Char)) :
    commaList (a :: as) = [','].intercalate (a :: as.map (' ' :: ·)) := by
  induction as generalizing a with
  | nil => rw [commaList_singleton, List.map_nil, List.intercalate_singleton]
  | cons b bs ih =>
    have hspace : ∀ cs, [','].intercalate ((' ' :: b) :: cs) = ' ' :: [','].intercalate (b :: cs) := by
      intro cs
      cases cs <;> rfl
    rw [commaList_cons_cons, ih, List.map_cons, List.intercalate_cons_cons, hspace]
    simp

/-- Whole parts with commas between them leave the depth as it is. -/
theorem balancedFrom_intercalate {as : List (List Char)} (has : ∀ a ∈ as, Whole a) (d : Nat)
    (s : List Char) : balancedFrom d ([','].intercalate as ++ s) = balancedFrom d s := by
  induction as with
  | nil => rfl
  | cons a as ih =>
    obtain ⟨ha, hrest⟩ := List.forall_mem_cons.1 has
    cases as with
    | nil => rw [List.intercalate_singleton, ha.balanced]
    | cons b bs =>
      rw [List.intercalate_cons_cons, List.append_assoc, List.append_assoc, ha.balanced]
      exact ih hrest

/-- Spaces after the commas keep the texts of a list whole. -/
theorem whole_spaced {a : List Char} {as : List (List Char)} (has : ∀ b ∈ a :: as, Whole b) :
    ∀ b ∈ a :: as.map (' ' :: ·), Whole b := by
  obtain ⟨ha, hrest⟩ := List.forall_mem_cons.1 has
  refine List.forall_mem_cons.2 ⟨ha, List.forall_mem_map.2 fun b hb => ?_⟩
  exact (Whole.singleton (by decide)).append (hrest b hb)

/-- A space before each part is trimmed away. -/
theorem map_trim_spaced {a : List Char} {as : List (List Char)}
    (has : ∀ b ∈ a :: as, Trimmed b) : (a :: as.map (' ' :: ·)).map trim = a :: as := by
  obtain ⟨ha, hrest⟩ := List.forall_mem_cons.1 has
  have hspace : ∀ b ∈ as, (trim ∘ (' ' :: ·)) b = b := fun b hb => (hrest b hb).trim_space
  rw [List.map_cons, ha.trim_eq, List.map_map, List.map_congr_left hspace, List.map_id']

section CommaList

variable {as : List (List Char)} (has : ∀ a ∈ as, Whole a)

include has

theorem balancedFrom_commaList_append (d : Nat) (s : List Char) :
    balancedFrom d (commaList as ++ s) = balancedFrom d s := by
  cases as with
  | nil => rfl
  | cons a as =>
    rw [commaList_eq_intercalate, balancedFrom_intercalate (whole_spaced has)]

/-- A list in brackets is whole : its commas are inside. -/
theorem Whole.bracket_commaList : Whole ('<' :: commaList as ++ ['>']) := by
  refine .bracket ?_
  have h := balancedFrom_commaList_append has 0 []
  rwa [List.append_nil] at h

end CommaList

/-- The parts of a text whose pieces are known, all of them with something in them. -/
theorem topLevelParts_of_pieces {s : List Char} {as ps : List (List Char)} (hps : pieces 0 s = ps)
    (htrim : ps.map trim = as) (has : [] ∉ as) : topLevelParts s = as := by
  simp only [topLevelParts, hps, htrim]
  rw [if_neg fun hlast => has (List.mem_of_getLast? hlast)]

/-- Whole parts are found again in the list that they are written to. -/
theorem topLevelParts_commaList {as : List (List Char)} (has : ∀ a ∈ as, Whole a) (hne : as ≠ [])
    (htrim : ∀ a ∈ as, Trimmed a) : topLevelParts (commaList as) = as := by
  obtain ⟨a, rest, rfl⟩ := List.exists_cons_of_ne_nil hne
  have hpieces := pieces_intercalate (whole_spaced has) (List.cons_ne_nil _ _)
  rw [commaList_eq_intercalate]
  exact topLevelParts_of_pieces hpieces (map_trim_spaced htrim) fun h => (htrim [] h).ne_nil rfl

/-! ### Parts of whole texts -/

theorem whole_blanks {bs : List Char} (hbs : ∀ c ∈ bs, isBlank c = true) : Whole bs := by
  refine .of_forall fun c hc => ?_
  refine ⟨?_, ?_, ?_⟩ <;> rintro rfl <;> cases hbs _ hc

/-- A whole text at the end can be left off. -/
theorem balancedFrom_and_length_of_append {b : List Char} (hb : Whole b) {k : Nat} {a : List Char}
    (hbalanced : balancedFrom k (a ++ b) = true) (hlength : (pieces k (a ++ b)).length = 1) :
    balancedFrom k a = true ∧ (pieces k a).length = 1 := by
  induction a generalizing k with
  | nil =>
    have h := hb.balanced k []
    rw [List.append_nil] at h
    exact ⟨h ▸ hbalanced, rfl⟩
  | cons c a ih =>
    obtain ⟨k', hbalanced', hangle, hstep⟩ := balancedFrom_step hbalanced
    have hcut := ne_comma_of_length_pieces hlength
    rw [List.cons_append, length_pieces_cons hcut, hangle] at hlength
    obtain ⟨hfront, hfront'⟩ := ih hbalanced' hlength
    exact ⟨((hstep 0).2 a).trans hfront, by rw [length_pieces_cons hcut, hangle, hfront']⟩

/-- What is left of a whole text without whole texts at its ends is whole. -/
theorem Whole.middle {a b c : List Char} (ha : Whole a) (hc : Whole c) (h : Whole (a ++ b ++ c)) :
    Whole b := by
  obtain ⟨hbalanced, hlength⟩ := whole_iff.1 h
  have hpieces : TypeExpr.pieces 0 (a ++ (b ++ c)) =
      (TypeExpr.pieces 0 (b ++ c)).modifyHead (a ++ ·) := ha.pieces 0 _
  rw [List.append_assoc] at hbalanced hlength
  rw [hpieces, List.length_modifyHead] at hlength
  exact whole_iff.2 (balancedFrom_and_length_of_append hc ((ha.balanced 0 _).symm.trans hbalanced)
    hlength)

/-- A whole text stays whole when it is trimmed. -/
theorem Whole.trim {s : List Char} (h : Whole s) : Whole (trim s) := by
  obtain ⟨bs, cs, heq, hbs, hcs⟩ := exists_trim s
  rw [heq] at h
  exact (whole_blanks hbs).middle (whole_blanks hcs) h

/-- Before its first bracket a whole text has no comma. -/
theorem Whole.plain_of_append {a b : List Char} (h : Whole (a ++ b)) (ha : '<' ∉ a) :
    ∀ c ∈ a, c ≠ ',' ∧ c ≠ '<' ∧ c ≠ '>' := by
  induction a with
  | nil => exact List.forall_mem_nil _
  | cons c a ih =>
    obtain ⟨hopen, ha⟩ := not_or.1 (mt List.mem_cons.2 ha)
    obtain ⟨hbalanced, hlength⟩ := whole_iff.1 h
    have hclose : c ≠ '>' := by
      rintro rfl
      cases hbalanced
    have hcomma : c ≠ ',' := (ne_comma_of_length_pieces hlength).resolve_right fun h => h rfl
    have hc : Whole [c] := .singleton ⟨hcomma, Ne.symm hopen, hclose⟩
    have hrest : Whole ([c] ++ (a ++ b) ++ []) := by
      rwa [List.append_nil]
    exact List.forall_mem_cons.2 ⟨⟨hcomma, Ne.symm hopen, hclose⟩, ih (hc.middle .nil hrest) ha⟩

/-- A comma before a whole text is outside of all brackets, so that it cuts. -/
theorem length_pieces_comma_ne {k : Nat} {u bs : List Char} (hbs : Whole bs)
    (hb : balancedFrom k (u ++ ',' :: bs) = true) : (pieces k (u ++ ',' :: bs)).length ≠ 1 := by
  induction u generalizing k with
  | nil =>
    have hkeep : balancedFrom k (',' :: bs) = balancedFrom k bs := by simp [balancedFrom]
    have hzero := hbs.balanced k []
    rw [List.append_nil, ← hkeep, ← List.nil_append (',' :: bs), hb] at hzero
    obtain rfl : k = 0 := by simpa [balancedFrom] using hzero.symm
    intro h
    exact absurd rfl ((ne_comma_of_length_pieces h).resolve_left fun h => h rfl)
  | cons c u ih =>
    intro h
    obtain ⟨k', hb', hangle, -⟩ := balancedFrom_step hb
    rw [List.cons_append, length_pieces_cons (ne_comma_of_length_pieces h), hangle] at h
    exact ih hb' h

/-- A whole text does not end with a comma. -/
theorem Whole.getLast?_trim_ne {a : List Char} (h : Whole a) :
    (Text.trim a).getLast? ≠ some ',' := by
  intro hlast
  have hne : Text.trim a ≠ [] := by
    intro hnil
    rw [hnil] at hlast
    cases hlast
  obtain ⟨u, c, bs, rfl, hc, hbs⟩ := exists_last hne
  rw [getLast?_trim u hc hbs, Option.some.injEq] at hlast
  obtain rfl := hlast
  obtain ⟨hbalanced, hlength⟩ := whole_iff.1 h
  exact length_pieces_comma_ne (whole_blanks hbs) hbalanced hlength

/-! ## Lists of arguments -/

theorem intercalate_concat (as : List (List Char)) (a : List Char) :
    [','].intercalate (as ++ [a]) = as.flatMap (· ++ [',']) ++ a := by
  induction as with
  | nil => exact List.intercalate_singleton
  | cons b bs ih =>
    obtain ⟨c, cs, hcs⟩ := List.exists_cons_of_ne_nil (List.append_ne_nil_of_right_ne_nil bs
      (List.cons_ne_nil a []))
    rw [List.cons_append, hcs, List.intercalate_cons_cons, ← hcs, ih, List.flatMap_cons]
    simp only [List.append_assoc]

section ArgList

variable {s : List Char}

/-- The last piece of a text, and what stands before it. -/
theorem exists_last_piece (s : List Char) : ∃ ps p, pieces 0 s = ps ++ [p] ∧
    s = ps.flatMap (· ++ [',']) ++ p := by
  obtain ⟨ps, p, hps⟩ := (List.eq_nil_or_concat (pieces 0 s)).resolve_left (pieces_ne_nil 0 s)
  rw [List.concat_eq_append] at hps
  refine ⟨ps, p, hps, ?_⟩
  rw [← intercalate_concat, ← hps, intercalate_pieces]

/-- Pieces that are not blank are all parts. -/
theorem topLevelParts_of_visible (h : ∀ p ∈ pieces 0 s, trim p ≠ []) :
    topLevelParts s = (pieces 0 s).map trim := by
  refine topLevelParts_of_pieces rfl rfl fun hmem => ?_
  obtain ⟨p, hp, hnil⟩ := List.mem_map.1 hmem
  exact h p hp hnil

/-- The last piece of a list of arguments is not blank : it would follow a comma or be the only
one. -/
theorem trim_last_piece_ne_nil (hlast : (trim s).getLast? ≠ some ',') (hparts : topLevelParts s ≠ [])
    {ps : List (List Char)} {p : List Char} (hps : pieces 0 s = ps ++ [p])
    (hs : s = ps.flatMap (· ++ [',']) ++ p) : trim p ≠ [] := by
  intro hp
  rcases List.eq_nil_or_concat ps with rfl | ⟨qs, q, rfl⟩
  · refine hparts ?_
    simp [topLevelParts, hps, hp]
  · have hblank : ∀ c ∈ p, isBlank c = true := by
      intro c hc
      by_contra hnot
      have hmem := mem_trim hc (Bool.eq_false_iff.2 hnot)
      rw [hp] at hmem
      cases hmem
    refine hlast ?_
    have heq : s = (qs.flatMap (· ++ [',']) ++ q) ++ ',' :: p := by
      rw [hs]
      simp
    rw [heq, getLast?_trim _ (by decide) hblank]

/-- A list of arguments has its brackets closed and no blank piece. -/
theorem isArgList_iff :
    isArgList s = true ↔ balanced s = true ∧ ∀ p ∈ pieces 0 s, trim p ≠ [] := by
  obtain ⟨ps, p, hps, hs⟩ := exists_last_piece s
  simp only [isArgList, Bool.and_eq_true, bne_iff_ne, ne_eq, Bool.not_eq_true',
    List.isEmpty_eq_false_iff, List.all_eq_true]
  constructor
  · rintro ⟨⟨⟨hbalanced, hlast⟩, hne⟩, hall⟩
    have hp := trim_last_piece_ne_nil hlast hne hps hs
    have hparts : topLevelParts s = (pieces 0 s).map trim := by
      have hend : ((pieces 0 s).map trim).getLast? ≠ some [] := by
        rw [hps, List.map_append, List.map_singleton, List.getLast?_concat]
        simpa using hp
      rw [topLevelParts, if_neg hend]
    rw [hparts] at hall
    exact ⟨hbalanced, fun q hq => hall _ (List.mem_map_of_mem hq)⟩
  · rintro ⟨hbalanced, hvisible⟩
    have hmem : p ∈ pieces 0 s := by simp [hps]
    rw [topLevelParts_of_visible hvisible]
    refine ⟨⟨⟨hbalanced, ?_⟩, by simp [pieces_ne_nil]⟩, List.forall_mem_map.2 hvisible⟩
    obtain ⟨u, c, bs, hp, hc, hbs⟩ := exists_last (hvisible p hmem)
    have hcomma := (whole_of_mem_pieces hbalanced hmem).getLast?_trim_ne
    rw [hp, getLast?_trim u hc hbs] at hcomma
    rw [hs, hp, ← List.append_assoc, getLast?_trim _ hc hbs]
    exact hcomma

end ArgList

end ClassSketch.TypeExpr
