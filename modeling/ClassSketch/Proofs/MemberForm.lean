import Mathlib.Data.Option.Basic
import ClassSketch.Member.Shape
import ClassSketch.Proofs.Scan

/-!
# The parts of a member form

Whatever a call or field form is taken apart into is made of characters of its text
(`CallText.Within`, `FieldText.Within`).
-/

namespace ClassSketch

open Text

/-! ## Parts of a text -/

namespace Text

variable {s r : List Char}

theorem subset_of_trimStart_eq {c : Char} (h : trimStart s = c :: r) : r ⊆ s :=
  fun _ hx => trimStart_subset s (h ▸ List.mem_cons_of_mem c hx)

theorem subset_of_cutAt {c : Char} {a b : List Char} (h : cutAt c s = some (a, b)) :
    a ⊆ s ∧ b ⊆ s := by
  rw [(eq_of_cutAt h).1]
  exact ⟨List.subset_append_left a _, fun x hx => by simp [hx]⟩

theorem subset_of_takeSome {p : Char → Bool} {w : List Char} (h : takeSome p s = some (w, r)) :
    w ⊆ s ∧ r ⊆ s := by
  rw [(eq_of_takeSome h).1]
  exact ⟨List.subset_append_left w r, List.subset_append_right w r⟩

theorem subset_of_afterBlanks? (h : afterBlanks? s = some r) : r ⊆ s := by
  obtain ⟨b, bs, rfl, -⟩ := eq_of_afterBlanks? h
  exact List.subset_append_right _ r

/-- What follows a character is part of the text. -/
theorem subset_of_mem_restsAfter {c : Char} (hc : c ≠ '\n') (h : r ∈ restsAfter c s) : r ⊆ s := by
  obtain ⟨a, rfl, -⟩ := (mem_restsAfter hc).1 h
  exact fun x hx => by simp [hx]

theorem before_subset (rest s : List Char) : before rest s ⊆ s :=
  List.take_subset _ s

/-- Without the character, a text in front gives no further rest. -/
theorem restsAfter_append {c : Char} {a : List Char} (hc : c ∉ a) (hn : '\n' ∉ a)
    (s : List Char) : restsAfter c (a ++ s) = restsAfter c s := by
  induction a with
  | nil => rfl
  | cons x a ih =>
    obtain ⟨hc1, hc2⟩ := not_or.1 (mt List.mem_cons.2 hc)
    obtain ⟨hn1, hn2⟩ := not_or.1 (mt List.mem_cons.2 hn)
    rw [List.cons_append, restsAfter, if_neg (Ne.symm hn1), if_neg (Ne.symm hc1), ih hc2 hn2]

theorem restsAfter_eq_nil {c : Char} {s : List Char} (hc : c ∉ s) (hn : '\n' ∉ s) :
    restsAfter c s = [] := by
  have h := restsAfter_append hc hn []
  rwa [List.append_nil] at h

/-- What follows a `c` stands before what follows the later ones. -/
theorem exists_restsAfter {c : Char} (hc : c ≠ '\n') {a : List Char} (hn : '\n' ∉ a)
    (s : List Char) : ∃ xs, restsAfter c (a ++ c :: s) = xs ++ s :: restsAfter c s := by
  induction a with
  | nil => exact ⟨[], by rw [List.nil_append, restsAfter, if_neg hc, if_pos rfl, List.nil_append]⟩
  | cons x a ih =>
    obtain ⟨hx, hn⟩ := not_or.1 (mt List.mem_cons.2 hn)
    obtain ⟨xs, hxs⟩ := ih hn
    rw [List.cons_append, restsAfter, if_neg (Ne.symm hx), hxs]
    split
    · exact ⟨(a ++ c :: s) :: xs, rfl⟩
    · exact ⟨xs, rfl⟩

end Text

/-! ## Call and field forms -/

namespace Member

variable {s r : List Char}

theorem afterArrayMarks_suffix (s : List Char) : afterArrayMarks s <:+ s := by
  fun_induction afterArrayMarks s with
  | case1 s ih => exact ih.trans ((List.suffix_cons ']' s).trans (List.suffix_cons '[' _))
  | case2 s => exact List.suffix_refl s

theorem suffix_of_mem_argumentRests (h : r ∈ argumentRests s) : r <:+ s := by
  unfold argumentRests at h
  split at h
  · next s =>
    obtain ⟨a, rfl, -⟩ := (mem_restsAfter (by decide)).1 (List.mem_reverse.1 h)
    exact ⟨'<' :: a ++ ['>'], by simp⟩
  · obtain rfl := List.mem_singleton.1 h
    exact List.suffix_refl _

/-- What follows a leading type is part of the text. -/
theorem subset_of_mem_leadingTypes {a : List Char} (h : (a, r) ∈ leadingTypes s) : r ⊆ s := by
  unfold leadingTypes at h
  split at h
  · cases h
  · next hdotted =>
    obtain ⟨-, hrest⟩ := subset_of_takeSome hdotted
    obtain ⟨t, ht, hblanks⟩ := List.mem_filterMap.1 h
    obtain ⟨u, hu, heq⟩ := Option.map_eq_some_iff.1 hblanks
    cases heq
    have hmarks := ((afterArrayMarks_suffix t).trans (suffix_of_mem_argumentRests ht)).subset
    exact fun c hc => hrest (hmarks (subset_of_afterBlanks? hu hc))

theorem subset_of_typeSuffix? {type : Option (List Char)} (h : typeSuffix? s = some type) :
    ∀ t ∈ type, t ⊆ s := by
  unfold typeSuffix? at h
  split at h
  · cases h
    nofun
  · next t hs =>
    split at h
    · cases h
    · cases h
      intro u hu
      cases hu
      exact List.Subset.trans (trimStart_subset t) (subset_of_trimStart_eq hs)
  · cases h

/-- A call form in the characters of a text. -/
structure CallText.Within (s : List Char) (c : CallText) : Prop where
  name : c.name ⊆ s
  params : c.params ⊆ s
  type : ∀ t ∈ c.type, t ⊆ s

theorem CallText.Within.mono {c : CallText} (h : c.Within r) (hsub : r ⊆ s) : c.Within s where
  name := List.Subset.trans h.name hsub
  params := List.Subset.trans h.params hsub
  type := fun t ht => List.Subset.trans (h.type t ht) hsub

/-- The parts of a call with its type behind come from the text. -/
theorem within_of_plainCall? {c : CallText} (h : plainCall? s = some c) : c.Within s := by
  unfold plainCall? at h
  split at h
  · cases h
  · next name rest hword =>
    obtain ⟨hname, hrest⟩ := subset_of_takeSome hword
    split at h
    · next inner hinner =>
      have hsub : inner ⊆ s := List.Subset.trans (subset_of_trimStart_eq hinner) hrest
      obtain ⟨t, ht, hsuffix⟩ := List.exists_of_findSome?_eq_some h
      obtain ⟨type, htype, rfl⟩ := Option.map_eq_some_iff.1 hsuffix
      have hrests : t ⊆ s :=
        List.Subset.trans (subset_of_mem_restsAfter (by decide) (List.mem_reverse.1 ht)) hsub
      exact ⟨hname, List.Subset.trans (before_subset _ inner) hsub,
        fun u hu => List.Subset.trans (subset_of_typeSuffix? htype u hu) hrests⟩
    · cases h

/-- The parts of any call come from the text. -/
theorem within_of_call? {c : CallText} (h : call? s = some c) : c.Within s := by
  rcases (Option.orElse_eq_some _ _ _).1 h with h | ⟨-, h⟩
  · obtain ⟨⟨a, rest⟩, hmem, hcall⟩ := List.exists_of_findSome?_eq_some h
    obtain ⟨c, hc, rfl⟩ := Option.map_eq_some_iff.1 hcall
    have hwithin := (within_of_plainCall? hc).mono (subset_of_mem_leadingTypes hmem)
    refine ⟨hwithin.name, hwithin.params, fun t ht => ?_⟩
    rcases (Option.orElse_eq_some _ _ _).1 ht with ht | ⟨-, ht⟩
    · exact hwithin.type t ht
    · cases ht
      exact before_subset a s
  · exact within_of_plainCall? h

/-- A call form has a parenthesis. -/
theorem plainCall?_eq_none (h : '(' ∉ s) : plainCall? s = none := by
  unfold plainCall?
  split
  · rfl
  · next hword =>
    obtain ⟨-, hrest⟩ := subset_of_takeSome hword
    split
    · next hinner => exact absurd (hrest (trimStart_subset _ (hinner ▸ List.mem_cons_self))) h
    · rfl

/-- Without a parenthesis there is no call. -/
theorem call?_eq_none (h : '(' ∉ s) : call? s = none := by
  refine (Option.orElse_eq_none _ _).2 ⟨List.findSome?_eq_none_iff.2 fun p hp => ?_,
    plainCall?_eq_none h⟩
  obtain ⟨a, r⟩ := p
  have hnone : plainCall? r = none :=
    plainCall?_eq_none fun hmem => h (subset_of_mem_leadingTypes hp hmem)
  simp only [hnone, Option.map_none]

theorem typeSuffix?_eq_none {c : Char} {t : List Char} (h : trimStart s = c :: t) (hc : c ≠ ':') :
    typeSuffix? s = none := by
  unfold typeSuffix?
  rw [h]
  split
  · next heq => cases heq
  · next heq => exact absurd (List.cons.inj heq).1 hc
  · rfl

/-- All array marks are skipped. -/
theorem afterArrayMarks_append (n : Nat) {s : List Char} (hs : s.head? ≠ some '[') :
    afterArrayMarks ((List.replicate n ['[', ']']).flatten ++ s) = s := by
  induction n with
  | zero =>
    rw [List.replicate_zero, List.flatten_nil, List.nil_append]
    unfold afterArrayMarks
    split
    · exact absurd rfl hs
    · rfl
  | succ n ih => exact ih

/-- A field form in the characters of a text. -/
structure FieldText.Within (s : List Char) (f : FieldText) : Prop where
  name : f.name ⊆ s
  type : ∀ t ∈ f.type, t ⊆ s

/-- The parts of a field come from the text. -/
theorem within_of_field? {f : FieldText} (h : field? s = some f) : f.Within s := by
  rcases (Option.orElse_eq_some _ _ _).1 h with h | ⟨-, h⟩
  · unfold suffixedField? at h
    split at h
    · cases h
    · next hword =>
      obtain ⟨hname, hrest⟩ := subset_of_takeSome hword
      obtain ⟨type, htype, rfl⟩ := Option.map_eq_some_iff.1 h
      exact ⟨hname, fun t ht => List.Subset.trans (subset_of_typeSuffix? htype t ht) hrest⟩
  · obtain ⟨⟨a, rest⟩, hmem, hfield⟩ := List.exists_of_findSome?_eq_some h
    simp only [Option.ite_none_right_eq_some, Option.some.injEq] at hfield
    rw [← hfield.2]
    refine ⟨subset_of_mem_leadingTypes hmem, fun t ht => ?_⟩
    cases ht
    exact before_subset a s

end Member

end ClassSketch
