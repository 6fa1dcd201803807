import ClassSketch.Proofs.Tokens

/-!
# The form of fragments

A brace is structural if no modifier tag stands over it (`StructuralAt`). Tags do
not overlap, since a tag has an opening brace at its front only, so an opening brace
starts a token wherever it stands (`tokens_append_opening`). Hence `tokens` finds
every tag, and the structural braces of a text are those among its tokens
(`structuralAt_iff`).

A text is not cut at its braces if it is a fragment as it stands (`Uncut`) : not
empty, trimmed, and without structural braces unless it is a closing one or ends
with an opening one (`splitBraces_eq_singleton_iff`). Every fragment of a line is
such a text (`uncut_of_mem_splitBraces`), and together the fragments have the tokens
of the line, blanks aside (`flatMap_solidTokens_splitBraces`) : neither cutting nor
trimming makes a tag or breaks one.
-/

namespace ClassSketch

open Text

/-! ## Structural braces by position -/

/-- A modifier tag of the text stands over position `i`. -/
def InTag (s : List Char) (i : Nat) : Prop :=
  ∃ (m : Modifier) (a b : List Char),
    s = a ++ m.tag ++ b ∧ a.length ≤ i ∧ i < (a ++ m.tag).length

/-- A brace at position `i`, outside of modifier tags. -/
def StructuralAt (s : List Char) (i : Nat) : Prop :=
  (s[i]? = some '{' ∨ s[i]? = some '}') ∧ ¬InTag s i

namespace Modifier

/-- An opening brace does not complete a tag. -/
theorem tag?_append_opening {s : List Char} (hne : s ≠ []) (h : tag? s = none) (t : List Char) :
    tag? (s ++ '{' :: t) = none := by
  cases h' : tag? (s ++ '{' :: t) with
  | none => rfl
  | some found =>
    obtain ⟨m, r⟩ := found
    rcases List.append_eq_append_iff.1 (eq_of_tag? h') with ⟨u, htag, hu⟩ | ⟨u, rfl, -⟩
    · cases u with
      | nil =>
        rw [← List.append_nil s, ← List.append_nil (s ++ []), ← htag, tag?_append] at h
        cases h
      | cons x u =>
        -- The brace would stand in the tag, behind its front.
        obtain ⟨y, s, rfl⟩ := List.exists_cons_of_ne_nil hne
        obtain ⟨rfl, -⟩ := List.cons.inj hu
        have hword : m.word ++ ['}'] = s ++ '{' :: u := (List.cons.inj htag).2
        have hmem : '{' ∈ m.word ++ ['}'] := hword ▸ List.mem_append_right s List.mem_cons_self
        cases m <;> exact absurd hmem (by decide)
    · rw [tag?_append] at h
      cases h

end Modifier

/-- An opening brace starts a token, whatever stands before it. -/
theorem tokens_append_opening (s t : List Char) :
    tokens (s ++ '{' :: t) = tokens s ++ tokens ('{' :: t) := by
  fun_induction tokens s with
  | case1 => rfl
  | case2 x xs m r h ih =>
    rw [Modifier.eq_of_tag? h, List.append_assoc, tokens_tag_append, ih]
    rfl
  | case3 x xs h ih =>
    have htag := Modifier.tag?_append_opening (List.cons_ne_nil x xs) h t
    rw [List.cons_append] at htag ⊢
    rw [tokens_cons htag, ih]
    rfl

/-- Every tag of a text is found. -/
theorem tokens_append_tag (a : List Char) (m : Modifier) (b : List Char) :
    tokens (a ++ m.tag ++ b) = tokens a ++ .tag m :: tokens b := by
  have hopening : m.tag ++ b = '{' :: (m.word ++ ['}'] ++ b) := rfl
  rw [List.append_assoc, hopening, tokens_append_opening, ← hopening, tokens_tag_append]

/-- A position in a text belongs to one of its tokens. -/
theorem exists_token_at {ts : List Token} {i : Nat} (h : i < (ts.flatMap Token.chars).length) :
    ∃ us t vs, ts = us ++ t :: vs ∧ (us.flatMap Token.chars).length ≤ i ∧
      i < (us.flatMap Token.chars ++ t.chars).length := by
  induction ts generalizing i with
  | nil => exact absurd h (Nat.not_lt_zero i)
  | cons t ts ih =>
    by_cases hi : i < t.chars.length
    · exact ⟨[], t, ts, rfl, Nat.zero_le i, hi⟩
    · rw [List.flatMap_cons, List.length_append] at h
      obtain ⟨us, u, vs, rfl, hle, hlt⟩ := ih (i := i - t.chars.length) (by omega)
      refine ⟨t :: us, u, vs, rfl, ?_, ?_⟩
      · rw [List.flatMap_cons, List.length_append]
        omega
      · rw [List.flatMap_cons, List.append_assoc, List.length_append]
        omega

theorem Token.exists_chars_of_isBrace {t : Token} (h : t.isBrace = true) :
    ∃ c, t.chars = [c] ∧ (c = '{' ∨ c = '}') := by
  cases t with
  | opening => exact ⟨'{', rfl, Or.inl rfl⟩
  | closing => exact ⟨'}', rfl, Or.inr rfl⟩
  | tag m => cases h
  | other c => cases h

/-- A token with what stands before and after it. -/
theorem eq_of_tokens_eq {s : List Char} {us vs : List Token} {t : Token}
    (h : tokens s = us ++ t :: vs) :
    s = us.flatMap Token.chars ++ t.chars ++ vs.flatMap Token.chars := by
  rw [← flatMap_chars_tokens s, h, List.flatMap_append, List.flatMap_cons, List.append_assoc]

/-- A structural brace is a token of its own. -/
theorem StructuralAt.exists_token {s : List Char} {i : Nat} (h : StructuralAt s i) :
    ∃ us t vs, tokens s = us ++ t :: vs ∧ t.isBrace = true ∧
      (us.flatMap Token.chars).length = i := by
  obtain ⟨hbrace, hfree⟩ := h
  have hlength : i < ((tokens s).flatMap Token.chars).length := by
    rw [flatMap_chars_tokens]
    rcases hbrace with hbrace | hbrace <;> exact (List.getElem?_eq_some_iff.1 hbrace).1
  obtain ⟨us, t, vs, htokens, hle, hlt⟩ := exists_token_at hlength
  have hs := eq_of_tokens_eq htokens
  rw [List.length_append] at hlt
  refine ⟨us, t, vs, htokens, ?_⟩
  have hmem : t ∈ tokens s := htokens ▸ List.mem_append_right us List.mem_cons_self
  rcases isBrace_or_plain_of_mem_tokens hmem with ht | ht
  · obtain ⟨c, hc, -⟩ := Token.exists_chars_of_isBrace ht
    rw [hc, List.length_singleton] at hlt
    exact ⟨ht, by omega⟩
  · cases t with
    | tag m => exact absurd ⟨m, _, _, hs, hle, by rwa [List.length_append]⟩ hfree
    | other c =>
      rw [Token.chars, List.length_singleton] at hlt
      obtain rfl : i = (us.flatMap Token.chars).length := by omega
      rw [hs] at hbrace
      simp [Token.chars, ht.1, ht.2] at hbrace
    | opening => exact ht.elim
    | closing => exact ht.elim

/-- A token for a brace stands for a structural brace. -/
theorem structuralAt_of_token {s : List Char} {us vs : List Token} {t : Token}
    (htokens : tokens s = us ++ t :: vs) (ht : t.isBrace = true) :
    StructuralAt s (us.flatMap Token.chars).length := by
  obtain ⟨c, hc, hbrace⟩ := Token.exists_chars_of_isBrace ht
  refine ⟨?_, ?_⟩
  · rw [eq_of_tokens_eq htokens, hc]
    simpa using hbrace
  · rintro ⟨m, a, b, rfl, hle, hlt⟩
    have hlength := congrArg List.length (flatMap_chars_tokens a)
    -- The tag is a token of its own, so it ends before the brace or starts behind it.
    rw [tokens_append_tag] at htokens
    rcases List.append_eq_append_iff.1 htokens with ⟨ws, rfl, hws⟩ | ⟨ws, ha, hws⟩
    · cases ws with
      | nil =>
        obtain ⟨rfl, -⟩ := List.cons.inj hws
        cases ht
      | cons w ws =>
        obtain ⟨rfl, -⟩ := List.cons.inj hws
        simp only [List.flatMap_append, flatMap_chars_tokens, List.flatMap_cons, Token.chars,
          List.length_append] at hlt
        omega
    · cases ws with
      | nil =>
        obtain ⟨rfl, -⟩ := List.cons.inj hws
        cases ht
      | cons w ws =>
        obtain ⟨rfl, -⟩ := List.cons.inj hws
        rw [ha, List.flatMap_append, List.flatMap_cons, hc, List.length_append,
          List.length_append, List.length_singleton] at hlength
        omega

/-- The structural braces of a text are the braces among its tokens. -/
theorem structuralAt_iff {s : List Char} {i : Nat} : StructuralAt s i ↔ ∃ us t vs,
    tokens s = us ++ t :: vs ∧ t.isBrace = true ∧ (us.flatMap Token.chars).length = i := by
  refine ⟨StructuralAt.exists_token, ?_⟩
  rintro ⟨us, t, vs, htokens, ht, rfl⟩
  exact structuralAt_of_token htokens ht

/-- Without structural braces all tokens are plain. -/
theorem plain_of_braces_eq_nil {s : List Char} (h : braces s = []) :
    ∀ t ∈ tokens s, t.Plain := by
  intro t ht
  exact (isBrace_or_plain_of_mem_tokens ht).resolve_left (List.filter_eq_nil_iff.1 h t ht)

/-! ## Blanks aside -/

/-- Whether a token is anything but a blank. -/
def Token.isSolid : Token → Bool
  | other c => !isBlank c
  | _ => true

/-- The tokens of a text that are not blank. -/
def solidTokens (s : List Char) : List Token :=
  (tokens s).filter Token.isSolid

/-- Blanks are deleted token by token. -/
theorem Token.unspaced_chars (t : Token) :
    unspaced t.chars = if t.isSolid then t.chars else [] := by
  cases t with
  | tag m => cases m <;> decide
  | opening => decide
  | closing => decide
  | other c => cases h : isBlank c <;> simp [unspaced, Token.chars, Token.isSolid, h]

/-- Without its blanks, a text is what its other tokens are written with. -/
theorem flatMap_chars_solidTokens (s : List Char) :
    (solidTokens s).flatMap Token.chars = unspaced s := by
  have hsolid : ∀ ts : List Token,
      (ts.filter Token.isSolid).flatMap Token.chars = unspaced (ts.flatMap Token.chars) := by
    intro ts
    induction ts with
    | nil => rfl
    | cons t ts ih =>
      rw [List.flatMap_cons, unspaced_append, Token.unspaced_chars, ← ih, List.filter_cons]
      split <;> rfl
  rw [solidTokens, hsolid, flatMap_chars_tokens]

namespace Source

/-- Together the fragments of a line have its tokens, blanks aside. -/
theorem flatMap_solidTokens_splitBraces (line : List Char) :
    (splitBraces line).flatMap solidTokens = solidTokens line :=
  flatMap_filter_splitBraces (fun c hc => by rw [Token.isSolid, hc]; rfl) line

/-- Cutting a line at its braces loses blanks only. -/
theorem unspaced_flatten_splitBraces (line : List Char) :
    unspaced (splitBraces line).flatten = unspaced line := by
  have hflatten : ∀ fs : List (List Char),
      unspaced fs.flatten = (fs.flatMap solidTokens).flatMap Token.chars := by
    intro fs
    induction fs with
    | nil => rfl
    | cons f fs ih =>
      rw [List.flatten_cons, unspaced_append, ih, List.flatMap_cons, List.flatMap_append,
        flatMap_chars_solidTokens]
  rw [hflatten, flatMap_solidTokens_splitBraces, flatMap_chars_solidTokens]

/-! ## Texts that are not cut -/

/-- What is a fragment as it stands. -/
structure Uncut (s : List Char) : Prop where
  ne_nil : s ≠ []
  trimmed : trim s = s
  /-- It is a closing brace, or its structural braces open and stand at its end. -/
  structural : s = ['}'] ∨ ∀ i, StructuralAt s i → s[i]? = some '{' ∧ i + 1 = s.length

/-- A fragment has no structural brace but an opening one at its end, unless it is a closing
one. -/
theorem Piece.structural {s : List Char} (h : Piece (tokens s)) :
    s = ['}'] ∨ ∀ i, StructuralAt s i → s[i]? = some '{' ∧ i + 1 = s.length := by
  have hs := flatMap_chars_tokens s
  generalize htokens : tokens s = ts at h hs
  cases h with
  | closing => exact Or.inl hs.symm
  | plain hplain =>
    refine Or.inr fun i hi => ?_
    obtain ⟨us, t, vs, heq, ht, -⟩ := structuralAt_iff.1 hi
    have hmem : t ∈ ts := htokens ▸ heq ▸ List.mem_append_right us List.mem_cons_self
    rw [(hplain t hmem).isBrace] at ht
    cases ht
  | @opening us hplain =>
    refine Or.inr fun i hi => ?_
    obtain ⟨us', t, vs, heq, ht, rfl⟩ := structuralAt_iff.1 hi
    rw [htokens] at heq
    -- No token before the last one is a brace.
    rcases List.eq_nil_or_concat vs with rfl | ⟨ws, w, rfl⟩
    · obtain ⟨rfl, -⟩ := List.append_inj' heq rfl
      rw [← hs]
      simp [Token.chars]
    · have hlast : us ++ [Token.opening] = (us' ++ t :: ws) ++ [w] := by simpa using heq
      obtain ⟨rfl, -⟩ := List.append_inj' hlast rfl
      rw [(hplain t (by simp)).isBrace] at ht
      cases ht

/-- Conversely, a text with no other structural brace is one piece. -/
theorem piece_of_structural {s : List Char}
    (h : ∀ i, StructuralAt s i → s[i]? = some '{' ∧ i + 1 = s.length) : Piece (tokens s) := by
  by_cases hbraces : braces s = []
  · exact .plain (plain_of_braces_eq_nil hbraces)
  · obtain ⟨t, hmem⟩ := List.exists_mem_of_ne_nil _ hbraces
    obtain ⟨hmem, ht⟩ := List.mem_filter.1 hmem
    obtain ⟨us, vs, htokens⟩ := List.append_of_mem hmem
    obtain ⟨hopening, hlength⟩ := h _ (structuralAt_iff.2 ⟨us, t, vs, htokens, ht, rfl⟩)
    rw [← Nat.add_sub_cancel (us.flatMap Token.chars).length 1, hlength,
      ← List.getLast?_eq_getElem?] at hopening
    obtain ⟨r, rfl⟩ := List.getLast?_eq_some_iff.1 hopening
    rw [tokens_snoc (by decide)]
    refine .opening (plain_of_braces_eq_nil (List.filter_eq_nil_iff.2 fun t ht hbrace => ?_))
    -- A brace before the last character would have to be the last one.
    obtain ⟨us, vs, hr⟩ := List.append_of_mem ht
    have htokens : tokens (r ++ ['{']) = us ++ t :: (vs ++ [.opening]) := by
      rw [tokens_snoc (by decide), hr, List.append_assoc]
      rfl
    obtain ⟨-, hlength⟩ := h _ (structuralAt_iff.2 ⟨us, t, _, htokens, hbrace, rfl⟩)
    obtain ⟨c, hc, -⟩ := Token.exists_chars_of_isBrace hbrace
    rw [eq_of_tokens_eq hr, hc] at hlength
    simp at hlength

/-- Trimming a piece of a line gives a piece. -/
theorem Piece.tokens_trim {ts : List Token} (h : Piece ts) :
    Piece (tokens (trim (ts.flatMap Token.chars))) := by
  cases h with
  | closing =>
    have htrim : trim ([Token.closing].flatMap Token.chars) = ['}'] := rfl
    rw [htrim, tokens_closing]
    exact .closing
  | plain hplain =>
    refine .plain (plain_of_braces_eq_nil ?_)
    rw [braces, (Piece.plain hplain).filter_trim_chars fun _ _ => rfl,
      Token.filter_isBrace_eq_nil hplain]
  | @opening us hplain =>
    have hchars : (us ++ [Token.opening]).flatMap Token.chars = us.flatMap Token.chars ++ ['{'] :=
      List.flatMap_append
    rw [hchars, trim_snoc_of_not_isBlank (by decide), tokens_snoc (by decide)]
    refine .opening (plain_of_braces_eq_nil ?_)
    rw [braces, filter_tokens_trimStart fun _ _ => rfl, (Piece.plain hplain).tokens_chars,
      Token.filter_isBrace_eq_nil hplain]

/-- Fragments are not cut again. -/
theorem uncut_of_mem_splitBraces {line f : List Char} (h : f ∈ splitBraces line) : Uncut f := by
  obtain ⟨hne, ts, hts, rfl⟩ := exists_piece_of_mem_splitBraces h
  exact ⟨hne, trim_trim _, hts.tokens_trim.structural⟩

theorem Uncut.piece {s : List Char} (h : Uncut s) : Piece (tokens s) := by
  rcases h.structural with rfl | hstructural
  · rw [tokens_closing]
    exact .closing
  · exact piece_of_structural hstructural

/-- A text that has the form of a fragment is cut into itself. -/
theorem Uncut.splitBraces_eq {s : List Char} (h : Uncut s) : splitBraces s = [s] := by
  have hs := flatMap_chars_tokens s
  have htrimmed : Trimmed ((tokens s).flatMap Token.chars) :=
    hs.symm ▸ Trimmed.of_trim_eq h.ne_nil h.trimmed
  have hpiece := h.piece
  rw [← hs]
  generalize tokens s = ts at hpiece htrimmed
  cases hpiece with
  | closing =>
    show splitBraces ['}'] = [['}']]
    rw [splitBraces, tokens_closing]
    rfl
  | plain hplain => exact splitBraces_plain hplain htrimmed
  | opening hplain =>
    rw [List.flatMap_append] at htrimmed ⊢
    exact splitBraces_opening hplain htrimmed

/-- The texts that are not cut are those that are fragments as they stand. -/
theorem splitBraces_eq_singleton_iff {s : List Char} : splitBraces s = [s] ↔ Uncut s :=
  ⟨fun h => uncut_of_mem_splitBraces (h ▸ List.mem_singleton_self s), Uncut.splitBraces_eq⟩

/-- The fragments of a line have its text, blanks aside, and its tags and braces with it. Each
of them is a fragment as it stands, so that it is not cut any further, and neither is a line
that is one. -/
theorem splitBraces_lossless_uncut (line : List Char) :
    unspaced (splitBraces line).flatten = unspaced line ∧
    (splitBraces line).flatMap solidTokens = solidTokens line ∧
    (∀ f ∈ splitBraces line, Uncut f ∧ splitBraces f = [f]) ∧
    (splitBraces line = [line] ↔ Uncut line) := by
  refine ⟨unspaced_flatten_splitBraces line, flatMap_solidTokens_splitBraces line,
    fun f hf => ?_, splitBraces_eq_singleton_iff⟩
  have huncut := uncut_of_mem_splitBraces hf
  exact ⟨huncut, huncut.splitBraces_eq⟩

/-- A tag right behind an opening brace, and one inside what would be another. -/
def nestedTags : List Char :=
  "  \x7b\x7bstatic\x7d \x7bstat\x7bfinal\x7dic\x7d\t\x7d\x7b x".toList

theorem splitBraces_lossless_uncut_nested :
    splitBraces nestedTags = ["\x7b".toList, "\x7bstatic\x7d \x7b".toList,
      "stat\x7bfinal\x7dic".toList, "\x7d".toList, "\x7d".toList, "\x7b".toList, "x".toList] ∧
    unspaced (splitBraces nestedTags).flatten = unspaced nestedTags ∧
    Uncut "\x7bstatic\x7d \x7b".toList ∧
    splitBraces "\x7bstatic\x7d \x7b".toList = ["\x7bstatic\x7d \x7b".toList] := by
  have hsplit : splitBraces nestedTags = ["\x7b".toList, "\x7bstatic\x7d \x7b".toList,
      "stat\x7bfinal\x7dic".toList, "\x7d".toList, "\x7d".toList, "\x7b".toList, "x".toList] := by
    decide +kernel
  obtain ⟨hunspaced, -, hfragments, -⟩ := splitBraces_lossless_uncut nestedTags
  exact ⟨hsplit, hunspaced, hfragments _ (hsplit ▸ by simp)⟩

end Source

end ClassSketch
