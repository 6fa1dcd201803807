import Mathlib.Data.List.Basic
import Mathlib.Data.List.Induction
import ClassSketch.Proofs.Scan
import ClassSketch.Source.Fragment

/-!
# Structural braces and fragments

`braces` lists the structural braces of a text, which are its braces outside
modifier tags. Cutting a line at them and trimming the pieces loses nothing but
blanks (`flatMap_filter_splitBraces`), so the fragments of a text have the braces of
its lines, in order (`flatMap_braces_fragments`). A fragment has at most one, which
is the whole fragment if it closes and the end of the fragment if it opens
(`braces_fragment`).

A text that is made of tags and other characters is read back as these
(`tokens_append`), so that a piece cut out of a line has the tokens it had
there.
-/

namespace ClassSketch

open Text

/-! ## Tags -/

namespace Modifier

/-- A tag is read off the front of any text. -/
theorem tag?_append (m : Modifier) (s : List Char) : tag? (m.tag ++ s) = some (m, s) := by
  cases m <;> rfl

theorem tag?_of_ne {c : Char} (hc : c ≠ '{') (s : List Char) : tag? (c :: s) = none := by
  cases h : tag? (c :: s) with
  | none => rfl
  | some found =>
    have heq := eq_of_tag? h
    simp only [tag, List.cons_append, List.cons.injEq] at heq
    exact absurd heq.1 hc

/-- A tag is not completed by a character other than its closing brace. -/
theorem tag?_snoc {c : Char} (hc : c ≠ '}') {s : List Char} (h : tag? s = none) :
    tag? (s ++ [c]) = none := by
  cases h' : tag? (s ++ [c]) with
  | none => rfl
  | some found =>
    obtain ⟨m, r⟩ := found
    have heq := eq_of_tag? h'
    rcases List.eq_nil_or_concat r with rfl | ⟨r, x, rfl⟩
    · rw [List.append_nil, tag] at heq
      have hsplit : s ++ [c] = ('{' :: m.word) ++ ['}'] := heq
      obtain ⟨-, hlast⟩ := List.append_inj' hsplit rfl
      exact absurd (List.singleton_inj.1 hlast) hc
    · rw [List.concat_eq_append, ← List.append_assoc] at heq
      obtain ⟨hs, -⟩ := List.append_inj' heq rfl
      rw [hs, tag?_append] at h
      cases h

end Modifier

/-! ## Tokens -/

namespace Token

/-- Whether a token is a structural brace. -/
def isBrace : Token → Bool
  | opening => true
  | closing => true
  | _ => false

/-- A tag or a character that is no brace. -/
def Plain : Token → Prop
  | tag _ => True
  | other c => c ≠ '{' ∧ c ≠ '}'
  | _ => False

/-- Plain tokens are no braces. -/
theorem Plain.isBrace {t : Token} (h : t.Plain) : t.isBrace = false := by
  cases t with
  | tag m => rfl
  | other c => rfl
  | opening => exact h.elim
  | closing => exact h.elim

theorem filter_isBrace_eq_nil {us : List Token} (h : ∀ t ∈ us, t.Plain) :
    us.filter isBrace = [] := by
  refine List.filter_eq_nil_iff.2 fun t ht => ?_
  rw [(h t ht).isBrace]
  exact Bool.false_ne_true

/-- All characters but the two braces are tokens of no meaning. -/
theorem ofChar_of_ne {c : Char} (h : c ≠ '{' ∧ c ≠ '}') : ofChar c = other c := by
  rw [ofChar, if_neg h.1, if_neg h.2]

end Token

/-- A tag is one token, whatever follows it. -/
theorem tokens_tag_append (m : Modifier) (s : List Char) :
    tokens (m.tag ++ s) = .tag m :: tokens s := by
  have hcons : m.tag ++ s = '{' :: (m.word ++ ['}'] ++ s) := rfl
  have htag := m.tag?_append s
  rw [hcons] at htag ⊢
  rw [tokens]
  split
  · next found hfound =>
    rw [htag] at hfound
    cases hfound
    rfl
  · next hfound => rw [htag] at hfound; cases hfound

/-- Where no tag begins, the first character is a token. -/
theorem tokens_cons {c : Char} {s : List Char} (h : Modifier.tag? (c :: s) = none) :
    tokens (c :: s) = .ofChar c :: tokens s := by
  rw [tokens]
  split
  · next found hfound => rw [h] at hfound; cases hfound
  · rfl

theorem tokens_opening : tokens ['{'] = [.opening] := by
  rw [tokens_cons rfl, tokens]
  rfl

theorem tokens_closing : tokens ['}'] = [.closing] := by
  rw [tokens_cons rfl, tokens]
  rfl

/-- Tags and other characters are read back as what they are. -/
theorem tokens_append {us : List Token} (hus : ∀ t ∈ us, t.Plain) (s : List Char) :
    tokens (us.flatMap Token.chars ++ s) = us ++ tokens s := by
  induction us with
  | nil => rfl
  | cons t us ih =>
    obtain ⟨ht, hrest⟩ := List.forall_mem_cons.1 hus
    rw [List.flatMap_cons, List.append_assoc]
    cases t with
    | tag m =>
      show tokens (m.tag ++ _) = _
      rw [tokens_tag_append, ih hrest]
      rfl
    | other c =>
      show tokens (c :: (us.flatMap Token.chars ++ s)) = _
      rw [tokens_cons (Modifier.tag?_of_ne ht.1 _), Token.ofChar_of_ne ht, ih hrest]
      rfl
    | opening => exact ht.elim
    | closing => exact ht.elim

/-- A character at the end is a token of its own unless it closes a tag. -/
theorem tokens_snoc {c : Char} (hc : c ≠ '}') (s : List Char) :
    tokens (s ++ [c]) = tokens s ++ [.ofChar c] := by
  fun_induction tokens s with
  | case1 =>
    have htag : Modifier.tag? [c] = none := Modifier.tag?_snoc (s := []) hc rfl
    rw [List.nil_append, tokens_cons htag, tokens]
    rfl
  | case2 x xs m r h ih =>
    rw [Modifier.eq_of_tag? h, List.append_assoc, tokens_tag_append, ih]
    rfl
  | case3 x xs h ih =>
    have htag : Modifier.tag? (x :: (xs ++ [c])) = none := Modifier.tag?_snoc hc h
    rw [List.cons_append, tokens_cons htag, ih]
    rfl

/-- Every token is a structural brace or plain. -/
theorem isBrace_or_plain_of_mem_tokens {s : List Char} {t : Token} (h : t ∈ tokens s) :
    t.isBrace = true ∨ t.Plain := by
  fun_induction tokens s with
  | case1 => exact absurd h List.not_mem_nil
  | case2 x xs m r hm ih =>
    rcases List.mem_cons.1 h with rfl | h
    · exact Or.inr trivial
    · exact ih h
  | case3 x xs hx ih =>
    rcases List.mem_cons.1 h with rfl | h
    · unfold Token.ofChar
      split
      · exact Or.inl rfl
      · next h1 =>
        split
        · exact Or.inl rfl
        · next h2 => exact Or.inr ⟨h1, h2⟩
    · exact ih h

/-! ## Braces -/

/-- The structural braces of a text. -/
def braces (s : List Char) : List Token :=
  (tokens s).filter Token.isBrace

/-- No brace is a blank. -/
theorem ne_brace_of_isBlank {c : Char} (h : isBlank c = true) : c ≠ '{' ∧ c ≠ '}' := by
  constructor
  · rintro rfl
    exact absurd h (by decide)
  · rintro rfl
    exact absurd h (by decide)

section Trim

-- A test of tokens that no blank passes.
variable {p : Token → Bool} (hp : ∀ c, isBlank c = true → p (.other c) = false)

include hp

/-- A test that blanks fail does not see a blank in front. -/
theorem filter_tokens_cons {c : Char} (hc : isBlank c = true) (s : List Char) :
    (tokens (c :: s)).filter p = (tokens s).filter p := by
  have hne := ne_brace_of_isBlank hc
  rw [tokens_cons (Modifier.tag?_of_ne hne.1 s), Token.ofChar_of_ne hne,
    List.filter_cons_of_neg (by simp [hp c hc])]

/-- Nor a blank at the end : it completes no tag. -/
theorem filter_tokens_snoc {c : Char} (hc : isBlank c = true) (s : List Char) :
    (tokens (s ++ [c])).filter p = (tokens s).filter p := by
  have hne := ne_brace_of_isBlank hc
  rw [tokens_snoc hne.2, Token.ofChar_of_ne hne, List.filter_append,
    List.filter_cons_of_neg (by simp [hp c hc])]
  exact List.append_nil _

/-- Trimming takes blanks only, so other tokens stay. -/
theorem filter_tokens_trimStart (s : List Char) :
    (tokens (trimStart s)).filter p = (tokens s).filter p := by
  unfold trimStart
  induction s with
  | nil => rfl
  | cons c s ih =>
    by_cases hc : isBlank c = true
    · rw [List.dropWhile_cons_of_pos hc, ih, filter_tokens_cons hp hc]
    · rw [List.dropWhile_cons_of_neg hc]

theorem filter_tokens_trimEnd (s : List Char) :
    (tokens (trimEnd s)).filter p = (tokens s).filter p := by
  induction s using List.reverseRecOn with
  | nil => rfl
  | append_singleton s c ih =>
    rw [trimEnd_snoc]
    split
    · next hc => rw [ih, filter_tokens_snoc hp hc]
    · rfl

/-- Trimming a text takes nothing but blanks from its tokens. -/
theorem filter_tokens_trim (s : List Char) : (tokens (trim s)).filter p = (tokens s).filter p :=
  (filter_tokens_trimEnd hp _).trans (filter_tokens_trimStart hp s)

end Trim

/-! ## Pieces of a line -/

namespace Source

/-- The tokens between structural braces, as `cutBraces` cuts them. -/
def cutTokens : List Token → List (List Token)
  | [] => [[]]
  | .opening :: ts => [.opening] :: cutTokens ts
  | .closing :: ts => [] :: [.closing] :: cutTokens ts
  | .tag m :: ts => (cutTokens ts).modifyHead (.tag m :: ·)
  | .other c :: ts => (cutTokens ts).modifyHead (.other c :: ·)

theorem cutTokens_ne_nil (ts : List Token) : cutTokens ts ≠ [] := by
  induction ts with
  | nil => simp [cutTokens]
  | cons t ts ih =>
    obtain ⟨p, ps, h⟩ := List.exists_cons_of_ne_nil ih
    cases t <;> simp [cutTokens, h]

/-- Cutting a text at its braces is cutting its tokens. -/
theorem cutBraces_eq_map (ts : List Token) :
    cutBraces ts = (cutTokens ts).map (·.flatMap Token.chars) := by
  induction ts with
  | nil => rfl
  | cons t ts ih =>
    obtain ⟨p, ps, h⟩ := List.exists_cons_of_ne_nil (cutTokens_ne_nil ts)
    cases t <;> simp [cutBraces, cutTokens, ih, h, Token.chars]

/-- Cutting loses no token. -/
theorem flatten_cutTokens (ts : List Token) : (cutTokens ts).flatten = ts := by
  induction ts with
  | nil => rfl
  | cons t ts ih =>
    obtain ⟨p, ps, h⟩ := List.exists_cons_of_ne_nil (cutTokens_ne_nil ts)
    cases t <;> simp_all [cutTokens]

/-- What a piece of a line can be. -/
inductive Piece : List Token → Prop where
  | closing : Piece [.closing]
  | plain {u : List Token} (h : ∀ t ∈ u, t.Plain) : Piece u
  | opening {u : List Token} (h : ∀ t ∈ u, t.Plain) : Piece (u ++ [.opening])

/-- A piece is read as the tokens that it was made of. -/
theorem Piece.tokens_chars {p : List Token} (h : Piece p) : tokens (p.flatMap Token.chars) = p := by
  cases h with
  | closing => exact tokens_closing
  | plain h => simpa [tokens] using tokens_append h []
  | opening h =>
    rw [List.flatMap_append, tokens_append h]
    exact congrArg _ tokens_opening

/-- Trimming a piece changes none of its tokens but blanks. -/
theorem Piece.filter_trim_chars {p : Token → Bool}
    (hp : ∀ c, isBlank c = true → p (.other c) = false) {ts : List Token} (h : Piece ts) :
    (tokens (trim (ts.flatMap Token.chars))).filter p = ts.filter p := by
  rw [filter_tokens_trim hp, h.tokens_chars]

/-- A plain token before the first piece. -/
theorem Piece.cons {t : Token} (ht : t.Plain) {p : List Token} (hp : Piece p)
    (hne : p ≠ [.closing]) : Piece (t :: p) := by
  cases hp with
  | closing => exact absurd rfl hne
  | plain h => exact .plain (List.forall_mem_cons.2 ⟨ht, h⟩)
  | opening h => exact .opening (u := t :: _) (List.forall_mem_cons.2 ⟨ht, h⟩)

/-- Every piece of a line has one of the three forms, the first one not the second. -/
theorem piece_of_mem_cutTokens {ts : List Token} (hts : ∀ t ∈ ts, t.isBrace = true ∨ t.Plain) :
    (∀ p ∈ cutTokens ts, Piece p) ∧ (cutTokens ts).head? ≠ some [.closing] := by
  induction ts with
  | nil =>
    refine ⟨fun p hp => ?_, by simp [cutTokens]⟩
    rw [List.mem_singleton.1 hp]
    exact .plain (by simp)
  | cons t ts ih =>
    obtain ⟨ht, hrest⟩ := List.forall_mem_cons.1 hts
    obtain ⟨hpieces, hhead⟩ := ih hrest
    -- A plain token extends the first piece.
    have hplain : t.Plain → cutTokens (t :: ts) = (cutTokens ts).modifyHead (t :: ·) →
        (∀ p ∈ cutTokens (t :: ts), Piece p) ∧ (cutTokens (t :: ts)).head? ≠ some [.closing] := by
      intro hp heq
      obtain ⟨q, qs, hq⟩ := List.exists_cons_of_ne_nil (cutTokens_ne_nil ts)
      rw [heq, hq, List.modifyHead_cons]
      rw [hq] at hpieces hhead
      refine ⟨List.forall_mem_cons.2 ⟨?_, fun p hp => hpieces p (List.mem_cons_of_mem _ hp)⟩, ?_⟩
      · refine (hpieces q List.mem_cons_self).cons hp fun he => hhead ?_
        rw [he, List.head?_cons]
      · intro he
        simp only [List.head?_cons, Option.some.injEq, List.cons.injEq] at he
        rw [he.1] at hp
        exact hp
    cases t with
    | opening =>
      refine ⟨List.forall_mem_cons.2 ⟨.opening (u := []) (by simp), hpieces⟩, ?_⟩
      simp [cutTokens]
    | closing =>
      refine ⟨List.forall_mem_cons.2 ⟨.plain (by simp),
        List.forall_mem_cons.2 ⟨.closing, hpieces⟩⟩, ?_⟩
      simp [cutTokens]
    | tag m => exact hplain trivial rfl
    | other c => exact hplain (ht.resolve_left Bool.false_ne_true) rfl

/-- The tokens of a line are cut into pieces. -/
theorem piece_of_mem_cutTokens_tokens {line : List Char} {p : List Token}
    (h : p ∈ cutTokens (tokens line)) : Piece p :=
  (piece_of_mem_cutTokens fun _ ht => isBrace_or_plain_of_mem_tokens ht).1 p h

/-- Cutting a line keeps its tokens, blanks aside. -/
theorem flatMap_filter_splitBraces {p : Token → Bool}
    (hp : ∀ c, isBlank c = true → p (.other c) = false) (line : List Char) :
    (splitBraces line).flatMap (fun f => (tokens f).filter p) = (tokens line).filter p := by
  have hempty : ∀ fs : List (List Char), (fs.filter (!·.isEmpty)).flatMap
      (fun f => (tokens f).filter p) = fs.flatMap fun f => (tokens f).filter p := by
    intro fs
    induction fs with
    | nil => rfl
    | cons f fs ih =>
      cases f with
      | nil => simpa [tokens] using ih
      | cons c cs => simpa using ih
  unfold splitBraces
  rw [hempty, cutBraces_eq_map, List.map_map, List.flatMap_map]
  have hpiece : ∀ ts ∈ cutTokens (tokens line),
      (tokens ((trim ∘ fun ts => ts.flatMap Token.chars) ts)).filter p = ts.filter p :=
    fun ts hts => (piece_of_mem_cutTokens_tokens hts).filter_trim_chars hp
  rw [List.flatMap_congr hpiece, List.flatMap_def, ← List.filter_flatten, flatten_cutTokens]

/-- Every fragment of a line is a piece of it, trimmed, and not empty. -/
theorem exists_piece_of_mem_splitBraces {line f : List Char} (h : f ∈ splitBraces line) :
    f ≠ [] ∧ ∃ ts, Piece ts ∧ f = trim (ts.flatMap Token.chars) := by
  obtain ⟨hcut, hne⟩ := List.mem_filter.1 h
  rw [cutBraces_eq_map, List.map_map] at hcut
  obtain ⟨ts, hts, rfl⟩ := List.mem_map.1 hcut
  exact ⟨by simpa using hne, ts, piece_of_mem_cutTokens_tokens hts, rfl⟩

/-- A piece has at most one structural brace : one that closes is all of it, one that opens
is its end. -/
theorem Piece.braces_eq {p : List Token} (h : Piece p) {s : List Char}
    (hs : s = trim (p.flatMap Token.chars)) :
    braces s = if s = ['}'] then [.closing] else if s.getLast? = some '{' then [.opening] else [] := by
  have hbraces : braces s = p.filter Token.isBrace := hs ▸ h.filter_trim_chars fun _ _ => rfl
  have hclosing : braces ['}'] = [.closing] := by
    rw [braces, tokens_closing]
    rfl
  cases h with
  | closing =>
    have htrim : s = ['}'] := hs
    rw [htrim, if_pos rfl, hclosing]
  | plain hus =>
    rw [Token.filter_isBrace_eq_nil hus] at hbraces
    rw [hbraces, if_neg, if_neg]
    · intro hlast
      obtain ⟨r, hr⟩ := List.getLast?_eq_some_iff.1 hlast
      rw [hr, braces, tokens_snoc (by decide), List.filter_append] at hbraces
      exact absurd (List.append_eq_nil_iff.1 hbraces).2 (by decide)
    · intro hclose
      rw [hclose, hclosing] at hbraces
      exact absurd hbraces (by decide)
  | @opening us hus =>
    have hchars : (us ++ [Token.opening]).flatMap Token.chars = us.flatMap Token.chars ++ ['{'] := by
      rw [List.flatMap_append]
      rfl
    have hlast : s.getLast? = some '{' := by
      rw [hs, hchars, trim_snoc_of_not_isBlank (by decide), List.getLast?_concat]
    rw [List.filter_append, Token.filter_isBrace_eq_nil hus] at hbraces
    rw [hbraces, if_neg, if_pos hlast]
    · rfl
    · intro hclose
      rw [hclose] at hlast
      exact absurd hlast (by decide)

/-- A fragment has at most one brace, at its end, and none before a closing one. -/
theorem braces_of_mem_splitBraces {line f : List Char} (h : f ∈ splitBraces line) :
    braces f = if f = ['}'] then [.closing] else if f.getLast? = some '{' then [.opening] else [] := by
  obtain ⟨-, ts, hts, hf⟩ := exists_piece_of_mem_splitBraces h
  exact hts.braces_eq hf

/-- The same of the fragments of a whole text. -/
theorem braces_fragment {text : List Char} {f : Fragment} (h : f ∈ fragments text) :
    braces f.text = if f.text = ['}'] then [.closing]
      else if f.text.getLast? = some '{' then [.opening] else [] := by
  obtain ⟨⟨line, n⟩, -, hmem⟩ := List.mem_flatMap.1 h
  obtain ⟨piece, hpiece, rfl⟩ := List.mem_map.1 hmem
  exact braces_of_mem_splitBraces hpiece

/-- The fragments of a text have the braces of its lines. -/
theorem flatMap_braces_fragments (text : List Char) :
    (fragments text).flatMap (fun f => braces f.text) = (cleanLines text).flatMap braces := by
  unfold fragments
  rw [List.flatMap_assoc]
  have hline : ∀ ln ∈ (cleanLines text).zipIdx 1,
      ((splitBraces ln.1).map fun piece => ({ line := ln.2, text := piece } : Fragment)).flatMap
        (fun f => braces f.text) = braces ln.1 := by
    intro ln _
    rw [List.flatMap_map]
    exact flatMap_filter_splitBraces (fun _ _ => rfl) ln.1
  rw [List.flatMap_congr hline, ← List.flatMap_map (f := Prod.fst), List.zipIdx_map_fst]

/-! ## Lines that are not cut -/

/-- Without a brace there is one part. -/
theorem cutBraces_plain {ts : List Token} (h : ∀ t ∈ ts, t.isBrace = false) :
    cutBraces ts = [ts.flatMap Token.chars] := by
  induction ts with
  | nil => rfl
  | cons t ts ih =>
    obtain ⟨ht, hts⟩ := List.forall_mem_cons.1 h
    cases t with
    | opening => cases ht
    | closing => cases ht
    | tag m =>
      rw [cutBraces, ih hts]
      rfl
    | other c =>
      rw [cutBraces, ih hts]
      rfl

/-- An opening brace at the end leaves an empty part behind it. -/
theorem cutBraces_opening {ts : List Token} (h : ∀ t ∈ ts, t.isBrace = false) :
    cutBraces (ts ++ [.opening]) = [ts.flatMap Token.chars ++ ['{'], []] := by
  induction ts with
  | nil => rfl
  | cons t ts ih =>
    obtain ⟨ht, hts⟩ := List.forall_mem_cons.1 h
    cases t with
    | opening => cases ht
    | closing => cases ht
    | tag m =>
      rw [List.cons_append, cutBraces, ih hts]
      simp [Token.chars]
    | other c =>
      rw [List.cons_append, cutBraces, ih hts]
      rfl

section Split

variable {us : List Token} (hus : ∀ t ∈ us, t.Plain)

include hus

/-- A line without structural braces is not cut. -/
theorem splitBraces_plain (ht : Trimmed (us.flatMap Token.chars)) :
    splitBraces (us.flatMap Token.chars) = [us.flatMap Token.chars] := by
  rw [splitBraces, (Piece.plain hus).tokens_chars, cutBraces_plain fun t h => (hus t h).isBrace]
  simp [ht.trim_eq, ht.ne_nil]

/-- Nor is one whose only structural brace opens at its end. -/
theorem splitBraces_opening (ht : Trimmed (us.flatMap Token.chars ++ ['{'])) :
    splitBraces (us.flatMap Token.chars ++ ['{']) = [us.flatMap Token.chars ++ ['{']] := by
  rw [splitBraces, tokens_append hus, tokens_opening,
    cutBraces_opening fun t h => (hus t h).isBrace]
  rw [List.map_cons, ht.trim_eq]
  simp [show trim [] = [] from rfl]

end Split

end Source

end ClassSketch
