import ClassSketch.Text.Blank

/-!
# Cutting a text

Recognisers cut a text at a character. `cutAt` cuts at its first
occurrence. `restsAfter` lists what follows each occurrence on the first
line: a recogniser that may stop at any of several brackets tries these
rests, mostly the last one first, and `before` gives what it has read.
-/

namespace ClassSketch.Text

/-- What follows the text `p` at the front. -/
def after? : List Char → List Char → Option (List Char)
  | [], s => some s
  | p :: ps, c :: cs => if p = c then after? ps cs else none
  | _ :: _, [] => none

theorem after?_eq_some_iff {p s r : List Char} : after? p s = some r ↔ s = p ++ r := by
  fun_induction after? p s with
  | case1 s => simp
  | case2 ps c cs ih => simpa using ih
  | case3 p ps c cs h => simp [Ne.symm h]
  | case4 p ps => simp

/-- Whether the text `p` stands somewhere in a text. -/
def occursIn (p : List Char) : List Char → Bool
  | [] => p.isEmpty
  | c :: cs => p.isPrefixOf (c :: cs) || occursIn p cs

theorem occursIn_iff {p s : List Char} : occursIn p s = true ↔ p <:+: s := by
  induction s with
  | nil => rw [occursIn, List.isEmpty_iff, List.infix_nil]
  | cons c s ih =>
    rw [occursIn, Bool.or_eq_true, List.isPrefixOf_iff_prefix, ih, List.infix_cons_iff]

/-- What stands before and after the first `c`, if there is one. -/
def cutAt (c : Char) : List Char → Option (List Char × List Char)
  | [] => none
  | x :: xs =>
    if x = c then some ([], xs)
    else (cutAt c xs).map fun (a, b) => (x :: a, b)

theorem eq_of_cutAt {c : Char} {s a b : List Char} (h : cutAt c s = some (a, b)) :
    s = a ++ c :: b ∧ c ∉ a := by
  induction s generalizing a b with
  | nil => simp [cutAt] at h
  | cons x xs ih =>
    unfold cutAt at h
    split at h
    · next hx => simp only [Option.some.injEq, Prod.mk.injEq] at h; simp [← h.1, ← h.2, hx]
    · next hx =>
      obtain ⟨⟨a', b'⟩, hc, he⟩ := Option.map_eq_some_iff.1 h
      simp only [Prod.mk.injEq] at he
      obtain ⟨hs, hm⟩ := ih hc
      rw [← he.1, ← he.2, hs]
      exact ⟨rfl, by simp [hm, Ne.symm hx]⟩

theorem cutAt_eq_none_iff {c : Char} {s : List Char} : cutAt c s = none ↔ c ∉ s := by
  induction s with
  | nil => simp [cutAt]
  | cons x xs ih =>
    unfold cutAt
    split
    · next hx => simp [hx]
    · next hx => simp [ih, Ne.symm hx]

/-- The cut that `cutAt` finds leaves a shorter rest. -/
theorem length_lt_of_cutAt {c : Char} {s a b : List Char} (h : cutAt c s = some (a, b)) :
    b.length < s.length := by
  rw [(eq_of_cutAt h).1]
  simp
  omega

/-- What stands before an ending of a text. -/
def before (rest s : List Char) : List Char :=
  s.take (s.length - rest.length)

theorem before_append (a rest : List Char) : before rest (a ++ rest) = a := by
  simp [before]

/-- What follows each `c` that has no line feed before it. -/
def restsAfter (c : Char) : List Char → List (List Char)
  | [] => []
  | x :: xs =>
    if x = '\n' then [] else if x = c then xs :: restsAfter c xs else restsAfter c xs

theorem mem_restsAfter {c : Char} (hc : c ≠ '\n') {s r : List Char} :
    r ∈ restsAfter c s ↔ ∃ a, s = a ++ c :: r ∧ '\n' ∉ a := by
  induction s with
  | nil => simp [restsAfter]
  | cons x xs ih =>
    have cases : (∃ a, x :: xs = a ++ c :: r ∧ '\n' ∉ a) ↔
        (x = c ∧ xs = r) ∨ (x ≠ '\n' ∧ ∃ a, xs = a ++ c :: r ∧ '\n' ∉ a) := by
      constructor
      · rintro ⟨a, h, hn⟩
        cases a with
        | nil => exact .inl (by simpa using h)
        | cons y ys =>
          simp only [List.cons_append, List.cons.injEq] at h
          simp only [List.mem_cons, not_or] at hn
          exact .inr ⟨h.1 ▸ Ne.symm hn.1, ys, h.2, hn.2⟩
      · rintro (⟨rfl, rfl⟩ | ⟨hx, a, rfl, hn⟩)
        · exact ⟨[], rfl, by simp⟩
        · exact ⟨x :: a, rfl, by simp [Ne.symm hx, hn]⟩
    rw [cases, ← ih, restsAfter]
    split
    · next hx => simp [hx, Ne.symm hc]
    · next hx =>
      split
      · next hxc => simp [hxc, hc, eq_comm]
      · next hxc => simp [hx, hxc]

/-- The rest of a text after one leading character class, when the class is
not empty there. -/
def takeSome (p : Char → Bool) (s : List Char) : Option (List Char × List Char) :=
  match s.takeWhile p with
  | [] => none
  | w => some (w, s.dropWhile p)

theorem length_lt_of_takeSome {p : Char → Bool} {s w rest : List Char}
    (h : takeSome p s = some (w, rest)) : rest.length < s.length := by
  unfold takeSome at h
  split at h
  · simp at h
  · next hw =>
    simp only [Option.some.injEq, Prod.mk.injEq] at h
    have hlen := congrArg List.length (List.takeWhile_append_dropWhile (p := p) (l := s))
    have hpos : 0 < (s.takeWhile p).length := List.length_pos_iff.2 hw
    rw [List.length_append] at hlen
    rw [← h.2]
    omega

/-- The text after at least one blank. -/
def afterBlanks? : List Char → Option (List Char)
  | c :: cs => if isBlank c then some (trimStart cs) else none
  | [] => none

/-- The parts between commas, trimmed, without the blank ones. -/
def commaParts (s : List Char) : List (List Char) :=
  ((s.splitOn ',').map trim).filter (!·.isEmpty)

end ClassSketch.Text
