import ClassSketch.Proofs.Rules
import ClassSketch.Proofs.Tokens

/-!
# Counting braces

The cursor counts open braces twice : the blocks that are not bodies, and the
depth in the open body. Together they should be the number of structural
braces that are open (`unmatched`), where a closing brace with nothing open
counts for nothing.

Every rule changes the count by its brace (`Rule.openBraces_eq`) but for two
(`Miscounts`) : a header inside an open body gives up the braces that are open
there, and a relationship whose label ends with an opening brace leaves that
brace out, and both are wrong each time (`Rule.openBraces_ne`). So the count
is right after every fragment exactly if neither happens (`counts_iff`). Then
a closing brace is reported exactly if nothing is open, a block that is open
before balanced braces is open throughout them (`blocks_suffix_after`), and
balanced braces leave nothing open.
-/

namespace ClassSketch

open Text

/-! ## Matching -/

/-- The number of open braces after the braces `bs`, when `n` are open before. -/
def unmatched : Nat → List Token → Nat
  | n, [] => n
  | n, .opening :: bs => unmatched (n + 1) bs
  | n, .closing :: bs => unmatched (n - 1) bs
  | n, _ :: bs => unmatched n bs

/-- Braces are counted from left to right. -/
theorem unmatched_append (n : Nat) (as bs : List Token) :
    unmatched n (as ++ bs) = unmatched (unmatched n as) bs := by
  induction as generalizing n with
  | nil => rfl
  | cons a as ih => cases a <;> exact ih _

/-- Braces that all have a partner. -/
inductive Balanced : List Token → Prop where
  | nil : Balanced []
  | pair {as bs : List Token} (has : Balanced as) (hbs : Balanced bs) :
      Balanced (.opening :: as ++ .closing :: bs)

/-- Balanced braces leave any count as it was. -/
theorem Balanced.unmatched_eq {bs : List Token} (h : Balanced bs) (n : Nat) :
    unmatched n bs = n := by
  induction h generalizing n with
  | nil => rfl
  | @pair as bs _ _ iha ihb =>
    show unmatched (n + 1) (as ++ .closing :: bs) = n
    rw [unmatched_append, iha]
    exact ihb n

/-- Balanced braces never close what was open before them. -/
theorem Balanced.le_unmatched {bs : List Token} (h : Balanced bs) {as : List Token}
    (has : as <+: bs) (n : Nat) : n ≤ unmatched n as := by
  induction h generalizing as n with
  | nil =>
    rw [List.prefix_nil.1 has]
    exact Nat.le_refl n
  | @pair xs ys hxs _ ihx ihy =>
    obtain ⟨t, ht⟩ := has
    cases as with
    | nil => exact Nat.le_refl n
    | cons a as =>
      obtain ⟨rfl, htail⟩ := List.cons.inj ht
      have happend : as ++ t = xs ++ .closing :: ys := htail
      rcases List.append_eq_append_iff.1 happend with ⟨zs, hzs, -⟩ | ⟨zs, rfl, hzs⟩
      · exact Nat.le_of_succ_le (ihx ⟨zs, hzs.symm⟩ (n + 1))
      · show n ≤ unmatched (n + 1) (xs ++ zs)
        rw [unmatched_append, hxs.unmatched_eq]
        cases zs with
        | nil => exact Nat.le_succ n
        | cons z zs =>
          obtain ⟨rfl, hrest⟩ := List.cons.inj hzs
          exact ihy ⟨t, hrest.symm⟩ n

namespace Source

/-- The structural braces of fragments. -/
def fragmentBraces (fs : List Fragment) : List Token :=
  fs.flatMap fun f => braces f.text

theorem fragmentBraces_append (fs gs : List Fragment) :
    fragmentBraces (fs ++ gs) = fragmentBraces fs ++ fragmentBraces gs :=
  List.flatMap_append

/-- The number of open braces after a fragment. -/
def countLine (n : Nat) (line : List Char) : Nat :=
  if line = ['}'] then n - 1 else if line.getLast? = some '{' then n + 1 else n

/-- A fragment counts for the one brace that it may have. -/
theorem unmatched_fragment {text : List Char} {f : Fragment} (hf : f ∈ fragments text) (n : Nat) :
    unmatched n (fragmentBraces [f]) = countLine n f.text := by
  unfold fragmentBraces countLine
  rw [List.flatMap_singleton, braces_fragment hf]
  repeat' split
  all_goals rfl

/-! ## Package headers -/

namespace PackageHeader

/-- A text before `rest` that ends with something else than an opening brace. -/
def Consumed (s rest : List Char) : Prop :=
  ∃ a c, c ≠ '{' ∧ s = a ++ c :: rest

/-- A longer text is consumed as well if its end is. -/
theorem Consumed.append {s rest : List Char} (h : Consumed s rest) (a : List Char) :
    Consumed (a ++ s) rest := by
  obtain ⟨b, c, hc, rfl⟩ := h
  exact ⟨a ++ b, c, hc, by simp⟩

theorem Consumed.trans {s t rest : List Char} (h : Consumed s t) (ht : t = rest ∨ Consumed t rest) :
    Consumed s rest := by
  rcases ht with rfl | ht
  · exact h
  · obtain ⟨a, c, -, rfl⟩ := h
    simpa using ht.append (a ++ [c])

/-- A run without opening braces is consumed up to its end. -/
theorem consumed_of_takeSome {p : Char → Bool} (hp : p '{' = false) {s w rest : List Char}
    (h : takeSome p s = some (w, rest)) : Consumed s rest := by
  obtain ⟨rfl, hne, hw, -⟩ := eq_of_takeSome h
  refine ⟨w.dropLast, w.getLast hne, ?_, ?_⟩
  · intro he
    have := hw _ (List.getLast_mem hne)
    rw [he, hp] at this
    cases this
  · rw [List.append_cons, List.dropLast_append_getLast]

theorem consumed_of_name? {s name rest : List Char} (h : name? s = some (name, rest)) :
    Consumed s rest := by
  unfold name? at h
  split at h
  · next t =>
    split at h
    · next c cs rest' hcut =>
      cases h
      obtain ⟨rfl, -⟩ := eq_of_cutAt hcut
      exact ⟨'"' :: c :: cs, '"', by decide, rfl⟩
    · cases h
  · exact consumed_of_takeSome (by decide) h

/-- An alias is consumed or there is none. -/
theorem consumed_dropAlias (s : List Char) : s = dropAlias s ∨ Consumed s (dropAlias s) := by
  unfold dropAlias
  split
  · next w rest h =>
    refine Or.inr ?_
    obtain ⟨t₃, h₃, hw⟩ := Option.bind_eq_some_iff.1 h
    obtain ⟨t₂, h₂, hb⟩ := Option.bind_eq_some_iff.1 h₃
    obtain ⟨t₁, h₁, has⟩ := Option.bind_eq_some_iff.1 h₂
    obtain ⟨b, bs, rfl, -⟩ := eq_of_afterBlanks? h₁
    obtain rfl := after?_eq_some_iff.1 has
    obtain ⟨b', bs', rfl, -⟩ := eq_of_afterBlanks? hb
    exact (((consumed_of_takeSome (by decide) hw).append _).append _).append _
  · exact Or.inl rfl

/-- A stereotype is consumed or there is none. -/
theorem consumed_dropStereotype (s : List Char) :
    s = dropStereotype s ∨ Consumed s (dropStereotype s) := by
  unfold dropStereotype
  split
  · exact Or.inl rfl
  · next inner hinner =>
    split
    · next rest hrest =>
      refine Or.inr ?_
      obtain ⟨bs, hbs, -⟩ := exists_trimStart s
      have hopen := after?_eq_some_iff.1 hinner
      have hclose := after?_eq_some_iff.1 hrest
      have hsplit : inner = inner.takeWhile (· != '>') ++ ['>'] ++ '>' :: rest := by
        rw [List.append_assoc]
        show inner = inner.takeWhile (· != '>') ++ (">>".toList ++ rest)
        rw [← hclose, List.takeWhile_append_dropWhile]
      refine ⟨bs ++ "<<".toList ++ inner.takeWhile (· != '>') ++ ['>'], '>', by decide, ?_⟩
      rw [hbs, hopen]
      conv_lhs => rw [hsplit]
      simp
    · exact Or.inl rfl

/-- A package header opens a block exactly if its line ends with an opening brace. -/
theorem opens_iff {line : List Char} {h : PackageHeader} (hread : read? line = some h) :
    h.opens = true ↔ line.getLast? = some '{' := by
  unfold read? at hread
  split at hread
  · cases hread
  · next name rest hname =>
    obtain ⟨t₂, h₂, hn⟩ := Option.bind_eq_some_iff.1 hname
    obtain ⟨t₁, h₁, hb⟩ := Option.bind_eq_some_iff.1 h₂
    have hkeyword : ∃ k, line = k ++ t₁ := by
      rw [Option.orElse_eq_orElse, Option.orElse_eq_or, Option.or_eq_some_iff] at h₁
      rcases h₁ with hk | ⟨-, hk⟩
      · exact ⟨_, after?_eq_some_iff.1 hk⟩
      · exact ⟨_, after?_eq_some_iff.1 hk⟩
    obtain ⟨k, rfl⟩ := hkeyword
    obtain ⟨b, bs, rfl, -⟩ := eq_of_afterBlanks? hb
    have hconsumed : Consumed (k ++ (b :: bs ++ t₂)) (dropStereotype (dropAlias rest)) := by
      refine Consumed.append (Consumed.append ?_ (b :: bs)) k
      exact ((consumed_of_name? hn).trans (consumed_dropAlias rest)).trans
        (consumed_dropStereotype (dropAlias rest))
    obtain ⟨a, c, hc, hline⟩ := hconsumed
    rw [hline]
    obtain ⟨blanks, hblanks, hblank, -⟩ := exists_trimStart (dropStereotype (dropAlias rest))
    split at hread
    · next hnil =>
      cases hread
      rw [hblanks, hnil, List.append_nil]
      refine ⟨Bool.noConfusion, fun hlast => ?_⟩
      rcases List.eq_nil_or_concat blanks with rfl | ⟨bs', x, rfl⟩
      · rw [List.getLast?_concat] at hlast
        exact absurd (Option.some.inj hlast) hc
      · rw [List.concat_eq_append, ← List.cons_append, ← List.append_assoc,
          List.getLast?_concat] at hlast
        exact absurd (Option.some.inj hlast) (ne_brace_of_isBlank (hblank x (by simp))).1
    · next hbrace =>
      cases hread
      rw [hblanks, hbrace, ← List.cons_append, ← List.append_assoc, List.getLast?_concat]
      exact ⟨fun _ => rfl, fun _ => rfl⟩
    · cases hread

end PackageHeader

/-! ## The cursor -/

namespace Cursor

/-- The braces that the cursor takes to be open. -/
def openBraces (c : Cursor) : Nat :=
  c.blocks.length + c.depth

/-- A body is open exactly if braces are open in it, and none is while a header waits for
its brace. -/
structure Consistent (c : Cursor) : Prop where
  depth : c.depth = 0 ↔ c.entity = none
  pending : c.pending ≠ none → c.entity = none

/-- The cursor is consistent after a body was left, as none is open then. -/
theorem Consistent.leave (c : Cursor) : c.leave.Consistent :=
  ⟨⟨fun _ => rfl, fun _ => rfl⟩, fun _ => rfl⟩

/-- A rule that leaves body and depth alone and clears what is pending. -/
theorem Consistent.keep {c c' : Cursor} (h : c.Consistent) (hentity : c'.entity = c.entity)
    (hdepth : c'.depth = c.depth) (hpending : c'.pending = none) : c'.Consistent where
  depth := by rw [hentity, hdepth, h.depth]
  pending hp := absurd hpending hp

/-- A cursor inside a body. -/
theorem Consistent.inside {c : Cursor} {n : Nat} (hentity : c.entity = some n)
    (hdepth : 0 < c.depth) (hpending : c.pending = none) : c.Consistent where
  depth := by simp [hentity, Nat.ne_of_gt hdepth]
  pending hp := absurd hpending hp

theorem Consistent.depth_eq_zero {c : Cursor} (h : c.Consistent) (he : c.entity = none) :
    c.depth = 0 :=
  h.depth.2 he

theorem Consistent.depth_pos {c : Cursor} (h : c.Consistent) (he : c.entity ≠ none) :
    0 < c.depth :=
  Nat.pos_of_ne_zero fun h0 => he (h.depth.1 h0)

/-- No brace is open exactly if no block and no body is. -/
theorem Consistent.openBraces_eq_zero_iff {c : Cursor} (h : c.Consistent) :
    c.openBraces = 0 ↔ c.blocks = [] ∧ c.entity = none := by
  rw [openBraces, Nat.add_eq_zero_iff, List.length_eq_zero_iff, h.depth]

/-- A brace that closes, in a body or the body itself, keeps the depth in step. -/
theorem Consistent.closeBody {c : Cursor} (h : c.Consistent) (hpending : c.pending = none) :
    c.closeBody.Consistent := by
  unfold Cursor.closeBody
  split
  · exact Consistent.leave c
  · next hdepth =>
    cases he : c.entity with
    | none => exact absurd (h.depth_eq_zero he) (by omega)
    | some n => exact Consistent.inside rfl (by show 0 < c.depth - 1; omega) hpending

/-- Either way it counts for one brace. -/
theorem openBraces_closeBody (c : Cursor) (h : 0 < c.depth) :
    c.closeBody.openBraces = c.openBraces - 1 := by
  unfold Cursor.closeBody openBraces
  split
  · show c.blocks.length + 0 = _
    omega
  · show c.blocks.length + (c.depth - 1) = _
    omega

end Cursor

namespace Reader

/-- The two ways to lose count : a header inside an open body, and a relationship that ends
with an opening brace. -/
def Miscounts (r : Reader) (line : List Char) : Prop :=
  PackageHeader.read? line = none ∧
    (r.cursor.entity ≠ none ∧ r.header? line ≠ none ∨
      r.cursor.entity = none ∧ r.header? line = none ∧ Relationship.read? line ≠ none ∧
        line.getLast? = some '{')

section Rules

variable {r r' : Reader} {line : List Char} {reason : Option SkipReason}

theorem cursor_deepen (r : Reader) (line : List Char) :
    (r.deepen line).cursor = { r.cursor with
      depth := if line.getLast? = some '{' then r.cursor.depth + 1 else r.cursor.depth } := by
  unfold deepen
  split <;> rfl

theorem header?_closing (r : Reader) : r.header? ['}'] = none :=
  rfl

theorem header?_opening (r : Reader) : r.header? ['{'] = none :=
  rfl

theorem read?_opening : Relationship.read? ['{'] = none := by
  decide +kernel

/-- A brace inside a body makes it deeper. -/
theorem consistent_deepen (hc : r.cursor.Consistent) {n : Nat} (he : r.cursor.entity = some n) :
    (r.settled.deepen line).cursor.Consistent := by
  have hpos := hc.depth_pos (by rw [he]; simp)
  rw [cursor_deepen]
  refine Cursor.Consistent.inside he ?_ rfl
  show 0 < if line.getLast? = some '{' then r.cursor.depth + 1 else r.cursor.depth
  split <;> omega

/-- Every rule keeps the cursor consistent. -/
theorem Rule.consistent (h : Rule r line r' reason) (hc : r.cursor.Consistent) :
    r'.cursor.Consistent := by
  cases h with
  | openEntity => exact Cursor.Consistent.inside rfl Nat.one_pos rfl
  | openPackage => exact hc.keep rfl rfl rfl
  | package =>
    simp only [readPackage]
    split <;> exact hc.keep rfl rfl rfl
  | unbalanced => exact hc.keep rfl rfl rfl
  | closeBlock => exact hc.keep rfl rfl rfl
  | header =>
    simp only [readHeader]
    split
    · exact Cursor.Consistent.inside rfl Nat.one_pos rfl
    · exact ⟨⟨fun _ => rfl, fun _ => rfl⟩, fun _ => rfl⟩
  | closeBody =>
    have hsettled : r.settled.cursor.Consistent := hc.keep rfl rfl rfl
    exact hsettled.closeBody rfl
  | bodyBrace _ he => exact consistent_deepen hc he
  | rejected _ he => exact consistent_deepen hc he
  | accepted _ he => exact consistent_deepen hc he
  | relationship => exact hc.keep rfl rfl rfl
  | unsupported => exact hc.keep rfl rfl rfl
  | unrecognized => exact hc.keep rfl rfl rfl

theorem ne_closing_of_getLast? (hlast : line.getLast? = some '{') : line ≠ ['}'] := by
  rintro rfl
  exact absurd hlast (by decide)

/-- In a body the brace at the end of a line is counted. -/
theorem openBraces_deepen (hline : line ≠ ['}']) :
    (r.settled.deepen line).cursor.openBraces = countLine r.cursor.openBraces line := by
  rw [cursor_deepen, countLine, if_neg hline]
  show r.cursor.blocks.length + _ = _
  split <;> rfl

/-- A package counts for its brace, if its header has one. -/
theorem openBraces_readPackage {h : PackageHeader} (hread : PackageHeader.read? line = some h) :
    (r.settled.readPackage h).cursor.openBraces = countLine r.cursor.openBraces line := by
  have hline : line ≠ ['}'] := by
    rintro rfl
    cases hread
  simp only [readPackage, countLine, if_neg hline, ← PackageHeader.opens_iff hread]
  split
  · show r.cursor.blocks.length + 1 + r.cursor.depth = r.cursor.blocks.length + r.cursor.depth + 1
    omega
  · rfl

/-- A header gives up the braces of the open body. -/
theorem openBraces_readHeader {h : EntityHeader} (hread : r.header? line = some h) :
    (r.settled.readHeader h (line.getLast? = some '{')).cursor.openBraces =
      countLine r.cursor.blocks.length line := by
  have hline : line ≠ ['}'] := by
    rintro rfl
    cases hread
  simp only [readHeader, countLine, if_neg hline, decide_eq_true_eq]
  split <;> rfl

/-- Every rule but two changes the count by its brace. -/
theorem Rule.openBraces_eq (h : Rule r line r' reason) (hc : r.cursor.Consistent)
    (hm : ¬r.Miscounts line) : r'.cursor.openBraces = countLine r.cursor.openBraces line := by
  cases h with
  | openEntity hp hline =>
    have hdepth := hc.depth_eq_zero (hc.pending (by rw [hp]; simp))
    rw [hline]
    show r.cursor.blocks.length + 1 = r.cursor.blocks.length + r.cursor.depth + 1
    rw [hdepth]
  | openPackage hp hnone hline =>
    rw [hline]
    show r.cursor.blocks.length + 1 + r.cursor.depth = r.cursor.blocks.length + r.cursor.depth + 1
    omega
  | package hread => exact openBraces_readPackage hread
  | unbalanced hline he hblocks =>
    rw [hline]
    show r.cursor.blocks.length + r.cursor.depth = r.cursor.blocks.length + r.cursor.depth - 1
    rw [hc.depth_eq_zero he, hblocks]
    rfl
  | closeBlock hline he hblocks =>
    rw [hline]
    show _ + r.cursor.depth = r.cursor.blocks.length + r.cursor.depth - 1
    rw [hc.depth_eq_zero he, hblocks]
    rfl
  | header hpackage hread =>
    have he : r.cursor.entity = none := by
      by_contra he
      exact hm ⟨hpackage, Or.inl ⟨he, by rw [hread]; simp⟩⟩
    rw [openBraces_readHeader hread, Cursor.openBraces, hc.depth_eq_zero he, Nat.add_zero]
  | closeBody he hline =>
    rw [hline]
    exact Cursor.openBraces_closeBody r.settled.cursor (hc.depth_pos (by rw [he]; simp))
  | bodyBrace _ _ hlast => exact openBraces_deepen (ne_closing_of_getLast? hlast)
  | rejected _ _ hline => exact openBraces_deepen hline
  | accepted _ _ hline => exact openBraces_deepen hline
  | relationship hplain he hline hread =>
    have hlast : line.getLast? ≠ some '{' := fun hlast =>
      hm ⟨hplain.1, Or.inr ⟨he, hplain.2, by rw [hread]; simp, hlast⟩⟩
    rw [countLine, if_neg hline, if_neg hlast]
    rfl
  | unsupported _ _ _ hlast =>
    rw [countLine, if_neg (ne_closing_of_getLast? hlast), if_pos hlast]
    show r.cursor.blocks.length + 1 + r.cursor.depth = r.cursor.blocks.length + r.cursor.depth + 1
    omega
  | unrecognized _ _ hline _ hlast =>
    rw [countLine, if_neg hline, if_neg hlast]
    rfl

/-- The two that do not are wrong each time. -/
theorem Rule.openBraces_ne (h : Rule r line r' reason) (hc : r.cursor.Consistent)
    (hm : r.Miscounts line) : r'.cursor.openBraces ≠ countLine r.cursor.openBraces line := by
  obtain ⟨hpackage, ⟨he, hheader⟩ | ⟨he, hheader, hrel, hlast⟩⟩ := hm
  · have hpos := hc.depth_pos he
    cases h with
    | header _ hread =>
      rw [openBraces_readHeader hread]
      unfold countLine Cursor.openBraces
      repeat' split
      · next hline => exact absurd (hline ▸ header?_closing r) hheader
      · omega
      · omega
    | openEntity _ hline => exact absurd (hline ▸ header?_opening r) hheader
    | openPackage _ _ hline => exact absurd (hline ▸ header?_opening r) hheader
    | package hread => exact absurd hpackage (by rw [hread]; simp)
    | unbalanced _ hnone => exact absurd hnone he
    | closeBlock _ hnone => exact absurd hnone he
    | closeBody _ hline => exact absurd (hline ▸ header?_closing r) hheader
    | bodyBrace hplain => exact absurd hplain.2 hheader
    | rejected hplain => exact absurd hplain.2 hheader
    | accepted hplain => exact absurd hplain.2 hheader
    | relationship hplain => exact absurd hplain.2 hheader
    | unsupported hplain => exact absurd hplain.2 hheader
    | unrecognized hplain => exact absurd hplain.2 hheader
  · have hline := ne_closing_of_getLast? hlast
    cases h with
    | relationship =>
      rw [countLine, if_neg hline, if_pos hlast]
      exact Nat.ne_of_lt (Nat.lt_succ_self _)
    | openEntity _ hopen => exact absurd (hopen ▸ read?_opening) hrel
    | openPackage _ _ hopen => exact absurd (hopen ▸ read?_opening) hrel
    | package hread => exact absurd hpackage (by rw [hread]; simp)
    | unbalanced hclose => exact absurd hclose hline
    | closeBlock hclose => exact absurd hclose hline
    | header _ hread => exact absurd hheader (by rw [hread]; simp)
    | closeBody _ hclose => exact absurd hclose hline
    | bodyBrace _ hsome => exact absurd he (by rw [hsome]; simp)
    | rejected _ hsome => exact absurd he (by rw [hsome]; simp)
    | accepted _ hsome => exact absurd he (by rw [hsome]; simp)
    | unsupported _ _ hnone => exact absurd hnone hrel
    | unrecognized _ _ _ hnone => exact absurd hnone hrel

/-- The braces that are reported are those that close nothing. -/
theorem Rule.unbalanced_iff (h : Rule r line r' reason) (hc : r.cursor.Consistent) :
    reason = some .unbalancedBrace ↔ line = ['}'] ∧ r.cursor.openBraces = 0 := by
  rw [hc.openBraces_eq_zero_iff]
  cases h with
  | unbalanced hline he hblocks => exact ⟨fun _ => ⟨hline, hblocks, he⟩, fun _ => rfl⟩
  | openEntity _ hline => simp [hline]
  | openPackage _ _ hline => simp [hline]
  | package hread =>
    refine ⟨nofun, ?_⟩
    rintro ⟨rfl, -⟩
    cases hread
  | closeBlock _ _ hblocks => simp [hblocks]
  | header _ hread =>
    refine ⟨nofun, ?_⟩
    rintro ⟨rfl, -⟩
    cases hread
  | closeBody he => simp [he]
  | bodyBrace _ he => simp [he]
  | rejected _ he _ hreason => simp [he, hreason]
  | accepted _ he => simp [he]
  | relationship _ _ hline => simp [hline]
  | unsupported _ _ _ hlast => simp [ne_closing_of_getLast? hlast]
  | unrecognized _ _ hline => simp [hline]

/-- Outer blocks stay open while there are braces enough for them. -/
theorem Rule.blocks_suffix (h : Rule r line r' reason) (hc : r.cursor.Consistent)
    {bs : List (Option String)} (hbs : bs <:+ r.cursor.blocks)
    (hlen : bs.length ≤ r'.cursor.openBraces) : bs <:+ r'.cursor.blocks := by
  cases h with
  | openEntity => exact hbs
  | openPackage => exact hbs.trans (List.suffix_cons _ _)
  | package =>
    simp only [readPackage]
    split
    · exact hbs.trans (List.suffix_cons _ _)
    · exact hbs
  | unbalanced => exact hbs
  | @closeBlock b inner _ he hblocks =>
    rw [hblocks] at hbs
    rcases List.suffix_cons_iff.1 hbs with rfl | hinner
    · have hle : inner.length + 1 ≤ inner.length + r.cursor.depth := hlen
      rw [hc.depth_eq_zero he] at hle
      omega
    · exact hinner
  | header =>
    simp only [readHeader]
    split <;> exact hbs
  | closeBody =>
    show bs <:+ (r.settled.cursor.closeBody).blocks
    unfold Cursor.closeBody
    split <;> exact hbs
  | bodyBrace => exact cursor_deepen r.settled line ▸ hbs
  | rejected => exact cursor_deepen r.settled line ▸ hbs
  | accepted =>
    show bs <:+ (r.settled.deepen line).cursor.blocks
    exact cursor_deepen r.settled line ▸ hbs
  | relationship => exact hbs
  | unsupported => exact hbs.trans (List.suffix_cons _ _)
  | unrecognized => exact hbs

end Rules

/-! ## Runs -/

/-- The reader after some fragments. -/
def after (fs : List Fragment) : Reader :=
  (run {} fs).1

theorem after_snoc (fs : List Fragment) (f : Fragment) :
    after (fs ++ [f]) = ((after fs).step f.text).1 := by
  simp only [after, run_append]
  rfl

/-- The two fields for an open body agree after any fragments. -/
theorem aligned_after (fs : List Fragment) : (after fs).cursor.Aligned :=
  run_invariant (r := {}) (P := fun r => r.cursor.Aligned) (fun _ line hr _ => aligned_step hr line)
    rfl rfl fs

/-- After any fragments, a step follows one of the rules. -/
theorem rule_after (fs : List Fragment) (line : List Char) :
    Rule (after fs) line ((after fs).step line).1 ((after fs).step line).2 :=
  rule_step (aligned_after fs) line

/-- The cursor is consistent after any fragments. -/
theorem consistent_after (fs : List Fragment) : (after fs).cursor.Consistent :=
  run_invariant (r := {}) (P := fun r => r.cursor.Consistent)
    (fun _ line hr h => (rule_step hr line).consistent h) rfl
    ⟨⟨fun _ => rfl, fun _ => rfl⟩, fun _ => rfl⟩ fs

/-- The cursor counts the open braces after every one of the fragments. -/
def Counts (fs : List Fragment) : Prop :=
  ∀ gs, gs <+: fs → (after gs).cursor.openBraces = unmatched 0 (fragmentBraces gs)

/-- No fragment makes the reader lose count. -/
def KeepsCount (fs : List Fragment) : Prop :=
  ∀ gs f, gs ++ [f] <+: fs → ¬(after gs).Miscounts f.text

/-- The count is right throughout exactly if no fragment makes the reader lose it. -/
theorem counts_iff (text : List Char) : Counts (fragments text) ↔ KeepsCount (fragments text) := by
  -- A step is counted right exactly if it adds to the count what its brace does.
  have hsnoc : ∀ gs f, gs ++ [f] <+: fragments text →
      unmatched 0 (fragmentBraces (gs ++ [f])) =
        countLine (unmatched 0 (fragmentBraces gs)) f.text := by
    intro gs f hpre
    rw [fragmentBraces_append, unmatched_append]
    exact unmatched_fragment (hpre.subset (by simp)) _
  constructor
  · intro hcounts gs f hpre hm
    refine (rule_after gs f.text).openBraces_ne (consistent_after gs) hm ?_
    rw [← after_snoc, hcounts _ hpre, hsnoc gs f hpre,
      hcounts gs ((List.prefix_append gs [f]).trans hpre)]
  · intro hkeeps gs hpre
    induction gs using List.reverseRecOn with
    | nil => rfl
    | append_singleton gs f ih =>
      rw [hsnoc gs f hpre, ← ih ((List.prefix_append gs [f]).trans hpre), after_snoc]
      exact (rule_after gs f.text).openBraces_eq (consistent_after gs) (hkeeps gs f hpre)

/-- Blocks that are open before balanced braces stay open throughout them. -/
theorem blocks_suffix_after {fs gs hs : List Fragment} (hcounts : Counts (fs ++ gs))
    (hbal : Balanced (fragmentBraces gs)) (hpre : hs <+: gs) :
    (after fs).cursor.blocks <:+ (after (fs ++ hs)).cursor.blocks := by
  induction hs using List.reverseRecOn with
  | nil => simp
  | append_singleton hs f ih =>
    have hprefix : fs ++ (hs ++ [f]) <+: fs ++ gs := (List.prefix_append_right_inj fs).2 hpre
    have hinner : fragmentBraces (hs ++ [f]) <+: fragmentBraces gs := by
      obtain ⟨rest, rfl⟩ := hpre
      rw [fragmentBraces_append (hs ++ [f])]
      exact List.prefix_append _ _
    have hcount : (after fs).cursor.blocks.length ≤
        (after (fs ++ (hs ++ [f]))).cursor.openBraces := by
      rw [hcounts _ hprefix, fragmentBraces_append, unmatched_append,
        ← hcounts fs (List.prefix_append fs gs)]
      exact Nat.le_trans (Nat.le_add_right _ _) (hbal.le_unmatched hinner _)
    rw [← List.append_assoc, after_snoc] at hcount ⊢
    exact (rule_after (fs ++ hs) f.text).blocks_suffix (consistent_after _)
      (ih ((List.prefix_append hs [f]).trans hpre)) hcount

end Reader

end Source

open Source Reader

/-- The cursor counts the open braces of a text after every fragment, exactly if no fragment
makes it lose count. Then the closing braces with nothing open are the reported ones, a block
is closed by no brace whose partner was opened inside it, and the text ends inside a block or
a body only if it leaves a brace open. -/
theorem braces_counted_iff (text : String) :
    (Counts (fragments text.toList) ↔ KeepsCount (fragments text.toList)) ∧
    (KeepsCount (fragments text.toList) →
      (∀ gs f, gs ++ [f] <+: fragments text.toList →
        (((after gs).step f.text).2 = some .unbalancedBrace ↔
          f.text = ['}'] ∧ unmatched 0 (fragmentBraces gs) = 0)) ∧
      (∀ gs hs ks, gs ++ hs <+: fragments text.toList → Balanced (fragmentBraces hs) → ks <+: hs →
        (after gs).cursor.blocks <:+ (after (gs ++ ks)).cursor.blocks) ∧
      ((after (fragments text.toList)).cursor.blocks = [] ∧
          (after (fragments text.toList)).cursor.entity = none ↔
        unmatched 0 ((cleanLines text.toList).flatMap braces) = 0)) := by
  refine ⟨counts_iff text.toList, fun hkeeps => ?_⟩
  have hcounts := (counts_iff text.toList).2 hkeeps
  refine ⟨fun gs f hpre => ?_, fun gs hs ks hpre hbal hks => ?_, ?_⟩
  · rw [← hcounts gs ((List.prefix_append gs [f]).trans hpre)]
    exact (rule_after gs f.text).unbalanced_iff (consistent_after gs)
  · exact blocks_suffix_after (fun ls hls => hcounts ls (hls.trans hpre)) hbal hks
  · rw [← (consistent_after _).openBraces_eq_zero_iff, hcounts _ (List.prefix_refl _), fragmentBraces,
      flatMap_braces_fragments]

/-- A header inside an open body and a relationship with a brace in its label lose count. After
such a header the partner of an inner brace closes the package around it. -/
theorem braces_miscounted :
    (after (fragments "class A \x7b\nclass B \x7b".toList)).cursor.openBraces = 1 ∧
    unmatched 0 (fragmentBraces (fragments "class A \x7b\nclass B \x7b".toList)) = 2 ∧
    (after (fragments "A --> B : uses \x7b".toList)).cursor.openBraces = 0 ∧
    unmatched 0 (fragmentBraces (fragments "A --> B : uses \x7b".toList)) = 1 ∧
    (Reading.ofText "package p \x7b\nclass A \x7b\nclass B \x7b\n\x7d\n\x7d\nclass C\n\x7d").diagram.entities.map
      Entity.package = [some "p", some "p", none] := by
  decide +kernel

end ClassSketch
