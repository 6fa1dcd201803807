import ClassSketch.Source.Reader

/-!
# What a step of the reader can do

`Reader.step` chooses among its rules by nested case distinctions.
`Reader.Rule` lists the outcomes instead, one constructor per rule, each with
the condition under which the rule applies and the reader it leaves behind.
`rule_step` says that every step is one of them, so that a fact about steps is
proved once per rule and the nested distinctions are opened nowhere else.

Two fields of the cursor tell whether a body is open : the flag and the entity. Only the
flag is asked for closing braces and headers, and both are for members. The rules speak of
the entity alone, so they are those of a cursor on which the two agree
(`Cursor.Aligned`). Every rule keeps them so (`Rule.aligned`).

A fact that every rule preserves holds after any run (`run_invariant`).
-/

namespace ClassSketch.Source

open Text

/-- The flag and the entity agree on whether a body is open. -/
def Cursor.Aligned (c : Cursor) : Prop :=
  c.inEntity = c.entity.isSome

namespace Reader

/-! ## Rules -/

/-- The reader after a line, when no header waits for its brace any more. -/
def settled (r : Reader) : Reader :=
  r.withCursor Cursor.settle

/-- The reader after a line of a body that ends with an opening brace. -/
def deepen (r : Reader) (line : List Char) : Reader :=
  if line.getLast? = some '{' then r.withCursor fun c => { c with depth := c.depth + 1 } else r

theorem diagram_deepen (r : Reader) (line : List Char) : (r.deepen line).diagram = r.diagram := by
  unfold deepen
  split <;> rfl

/-- What a line of a body says besides the brace at its end. -/
def bodyText (line : List Char) : List Char :=
  if line.getLast? = some '{' then trim line.dropLast else line

/-- Whether a line is read as a header of either kind. -/
def NoHeader (r : Reader) (line : List Char) : Prop :=
  PackageHeader.read? line = none ∧ r.header? line = none

/-- The steps from `r` on `line`: the reader after it and the reason to skip the line. -/
inductive Rule (r : Reader) (line : List Char) : Reader → Option SkipReason → Prop where
  /-- A lone brace opens the pending entity. -/
  | openEntity {n : Nat} (hpending : r.cursor.pending = some n) (hline : line = ['{']) :
      Rule r line (r.withCursor fun c => { c.enter n with pending := none }) none
  /-- A lone brace opens the pending package. -/
  | openPackage {p : String} (hpending : r.cursor.pendingPackage = some p)
      (hnone : r.cursor.pending = none) (hline : line = ['{']) :
      Rule r line (r.withCursor fun c => c.settle.openPackage p) none
  | package {h : PackageHeader} (hread : PackageHeader.read? line = some h) :
      Rule r line (r.settled.readPackage h) none
  /-- A closing brace when nothing is open. -/
  | unbalanced (hline : line = ['}']) (hentity : r.cursor.entity = none)
      (hblocks : r.cursor.blocks = []) : Rule r line r.settled (some .unbalancedBrace)
  /-- A closing brace outside a body. -/
  | closeBlock {b : Option String} {bs : List (Option String)} (hline : line = ['}'])
      (hentity : r.cursor.entity = none) (hblocks : r.cursor.blocks = b :: bs) :
      Rule r line (r.withCursor fun c => { c.settle with
        blocks := bs, loosePackage := if b.isSome then none else c.loosePackage }) none
  | header {h : EntityHeader} (hpackage : PackageHeader.read? line = none)
      (hread : r.header? line = some h) :
      Rule r line (r.settled.readHeader h (line.getLast? = some '{')) none
  /-- A closing brace inside a body. -/
  | closeBody {n : Nat} (hentity : r.cursor.entity = some n) (hline : line = ['}']) :
      Rule r line (r.settled.withCursor Cursor.closeBody) none
  /-- A lone brace inside a body. -/
  | bodyBrace {n : Nat} (hplain : r.NoHeader line) (hentity : r.cursor.entity = some n)
      (hlast : line.getLast? = some '{') : Rule r line (r.settled.deepen line) none
  /-- A line of a body that its entity does not take. -/
  | rejected {n : Nat} {reason : SkipReason} (hplain : r.NoHeader line)
      (hentity : r.cursor.entity = some n) (hline : line ≠ ['}'])
      (hreason : reason ≠ .unbalancedBrace) : Rule r line (r.settled.deepen line) (some reason)
  /-- A line of a body that adds to its entity. -/
  | accepted {n : Nat} {e e' : Entity} (hplain : r.NoHeader line)
      (hentity : r.cursor.entity = some n) (hline : line ≠ ['}'])
      (hget : r.diagram.entities[n]? = some e) (hbody : bodyLine e (bodyText line) = (none, e')) :
      Rule r line { r.settled.deepen line with
        diagram := { r.diagram with entities := r.diagram.entities.set n e' } } none
  | relationship {rel : Relationship} (hplain : r.NoHeader line) (hentity : r.cursor.entity = none)
      (hline : line ≠ ['}']) (hread : Relationship.read? line = some rel) :
      Rule r line { r.settled with diagram := r.diagram.relate [rel] } none
  /-- A line that opens a block of no known kind. -/
  | unsupported (hplain : r.NoHeader line) (hentity : r.cursor.entity = none)
      (hread : Relationship.read? line = none) (hlast : line.getLast? = some '{') :
      Rule r line (r.settled.withCursor fun c => { c with blocks := none :: c.blocks })
        (some .unsupportedBlock)
  | unrecognized (hplain : r.NoHeader line) (hentity : r.cursor.entity = none)
      (hline : line ≠ ['}']) (hread : Relationship.read? line = none)
      (hlast : line.getLast? ≠ some '{') : Rule r line r.settled (some .unrecognized)

/-- A line that its entity does not take leaves the entity as it is. -/
theorem bodyLine_some {e e' : Entity} {text : List Char} {reason : SkipReason}
    (h : bodyLine e text = (some reason, e')) : e' = e ∧ reason ≠ .unbalancedBrace := by
  have hoffer (h : (if (e.offer text).1 then none else some SkipReason.member, (e.offer text).2) =
      (some reason, e')) : e' = e ∧ reason ≠ .unbalancedBrace := by
    generalize hoffered : e.offer text = offered at h
    obtain ⟨taken, e''⟩ := offered
    cases taken <;> cases h
    exact ⟨Entity.eq_of_offer_false hoffered, nofun⟩
  cases e with
  | cls c => exact hoffer h
  | interface i => exact hoffer h
  | enum en =>
    unfold bodyLine at h
    cases hvalues : enumValues text with
    | ok vs =>
      rw [hvalues] at h
      cases h
    | error reason' =>
      rw [hvalues] at h
      cases h
      refine ⟨rfl, ?_⟩
      rintro rfl
      unfold enumValues at hvalues
      repeat' split at hvalues
      all_goals cases hvalues

/-- A line that adds to an entity is a member of it or lists enum values. -/
theorem bodyLine_none {e e' : Entity} {text : List Char} (h : bodyLine e text = (none, e')) :
    e.offer text = (true, e') ∨ ∃ en vs, e = .enum en ∧ enumValues text = .ok vs ∧
      e' = .enum { en with values := en.values ++ vs } := by
  have hoffer (h : (if (e.offer text).1 then none else some SkipReason.member, (e.offer text).2) =
      (none, e')) : e.offer text = (true, e') := by
    generalize hoffered : e.offer text = offered at h
    obtain ⟨taken, e''⟩ := offered
    cases taken <;> cases h
    rfl
  cases e with
  | cls c => exact Or.inl (hoffer h)
  | interface i => exact Or.inl (hoffer h)
  | enum en =>
    unfold bodyLine at h
    cases hvalues : enumValues text with
    | error reason =>
      rw [hvalues] at h
      cases h
    | ok vs =>
      rw [hvalues] at h
      cases h
      exact Or.inr ⟨en, vs, rfl, rfl, rfl⟩

/-- What a line of a body does, with the entity looked up. -/
theorem readBodyLine_eq (r : Reader) (position : Nat) (line : List Char) :
    r.readBodyLine position line =
      if line.getLast? = some '{' ∧ bodyText line = [] then (r.deepen line, none)
      else match r.diagram.entities[position]? with
        | none => (r.deepen line, some .member)
        | some e =>
          ({ r.deepen line with
            diagram := { r.diagram with
              entities := r.diagram.entities.set position (bodyLine e (bodyText line)).2 } },
            (bodyLine e (bodyText line)).1) :=
  rfl

/-- A line of a body that its entity does not take changes nothing but the count of braces. -/
theorem readBodyLine_of_rejected {r : Reader} {n : Nat} {line : List Char} {e e' : Entity}
    {reason : SkipReason} (hget : r.diagram.entities[n]? = some e)
    (hbody : bodyLine e (bodyText line) = (some reason, e')) :
    { r.deepen line with diagram := { r.diagram with entities := r.diagram.entities.set n e' } } =
      r.deepen line := by
  obtain ⟨hn, rfl⟩ := List.getElem?_eq_some_iff.1 hget
  obtain ⟨rfl, -⟩ := bodyLine_some hbody
  rw [List.set_getElem_self, ← diagram_deepen r line]

/-- A line of a body follows one of the rules for bodies. -/
theorem rule_readBodyLine {r : Reader} {line : List Char} {n : Nat} (hplain : r.NoHeader line)
    (hentity : r.cursor.entity = some n) (hline : line ≠ ['}']) :
    Rule r line (r.settled.readBodyLine n line).1 (r.settled.readBodyLine n line).2 := by
  rw [readBodyLine_eq]
  by_cases hbrace : line.getLast? = some '{' ∧ bodyText line = []
  · rw [if_pos hbrace]
    exact .bodyBrace hplain hentity hbrace.1
  · rw [if_neg hbrace]
    cases hget : r.settled.diagram.entities[n]? with
    | none => exact .rejected hplain hentity hline nofun
    | some e =>
      cases hbody : bodyLine e (bodyText line) with
      | mk reason e' =>
        cases reason with
        | some reason =>
          simp only [hbody, readBodyLine_of_rejected hget hbody]
          exact .rejected hplain hentity hline (bodyLine_some hbody).2
        | none =>
          simp only [hbody]
          exact .accepted hplain hentity hline hget hbody

/-- A line outside of bodies is a link or is skipped. -/
theorem rule_readOutside {r : Reader} {line : List Char} (hplain : r.NoHeader line)
    (hentity : r.cursor.entity = none) (hline : line ≠ ['}']) :
    Rule r line (r.settled.readOutside line).1 (r.settled.readOutside line).2 := by
  unfold readOutside
  cases hread : Relationship.read? line with
  | some rel => exact .relationship hplain hentity hline hread
  | none =>
    by_cases hlast : line.getLast? = some '{'
    · rw [if_pos hlast]
      exact .unsupported hplain hentity hread hlast
    · rw [if_neg hlast]
      exact .unrecognized hplain hentity hline hread hlast

/-- A brace outside of bodies closes a block or is skipped. -/
theorem rule_closeBlock {r : Reader} {line : List Char} (hentity : r.cursor.entity = none)
    (hline : line = ['}']) : Rule r line r.settled.closeBlock.1 r.settled.closeBlock.2 := by
  have hsettled : r.settled.cursor.blocks = r.cursor.blocks := rfl
  unfold closeBlock
  rw [hsettled]
  cases hblocks : r.cursor.blocks with
  | nil => exact .unbalanced hline hentity hblocks
  | cons b bs => cases b <;> exact .closeBlock hline hentity hblocks

/-- A line that is dispatched follows one of the rules. -/
theorem rule_dispatch {r : Reader} (hr : r.cursor.Aligned) (line : List Char) :
    Rule r line (r.settled.dispatch line).1 (r.settled.dispatch line).2 := by
  have hflag : r.settled.cursor.inEntity = r.cursor.entity.isSome := hr
  have hentity : r.settled.cursor.body? = r.cursor.entity := by
    rw [Cursor.body?, hflag]
    cases hentity : r.cursor.entity with
    | none => rfl
    | some n => exact hentity
  unfold dispatch
  cases hpackage : PackageHeader.read? line with
  | some h => exact .package hpackage
  | none =>
    simp only [hflag, hentity, Option.isSome_eq_false_iff, Option.isNone_iff_eq_none]
    by_cases hclose : line = ['}'] ∧ r.cursor.entity = none
    · rw [if_pos hclose]
      exact rule_closeBlock hclose.2 hclose.1
    rw [if_neg hclose]
    cases hheader : r.header? line with
    | some h =>
      have hsame : r.settled.header? line = some h := hheader
      rw [hsame]
      exact .header hpackage hheader
    | none =>
      have hsame : r.settled.header? line = none := hheader
      rw [hsame]
      have hplain : r.NoHeader line := ⟨hpackage, hheader⟩
      cases hentity : r.cursor.entity with
      | none =>
        simp only [Option.isSome_none, Bool.false_eq_true, and_false, if_false]
        exact rule_readOutside hplain hentity fun h => hclose ⟨h, hentity⟩
      | some n =>
        simp only [Option.isSome_some, and_true]
        by_cases hline : line = ['}']
        · rw [if_pos hline]
          exact .closeBody hentity hline
        · rw [if_neg hline]
          exact rule_readBodyLine hplain hentity hline

/-- Only a lone brace can open what is pending. -/
theorem step_eq_dispatch (r : Reader) {line : List Char} (hline : line ≠ ['{']) :
    r.step line = r.settled.dispatch line := by
  unfold step
  rw [decide_eq_false hline]
  cases r.cursor.pending <;> cases r.cursor.pendingPackage <;> rfl

/-- The header of a package is read before anything else. -/
theorem step_of_package (r : Reader) {line : List Char} {h : PackageHeader}
    (hread : PackageHeader.read? line = some h) : r.step line = (r.settled.readPackage h, none) := by
  have hopen : line ≠ ['{'] := by
    rintro rfl
    cases hread
  rw [step_eq_dispatch r hopen, dispatch, hread]

/-- Then the header of an entity. -/
theorem step_of_header (r : Reader) {line : List Char} {h : EntityHeader}
    (hpackage : PackageHeader.read? line = none) (hread : r.header? line = some h) :
    r.step line = (r.settled.readHeader h (line.getLast? = some '{'), none) := by
  have hopen : line ≠ ['{'] := by
    rintro rfl
    cases hread
  have hclose : line ≠ ['}'] := by
    rintro rfl
    cases hread
  have hheader : r.settled.header? line = some h := hread
  rw [step_eq_dispatch r hopen, dispatch, hpackage, hheader]
  simp only [hclose, false_and, if_false]

/-- Every step follows one of the rules. -/
theorem rule_step {r : Reader} (hr : r.cursor.Aligned) (line : List Char) :
    Rule r line (r.step line).1 (r.step line).2 := by
  by_cases hline : line = ['{']
  · cases hpending : r.cursor.pending with
    | some n =>
      simp only [step, hpending, hline, decide_true]
      exact .openEntity hpending rfl
    | none =>
      cases hpackage : r.cursor.pendingPackage with
      | some p =>
        simp only [step, hpending, hpackage, hline, decide_true]
        exact .openPackage hpackage hpending rfl
      | none =>
        simp only [step, hpending, hpackage]
        exact rule_dispatch hr line
  · rw [step_eq_dispatch r hline]
    exact rule_dispatch hr line

/-! ## Runs -/

/-- A brace at the end of a line does not open or close a body. -/
theorem aligned_deepen {r : Reader} (hr : r.cursor.Aligned) (line : List Char) :
    (r.settled.deepen line).cursor.Aligned := by
  unfold deepen
  split <;> exact hr

/-- A body is entered and left in both fields at once. -/
theorem Rule.aligned {r r' : Reader} {line : List Char} {reason : Option SkipReason}
    (h : Rule r line r' reason) (hr : r.cursor.Aligned) : r'.cursor.Aligned := by
  cases h with
  | openEntity => rfl
  | openPackage => exact hr
  | package =>
    simp only [readPackage]
    split <;> exact hr
  | unbalanced => exact hr
  | closeBlock => exact hr
  | header =>
    simp only [readHeader]
    split <;> rfl
  | closeBody =>
    change (Cursor.closeBody _).Aligned
    unfold Cursor.closeBody
    split
    · rfl
    · exact hr
  | bodyBrace => exact aligned_deepen hr line
  | rejected => exact aligned_deepen hr line
  | accepted => exact aligned_deepen hr line
  | relationship => exact hr
  | unsupported => exact hr
  | unrecognized => exact hr

/-- A step keeps the two fields for an open body in agreement. -/
theorem aligned_step {r : Reader} (hr : r.cursor.Aligned) (line : List Char) :
    (r.step line).1.cursor.Aligned :=
  (rule_step hr line).aligned hr

/-- What every step preserves holds after a run. -/
theorem run_invariant {P : Reader → Prop}
    (hstep : ∀ r line, r.cursor.Aligned → P r → P (r.step line).1) {r : Reader}
    (hr : r.cursor.Aligned) (h : P r) (fs : List Fragment) : P (r.run fs).1 := by
  induction fs generalizing r with
  | nil => exact h
  | cons f fs ih => exact ih (aligned_step hr f.text) (hstep r f.text hr h)

end Reader

end ClassSketch.Source
