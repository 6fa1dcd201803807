import ClassSketch.Proofs.Composition
import ClassSketch.Proofs.Outline.Reading
import ClassSketch.Proofs.Placement

/-!
# Skipped fragments

A step that gives a reason has made no use of its line. `SkipReason.Fits` says for each
reason what the reader has met : a line is rejected by the entity whose body is open, or
it is neither a header nor a relationship and stands outside of all bodies. The entity of
an open body is always there, so that the reason also tells its kind (`step_of_reason`).

Such a step leaves the diagram as it is, and the cursor but for what is pending and the
brace that ends the line (`step_skipped`). So each entry of the skipped list of a text is a
fragment that added nothing (`skipped_of_text`).
-/

namespace ClassSketch.Source

open Text Member

namespace Reader

/-- The body of an entity is open. -/
def InBody (r : Reader) (e : Entity) : Prop :=
  ∃ n, r.cursor.entity = some n ∧ r.diagram.entities[n]? = some e

/-- An open body belongs to an entity of the diagram. -/
theorem Placed.exists_inBody {r : Reader} (hr : r.Placed) {n : Nat} (hn : r.cursor.entity = some n) :
    ∃ e, r.diagram.entities[n]? = some e := by
  obtain ⟨es, e, hes, rfl⟩ := exists_snoc (hr.last n (.inl hn))
  exact ⟨e, by rw [hes, List.getElem?_concat_length]⟩

end Reader

open Reader

/-! ## Reasons -/

/-- What a reason says about the line and about the reader that skips it. -/
inductive SkipReason.Fits (r : Reader) (line : List Char) : SkipReason → Prop where
  | unbalancedBrace (hline : line = ['}']) (hentity : r.cursor.entity = none)
      (hblocks : r.cursor.blocks = []) : Fits r line .unbalancedBrace
  /-- The line starts with a visibility sign, or has a tag or a parenthesis in it. -/
  | enumMember {en : EnumDecl} (hbody : r.InBody (.enum en))
      (hmember : (∃ c ∈ (bodyText line).head?, (Visibility.ofSign? c).isSome) ∨
        Declaration.tags (bodyText line) ≠ [] ∨ '(' ∈ bodyText line) : Fits r line .enumMember
  /-- The line lists no value at all, or one that is not a word. -/
  | enumValue {en : EnumDecl} (hbody : r.InBody (.enum en))
      (hvalue : commaParts (bodyText line) = [] ∨
        ∃ v ∈ commaParts (bodyText line), isWordText v = false) : Fits r line .enumValue
  | member {e : Entity} (hbody : r.InBody e) (hkind : e.kind ≠ .enum)
      (hrefused : (e.offer (bodyText line)).1 = false) : Fits r line .member
  | unsupportedBlock (hentity : r.cursor.entity = none) (hread : Relationship.read? line = none)
      (hlast : line.getLast? = some '{') : Fits r line .unsupportedBlock
  | unrecognized (hentity : r.cursor.entity = none) (hread : Relationship.read? line = none)
      (hlast : line.getLast? ≠ some '{') : Fits r line .unrecognized

namespace Reader

variable {r : Reader} {line : List Char} {reason : SkipReason}

/-- The reason of an enum to reject a line. -/
theorem fits_of_enumValues {en : EnumDecl} (hbody : r.InBody (.enum en))
    (h : enumValues (bodyText line) = .error reason) : reason.Fits r line := by
  unfold enumValues at h
  split at h
  · next hmember =>
    cases h
    refine .enumMember hbody ?_
    simpa only [Bool.or_eq_true, Option.any_eq_true, Bool.not_eq_true', List.isEmpty_eq_false_iff,
      decide_eq_true_eq, or_assoc, exists_prop, Option.mem_def] using hmember
  · split at h
    · next hvalue =>
      cases h
      refine .enumValue hbody ?_
      simpa only [Bool.or_eq_true, List.isEmpty_iff, Bool.not_eq_true', List.all_eq_false,
        Bool.not_eq_true] using hvalue
    · cases h

/-- The reason of an entity to reject a line of its body. -/
theorem fits_of_bodyLine {e : Entity} (hbody : r.InBody e)
    (h : (bodyLine e (bodyText line)).1 = some reason) : reason.Fits r line := by
  have hmember (hkind : e.kind ≠ .enum)
      (h : (if (e.offer (bodyText line)).1 then none else some SkipReason.member) = some reason) :
      reason.Fits r line := by
    split at h
    · cases h
    · next hrefused =>
      cases h
      exact .member hbody hkind (Bool.eq_false_iff.2 hrefused)
  cases e with
  | cls c => exact hmember (by simp [Entity.kind]) h
  | interface i => exact hmember (by simp [Entity.kind]) h
  | enum en =>
    refine fits_of_enumValues hbody ?_
    unfold bodyLine at h
    cases hvalues : enumValues (bodyText line) with
    | error reason' =>
      rw [hvalues] at h
      exact congrArg Except.error (Option.some.inj h)
    | ok vs =>
      rw [hvalues] at h
      cases h

/-- Inside a body, a line that is no header and no closing brace is offered to the entity. -/
theorem dispatch_settled {n : Nat} (hr : r.cursor.Aligned) (hplain : r.NoHeader line)
    (hentity : r.cursor.entity = some n) (hline : line ≠ ['}']) :
    r.settled.dispatch line = r.settled.readBodyLine n line := by
  have hsettled : r.settled.NoHeader line := hplain
  have hflag : r.settled.cursor.inEntity = true := by
    show r.cursor.inEntity = true
    rw [hr, hentity]
    rfl
  have hbody : r.settled.cursor.body? = some n := by
    rw [Cursor.body?, if_pos hflag]
    exact hentity
  rw [Outline.dispatch_body hsettled hbody, if_neg hline]

/-- A lone brace in a body is never skipped. -/
theorem step_brace_inBody {n : Nat} (hr : r.cursor.Aligned) (hentity : r.cursor.entity = some n) :
    (r.step ['{']).2 = none := by
  have hplain : r.NoHeader ['{'] := ⟨rfl, header?_opening r⟩
  have hdispatch : (r.settled.dispatch ['{']).2 = none := by
    rw [dispatch_settled hr hplain hentity (by decide), readBodyLine_eq, if_pos (by decide)]
  unfold step
  cases r.cursor.pending with
  | some n => rfl
  | none =>
    cases r.cursor.pendingPackage with
    | some p => rfl
    | none => exact hdispatch

/-- A line of a body is skipped because its entity rejects it. -/
theorem fits_of_rejected (hcursor : r.cursor.Aligned) (hr : r.Placed) {n : Nat}
    (hplain : r.NoHeader line) (hentity : r.cursor.entity = some n) (hline : line ≠ ['}'])
    (h : (r.step line).2 = some reason) : reason.Fits r line := by
  have hbrace : line ≠ ['{'] := by
    rintro rfl
    rw [step_brace_inBody hcursor hentity] at h
    cases h
  obtain ⟨e, he⟩ := hr.exists_inBody hentity
  have hget : r.settled.diagram.entities[n]? = some e := he
  rw [step_eq_dispatch r hbrace, dispatch_settled hcursor hplain hentity hline, readBodyLine_eq,
    hget] at h
  split at h
  · cases h
  · exact fits_of_bodyLine ⟨n, hentity, he⟩ h

/-- The reader after a line that is skipped : nothing is pending any more, and a brace at the
end of the line counts for the open body, or else for a block of no known kind. -/
def afterSkip (r : Reader) (line : List Char) (reason : SkipReason) : Reader where
  cursor := { r.cursor with
    pending := none
    pendingPackage := none
    blocks := if reason = .unsupportedBlock then none :: r.cursor.blocks else r.cursor.blocks
    depth := if r.cursor.entity ≠ none ∧ line.getLast? = some '{' then r.cursor.depth + 1
      else r.cursor.depth }
  diagram := r.diagram

/-- Outside of bodies, a brace at the end of a line only counts for a block. -/
theorem afterSkip_outside (hentity : r.cursor.entity = none) (hreason : reason ≠ .unsupportedBlock) :
    r.afterSkip line reason = r.settled := by
  have hdepth : ¬(r.cursor.entity ≠ none ∧ line.getLast? = some '{') := fun h => h.1 hentity
  rw [afterSkip, if_neg hreason, if_neg hdepth]
  rfl

/-- A block that is not supported is opened when it is skipped. -/
theorem afterSkip_unsupported (hentity : r.cursor.entity = none) :
    r.afterSkip line .unsupportedBlock =
      r.settled.withCursor fun c => { c with blocks := none :: c.blocks } := by
  have hdepth : ¬(r.cursor.entity ≠ none ∧ line.getLast? = some '{') := fun h => h.1 hentity
  rw [afterSkip, if_pos rfl, if_neg hdepth]
  rfl

/-- Inside of a body a skipped line counts for its brace. -/
theorem afterSkip_inside {n : Nat} (hentity : r.cursor.entity = some n)
    (hreason : reason ≠ .unsupportedBlock) : r.afterSkip line reason = r.settled.deepen line := by
  have hinside : r.cursor.entity ≠ none := hentity ▸ Option.some_ne_none n
  rw [afterSkip, if_neg hreason, deepen]
  by_cases hlast : line.getLast? = some '{'
  · rw [if_pos ⟨hinside, hlast⟩, if_pos hlast]
    rfl
  · rw [if_neg fun h => hlast h.2, if_neg hlast]
    rfl

/-- A step with a reason fits the reason, and has no other effect. -/
theorem step_of_reason (hcursor : r.cursor.Aligned) (hr : r.Placed)
    (h : (r.step line).2 = some reason) :
    reason.Fits r line ∧ (r.step line).1 = r.afterSkip line reason := by
  have hrule := rule_step hcursor line
  rw [h] at hrule
  generalize (r.step line).1 = r' at hrule
  cases hrule with
  | unbalanced hline hentity hblocks =>
    exact ⟨.unbalancedBrace hline hentity hblocks, (afterSkip_outside hentity (by decide)).symm⟩
  | rejected hplain hentity hline =>
    have hfits := fits_of_rejected hcursor hr hplain hentity hline h
    refine ⟨hfits, (afterSkip_inside hentity ?_).symm⟩
    rintro rfl
    cases hfits with
    | unsupportedBlock hnone =>
      rw [hentity] at hnone
      cases hnone
  | unsupported _ hentity hread hlast =>
    exact ⟨.unsupportedBlock hentity hread hlast, (afterSkip_unsupported hentity).symm⟩
  | unrecognized _ hentity _ hread hlast =>
    exact ⟨.unrecognized hentity hread hlast, (afterSkip_outside hentity (by decide)).symm⟩

/-! ## Runs -/

/-- A skipped fragment is one of the run, and has its reason from the step that met it. -/
theorem exists_step_of_mem_skipped {r : Reader} {fs : List Fragment} {k : Skipped}
    (h : k ∈ (r.run fs).2) : ∃ gs hs, fs = gs ++ k.fragment :: hs ∧
      ((r.run gs).1.step k.fragment.text).2 = some k.reason := by
  induction fs generalizing r with
  | nil => cases h
  | cons f fs ih =>
    rcases List.mem_append.1 h with h | h
    · obtain ⟨reason, hreason, rfl⟩ := Option.map_eq_some_iff.1 (Option.mem_toList.1 h)
      exact ⟨[], fs, rfl, hreason⟩
    · obtain ⟨gs, hs, rfl, hstep⟩ := ih h
      exact ⟨f :: gs, hs, rfl, hstep⟩

end Reader

end ClassSketch.Source

namespace ClassSketch

open Source Reader

/-- A fragment that is skipped after any others leaves the diagram as it is, with all members and
values in it. Of the cursor it only clears what is pending, and counts the brace at the end
of its line : in the open body, or as a block if it opens one of no known kind. The
reason is true of the line. In particular an enum whose body is open takes none of the values
in a line that it rejects, however many are words. -/
theorem step_skipped (fs : List Fragment) (line : List Char) {reason : SkipReason}
    (h : ((after fs).step line).2 = some reason) :
    let c := (after fs).cursor
    let r' := ((after fs).step line).1
    r'.diagram = (after fs).diagram ∧
    r'.cursor = { c with
      pending := none
      pendingPackage := none
      blocks := if reason = .unsupportedBlock then none :: c.blocks else c.blocks
      depth := if c.entity ≠ none ∧ line.getLast? = some '{' then c.depth + 1 else c.depth } ∧
    (∀ e, (after fs).InBody e → r'.InBody e) ∧
    reason.Fits (after fs) line := by
  intro c r'
  obtain ⟨hfits, hstep⟩ := step_of_reason (aligned_after fs) (placed_after fs) h
  have hr' : r' = (after fs).afterSkip line reason := hstep
  rw [hr']
  exact ⟨rfl, rfl, fun e hbody => hbody, hfits⟩

/-- An enum rejects a line of which the first value is a word, and the second is not. The brace
at its end is counted. -/
theorem step_skipped_enum :
    let r := after (fragments "enum Color \x7b\nRED".toList)
    let r' := (r.step "GREEN, dark red \x7b".toList).1
    (r.step "GREEN, dark red \x7b".toList).2 = some .enumValue ∧
    r.diagram.enums.map EnumDecl.values = [["RED"]] ∧
    r'.diagram = r.diagram ∧ r'.cursor = { r.cursor with depth := 2 } := by
  intro r r'
  have hreason : (r.step "GREEN, dark red \x7b".toList).2 = some .enumValue := by decide +kernel
  obtain ⟨hdiagram, hcursor, -, -⟩ := step_skipped _ _ hreason
  refine ⟨hreason, by decide +kernel, hdiagram, hcursor.trans ?_⟩
  decide +kernel

/-- Every entry of the skipped list of a text is a fragment that added nothing to the diagram. -/
theorem skipped_of_text (text : String) : ∀ k ∈ (Reading.ofText text).skipped,
    ∃ gs hs, fragments text.toList = gs ++ k.fragment :: hs ∧
      (after (gs ++ [k.fragment])).diagram = (after gs).diagram ∧
      k.reason.Fits (after gs) k.fragment.text := by
  intro k hk
  obtain ⟨gs, hs, hfragments, hreason⟩ := exists_step_of_mem_skipped hk
  obtain ⟨hfits, hstep⟩ := step_of_reason (aligned_after gs) (placed_after gs) hreason
  refine ⟨gs, hs, hfragments, ?_, hfits⟩
  rw [after_snoc]
  have hdiagram := congrArg Reader.diagram hstep
  exact hdiagram

end ClassSketch
