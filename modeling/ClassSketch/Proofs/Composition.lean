import ClassSketch.Proofs.Placement

/-!
# Reading one document after another

What the reader decides never depends on the diagram that it has read so far.
`Reader.onto` puts a reader on top of a diagram : its entities come after those
of the diagram, its positions move accordingly, and its packages are joined to
those of the diagram. Every rule commutes with this (`step_onto`), and so does a
whole run (`run_onto`).

Fragments that leave nothing open lead to a reader that is, up to a header that
waits for its brace, a fresh reader on top of the diagram of these fragments
(`run_after`). So a document may be read in parts that are put together
by `Diagram.join`.
-/

namespace ClassSketch

open Source

/-! ## Joining packages -/

namespace Packages

/-- The packages of `ps` and then those of `qs` that `ps` does not list. A package that
both list has its members in `ps` and then those in `qs`. -/
def join (ps qs : Packages) : Packages :=
  ps.map (fun p => (p.1, p.2 ++ (qs.lookup p.1).getD [])) ++
    qs.filter fun q => q.1 ∉ ps.map (·.1)

/-- The packages of both parts are listed. -/
theorem mem_keys_join {ps qs : Packages} {p : String} :
    p ∈ (ps.join qs).map (·.1) ↔ p ∈ ps.map (·.1) ∨ p ∈ qs.map (·.1) := by
  have hold : (ps.map fun p => (p.1, p.2 ++ (qs.lookup p.1).getD [])).map (·.1) = ps.map (·.1) := by
    simp
  rw [join, List.map_append, hold, List.mem_append]
  by_cases hp : p ∈ ps.map (·.1)
  · simp only [hp, true_or]
  · refine or_congr_right ?_
    simp only [List.mem_map, List.mem_filter, decide_eq_true_eq]
    constructor
    · rintro ⟨q, ⟨hq, -⟩, rfl⟩
      exact ⟨q, hq, rfl⟩
    · rintro ⟨q, hq, rfl⟩
      exact ⟨q, ⟨hq, by simpa using hp⟩, rfl⟩

theorem ensure_of_mem {ps : Packages} {package : String} (h : package ∈ ps.map (·.1)) :
    ps.ensure package = ps := by
  rw [ensure, if_pos ((any_key_iff ps package).2 h)]

theorem ensure_of_not_mem {ps : Packages} {package : String} (h : package ∉ ps.map (·.1)) :
    ps.ensure package = ps ++ [(package, [])] := by
  rw [ensure, if_neg (fun ha => h ((any_key_iff ps package).1 ha))]

/-- A package without members adds nothing to a list. -/
theorem getD_lookup_snoc (qs : Packages) (package p : String) :
    ((qs ++ [(package, [])]).lookup p).getD [] = (qs.lookup p).getD [] := by
  rw [List.lookup_append]
  cases qs.lookup p with
  | some names => rfl
  | none =>
    rw [Option.none_or, List.lookup_cons]
    split <;> rfl

/-- A package is new in the whole if it is in neither part. -/
theorem join_ensure (ps qs : Packages) (package : String) :
    (ps.join qs).ensure package = ps.join (qs.ensure package) := by
  by_cases hq : package ∈ qs.map (·.1)
  · rw [ensure_of_mem hq, ensure_of_mem (mem_keys_join.2 (Or.inr hq))]
  rw [ensure_of_not_mem hq]
  by_cases hp : package ∈ ps.map (·.1)
  · rw [ensure_of_mem (mem_keys_join.2 (Or.inl hp))]
    simp only [join, getD_lookup_snoc, List.filter_append]
    simp [hp]
  · rw [ensure_of_not_mem fun h => (mem_keys_join.1 h).elim hp hq]
    simp only [join, getD_lookup_snoc, List.filter_append]
    simp [hp]

/-- Appending names to one package changes no other. -/
theorem lookup_map_append (package p : String) (names : List String) :
    ∀ qs : Packages, (qs.map fun q => if q.1 = package then (q.1, q.2 ++ names) else q).lookup p =
      (qs.lookup p).map fun old => if p = package then old ++ names else old
  | [] => rfl
  | (key, old) :: qs => by
    have ih := lookup_map_append package p names qs
    cases hp : p == key with
    | true =>
      obtain rfl : p = key := eq_of_beq hp
      by_cases hk : p = package <;> simp [hk]
    | false =>
      by_cases hk : key = package
      · subst hk
        simp [List.lookup_cons, hp, ih]
      · simp [List.lookup_cons, hp, hk, ih]

/-- Names are added to a package in the second part or in the whole alike. -/
theorem join_add (ps qs : Packages) (package : String) (names : List String) :
    (ps.join qs).add package names = ps.join (qs.add package names) := by
  have hkey : package ∈ (qs.ensure package).map (·.1) := mem_keys_ensure.2 (Or.inr rfl)
  unfold add
  rw [join_ensure]
  generalize qs.ensure package = qs at hkey
  unfold join
  rw [List.map_append, List.map_map, List.filter_map]
  congr 1
  · refine List.map_congr_left fun p _ => ?_
    obtain ⟨old, hold⟩ : ∃ old, qs.lookup package = some old := by
      obtain ⟨q, hq, rfl⟩ := List.mem_map.1 hkey
      exact Option.isSome_iff_exists.1 (List.lookup_isSome_iff.2 ⟨q, hq, by simp⟩)
    by_cases hp : p.1 = package
    · simp [Function.comp, lookup_map_append, hp, hold]
    · simp [Function.comp, lookup_map_append, hp]
  · refine congrArg _ (List.filter_congr fun q _ => ?_)
    by_cases hq : q.1 = package <;> simp [hq]

end Packages

/-- The diagram of one document followed by that of another. -/
def Diagram.join (d e : Diagram) : Diagram where
  entities := d.entities ++ e.entities
  relationships := d.relationships ++ e.relationships
  packages := d.packages.join e.packages

/-! ## Moving a reader -/

namespace Source

/-- The cursor when `n` entities are put before those it knows. -/
def Cursor.shift (n : Nat) (c : Cursor) : Cursor :=
  { c with entity := c.entity.map (n + ·), pending := c.pending.map (n + ·) }

/-- Closing a brace does not ask which entity is open. -/
theorem Cursor.closeBody_shift (n : Nat) (c : Cursor) :
    (c.shift n).closeBody = c.closeBody.shift n := by
  unfold closeBody shift
  split <;> rfl

namespace Reader

/-- The reader on top of a diagram. -/
def onto (d : Diagram) (r : Reader) : Reader where
  cursor := r.cursor.shift d.entities.length
  diagram := d.join r.diagram

variable (d : Diagram) (r : Reader)

/-- A package header is read in the same way on top of another diagram. -/
theorem readPackage_onto (h : PackageHeader) :
    (r.onto d).readPackage h = (r.readPackage h).onto d := by
  simp only [readPackage, onto, Diagram.join, Packages.join_ensure]
  split <;> rfl

theorem closeBlock_onto : (r.onto d).closeBlock = (r.closeBlock.1.onto d, r.closeBlock.2) := by
  have hblocks : (r.onto d).cursor.blocks = r.cursor.blocks := rfl
  unfold closeBlock
  rw [hblocks]
  split <;> rfl

/-- An entity is registered in the second part or in the whole alike. -/
theorem register_join (e : Diagram) (h : EntityHeader) (package : Option String) :
    register (d.join e) h package = d.join (register e h package) := by
  unfold register Diagram.join
  cases package <;> simp [Packages.join_add]

/-- A header gives the new entity a position behind those of the diagram below. -/
theorem readHeader_onto (h : EntityHeader) (opens : Bool) :
    (r.onto d).readHeader h opens = (r.readHeader h opens).onto d := by
  have hposition : (r.onto d).diagram.entities.length =
      d.entities.length + r.diagram.entities.length := List.length_append
  have hdiagram : register (r.onto d).diagram h (r.onto d).cursor.package =
      d.join (register r.diagram h r.cursor.package) := register_join d r.diagram h _
  simp only [readHeader, hposition, hdiagram]
  cases opens <;> rfl

/-- A line of a body finds its entity at a position that is moved up. -/
theorem readBodyLine_onto (position : Nat) (line : List Char) :
    (r.onto d).readBodyLine (d.entities.length + position) line =
      ((r.readBodyLine position line).1.onto d, (r.readBodyLine position line).2) := by
  have hget : (r.onto d).diagram.entities[d.entities.length + position]? =
      r.diagram.entities[position]? := by
    show (d.entities ++ r.diagram.entities)[d.entities.length + position]? = _
    rw [List.getElem?_append_right (Nat.le_add_right _ _), Nat.add_sub_cancel_left]
  have hset : ∀ e, (r.onto d).diagram.entities.set (d.entities.length + position) e =
      d.entities ++ r.diagram.entities.set position e := by
    intro e
    show (d.entities ++ r.diagram.entities).set _ e = _
    rw [List.set_append_right _ _ (Nat.le_add_right _ _), Nat.add_sub_cancel_left]
  have hdeepen : (r.onto d).deepen line = (r.deepen line).onto d := by
    unfold deepen
    split <;> rfl
  rw [readBodyLine_eq, readBodyLine_eq, hget, hdeepen]
  split
  · rfl
  cases r.diagram.entities[position]? with
  | none => rfl
  | some e =>
    simp only [hset]
    rfl

theorem readOutside_onto (line : List Char) :
    (r.onto d).readOutside line = ((r.readOutside line).1.onto d, (r.readOutside line).2) := by
  unfold readOutside
  split
  · simp [onto, Diagram.join, Diagram.relate]
  · split <;> rfl

/-- No rule looks at the diagram below. -/
theorem dispatch_onto (line : List Char) :
    (r.onto d).dispatch line = ((r.dispatch line).1.onto d, (r.dispatch line).2) := by
  have hheader : (r.onto d).header? line = r.header? line := by
    simp [header?, onto, Cursor.shift]
  have hflag : (r.onto d).cursor.inEntity = r.cursor.inEntity := rfl
  have hbody : (r.onto d).cursor.body? = r.cursor.body?.map (d.entities.length + ·) := by
    simp only [Cursor.body?, hflag]
    split <;> rfl
  unfold dispatch
  cases PackageHeader.read? line with
  | some h => simp only [readPackage_onto]
  | none =>
    simp only [hheader, hflag, hbody]
    by_cases hclose : line = ['}'] ∧ r.cursor.inEntity = false
    · rw [if_pos hclose, if_pos hclose, closeBlock_onto]
    rw [if_neg hclose, if_neg hclose]
    cases r.header? line with
    | some h => simp only [readHeader_onto]
    | none =>
      by_cases hend : line = ['}'] ∧ r.cursor.inEntity = true
      · simp only [if_pos hend]
        exact congrArg (·, none) (congrArg (Reader.mk · _) (Cursor.closeBody_shift _ _))
      simp only [if_neg hend]
      cases r.cursor.body? with
      | none => exact readOutside_onto d r line
      | some position => exact readBodyLine_onto d r position line

theorem step_onto (line : List Char) :
    (r.onto d).step line = ((r.step line).1.onto d, (r.step line).2) := by
  have hdispatch : (r.onto d).settled.dispatch line =
      ((r.settled.dispatch line).1.onto d, (r.settled.dispatch line).2) :=
    dispatch_onto d r.settled line
  by_cases hline : line = ['{']
  · have hpending : (r.onto d).cursor.pending = r.cursor.pending.map (d.entities.length + ·) := rfl
    have hpackage : (r.onto d).cursor.pendingPackage = r.cursor.pendingPackage := rfl
    unfold step
    rw [hpending, hpackage, decide_eq_true hline]
    cases r.cursor.pending with
    | some position => rfl
    | none =>
      cases r.cursor.pendingPackage with
      | some p => rfl
      | none => exact hdispatch
  · rw [step_eq_dispatch _ hline, step_eq_dispatch _ hline, hdispatch]

/-- What a reader does does not depend on the diagram below it. -/
theorem run_onto (fs : List Fragment) :
    (r.onto d).run fs = ((r.run fs).1.onto d, (r.run fs).2) := by
  induction fs generalizing r with
  | nil => rfl
  | cons f fs ih => simp only [run, step_onto, ih]

/-! ## Fragments that leave nothing open -/

/-- Only a header that waits for its brace tells such a reader from a fresh one. -/
theorem settled_after {fs : List Fragment} (hblocks : (after fs).cursor.blocks = [])
    (hentity : (after fs).cursor.entity = none) (hloose : (after fs).cursor.loosePackage = none) :
    (after fs).settled = Reader.onto (after fs).diagram {} := by
  have hdepth := (consistent_after fs).depth_eq_zero hentity
  have hflag : (after fs).cursor.inEntity = false := by
    rw [aligned_after fs, hentity]
    rfl
  have hdiagram : (after fs).diagram.join {} = (after fs).diagram := by
    simp [Diagram.join, Packages.join]
  unfold settled withCursor onto
  rw [hdiagram]
  simp [Cursor.settle, Cursor.shift, hblocks, hentity, hflag, hloose, hdepth]

/-- Unless the next line opens what is pending, it is read as by a fresh reader on top of the
diagram. -/
theorem step_after {fs : List Fragment} (hblocks : (after fs).cursor.blocks = [])
    (hentity : (after fs).cursor.entity = none) (hloose : (after fs).cursor.loosePackage = none)
    {line : List Char} (hpending : (after fs).cursor.pending = none ∨ line ≠ ['{']) :
    (after fs).step line = (Reader.onto (after fs).diagram {}).step line := by
  have hsettled := settled_after hblocks hentity hloose
  rcases hpending with hpending | hline
  · have hpackage : (after fs).cursor.pendingPackage = none := by
      by_contra hne
      obtain ⟨p, hp⟩ := Option.ne_none_iff_exists'.1 hne
      simp [((placed_after fs).pendingPackage p hp).1] at hloose
    have hsame : (after fs).settled = after fs := by
      simp [settled, withCursor, Cursor.settle, ← hpending, ← hpackage]
    rw [← hsettled, hsame]
  · rw [step_eq_dispatch _ hline, step_eq_dispatch _ hline, hsettled]
    rfl

/-- The fragments that follow are read as if there were none before them. -/
theorem run_after {fs : List Fragment} (hblocks : (after fs).cursor.blocks = [])
    (hentity : (after fs).cursor.entity = none) (hloose : (after fs).cursor.loosePackage = none)
    {gs : List Fragment}
    (hpending : (after fs).cursor.pending = none ∨ gs.head?.map Fragment.text ≠ some ['{']) :
    ((after fs).run gs).1.diagram = (after fs).diagram.join (after gs).diagram ∧
      ((after fs).run gs).2 = (run {} gs).2 := by
  cases gs with
  | nil => simp [after, run, Diagram.join, Packages.join]
  | cons g gs =>
    have hstep := step_after hblocks hentity hloose (hpending.imp_right (by simpa using ·))
    have hrun : (after fs).run (g :: gs) = (Reader.onto (after fs).diagram {}).run (g :: gs) := by
      simp only [run, hstep]
    rw [hrun, run_onto]
    exact ⟨rfl, rfl⟩

end Reader

end Source

open Reader

/-- Fragments that leave no block, no body and no loose package open, and then others : the
whole is read as the diagrams of the two parts one after the other, packages of one name
joined, and the skipped fragments are those of the two parts. A header that waits for its
brace at the end of the first part does not matter unless the second part begins with one. -/
theorem reading_append (fs gs : List Fragment) (hblocks : (after fs).cursor.blocks = [])
    (hentity : (after fs).cursor.entity = none) (hloose : (after fs).cursor.loosePackage = none)
    (hpending : (after fs).cursor.pending = none ∨ gs.head?.map Fragment.text ≠ some ['{']) :
    let d := (after fs).diagram
    let e := (after gs).diagram
    let whole := (after (fs ++ gs)).diagram
    whole.classes = d.classes ++ e.classes ∧
    whole.interfaces = d.interfaces ++ e.interfaces ∧
    whole.enums = d.enums ++ e.enums ∧
    whole.relationships = d.relationships ++ e.relationships ∧
    whole.packages = d.packages.join e.packages ∧
    (run {} (fs ++ gs)).2 = (run {} fs).2 ++ (run {} gs).2 := by
  intro d e whole
  obtain ⟨hdiagram, hskipped⟩ := run_after hblocks hentity hloose hpending
  have hwhole : whole = d.join e := by
    rw [← hdiagram]
    simp only [whole, after, run_append]
  rw [hwhole, run_append]
  exact ⟨List.filterMap_append, List.filterMap_append, List.filterMap_append, rfl, rfl,
    congrArg _ hskipped⟩

/-- Two texts, of which the second opens a package of the first again. -/
def reopenedParts : List Fragment × List Fragment :=
  (fragments "package p \x7b\nclass A\n\x7d\nclass B".toList,
    fragments "junk\npackage q\nclass C\npackage p \x7b\nclass D\n\x7d".toList)

theorem reopenedParts_read :
    let fs := reopenedParts.1
    let gs := reopenedParts.2
    (after fs).cursor = { pending := some 1 } ∧
    gs.head?.map Fragment.text ≠ some ['{'] ∧
    (after fs).diagram.packages = [("p", ["A"])] ∧
    (after gs).diagram.packages = [("q", ["C"]), ("p", ["D"])] := by
  decide +kernel

/-- A package that the second part opens again goes on where it stopped. -/
theorem reading_append_reopened :
    let fs := reopenedParts.1
    let gs := reopenedParts.2
    (after fs).cursor.pending = some 1 ∧
    (after fs).diagram.packages = [("p", ["A"])] ∧
    (after gs).diagram.packages = [("q", ["C"]), ("p", ["D"])] ∧
    (after (fs ++ gs)).diagram.packages = [("p", ["A", "D"]), ("q", ["C"])] ∧
    (run {} (fs ++ gs)).2 = (run {} fs).2 ++ (run {} gs).2 := by
  intro fs gs
  obtain ⟨hcursor, hhead, hfirst, hsecond⟩ := reopenedParts_read
  obtain ⟨-, -, -, -, hpackages, hskipped⟩ := reading_append fs gs (by rw [hcursor])
    (by rw [hcursor]) (by rw [hcursor]) (Or.inr hhead)
  rw [hpackages, hcursor, hfirst, hsecond]
  exact ⟨rfl, rfl, rfl, by decide, hskipped⟩

end ClassSketch
