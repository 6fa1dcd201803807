import ClassSketch.Proofs.Membership
import ClassSketch.Proofs.Outline.Body
import ClassSketch.Proofs.Outline.Link

/-!
# Reading an outline

The reader gets through the lines of an outline item by item. Between two
items it is `idle` : it only knows the blocks around it. `Reads` says what
becomes of such a reader over some lines; it composes (`Reads.append`), so the
items need one lemma each, and the induction over the outline puts them
together (`reads_outline`). What is pending when an item starts does not
matter, since no item starts with a lone brace.

The diagram at the end is the one that the outline means (`addTo_eq_diagram`).
Its package lists need no induction : they follow from the entities, since the
two records of membership agree in every diagram that is read.
-/

namespace ClassSketch.Outline

open Text Source Reader

/-! ## Runs over lines -/

/-- A reader that is `a`, whatever is pending, is `b` after the lines from line `n` on, and
has skipped what is listed. -/
def Reads (a : Reader) (n : Nat) (ls : List (List Char)) (b : Reader) (skipped : List Skipped) :
    Prop :=
  ∀ r : Reader, r.settled = a →
    (r.run (numbered n ls)).1.settled = b ∧ (r.run (numbered n ls)).2 = skipped

namespace Reads

variable {a b c : Reader} {n : Nat} {ls ls' : List (List Char)} {s s' : List Skipped}

theorem nil : Reads a n [] a [] :=
  fun _ h => ⟨h, rfl⟩

/-- Lines are read in turn, with their numbers going on. -/
theorem append (h : Reads a n ls b s) (h' : Reads b (n + ls.length) ls' c s') :
    Reads a n (ls ++ ls') c (s ++ s') := by
  intro r hr
  obtain ⟨hmid, hskipped⟩ := h r hr
  obtain ⟨hlast, hskipped'⟩ := h' _ hmid
  rw [numbered_append, run_append]
  exact ⟨hlast, by rw [hskipped, hskipped']⟩

/-- A line that is not skipped, and more lines. -/
theorem cons {line : List Char} (h : Reads a n [line] b []) (h' : Reads b (n + 1) ls c s) :
    Reads a n (line :: ls) c s :=
  h.append h'

section Line

variable {line : List Char} (hline : line ≠ ['{']) {r : Reader}

include hline

/-- A single line, when no header waits for its brace. -/
theorem single {reason : Option SkipReason} (h : a.dispatch line = (r, reason))
    (hr : r.settled = b) :
    Reads a n [line] b (reason.map fun reason => ⟨⟨n, line⟩, reason⟩).toList := by
  intro r' hr'
  have hrun : r'.run (numbered n [line]) = ((r'.step line).1,
      ((r'.step line).2.map fun reason => ⟨⟨n, line⟩, reason⟩).toList ++ []) := rfl
  rw [hrun, step_eq_dispatch r' hline, hr', h, List.append_nil]
  exact ⟨hr, rfl⟩

/-- A line that is read. -/
theorem read (h : a.dispatch line = (r, none)) (hr : r.settled = b) : Reads a n [line] b [] :=
  single hline h hr

/-- A line that is skipped. -/
theorem skip {reason : SkipReason} (h : a.dispatch line = (r, some reason)) (hr : r.settled = b) :
    Reads a n [line] b [⟨⟨n, line⟩, reason⟩] :=
  single hline h hr

end Line

end Reads

/-- A line with a header in it is no lone brace. -/
theorem ne_brace {line : List Char} {r : Reader} (h : ¬r.NoHeader line) :
    line ≠ ['{'] ∧ line ≠ ['}'] :=
  ⟨fun heq => h (heq ▸ noHeader_cons (by decide) [] r),
    fun heq => h (heq ▸ noHeader_cons (by decide) [] r)⟩

/-- Outside of a body a line is a link or is skipped. -/
theorem dispatch_outside {r : Reader} {line : List Char} (hplain : r.NoHeader line)
    (hbody : r.cursor.body? = none) (hline : line ≠ ['}']) :
    r.dispatch line = r.readOutside line := by
  simp only [dispatch, hplain.1, hplain.2, hbody, if_neg fun h : line = ['}'] ∧ _ => hline h.1]

/-- Inside of a body a line closes it or is read for the entity. -/
theorem dispatch_body {r : Reader} {line : List Char} {position : Nat} (hplain : r.NoHeader line)
    (hbody : r.cursor.body? = some position) :
    r.dispatch line = if line = ['}'] then (r.withCursor Cursor.closeBody, none)
      else r.readBodyLine position line := by
  have hinside : r.cursor.inEntity = true := by
    by_contra hout
    rw [Cursor.body?, if_neg hout] at hbody
    cases hbody
  simp only [dispatch, hplain.1, hplain.2, hbody, hinside, Bool.true_eq_false, and_false, and_true,
    if_false]

/-! ## Items -/

/-- A reader between two items. -/
def idle (blocks : List (Option String)) (d : Diagram) : Reader where
  cursor := { blocks }
  diagram := d

/-- A reader in the body of the last entity. -/
def inBody (blocks : List (Option String)) (d : Diagram) (e : Entity) : Reader where
  cursor := { blocks, entity := some d.entities.length, inEntity := true, depth := 1 }
  diagram := d.addEntity e

section Items

variable (blocks : List (Option String)) (d : Diagram) (n : Nat)

/-- The line of a package opens it. -/
theorem reads_packageLine (name : PackageName) :
    Reads (idle blocks d) n [packageLine name]
      (idle (some name.text :: blocks) { d with packages := d.packages.ensure name.text }) [] := by
  have hread := PackageHeader.read?_packageLine name
  have hheader : ¬(idle blocks d).NoHeader (packageLine name) := fun h =>
    Option.some_ne_none _ (hread.symm.trans h.1)
  have hdispatch : (idle blocks d).dispatch (packageLine name) =
      ((idle blocks d).readPackage { name := name.chars, opens := true }, none) := by
    rw [dispatch, hread]
  exact .read (ne_brace hheader).1 hdispatch rfl

/-- The line of a block without a name is skipped, and opens it nevertheless. -/
theorem reads_togetherLine :
    Reads (idle blocks d) n [togetherLine] (idle (none :: blocks) d)
      [⟨⟨n, togetherLine⟩, .unsupportedBlock⟩] := by
  have hplain : (idle blocks d).NoHeader togetherLine :=
    noHeader (w := "together".toList) (s := [' ', '{']) (forall_mem_of_all (by decide)) rfl _
      (Or.inl (by decide))
  have hread : Relationship.read? togetherLine = none := by decide +kernel
  have hdispatch : (idle blocks d).dispatch togetherLine =
      ((idle blocks d).withCursor fun c => { c with blocks := none :: c.blocks },
        some .unsupportedBlock) := by
    rw [dispatch_outside hplain rfl (by decide), readOutside, hread]
    exact if_pos (by decide)
  exact .skip (by decide) hdispatch rfl

/-- A brace closes the innermost block. -/
theorem reads_closing (b : Option String) :
    Reads (idle (b :: blocks) d) n [['}']] (idle blocks d) [] := by
  have hplain : (idle (b :: blocks) d).NoHeader ['}'] := noHeader_cons (by decide) [] _
  have hdispatch : (idle (b :: blocks) d).dispatch ['}'] = (idle (b :: blocks) d).closeBlock := by
    rw [dispatch, hplain.1]
    exact if_pos ⟨rfl, rfl⟩
  cases b <;> exact .read (by decide) hdispatch rfl

/-- A link adds its relationship. -/
theorem reads_link (l : Link) :
    Reads (idle blocks d) n [l.chars] (idle blocks (d.relate [l.relationship])) [] := by
  have hne : ∀ {c : Char}, isDotted c = false → isBlank c = false → c ∉ Arrow.signs →
      l.chars ≠ [c] :=
    fun hdotted hblank hsigns heq =>
      l.not_mem_chars hdotted hblank hsigns (heq ▸ List.mem_cons_self)
  have hdispatch : (idle blocks d).dispatch l.chars =
      ({ idle blocks d with diagram := d.relate [l.relationship] }, none) := by
    rw [dispatch_outside (l.noHeader _) rfl (hne (by decide) (by decide) (by decide)), readOutside,
      l.read?_chars]
    rfl
  exact .read (hne (by decide) (by decide) (by decide)) hdispatch rfl

end Items

/-! ## Entities -/

/-- The diagram after the header of an entry, but for the entity itself. -/
def Entry.announce (e : Entry) (package : Option String) (d : Diagram) : Diagram :=
  { d.relate e.relationships with
    packages := package.elim d.packages fun p => d.packages.add p [e.name.text] }

def Entry.addTo (e : Entry) (package : Option String) (d : Diagram) : Diagram :=
  (e.announce package d).addEntity (e.entity package)

section Entries

variable (blocks : List (Option String)) (d : Diagram) (n : Nat)

theorem register_header (e : Entry) (package : Option String) :
    register d e.header package = (e.announce package d).addEntity (e.declared package) := by
  rw [register, entity_header, relationships_header]
  rfl

/-- The header of an entry registers its entity. -/
theorem reads_headerLine (e : Entry) {b : Reader}
    (hb : ((idle blocks d).readHeader e.header e.body?.isSome).settled = b) :
    Reads (idle blocks d) n [e.headerLine] b [] := by
  have hread : (idle blocks d).header? e.headerLine = some e.header := by
    rw [header?, read?_headerLine]
    rfl
  have hheader : ¬(idle blocks d).NoHeader e.headerLine := fun h =>
    Option.some_ne_none _ (hread.symm.trans h.2)
  have hopens : decide (e.headerLine.getLast? = some '{') = e.body?.isSome := by
    rw [Bool.eq_iff_iff, decide_eq_true_iff]
    exact getLast?_headerLine e
  have hdispatch : (idle blocks d).dispatch e.headerLine =
      ((idle blocks d).readHeader e.header e.body?.isSome, none) := by
    simp only [dispatch, packageHeader?_headerLine, hread, hopens,
      if_neg fun h : e.headerLine = ['}'] ∧ _ => (ne_brace hheader).2 h.1]
  exact .read (ne_brace hheader).1 hdispatch hb

section BodyLine

variable {a b : Entity} {line : List Char} (htext : IsBodyText line)

include htext

/-- Inside of its body an entity is changed in place. -/
theorem dispatch_bodyLine : (inBody blocks d a).dispatch line =
    (inBody blocks d (bodyLine a line).2, (bodyLine a line).1) := by
  have hget : (d.entities ++ [a])[d.entities.length]? = some a := List.getElem?_concat_length
  have hset : ∀ b, (d.entities ++ [a]).set d.entities.length b = d.entities ++ [b] := by
    intro b
    rw [List.set_append_right _ _ (Nat.le_refl _), Nat.sub_self]
    rfl
  have hopens : line.getLast? ≠ some '{' := htext.getLast?_ne (by decide)
  rw [dispatch_body (htext.noHeader _) rfl, if_neg (htext.ne_singleton (by decide))]
  simp only [readBodyLine, hopens, if_false, false_and, inBody, Diagram.addEntity, hget, hset]

theorem reads_bodyLine (hline : bodyLine a line = (none, b)) :
    Reads (inBody blocks d a) n [line] (inBody blocks d b) [] := by
  have hdispatch := dispatch_bodyLine blocks d (a := a) htext
  rw [hline] at hdispatch
  exact .read (htext.ne_singleton (by decide)) hdispatch rfl

theorem skips_bodyLine {reason : SkipReason} (hline : bodyLine a line = (some reason, a)) :
    Reads (inBody blocks d a) n [line] (inBody blocks d a) [⟨⟨n, line⟩, reason⟩] := by
  have hdispatch := dispatch_bodyLine blocks d (a := a) htext
  rw [hline] at hdispatch
  exact .skip (htext.ne_singleton (by decide)) hdispatch rfl

end BodyLine

/-- The lines of a body are read for the entity. -/
theorem reads_body {a b : Entity} {ls : List (List Char)} {s : List Skipped}
    (h : Body a n ls b s) : Reads (inBody blocks d a) n ls (inBody blocks d b) s := by
  induction h with
  | nil => exact .nil
  | read htext hline _ ih => exact (reads_bodyLine blocks d _ htext hline).cons ih
  | skip htext hline _ ih => exact (skips_bodyLine blocks d _ htext hline).append ih

/-- A brace closes the body, with the entity complete. -/
theorem reads_closeBody (e : Entity) :
    Reads (inBody blocks d e) n [['}']] (idle blocks (d.addEntity e)) [] := by
  have hplain : (inBody blocks d e).NoHeader ['}'] := noHeader_cons (by decide) [] _
  have hdispatch : (inBody blocks d e).dispatch ['}'] =
      ((inBody blocks d e).withCursor Cursor.closeBody, none) := by
    rw [dispatch_body hplain rfl, if_pos rfl]
  exact .read (by decide) hdispatch rfl

/-- An entry is read with its header, its body and its brace. -/
theorem reads_entry (e : Entry) :
    Reads (idle blocks d) n e.lines (idle blocks (e.addTo (blocks.findSome? id) d))
      (e.skipped n) := by
  have hbody := body_entry e n (blocks.findSome? id)
  have hregister := register_header d e (blocks.findSome? id)
  have hheader := fun b => reads_headerLine blocks d n e (b := b)
  rw [Entry.lines]
  cases hopens : e.body? with
  | none =>
    rw [hopens] at hbody hheader
    obtain ⟨hentity, hskipped⟩ := Body.eq_of_nil hbody
    rw [hskipped]
    refine hheader _ ?_
    rw [Entry.addTo, ← hentity, ← hregister]
    rfl
  | some ls =>
    rw [hopens] at hbody hheader
    have hfirst := hheader (inBody blocks (e.announce (blocks.findSome? id) d)
      (e.declared (blocks.findSome? id))) (by
        rw [inBody, ← hregister]
        rfl)
    have hrest := (reads_body blocks (e.announce (blocks.findSome? id) d) _ hbody).append
      (reads_closeBody _ _ _ _)
    rw [List.append_nil] at hrest
    exact hfirst.cons hrest

end Entries

/-! ## Outlines -/

/-- The diagram after the items of an outline, as the reader builds it up. -/
def addTo (package : Option String) (d : Diagram) : Outline → Diagram
  | nil => d
  | .package name inner rest =>
    rest.addTo package
      (inner.addTo (some name.text) { d with packages := d.packages.ensure name.text })
  | together inner rest => rest.addTo package (inner.addTo package d)
  | entity e rest => rest.addTo package (e.addTo package d)
  | link l rest => rest.addTo package (d.relate [l.relationship])

/-- An outline leaves the reader in the block in which it found it. -/
theorem reads_outline (o : Outline) (blocks : List (Option String)) (d : Diagram) (n : Nat) :
    Reads (idle blocks d) n o.lines (idle blocks (o.addTo (blocks.findSome? id) d))
      (o.skipped n) := by
  induction o generalizing blocks d n with
  | nil => exact .nil
  | package name inner rest ihinner ihrest =>
    have hinner := ihinner (some name.text :: blocks)
      { d with packages := d.packages.ensure name.text } (n + 1)
    have hnumber : n + inner.lines.length + 2 = n + 1 + inner.lines.length + 1 := by omega
    rw [skipped, hnumber]
    exact (reads_packageLine blocks d n name).cons
      (hinner.append ((reads_closing blocks _ _ _).cons (ihrest blocks _ _)))
  | together inner rest ihinner ihrest =>
    have hinner := ihinner (none :: blocks) d (n + 1)
    have hnumber : n + inner.lines.length + 2 = n + 1 + inner.lines.length + 1 := by omega
    rw [skipped, hnumber]
    exact (reads_togetherLine blocks d n).append
      (hinner.append ((reads_closing blocks _ _ _).cons (ihrest blocks _ _)))
  | entity e rest ih => exact (reads_entry blocks d n e).append (ih _ _ _)
  | link l rest ih => exact (reads_link blocks d n l).cons (ih _ _ _)

theorem isLine_entryLines (e : Entry) : ∀ l ∈ e.lines, IsLine l := by
  have hbody := (body_entry e 0 none).isBodyText
  rw [Entry.lines]
  refine List.forall_mem_cons.2 ⟨isLine_headerLine e, ?_⟩
  cases hopens : e.body? with
  | none => exact List.forall_mem_nil _
  | some ls =>
    rw [hopens] at hbody
    refine List.forall_mem_append.2 ⟨fun l hl => (hbody l hl).isLine, ?_⟩
    exact List.forall_mem_singleton.2 .closing

/-- All lines of an outline are lines that cleaning leaves as they are. -/
theorem isLine_lines (o : Outline) : ∀ l ∈ o.lines, IsLine l := by
  have htogether : IsLine togetherLine :=
    .of_ink_opening (s := "together ".toList) (forall_mem_of_all (by decide +kernel)) (by decide)
      (.of_trim_eq (by decide) (by decide +kernel))
  induction o with
  | nil => exact List.forall_mem_nil _
  | package name inner rest ihinner ihrest =>
    exact List.forall_mem_cons.2 ⟨isLine_packageLine name,
      List.forall_mem_append.2 ⟨ihinner, List.forall_mem_cons.2 ⟨.closing, ihrest⟩⟩⟩
  | together inner rest ihinner ihrest =>
    exact List.forall_mem_cons.2 ⟨htogether,
      List.forall_mem_append.2 ⟨ihinner, List.forall_mem_cons.2 ⟨.closing, ihrest⟩⟩⟩
  | entity e rest ih => exact List.forall_mem_append.2 ⟨isLine_entryLines e, ih⟩
  | link l rest ih => exact List.forall_mem_cons.2 ⟨l.isLine, ih⟩

/-! ## The diagram -/

/-- The entities of an outline are added in their order. -/
theorem entities_addTo (o : Outline) (package : Option String) (d : Diagram) :
    (o.addTo package d).entities = d.entities ++ o.entities package := by
  induction o generalizing package d with
  | nil => exact (List.append_nil _).symm
  | package name inner rest ihinner ihrest =>
    rw [addTo, ihrest, ihinner, entities, List.append_assoc]
  | together inner rest ihinner ihrest =>
    rw [addTo, ihrest, ihinner, entities, List.append_assoc]
  | entity e rest ih =>
    rw [addTo, ih, entities]
    exact List.append_assoc d.entities [e.entity package] _
  | link l rest ih =>
    rw [addTo, ih, entities]
    rfl

/-- So are its relationships. -/
theorem relationships_addTo (o : Outline) (package : Option String) (d : Diagram) :
    (o.addTo package d).relationships = d.relationships ++ o.relationships := by
  induction o generalizing package d with
  | nil => exact (List.append_nil _).symm
  | package name inner rest ihinner ihrest =>
    rw [addTo, ihrest, ihinner, relationships, List.append_assoc]
  | together inner rest ihinner ihrest =>
    rw [addTo, ihrest, ihinner, relationships, List.append_assoc]
  | entity e rest ih =>
    rw [addTo, ih, relationships]
    exact List.append_assoc d.relationships e.relationships _
  | link l rest ih =>
    rw [addTo, ih, relationships]
    exact List.append_assoc d.relationships [l.relationship] _

/-- Names after those that are listed already, each once. -/
def listed (keys names : List String) : List String :=
  names.foldl (fun ks p => if p ∈ ks then ks else ks ++ [p]) keys

theorem listed_cons (keys names : List String) (p : String) :
    listed keys (p :: names) = listed (if p ∈ keys then keys else keys ++ [p]) names :=
  rfl

theorem listed_append (keys names names' : List String) :
    listed keys (names ++ names') = listed (listed keys names) names' :=
  List.foldl_append

/-- Names are listed once, in the order of their first mention. -/
theorem listed_eq (keys names : List String) :
    listed keys names = keys ++ (names.filter (· ∉ keys)).eraseDups := by
  induction names generalizing keys with
  | nil => simp [listed]
  | cons p ps ih =>
    by_cases hp : p ∈ keys
    · rw [listed_cons, if_pos hp, ih, List.filter_cons_of_neg (by simpa using hp)]
    · have hfilter : ps.filter (· ∉ keys ++ [p]) = (ps.filter (· ∉ keys)).filter (!· == p) := by
        rw [List.filter_filter]
        refine List.filter_congr fun q _ => ?_
        by_cases hq : q = p <;> simp [hq]
      rw [listed_cons, if_neg hp, ih, List.filter_cons_of_pos (by simpa using hp),
        List.eraseDups_cons, hfilter, List.append_assoc]
      rfl

theorem mem_listed_of_mem {keys : List String} {p : String} (h : p ∈ keys) (names : List String) :
    p ∈ listed keys names := by
  rw [listed_eq]
  exact List.mem_append_left _ h

/-- A package inside which an entity stands has been listed, so that only the lines that open
packages list new ones. -/
theorem keys_addTo (o : Outline) (package : Option String) (d : Diagram)
    (h : ∀ p ∈ package, p ∈ d.packages.map (·.1)) :
    (o.addTo package d).packages.map (·.1) = listed (d.packages.map (·.1)) o.packageNames := by
  induction o generalizing package d with
  | nil => rfl
  | package name inner rest ihinner ihrest =>
    have hinner := ihinner (some name.text) { d with packages := d.packages.ensure name.text }
      fun p hp => Packages.mem_keys_ensure.2 (Or.inr (Option.some.inj hp).symm)
    have hrest := ihrest package _ fun p hp => by
      rw [hinner]
      exact mem_listed_of_mem (Packages.mem_keys_ensure.2 (Or.inl (h p hp))) _
    rw [addTo, hrest, hinner, packageNames, listed_cons, listed_append, Packages.ensure_keys]
  | together inner rest ihinner ihrest =>
    have hrest := ihrest package _ fun p hp => by
      rw [ihinner package d h]
      exact mem_listed_of_mem (h p hp) _
    rw [addTo, hrest, ihinner package d h, packageNames, listed_append]
  | entity e rest ih =>
    have hsame : (e.addTo package d).packages.map (·.1) = d.packages.map (·.1) := by
      cases package with
      | none => rfl
      | some p =>
        have hlisted := Packages.ensure_keys d.packages p
        rw [if_pos (h p rfl)] at hlisted
        exact (Packages.add_keys d.packages p [e.name.text]).trans hlisted
    rw [addTo, ih package _ (by rwa [hsame]), hsame, packageNames]
  | link l rest ih => exact ih package _ h

/-- What a package lists follows from the entities. -/
theorem packages_eq_of_agrees {d : Diagram} (h : d.Agrees) :
    d.packages = (d.packages.map (·.1)).map fun p => (p, d.membersOf p) := by
  rw [List.map_map]
  refine (List.map_id _).symm.trans (List.map_congr_left fun q hq => ?_)
  exact Prod.ext rfl (h.members q hq)

/-- The diagram that the reader builds up is the one that the outline means. -/
theorem addTo_eq_diagram (o : Outline) (h : (o.addTo none {}).Agrees) :
    o.addTo none {} = o.diagram := by
  have hentities : (o.addTo none {}).entities = o.entities none := entities_addTo o none {}
  have hrelationships : (o.addTo none {}).relationships = o.relationships :=
    relationships_addTo o none {}
  have hkeys : (o.addTo none {}).packages.map (·.1) = o.packageNames.eraseDups := by
    rw [keys_addTo o none {} (by simp), listed_eq]
    simp
  have hpackages := packages_eq_of_agrees h
  rw [hkeys] at hpackages
  simp only [Diagram.membersOf, hentities] at hpackages
  rw [diagram, ← hpackages, ← hentities, ← hrelationships]

/-- A text that lays out an outline is read as the diagram that the outline means, and
nothing is skipped but the lines that open its `together` blocks and the call forms in its
classes that are marked as fields. -/
theorem read_outline (o : Outline) (indent : Nat → Indent) :
    Reading.ofText (o.text indent) = { diagram := o.diagram, skipped := o.skipped 1 } := by
  have hfragments : fragments (o.text indent).toList = numbered 1 o.lines := by
    rw [text, String.toList_ofList, fragments_layout (isLine_lines o)]
  obtain ⟨hreader, hskipped⟩ := reads_outline o [] {} 1 {} rfl
  rw [← hfragments] at hreader hskipped
  have hdiagram : (Reading.ofText (o.text indent)).diagram = o.addTo none {} :=
    congrArg Reader.diagram hreader
  have hagrees := agrees_ofText (o.text indent)
  rw [hdiagram] at hagrees
  rw [← addTo_eq_diagram o hagrees, ← hdiagram, ← hskipped]
  rfl

/-- A class with an attribute and a constructor, and an enum in a block of its own, in a package;
then an arrow between the two. -/
def shop : Outline :=
  let cart : Word := ⟨"Cart".toList, by decide⟩
  let color : Word := ⟨"Color".toList, by decide⟩
  let price : TypeText := ⟨⟨"Price", []⟩, .intro ⟨⟨⟨"Price".toList, by decide⟩, []⟩, rfl⟩ nofun⟩
  let total : MemberLine := {
    sign := some ⟨'-', .own, rfl⟩
    tags := [⟨.static, 1⟩]
    name := ⟨"total".toList, by decide⟩
    params := none
    type := price }
  let values : EnumLine := {
    first := ⟨"RED".toList, by decide⟩
    more := [⟨"BLUE".toList, by decide⟩]
    comma := true }
  let arrow : Link := {
    left := ⟨⟨cart, []⟩, by decide⟩
    arrow := ⟨.diamond, .solid, .plain⟩
    length := 1
    right := ⟨⟨color, []⟩, by decide⟩
    kind := .composition
    direction := .rightward
    meaning := rfl }
  package ⟨"my shop".toList, .of_trim_eq (by decide) rfl, forall_mem_of_all (by decide)⟩
    (entity (.cls true cart [] [] []
        (some [.member total, .constructor none [⟨⟨"n".toList, by decide⟩, price⟩]]))
      (together (entity (.enum color (some [values])) nil) nil))
    (link arrow nil)

example :
    let r := Reading.ofText (shop.text fun _ => ⟨[' '], forall_mem_of_all (by decide)⟩)
    shop.lines.map String.ofList =
      ["package \"my shop\" \x7b", "abstract class Cart \x7b", "-\x7bstatic\x7d total: Price",
        "Cart(n: Price)", "\x7d", "together \x7b", "enum Color \x7b", "RED, BLUE,", "\x7d", "\x7d",
        "\x7d", "Cart *-- Color"] ∧
    r.diagram.packages = shop.diagram.packages ∧
    r.diagram.relationships = shop.diagram.relationships ∧ r.skipped = shop.skipped 1 := by
  decide +kernel

end ClassSketch.Outline
