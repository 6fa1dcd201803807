import Mathlib.Data.List.Induction
import ClassSketch.Proofs.Braces
import ClassSketch.Proofs.Membership

/-!
# Where the cursor stands

The cursor refers to the diagram that is read so far : to an entity by its
position, to a package by its name. `Reader.Placed` says that these references
are right. A package that is open, loose or pending is listed; only a loose
package can be pending, and only when no entity is; and an entity that is open
or pending is the last one.

Every rule keeps this (`Rule.placed`), so it holds after any fragments
(`placed_after`). It follows that a fragment either leaves the entities as they
are, appends the entity it declares, or adds to the last of them
(`grows_step`), and that the open or pending entity is the one that was
declared last in the run (`lastDeclared_of_length`).
-/

namespace ClassSketch

/-- Whether an entity is the last one of its kind. -/
def Diagram.LastOfKind (d : Diagram) : Entity → Prop
  | .cls c => d.classes.getLast? = some c
  | .interface i => d.interfaces.getLast? = some i
  | .enum e => d.enums.getLast? = some e

/-- The last entity is the last of its kind. -/
theorem Diagram.lastOfKind_of_getLast? {d : Diagram} {e : Entity}
    (h : d.entities.getLast? = some e) : d.LastOfKind e := by
  obtain ⟨es, hes⟩ := List.getLast?_eq_some_iff.1 h
  cases e <;>
    simp [LastOfKind, classes, interfaces, enums, hes, Entity.class?, Entity.interface?,
      Entity.enum?]

namespace Source.Reader

open Text

/-- The cursor refers to packages that are listed and to the last entity. -/
structure Placed (r : Reader) : Prop where
  blocks : ∀ p, some p ∈ r.cursor.blocks → p ∈ r.diagram.packages.map (·.1)
  loose : ∀ p, r.cursor.loosePackage = some p → p ∈ r.diagram.packages.map (·.1)
  pendingPackage : ∀ p, r.cursor.pendingPackage = some p →
    r.cursor.loosePackage = some p ∧ r.cursor.pending = none
  last : ∀ n, r.cursor.entity = some n ∨ r.cursor.pending = some n →
    r.diagram.entities.length = n + 1

/-! ## Steps -/

section Rules

variable {r r' : Reader} {line : List Char} {reason : Option SkipReason}

/-- A rule after which nothing is pending, and which opens no entity and no package. -/
theorem Placed.keep (h : r.Placed)
    (hblocks : ∀ p, some p ∈ r'.cursor.blocks → some p ∈ r.cursor.blocks)
    (hloose : ∀ p, r'.cursor.loosePackage = some p → r.cursor.loosePackage = some p)
    (hentity : ∀ n, r'.cursor.entity = some n → r.cursor.entity = some n)
    (hpending : r'.cursor.pending = none) (hpackage : r'.cursor.pendingPackage = none)
    (hpackages : r'.diagram.packages = r.diagram.packages)
    (hlength : r'.diagram.entities.length = r.diagram.entities.length) : r'.Placed where
  blocks p hp := by simpa [hpackages] using h.blocks p (hblocks p hp)
  loose p hp := by simpa [hpackages] using h.loose p (hloose p hp)
  pendingPackage p hp := by simp [hpackage] at hp
  last n hn := by
    rcases hn with hn | hn
    · rw [hlength, h.last n (Or.inl (hentity n hn))]
    · simp [hpending] at hn

theorem Placed.deepen (h : r.Placed) (line : List Char) : (r.settled.deepen line).Placed := by
  have hdiagram : (r.settled.deepen line).diagram = r.diagram := diagram_deepen r.settled line
  refine h.keep ?_ ?_ ?_ ?_ ?_ (by rw [hdiagram]) (by rw [hdiagram]) <;> rw [cursor_deepen]
  · exact fun _ hp => hp
  · exact fun _ hp => hp
  · exact fun _ hn => hn
  · rfl
  · rfl

/-- A package moves no entity. -/
theorem Placed.readPackage (h : r.Placed) (header : PackageHeader) :
    (r.settled.readPackage header).Placed := by
  have hnew : String.ofList header.name ∈
      (r.diagram.packages.ensure (String.ofList header.name)).map (·.1) :=
    Packages.mem_keys_ensure.2 (Or.inr rfl)
  have hold : ∀ p ∈ r.diagram.packages.map (·.1),
      p ∈ (r.diagram.packages.ensure (String.ofList header.name)).map (·.1) :=
    fun p hp => Packages.mem_keys_ensure.2 (Or.inl hp)
  have hlast : ∀ n, r.cursor.entity = some n ∨ none = some n → r.diagram.entities.length = n + 1 :=
    fun n hn => h.last n (hn.imp_right fun hnone => by cases hnone)
  simp only [Reader.readPackage]
  split
  · refine ⟨fun p hp => ?_, fun p hp => ?_, fun p hp => ?_, hlast⟩
    · rcases List.mem_cons.1 hp with hp | hp
      · rw [Option.some.inj hp]
        exact hnew
      · exact hold p (h.blocks p hp)
    · cases hp
    · cases hp
  · refine ⟨fun p hp => hold p (h.blocks p hp), fun p hp => ?_, fun p hp => ⟨hp, rfl⟩, hlast⟩
    rw [← Option.some.inj hp]
    exact hnew

/-- A new entity is the last, and its body is opened or pending. -/
theorem Placed.readHeader (h : r.Placed) (header : EntityHeader) (opens : Bool) :
    (r.settled.readHeader header opens).Placed := by
  have hkeys : ∀ p ∈ r.diagram.packages.map (·.1),
      p ∈ (register r.diagram header r.cursor.package).packages.map (·.1) := by
    intro p hp
    unfold register
    cases r.cursor.package with
    | none => exact hp
    | some q =>
      show p ∈ (r.diagram.packages.add q _).map (·.1)
      rw [Packages.add_keys]
      exact Packages.mem_keys_ensure.2 (Or.inl hp)
  have hlength : (register r.diagram header r.cursor.package).entities.length =
      r.diagram.entities.length + 1 := List.length_append
  cases opens
  · refine ⟨fun p hp => hkeys p (h.blocks p hp), fun p hp => hkeys p (h.loose p hp),
      nofun, fun n hn => ?_⟩
    rcases hn with hn | hn <;> cases hn
    exact hlength
  · refine ⟨fun p hp => hkeys p (h.blocks p hp), fun p hp => hkeys p (h.loose p hp),
      nofun, fun n hn => ?_⟩
    rcases hn with hn | hn <;> cases hn
    exact hlength

/-- Every rule keeps the open body at the last entity. -/
theorem Rule.placed (h : Rule r line r' reason) (hr : r.Placed) : r'.Placed := by
  cases h with
  | openEntity hpending =>
    -- Only here a pending package is not given up, and there is none.
    refine ⟨hr.blocks, hr.loose, fun p hp => ⟨(hr.pendingPackage p hp).1, rfl⟩, fun m hm => ?_⟩
    rcases hm with hm | hm <;> cases hm
    exact hr.last _ (Or.inr hpending)
  | openPackage hpending hnone =>
    obtain ⟨hloose, -⟩ := hr.pendingPackage _ hpending
    refine ⟨fun p hp => ?_, nofun, nofun,
      fun n hn => hr.last n (hn.imp id nofun)⟩
    rcases List.mem_cons.1 hp with hp | hp
    · rw [Option.some.inj hp]
      exact hr.loose _ hloose
    · exact hr.blocks p hp
  | package => exact hr.readPackage _
  | unbalanced => exact hr.keep (fun _ h => h) (fun _ h => h) (fun _ h => h) rfl rfl rfl rfl
  | closeBlock _ _ hblocks =>
    refine hr.keep (fun p hp => ?_) (fun p hp => ?_) (fun _ h => h) rfl rfl rfl rfl
    · rw [hblocks]
      exact List.mem_cons_of_mem _ hp
    · change (if _ then none else r.cursor.loosePackage) = some p at hp
      split at hp
      · cases hp
      · exact hp
  | header => exact hr.readHeader _ _
  | closeBody =>
    have hbody : r.settled.cursor.closeBody.blocks = r.cursor.blocks ∧
        r.settled.cursor.closeBody.loosePackage = r.cursor.loosePackage ∧
        (∀ n, r.settled.cursor.closeBody.entity = some n → r.cursor.entity = some n) ∧
        r.settled.cursor.closeBody.pending = none ∧
        r.settled.cursor.closeBody.pendingPackage = none := by
      unfold Cursor.closeBody
      split
      · exact ⟨rfl, rfl, nofun, rfl, rfl⟩
      · exact ⟨rfl, rfl, fun _ hn => hn, rfl, rfl⟩
    obtain ⟨hblocks, hloose, hentity, hpending, hpackage⟩ := hbody
    exact hr.keep (fun p hp => hblocks ▸ hp) (fun p hp => hloose ▸ hp) hentity hpending hpackage
      rfl rfl
  | bodyBrace => exact hr.deepen line
  | rejected => exact hr.deepen line
  | accepted =>
    obtain ⟨hblocks, hloose, hpackage, hlast⟩ := hr.deepen line
    rw [diagram_deepen] at hblocks hloose hlast
    exact ⟨hblocks, hloose, hpackage, fun n hn => by rw [List.length_set]; exact hlast n hn⟩
  | relationship => exact hr.keep (fun _ h => h) (fun _ h => h) (fun _ h => h) rfl rfl rfl rfl
  | unsupported =>
    exact hr.keep (fun p hp => (List.mem_cons.1 hp).resolve_left (by simp)) (fun _ h => h)
      (fun _ h => h) rfl rfl rfl rfl
  | unrecognized => exact hr.keep (fun _ h => h) (fun _ h => h) (fun _ h => h) rfl rfl rfl rfl

/-- What a line does to the entities of a reader. -/
inductive Grows (r : Reader) (line : List Char) : List Entity → Prop where
  | same : Grows r line r.diagram.entities
  /-- A header declares an entity. -/
  | declared {h : EntityHeader} (hpackage : PackageHeader.read? line = none)
      (hread : r.header? line = some h) :
      Grows r line (r.diagram.entities ++ [h.entity r.cursor.package])
  /-- A line of the body of the last entity adds to it. -/
  | member {es : List Entity} {e e' : Entity} (hlast : r.diagram.entities = es ++ [e])
      (hopen : r.cursor.entity = some es.length) (hbody : bodyLine e (bodyText line) = (none, e')) :
      Grows r line (es ++ [e'])

theorem exists_snoc {es : List Entity} {n : Nat} (h : es.length = n + 1) :
    ∃ init e, es = init ++ [e] ∧ init.length = n := by
  obtain ⟨init, e, rfl⟩ := (List.eq_nil_or_concat es).resolve_left
    (List.ne_nil_of_length_eq_add_one h)
  exact ⟨init, e, List.concat_eq_append, by simpa using h⟩

/-- Every rule adds an entity, changes the last one, or changes none. -/
theorem Rule.grows (h : Rule r line r' reason) (hr : r.Placed) :
    Grows r line r'.diagram.entities := by
  cases h with
  | header hpackage hread => exact .declared hpackage hread
  | accepted _ hentity _ hget hbody =>
    obtain ⟨es, e, hes, rfl⟩ := exists_snoc (hr.last _ (Or.inl hentity))
    rw [hes, List.getElem?_concat_length] at hget
    cases hget
    simp only [hes, List.set_append_right _ _ (Nat.le_refl _), Nat.sub_self, List.set_cons_zero]
    exact .member hes hentity hbody
  | bodyBrace => exact diagram_deepen r.settled line ▸ .same
  | rejected => exact diagram_deepen r.settled line ▸ .same
  | openEntity => exact .same
  | openPackage => exact .same
  | package => exact .same
  | unbalanced => exact .same
  | closeBlock => exact .same
  | closeBody => exact .same
  | relationship => exact .same
  | unsupported => exact .same
  | unrecognized => exact .same

end Rules

/-! ## Runs -/

/-- After any fragments the open body is that of the last entity. -/
theorem placed_after (fs : List Fragment) : (after fs).Placed :=
  run_invariant (r := {}) (P := Placed) (fun _ line hr h => (rule_step hr line).placed h) rfl
    ⟨by simp, by simp, by simp, by simp⟩ fs

/-- So a step adds an entity, changes the last one, or changes none. -/
theorem grows_step (fs : List Fragment) (f : Fragment) :
    Grows (after fs) f.text (after (fs ++ [f])).diagram.entities := by
  rw [after_snoc]
  exact (rule_after fs f.text).grows (placed_after fs)

/-- What headers give to an entity and lines of its body keep holds of all entities. -/
theorem forall_entities_after {P : Entity → Prop} {fs : List Fragment}
    (hheader : ∀ f ∈ fs, ∀ (r : Reader) (h : EntityHeader) (package : Option String),
      r.header? f.text = some h → P (h.entity package))
    (hbody : ∀ f ∈ fs, ∀ e e', P e → bodyLine e (bodyText f.text) = (none, e') → P e') :
    ∀ e ∈ (after fs).diagram.entities, P e := by
  induction fs using List.reverseRecOn with
  | nil => exact List.forall_mem_nil _
  | append_singleton fs f ih =>
    obtain ⟨hheaders, hheader⟩ := List.forall_mem_append.1 hheader
    obtain ⟨hbodies, hbody⟩ := List.forall_mem_append.1 hbody
    have hall := ih hheaders hbodies
    have hgrows := grows_step fs f
    generalize (after (fs ++ [f])).diagram.entities = new at hgrows ⊢
    cases hgrows with
    | same => exact hall
    | declared _ hread =>
      have hnew := hheader f List.mem_cons_self _ _ (after fs).cursor.package hread
      exact List.forall_mem_append.2 ⟨hall, List.forall_mem_singleton.2 hnew⟩
    | member hlast _ hline =>
      rw [hlast] at hall
      obtain ⟨hes, he⟩ := List.forall_mem_append.1 hall
      have hnew := hbody f List.mem_cons_self _ _ (he _ List.mem_cons_self) hline
      exact List.forall_mem_append.2 ⟨hes, List.forall_mem_singleton.2 hnew⟩

/-- The entity at position `n` is the last one that a header of the run declared. -/
def LastDeclared (fs : List Fragment) (n : Nat) : Prop :=
  ∃ gs f hs h, fs = gs ++ f :: hs ∧ (after gs).header? f.text = some h ∧
    (after gs).diagram.entities.length = n ∧
    (after (gs ++ [f])).diagram.entities =
      (after gs).diagram.entities ++ [h.entity (after gs).cursor.package] ∧
    ∀ ks, ks <+: hs → (after (gs ++ f :: ks)).diagram.entities.length = n + 1

/-- The last entity was declared by the last header that declares one. -/
theorem lastDeclared_of_length {fs : List Fragment} {n : Nat}
    (h : (after fs).diagram.entities.length = n + 1) : LastDeclared fs n := by
  induction fs using List.reverseRecOn with
  | nil => simp [after, run] at h
  | append_singleton fs f ih =>
    -- A fragment that declares nothing only makes the run longer.
    have hlater : (after fs).diagram.entities.length = n + 1 → LastDeclared (fs ++ [f]) n := by
      intro hlength
      obtain ⟨gs, g, hs, header, rfl, hread, hn, hentities, hafter⟩ := ih hlength
      refine ⟨gs, g, hs ++ [f], header, by simp, hread, hn, hentities, fun ks hks => ?_⟩
      rcases List.prefix_concat_iff.1 hks with rfl | hks
      · simpa using h
      · exact hafter ks hks
    have hgrows := grows_step fs f
    generalize hnew : (after (fs ++ [f])).diagram.entities = new at hgrows
    cases hgrows with
    | same => exact hlater (hnew ▸ h)
    | declared hpackage hread =>
      refine ⟨fs, f, [], _, rfl, hread, ?_, hnew, fun ks hks => ?_⟩
      · simpa [hnew] using h
      · rw [List.prefix_nil.1 hks, h]
    | member hlast =>
      refine hlater ?_
      rw [hnew] at h
      simpa [hlast] using h

/-- After any fragments, the cursor agrees with itself and with the diagram : the flag for an
open body is set exactly if there is an entity, and exactly then braces are open in it, at most one header waits for its brace, packages that are
open or loose are listed, and the open or pending entity is the one declared last, which is
the last of its kind. The next fragment changes no entity but that one. -/
theorem cursor_placed (fs : List Fragment) :
    let c := (after fs).cursor
    let d := (after fs).diagram
    (c.inEntity = true ↔ c.entity ≠ none) ∧
    (c.entity ≠ none ↔ 1 ≤ c.depth) ∧
    (c.pending ≠ none → c.entity = none ∧ c.pendingPackage = none) ∧
    (c.pendingPackage ≠ none → c.loosePackage = c.pendingPackage) ∧
    (∀ p, some p ∈ c.blocks ∨ c.loosePackage = some p → p ∈ d.packages.map (·.1)) ∧
    (∀ n, c.entity = some n ∨ c.pending = some n →
      LastDeclared fs n ∧ ∃ es e, d.entities = es ++ [e] ∧ es.length = n ∧ d.LastOfKind e) ∧
    ∀ f, Grows (after fs) f.text (after (fs ++ [f])).diagram.entities := by
  intro c d
  have hconsistent := consistent_after fs
  have hplaced := placed_after fs
  refine ⟨?_, ?_, fun hp => ⟨hconsistent.pending hp, ?_⟩, fun hp => ?_, fun p hp => ?_,
    fun n hn => ?_, grows_step fs⟩
  · have haligned : c.inEntity = c.entity.isSome := aligned_after fs
    rw [haligned, Option.isSome_iff_ne_none]
  · rw [Nat.one_le_iff_ne_zero]
    exact not_congr hconsistent.depth.symm
  · by_contra hne
    obtain ⟨p, hpackage⟩ := Option.ne_none_iff_exists'.1 hne
    exact hp (hplaced.pendingPackage p hpackage).2
  · obtain ⟨p, hpackage⟩ := Option.ne_none_iff_exists'.1 hp
    rw [hpackage, (hplaced.pendingPackage p hpackage).1]
  · exact hp.elim (hplaced.blocks p) (hplaced.loose p)
  · have hlength := hplaced.last n hn
    obtain ⟨es, e, hes, hn⟩ := exists_snoc hlength
    refine ⟨lastDeclared_of_length hlength, es, e, hes, hn, d.lastOfKind_of_getLast? ?_⟩
    rw [hes, List.getLast?_concat]

end Source.Reader

end ClassSketch
