import ClassSketch.Proofs.Blocks.Listing

/-!
# Entities inside and outside of packages

Where an entity is written and how far it is moved in are found out apart from each
other. A document puts an entity into the section of every package that lists its
name, and into the last section if none does; a language moves an entity in if it
finds a package for its name. The two agree (`Document.isSome_package_iff`),
whatever a diagram lists : names without an entity, a name several times, or a name
in several packages.

Moving in is the last thing that is done to an entity. Its text is that of the same
entity in a diagram without packages, moved in as a whole (`Moved`). The empty line
below an entity stays empty (`Margin.indent_feeds`), and what stands in no package
might as well be moved in by no level (`Margin.indent_elim`).
-/

namespace ClassSketch

open Layout Lines

/-! ## Texts moved in -/

namespace Layout

/-- Moving in by no level changes nothing and is always possible. -/
theorem Margin.indent_zero (m : Margin) (s : String) : m.indent 0 s = .ok s := by
  have hline : padLine (0 * m.size) = id := by
    funext line
    simp [padLine, spaces]
  rw [Margin.indent, m.fault?_zero, hline, List.map_id, joinLines_splitText]

/-- Line feeds at the end of a text have nothing between them that could be moved in. -/
theorem Margin.indent_feeds (m : Margin) (level : Int) (s : String) :
    m.indent level (s ++ "\n\n") = (do
      let t ← m.indent level s
      return t ++ "\n\n") := by
  have hsplit : splitText (s ++ "\n\n") = splitText s ++ ["", ""] := by
    have hfeeds : s ++ "\n\n" = s ++ "\n" ++ "\n" := by rw [String.append_assoc]; rfl
    have hfeed : splitText (s ++ "\n" ++ "\n") = splitText (s ++ "\n") ++ [""] := by
      simpa [splitText] using splitText_append (s ++ "\n") ""
    have hlast : splitText (s ++ "\n") = splitText s ++ [""] := by
      simpa [splitText] using splitText_append s ""
    rw [hfeeds, hfeed, hlast, List.append_assoc]
    rfl
  unfold Margin.indent
  cases m.fault? level with
  | some f => rfl
  | none =>
    have hne : (splitText s).map (padLine (level * m.size)) ≠ [] :=
      List.map_eq_nil_iff.not.2 (splitText_ne_nil s)
    have hjoin : joinLines ((splitText (s ++ "\n\n")).map (padLine (level * m.size))) =
        joinLines ((splitText s).map (padLine (level * m.size))) ++ "\n\n" := by
      rw [hsplit, List.map_append, joinLines,
        String.intercalate_append_of_ne_nil hne (by simp), String.append_assoc]
      rfl
    exact congrArg Except.ok hjoin

/-- What stands in no package might as well be moved in by no level. -/
theorem Margin.indent_elim (m : Margin) (package : Option String) (levels : String → Nat)
    (s : String) :
    package.elim (.ok s) (fun p => m.indent (levels p) s) = m.indent (package.elim 0 levels : Nat) s := by
  cases package with
  | none => exact (m.indent_zero s).symm
  | some p => rfl

/-- The same for a package that only matters for being there. -/
theorem Margin.indent_isSome (m : Margin) (package : Option String) (s : String) :
    (if package.isSome then m.indent 1 s else .ok s) =
      m.indent (package.elim 0 fun _ => 1 : Nat) s := by
  rw [← m.indent_elim package fun _ => 1]
  cases package with
  | none => rfl
  | some p => rfl

/-- A text is a flush one, moved in by `k` levels; neither is there if a padding could not be
made. -/
structure Moved (m : Margin) (k : Nat) (flat text : Spliced) : Prop where
  text_eq : text = flat.bind (m.indent k)
  flush : ∀ t, flat = .ok t → ∃ c ∈ t.toList.head?, c ≠ ' '

end Layout

/-! ## Where an entity is written -/

theorem Packages.exists_of_of? {ps : Packages} {name p : String} (h : ps.of? name = some p) :
    ∃ q ∈ ps, name ∈ q.2 ∧ q.1 = p := by
  obtain ⟨q, hq, rfl⟩ := Option.map_eq_some_iff.1 h
  exact ⟨q, List.mem_of_find?_eq_some hq, by simpa using List.find?_some hq, rfl⟩

/-- A name has a package if it is listed in one. -/
theorem Packages.isSome_of?_iff {ps : Packages} {name : String} :
    (ps.of? name).isSome ↔ ∃ q ∈ ps, name ∈ q.2 := by
  simp [of?]

namespace Document

variable {d : Diagram} {supertypesFirst : Bool}

/-- There is a group for each package, and one for the rest. -/
theorem packages_contents (d : Diagram) (supertypesFirst : Bool) :
    (contents (ofDiagram d true supertypesFirst)).map (·.1) =
      d.packages.map (fun p => some p.1) ++ [none] := by
  simp [contents, ofDiagram, packageSections]

variable {g : Option String × List Entity}
  (hg : g ∈ contents (ofDiagram d true supertypesFirst)) {e : Entity} (he : e ∈ g.2)

include hg he

/-- In the section of a package stand entities that the package lists, and in the last
section those that no package lists. -/
theorem listed_of_mem_contents :
    (∃ q ∈ d.packages, g.1 = some q.1 ∧ e.name ∈ q.2) ∨
      (g.1 = none ∧ ∀ q ∈ d.packages, e.name ∉ q.2) := by
  obtain ⟨s, hs, rfl⟩ := List.mem_map.1 hg
  rcases List.mem_append.1 hs with hs | hs
  · obtain ⟨q, hq, rfl⟩ := List.mem_map.1 hs
    refine Or.inl ⟨q, hq, rfl, ?_⟩
    obtain ⟨name, hname, hfind⟩ := List.mem_filterMap.1 ((perm_arrange d _ _).mem_iff.1 he)
    have hsame : e.name = name := by simpa using List.find?_some hfind
    rwa [hsame]
  · obtain rfl := List.mem_singleton.1 hs
    refine Or.inr ⟨rfl, fun q hq hlisted => ?_⟩
    obtain ⟨-, hnone⟩ := List.mem_filter.1 ((perm_arrange d _ _).mem_iff.1 he)
    have hmem : e.name ∈ packagedNames d := List.mem_flatMap.2 ⟨q, hq, hlisted⟩
    simp [hmem] at hnone

/-- An entity is written inside of a package if and only if there is a package for its
name. -/
theorem isSome_package_iff : g.1.isSome ↔ (d.packageOf e.name).isSome := by
  rw [Diagram.packageOf, Packages.isSome_of?_iff]
  rcases listed_of_mem_contents hg he with ⟨q, hq, hg, hlisted⟩ | ⟨hg, hnone⟩
  · exact ⟨fun _ => ⟨q, hq, hlisted⟩, fun _ => hg ▸ rfl⟩
  · rw [hg]
    exact ⟨nofun, fun ⟨q, hq, hlisted⟩ => absurd hlisted (hnone q hq)⟩

end Document

/-! ## How far an entity is moved in -/

namespace Target

variable {m : Margin}

/-- An enclosed text starts like the first text above the block. -/
theorem head?_enclosedText {first text : String} {c : Char} (hfirst : first.toList.head? = some c)
    {above below : List String} {blocks : List Spliced}
    (h : enclosedText m (first :: above) blocks below = .ok text) : text.toList.head? = some c := by
  have hjoin (rest : List String) : (joinLines (first :: rest)).toList.head? = some c := by
    cases rest with
    | nil => simpa [joinLines] using hfirst
    | cons next rest =>
      rw [joinLines, String.intercalate_cons_cons, String.append_assoc, String.toList_append,
        List.head?_append, hfirst]
      rfl
  unfold enclosedText at h
  cases htexts : blocks.mapM id with
  | error f =>
    rw [htexts] at h
    cases h
  | ok texts =>
    rw [htexts] at h
    cases texts with
    | nil =>
      cases h
      exact hjoin _
    | cons t texts =>
      change (do let inner ← (fun s => [s]) <$> m.indent 1 _; pure _) = _ at h
      cases hinner : m.indent 1 ("\n\n".intercalate (t :: texts)) with
      | error f =>
        rw [hinner] at h
        cases h
      | ok inner =>
        rw [hinner] at h
        cases h
        exact hjoin _

/-- An enclosed text with an empty line below it, before and after it was moved in. -/
theorem moved_enclosedText {k : Nat} {move : String → Spliced}
    (hmove : ∀ text, move text = m.indent k text) (first : String) {c : Char}
    (hfirst : first.toList.head? = some c) (hc : c ≠ ' ') (above : List String)
    (blocks : List Spliced) (below : List String) :
    Moved m k
      (do let text ← enclosedText m (first :: above) blocks below
          return text ++ "\n\n")
      (do let text ← enclosedText m (first :: above) blocks below
          let text ← move text
          return text ++ "\n\n") := by
  cases henclosed : enclosedText m (first :: above) blocks below with
  | error f => exact ⟨rfl, nofun⟩
  | ok text =>
    refine ⟨?_, ?_⟩
    · change (do let text ← move text; return text ++ "\n\n") = m.indent k (text ++ "\n\n")
      rw [hmove, m.indent_feeds k text]
    · rintro _ ⟨⟩
      refine ⟨c, ?_, hc⟩
      rw [String.toList_append, List.head?_append, head?_enclosedText hfirst henclosed]
      rfl

namespace CSharp

/-- In a namespace, a type of C# is moved by one level. -/
theorem moved_typeText (package : Option String) (text head : String) (blocks : List Spliced) :
    Moved m (package.elim 0 fun _ => 1) (typeText m false text head blocks)
      (typeText m package.isSome text head blocks) :=
  moved_enclosedText (m.indent_isSome package) "/// <summary>" (c := '/') rfl (by decide)
    ["/// " ++ text, "/// </summary>", head, openBrace] blocks [closeBrace]

/-- So is every entity of C#. -/
theorem moved_entityText (d : Diagram) (e : Entity) :
    Moved m ((d.packageOf e.name).elim 0 fun _ => 1)
      (emitter.entityText m { d with packages := [] } e) (emitter.entityText m d e) := by
  cases e with
  | cls c => exact moved_typeText _ _ _ _
  | interface i => exact moved_typeText _ _ _ _
  | enum e => exact moved_typeText _ _ _ _

end CSharp

namespace TypeScript

/-- In a namespace, a type of TypeScript is moved by one level. -/
theorem moved_typeText (package : Option String) (summary head : String) (blocks : List Spliced) :
    Moved m (package.elim 0 fun _ => 1) (typeText m false summary head blocks)
      (typeText m package.isSome summary head blocks) :=
  moved_enclosedText (m.indent_isSome package) ("/** " ++ summary ++ " */") (c := '/') (by simp)
    (by decide) [head ++ " " ++ openBrace] blocks [closeBrace]

/-- So is every entity of TypeScript. -/
theorem moved_entityText (d : Diagram) (e : Entity) :
    Moved m ((d.packageOf e.name).elim 0 fun _ => 1)
      (emitter.entityText m { d with packages := [] } e) (emitter.entityText m d e) := by
  cases e with
  | cls c => exact moved_typeText _ _ _ _
  | interface i => exact moved_typeText _ _ _ _
  | enum e => exact moved_typeText _ _ _ _

end TypeScript

namespace Ruby

/-- A type of Ruby is moved by one level for each module around it. -/
theorem moved_typeText (d : Diagram) (name summary head : String) (blocks : List Spliced) :
    Moved m ((d.packageOf name).elim 0 fun p => (moduleNames p).length)
      (typeText m { d with packages := [] } name summary head blocks)
      (typeText m d name summary head blocks) :=
  moved_enclosedText (m.indent_elim (d.packageOf name) fun p => (moduleNames p).length)
    ("# " ++ summary) (c := '#') (by simp) (by decide) [head] blocks ["end"]

/-- So is every entity of Ruby. -/
theorem moved_entityText (d : Diagram) (e : Entity) :
    Moved m ((d.packageOf e.name).elim 0 fun p => (moduleNames p).length)
      (emitter.entityText m { d with packages := [] } e) (emitter.entityText m d e) := by
  cases e with
  | cls c => exact moved_typeText d _ _ _ _
  | interface i => exact moved_typeText d _ _ _ _
  | enum e => exact moved_typeText d _ _ _ _

/-- A package opens as many blocks as it has modules. -/
theorem countP_opensBlock_packageStart {package text : String}
    (h : packageStartText m package = .ok text) :
    (flushLines text).countP opensBlock = (moduleNames package).length := by
  have hopens : ∀ line ∈ (moduleNames package).map ("module " ++ ·), opensBlock line = true :=
    List.forall_mem_map.2 fun m hm => opensBlock_module (isWordText_moduleNames package m hm)
  rw [((writes_packageStartText package).text_eq h).2, flushLines_render, flush_packageStart,
    List.countP_append, List.countP_eq_length.2 hopens, List.length_map]
  rfl

end Ruby

end Target

/-! ## Generated code -/

namespace Language

/-- The languages that write packages as namespaces or modules around their members. -/
def enclosing : List Language :=
  [.csharp, .typescript, .ruby]

/-- The levels by which the members of a package are moved in. -/
def memberLevels : Language → String → Nat
  | ruby, package => (Target.Ruby.moduleNames package).length
  | _, _ => 1

/-- A package always moves its members. -/
theorem memberLevels_pos (l : Language) (package : String) : 0 < l.memberLevels package := by
  cases l with
  | ruby => exact List.length_pos_iff.2 (Target.Ruby.moduleNames_ne_nil package)
  | _ => exact Nat.zero_lt_one

theorem memberLevels_of_ne (l : Language) (hl : l ≠ .ruby) (package : String) :
    l.memberLevels package = 1 := by
  cases l with
  | ruby => exact absurd rfl hl
  | _ => rfl

/-- In each language that encloses its members, they are moved by the levels of their package. -/
theorem moved_entityText {l : Language} (hl : l ∈ enclosing) (m : Margin) (d : Diagram) (e : Entity) :
    Moved m ((d.packageOf e.name).elim 0 l.memberLevels)
      (l.emitter.entityText m { d with packages := [] } e) (l.emitter.entityText m d e) := by
  cases l with
  | csharp => exact Target.CSharp.moved_entityText d e
  | typescript => exact Target.TypeScript.moved_entityText d e
  | ruby => exact Target.Ruby.moved_entityText d e
  | java => exact absurd hl (by decide)
  | javascript => exact absurd hl (by decide)
  | kotlin => exact absurd hl (by decide)
  | python => exact absurd hl (by decide)

theorem hasPackages_of_enclosing {l : Language} (hl : l ∈ enclosing) :
    l.emitter.hasPackages = true := by
  revert l
  decide

end Language

/-- Code has a block for each package and then what no package lists, and all entities in
it are moved in as they should be. In a block there are exactly the entities for whose
name there is a package. Their text is that in a diagram without packages, moved in by `k`
levels, where `k` is not 0 in a block and 0 behind the blocks, and the text without packages
starts with no space. In Ruby `k` is the number of modules that the package opens, for an
entity that no other package lists. -/
theorem generate_indents_members (l : Language) (hl : l ∈ Language.enclosing) (memory : Nat)
    (d : Diagram) (options : Options) :
    let em := l.emitter
    let m := l.margin options memory
    let gs := l.groups options d
    let flat : Diagram := { d with packages := [] }
    (m.fault? (l.deepest d) = none → ∃ out, generate memory l options d = .ok out) ∧
    (∀ out, generate memory l options d = .ok out →
      ∃ texts, gs.mapM (Document.groupText em m d) = .ok texts ∧
        out.code = em.header ++ String.join texts ++ em.footer d) ∧
    gs.map (·.1) = d.packages.map (fun p => some p.1) ++ [none] ∧
    ∀ g ∈ gs, ∀ e ∈ g.2,
      (g.1.isSome ↔ (d.packageOf e.name).isSome) ∧
      ∃ k : Nat, (0 < k ↔ g.1.isSome) ∧ (l ≠ .ruby → k ≤ 1) ∧
        (∀ m : Margin, em.entityText m d e = (em.entityText m flat e).bind (m.indent k) ∧
          ∀ text, em.entityText m flat e = .ok text → ∃ c ∈ text.toList.head?, c ≠ ' ') ∧
        (l = .ruby → ∀ p, g.1 = some p → (∀ q ∈ d.packages, e.name ∈ q.2 → q.1 = p) →
          ∀ (m : Margin) (text : String), em.packageStart m p = .ok text →
            k = (flushLines text).countP Target.Ruby.opensBlock) := by
  intro em m gs flat
  have hpackages : em.hasPackages = true := Language.hasPackages_of_enclosing hl
  have hgroups : gs = Document.contents (Document.ofDiagram d true options.supertypesFirst) := by
    rw [← hpackages]
    rfl
  refine ⟨exists_generate_of_width, (generate_cases memory l options d).1, ?_, fun g hg e he => ?_⟩
  · rw [hgroups]
    exact Document.packages_contents d _
  · rw [hgroups] at hg
    have hiff := Document.isSome_package_iff hg he
    have hmoved (m : Margin) := Language.moved_entityText hl m d e
    refine ⟨hiff, (d.packageOf e.name).elim 0 l.memberLevels, ?_, fun hruby => ?_,
      fun m => ⟨(hmoved m).text_eq, (hmoved m).flush⟩, ?_⟩
    · rw [hiff]
      cases d.packageOf e.name with
      | none => simp
      | some p => simpa using l.memberLevels_pos p
    · cases d.packageOf e.name with
      | none => exact Nat.zero_le 1
      | some p => exact (l.memberLevels_of_ne hruby p).le
    · rintro rfl p hp honly m text htext
      obtain ⟨q, hq⟩ := Option.isSome_iff_exists.1 (hiff.1 (hp ▸ rfl))
      obtain ⟨r, hr, hlisted, rfl⟩ := Packages.exists_of_of? hq
      rw [hq, honly r hr hlisted]
      exact (Target.Ruby.countP_opensBlock_packageStart htext).symm

/-- Packages that list a name twice, a name without an entity, a name of another package
and nothing at all. -/
def tangled : Diagram where
  entities := [.cls { name := "A" }, .interface { name := "B" }, .enum { name := "C" }]
  packages := [("com.my_shop", ["A", "Ghost", "A"]), ("q", ["B"]), ("com", ["B"]), ("void", [])]

theorem generate_indents_members_tangled :
    let em := Language.ruby.emitter
    let flat : Diagram := { tangled with packages := [] }
    (Language.ruby.groups {} tangled).map (fun g => (g.1, g.2.map Entity.name)) =
      [(some "com.my_shop", ["A", "A"]), (some "q", ["B"]), (some "com", ["B"]), (some "void", []),
        (none, ["C"])] ∧
    (∃ out, generate 100 .ruby {} tangled = .ok out) ∧
    (∀ m : Margin, em.entityText m tangled (.cls { name := "A" }) =
      (em.entityText m flat (.cls { name := "A" })).bind (m.indent 2)) ∧
    ∀ m : Margin, em.entityText m tangled (.enum { name := "C" }) =
      (em.entityText m flat (.enum { name := "C" })).bind (m.indent 0) := by
  obtain ⟨hexists, -, -, hmembers⟩ :=
    generate_indents_members .ruby (by decide) 100 tangled {}
  refine ⟨by decide +kernel, hexists (by decide +kernel), fun m => ?_, fun m => ?_⟩
  · obtain ⟨-, k, -, -, htexts, hmodules⟩ :=
      hmembers _ (List.mem_of_getElem? (i := 0) rfl) (.cls { name := "A" })
        (List.mem_of_getElem? (i := 0) rfl)
    have hk : k = 2 := hmodules rfl "com.my_shop" rfl (by decide) ⟨2, 100⟩ _ rfl
    subst hk
    exact (htexts m).1
  · obtain ⟨-, k, hpos, -, htexts, -⟩ :=
      hmembers _ (List.mem_of_getElem? (i := 4) rfl) (.enum { name := "C" })
        (List.mem_of_getElem? (i := 0) rfl)
    have hk : k = 0 := Nat.eq_zero_of_not_pos fun h => absurd (hpos.1 h) (by decide)
    subst hk
    exact (htexts m).1

end ClassSketch
