import ClassSketch.Proofs.Clause
import ClassSketch.Proofs.WellFormed.Basic

/-!
# Every text is read as a well-formed diagram

What a header, a line of a body and a relationship line bring into a diagram is
well formed, whatever the line looks like. The one place where this takes an
argument is a clause of a header. Its names may have arguments up to the first
closing bracket, and the brackets in there need not match, so that the cut at
top-level commas may join several names. A part still starts with a dotted name,
and where something follows the name it is an opening bracket (`LeadsName`,
`leadsName_of_mem_pieces`) : what stands before the first bracket of a part is a
dotted name.
-/

namespace ClassSketch

open Text

/-! ## Names in a clause -/

namespace Text

theorem isDottedText_of_isWordText {s : List Char} (h : isWordText s = true) :
    isDottedText s = true := by
  obtain ⟨hne, hall⟩ := (Bool.and_eq_true _ _).mp h
  refine (Bool.and_eq_true _ _).mpr ⟨hne, List.all_eq_true.2 fun c hc => ?_⟩
  exact isDotted_of_isWord (List.all_eq_true.1 hall c hc)

end Text

namespace TypeExpr

/-- Names with a comma between each two. -/
inductive NameList : List Char → Prop where
  | single {x : List Char} (hx : AppliedName x) : NameList x
  | cons {x s : List Char} (hx : AppliedName x) (hs : NameList s) : NameList (x ++ ',' :: s)

/-- Each part of a list of names starts with a name. The first one does so only where
no bracket is open in front of it. -/
theorem leadsName_of_pieces {s : List Char} (hs : NameList s) (d : Nat) :
    ∃ p ps, pieces d s = p :: ps ∧ (∀ q ∈ ps, LeadsName q) ∧ (d = 0 → LeadsName p) := by
  induction hs generalizing d with
  | @single x hx =>
    obtain ⟨e, -, hpieces, -⟩ := pieces_appliedName hx d
    have hwhole := hpieces []
    rw [List.append_nil, pieces, List.modifyHead_cons, List.append_nil] at hwhole
    refine ⟨x, [], hwhole, List.forall_mem_nil _, fun _ => ?_⟩
    cases hx with
    | plain hname => exact ⟨_, hname, .alone⟩
    | applied hname => exact ⟨_, hname, .bracket _⟩
  | @cons x s hx _ ih =>
    obtain ⟨e, -, hpieces, hleads⟩ := pieces_appliedName hx d
    obtain ⟨p, ps, hps, htail, hhead⟩ := ih e
    rw [hpieces]
    by_cases he : e = 0
    · -- The comma separates, and the next name starts a part of its own.
      subst he
      rw [Int.natCast_zero] at hps
      rw [Int.natCast_zero, pieces, if_pos ⟨rfl, rfl⟩, hps, List.modifyHead_cons, List.append_nil]
      refine ⟨x, p :: ps, rfl, List.forall_mem_cons.2 ⟨hhead rfl, htail⟩, fun _ => ?_⟩
      cases hx with
      | plain hname => exact ⟨_, hname, .alone⟩
      | applied hname => exact ⟨_, hname, .bracket _⟩
    · have hdepth : (e : Int) ≠ 0 := by omega
      have hstep : angleStep e ',' = e := rfl
      rw [pieces_cons (Or.inr hdepth), hstep, hps, List.modifyHead_cons, List.modifyHead_cons]
      refine ⟨x ++ ',' :: p, ps, rfl, htail, fun hd => ?_⟩
      exact (hleads.resolve_left fun heq => he (heq.trans hd)) _

/-- Each part of a list of names starts with a name. -/
theorem leadsName_of_mem_topLevelParts {s p : List Char} (hs : NameList s)
    (hp : p ∈ topLevelParts s) : LeadsName p := by
  obtain ⟨q, hq, rfl⟩ := exists_piece_of_mem_topLevelParts hp
  obtain ⟨first, rest, hpieces, hrest, hfirst⟩ := leadsName_of_pieces hs 0
  rw [Int.natCast_zero] at hpieces
  rw [hpieces] at hq
  obtain ⟨name, hname, hleads⟩ := List.forall_mem_cons.2 ⟨hfirst rfl, hrest⟩ q hq
  exact ⟨name, hname, hleads.trim hname⟩

end TypeExpr

namespace Source

/-! ## Headers -/

namespace EntityHeader

open TypeExpr (AppliedName NameList)

theorem nameList_moreNames {x : List Char} (hx : AppliedName x) (s : List Char) :
    NameList (x ++ moreNames s) := by
  fun_induction moreNames s generalizing x with
  | case1 s t hs text rest hname ih => exact .cons hx (ih (appliedName_of_typeName? hname))
  | case2 =>
    rw [List.append_nil]
    exact .single hx
  | case3 =>
    rw [List.append_nil]
    exact .single hx

/-- A clause has a list of names. -/
theorem nameList_of_clause? {keyword s text : List Char} {inWord : Bool}
    (h : clause? keyword inWord s = some text) : NameList text := by
  induction s generalizing inWord with
  | nil => cases h
  | cons c s ih =>
    rcases (Option.orElse_eq_some _ _ _).1 h with h | ⟨-, h⟩
    · split at h
      · cases h
      · obtain ⟨t, -, hnames⟩ := Option.bind_eq_some_iff.1 h
        obtain ⟨⟨first, rest⟩, hname, rfl⟩ := Option.map_eq_some_iff.1 hnames
        exact nameList_moreNames (appliedName_of_typeName? hname) rest
    · exact ih h

/-- So the names in a clause are dotted names. -/
theorem isDottedText_of_mem_clauseNames {keyword rest : List Char} :
    ∀ target ∈ clauseNames keyword rest, isDottedText target.toList = true := by
  unfold clauseNames
  refine List.forall_mem_map.2 fun p hp => ?_
  rw [String.toList_ofList]
  cases hclause : clause? keyword false rest with
  | none =>
    rw [hclause] at hp
    cases hp
  | some text =>
    rw [hclause] at hp
    obtain ⟨name, hname, hleads⟩ :=
      TypeExpr.leadsName_of_mem_topLevelParts (nameList_of_clause? hclause) hp
    rwa [hleads.baseName_eq hname]

/-- Every header is built from a word of its line and what follows the word. -/
theorem exists_build_of_read? {line : List Char} {h : EntityHeader} (hread : read? line = some h) :
    ∃ kind isAbstract isExplicit s found, s ⊆ line ∧
      takeSome isWord s = some found ∧ h = build kind isAbstract isExplicit found := by
  have hafter : ∀ {keyword s t : List Char},
      (after? keyword s).bind afterBlanks? = some t → t ⊆ s := by
    intro keyword s t ht
    obtain ⟨u, hu, hblanks⟩ := Option.bind_eq_some_iff.1 ht
    obtain ⟨b, bs, rfl, -, -⟩ := eq_of_afterBlanks? hblanks
    rw [after?_eq_some_iff.1 hu, ← List.append_assoc]
    exact List.subset_append_right _ t
  have hkeyword : ∀ {keyword s kind isAbstract isExplicit}, s ⊆ line →
      (keywordAndWord? keyword s).map (build kind isAbstract isExplicit) = some h →
      ∃ kind isAbstract isExplicit s found, s ⊆ line ∧
        takeSome isWord s = some found ∧ h = build kind isAbstract isExplicit found := by
    intro keyword s kind isAbstract isExplicit hs hmap
    obtain ⟨found, hfound, rfl⟩ := Option.map_eq_some_iff.1 hmap
    obtain ⟨t, ht, hword⟩ := Option.bind_eq_some_iff.1 hfound
    exact ⟨kind, isAbstract, isExplicit, t, found, List.Subset.trans (hafter ht) hs, hword, rfl⟩
  have hline : line ⊆ line := List.Subset.refl line
  rcases (Option.orElse_eq_some _ _ _).1 hread with hread | ⟨-, hread⟩
  · obtain ⟨t, ht, habstract⟩ := Option.bind_eq_some_iff.1 hread
    rcases (Option.orElse_eq_some _ _ _).1 habstract with hread | ⟨-, hread⟩
    · exact hkeyword (hafter ht) hread
    · obtain ⟨found, hfound, rfl⟩ := Option.map_eq_some_iff.1 hread
      exact ⟨.cls, true, false, t, found, hafter ht, hfound, rfl⟩
  · rcases (Option.orElse_eq_some _ _ _).1 hread with hread | ⟨-, hread⟩
    · exact hkeyword hline hread
    · rcases (Option.orElse_eq_some _ _ _).1 hread with hread | ⟨-, hread⟩
      · exact hkeyword hline hread
      · exact hkeyword hline hread

theorem wellFormed_commaParts (s : List Char) :
    WellFormedGenerics ((commaParts s).map String.ofList) := by
  refine List.forall_mem_map.2 fun p hp => ?_
  obtain ⟨hmem, hne⟩ := List.mem_filter.1 hp
  obtain ⟨q, hq, rfl⟩ := List.mem_map.1 hmem
  rw [String.toList_ofList]
  refine ⟨trimmed_trim (by simpa using hne), fun hcomma => ?_⟩
  exact Layout.not_mem_of_mem_splitOn hq (trim_subset q hcomma)

section Header

variable {line : List Char} {h : EntityHeader} (hread : read? line = some h)

include hread

theorem isWordText_name : isWordText h.name = true := by
  obtain ⟨kind, isAbstract, isExplicit, s, found, -, hfound, rfl⟩ := exists_build_of_read? hread
  exact Member.isWordText_of_takeSome hfound

/-- An entity is well-formed when it is declared. -/
theorem wellFormed_entity (package : Option String) : (h.entity package).WellFormed := by
  have hname : isWordText (String.ofList h.name).toList = true := by
    rw [String.toList_ofList]
    exact isWordText_name hread
  have hgenerics : WellFormedGenerics (h.generics.map String.ofList) := by
    obtain ⟨kind, isAbstract, isExplicit, s, found, -, -, rfl⟩ := exists_build_of_read? hread
    exact wellFormed_commaParts _
  unfold EntityHeader.entity
  cases h.kind with
  | cls => exact ⟨hname, hgenerics, List.forall_mem_nil _, List.forall_mem_nil _,
      List.forall_mem_nil _⟩
  | interface => exact ⟨hname, hgenerics, List.forall_mem_nil _⟩
  | enum => exact ⟨hname, List.forall_mem_nil _⟩

/-- So are the relationships of its clauses. -/
theorem wellFormed_relationships : ∀ r ∈ h.relationships, r.WellFormed := by
  have hsource : isDottedText (String.ofList h.name).toList = true := by
    rw [String.toList_ofList]
    exact isDottedText_of_isWordText (isWordText_name hread)
  have hclause : ∀ {p : Prop} [Decidable p] {keyword : List Char} (kind : RelationKind),
      ∀ r ∈ (if p then clauseNames keyword h.rest else []).map fun target =>
        ({ source := String.ofList h.name, target, kind } : Relationship), r.WellFormed := by
    intro p _ keyword kind
    refine List.forall_mem_map.2 fun target htarget => ⟨hsource, ?_⟩
    split at htarget
    · exact isDottedText_of_mem_clauseNames target htarget
    · cases htarget
  unfold relationships
  refine List.forall_mem_append.2 ⟨?_, hclause .implementation⟩
  rw [← ite_not]
  exact hclause .inheritance

end Header

end EntityHeader

end Source

/-! ## Relationships -/

namespace Arrow

theorem isDottedText_of_mem_nameRests {s rest : List Char} (h : rest ∈ nameRests s) :
    ∃ name, s = name ++ rest ∧ isDottedText name = true := by
  induction s generalizing rest with
  | nil => cases h
  | cons c s ih =>
    unfold nameRests at h
    split at h
    · next hc =>
      rcases List.mem_cons.1 h with rfl | h
      · exact ⟨[c], rfl, isDottedText_iff.2 ⟨List.cons_ne_nil c [], by simpa using hc⟩⟩
      · obtain ⟨name, rfl, hname⟩ := ih h
        obtain ⟨-, hall⟩ := isDottedText_iff.1 hname
        exact ⟨c :: name, rfl, isDottedText_iff.2 ⟨List.cons_ne_nil c name,
          List.forall_mem_cons.2 ⟨hc, hall⟩⟩⟩
    · cases h

theorem isDottedText_of_rightName? {s right : List Char} (h : rightName? s = some right) :
    isDottedText right = true := by
  obtain ⟨hdotted, hsome⟩ := Option.ite_none_right_eq_some.1 h
  cases hsome
  exact hdotted

theorem isDottedText_of_tailAndName? {s right : List Char} {tip : Tip}
    (h : tailAndName? s = some (tip, right)) : isDottedText right = true := by
  have hname : ∀ {t tip'}, (rightName? t).map (fun r => (tip', r)) = some (tip, right) →
      isDottedText right = true := by
    intro t tip' hmap
    obtain ⟨r, hr, heq⟩ := Option.map_eq_some_iff.1 hmap
    cases heq
    exact isDottedText_of_rightName? hr
  rcases (Option.orElse_eq_some _ _ _).1 h with h | ⟨-, h⟩
  · unfold tippedName? at h
    split at h
    · exact hname h
    · exact hname h
    · exact hname h
    · split at h
      · cases h
      · exact hname h
    · cases h
  · exact hname h

/-- A link has dotted names on both sides. -/
theorem isDottedText_of_split? {s left right : List Char} {arrow : Arrow}
    (h : split? s = some (left, arrow, right)) :
    isDottedText left = true ∧ isDottedText right = true := by
  obtain ⟨rest, hrest, hmap⟩ := List.exists_of_findSome?_eq_some h
  obtain ⟨⟨a, r⟩, hafter, heq⟩ := Option.map_eq_some_iff.1 hmap
  cases heq
  obtain ⟨name, rfl, hname⟩ := isDottedText_of_mem_nameRests (List.mem_reverse.1 hrest)
  rw [before_append]
  refine ⟨hname, ?_⟩
  obtain ⟨⟨stroke, t⟩, -, htail⟩ := List.exists_of_findSome?_eq_some hafter
  obtain ⟨⟨tip, r'⟩, htip, heq⟩ := Option.map_eq_some_iff.1 htail
  cases heq
  exact isDottedText_of_tailAndName? htip

end Arrow

/-- So the relationship of a link is well-formed. -/
theorem Relationship.wellFormed_of_read? {line : List Char} {r : Relationship}
    (h : read? line = some r) : r.WellFormed := by
  unfold read? at h
  split at h
  · cases h
  · obtain ⟨⟨left, arrow, right⟩, hsplit, harrow⟩ := Option.bind_eq_some_iff.1 h
    obtain ⟨hleft, hright⟩ := Arrow.isDottedText_of_split? hsplit
    obtain ⟨⟨kind, direction⟩, -, rfl⟩ := Option.map_eq_some_iff.1 harrow
    cases direction <;> constructor <;> rwa [String.toList_ofList]

/-! ## Steps -/

namespace Source.Reader

/-- A line of a body leaves the entity well-formed. -/
theorem wellFormed_bodyLine {e e' : Entity} (he : e.WellFormed) {text : List Char}
    (h : bodyLine e text = (none, e')) : e'.WellFormed := by
  rcases bodyLine_none h with hoffer | ⟨en, vs, rfl, hvalues, rfl⟩
  · obtain ⟨d, hd, hattach⟩ := Entity.exists_of_offer_true hoffer
    exact he.attach (Member.Declaration.wellFormed_of_read? hd) hattach
  · obtain ⟨hname, hold⟩ := he
    unfold enumValues at hvalues
    split at hvalues
    · cases hvalues
    · split at hvalues
      · cases hvalues
      · next hwords =>
        cases hvalues
        simp only [Bool.or_eq_true, not_or, Bool.not_eq_true, Bool.not_eq_false'] at hwords
        refine ⟨hname, List.forall_mem_append.2 ⟨hold, List.forall_mem_map.2 fun v hv => ?_⟩⟩
        rw [String.toList_ofList]
        exact List.all_eq_true.1 hwords.2 v hv

section Rules

variable {r r' : Reader} {line : List Char} {reason : Option SkipReason}

/-- Only headers and relationship lines add relationships. -/
theorem Rule.wellFormed_relationships (h : Rule r line r' reason)
    (hr : ∀ rel ∈ r.diagram.relationships, rel.WellFormed) :
    ∀ rel ∈ r'.diagram.relationships, rel.WellFormed := by
  cases h with
  | header _ hread =>
    have hheader := (Option.filter_eq_some_iff.1 hread).1
    exact List.forall_mem_append.2 ⟨hr, EntityHeader.wellFormed_relationships hheader⟩
  | relationship _ _ _ hread =>
    exact List.forall_mem_append.2
      ⟨hr, List.forall_mem_singleton.2 (Relationship.wellFormed_of_read? hread)⟩
  | bodyBrace => rwa [diagram_deepen]
  | rejected => rwa [diagram_deepen]
  | openEntity => exact hr
  | openPackage => exact hr
  | package => exact hr
  | unbalanced => exact hr
  | closeBlock => exact hr
  | closeBody => exact hr
  | accepted => exact hr
  | unsupported => exact hr
  | unrecognized => exact hr

end Rules

/-- The diagram is well-formed after any fragments. -/
theorem wellFormed_after (fs : List Fragment) : (after fs).diagram.WellFormed where
  entities := by
    refine forall_entities_after (fun f _ r h package hread => ?_) ?_
    · exact EntityHeader.wellFormed_entity (Option.filter_eq_some_iff.1 hread).1 package
    · exact fun f _ e e' he hbody => wellFormed_bodyLine he hbody
  relationships :=
    run_invariant (r := {}) (P := fun r => ∀ rel ∈ r.diagram.relationships, rel.WellFormed)
      (fun _ line hcursor hr => (rule_step hcursor line).wellFormed_relationships hr) rfl
      (List.forall_mem_nil _) fs

end Source.Reader

/-- However malformed a text is, the diagram that is read off it is well formed. -/
theorem wellFormed_ofText (text : String) : (Reading.ofText text).diagram.WellFormed :=
  Source.Reader.wellFormed_after _

end ClassSketch
