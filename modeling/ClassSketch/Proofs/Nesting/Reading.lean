import ClassSketch.Proofs.Nesting.Member
import ClassSketch.Proofs.Nesting.Targets
import ClassSketch.Proofs.Placement

/-!
# Well-nested code from any text

A fragment is a closing brace, or tags and characters that are no braces, with
an opening brace at the end or not (`IsFragment`). What is read off a tagged
text is cut at characters that stand in no tag, so that it keeps its tags whole
(`Tagged.cut`) : the name of a package in quotes and the type parameters of an
entity may have tags in them, and are nested. In a member the tags are taken out
before it is read.

So every rule of the reader keeps the diagram tidy (`Rule.tidy`), and any text is
read as a tidy diagram (`tidy_ofText`). Emitters turn it into nested code.
-/

namespace ClassSketch

open Text Layout

/-! ## Tagged texts -/

/-- A text of tags and characters that are no braces; with `opens` an opening brace
follows them. -/
inductive Tagged : Bool → List Char → Prop where
  | nil : Tagged false []
  | opening : Tagged true ['{']
  | tag (m : Modifier) {opens : Bool} {s : List Char} (h : Tagged opens s) :
      Tagged opens (m.tag ++ s)
  | other {c : Char} (hc : c ≠ '{' ∧ c ≠ '}') {opens : Bool} {s : List Char}
      (h : Tagged opens s) : Tagged opens (c :: s)

namespace Tagged

variable {opens : Bool} {s r : List Char}

/-- Tags open and close their own braces. -/
theorem nesting_eq (h : Tagged false s) : nesting 0 s = some 0 := by
  generalize hopens : false = opens at h
  induction h with
  | nil => rfl
  | opening => cases hopens
  | tag m _ ih =>
    have htag : nesting 0 m.tag = some 0 := by cases m <;> rfl
    rw [nesting_append, htag, Option.bind_some, ih hopens]
  | other hc _ ih =>
    rw [nesting_cons, braceStep, if_neg hc.1, if_neg hc.2, Option.bind_some, ih hopens]

theorem nested (h : Tagged false s) : Nested (String.ofList s) :=
  .literal h.nesting_eq

/-- A character that starts no tag can be taken off. -/
theorem tail {c : Char} (h : Tagged opens (c :: s)) (hc : c ≠ '{') :
    c ≠ '}' ∧ Tagged opens s := by
  generalize hs : c :: s = t at h
  cases h with
  | nil => cases hs
  | opening => exact absurd (List.cons.inj hs).1 hc
  | tag m => exact absurd (List.cons.inj hs).1 hc
  | other hx h =>
    cases hs
    exact ⟨hx.2, h⟩

/-- Up to the first opening brace there is no brace at all. -/
theorem split {p : List Char} (h : Tagged opens (p ++ s)) (hp : '{' ∉ p) :
    Unbraced p ∧ Tagged opens s := by
  induction p with
  | nil => exact ⟨List.forall_mem_nil _, h⟩
  | cons c p ih =>
    obtain ⟨hc, hp⟩ := not_or.1 (List.mem_cons.not.1 hp)
    obtain ⟨hclosing, hrest⟩ := h.tail (Ne.symm hc)
    obtain ⟨hunbraced, hs⟩ := ih hrest hp
    exact ⟨List.forall_mem_cons.2 ⟨⟨Ne.symm hc, hclosing⟩, hunbraced⟩, hs⟩

/-- A cut at a character that stands in no tag leaves the tags whole. -/
theorem cut {c : Char} (hc : ∀ m : Modifier, c ∉ m.tag) {a : List Char}
    (h : Tagged opens (a ++ c :: r)) : Tagged false a ∧ Tagged opens r := by
  generalize hs : a ++ c :: r = s at h
  induction h generalizing a with
  | nil => exact absurd hs (List.append_ne_nil_of_right_ne_nil a (List.cons_ne_nil c r))
  | opening =>
    have hmem : c ∈ ['{'] := hs ▸ by simp
    exact absurd (List.mem_singleton.1 hmem ▸ List.mem_cons_self) (hc .static)
  | @tag m opens s h ih =>
    rcases List.append_eq_append_iff.1 hs with ⟨b, htag, hb⟩ | ⟨b, rfl, hb⟩
    · cases b with
      | nil =>
        rw [List.append_nil] at htag
        rw [← htag]
        obtain ⟨-, hr⟩ := ih (a := []) hb
        have hwhole := Tagged.tag m .nil
        rw [List.append_nil] at hwhole
        exact ⟨hwhole, hr⟩
      | cons x b =>
        obtain ⟨rfl, -⟩ := List.cons.inj hb
        exact absurd (htag ▸ by simp) (hc m)
    · obtain ⟨ha, hr⟩ := ih hb.symm
      exact ⟨.tag m ha, hr⟩
  | @other x hx opens s h ih =>
    cases a with
    | nil =>
      obtain ⟨-, rfl⟩ := List.cons.inj hs
      exact ⟨.nil, h⟩
    | cons y a =>
      obtain ⟨rfl, hrest⟩ := List.cons.inj hs
      obtain ⟨ha, hr⟩ := ih hrest
      exact ⟨.other hx ha, hr⟩

theorem trimStart (h : Tagged opens s) : Tagged opens (trimStart s) := by
  obtain ⟨bs, hs, hbs, -⟩ := exists_trimStart s
  rw [hs] at h
  exact (h.split fun hmem => (ne_brace_of_isBlank (hbs _ hmem)).1 rfl).2

/-- The only other brace is at the end. -/
theorem exists_of_opens (h : Tagged true s) : ∃ t, s = t ++ ['{'] ∧ Tagged false t := by
  generalize hopens : true = opens at h
  induction h with
  | nil => cases hopens
  | opening => exact ⟨[], rfl, .nil⟩
  | tag m _ ih =>
    obtain ⟨t, rfl, ht⟩ := ih hopens
    exact ⟨m.tag ++ t, (List.append_assoc ..).symm, .tag m ht⟩
  | @other c hc _ _ _ ih =>
    obtain ⟨t, rfl, ht⟩ := ih hopens
    exact ⟨c :: t, rfl, .other hc ht⟩

theorem not_isBlank_tag (m : Modifier) : ∀ c ∈ m.tag, isBlank c = false := by
  cases m <;> exact forall_mem_of_all rfl

theorem trimEnd (h : Tagged opens s) : Tagged opens (trimEnd s) := by
  cases opens with
  | true =>
    obtain ⟨t, rfl, -⟩ := h.exists_of_opens
    rwa [trimEnd_snoc, if_neg (by decide)]
  | false =>
    induction s using List.reverseRecOn with
    | nil => exact h
    | append_singleton s c ih =>
      rw [trimEnd_snoc]
      split
      · next hblank =>
        have hc : ∀ m : Modifier, c ∉ m.tag := fun m hm => by
          rw [not_isBlank_tag m c hm] at hblank
          cases hblank
        exact ih (h.cut hc).1
      · exact h

theorem trim (h : Tagged opens s) : Tagged opens (trim s) :=
  h.trimStart.trimEnd

theorem afterBlanks? (h : Tagged opens s) (hr : afterBlanks? s = some r) : Tagged opens r := by
  cases s with
  | nil => cases hr
  | cons c s =>
    obtain ⟨hblank, hr⟩ := Option.ite_none_right_eq_some.1 hr
    rw [← Option.some.inj hr]
    exact (h.tail (ne_brace_of_isBlank hblank).1).2.trimStart

theorem after? {p : List Char} (hp : '{' ∉ p) (h : Tagged opens s) (hr : after? p s = some r) :
    Tagged opens r := by
  rw [after?_eq_some_iff.1 hr] at h
  exact (h.split hp).2

/-- A text is not cut inside of a tag. -/
theorem cutAt {c : Char} (hc : ∀ m : Modifier, c ∉ m.tag) (h : Tagged opens s) {a : List Char}
    (hcut : cutAt c s = some (a, r)) : Tagged false a ∧ Tagged opens r := by
  rw [(eq_of_cutAt hcut).1] at h
  exact h.cut hc

/-- A run of characters without braces takes no part of a tag. -/
theorem takeSome {p : Char → Bool} (hp : p '{' = false) (h : Tagged opens s) {w : List Char}
    (hw : takeSome p s = some (w, r)) : Unbraced w ∧ Tagged opens r := by
  obtain ⟨rfl, -, hall, -⟩ := eq_of_takeSome hw
  refine h.split fun hmem => ?_
  rw [hall _ hmem] at hp
  cases hp

theorem of_mem_intercalate {c : Char} (hc : ∀ m : Modifier, c ∉ m.tag) {ps : List (List Char)}
    (h : Tagged false ([c].intercalate ps)) : ∀ p ∈ ps, Tagged false p := by
  induction ps with
  | nil => exact List.forall_mem_nil _
  | cons p ps ih =>
    cases ps with
    | nil =>
      rw [List.intercalate_singleton] at h
      exact List.forall_mem_singleton.2 h
    | cons q qs =>
      rw [List.intercalate_cons_cons, List.append_assoc] at h
      obtain ⟨hp, hrest⟩ := cut hc h
      exact List.forall_mem_cons.2 ⟨hp, ih hrest⟩

theorem commaParts (h : Tagged false s) : ∀ p ∈ commaParts s, Tagged false p := by
  intro p hp
  obtain ⟨q, hq, rfl⟩ := List.mem_map.1 (List.mem_filter.1 hp).1
  have hcomma : ∀ m : Modifier, ',' ∉ m.tag := fun m => by cases m <;> decide
  have hpieces : [','].intercalate (s.splitOn ',') = s := List.intercalate_splitOn ','
  rw [← hpieces] at h
  exact (of_mem_intercalate hcomma h q hq).trim

/-- Only an opening brace after the tags ends a tagged text with one. -/
theorem getLast?_ne (h : Tagged false s) : s.getLast? ≠ some '{' := by
  intro hlast
  obtain ⟨t, rfl⟩ := List.getLast?_eq_some_iff.1 hlast
  have hnesting := h.nesting_eq
  rw [nesting_append] at hnesting
  obtain ⟨m, -, hm⟩ := Option.bind_eq_some_iff.1 hnesting
  exact absurd (Option.some.inj hm) (Nat.succ_ne_zero m)

/-- Tokens that are plain have no braces but those of tags. -/
theorem of_plain {us : List Token} (hus : ∀ t ∈ us, t.Plain) (h : Tagged opens s) :
    Tagged opens (us.flatMap Token.chars ++ s) := by
  induction us with
  | nil => exact h
  | cons t us ih =>
    obtain ⟨ht, hrest⟩ := List.forall_mem_cons.1 hus
    rw [List.flatMap_cons, List.append_assoc]
    cases t with
    | tag m => exact .tag m (ih hrest)
    | other c => exact .other ht (ih hrest)
    | opening => exact ht.elim
    | closing => exact ht.elim

/-- A tagged text without its tags has no braces. -/
theorem unbraced_blanked (h : Tagged false s) : Unbraced ((tokens s).flatMap Token.blanked) := by
  generalize hopens : false = opens at h
  induction h with
  | nil =>
    rw [tokens]
    exact List.forall_mem_nil _
  | opening => cases hopens
  | tag m _ ih =>
    rw [tokens_tag_append, List.flatMap_cons]
    exact List.forall_mem_cons.2 ⟨by decide, ih hopens⟩
  | other hc _ ih =>
    rw [tokens_cons (Modifier.tag?_of_ne hc.1 _), Token.ofChar_of_ne hc, List.flatMap_cons]
    exact List.forall_mem_cons.2 ⟨hc, ih hopens⟩

end Tagged

namespace Source

/-! ## Headers -/

namespace PackageHeader

variable {opens : Bool} {line : List Char}

/-- The name of a package may have tags in it, and nothing worse. -/
theorem nested_of_name? {s name rest : List Char} (hs : Tagged opens s)
    (h : name? s = some (name, rest)) : Nested (String.ofList (trim name)) := by
  unfold name? at h
  split at h
  · -- In quotes the name ends at a quote, which no tag has.
    next s =>
    have hquote : ∀ m : Modifier, '"' ∉ m.tag := fun m => by cases m <;> decide
    split at h
    · next hcut =>
      cases h
      exact ((hs.tail (by decide)).2.cutAt hquote hcut).1.trim.nested
    · cases h
  · obtain ⟨hname, -⟩ := hs.takeSome rfl h
    exact .of_unbraced (hname.mono (trim_subset name))

/-- The name of a package may have tags in it, but no other braces. -/
theorem nested_name (hline : Tagged opens line) {h : PackageHeader} (hread : read? line = some h) :
    Nested (String.ofList h.name) := by
  unfold read? at hread
  split at hread
  · cases hread
  · next name rest hname =>
    obtain ⟨s, hs, hname⟩ := Option.bind_eq_some_iff.1 hname
    obtain ⟨t, ht, hblanks⟩ := Option.bind_eq_some_iff.1 hs
    have htagged : Tagged opens t := by
      rcases (Option.orElse_eq_some _ _ _).1 ht with ht | ⟨-, ht⟩
      · exact hline.after? (by decide) ht
      · exact hline.after? (by decide) ht
    have hnested := nested_of_name? (htagged.afterBlanks? hblanks) hname
    split at hread
    · cases hread
      exact hnested
    · cases hread
      exact hnested
    · cases hread

end PackageHeader

namespace EntityHeader

/-- A header whose texts are nested. -/
structure Tidy (h : EntityHeader) : Prop where
  name : Nested (String.ofList h.name)
  generics : ∀ g ∈ h.generics, Nested (String.ofList g)

variable {opens : Bool} {line s : List Char}

theorem tagged_takeGenerics (h : Tagged opens s) : Tagged false (takeGenerics s).1 := by
  have hangle : ∀ m : Modifier, '>' ∉ m.tag := fun m => by cases m <;> decide
  have htrim := h.trimStart
  unfold takeGenerics
  split
  · next t ht =>
    rw [ht] at htrim
    cases hcut : cutAt '>' t with
    | none => exact .nil
    | some found => exact ((htrim.tail (by decide)).2.cutAt hangle hcut).1
  · exact .nil

theorem tidy_build (kind : Kind) (isAbstract isExplicit : Bool) (hs : Tagged opens s)
    {found : List Char × List Char} (h : takeSome isWord s = some found) :
    (build kind isAbstract isExplicit found).Tidy := by
  obtain ⟨hname, hrest⟩ := hs.takeSome rfl h
  exact ⟨.of_unbraced hname, fun g hg => ((tagged_takeGenerics hrest).commaParts g hg).nested⟩

theorem tidy_keyword {keyword : List Char} (hkeyword : '{' ∉ keyword) (kind : Kind)
    (isAbstract isExplicit : Bool) (hs : Tagged opens s) {h : EntityHeader}
    (hread : (keywordAndWord? keyword s).map (build kind isAbstract isExplicit) = some h) :
    h.Tidy := by
  obtain ⟨found, hfound, rfl⟩ := Option.map_eq_some_iff.1 hread
  obtain ⟨t, ht, hword⟩ := Option.bind_eq_some_iff.1 hfound
  obtain ⟨u, hu, hblanks⟩ := Option.bind_eq_some_iff.1 ht
  exact tidy_build _ _ _ ((hs.after? hkeyword hu).afterBlanks? hblanks) hword

/-- A header is read from such a line to tidy parts. -/
theorem tidy_of_read? (hline : Tagged opens line) {h : EntityHeader} (hread : read? line = some h) :
    h.Tidy := by
  rcases (Option.orElse_eq_some _ _ _).1 hread with hread | ⟨-, hread⟩
  · obtain ⟨t, ht, habstract⟩ := Option.bind_eq_some_iff.1 hread
    obtain ⟨u, hu, hblanks⟩ := Option.bind_eq_some_iff.1 ht
    have htagged := (hline.after? (by decide) hu).afterBlanks? hblanks
    rcases (Option.orElse_eq_some _ _ _).1 habstract with hread | ⟨-, hread⟩
    · exact tidy_keyword (by decide) _ _ _ htagged hread
    · obtain ⟨found, hfound, rfl⟩ := Option.map_eq_some_iff.1 hread
      exact tidy_build _ _ _ htagged hfound
  · rcases (Option.orElse_eq_some _ _ _).1 hread with hread | ⟨-, hread⟩
    · exact tidy_keyword (by decide) _ _ _ hline hread
    · rcases (Option.orElse_eq_some _ _ _).1 hread with hread | ⟨-, hread⟩
      · exact tidy_keyword (by decide) _ _ _ hline hread
      · exact tidy_keyword (by decide) _ _ _ hline hread

theorem Tidy.entity {h : EntityHeader} (hh : h.Tidy) (package : Option String) :
    (h.entity package).Tidy := by
  have hgenerics : ∀ g ∈ h.generics.map String.ofList, Nested g := List.forall_mem_map.2 hh.generics
  unfold EntityHeader.entity
  cases h.kind with
  | cls => exact ⟨hh.name, hgenerics, List.forall_mem_nil _, List.forall_mem_nil _,
      List.forall_mem_nil _⟩
  | interface => exact ⟨hh.name, hgenerics, List.forall_mem_nil _⟩
  | enum => exact ⟨hh.name, List.forall_mem_nil _⟩

end EntityHeader

/-! ## Steps -/

/-- What a fragment looks like : a closing brace or a tagged text. -/
def IsFragment (line : List Char) : Prop :=
  line = ['}'] ∨ ∃ opens, Tagged opens line

/-- A fragment has only the braces of its tags, and one at the end. -/
theorem isFragment_of_mem_fragments {text : List Char} {f : Fragment} (h : f ∈ fragments text) :
    IsFragment f.text := by
  obtain ⟨⟨line, n⟩, -, hmem⟩ := List.mem_flatMap.1 h
  obtain ⟨piece, hpiece, rfl⟩ := List.mem_map.1 hmem
  obtain ⟨-, p, hp, rfl⟩ := exists_piece_of_mem_splitBraces hpiece
  cases hp with
  | closing => exact Or.inl rfl
  | @plain us hus =>
    have htagged := Tagged.of_plain hus .nil
    rw [List.append_nil] at htagged
    exact Or.inr ⟨false, htagged.trim⟩
  | @opening us hus =>
    have hchars : (us ++ [Token.opening]).flatMap Token.chars = us.flatMap Token.chars ++ ['{'] :=
      List.flatMap_append
    have htagged := Tagged.of_plain hus .opening
    rw [← hchars] at htagged
    exact Or.inr ⟨true, htagged.trim⟩

namespace Reader

theorem tagged_bodyText {opens : Bool} {line : List Char} (h : Tagged opens line) :
    Tagged false (bodyText line) := by
  unfold bodyText
  cases opens with
  | false =>
    rw [if_neg h.getLast?_ne]
    exact h
  | true =>
    obtain ⟨t, rfl, ht⟩ := h.exists_of_opens
    rw [if_pos List.getLast?_concat, List.dropLast_concat]
    exact ht.trim

/-- A line of a body leaves the entity tidy. -/
theorem tidy_bodyLine {e e' : Entity} (he : e.Tidy) {text : List Char} (htext : Tagged false text)
    (h : bodyLine e text = (none, e')) : e'.Tidy := by
  rcases bodyLine_none h with hoffer | ⟨en, vs, rfl, hvalues, rfl⟩
  · obtain ⟨d, hd, hattach⟩ := Entity.exists_of_offer_true hoffer
    have hbare := htext.unbraced_blanked.mono (Member.Declaration.bare_subset text)
    exact he.attach (Member.Declaration.tidy_of_read? hbare hd) hattach
  · unfold enumValues at hvalues
    split at hvalues
    · cases hvalues
    · split at hvalues
      · cases hvalues
      · cases hvalues
        obtain ⟨hname, hold⟩ := he
        exact ⟨hname, List.forall_mem_append.2 ⟨hold,
          List.forall_mem_map.2 fun v hv => (htext.commaParts v hv).nested⟩⟩

section Rules

variable {r r' : Reader} {line : List Char} {reason : Option SkipReason}

/-- An entity is declared in a package that is listed. -/
theorem Placed.package (h : r.Placed) {p : String} (hp : r.cursor.package = some p) :
    p ∈ r.diagram.packages.map (·.1) := by
  rcases (Option.orElse_eq_some _ _ _).1 hp with hp | ⟨-, hp⟩
  · exact h.loose p hp
  · obtain ⟨b, hb, hsome⟩ := List.exists_of_findSome?_eq_some hp
    obtain rfl : b = some p := hsome
    exact h.blocks p hb

/-- A tidy entity is registered in a tidy diagram. -/
theorem tidy_register (hr : r.Placed) (hd : r.diagram.Tidy) {h : EntityHeader} (hh : h.Tidy) :
    (register r.diagram h r.cursor.package).Tidy where
  entities := List.forall_mem_append.2
    ⟨hd.entities, List.forall_mem_singleton.2 (hh.entity _)⟩
  packages := by
    unfold register
    cases hpackage : r.cursor.package with
    | none => exact hd.packages
    | some p =>
      intro q hq
      change q ∈ (r.diagram.packages.add p _).map (·.1) at hq
      rw [Packages.add_keys, Packages.mem_keys_ensure] at hq
      rcases hq with hq | rfl
      · exact hd.packages q hq
      · exact hd.packages q (hr.package hpackage)

/-- No rule brings a brace into the diagram that has no partner. -/
theorem Rule.tidy (h : Rule r line r' reason) (hline : IsFragment line) (hr : r.Placed)
    (hd : r.diagram.Tidy) : r'.diagram.Tidy := by
  cases h with
  | openEntity => exact hd
  | openPackage => exact hd
  | package hread =>
    obtain ⟨opens, htagged⟩ := hline.resolve_left (by rintro rfl; cases hread)
    refine ⟨hd.entities, fun p hp => ?_⟩
    rcases Packages.mem_keys_ensure.1 hp with hp | rfl
    · exact hd.packages p hp
    · exact PackageHeader.nested_name htagged hread
  | unbalanced => exact hd
  | closeBlock => exact hd
  | header _ hread =>
    have hheader := (Option.filter_eq_some_iff.1 hread).1
    obtain ⟨opens, htagged⟩ := hline.resolve_left (by rintro rfl; cases hheader)
    exact tidy_register hr hd (EntityHeader.tidy_of_read? htagged hheader)
  | closeBody => exact hd
  | bodyBrace => rwa [diagram_deepen]
  | rejected => rwa [diagram_deepen]
  | accepted _ _ hne hget hbody =>
    obtain ⟨opens, htagged⟩ := hline.resolve_left hne
    have hentity := hd.entities _ (List.mem_of_getElem? hget)
    refine ⟨fun e he => ?_, hd.packages⟩
    rcases List.mem_or_eq_of_mem_set he with he | rfl
    · exact hd.entities e he
    · exact tidy_bodyLine hentity (tagged_bodyText htagged) hbody
  | relationship => exact ⟨hd.entities, hd.packages⟩
  | unsupported => exact hd
  | unrecognized => exact hd

/-- The diagram is tidy after any fragments. -/
theorem tidy_after {fs : List Fragment} (hfs : ∀ f ∈ fs, IsFragment f.text) :
    (after fs).diagram.Tidy := by
  induction fs using List.reverseRecOn with
  | nil => exact ⟨List.forall_mem_nil _, List.forall_mem_nil _⟩
  | append_singleton fs f ih =>
    obtain ⟨hfs, hf⟩ := List.forall_mem_append.1 hfs
    rw [after_snoc]
    exact (rule_after fs f.text).tidy (hf f List.mem_cons_self) (placed_after fs) (ih hfs)

end Rules

end Reader

end Source

/-! ## Converted code -/

/-- However malformed a text is, its diagram is tidy. -/
theorem tidy_ofText (text : String) : (Reading.ofText text).diagram.Tidy :=
  Source.Reader.tidy_after fun _ hf => Source.isFragment_of_mem_fragments hf

/-- The languages whose blocks stand in braces. -/
def Language.braced : List Language :=
  [.java, .csharp, .kotlin, .javascript, .typescript]

/-- Each language with braces has a tidy listing. -/
theorem Language.tidy_listing {l : Language} (h : l ∈ braced) : l.listing.Tidy := by
  cases l with
  | java => exact Target.Java.tidy_listing
  | csharp => exact Target.CSharp.tidy_listing
  | kotlin => exact Target.Kotlin.tidy_listing
  | javascript => exact Target.JavaScript.tidy_listing
  | typescript => exact Target.TypeScript.tidy_listing
  | python => exact absurd h (by decide)
  | ruby => exact absurd h (by decide)

section Convert

variable {memory : Nat} {text name : String} {options : Options} {c : Conversion}

/-- A conversion that returns has generated the listing of its language. -/
theorem generate_of_convert (h : convert memory text name options = .ok c) :
    ∃ l, Language.ofName? name = some l ∧
      generate memory l options (Reading.ofText text).diagram = .ok c.output := by
  unfold convert languageOf at h
  split at h
  · cases h
  · cases hname : Language.ofName? name with
    | none =>
      rw [hname] at h
      cases h
    | some l =>
      rw [hname] at h
      cases hgenerate : generate memory l options (Reading.ofText text).diagram with
      | error o => simp [hgenerate] at h
      | ok output =>
        simp only [Option.elim_some, hgenerate, Except.ok.injEq] at h
        exact ⟨l, rfl, h ▸ hgenerate⟩

theorem convert_of_generate {l : Language} {output : Generated}
    (htext : allBlank text.toList = false) (hname : Language.ofName? name = some l)
    (h : generate memory l options (Reading.ofText text).diagram = .ok output) :
    convert memory text name options = .ok { reading := Reading.ofText text, output } := by
  simp [convert, languageOf, htext, hname, h]

theorem convert_of_convertWith {settings : Setting} (h : convertWith memory text name settings = .ok c) :
    ∃ options, convert memory text name options = .ok c := by
  unfold convertWith at h
  split at h
  · cases h
  · split at h
    · cases h
    · exact ⟨_, h⟩

theorem convertWith_of_ofSetting {settings : Setting} (htext : allBlank text.toList = false)
    (h : Options.ofSetting settings = .ok options) :
    convertWith memory text name settings = convert memory text name options := by
  simp [convertWith, htext, h]

end Convert

/-- Code in a language with braces is well nested, whatever the text and the options, and
there is code for every text that is not blank if one level is of a possible width. -/
theorem convert_wellNested (memory : Nat) (text name : String) (l : Language)
    (hname : Language.ofName? name = some l) (hl : l ∈ Language.braced) :
    (∀ options c, convert memory text name options = .ok c → WellNested c.output.code.toList) ∧
      (∀ settings c, convertWith memory text name settings = .ok c → WellNested c.output.code.toList) ∧
      ∀ options : Options, allBlank text.toList = false →
        widthFault? memory (options.indentSize.getD l.emitter.indentSize) = none →
        (∃ c, convert memory text name options = .ok c) ∧
          ∀ settings, Options.ofSetting settings = .ok options →
            ∃ c, convertWith memory text name settings = .ok c := by
  have hli := Language.tidy_listing hl
  have hd := tidy_ofText text
  have hconvert : ∀ options c, convert memory text name options = .ok c →
      WellNested c.output.code.toList := by
    intro options c hc
    obtain ⟨l', hname', hgenerate⟩ := generate_of_convert hc
    obtain rfl := Option.some.inj (hname.symm.trans hname')
    exact wellNested_of_nesting (nested_of_generate hli hd hgenerate)
  refine ⟨hconvert, fun settings c hc => ?_, fun options htext hwidth => ?_⟩
  · obtain ⟨options, hoptions⟩ := convert_of_convertWith hc
    exact hconvert options c hoptions
  · obtain ⟨output, houtput⟩ := exists_generate hli hd hwidth
    have hok := convert_of_generate htext hname houtput
    refine ⟨⟨_, hok⟩, fun settings hsettings => ?_⟩
    rw [convertWith_of_ofSetting htext hsettings]
    exact ⟨_, hok⟩

/-- A text with a tag in the name of a package and in type parameters, a brace inside a
parameter list and braces without a partner. -/
def malformedText : String :=
  "package \"a\x7bstatic\x7db\" \x7b\nclass C<\x7bfield\x7d> \x7b\n+ f(x \x7b y) : T\n\x7d\n\x7d \x7d \x7b"

/-- A text with tags in its names is converted, and is nested well. -/
theorem convert_wellNested_malformed :
    (Reading.ofText malformedText).diagram.packages = [("a\x7bstatic\x7db", ["C"])] ∧
    (Reading.ofText malformedText).diagram.classes.map (·.generics) = [["\x7bfield\x7d"]] ∧
    ∃ c, convert 100 malformedText " TypeScript" {} = .ok c ∧ WellNested c.output.code.toList := by
  have hread : (Reading.ofText malformedText).diagram.packages = [("a\x7bstatic\x7db", ["C"])] ∧
      (Reading.ofText malformedText).diagram.classes.map (·.generics) = [["\x7bfield\x7d"]] := by
    decide +kernel
  have hname : Language.ofName? " TypeScript" = some .typescript := by decide
  obtain ⟨hnested, -, hexists⟩ :=
    convert_wellNested 100 malformedText " TypeScript" .typescript hname (by decide)
  obtain ⟨⟨c, hc⟩, -⟩ := hexists {} (by decide) (by decide)
  exact ⟨hread.1, hread.2, c, hc, hnested {} c hc⟩

end ClassSketch
