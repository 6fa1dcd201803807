import ClassSketch.Proofs.Types

/-!
# Types with blanks between their signs

A type may be written with blanks before and after every name, bracket and comma. Such a
text is `Spaced` : it is the type with its name `Padded` on both sides, and between the
brackets its arguments, spaced again.

Reading undoes exactly this. Every text is a spaced form of the type that is read off it
(`spaced_read`), and a spaced form of a type with proper names is read as that type
(`Spaced.read_eq`) : the blanks leave the text whole, so that the cuts are those of the
type, and trimming finds each name again.
-/

namespace ClassSketch

open Text

namespace Text

/-! ## Blanks around a text -/

/-- The text `s` with blanks before and after it. -/
def Padded (s text : List Char) : Prop :=
  ∃ bs cs, text = bs ++ s ++ cs ∧ (∀ c ∈ bs, isBlank c = true) ∧ ∀ c ∈ cs, isBlank c = true

theorem padded_trim (s : List Char) : Padded (trim s) s :=
  exists_trim s

theorem Padded.refl (s : List Char) : Padded s s :=
  ⟨[], [], by simp, List.forall_mem_nil _, List.forall_mem_nil _⟩

theorem Padded.trans {a b c : List Char} (hab : Padded a b) (hbc : Padded b c) : Padded a c := by
  obtain ⟨bs, cs, rfl, hbs, hcs⟩ := hab
  obtain ⟨bs', cs', rfl, hbs', hcs'⟩ := hbc
  exact ⟨bs' ++ bs, cs ++ cs', by simp, List.forall_mem_append.2 ⟨hbs', hbs⟩,
    List.forall_mem_append.2 ⟨hcs, hcs'⟩⟩

/-- Trimming takes the padding off. -/
theorem Padded.trim_eq {s text : List Char} (h : Padded s text) (hs : Trimmed s) :
    trim text = s := by
  obtain ⟨bs, cs, rfl, hbs, hcs⟩ := h
  rw [trim_append_blanks _ hcs, hs.trim_append hbs]

end Text

namespace TypeExpr

/-- Padding has no brackets and no commas. -/
theorem Whole.of_padded {s text : List Char} (hs : Whole s) (h : Padded s text) : Whole text := by
  obtain ⟨bs, cs, rfl, hbs, hcs⟩ := h
  exact ((whole_blanks hbs).append hs).append (whole_blanks hcs)

/-- Blanks around the name and around the brackets do not change what is read. -/
theorem read_of_padded {name base text : List Char} {args : List (List Char)} (hname : IsName name)
    (hbase : Padded name base) (hne : args ≠ []) (hvisible : ∀ a ∈ args, trim a ≠ [])
    (hwhole : ∀ a ∈ args, Whole a)
    (htext : Padded (base ++ '<' :: ([','].intercalate args ++ ['>'])) text) :
    read text = ⟨String.ofList name, args.map read⟩ := by
  -- the blanks before the name are those before the whole text
  obtain ⟨bs, cs, rfl, hbs, hcs⟩ := hbase
  have htrim : trim (name ++ cs) = name := by
    rw [trim_append_blanks _ hcs, hname.trimmed.trim_eq]
  have hopen : '<' ∉ name ++ cs := by
    intro hc
    rcases List.mem_append.1 hc with hc | hc
    · exact (hname.plain _ hc).2.1 rfl
    · cases hcs _ hc
  obtain ⟨a, hbase, rfl⟩ : ∃ a : Application, a.base = name ++ cs ∧ a.args = args :=
    ⟨⟨name ++ cs, args, hopen, by rw [htrim]; exact hname.trimmed.ne_nil, hne, hvisible, hwhole⟩,
      rfl, rfl⟩
  have hchars : a.chars = name ++ (cs ++ '<' :: [','].intercalate a.args) ++ ['>'] := by
    simp [Application.chars, hbase]
  have hpad : Padded a.chars text :=
    Padded.trans ⟨bs, [], by simp [hchars], hbs, List.forall_mem_nil _⟩ htext
  have htrimmed : Trimmed a.chars := by
    rw [hchars]
    exact hname.trimmed.append (.singleton (by decide)) _
  rw [Application.read_chars (hpad.trim_eq htrimmed), hbase, htrim]

/-! ## Spaced types -/

/-- A type as a text with blanks around its names, brackets and commas. The arguments come with
their texts. -/
inductive Spaced : TypeExpr → List Char → Prop where
  | plain {name : String} {text : List Char} (hname : Padded name.toList text) :
      Spaced ⟨name, []⟩ text
  | generic {name : String} {base text : List Char} {args : List (TypeExpr × List Char)}
      (hname : Padded name.toList base) (hne : args ≠ []) (hargs : ∀ a ∈ args, Spaced a.1 a.2)
      (htext : Padded (base ++ '<' :: ([','].intercalate (args.map Prod.snd) ++ ['>'])) text) :
      Spaced ⟨name, args.map Prod.fst⟩ text

namespace Spaced

variable {t : TypeExpr} {s text : List Char}

/-- A spaced text may have more padding. -/
theorem padded (h : Spaced t s) (hpad : Padded s text) : Spaced t text := by
  cases h with
  | plain hname => exact .plain (hname.trans hpad)
  | generic hname hne hargs htext => exact .generic hname hne hargs (htext.trans hpad)

/-- The commas of a spaced text are inside of brackets. -/
theorem whole (h : Spaced t s) (ht : Named IsName t) : Whole s := by
  induction h with
  | plain hname =>
    obtain ⟨hplain, -⟩ := ht
    exact (Whole.of_forall hplain.plain).of_padded hname
  | @generic name base text args hname _ _ htext ih =>
    obtain ⟨hplain, hnamed⟩ := ht
    have hwhole : ∀ a ∈ args.map Prod.snd, Whole a :=
      List.forall_mem_map.2 fun a ha => ih a ha (hnamed a.1 (List.mem_map_of_mem ha))
    have hinner : balanced ([','].intercalate (args.map Prod.snd)) = true := by
      have h := balancedFrom_intercalate hwhole 0 []
      rwa [List.append_nil] at h
    exact (((Whole.of_forall hplain.plain).of_padded hname).append (.bracket hinner)).of_padded
      htext

theorem trim_ne_nil (h : Spaced t s) (ht : Named IsName t) : trim s ≠ [] := by
  cases h with
  | plain hname =>
    obtain ⟨hplain, -⟩ := ht
    rw [hname.trim_eq hplain.trimmed]
    exact hplain.trimmed.ne_nil
  | generic _ _ _ htext =>
    obtain ⟨bs, cs, rfl, -, -⟩ := htext
    exact List.ne_nil_of_mem (mem_trim (c := '<') (by simp) (by decide))

/-- A spaced form of a type with proper names is read as that type. -/
theorem read_eq (h : Spaced t s) (ht : Named IsName t) : read s = t := by
  induction h with
  | @plain name text hname =>
    have htrimmed := trimmed_chars ht
    rw [chars_plain] at htrimmed
    rw [← read_trim, hname.trim_eq htrimmed, ← chars_plain, read_chars ht]
  | @generic name base text args hname hne hargs htext ih =>
    obtain ⟨hplain, hnamed⟩ := ht
    have hmem : ∀ a ∈ args, Named IsName a.1 := fun a ha => hnamed a.1 (List.mem_map_of_mem ha)
    have hread : ∀ a ∈ args, (read ∘ Prod.snd) a = a.1 := fun a ha => ih a ha (hmem a ha)
    rw [read_of_padded hplain hname (by simpa using hne)
      (List.forall_mem_map.2 fun a ha => (hargs a ha).trim_ne_nil (hmem a ha))
      (List.forall_mem_map.2 fun a ha => (hargs a ha).whole (hmem a ha)) htext,
      String.ofList_toList, List.map_map, List.map_congr_left hread]

/-- Two arguments. -/
theorem pair {a b : TypeExpr} {s u base text : List Char} {name : String}
    (hname : Padded name.toList base) (ha : Spaced a s) (hb : Spaced b u)
    (htext : Padded (base ++ '<' :: (s ++ ',' :: u ++ ['>'])) text) :
    Spaced ⟨name, [a, b]⟩ text := by
  have hargs : ∀ p ∈ [(a, s), (b, u)], Spaced p.1 p.2 := by simp [ha, hb]
  refine .generic hname (List.cons_ne_nil _ _) hargs ?_
  simpa [List.intercalate_cons_cons] using htext

end Spaced

/-- Every text is a spaced form of its type. -/
theorem spaced_read (s : List Char) : Spaced (read s) s := by
  induction s using read.induct with
  | case1 s hplain =>
    rw [read_of_not_generic hplain]
    refine .plain ?_
    rw [String.toList_ofList]
    exact padded_trim s
  | case2 s base parts hgeneric ih =>
    obtain ⟨a, heq, rfl, rfl⟩ := genericParts?_eq_some_iff.1 hgeneric
    have hargs : ∀ p ∈ a.args, Spaced (read p) p := by
      intro p hp
      have h := ih (trim p) (List.mem_map_of_mem hp)
      rw [read_trim] at h
      exact h.padded (padded_trim p)
    have htypes : (a.args.map fun p => (read p, p)).map Prod.fst = a.args.map read := by
      rw [List.map_map]
      rfl
    have htexts : (a.args.map fun p => (read p, p)).map Prod.snd = a.args := by
      rw [List.map_map]
      exact List.map_id _
    have hname : Padded (String.ofList (trim a.base)).toList a.base := by
      rw [String.toList_ofList]
      exact padded_trim a.base
    rw [read_of_genericParts? hgeneric, map_read_trim, ← htypes]
    refine .generic hname (by simpa using a.args_ne_nil) (List.forall_mem_map.2 hargs) ?_
    rw [htexts, ← Application.chars, ← heq]
    exact padded_trim s

/-- A text is read as a type with proper names exactly if it is that type with blanks around its
names, brackets and commas. -/
theorem ofString_eq_iff_spaced {t : TypeExpr} (ht : Named IsName t) (text : String) :
    ofString text = t ↔ Spaced t text.toList :=
  ⟨fun h => h ▸ spaced_read text.toList, fun h => h.read_eq ht⟩

/-- A tab, a line feed and an ideographic space are blanks like any other, and a name may have
blanks inside. -/
theorem ofString_eq_iff_spaced_map :
    ofString "\tMap <Map<big int\n,big int> ,　big int > " =
      ⟨"Map", [⟨"Map", [⟨"big int", []⟩, ⟨"big int", []⟩]⟩, ⟨"big int", []⟩]⟩ := by
  have hmap : IsName "Map".toList :=
    ⟨.of_trim_eq (by decide) (by decide), forall_mem_of_all (by decide)⟩
  have hint : Named IsName ⟨"big int", []⟩ :=
    .intro ⟨.of_trim_eq (by decide) (by decide), forall_mem_of_all (by decide)⟩ (by simp)
  have hpair : Named IsName ⟨"Map", [⟨"big int", []⟩, ⟨"big int", []⟩]⟩ :=
    .intro hmap (by simpa using hint)
  refine (ofString_eq_iff_spaced (.intro hmap (by simp [hpair, hint])) _).2 ?_
  have hbreak : Spaced ⟨"big int", []⟩ "big int\n".toList :=
    .plain ⟨[], ['\n'], by decide, by simp, forall_mem_of_all (by decide)⟩
  have hwide : Spaced ⟨"big int", []⟩ "　big int ".toList :=
    .plain ⟨['　'], [' '], by decide, forall_mem_of_all (by decide), forall_mem_of_all (by decide)⟩
  have hinner : Spaced ⟨"Map", [⟨"big int", []⟩, ⟨"big int", []⟩]⟩
      "Map<big int\n,big int> ".toList :=
    .pair (.refl _) hbreak (.plain (.refl _))
      ⟨[], [' '], by decide, by simp, forall_mem_of_all (by decide)⟩
  exact .pair ⟨['\t'], [' '], rfl, forall_mem_of_all (by decide), forall_mem_of_all (by decide)⟩
    hinner hwide ⟨[], [' '], by decide, by simp, forall_mem_of_all (by decide)⟩

end TypeExpr

end ClassSketch
