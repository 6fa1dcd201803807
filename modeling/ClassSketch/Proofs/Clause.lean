import ClassSketch.Proofs.Outline.Name
import ClassSketch.Source.Header

/-!
# Clauses of a header

A clause of a header is found by its keyword, which may stand anywhere in what
follows the type parameters. A text in which the keyword is no word of its own is
passed over (`Passes`), so that the keyword is found where it is written.

The names after the keyword are read one after the other, each with arguments up to
the first closing bracket. That bracket ends the name unless an argument has
arguments itself (`isNested`). Then a bracket is still open, and all that is read
after it belongs to the same name (`pieces_moreNames`).
-/

namespace ClassSketch

open Text Outline

/-! ## Finding a clause -/

namespace Source.EntityHeader

/-- Inside of a word no clause starts. -/
theorem clause?_true_append (k : List Char) {w : List Char} (hw : ∀ c ∈ w, isWord c = true)
    (s : List Char) : clause? k true (w ++ s) = clause? k true s := by
  induction w with
  | nil => rfl
  | cons c w ih =>
    obtain ⟨hc, hrest⟩ := List.forall_mem_cons.1 hw
    rw [List.cons_append, clause?, hc, ih hrest]
    rfl

/-- No clause starts in a text, whatever follows it after the end of a word. -/
def Passes (k a : List Char) : Prop :=
  ∀ s, s.head?.any isWord = false → clause? k false (a ++ s) = clause? k false s

section Clause

variable {k : List Char} (hk : ∀ c ∈ k, isWord c = true) (hne : k ≠ [])

include hk hne

theorem clause?_cons {c : Char} (hc : isWord c = false) (inWord : Bool) (s : List Char) :
    clause? k inWord (c :: s) = clause? k false s := by
  have hkeyword : (after? k (c :: s)).bind afterBlanks? = none :=
    keyword_eq_none (w := []) hk (by simp) (by simpa using hc) (Or.inl (Ne.symm hne))
  rw [clause?, hkeyword, hc]
  cases inWord <;> rfl

theorem clause?_of_head {s : List Char} (hs : s.head?.any isWord = false) (inWord : Bool) :
    clause? k inWord s = clause? k false s := by
  cases s with
  | nil => rfl
  | cons c s =>
    have hc : isWord c = false := by simpa using hs
    rw [clause?_cons hk hne hc, clause?_cons hk hne hc]

theorem clause?_trimStart (s : List Char) : clause? k false (trimStart s) = clause? k false s := by
  induction s with
  | nil => rfl
  | cons c s ih =>
    unfold trimStart at ih ⊢
    by_cases hc : isBlank c = true
    · rw [List.dropWhile_cons_of_pos hc, ih, clause?_cons hk hne (isWord_eq_false_of_isBlank hc)]
    · rw [List.dropWhile_cons_of_neg hc]

/-- A word is passed unless it is the key word. -/
theorem passes_word {w : List Char} (hw : ∀ c ∈ w, isWord c = true) (hwk : w ≠ k) : Passes k w := by
  intro s hs
  cases w with
  | nil => rfl
  | cons c w =>
    obtain ⟨hc, hrest⟩ := List.forall_mem_cons.1 hw
    have hkeyword := keyword_eq_none hk hw hs (Or.inl hwk)
    rw [List.cons_append] at hkeyword ⊢
    rw [clause?, hkeyword, hc]
    show clause? k true (w ++ s) = _
    rw [clause?_true_append k hrest, clause?_of_head hk hne hs]

/-- A dotted name is passed unless one of its words is the key word. -/
theorem passes_dotted {d : Dotted} (hd : ∀ w ∈ d.words, w.chars ≠ k) : Passes k d.chars := by
  intro s hs
  obtain ⟨hfirst, hmore⟩ := List.forall_mem_cons.1 hd
  have hdots : ∀ ws : List Word, (∀ w ∈ ws, w.chars ≠ k) →
      ((ws.flatMap fun w => '.' :: w.chars) ++ s).head?.any isWord = false ∧
      clause? k false ((ws.flatMap fun w => '.' :: w.chars) ++ s) = clause? k false s := by
    intro ws hws
    induction ws with
    | nil => exact ⟨hs, rfl⟩
    | cons w ws ih =>
      obtain ⟨hw, hrest⟩ := List.forall_mem_cons.1 hws
      obtain ⟨hhead, heq⟩ := ih hrest
      refine ⟨rfl, ?_⟩
      rw [List.flatMap_cons, List.append_assoc, List.cons_append, clause?_cons hk hne (by decide),
        passes_word hk hne w.isWord_of_mem hw _ hhead, heq]
  obtain ⟨hhead, heq⟩ := hdots d.more hmore
  rw [Dotted.chars, List.append_assoc, passes_word hk hne d.first.isWord_of_mem hfirst _ hhead, heq]

theorem passes_commaList {as : List (List Char)} (has : ∀ a ∈ as, Passes k a) :
    Passes k (commaList as) := by
  intro s hs
  induction as with
  | nil => rfl
  | cons a as ih =>
    obtain ⟨ha, hrest⟩ := List.forall_mem_cons.1 has
    cases as with
    | nil => rw [commaList_singleton, ha s hs]
    | cons b bs =>
      rw [commaList_cons_cons, List.append_assoc, ha _ rfl, List.cons_append,
        clause?_cons hk hne (by decide), List.cons_append, clause?_cons hk hne (by decide)]
      exact ih hrest

/-- A type is passed if its names are. -/
theorem passes_type {t : TypeExpr}
    (ht : t.Named fun s => ∃ d : Dotted, d.chars = s ∧ ∀ w ∈ d.words, w.chars ≠ k) :
    Passes k t.chars := by
  induction ht with
  | @intro name args hname _ ih =>
    obtain ⟨d, hd, hwords⟩ := hname
    have hpass := passes_dotted hk hne hwords
    by_cases hargs : args = []
    · rwa [hargs, TypeExpr.chars_plain, ← hd]
    · intro s hs
      rw [TypeExpr.chars_generic name hargs, ← hd, List.append_assoc, List.append_assoc,
        List.cons_append, hpass _ rfl, clause?_cons hk hne (by decide),
        passes_commaList hk hne (List.forall_mem_map.2 ih) _ rfl, List.singleton_append,
        clause?_cons hk hne (by decide)]

end Clause

end Source.EntityHeader

/-! ## Names with arguments -/

namespace Text

theorem isDottedText_iff {s : List Char} :
    isDottedText s = true ↔ s ≠ [] ∧ ∀ c ∈ s, isDotted c = true := by
  simp [isDottedText]

/-- A dotted name has no blanks around it. -/
theorem trimmed_of_isDottedText {s : List Char} (h : isDottedText s = true) : Trimmed s := by
  obtain ⟨hne, hall⟩ := isDottedText_iff.1 h
  exact .of_forall hne fun c hc => isBlank_eq_false_of_isDotted (hall c hc)

end Text

theorem Outline.Dotted.isDottedText_chars (d : Dotted) : isDottedText d.chars = true :=
  isDottedText_iff.2 ⟨d.chars_ne_nil, d.isDotted_of_mem⟩

namespace TypeExpr

/-- A text that starts with a name, and goes on with a bracket if it goes on. -/
inductive Leads (name : List Char) : List Char → Prop where
  | alone : Leads name name
  | bracket (rest : List Char) : Leads name (name ++ '<' :: rest)

/-- A text that starts so with some dotted name. -/
def LeadsName (p : List Char) : Prop :=
  ∃ name, isDottedText name = true ∧ Leads name p

section Leads

variable {name p : List Char} (hname : isDottedText name = true)

include hname

theorem Leads.trim (h : Leads name p) : Leads name (trim p) := by
  cases h with
  | alone =>
    rw [(trimmed_of_isDottedText hname).trim_eq]
    exact .alone
  | bracket rest =>
    have hfront : Trimmed (name ++ ['<']) :=
      (trimmed_of_isDottedText hname).extend fun c hc => by
        cases hc
        rfl
    have hsplit : name ++ '<' :: rest = name ++ ['<'] ++ rest := by simp
    rw [hsplit, Text.trim, hfront.trimStart_append, trimEnd_append hfront, List.append_assoc]
    exact .bracket _

/-- What stands before the first bracket is the name. -/
theorem Leads.baseName_eq (h : Leads name p) : baseName p = name := by
  have hplain : ∀ c ∈ name, (c != '<') = true := by
    intro c hc
    rw [bne_iff_ne]
    rintro rfl
    exact absurd ((isDottedText_iff.1 hname).2 _ hc) (by decide)
  unfold baseName
  cases h with
  | alone => rw [List.takeWhile_eq_self_iff.2 hplain, (trimmed_of_isDottedText hname).trim_eq]
  | bracket rest =>
    rw [List.takeWhile_append_of_pos hplain, List.takeWhile_cons_of_neg (by decide),
      List.append_nil, (trimmed_of_isDottedText hname).trim_eq]

theorem Leads.ne_nil (h : Leads name p) : p ≠ [] := by
  have hne := (isDottedText_iff.1 hname).1
  cases h with
  | alone => exact hne
  | bracket rest => exact List.append_ne_nil_of_left_ne_nil hne _

/-- And no commas or brackets in it. -/
theorem whole_of_isDottedText : Whole name := by
  refine .of_forall fun c hc => ?_
  have hdotted := (isDottedText_iff.1 hname).2 c hc
  refine ⟨?_, ?_, ?_⟩ <;> rintro rfl <;> exact absurd hdotted (by decide)

end Leads

/-- A dotted name, possibly with arguments up to the first closing bracket. -/
inductive AppliedName : List Char → Prop where
  | plain {name : List Char} (hname : isDottedText name = true) : AppliedName name
  | applied {name args : List Char} (hname : isDottedText name = true) (hargs : '>' ∉ args) :
      AppliedName (name ++ ('<' :: args ++ ['>']))

/-- Brackets that are opened keep all commas from separating. -/
theorem pieces_opened (d : Nat) {args : List Char} (h : '>' ∉ args) (s : List Char) :
    pieces (d + 1 : Nat) (args ++ s) =
      (pieces (d + 1 + args.count '<' : Nat) s).modifyHead (args ++ ·) := by
  induction args generalizing d with
  | nil =>
    obtain ⟨p, ps, hp⟩ := List.exists_cons_of_ne_nil (pieces_ne_nil (d + 1 : Nat) s)
    rw [List.nil_append, List.count_nil, Nat.add_zero, hp]
    rfl
  | cons c args ih =>
    obtain ⟨hc, hargs⟩ := not_or.1 (List.mem_cons.not.1 h)
    have hdepth : ((d + 1 : Nat) : Int) ≠ 0 := by omega
    rw [List.cons_append, pieces_cons (Or.inr hdepth)]
    by_cases hopen : c = '<'
    · subst hopen
      have hstep : angleStep (d + 1 : Nat) '<' = ((d + 1) + 1 : Nat) := rfl
      have hcount : d + 1 + 1 + args.count '<' = d + 1 + ('<' :: args).count '<' := by
        rw [List.count_cons_self]
        omega
      rw [hstep, ih (d + 1) hargs, hcount]
      exact modifyHead_modifyHead_append ['<'] args _
    · have hstep : angleStep (d + 1 : Nat) c = (d + 1 : Nat) := by
        rw [angleStep, if_neg hopen, if_neg (Ne.symm hc)]
      rw [hstep, ih d hargs, List.count_cons_of_ne hopen]
      exact modifyHead_modifyHead_append [c] args _

/-- Arguments up to the first closing bracket leave the brackets open that they open. -/
theorem pieces_applied (d : Nat) {name args : List Char} (hname : isDottedText name = true)
    (hargs : '>' ∉ args) (s : List Char) :
    pieces d (name ++ ('<' :: args ++ ['>']) ++ s) =
      (pieces (d + args.count '<' : Nat) s).modifyHead (name ++ ('<' :: args ++ ['>']) ++ ·) := by
  have hopen : angleStep d '<' = (d + 1 : Nat) := rfl
  have hclose : angleStep (d + 1 + args.count '<' : Nat) '>' = (d + args.count '<' : Nat) := by
    show ((d + 1 + args.count '<' : Nat) : Int) - 1 = _
    omega
  rw [List.append_assoc, (whole_of_isDottedText hname).pieces, List.append_assoc, List.cons_append,
    pieces_cons (Or.inl (by decide)), hopen, pieces_opened d hargs, List.singleton_append,
    pieces_cons (Or.inl (by decide)), hclose]
  have hone : ∀ ps : List (List Char), ps.modifyHead ('>' :: ·) = ps.modifyHead (['>'] ++ ·) :=
    fun _ => rfl
  have htwo : ∀ ps : List (List Char), ps.modifyHead ('<' :: ·) = ps.modifyHead (['<'] ++ ·) :=
    fun _ => rfl
  rw [hone, htwo, modifyHead_modifyHead_append, modifyHead_modifyHead_append,
    modifyHead_modifyHead_append]
  simp

/-- A name is never cut. It leaves brackets open only if it has arguments. -/
theorem pieces_appliedName {x : List Char} (hx : AppliedName x) (d : Nat) :
    ∃ e : Nat, d ≤ e ∧ (∀ s, pieces d (x ++ s) = (pieces e s).modifyHead (x ++ ·)) ∧
      (e = d ∨ ∀ s, LeadsName (x ++ s)) := by
  cases hx with
  | plain hname => exact ⟨d, Nat.le_refl d, (whole_of_isDottedText hname).pieces d, Or.inl rfl⟩
  | @applied name args hname hargs =>
    refine ⟨d + args.count '<', Nat.le_add_right .., pieces_applied d hname hargs, Or.inr ?_⟩
    intro s
    refine ⟨name, hname, ?_⟩
    rw [List.append_assoc, List.append_assoc, List.cons_append]
    exact .bracket _

/-- What is cut from such a text is led by the given names, and so are the parts. -/
theorem map_baseName_topLevelParts {s : List Char} {names : List (List Char)}
    (hnames : ∀ name ∈ names, isDottedText name = true)
    (h : List.Forall₂ Leads names (pieces 0 s)) : (topLevelParts s).map baseName = names := by
  have hparts : ∀ {names ps : List (List Char)}, (∀ name ∈ names, isDottedText name = true) →
      List.Forall₂ Leads names ps → [] ∉ ps.map trim ∧ (ps.map trim).map baseName = names := by
    intro names ps hnames h
    induction h with
    | nil => exact ⟨List.not_mem_nil, rfl⟩
    | cons hleads _ ih =>
      obtain ⟨hname, hrest⟩ := List.forall_mem_cons.1 hnames
      obtain ⟨hnil, hmap⟩ := ih hrest
      have htrim := hleads.trim hname
      refine ⟨?_, ?_⟩
      · rw [List.map_cons, List.mem_cons, not_or]
        exact ⟨Ne.symm (htrim.ne_nil hname), hnil⟩
      · rw [List.map_cons, List.map_cons, htrim.baseName_eq hname, hmap]
  obtain ⟨hnil, hmap⟩ := hparts hnames h
  rw [topLevelParts_of_pieces rfl rfl hnil, hmap]

/-! ## Nested arguments -/

/-- A type is written as its name, alone or with arguments in brackets. -/
theorem chars_cases (t : TypeExpr) : t.isGeneric = false ∧ t.chars = t.name.toList ∨
    t.isGeneric = true ∧
      t.chars = t.name.toList ++ ('<' :: commaList (t.args.map chars) ++ ['>']) := by
  obtain ⟨name, args⟩ := t
  by_cases hnil : args = []
  · rw [hnil]
    exact Or.inl ⟨rfl, chars_plain name⟩
  · exact Or.inr ⟨by simpa [isGeneric] using hnil, chars_generic name hnil⟩

/-- Some argument has arguments of its own. -/
def isNested (t : TypeExpr) : Bool :=
  t.args.any isGeneric

/-- A closing bracket without an opening one is out of balance. -/
theorem balancedFrom_close {u : List Char} (hopen : '<' ∉ u) (rest : List Char) :
    balancedFrom 0 (u ++ '>' :: rest) = false := by
  induction u with
  | nil => rfl
  | cons c u ih =>
    obtain ⟨hc, hu⟩ := not_or.1 (mt List.mem_cons.2 hopen)
    rw [List.cons_append, balancedFrom, if_neg (Ne.symm hc)]
    split
    · rfl
    · exact ih hu

theorem mem_chars_of_isGeneric {t : TypeExpr} (h : t.isGeneric = true) : '>' ∈ t.chars := by
  rcases t.chars_cases with ⟨hplain, -⟩ | ⟨-, hchars⟩
  · rw [h] at hplain
    cases hplain
  · simp [hchars]

/-- In nested arguments a bracket is opened before the first one is closed. -/
theorem exists_cut_of_isNested {args : List TypeExpr} (hargs : ∀ a ∈ args, Named IsName a)
    (hnested : args.any isGeneric = true) :
    ∃ u rest, commaList (args.map chars) = u ++ '>' :: rest ∧ '>' ∉ u ∧ '<' ∈ u := by
  obtain ⟨a, ha, hgeneric⟩ := List.any_eq_true.1 hnested
  have hclose : '>' ∈ commaList (args.map chars) :=
    mem_commaList (List.mem_map_of_mem ha) (mem_chars_of_isGeneric hgeneric)
  cases hcut : cutAt '>' (commaList (args.map chars)) with
  | none => exact absurd hclose (cutAt_eq_none_iff.1 hcut)
  | some found =>
    obtain ⟨u, rest⟩ := found
    obtain ⟨heq, hu⟩ := eq_of_cutAt hcut
    refine ⟨u, rest, heq, hu, ?_⟩
    by_contra hopen
    have hbalanced := balancedFrom_commaList_append
      (List.forall_mem_map.2 fun a ha => whole_chars (hargs a ha)) 0 []
    rw [List.append_nil, heq, balancedFrom_close hopen] at hbalanced
    cases hbalanced

/-- Arguments without arguments have no bracket in them. -/
theorem not_mem_commaList_of_not_isNested {args : List TypeExpr}
    (hargs : ∀ a ∈ args, Named IsName a) (hflat : args.any isGeneric = false) :
    '>' ∉ commaList (args.map chars) := by
  have hplain : ∀ a ∈ args, ∀ c ∈ a.chars, c ≠ '>' := by
    intro a ha
    cases hargs a ha with
    | @intro name as hname _ =>
      have hnil : as = [] := by
        simpa [isGeneric] using List.any_eq_false.1 hflat _ ha
      rw [hnil, chars_plain]
      exact fun c hc => (hname.plain c hc).2.2
  exact fun h => forall_mem_commaList (p := (· ≠ '>')) (by decide) (by decide)
    (List.forall_mem_map.2 hplain) _ h rfl

/-- A type starts with its name. -/
theorem leads_chars (t : TypeExpr) : Leads t.name.toList t.chars := by
  rcases t.chars_cases with ⟨-, hchars⟩ | ⟨-, hchars⟩
  · rw [hchars]
    exact .alone
  · rw [hchars]
    exact .bracket _

end TypeExpr

/-! ## Lists of names -/

namespace Source.EntityHeader

open TypeExpr (AppliedName Leads pieces isNested)

/-- What is read for a type is a name, with or without arguments. -/
theorem appliedName_of_typeName? {s text rest : List Char} (h : typeName? s = some (text, rest)) :
    AppliedName text := by
  unfold typeName? at h
  split at h
  · cases h
  · next name after hname =>
    obtain ⟨-, hne, hall, -⟩ := eq_of_takeSome hname
    have hdotted := isDottedText_iff.2 ⟨hne, hall⟩
    split at h
    · cases h
      exact .plain hdotted
    · next hargs =>
      cases h
      unfold typeArgs? at hargs
      split at hargs
      · obtain ⟨⟨args, last⟩, hcut, heq⟩ := Option.map_eq_some_iff.1 hargs
        cases heq
        exact .applied hdotted (eq_of_cutAt hcut).2
      · cases hargs

/-- Where a bracket is open, further names do not separate. -/
theorem pieces_moreNames (d : Nat) (s : List Char) :
    pieces (d + 1 : Nat) (moreNames s) = [moreNames s] := by
  fun_induction moreNames s generalizing d with
  | case1 s t hs text rest hname ih =>
    have hdepth : ((d + 1 : Nat) : Int) ≠ 0 := by omega
    obtain ⟨e, hle, hpieces, -⟩ :=
      TypeExpr.pieces_appliedName (appliedName_of_typeName? hname) (d + 1)
    obtain ⟨e, rfl⟩ : ∃ e', e = e' + 1 := ⟨e - 1, by omega⟩
    rw [List.cons_append, TypeExpr.pieces_cons (Or.inr hdepth)]
    show List.modifyHead _ (pieces (d + 1 : Nat) (text ++ moreNames rest)) = _
    rw [hpieces, ih]
    rfl
  | case2 => rfl
  | case3 => rfl

/-- What may follow a list of names without being read as a part of it. -/
structure EndsNames (s : List Char) : Prop where
  dotted : s.head?.any isDotted = false
  args : s.head? ≠ some '<'
  comma : (trimStart s).head? ≠ some ','

theorem typeArgs?_eq_none {s : List Char} (h : s.head? ≠ some '<') : typeArgs? s = none := by
  unfold typeArgs?
  split
  · exact absurd rfl h
  · rfl

theorem typeName?_eq (s : List Char) : typeName? s = (takeSome isDotted s).map fun p =>
    (typeArgs? p.2).elim p fun q => (p.1 ++ q.1, q.2) := by
  unfold typeName?
  split
  · next hname =>
    rw [hname]
    rfl
  · next name rest hname =>
    rw [hname, Option.map_some]
    split
    · next hargs => rw [hargs, Option.elim_none]
    · next hargs => rw [hargs, Option.elim_some]

/-- A name is read up to its end if no arguments follow. -/
theorem typeName?_append (d : Dotted) {s : List Char} (hdotted : s.head?.any isDotted = false)
    (hargs : s.head? ≠ some '<') : typeName? (d.chars ++ s) = some (d.chars, s) := by
  rw [typeName?_eq, d.takeSome_append hdotted, Option.map_some, typeArgs?_eq_none hargs,
    Option.elim_none]

/-- Arguments are read up to the first closing bracket. -/
theorem typeName?_applied (d : Dotted) {u : List Char} (hu : '>' ∉ u) (s : List Char) :
    typeName? (d.chars ++ '<' :: (u ++ '>' :: s)) =
      some (d.chars ++ ('<' :: u ++ ['>']), s) := by
  have hargs : typeArgs? ('<' :: (u ++ '>' :: s)) = some ('<' :: u ++ ['>'], s) := by
    rw [typeArgs?, cutAt_append hu]
    rfl
  rw [typeName?_eq, d.takeSome_append rfl, Option.map_some, hargs, Option.elim_some]

theorem moreNames_eq_nil {s : List Char} (h : (trimStart s).head? ≠ some ',') :
    moreNames s = [] := by
  rw [moreNames]
  split
  · next heq =>
    rw [heq] at h
    exact absurd rfl h
  · rfl

/-- The next name of a list, after a comma : its text and what follows. -/
def nextName? (s : List Char) : Option (List Char × List Char) :=
  (after? [','] (trimStart s)).bind fun t => typeName? (trimStart t)

/-- Each further name makes the rest shorter, so that reading ends. -/
theorem length_lt_of_nextName? {s : List Char} {p : List Char × List Char}
    (h : nextName? s = some p) : p.2.length < s.length := by
  obtain ⟨t, ht, hname⟩ := Option.bind_eq_some_iff.1 h
  have hlt := length_lt_of_typeName? hname
  have hle := length_trimStart_le t
  have hcomma := length_trimStart_le s
  rw [after?_eq_some_iff.1 ht, List.singleton_append, List.length_cons] at hcomma
  omega

theorem moreNames_eq (s : List Char) :
    moreNames s = (nextName? s).elim [] fun p => ',' :: p.1 ++ moreNames p.2 := by
  rw [moreNames]
  split
  · next t hs =>
    have hnext : nextName? s = typeName? (trimStart t) := by
      rw [nextName?, hs]
      rfl
    rw [hnext]
    split
    · next hname =>
      rw [hname]
      rfl
    · next hname =>
      rw [hname]
      rfl
  · next hother =>
    have hnext : after? [','] (trimStart s) = none := by
      refine Option.eq_none_iff_forall_not_mem.2 fun t ht => ?_
      exact hother t (after?_eq_some_iff.1 ht)
    rw [nextName?, hnext]
    rfl

/-- A name that is read as a whole stands in front of the names after the comma. -/
theorem names?_cons {a u text : List Char}
    (ha : typeName? (a ++ ',' :: ' ' :: u) = some (a, ',' :: ' ' :: u))
    (hu : trimStart u = u) (htext : names? u = some text) :
    names? (a ++ ',' :: ' ' :: u) = some (a ++ ',' :: text) := by
  obtain ⟨⟨first, rest⟩, hname, rfl⟩ := Option.map_eq_some_iff.1 htext
  have hnext : nextName? (',' :: ' ' :: u) = some (first, rest) := by
    show typeName? (trimStart u) = _
    rw [hu, hname]
  rw [names?, ha]
  show some (a ++ moreNames (',' :: ' ' :: u)) = _
  rw [moreNames_eq, hnext]
  rfl

end Source.EntityHeader

end ClassSketch
