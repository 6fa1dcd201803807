import ClassSketch.Proofs.Braces
import ClassSketch.Proofs.ClauseType

/-!
# The opening brace of a header

The brace of a header stands at its end, or alone on the next line. At the end of the line
it is part of the text that the header is read from, and the recognisers must find the same
in the longer text (`Steady`) : a keyword, a name or a closing bracket is never found in the
brace or in the blanks before it. On the next line it opens what the header left pending.

`PackageHeader.read?_append` and `EntityHeader.content_read?_append` say that a header is the
same with the brace, and `Reader.run_next_line_brace` that the reader ends up in the same
state.
-/

namespace ClassSketch

open Text

namespace Source

/-! ## Recognisers before a brace -/

/-- An opening brace with blanks before it. -/
def IsOpening (t : List Char) : Prop :=
  ∃ bs, (∀ c ∈ bs, isBlank c = true) ∧ t = bs ++ ['{']

/-- A recogniser `g` finds the same with the opening `t` behind a text, and `f` says what becomes
of the rest. It finds nothing where only the brace is left. -/
structure Steady {α : Type} (t : List Char) (f : α → α) (g : List Char → Option α) : Prop where
  nil : g [] = none
  brace : g ['{'] = none
  append (s : List Char) : g (s ++ t) = (g s).map f

/-- The opening stays in the rest. -/
def inRest {α : Type} (t : List Char) : α × List Char → α × List Char :=
  Prod.map id (· ++ t)

theorem not_opening_of_isDotted {c : Char} (h : isDotted c = true) :
    isBlank c = false ∧ c ≠ '{' := by
  refine ⟨isBlank_eq_false_of_isDotted h, ?_⟩
  rintro rfl
  exact absurd h (by decide)

namespace IsOpening

variable {t : List Char} (ht : IsOpening t)

include ht

theorem ne_nil : t ≠ [] := by
  obtain ⟨bs, -, rfl⟩ := ht
  exact List.append_ne_nil_of_right_ne_nil _ (List.cons_ne_nil _ _)

theorem getLast?_append (s : List Char) : (s ++ t).getLast? = some '{' := by
  obtain ⟨bs, -, rfl⟩ := ht
  rw [← List.append_assoc, List.getLast?_concat]

/-- Only blanks and the brace are in the opening. -/
theorem not_mem {c : Char} (hc : isBlank c = false ∧ c ≠ '{') : c ∉ t := by
  obtain ⟨bs, hbs, rfl⟩ := ht
  rw [List.mem_append, List.mem_singleton]
  rintro (h | rfl)
  · rw [hbs c h] at hc
    cases hc.1
  · exact hc.2 rfl

theorem head?_ne {c : Char} (hc : isBlank c = false ∧ c ≠ '{') : t.head? ≠ some c :=
  fun h => ht.not_mem hc (List.mem_of_head? h)

theorem head?_append {p : Char → Bool} (hp : ∀ c, p c = true → isBlank c = false ∧ c ≠ '{')
    {s : List Char} (hs : s.head?.any p = false) : (s ++ t).head?.any p = false := by
  cases s with
  | cons c s => exact hs
  | nil =>
    obtain ⟨c, u, rfl⟩ := List.exists_cons_of_ne_nil ht.ne_nil
    refine Bool.eq_false_iff.2 fun hc => ?_
    exact ht.not_mem (hp c (by simpa using hc)) List.mem_cons_self

theorem trimStart_eq : trimStart t = ['{'] := by
  obtain ⟨bs, hbs, rfl⟩ := ht
  exact trimStart_blanks_append hbs _

/-- A text is blank or keeps the opening behind it. -/
theorem trimStart_append (s : List Char) : trimStart s = [] ∧ trimStart (s ++ t) = ['{'] ∨
    trimStart s ≠ [] ∧ trimStart (s ++ t) = trimStart s ++ t := by
  obtain ⟨bs, hs, hbs, hstart⟩ := exists_trimStart s
  have htrim : trimStart (s ++ t) = trimStart (trimStart s ++ t) := by
    conv_lhs => rw [hs, List.append_assoc, trimStart_blanks_append hbs]
  rw [htrim]
  cases hnil : trimStart s with
  | nil => exact .inl ⟨rfl, ht.trimStart_eq⟩
  | cons c u =>
    rw [hnil] at hstart
    exact .inr ⟨List.cons_ne_nil _ _, trimStart_eq_self hstart⟩

/-! ### Single recognisers -/

/-- A word that is expected does not depend on the opening behind the text. -/
theorem steady_after? {k : List Char} (hne : k ≠ [])
    (hk : ∀ c ∈ k, isBlank c = false ∧ c ≠ '{') : Steady t (· ++ t) (after? k) where
  nil := by
    obtain ⟨p, ps, rfl⟩ := List.exists_cons_of_ne_nil hne
    rfl
  brace := by
    obtain ⟨p, ps, rfl⟩ := List.exists_cons_of_ne_nil hne
    rw [after?, if_neg (hk p List.mem_cons_self).2]
  append s := by
    clear hne
    induction k generalizing s with
    | nil => rfl
    | cons p ps ih =>
      obtain ⟨hp, hps⟩ := List.forall_mem_cons.1 hk
      cases s with
      | nil =>
        obtain ⟨c, u, rfl⟩ := List.exists_cons_of_ne_nil ht.ne_nil
        refine if_neg fun h => ?_
        exact ht.not_mem hp (h ▸ List.mem_cons_self)
      | cons c s =>
        rw [List.cons_append, after?, after?, ih hps]
        split <;> rfl

/-- Nor does a run of characters which the opening has none of. -/
theorem steady_takeSome {p : Char → Bool} (hp : ∀ c, p c = true → isBlank c = false ∧ c ≠ '{') :
    Steady t (inRest t) (takeSome p) := by
  have hnone {s : List Char} (hs : s.head?.any p = false) : takeSome p s = none := by
    unfold takeSome
    cases s with
    | nil => rfl
    | cons c s => rw [List.takeWhile_cons_of_neg (by simpa using hs)]
  refine ⟨rfl, hnone ?_, fun s => ?_⟩
  · refine Bool.eq_false_iff.2 fun h => ?_
    exact (hp '{' (by simpa using h)).2 rfl
  · cases hs : takeSome p s with
    | some found =>
      obtain ⟨w, r⟩ := found
      obtain ⟨rfl, hne, hw, hr⟩ := eq_of_takeSome hs
      rw [List.append_assoc, Text.takeSome_append hne hw (ht.head?_append hp hr)]
      rfl
    | none =>
      refine hnone (ht.head?_append hp ?_)
      cases s with
      | nil => rfl
      | cons c s =>
        refine Bool.eq_false_iff.2 fun hc => ?_
        rw [takeSome, List.takeWhile_cons_of_pos (by simpa using hc)] at hs
        cases hs

theorem steady_word : Steady t (inRest t) (takeSome isWord) :=
  ht.steady_takeSome fun _ hc => not_opening_of_isDotted (isDotted_of_isWord hc)

theorem steady_dotted : Steady t (inRest t) (takeSome isDotted) :=
  ht.steady_takeSome fun _ hc => not_opening_of_isDotted hc

/-- A keyword is a word. -/
theorem steady_keyword {k : List Char} (hne : k ≠ []) (hk : ∀ c ∈ k, isWord c = true) :
    Steady t (· ++ t) (after? k) :=
  ht.steady_after? hne fun c hc => not_opening_of_isDotted (isDotted_of_isWord (hk c hc))

/-- Nor does a cut. -/
theorem cutAt_append {c : Char} (hc : isBlank c = false ∧ c ≠ '{') (s : List Char) :
    cutAt c (s ++ t) = (cutAt c s).map (inRest t) := by
  cases hs : cutAt c s with
  | none =>
    refine cutAt_eq_none_iff.2 fun h => ?_
    rcases List.mem_append.1 h with h | h
    · exact cutAt_eq_none_iff.1 hs h
    · exact ht.not_mem hc h
  | some found =>
    obtain ⟨a, b⟩ := found
    obtain ⟨rfl, ha⟩ := eq_of_cutAt hs
    rw [List.append_assoc, List.cons_append, Text.cutAt_append ha]
    rfl

end IsOpening

/-! ### Recognisers one after the other -/

namespace Steady

variable {α β : Type} {t : List Char} {f : α → α} {f' : β → β} {g h : List Char → Option α}

theorem trimStart (ht : IsOpening t) (hg : Steady t f g) :
    Steady t f fun s => g (Text.trimStart s) where
  nil := hg.nil
  brace := hg.brace
  append s := by
    rcases ht.trimStart_append s with ⟨hs, heq⟩ | ⟨-, heq⟩
    · rw [heq, hs, hg.brace, hg.nil]
      rfl
    · rw [heq, hg.append]

theorem afterBlanks? (ht : IsOpening t) (hg : Steady t f g) :
    Steady t f fun s => (Text.afterBlanks? s).bind g where
  nil := rfl
  brace := rfl
  append s := by
    cases s with
    | cons c s =>
      rw [List.cons_append, Text.afterBlanks?, Text.afterBlanks?]
      split
      · exact (hg.trimStart ht).append s
      · rfl
    | nil =>
      obtain ⟨bs, hbs, rfl⟩ := ht
      cases bs with
      | nil => rfl
      | cons b bs =>
        obtain ⟨hb, hbs⟩ := List.forall_mem_cons.1 hbs
        rw [List.nil_append, List.cons_append, Text.afterBlanks?, if_pos hb, Option.bind_some,
          trimStart_blanks_append hbs]
        exact hg.brace

/-- Steady readers may be tried in turn. -/
theorem orElse (hg : Steady t f g) (hh : Steady t f h) : Steady t f fun s => g s <|> h s where
  nil := by rw [hg.nil, hh.nil]; rfl
  brace := by rw [hg.brace, hh.brace]; rfl
  append s := by
    rw [hg.append, hh.append]
    cases g s <;> rfl

/-- And one may read on where another ended. -/
theorem bind {g : List Char → Option (List Char)} {k : List Char → Option β}
    (hg : Steady t (· ++ t) g) (hk : Steady t f' k) : Steady t f' fun s => (g s).bind k where
  nil := by rw [hg.nil]; rfl
  brace := by rw [hg.brace]; rfl
  append s := by
    rw [hg.append]
    cases g s with
    | none => rfl
    | some r => exact hk.append r

/-- A recogniser with blanks between it and the next one. -/
theorem bindBlanks (ht : IsOpening t) {g : List Char → Option (List Char)}
    {k : List Char → Option β} (hg : Steady t (· ++ t) g) (hk : Steady t f' k) :
    Steady t f' fun s => ((g s).bind Text.afterBlanks?).bind k := by
  have heq : (fun s => ((g s).bind Text.afterBlanks?).bind k) =
      fun s => (g s).bind fun r => (Text.afterBlanks? r).bind k :=
    funext fun s => Option.bind_assoc ..
  rw [heq]
  exact hg.bind (hk.afterBlanks? ht)

/-- A part that may be missing is skipped in the same way. -/
theorem getD_append {g : List Char → Option (List Char)} (hg : Steady t (· ++ t) g)
    (s : List Char) : (g (s ++ t)).getD (s ++ t) = (g s).getD s ++ t := by
  rw [hg.append]
  cases g s <;> rfl

theorem map {k : α → β} (hg : Steady t f g) (hk : ∀ a, k (f a) = f' (k a)) :
    Steady t f' fun s => (g s).map k where
  nil := by rw [hg.nil]; rfl
  brace := by rw [hg.brace]; rfl
  append s := by
    rw [hg.append]
    cases g s with
    | none => rfl
    | some a => exact congrArg some (hk a)

end Steady

/-! ## Package headers -/

namespace PackageHeader

theorem not_opening_of_isNameChar (c : Char) (h : isNameChar c = true) :
    isBlank c = false ∧ c ≠ '{' := by
  simp only [isNameChar, Bool.not_eq_true', Bool.or_eq_false_iff, beq_eq_false_iff_ne] at h
  exact ⟨h.1.1.1, h.1.1.2⟩

theorem name?_of_head? {s : List Char} (hs : s.head? ≠ some '"') :
    name? s = takeSome isNameChar s := by
  unfold name?
  split
  · exact absurd rfl hs
  · rfl

/-- An alias, and what follows it. -/
def alias? (s : List Char) : Option (List Char × List Char) :=
  (afterBlanks? s).bind fun u => (after? "as".toList u).bind fun v =>
    (afterBlanks? v).bind (takeSome isWord)

theorem dropAlias_eq (s : List Char) : dropAlias s = ((alias? s).map Prod.snd).getD s := by
  unfold dropAlias alias?
  rw [Option.bind_assoc, Option.bind_assoc]
  split
  · next hfound =>
    rw [hfound]
    rfl
  · next hfound =>
    rw [hfound]
    rfl

/-- What follows a stereotype. -/
def stereotype? (s : List Char) : Option (List Char) :=
  (after? "<<".toList (trimStart s)).bind fun u => after? ">>".toList (u.dropWhile (· != '>'))

theorem dropStereotype_eq (s : List Char) : dropStereotype s = (stereotype? s).getD s := by
  unfold dropStereotype stereotype?
  split
  · next hopen =>
    rw [hopen]
    rfl
  · next hopen =>
    rw [hopen, Option.bind_some]
    split
    · next hclose =>
      rw [hclose]
      rfl
    · next hclose =>
      rw [hclose]
      rfl

section Opening

variable {t : List Char} (ht : IsOpening t)

include ht

/-- A name is read in the same way with the opening behind it. -/
theorem steady_name? : Steady t (inRest t) name? where
  nil := rfl
  brace := rfl
  append s := by
    have htake := (ht.steady_takeSome not_opening_of_isNameChar).append s
    cases s with
    | nil => exact (name?_of_head? (ht.head?_ne (by decide))).trans htake
    | cons c s =>
      by_cases hc : c = '"'
      · rw [hc, List.cons_append, name?, name?, ht.cutAt_append (by decide)]
        cases cutAt '"' s with
        | none => rfl
        | some found =>
          obtain ⟨_ | ⟨a, as⟩, rest⟩ := found <;> rfl
      · have hquote : (c :: s).head? ≠ some '"' := fun h => hc (Option.some.inj h)
        rw [name?_of_head? hquote, ← htake]
        exact name?_of_head? hquote

theorem dropAlias_append (s : List Char) : dropAlias (s ++ t) = dropAlias s ++ t := by
  have has : Steady t (· ++ t) (after? "as".toList) :=
    ht.steady_keyword (by decide) (forall_mem_of_all (by decide))
  have halias : Steady t (· ++ t) fun u => (alias? u).map Prod.snd :=
    ((has.bind (ht.steady_word.afterBlanks? ht)).afterBlanks? ht).map fun _ => rfl
  rw [dropAlias_eq, dropAlias_eq, halias.getD_append]

theorem dropStereotype_append (s : List Char) :
    dropStereotype (s ++ t) = dropStereotype s ++ t := by
  have hopen : Steady t (· ++ t) (after? "<<".toList) :=
    ht.steady_after? (by decide) (forall_mem_of_all (by decide))
  have hclose : Steady t (· ++ t) (after? ">>".toList) :=
    ht.steady_after? (by decide) (forall_mem_of_all (by decide))
  have hinner : Steady t (· ++ t) fun u => after? ">>".toList (u.dropWhile (· != '>')) := by
    refine ⟨rfl, rfl, fun u => ?_⟩
    rw [List.dropWhile_append]
    split
    · next hu =>
      have hnil : t.dropWhile (· != '>') = [] := by
        refine List.dropWhile_eq_nil_iff.2 fun c hc => bne_iff_ne.2 ?_
        rintro rfl
        exact ht.not_mem (by decide) hc
      rw [hnil, List.isEmpty_iff.1 hu]
      rfl
    · exact hclose.append _
  have hstereotype : Steady t (· ++ t) stereotype? := (hopen.trimStart ht).bind hinner
  rw [dropStereotype_eq, dropStereotype_eq, hstereotype.getD_append]

/-- Only a header that opens nothing can have an opening behind it. -/
theorem read?_append (s : List Char) : read? (s ++ t) =
    ((read? s).filter fun h => !h.opens).map fun h => { h with opens := true } := by
  have hpackage : Steady t (· ++ t) (after? "package".toList) :=
    ht.steady_keyword (by decide) (forall_mem_of_all (by decide))
  have hnamespace : Steady t (· ++ t) (after? "namespace".toList) :=
    ht.steady_keyword (by decide) (forall_mem_of_all (by decide))
  have hname := (hpackage.orElse hnamespace).bindBlanks ht (steady_name? ht)
  unfold read?
  rw [hname.append s]
  cases ((after? "package".toList s <|> after? "namespace".toList s).bind afterBlanks?).bind name? with
  | none => rfl
  | some found =>
    obtain ⟨name, rest⟩ := found
    simp only [Option.map_some, inRest, Prod.map_apply, id, dropAlias_append ht,
      dropStereotype_append ht]
    rcases ht.trimStart_append (dropStereotype (dropAlias rest)) with ⟨hnil, heq⟩ | ⟨hne, heq⟩
    · rw [heq, hnil]
      rfl
    · rw [heq]
      split
      · next h => exact absurd (List.append_eq_nil_iff.1 h).1 hne
      · next h =>
        rcases List.append_eq_singleton_iff.1 h with ⟨hnil, -⟩ | ⟨-, hnil⟩
        · exact absurd hnil hne
        · exact absurd hnil ht.ne_nil
      · split
        · next h => exact absurd h hne
        · rfl
        · rfl

end Opening

end PackageHeader

/-! ## Entity headers -/

namespace EntityHeader

/-- What a header declares, and whether its kind is written out. -/
def content (h : EntityHeader) :
    Bool × List Char × (Option String → Entity) × List Relationship :=
  (h.isExplicit, h.name, h.entity, h.relationships)

section Opening

variable {t : List Char} (ht : IsOpening t)

include ht

theorem steady_typeArgs? : Steady t (inRest t) typeArgs? where
  nil := rfl
  brace := rfl
  append s := by
    cases s with
    | nil => exact typeArgs?_eq_none (ht.head?_ne (by decide))
    | cons c s =>
      by_cases hc : c = '<'
      · rw [hc, List.cons_append, typeArgs?, typeArgs?, ht.cutAt_append (by decide)]
        cases cutAt '>' s <;> rfl
      · have hhead : (c :: s).head? ≠ some '<' := fun h => hc (Option.some.inj h)
        rw [typeArgs?_eq_none hhead]
        exact typeArgs?_eq_none hhead

/-- So is the name of a type with its arguments. -/
theorem steady_typeName? : Steady t (inRest t) typeName? := by
  have heq : typeName? = fun s => (takeSome isDotted s).map fun p =>
      (typeArgs? p.2).elim p fun q => (p.1 ++ q.1, q.2) := funext typeName?_eq
  rw [heq]
  refine ht.steady_dotted.map fun p => ?_
  simp only [inRest, Prod.map_fst, Prod.map_snd, id, (steady_typeArgs? ht).append]
  cases typeArgs? p.2 <;> rfl

theorem steady_nextName? : Steady t (inRest t) nextName? :=
  ((ht.steady_after? (by decide) (forall_mem_of_all (by decide))).trimStart ht).bind
    ((steady_typeName? ht).trimStart ht)

/-- And so are all names of a clause. -/
theorem moreNames_append (s : List Char) : moreNames (s ++ t) = moreNames s := by
  rw [moreNames_eq, (steady_nextName? ht).append, moreNames_eq s]
  cases hnext : nextName? s with
  | none => rfl
  | some p =>
    show ',' :: p.1 ++ moreNames (p.2 ++ t) = ',' :: p.1 ++ moreNames p.2
    rw [moreNames_append p.2]
termination_by s.length
decreasing_by exact length_lt_of_nextName? hnext

theorem steady_names? : Steady t id names? := by
  refine (steady_typeName? ht).map fun p => ?_
  simp only [inRest, Prod.map_fst, Prod.map_snd, id, moreNames_append ht]

/-- A clause has the same names, whatever opening is behind it. -/
theorem clause?_append {k : List Char} (hk : k ∈ Outline.clauseWords) (inWord : Bool) (s : List Char) :
    clause? k inWord (s ++ t) = clause? k inWord s := by
  have hne : k ≠ [] := ne_nil_of_mem_clauseWords hk
  have hword : ∀ c ∈ k, isWord c = true := isWord_of_mem_clauseWords hk
  have hnames := (ht.steady_keyword hne hword).bindBlanks ht (steady_names? ht)
  induction s generalizing inWord with
  | nil =>
    have hhead : t.head?.any isWord = false := ht.head?_append (s := [])
      (fun _ hc => not_opening_of_isDotted (isDotted_of_isWord hc)) rfl
    rw [List.nil_append, clause?_of_head hword hne hhead, ← clause?_trimStart hword hne,
      ht.trimStart_eq, clause?_cons hword hne (by decide)]
    rfl
  | cons c s ih =>
    rw [List.cons_append, clause?, clause?, ih, ← List.cons_append, hnames.append, Option.map_id]
    rfl

/-- The opening stays behind the type parameters, without the blanks before it if there are none. -/
theorem takeGenerics_append (s : List Char) : takeGenerics (s ++ t) = inRest t (takeGenerics s) ∨
    takeGenerics s = ([], []) ∧ takeGenerics (s ++ t) = ([], ['{']) := by
  rcases ht.trimStart_append s with ⟨hs, heq⟩ | ⟨hs, heq⟩
  · unfold takeGenerics
    rw [hs, heq]
    exact .inr ⟨rfl, rfl⟩
  · refine .inl ?_
    obtain ⟨c, u, hu⟩ := List.exists_cons_of_ne_nil hs
    rw [hu, List.cons_append] at heq
    by_cases hc : c = '<'
    · subst hc
      unfold takeGenerics
      rw [hu, heq]
      show (cutAt '>' (u ++ t)).getD _ = inRest t ((cutAt '>' u).getD _)
      rw [ht.cutAt_append (by decide)]
      cases cutAt '>' u <;> rfl
    · have hhead : some c ≠ some '<' := fun h => hc (Option.some.inj h)
      rw [takeGenerics_of_head? (by rwa [heq]), takeGenerics_of_head? (by rwa [hu]), hu, heq]
      rfl

/-- Behind the generics as well. -/
theorem clauseNames_takeGenerics_append {k : List Char} (hk : k ∈ Outline.clauseWords)
    (s : List Char) :
    clauseNames k (takeGenerics (s ++ t)).2 = clauseNames k (takeGenerics s).2 := by
  unfold clauseNames
  rcases takeGenerics_append ht s with heq | ⟨hs, heq⟩
  · rw [heq]
    show List.map _ ((clause? k false ((takeGenerics s).2 ++ t)).elim _ _) = _
    rw [clause?_append ht hk]
  · have hbrace : clause? k false ['{'] = none := clause?_append ⟨[], by simp, rfl⟩ hk false []
    rw [heq, hs, hbrace]
    rfl

/-- So a header has the same content. -/
theorem content_build_append (kind : Kind) (isAbstract isExplicit : Bool)
    (found : List Char × List Char) : content (build kind isAbstract isExplicit (inRest t found)) =
      content (build kind isAbstract isExplicit found) := by
  have hgenerics : (takeGenerics (found.2 ++ t)).1 = (takeGenerics found.2).1 := by
    rcases takeGenerics_append ht found.2 with heq | ⟨hs, heq⟩
    · rw [heq]
      rfl
    · rw [heq, hs]
  have hextends := clauseNames_takeGenerics_append ht (k := "extends".toList) (by decide) found.2
  have himplements := clauseNames_takeGenerics_append ht (k := "implements".toList) (by decide) found.2
  unfold content entity relationships build
  simp only [inRest, Prod.map_fst, Prod.map_snd, id, hgenerics, hextends, himplements]

/-- A header declares the same with the opening behind it. -/
theorem content_read?_append (s : List Char) :
    (read? (s ++ t)).map content = (read? s).map content := by
  have hword {k : List Char} (hne : k ≠ []) (hk : ∀ c ∈ k, isWord c = true) (kind : Kind)
      (isAbstract isExplicit : Bool) : Steady t id fun u =>
        (keywordAndWord? k u).map (content ∘ build kind isAbstract isExplicit) :=
    ((ht.steady_keyword hne hk).bindBlanks ht ht.steady_word).map
      (content_build_append ht kind isAbstract isExplicit)
  have hcls (isAbstract : Bool) := hword (k := "class".toList) (by decide)
    (forall_mem_of_all (by decide)) .cls isAbstract true
  have hinterface := hword (k := "interface".toList) (by decide)
    (forall_mem_of_all (by decide)) .interface false true
  have henum := hword (k := "enum".toList) (by decide)
    (forall_mem_of_all (by decide)) .enum false true
  have hname : Steady t id fun u => (takeSome isWord u).map (content ∘ build .cls true false) :=
    ht.steady_word.map (content_build_append ht .cls true false)
  have habstract := (ht.steady_keyword (k := "abstract".toList) (by decide)
    (forall_mem_of_all (by decide))).bindBlanks ht ((hcls true).orElse hname)
  have hread := habstract.orElse ((hcls false).orElse (hinterface.orElse henum))
  simpa only [read?, abstract?, Option.orElse_eq_orElse, Option.orElse_eq_or, Option.map_or,
    Option.map_bind, Option.map_map, Option.map_id, id, Function.comp_def] using hread.append s

end Opening

end EntityHeader

/-! ## The step of the reader -/

theorem getLast?_ne_of_braces {s : List Char} (h : braces s = []) : s.getLast? ≠ some '{' := by
  intro hlast
  obtain ⟨u, rfl⟩ := List.getLast?_eq_some_iff.1 hlast
  rw [braces, tokens_snoc (by decide), List.filter_append] at h
  cases (List.append_eq_nil_iff.1 h).2

namespace Reader

variable (r : Reader)

/-- Only the content of a header is used. -/
theorem readHeader_of_content {h h' : EntityHeader} (heq : h'.content = h.content) (opens : Bool) :
    r.readHeader h' opens = r.readHeader h opens := by
  simp only [EntityHeader.content, Prod.mk.injEq] at heq
  obtain ⟨-, hname, hentity, hrelationships⟩ := heq
  unfold readHeader register
  rw [hname, hentity, hrelationships]

/-- A header is found with the opening behind it if it is found without. -/
theorem header?_append {t : List Char} (ht : IsOpening t) {s : List Char} {h : EntityHeader}
    (hread : r.header? s = some h) : ∃ h', r.header? (s ++ t) = some h' ∧ h'.content = h.content := by
  obtain ⟨hread, htaken⟩ := Option.filter_eq_some_iff.1 hread
  have hcontent := EntityHeader.content_read?_append ht s
  rw [hread, Option.map_some] at hcontent
  obtain ⟨h', hread', heq⟩ := Option.map_eq_some_iff.1 hcontent
  have hexplicit : h'.isExplicit = h.isExplicit := congrArg Prod.fst heq
  refine ⟨h', Option.filter_eq_some_iff.2 ⟨hread', ?_⟩, heq⟩
  rwa [hexplicit]

/-- A lone brace opens the package that was announced. -/
theorem step_readPackage {h : PackageHeader} (hopens : h.opens = false) :
    (r.settled.readPackage h).step ['{'] =
      (r.settled.readPackage { h with opens := true }, none) := by
  obtain ⟨name, opens⟩ := h
  cases hopens
  rfl

/-- A lone brace opens the body of the entity that was added. -/
theorem step_readHeader (h : EntityHeader) :
    (r.settled.readHeader h false).step ['{'] = (r.settled.readHeader h true, none) :=
  rfl

/-- The brace of a header may stand on the next line : a header line without structural braces and
then a lone brace lead to the same reader as the line with the brace at its end, after any blanks.
Nothing is skipped, and a package is open, or the body of the new entity. -/
theorem run_next_line_brace {s t : List Char} (hs : braces s = []) (ht : IsOpening t)
    (hheader : (PackageHeader.read? s).isSome = true ∨ (r.header? s).isSome = true)
    (i j k : Nat) : ∃ r', r.run [⟨i, s ++ t⟩] = (r', []) ∧ r.run [⟨j, s⟩, ⟨k, ['{']⟩] = (r', []) ∧
      ((∃ name, r'.cursor.blocks = some name :: r.cursor.blocks) ∨
        r'.cursor.inEntity = true ∧ r'.cursor.entity = some r.diagram.entities.length ∧
          r'.cursor.depth = 1) := by
  have hlast := getLast?_ne_of_braces hs
  cases hpackage : PackageHeader.read? s with
  | some h =>
    have hopens : h.opens = false := by
      refine Bool.eq_false_iff.2 fun hopens => hlast ?_
      exact (PackageHeader.opens_iff hpackage).1 hopens
    have hread : PackageHeader.read? (s ++ t) = some { h with opens := true } := by
      rw [PackageHeader.read?_append ht, hpackage, Option.filter_some, hopens]
      rfl
    refine ⟨r.settled.readPackage { h with opens := true }, ?_, ?_, .inl ⟨_, rfl⟩⟩
    · simp only [run, r.step_of_package hread]
      rfl
    · simp only [run, r.step_of_package hpackage, r.step_readPackage hopens]
      rfl
  | none =>
    rw [hpackage] at hheader
    obtain ⟨h, hfound⟩ := Option.isSome_iff_exists.1 (hheader.resolve_left Bool.false_ne_true)
    obtain ⟨h', hfound', heq⟩ := r.header?_append ht hfound
    have hnone : PackageHeader.read? (s ++ t) = none := by
      rw [PackageHeader.read?_append ht, hpackage]
      rfl
    refine ⟨r.settled.readHeader h true, ?_, ?_, .inr ⟨rfl, rfl, rfl⟩⟩
    · simp only [run, r.step_of_header hnone hfound', ht.getLast?_append, decide_true,
        r.settled.readHeader_of_content heq]
      rfl
    · simp only [run, r.step_of_header hpackage hfound, hlast, decide_false, r.step_readHeader]
      rfl

/-- The reader is in the middle of a body, and a package that was announced there waits for its
brace. -/
def interrupted : Reader where
  cursor := {
    blocks := [none, some "p"], loosePackage := some "q", entity := some 0, inEntity := true,
    depth := 2, pendingPackage := some "q" }
  diagram := { entities := [.cls { name := "A" }], packages := [("p", []), ("q", [])] }

theorem run_next_line_brace_interrupted :
    let line := "abstract class Box<T> extends Base<T>, Other \x7babstract\x7d".toList
    ∃ r', interrupted.run [⟨1, line ++ " \x7b".toList⟩] = (r', []) ∧
      interrupted.run [⟨1, line⟩, ⟨2, ['{']⟩] = (r', []) ∧
      ((∃ name, r'.cursor.blocks = some name :: interrupted.cursor.blocks) ∨
        r'.cursor.inEntity = true ∧ r'.cursor.entity = some interrupted.diagram.entities.length ∧
          r'.cursor.depth = 1) :=
  interrupted.run_next_line_brace (by decide +kernel)
    ⟨[' '], forall_mem_of_all (by decide), rfl⟩ (by decide) 1 1 2

end Reader

end Source

end ClassSketch
