import ClassSketch.Proofs.Clause

/-!
# Types in a header

The supertypes of a header are types over dotted words (`ClauseType`). In a clause the
types are read up to the first one with nested arguments, and those after it are lost
(`clauseNames_clauses`).

Type parameters end at the first closing bracket. Without a bracket in them they are
read as a whole, and the clauses are found behind them (`takeGenerics_parameterText`,
`clauseNames_parameterText`).
-/

namespace ClassSketch

open Text Outline

/-! ## The types of a clause -/

namespace Outline

/-- The words that start a clause. -/
def clauseWords : List (List Char) :=
  ["extends".toList, "implements".toList]

/-- A type over dotted words, none of which starts a clause. -/
structure ClauseType where
  type : TypeExpr
  named : type.Named fun s => ∃ d : Dotted, d.chars = s ∧ ∀ w ∈ d.words, w.chars ∉ clauseWords

namespace ClauseType

/-- A name with types as its arguments. -/
def applied (d : Dotted) (hd : ∀ w ∈ d.words, w.chars ∉ clauseWords) (args : List ClauseType) :
    ClauseType where
  type := ⟨d.text, args.map ClauseType.type⟩
  named := .intro ⟨d, String.toList_ofList.symm, hd⟩ (List.forall_mem_map.2 fun t _ => t.named)

def chars (t : ClauseType) : List Char :=
  t.type.chars

/-- The type without its arguments. -/
def base (t : ClauseType) : String :=
  t.type.name

/-- The types of a list up to the first one that has nested arguments. -/
def upToNested : List ClauseType → List ClauseType
  | [] => []
  | t :: ts => if t.type.isNested then [t] else t :: upToNested ts

/-- Only types at the end are lost. -/
theorem upToNested_isPrefix (ts : List ClauseType) : upToNested ts <+: ts := by
  induction ts with
  | nil => exact List.nil_prefix
  | cons t ts ih =>
    rw [upToNested]
    split
    · exact ⟨ts, rfl⟩
    · exact (List.prefix_cons_inj t).2 ih

/-- Nothing is lost exactly if no type but the last has nested arguments. -/
theorem upToNested_eq_iff (ts : List ClauseType) :
    upToNested ts = ts ↔ ∀ t ∈ ts.dropLast, t.type.isNested = false := by
  induction ts with
  | nil => exact iff_of_true rfl (List.forall_mem_nil _)
  | cons t ts ih =>
    cases ts with
    | nil =>
      refine iff_of_true ?_ (List.forall_mem_nil _)
      rw [upToNested, upToNested]
      split <;> rfl
    | cons t' ts =>
      rw [upToNested, List.dropLast_cons_cons, List.forall_mem_cons]
      by_cases hnested : t.type.isNested = true
      · rw [if_pos hnested, hnested]
        exact iff_of_false (fun h => nomatch (List.cons.inj h).2) fun h => nomatch h.1
      · rw [if_neg hnested, List.cons_inj_right, ih, and_iff_right (Bool.eq_false_iff.2 hnested)]

variable (t : ClauseType)

theorem isName : t.type.Named TypeExpr.IsName :=
  t.named.mono fun _ ⟨d, hd, _⟩ => hd ▸ d.isName

theorem trimmed : Trimmed t.chars :=
  TypeExpr.trimmed_chars t.isName

/-- The name of the type is a dotted name. -/
theorem exists_dotted : ∃ d : Dotted, d.chars = t.base.toList := by
  obtain ⟨type, hnamed⟩ := t
  cases hnamed with
  | intro hname =>
    obtain ⟨d, hd, -⟩ := hname
    exact ⟨d, hd⟩

theorem isName_of_mem_args : ∀ a ∈ t.type.args, a.Named TypeExpr.IsName := by
  have hname := t.isName
  generalize t.type = type at hname
  cases hname with
  | intro _ hargs => exact hargs

theorem isDottedText_base : isDottedText t.base.toList = true := by
  obtain ⟨d, hd⟩ := t.exists_dotted
  exact hd ▸ d.isDottedText_chars

end ClauseType

/-- A clause of a header, with a space before it. -/
def clauseText (keyword : List Char) (ts : List ClauseType) : List Char :=
  if ts.isEmpty then [] else ' ' :: keyword ++ ' ' :: commaList (ts.map ClauseType.chars)

/-- Type parameters in brackets. -/
def parameterText (as : List (List Char)) : List Char :=
  if as.isEmpty then [] else '<' :: commaList as ++ ['>']

/-- What the line of a header ends with. -/
def opening (opens : Bool) : List Char :=
  if opens then [' ', '{'] else []

/-- What follows the name and the type parameters of a header. -/
def clauses (parents interfaces : List ClauseType) (opens : Bool) : List Char :=
  clauseText "extends".toList parents ++
    (clauseText "implements".toList interfaces ++ opening opens)

theorem isWord_of_mem_reserved : ∀ k ∈ reserved, ∀ c ∈ k, isWord c = true := by
  have hall : ∀ k ∈ reserved, k.all isWord = true := by decide
  exact fun k hk => List.all_eq_true.1 (hall k hk)

theorem mem_reserved_of_mem_clauseWords : ∀ k ∈ clauseWords, k ∈ reserved := by decide

theorem clauseText_of_ne_nil (k : List Char) {ts : List ClauseType} (hts : ts ≠ []) :
    clauseText k ts = ' ' :: k ++ ' ' :: commaList (ts.map ClauseType.chars) :=
  if_neg (by simpa using hts)

/-- A clause, or nothing, in front of a text. -/
theorem head?_clauseText_append (k : List Char) (ts : List ClauseType) {s : List Char}
    {p : Char → Bool} (hp : p ' ' = false) (hs : s.head?.any p = false) :
    (clauseText k ts ++ s).head?.any p = false := by
  by_cases hts : ts = []
  · rwa [hts]
  · rw [clauseText_of_ne_nil k hts]
    exact hp

end Outline

namespace Source.EntityHeader

open TypeExpr (Leads pieces)

section Clause

variable {k : List Char} (hk : k ∈ clauseWords)

include hk

theorem isWord_of_mem_clauseWords : ∀ c ∈ k, isWord c = true :=
  isWord_of_mem_reserved k (mem_reserved_of_mem_clauseWords k hk)

theorem ne_nil_of_mem_clauseWords : k ≠ [] := by
  rintro rfl
  exact absurd hk (by decide)

/-- What comes first after the blanks in front of a clause or of what follows it. -/
theorem head?_trimStart_clauseText_append (ts : List ClauseType) {s : List Char} {c : Char}
    (hc : isWord c = false) (hs : (trimStart s).head? ≠ some c) :
    (trimStart (clauseText k ts ++ s)).head? ≠ some c := by
  by_cases hts : ts = []
  · rwa [hts]
  · have hword := isWord_of_mem_clauseWords hk
    have hne := ne_nil_of_mem_clauseWords hk
    have htrim : Trimmed k := .of_forall hne fun x hx => isBlank_eq_false_of_isWord (hword x hx)
    have hstart := htrim.trimStart_space (' ' :: commaList (ts.map ClauseType.chars) ++ s)
    rw [clauseText_of_ne_nil k hts, List.append_assoc, List.cons_append, hstart]
    obtain ⟨x, xs, rfl⟩ := List.exists_cons_of_ne_nil hne
    rintro hx
    obtain rfl : x = c := Option.some.inj hx
    rw [hword x List.mem_cons_self] at hc
    cases hc

/-- A clause, if there is one, ends the names before it. -/
theorem endsNames_clauseText_append (ts : List ClauseType) {s : List Char} (hs : EndsNames s) :
    EndsNames (clauseText k ts ++ s) where
  dotted := head?_clauseText_append k ts (by decide) hs.dotted
  args := by
    by_cases hts : ts = []
    · rw [hts]
      exact hs.args
    · rw [clauseText_of_ne_nil k hts]
      simp
  comma := head?_trimStart_clauseText_append hk ts (by decide) hs.comma

/-- A clause with another keyword is passed over. -/
theorem passes_clauseText {l : List Char} (hl : l ∈ clauseWords) (hne : l ≠ k)
    (ts : List ClauseType) : Passes k (clauseText l ts) := by
  have hword := isWord_of_mem_clauseWords hk
  have hnil := ne_nil_of_mem_clauseWords hk
  intro s hs
  by_cases hts : ts = []
  · rw [hts]
    rfl
  · have htypes : ∀ a ∈ ts.map ClauseType.chars, Passes k a :=
      List.forall_mem_map.2 fun t _ => passes_type hword hnil <| t.named.mono
        fun _ ⟨d, hd, hwords⟩ => ⟨d, hd, fun w hw h => hwords w hw (h ▸ hk)⟩
    rw [clauseText_of_ne_nil l hts, List.append_assoc, List.cons_append,
      clause?_cons hword hnil (by decide), List.cons_append,
      passes_word hword hnil (isWord_of_mem_clauseWords hl) hne _ rfl,
      clause?_cons hword hnil (by decide), passes_commaList hword hnil htypes s hs]

/-- There is no clause in the opening. -/
theorem clause?_opening (opens : Bool) : clause? k false (opening opens) = none := by
  have hword := isWord_of_mem_clauseWords hk
  have hnil := ne_nil_of_mem_clauseWords hk
  cases opens with
  | false => rfl
  | true =>
    show clause? k false [' ', '{'] = none
    rw [clause?_cons hword hnil (by decide), clause?_cons hword hnil (by decide)]
    rfl

end Clause

section Names

variable {t : ClauseType}

/-- A type whose arguments are not nested is read as a whole. -/
theorem typeName?_chars (hflat : t.type.isNested = false) {s : List Char}
    (hdotted : s.head?.any isDotted = false) (hargs : s.head? ≠ some '<') :
    typeName? (t.chars ++ s) = some (t.chars, s) := by
  obtain ⟨d, hd⟩ := t.exists_dotted
  rw [ClauseType.chars]
  rcases t.type.chars_cases with ⟨-, hchars⟩ | ⟨-, hchars⟩
  · rw [hchars, ← ClauseType.base, ← hd, typeName?_append d hdotted hargs]
  · have hclose := TypeExpr.not_mem_commaList_of_not_isNested t.isName_of_mem_args hflat
    rw [hchars, ← ClauseType.base, ← hd, List.append_assoc, List.append_assoc, List.cons_append,
      List.singleton_append, typeName?_applied d hclose]

/-- A type with nested arguments takes all the names after it. -/
theorem exists_names?_of_isNested (hnested : t.type.isNested = true) (s : List Char) :
    ∃ text, names? (t.chars ++ s) = some text ∧
      ∃ p, pieces 0 text = [p] ∧ Leads t.base.toList p := by
  obtain ⟨d, hd⟩ := t.exists_dotted
  rcases t.type.chars_cases with ⟨hplain, -⟩ | ⟨-, hchars⟩
  · have hnil : t.type.args = [] := by simpa [TypeExpr.isGeneric] using hplain
    rw [TypeExpr.isNested, hnil] at hnested
    cases hnested
  · obtain ⟨u, rest, hcut, hclose, hopen⟩ :=
      TypeExpr.exists_cut_of_isNested t.isName_of_mem_args hnested
    have htext : t.chars ++ s = d.chars ++ '<' :: (u ++ '>' :: (rest ++ '>' :: s)) := by
      rw [ClauseType.chars, hchars, hcut, ← ClauseType.base, ← hd]
      simp
    -- one of the brackets that `u` opens is still open where the name ends
    obtain ⟨n, hn⟩ := Nat.exists_eq_succ_of_ne_zero (List.count_pos_iff.2 hopen).ne'
    have hpieces := TypeExpr.pieces_applied 0 d.isDottedText_chars hclose
      (moreNames (rest ++ '>' :: s))
    rw [hn, Nat.zero_add, pieces_moreNames, List.modifyHead_cons] at hpieces
    refine ⟨_, ?_, _, hpieces, ?_⟩
    · rw [names?, htext, typeName?_applied d hclose]
      rfl
    · rw [← hd, List.append_assoc, List.append_assoc, List.cons_append]
      exact .bracket _

end Names

/-- Names are found up to the first type with nested arguments, and each leads its part. -/
theorem exists_names? {s : List Char} (hs : EndsNames s) (t : ClauseType) (ts : List ClauseType) :
    ∃ text, names? (commaList ((t :: ts).map ClauseType.chars) ++ s) = some text ∧
      List.Forall₂ Leads ((ClauseType.upToNested (t :: ts)).map fun t => t.base.toList)
        (pieces 0 text) := by
  induction ts generalizing t with
  | nil =>
    rw [List.map_cons, List.map_nil, commaList_singleton]
    by_cases hnested : t.type.isNested = true
    · obtain ⟨text, htext, p, hp, hleads⟩ := exists_names?_of_isNested hnested s
      refine ⟨text, htext, ?_⟩
      rw [ClauseType.upToNested, if_pos hnested, hp]
      exact .cons hleads .nil
    · have hflat : t.type.isNested = false := by simpa using hnested
      refine ⟨t.chars, ?_, ?_⟩
      · rw [names?, typeName?_chars hflat hs.dotted hs.args]
        show some (t.chars ++ moreNames s) = _
        rw [moreNames_eq_nil hs.comma, List.append_nil]
      · rw [ClauseType.upToNested, if_neg hnested, ClauseType.chars,
          TypeExpr.pieces_whole (TypeExpr.whole_chars t.isName)]
        exact .cons (TypeExpr.leads_chars t.type) .nil
  | cons t' ts ih =>
    rw [List.map_cons, List.map_cons, commaList_cons_cons, ← List.map_cons, List.append_assoc]
    by_cases hnested : t.type.isNested = true
    · obtain ⟨text, htext, p, hp, hleads⟩ := exists_names?_of_isNested hnested _
      refine ⟨text, htext, ?_⟩
      rw [ClauseType.upToNested, if_pos hnested, hp]
      exact .cons hleads .nil
    · have hflat : t.type.isNested = false := by simpa using hnested
      obtain ⟨text, htext, hleads⟩ := ih t'
      have htrim : Trimmed (commaList ((t' :: ts).map ClauseType.chars)) :=
        trimmed_commaList (by simp) (List.forall_mem_map.2 fun t _ => t.trimmed)
      refine ⟨t.chars ++ ',' :: text,
        names?_cons (typeName?_chars hflat rfl (by simp)) (htrim.trimStart_append s) htext, ?_⟩
      rw [ClauseType.upToNested, if_neg hnested, ClauseType.chars,
        TypeExpr.pieces_append_comma (TypeExpr.whole_chars t.isName)]
      exact .cons (TypeExpr.leads_chars t.type) hleads

/-- A clause is read to its names, up to a nested type. -/
theorem clauseNames_clauseText {k : List Char} (hk : k ∈ clauseWords) (ts : List ClauseType)
    {s : List Char} (hs : EndsNames s) (hnone : clause? k false s = none) :
    clauseNames k (clauseText k ts ++ s) = (ClauseType.upToNested ts).map ClauseType.base := by
  cases ts with
  | nil =>
    show clauseNames k s = []
    rw [clauseNames, hnone]
    rfl
  | cons t ts =>
    have hword := isWord_of_mem_clauseWords hk
    have hnil := ne_nil_of_mem_clauseWords hk
    obtain ⟨text, htext, hleads⟩ := exists_names? hs t ts
    have htrim : Trimmed (commaList ((t :: ts).map ClauseType.chars)) :=
      trimmed_commaList (by simp) (List.forall_mem_map.2 fun t _ => t.trimmed)
    have hblanks : afterBlanks? (' ' :: (commaList ((t :: ts).map ClauseType.chars) ++ s)) =
        some (commaList ((t :: ts).map ClauseType.chars) ++ s) :=
      congrArg some (htrim.trimStart_append s)
    have hfound : clause? k false (clauseText k (t :: ts) ++ s) = some text := by
      obtain ⟨c, cs, hc⟩ := List.exists_cons_of_ne_nil hnil
      have hafter := after?_append k (' ' :: (commaList ((t :: ts).map ClauseType.chars) ++ s))
      rw [clauseText_of_ne_nil k (List.cons_ne_nil t ts), List.append_assoc, List.cons_append,
        clause?_cons hword hnil (by decide), List.cons_append]
      rw [hc, List.cons_append] at hafter ⊢
      rw [clause?, hafter]
      simp only [Option.bind_some, hblanks, htext]
      rfl
    have hnames := TypeExpr.map_baseName_topLevelParts
      (List.forall_mem_map.2 fun t _ => t.isDottedText_base) hleads
    rw [clauseNames, hfound, Option.elim_some]
    show (TypeExpr.topLevelParts text).map (String.ofList ∘ TypeExpr.baseName) = _
    rw [← List.map_map, hnames, List.map_map]
    exact List.map_congr_left fun t _ => String.ofList_toList

theorem clauseNames_trimStart {k : List Char} (hk : k ∈ clauseWords) (s : List Char) :
    clauseNames k (trimStart s) = clauseNames k s := by
  rw [clauseNames, clauseNames,
    clause?_trimStart (isWord_of_mem_clauseWords hk) (ne_nil_of_mem_clauseWords hk)]

/-! ## Type parameters -/

/-- Type parameters are read up to the first closing bracket. -/
theorem not_mem_takeGenerics (s : List Char) : '>' ∉ (takeGenerics s).1 := by
  unfold takeGenerics
  split
  · next t _ =>
    cases hcut : cutAt '>' t with
    | none => exact List.not_mem_nil
    | some found => exact (eq_of_cutAt hcut).2
  · exact List.not_mem_nil

/-- Without a bracket there are no generics. -/
theorem takeGenerics_of_head? {s : List Char} (hs : (trimStart s).head? ≠ some '<') :
    takeGenerics s = ([], trimStart s) := by
  unfold takeGenerics
  split
  · next heq =>
    rw [heq] at hs
    exact absurd rfl hs
  · rfl

theorem head?_parameterText_append (as : List (List Char)) {s : List Char}
    (hs : s.head?.any isWord = false) : (parameterText as ++ s).head?.any isWord = false := by
  unfold parameterText
  split
  · exact hs
  · rfl

section Parameters

variable {as : List (List Char)} (has : '>' ∉ commaList as) {s : List Char}
  (hs : (trimStart s).head? ≠ some '<')

include has hs

/-- Generics are read up to the first closing bracket. -/
theorem takeGenerics_parameterText : (takeGenerics (parameterText as ++ s)).1 = commaList as ∧
    ((takeGenerics (parameterText as ++ s)).2 = s ∨
      (takeGenerics (parameterText as ++ s)).2 = trimStart s) := by
  by_cases hnil : as = []
  · subst hnil
    show (takeGenerics s).1 = [] ∧ ((takeGenerics s).2 = s ∨ (takeGenerics s).2 = trimStart s)
    rw [takeGenerics_of_head? hs]
    exact ⟨rfl, Or.inr rfl⟩
  · have hchars : parameterText as ++ s = '<' :: (commaList as ++ '>' :: s) := by
      rw [parameterText, if_neg (by simpa using hnil)]
      simp
    have hfound : takeGenerics (parameterText as ++ s) = (commaList as, s) := by
      rw [hchars]
      show (cutAt '>' (commaList as ++ '>' :: s)).getD _ = _
      rw [cutAt_append has]
      rfl
    rw [hfound]
    exact ⟨rfl, Or.inl rfl⟩

/-- The clauses are found behind the type parameters. -/
theorem clauseNames_parameterText {k : List Char} (hk : k ∈ clauseWords) :
    clauseNames k (takeGenerics (parameterText as ++ s)).2 = clauseNames k s := by
  rcases (takeGenerics_parameterText has hs).2 with hrest | hrest
  · rw [hrest]
  · rw [hrest, clauseNames_trimStart hk]

end Parameters

/-! ## Both clauses -/

theorem endsNames_opening (opens : Bool) : EndsNames (opening opens) := by
  cases opens <;> exact ⟨rfl, by decide, by decide⟩

theorem head?_opening (opens : Bool) : (opening opens).head?.any isWord = false := by
  cases opens <;> rfl

section Clauses

variable (parents interfaces : List ClauseType) (opens : Bool)

theorem head?_clauses : (clauses parents interfaces opens).head?.any isWord = false :=
  head?_clauseText_append _ _ (by decide)
    (head?_clauseText_append _ _ (by decide) (head?_opening opens))

theorem head?_trimStart_clauses :
    (trimStart (clauses parents interfaces opens)).head? ≠ some '<' := by
  refine head?_trimStart_clauseText_append (by decide) _ (by decide)
    (head?_trimStart_clauseText_append (by decide) _ (by decide) ?_)
  cases opens <;> decide

/-- Each clause is read up to its first type with nested arguments. -/
theorem clauseNames_clauses :
    clauseNames "extends".toList (clauses parents interfaces opens) =
        (ClauseType.upToNested parents).map ClauseType.base ∧
      clauseNames "implements".toList (clauses parents interfaces opens) =
        (ClauseType.upToNested interfaces).map ClauseType.base := by
  have hends := endsNames_opening opens
  have himplements := endsNames_clauseText_append (k := "implements".toList) (by decide)
    interfaces hends
  refine ⟨clauseNames_clauseText (by decide) _ himplements ?_, ?_⟩
  · rw [passes_clauseText (by decide) (by decide) (by decide) _ _ (head?_opening opens),
      clause?_opening (by decide)]
  · have hskip := passes_clauseText (k := "implements".toList) (l := "extends".toList)
      (by decide) (by decide) (by decide) parents _
      (head?_clauseText_append "implements".toList interfaces (by decide) (head?_opening opens))
    rw [clauseNames, clauses, hskip, ← clauseNames]
    exact clauseNames_clauseText (by decide) _ hends (clause?_opening (by decide) _)

end Clauses

end Source.EntityHeader

end ClassSketch
