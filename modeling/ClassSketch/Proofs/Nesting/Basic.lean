import ClassSketch.Proofs.Lines.Spelling
import ClassSketch.Proofs.Tokens

/-!
# Well-nested braces

A text is well nested when no part at its front closes more braces than it
opens, and the whole text closes as many as it opens (`WellNested`). One scan
decides this : `nesting` counts the open braces and gives up at a closing brace
without a partner. A scan may start at any depth. What leads from depth `a` to
depth `b` leads from `a + n` to `b + n` as well (`nesting_add`), and texts in a
row are scanned one after the other (`nesting_append`), so that a text is scanned
part by part.

`Nested` says that a text leads from no open brace back to none. It holds of a
text without braces and of nested texts put together. For lines of code,
`Lines.Leads a b` says that their texts lead from depth `a` to depth `b` and that
no line was moved in by more than one level at once; `Neat` lines lead from 0 to
0. Neat lines in braces are neat (`Neat.surround`), and the spaces and line feeds
of the rendering do not count (`nesting_render`).
-/

namespace ClassSketch

namespace Text

/-! ## Scanning for braces -/

/-- The number of open braces after one more character, none if it closes a brace
that is not open. -/
def braceStep (n : Nat) (c : Char) : Option Nat :=
  if c = '{' then some (n + 1)
  else if c = '}' then (if n = 0 then none else some (n - 1))
  else some n

/-- The number of open braces after a text, when `n` are open before. -/
def nesting (n : Nat) (s : List Char) : Option Nat :=
  s.foldlM braceStep n

/-- No part at the front closes more braces than it opens, and all are closed in the end. -/
structure WellNested (s : List Char) : Prop where
  closed_le : ∀ t, t <+: s → t.count '}' ≤ t.count '{'
  closed_eq : s.count '{' = s.count '}'

theorem nesting_cons (n : Nat) (c : Char) (s : List Char) :
    nesting n (c :: s) = (braceStep n c).bind (nesting · s) :=
  rfl

/-- Nesting is counted from left to right. -/
theorem nesting_append (n : Nat) (s t : List Char) :
    nesting n (s ++ t) = (nesting n s).bind (nesting · t) :=
  List.foldlM_append

theorem braceStep_add {a b : Nat} {c : Char} (h : braceStep a c = some b) (n : Nat) :
    braceStep (a + n) c = some (b + n) := by
  unfold braceStep at h ⊢
  split_ifs at h ⊢ <;> grind

/-- What is nested at one depth is nested at any greater depth. -/
theorem nesting_add {a b : Nat} {s : List Char} (h : nesting a s = some b) (n : Nat) :
    nesting (a + n) s = some (b + n) := by
  induction s generalizing a with
  | nil =>
    cases h
    rfl
  | cons c s ih =>
    obtain ⟨m, hc, hs⟩ := Option.bind_eq_some_iff.1 h
    rw [nesting_cons, braceStep_add hc, Option.bind_some, ih hs]

/-- Each step of the count is one brace. -/
theorem count_of_braceStep {a b : Nat} {c : Char} (h : braceStep a c = some b) (s : List Char) :
    a + (c :: s).count '{' + s.count '}' = b + s.count '{' + (c :: s).count '}' := by
  unfold braceStep at h
  simp only [List.count_cons, beq_iff_eq]
  split_ifs at h <;> grind

/-- Every brace is counted, up or down. -/
theorem count_of_nesting {a b : Nat} {s : List Char} (h : nesting a s = some b) :
    a + s.count '{' = b + s.count '}' := by
  induction s generalizing a with
  | nil =>
    cases h
    rfl
  | cons c s ih =>
    obtain ⟨m, hc, hs⟩ := Option.bind_eq_some_iff.1 h
    have hstep := count_of_braceStep hc s
    have hrest := ih hs
    omega

/-- A text whose count starts and ends at zero is nested well. -/
theorem wellNested_of_nesting {s : List Char} (h : nesting 0 s = some 0) : WellNested s where
  closed_le := by
    rintro t ⟨u, rfl⟩
    rw [nesting_append] at h
    obtain ⟨m, ht, -⟩ := Option.bind_eq_some_iff.1 h
    have hcount := count_of_nesting ht
    omega
  closed_eq := by
    have hcount := count_of_nesting h
    omega

/-! ## Texts without braces -/

/-- A text without braces. -/
def Unbraced (s : List Char) : Prop :=
  ∀ c ∈ s, c ≠ '{' ∧ c ≠ '}'

/-- Without braces the depth stays. -/
theorem Unbraced.nesting_eq {s : List Char} (h : Unbraced s) (n : Nat) : nesting n s = some n := by
  induction s with
  | nil => rfl
  | cons c s ih =>
    obtain ⟨hc, hs⟩ := List.forall_mem_cons.1 h
    rw [nesting_cons, braceStep, if_neg hc.1, if_neg hc.2, Option.bind_some, ih hs]

theorem nesting_unbraced_append {s : List Char} (h : Unbraced s) (n : Nat) (t : List Char) :
    nesting n (s ++ t) = nesting n t := by
  rw [nesting_append, h.nesting_eq, Option.bind_some]

theorem nesting_append_unbraced (n : Nat) (s : List Char) {t : List Char} (h : Unbraced t) :
    nesting n (s ++ t) = nesting n s := by
  rw [nesting_append, funext fun m => h.nesting_eq m, Option.bind_fun_some]

theorem unbraced_of_isBlank {s : List Char} (h : ∀ c ∈ s, isBlank c = true) : Unbraced s :=
  fun c hc => ne_brace_of_isBlank (h c hc)

/-- Blanks at the ends have no braces. -/
theorem nesting_trim (n : Nat) (s : List Char) : nesting n (trim s) = nesting n s := by
  have hend : ∀ t, nesting n (trimEnd t) = nesting n t := by
    intro t
    induction t using List.reverseRecOn with
    | nil => rfl
    | append_singleton t c ih =>
      rw [trimEnd_snoc]
      split
      · next hc =>
        have hblank : Unbraced [c] := unbraced_of_isBlank (List.forall_mem_singleton.2 hc)
        rw [ih, nesting_append_unbraced n t hblank]
      · rfl
  obtain ⟨bs, hs, hbs, -⟩ := exists_trimStart s
  rw [trim, hend]
  conv_rhs => rw [hs, nesting_unbraced_append (unbraced_of_isBlank hbs)]

/-- What is put between texts does not count if it has no braces. -/
theorem nesting_intercalate {sep : List Char} (h : Unbraced sep) (n : Nat)
    (ss : List (List Char)) : nesting n (sep.intercalate ss) = nesting n ss.flatten := by
  induction ss generalizing n with
  | nil => rfl
  | cons s ss ih =>
    cases ss with
    | nil => simp
    | cons t ts =>
      simp only [List.intercalate_cons_cons, List.append_assoc, List.flatten_cons (l := s),
        nesting_append n s, nesting_unbraced_append h, ih]

/-! ## Nested texts -/

/-- A text that leaves no brace open and closes none before it. -/
def Nested (s : String) : Prop :=
  nesting 0 s.toList = some 0

namespace Nested

/-- A nested text leaves any depth as it is. -/
theorem nesting_eq {s : String} (h : Nested s) (n : Nat) : nesting n s.toList = some n := by
  have hadd := nesting_add h n
  rwa [Nat.zero_add] at hadd

/-- A written-out text, scanned as it stands. -/
theorem literal {s : List Char} (h : nesting 0 s = some 0) : Nested (String.ofList s) := by
  rwa [Nested, String.toList_ofList]

theorem of_unbraced {s : List Char} (h : Unbraced s) : Nested (String.ofList s) :=
  literal (h.nesting_eq 0)

theorem append {s t : String} (hs : Nested s) (ht : Nested t) : Nested (s ++ t) := by
  rw [Nested, String.toList_append, nesting_append, hs, Option.bind_some, ht]

theorem ite {p : Prop} [Decidable p] {s t : String} (hs : Nested s) (ht : Nested t) :
    Nested (if p then s else t) := by
  split
  · exact hs
  · exact ht

theorem elim {α : Type*} {o : Option α} {f : α → String} (h : ∀ a ∈ o, Nested (f a)) :
    Nested (o.elim "" f) := by
  cases o with
  | none => exact literal rfl
  | some a => exact h a rfl

theorem trimmed {s : String} (h : Nested s) : Nested (String.ofList (trim s.toList)) :=
  literal ((nesting_trim 0 s.toList).trans h)

/-- Nested texts may have any text without braces between them. -/
theorem intercalate {sep : String} {ss : List String} (hsep : Unbraced sep.toList)
    (h : ∀ s ∈ ss, Nested s) : Nested (sep.intercalate ss) := by
  rw [Nested, String.toList_intercalate, nesting_intercalate hsep]
  induction ss with
  | nil => rfl
  | cons s ss ih =>
    obtain ⟨hs, hss⟩ := List.forall_mem_cons.1 h
    rw [List.map_cons, List.flatten_cons, nesting_append, hs, Option.bind_some, ih hss]

theorem digits (n : Nat) : Nested (toString n) := by
  have hdigits : Unbraced (Nat.toDigits 10 n) := by
    intro c hc
    have hdigit := Nat.isDigit_of_mem_toDigits (by decide) (by decide) hc
    constructor <;> rintro rfl <;> exact absurd hdigit (by decide)
  rw [Nested, Nat.toString_eq_repr, Nat.toList_repr, hdigits.nesting_eq]

end Nested

end Text

open Text Layout

/-! ## Lines -/

namespace Layout

/-- The texts of lines, one after the other. -/
def Lines.chars (ls : Lines) : List Char :=
  ls.flatMap (·.text.toList)

theorem chars_ofText (s : String) : (Lines.ofText s).chars = (s.toList.splitOn '\n').flatten := by
  simp [Lines.chars, Lines.ofText, splitText, List.flatMap_def, Function.comp_def]

/-- Cutting a text into lines loses no brace. -/
theorem nesting_ofText (n : Nat) (s : String) :
    nesting n (Lines.ofText s).chars = nesting n s.toList := by
  have hbreak : Unbraced ['\n'] := List.forall_mem_singleton.2 (by decide)
  rw [chars_ofText, ← nesting_intercalate hbreak, List.intercalate_splitOn]

theorem chars_nest (ls : Lines) : ls.nest.chars = ls.chars := by
  simp [Lines.chars, Lines.nest, Lines.nestBy, List.flatMap_map]

/-- A margin adds no brace. -/
theorem nesting_lineRender (n : Nat) (size : Int) (l : Line) :
    nesting n (l.render size ++ "\n").toList = nesting n l.text.toList := by
  have hbreak : Unbraced "\n".toList := List.forall_mem_singleton.2 (by decide)
  have hspaces : Unbraced (spaces (l.level * size)).toList := by
    intro c hc
    rw [spaces, String.toList_ofList] at hc
    rw [List.eq_of_mem_replicate hc]
    decide
  rw [String.toList_append, nesting_append_unbraced n _ hbreak, Line.render, padLine]
  split
  · rfl
  · rw [String.toList_append, nesting_unbraced_append hspaces]

/-- The spaces and line feeds of the rendering do not count. -/
theorem nesting_render (n : Nat) (size : Int) (ls : Lines) :
    nesting n (ls.render size).toList = nesting n ls.chars := by
  rw [Lines.render, String.toList_join, List.flatMap_map, Lines.chars]
  induction ls generalizing n with
  | nil => rfl
  | cons l ls ih =>
    simp only [List.flatMap_cons, nesting_append, nesting_lineRender, ih]

/-- Lines that lead from one number of open braces to another, none of them moved in
by more than a level at once. -/
structure Lines.Leads (a b : Nat) (ls : Lines) : Prop where
  nesting_eq : nesting a ls.chars = some b
  step_le : ∀ l ∈ ls, ∀ n ∈ l.steps, n ≤ 1

/-- Depths add up from block to block. -/
theorem Lines.Leads.append {a b c : Nat} {ls ms : Lines} (hls : ls.Leads a b) (hms : ms.Leads b c) :
    (ls ++ ms).Leads a c where
  nesting_eq := by
    rw [Lines.chars, List.flatMap_append, nesting_append]
    exact (congrArg (Option.bind · _) hls.nesting_eq).trans hms.nesting_eq
  step_le := List.forall_mem_append.2 ⟨hls.step_le, hms.step_le⟩

theorem Lines.Leads.deepen {a b : Nat} {ls : Lines} (h : ls.Leads a b) (n : Nat) :
    ls.Leads (a + n) (b + n) :=
  ⟨nesting_add h.nesting_eq n, h.step_le⟩

theorem Lines.Leads.nest {a b : Nat} {ls : Lines} (h : ls.Leads a b) : ls.nest.Leads a b where
  nesting_eq := (congrArg _ (chars_nest ls)).trans h.nesting_eq
  step_le := by
    refine List.forall_mem_map.2 fun l hl => ?_
    exact List.forall_mem_cons.2 ⟨Nat.le_refl 1, h.step_le l hl⟩

/-- A text leads from one depth to another as its braces do. -/
theorem leads_ofText {a b : Nat} {s : String} (h : nesting a s.toList = some b) :
    (Lines.ofText s).Leads a b where
  nesting_eq := (nesting_ofText a s).trans h
  step_le := List.forall_mem_map.2 fun _ _ => List.forall_mem_nil _

/-- Lines that close the braces that they open, and no others. -/
def Neat (ls : Lines) : Prop :=
  ls.Leads 0 0

namespace Neat

variable {ls ms : Lines}

theorem nil : Neat [] :=
  ⟨rfl, List.forall_mem_nil _⟩

/-- Neat blocks may follow each other. -/
theorem append (hls : Neat ls) (hms : Neat ms) : Neat (ls ++ ms) :=
  Lines.Leads.append hls hms

theorem ite {p : Prop} [Decidable p] (hls : Neat ls) (hms : Neat ms) :
    Neat (if p then ls else ms) := by
  split
  · exact hls
  · exact hms

theorem flatMap {α : Type*} {f : α → Lines} {as : List α} (h : ∀ a ∈ as, Neat (f a)) :
    Neat (as.flatMap f) := by
  induction as with
  | nil => exact nil
  | cons a as ih =>
    obtain ⟨ha, has⟩ := List.forall_mem_cons.1 h
    exact ha.append (ih has)

theorem ofText {s : String} (h : Nested s) : Neat (Lines.ofText s) :=
  leads_ofText h

theorem ofTexts {ss : List String} (h : ∀ s ∈ ss, Nested s) : Neat (Lines.ofTexts ss) :=
  flatMap fun s hs => ofText (h s hs)

theorem blank : Neat Lines.blank :=
  ⟨rfl, List.forall_mem_singleton.2 (List.forall_mem_nil _)⟩

theorem nest (h : Neat ls) : Neat ls.nest :=
  Lines.Leads.nest h

/-- Neat paragraphs have only blank lines between them. -/
theorem paragraphs {bs : List Lines} (h : ∀ b ∈ bs, Neat b) : Neat (Lines.paragraphs bs) := by
  induction bs with
  | nil => exact nil
  | cons b bs ih =>
    obtain ⟨hb, hbs⟩ := List.forall_mem_cons.1 h
    cases bs with
    | nil =>
      rw [Lines.paragraphs, List.intercalate_singleton]
      exact hb
    | cons c cs =>
      rw [Lines.paragraphs, List.intercalate_cons_cons]
      exact (hb.append blank).append (ih hbs)

/-- Lines between some that open a brace and some that close it. -/
theorem surround {before after : Lines} (hbefore : before.Leads 0 1) (h : Neat ls)
    (hafter : after.Leads 1 0) : Neat (before ++ ls ++ after) :=
  (hbefore.append (Lines.Leads.deepen h 1)).append hafter

end Neat

end Layout

/-! ## Text shapes -/

namespace Target

/-- An opening brace behind a nested text leaves one brace open. -/
theorem nesting_openBrace {s : String} (h : Nested s) :
    nesting 0 (s ++ openBrace).toList = some 1 := by
  rw [String.toList_append, nesting_append, h.nesting_eq]
  rfl

theorem nested_words {ws : List String} (h : ∀ w ∈ ws, Nested w) : Nested (words ws) :=
  .intercalate (List.forall_mem_singleton.2 (by decide)) fun w hw => h w (List.mem_filter.1 hw).1

theorem nested_commas {ws : List String} (h : ∀ w ∈ ws, Nested w) : Nested (commas ws) :=
  .intercalate (forall_mem_of_all rfl) h

theorem nested_wordIf {b : Bool} {w : String} (h : Nested w) : Nested (wordIf b w) :=
  .ite h (.literal rfl)

theorem nested_typeParams {names : List String} (h : ∀ n ∈ names, Nested n) :
    Nested (typeParams names) :=
  .ite (.literal rfl) (((Nested.literal rfl).append (nested_commas h)).append (.literal rfl))

theorem nested_append_braces {s t : String} (hs : Nested s) (ht : Nested t) :
    Nested (s ++ openBrace ++ t ++ closeBrace) := by
  rw [Nested, String.toList_append, String.toList_append, nesting_append, nesting_append,
    nesting_openBrace hs, Option.bind_some, ht.nesting_eq]
  rfl

/-- Items with commas behind them are nested as before. -/
theorem nested_commaLines {last : String} (hlast : Nested last) {ws : List String}
    (h : ∀ w ∈ ws, Nested w) : ∀ s ∈ commaLines last ws, Nested s := by
  fun_induction commaLines last ws with
  | case1 => exact h
  | case2 a => exact List.forall_mem_singleton.2 ((h a List.mem_cons_self).append hlast)
  | case3 a b rest ih =>
    obtain ⟨ha, hrest⟩ := List.forall_mem_cons.1 h
    exact List.forall_mem_cons.2 ⟨ha.append (.literal rfl), ih hrest⟩

theorem nested_numbered {first : Nat} {f : String → String → String} {values : List String}
    (h : ∀ v ∈ values, ∀ n, Nested n → Nested (f v n)) :
    ∀ s ∈ numbered first f values, Nested s := by
  refine List.forall_mem_map.2 fun vi hvi => h vi.1 ?_ _ (.digits vi.2)
  exact List.fst_mem_of_mem_zipIdx hvi

/-- A line that ends with the brace it opens. -/
theorem leads_openBrace {s : String} (h : Nested s) : (Lines.ofText (s ++ openBrace)).Leads 0 1 :=
  leads_ofText (nesting_openBrace h)

/-- A neat body between braces is neat. -/
theorem neat_braced {head : String} {body : Lines} (hhead : Nested head) (hbody : Neat body) :
    Neat (braced head body) :=
  .surround (leads_openBrace (hhead.append (.literal rfl))) hbody.nest (leads_ofText rfl)

theorem neat_bracedBelow {head : String} {body : Lines} (hhead : Nested head) (hbody : Neat body) :
    Neat (bracedBelow head body) :=
  .surround ((leads_ofText hhead).append (leads_ofText rfl)) hbody.nest (leads_ofText rfl)

theorem neat_starComment {texts : List String} (h : ∀ s ∈ texts, Nested s) :
    Neat (starComment texts) := by
  refine ((Neat.ofText (.literal rfl)).append (.ofTexts ?_)).append (.ofText (.literal rfl))
  exact List.forall_mem_map.2 fun s hs => Nested.append (.literal rfl) (h s hs)

theorem neat_of_mem_block {ls : Lines} (h : Neat ls) : ∀ b ∈ block ls, Neat b := by
  unfold block
  split
  · exact List.forall_mem_nil _
  · exact List.forall_mem_singleton.2 h

end Target

end ClassSketch
