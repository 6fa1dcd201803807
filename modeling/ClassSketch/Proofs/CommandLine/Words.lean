import Mathlib.Data.List.Basic
import ClassSketch.CommandLine.Request
import ClassSketch.Proofs.Scan

/-!
# Ways to write a switch

A switch is written as it is spelled or, if it is long, cut short where it stays
unique (`Spells`). What is attached to it stands behind `=` or behind its letter
(`Opening`) : its value, or the letters of more switches (`Joined`). `Word` lists the
switches of an argument, with the value attached to the last of them. An argument
that calls for no switch may be a value (`IsValue`).

This is how an argument is read, and there is no other way : `word_iff` says so for
switches and `classify_eq_operand_iff` for values. Both rest on the same cases
(`classify_cases`) : one switch is found (`Finds`), none, or several.
-/

namespace ClassSketch.CommandLine

open Text

/-- The spellings that a text is the front of. -/
def startedBy (stem : List Char) : List (List Char × Switch) :=
  Switch.table.filter fun e => stem.isPrefixOf e.1

/-- A spelling of a switch, or the front of a long one that is the front of no other. -/
inductive Spells (s : Switch) (stem : List Char) : Prop where
  | full (h : (stem, s) ∈ Switch.table)
  | cut {sp : List Char} (hlong : "--".toList <+: stem) (h : startedBy stem = [(sp, s)])

/-- A stem, and behind `=` what is attached to it. -/
def withAttached (stem : List Char) : Option (List Char) → List Char
  | none => stem
  | some v => stem ++ '=' :: v

/-- A switch at the front of an argument, and what is attached to it, behind `=` or
behind the letter. -/
inductive Opening : List Char → Switch → Option (List Char) → Prop where
  | spelled {stem : List Char} {s : Switch} (h : Spells s stem) (att : Option (List Char)) :
      Opening (withAttached stem att) s att
  | letter {c : Char} {s : Switch} {rest : List Char} (h : (['-', c], s) ∈ Switch.table)
      (hne : rest ≠ []) (hequals : rest.head? ≠ some '=') :
      Opening ('-' :: c :: rest) s (some rest)

/-- A switch without a value and the letters joined to it : the switches before the last,
the last one, and what is attached to that. -/
inductive Joined : Switch → List Char → List Switch → Switch → Option (List Char) → Prop where
  | last {s last : Switch} {c : Char} (hflag : s.takesValue = false)
      (h : (['-', c], last) ∈ Switch.table) : Joined s [c] [s] last none
  | value {s last : Switch} {c : Char} {v : List Char} (hflag : s.takesValue = false)
      (h : (['-', c], last) ∈ Switch.table) (hvalue : last.takesValue = true) (hv : v ≠ []) :
      Joined s (c :: v) [s] last (some v)
  | more {s next last : Switch} {c : Char} {cs : List Char} {flags : List Switch}
      {v : Option (List Char)} (hflag : s.takesValue = false)
      (h : (['-', c], next) ∈ Switch.table) (hrest : Joined next cs flags last v) :
      Joined s (c :: cs) (s :: flags) last v

/-- An argument with its switches, and what is attached to the last of them. -/
inductive Word : List Char → List Switch → Switch → Option (List Char) → Prop where
  | alone {arg : List Char} {s : Switch} (h : Opening arg s none) : Word arg [] s none
  | value {arg v : List Char} {s : Switch} (h : Opening arg s (some v))
      (hvalue : s.takesValue = true) : Word arg [] s (some v)
  | letters {arg text : List Char} {s last : Switch} {flags : List Switch}
      {v : Option (List Char)} (h : Opening arg s (some text)) (hshort : ¬"--".toList <+: arg)
      (hjoined : Joined s text flags last v) : Word arg flags last v

/-- Whether an argument calls for a spelling : as a long one up to its `=`, or by its
letter. -/
def CallsFor (arg sp : List Char) : Prop :=
  if "--".toList <+: arg then arg.takeWhile (· ≠ '=') <+: sp else sp = arg.take 2

/-- A value : it starts with no dash, is only a dash, or is a negative number or has a
space and calls for no switch. -/
def IsValue (arg : List Char) : Prop :=
  arg.head? ≠ some '-' ∨ arg = ['-'] ∨
    ((isNegativeNumber arg = true ∨ ' ' ∈ arg) ∧ ∀ e ∈ Switch.table, ¬CallsFor arg e.1)

/-! ## Spellings -/

variable {sp stem arg : List Char} {s : Switch}

/-- What every spelling looks like. -/
structure IsSpelling (sp : List Char) (s : Switch) : Prop where
  found : Switch.ofSpelling? sp = some s
  dash : sp.head? = some '-'
  noEquals : '=' ∉ sp
  length : "--".toList <+: sp ∧ 2 < sp.length ∨ ¬"--".toList <+: sp ∧ sp.length = 2
  alone : Switch.table.filter (fun e => e.1 = sp) = [(sp, s)]

theorem isSpelling_of_mem_table (h : (sp, s) ∈ Switch.table) : IsSpelling sp s := by
  have hall : ∀ e ∈ Switch.table, Switch.ofSpelling? e.1 = some e.2 ∧ e.1.head? = some '-' ∧
      '=' ∉ e.1 ∧ ("--".toList <+: e.1 ∧ 2 < e.1.length ∨ ¬"--".toList <+: e.1 ∧ e.1.length = 2) ∧
      Switch.table.filter (fun d => d.1 = e.1) = [e] := by
    decide
  obtain ⟨hfound, hdash, hequals, hlength, halone⟩ := hall (sp, s) h
  exact ⟨hfound, hdash, hequals, hlength, halone⟩

/-- A spelling stands for the switch that the table has for it. -/
theorem ofSpelling?_eq_some_iff : Switch.ofSpelling? sp = some s ↔ (sp, s) ∈ Switch.table := by
  refine ⟨fun h => ?_, fun h => (isSpelling_of_mem_table h).found⟩
  obtain ⟨l, r, heq, -⟩ := List.lookup_eq_some_iff.1 h
  rw [heq]
  simp

/-- No spelling has an equals sign in it. -/
theorem not_mem_equals (h : (sp, s) ∈ Switch.table) : '=' ∉ sp :=
  (isSpelling_of_mem_table h).noEquals

/-- Every argument is a stem, with a value attached to it or without one. -/
theorem exists_withAttached (arg : List Char) :
    ∃ stem att, '=' ∉ stem ∧ arg = withAttached stem att := by
  by_cases h : '=' ∈ arg
  · obtain ⟨stem, v, heq, hstem⟩ := List.eq_append_cons_of_mem h
    exact ⟨stem, some v, hstem, heq⟩
  · exact ⟨arg, none, h, rfl⟩

/-- A value is attached behind the first equals sign. -/
theorem cutAt_withAttached (h : '=' ∉ stem) (att : Option (List Char)) :
    cutAt '=' (withAttached stem att) = att.map fun v => (stem, v) := by
  cases att with
  | none => exact cutAt_eq_none_iff.2 h
  | some v => exact cutAt_append h v

/-- Stem and value are told apart. -/
theorem withAttached_injective {a a' : List Char} {att att' : Option (List Char)} (ha : '=' ∉ a)
    (ha' : '=' ∉ a') (h : withAttached a att = withAttached a' att') : a = a' ∧ att = att' := by
  have hcut := cutAt_withAttached ha att
  rw [h, cutAt_withAttached ha' att'] at hcut
  cases att <;> cases att' <;> cases hcut
  · exact ⟨h, rfl⟩
  · exact ⟨rfl, rfl⟩

theorem dashes_withAttached {att : Option (List Char)} :
    "--".toList <+: withAttached stem att ↔ "--".toList <+: stem := by
  cases att with
  | none => rfl
  | some v =>
    refine ⟨fun h => ?_, fun h => h.trans (List.prefix_append _ _)⟩
    match stem, h with
    | [], h => simp [withAttached] at h
    | [c], h => simp [withAttached] at h
    | c :: d :: stem, h => simpa [withAttached] using h

/-! ## Candidates -/

/-- An argument is spelled out if its stem is in the table. -/
theorem spelledOut?_eq_some_iff {c : Candidate} : spelledOut? arg = some c ↔
    arg = withAttached c.spelling c.attached ∧ (c.spelling, c.switch) ∈ Switch.table := by
  obtain ⟨s, sp, att⟩ := c
  constructor
  · intro h
    unfold spelledOut? at h
    split at h
    · next hs =>
      cases h
      exact ⟨rfl, ofSpelling?_eq_some_iff.1 hs⟩
    · obtain ⟨⟨sp', v⟩, hcut, hsp⟩ := Option.bind_eq_some_iff.1 h
      obtain ⟨s', hs, heq⟩ := Option.map_eq_some_iff.1 hsp
      cases heq
      exact ⟨(eq_of_cutAt hcut).1, ofSpelling?_eq_some_iff.1 hs⟩
  · rintro ⟨rfl, hmem⟩
    have hs := ofSpelling?_eq_some_iff.2 hmem
    cases att with
    | none => simp only [spelledOut?, withAttached, hs]
    | some v =>
      have hnone : Switch.ofSpelling? (withAttached sp (some v)) = none := by
        refine Option.eq_none_iff_forall_ne_some.2 fun s' hs' => ?_
        exact not_mem_equals (ofSpelling?_eq_some_iff.1 hs') (by simp [withAttached])
      rw [spelledOut?, hnone, cutAt_withAttached (not_mem_equals hmem)]
      simp [hs]

theorem spelledOut?_withAttached (h : (sp, s) ∈ Switch.table) (att : Option (List Char)) :
    spelledOut? (withAttached sp att) = some ⟨s, sp, att⟩ :=
  spelledOut?_eq_some_iff.2 ⟨rfl, h⟩

/-- The candidates for a long argument are those which its stem starts. -/
theorem candidates_long (hlong : "--".toList <+: stem) (h : '=' ∉ stem) (att : Option (List Char)) :
    candidates (withAttached stem att) = (startedBy stem).map fun e => ⟨e.2, e.1, att⟩ := by
  rw [candidates, if_pos (List.isPrefixOf_iff_prefix.2 (dashes_withAttached.2 hlong)),
    longCandidates, cutAt_withAttached h, startedBy, ← List.filterMap_eq_map,
    List.filterMap_filter]
  cases att <;> rfl

/-- No spelling but that of its letter starts with a short argument. -/
theorem candidates_short {c : Char} (hc : c ≠ '-') (rest : List Char) :
    candidates ('-' :: c :: rest) =
      (Switch.table.filter fun e => e.1 = ['-', c]).map fun e => ⟨e.2, e.1, some rest⟩ := by
  rw [candidates, if_neg (by simp [Ne.symm hc]), shortCandidates, ← List.filterMap_eq_map,
    List.filterMap_filter]
  refine List.filterMap_congr fun e he => ?_
  obtain ⟨sp, s⟩ := e
  by_cases hsp : sp = ['-', c]
  · simp [hsp]
  · have hfront : ¬('-' :: c :: rest) <+: sp := by
      intro hfront
      obtain ⟨t, rfl⟩ := hfront
      rcases (isSpelling_of_mem_table he).length with ⟨hlong, -⟩ | ⟨-, hlength⟩
      · exact hc (by simpa [eq_comm] using hlong)
      · simp at hlength
        simp [hlength] at hsp
    simp [hsp, hfront, List.isPrefixOf_iff_prefix]

/-- A dash with something behind it. -/
def Dashed (arg : List Char) : Prop :=
  ∃ c rest, arg = '-' :: c :: rest

/-- What has no dash in front, and a dash alone, is no switch. -/
theorem not_dashed_iff : ¬Dashed arg ↔ arg.head? ≠ some '-' ∨ arg = ['-'] := by
  unfold Dashed
  match arg with
  | [] => simp
  | [c] => simp [Decidable.not_or_self]
  | d :: c :: rest => simp

/-- A dashed argument has two dashes in front, or one and a letter. -/
theorem Dashed.long_or_short (h : Dashed arg) :
    (∃ stem att, "--".toList <+: stem ∧ '=' ∉ stem ∧ arg = withAttached stem att) ∨
      ∃ c rest, c ≠ '-' ∧ arg = '-' :: c :: rest := by
  obtain ⟨c, rest, rfl⟩ := h
  by_cases hc : c = '-'
  · obtain ⟨stem, att, hstem, heq⟩ := exists_withAttached ('-' :: c :: rest)
    have hlong : "--".toList <+: withAttached stem att := by
      rw [← heq]
      simp [hc]
    exact Or.inl ⟨stem, att, dashes_withAttached.1 hlong, hstem, heq⟩
  · exact Or.inr ⟨c, rest, hc, rfl⟩

/-- What an argument with a dash is read as : the switch that is spelled out, or else the only
candidate. -/
def Finds (arg : List Char) (c : Candidate) : Prop :=
  spelledOut? arg = some c ∨ spelledOut? arg = none ∧ candidates arg = [c]

theorem Spells.not_mem_equals (h : Spells s stem) : '=' ∉ stem := by
  cases h with
  | full h => exact CommandLine.not_mem_equals h
  | cut _ h =>
    obtain ⟨hmem, hfront⟩ := List.mem_filter.1 (h ▸ List.mem_singleton_self _)
    intro hstem
    exact CommandLine.not_mem_equals hmem ((List.isPrefixOf_iff_prefix.1 hfront).subset hstem)

/-- A spelling stands for its own switch, whatever else it starts. -/
theorem Spells.eq_of_mem_table {s' : Switch} (h : Spells s stem)
    (hmem : (stem, s') ∈ Switch.table) : s' = s := by
  cases h with
  | full h =>
    have hsame := (isSpelling_of_mem_table hmem).found.symm.trans (isSpelling_of_mem_table h).found
    exact Option.some.inj hsame
  | cut _ h =>
    have hfront : (stem, s') ∈ startedBy stem :=
      List.mem_filter.2 ⟨hmem, List.isPrefixOf_iff_prefix.2 List.prefix_rfl⟩
    rw [h, List.mem_singleton] at hfront
    cases hfront
    rfl

theorem Spells.dashed (h : Spells s stem) : Dashed stem := by
  cases h with
  | full h =>
    obtain ⟨-, hhead, -, hlength, -⟩ := isSpelling_of_mem_table h
    match stem with
    | [] => cases hhead
    | [c] => simp at hlength
    | d :: c :: rest =>
      cases hhead
      exact ⟨c, rest, rfl⟩
  | cut hlong h =>
    obtain ⟨t, rfl⟩ := hlong
    exact ⟨'-', t, rfl⟩

/-- A stem that spells a switch finds it, with any value attached. -/
theorem Spells.exists_finds (h : Spells s stem) (att : Option (List Char)) :
    ∃ sp, Finds (withAttached stem att) ⟨s, sp, att⟩ := by
  cases hout : spelledOut? (withAttached stem att) with
  | some c =>
    -- The stem may be cut short and still be a spelling; then both are of one switch.
    obtain ⟨heq, hmem⟩ := spelledOut?_eq_some_iff.1 hout
    have hsp := CommandLine.not_mem_equals hmem
    obtain ⟨rfl, rfl⟩ := withAttached_injective h.not_mem_equals hsp heq
    obtain rfl := h.eq_of_mem_table hmem
    exact ⟨c.spelling, Or.inl hout⟩
  | none =>
    cases h with
    | full h => cases hout.symm.trans (spelledOut?_withAttached h att)
    | @cut sp hlong h =>
      have hmem := (Spells.cut hlong h).not_mem_equals
      refine ⟨sp, Or.inr ⟨hout, ?_⟩⟩
      rw [candidates_long hlong hmem, h]
      rfl

theorem letter_ne_dash {c : Char} (h : (['-', c], s) ∈ Switch.table) : c ≠ '-' := by
  rintro rfl
  have hlength := (isSpelling_of_mem_table h).length
  simp at hlength

/-- A letter with something behind it is not spelled out, but with `=`. -/
theorem spelledOut?_letter {c : Char} (hc : c ≠ '-') {rest : List Char} (hne : rest ≠ [])
    (hequals : rest.head? ≠ some '=') : spelledOut? ('-' :: c :: rest) = none := by
  refine Option.eq_none_iff_forall_ne_some.2 fun found hfound => ?_
  obtain ⟨heq, hmem⟩ := spelledOut?_eq_some_iff.1 hfound
  rcases (isSpelling_of_mem_table hmem).length with ⟨hlong, -⟩ | ⟨-, hlength⟩
  · have hdashes : "--".toList <+: '-' :: c :: rest := heq ▸ dashes_withAttached.2 hlong
    exact hc (by simpa [eq_comm] using hdashes)
  · obtain ⟨a, b, hsp⟩ := List.length_eq_two.1 hlength
    rw [hsp] at heq
    cases hatt : found.attached with
    | none => simp [hatt, withAttached, hne] at heq
    | some v =>
      simp only [hatt, withAttached, List.cons_append, List.nil_append, List.cons.injEq] at heq
      exact hequals (by rw [heq.2.2]; rfl)

/-- What is written behind a letter is its value. -/
theorem finds_letter {c : Char} {rest : List Char} (h : (['-', c], s) ∈ Switch.table)
    (hne : rest ≠ []) (hequals : rest.head? ≠ some '=') :
    Finds ('-' :: c :: rest) ⟨s, ['-', c], some rest⟩ := by
  have hc := letter_ne_dash h
  refine Or.inr ⟨spelledOut?_letter hc hne hequals, ?_⟩
  rw [candidates_short hc, (isSpelling_of_mem_table h).alone]
  rfl

/-- A single candidate opens its switch. -/
theorem opening_of_candidates (hdash : Dashed arg) {c : Candidate} (hnone : spelledOut? arg = none)
    (hcand : candidates arg = [c]) :
    Opening arg c.switch c.attached ∧ ("--".toList <+: c.spelling ↔ "--".toList <+: arg) := by
  rcases hdash.long_or_short with ⟨stem, att, hlong, hstem, rfl⟩ | ⟨x, rest, hx, rfl⟩
  · rw [candidates_long hlong hstem, List.map_eq_singleton_iff] at hcand
    obtain ⟨⟨sp, s⟩, hstarted, rfl⟩ := hcand
    obtain ⟨-, hfront⟩ := List.mem_filter.1 (hstarted ▸ List.mem_singleton_self _)
    have hsp := hlong.trans (List.isPrefixOf_iff_prefix.1 hfront)
    exact ⟨.spelled (.cut hlong hstarted) att, iff_of_true hsp (dashes_withAttached.2 hlong)⟩
  · rw [candidates_short hx, List.map_eq_singleton_iff] at hcand
    obtain ⟨⟨sp, s⟩, hfilter, rfl⟩ := hcand
    obtain ⟨hmem, hsp⟩ := List.mem_filter.1 (hfilter ▸ List.mem_singleton_self _)
    obtain rfl : sp = ['-', x] := of_decide_eq_true hsp
    refine ⟨.letter hmem ?_ ?_, by simp⟩
    -- A letter alone or before `=` would have been spelled out.
    · rintro rfl
      cases hnone.symm.trans (spelledOut?_withAttached hmem none)
    · intro hhead
      obtain ⟨v, rfl⟩ := List.head?_eq_some_iff.1 hhead
      cases hnone.symm.trans (spelledOut?_withAttached hmem (some v))

/-- Whatever is found opens its switch, and is long if the argument is. -/
theorem opening_of_finds (hdash : Dashed arg) {c : Candidate} (h : Finds arg c) :
    Opening arg c.switch c.attached ∧
      "--".toList.isPrefixOf c.spelling = "--".toList.isPrefixOf arg := by
  rw [Bool.eq_iff_iff, List.isPrefixOf_iff_prefix, List.isPrefixOf_iff_prefix]
  rcases h with hout | ⟨hnone, hcand⟩
  · obtain ⟨rfl, hmem⟩ := spelledOut?_eq_some_iff.1 hout
    exact ⟨.spelled (.full hmem) _, dashes_withAttached.symm⟩
  · exact opening_of_candidates hdash hnone hcand

theorem Opening.dashed {att : Option (List Char)} (h : Opening arg s att) : Dashed arg := by
  cases h with
  | spelled h att =>
    obtain ⟨c, rest, rfl⟩ := h.dashed
    exact ⟨c, withAttached rest att, by cases att <;> rfl⟩
  | letter => exact ⟨_, _, rfl⟩

/-- Conversely, a switch that an argument opens is found. -/
theorem Opening.exists_finds {att : Option (List Char)} (h : Opening arg s att) :
    ∃ sp, Finds arg ⟨s, sp, att⟩ := by
  cases h with
  | spelled h att => exact h.exists_finds att
  | letter h hne hequals => exact ⟨_, finds_letter h hne hequals⟩

/-! ## Reading an argument -/

theorem classify_eq_operand {arg : String} (h : ¬Dashed arg.toList) :
    classify arg = .ok .operand := by
  rw [classify, if_pos (not_dashed_iff.1 h)]

theorem Finds.classify {arg : String} {c : Candidate} (h : Finds arg.toList c)
    (hdash : Dashed arg.toList) : classify arg = .ok c.role := by
  rw [CommandLine.classify, if_neg fun hplain => not_dashed_iff.2 hplain hdash]
  rcases h with hout | ⟨hnone, hcand⟩
  · rw [hout]
  · rw [hnone, hcand]

/-- A dashed argument finds a switch, has no candidate, or is refused. -/
theorem classify_cases {arg : String} (hdash : Dashed arg.toList) :
    (∃ c, Finds arg.toList c) ∨
      (candidates arg.toList = [] ∧ classify arg =
        .ok (if isNegativeNumber arg.toList || ' ' ∈ arg.toList then .operand else .unknown)) ∨
      (candidates arg.toList ≠ [] ∧ ∃ f, classify arg = .error f) := by
  rw [classify, if_neg fun hplain => not_dashed_iff.2 hplain hdash]
  cases hout : spelledOut? arg.toList with
  | some c => exact Or.inl ⟨c, Or.inl hout⟩
  | none =>
    match hcand : candidates arg.toList with
    | [] => exact Or.inr (Or.inl ⟨rfl, rfl⟩)
    | [c] => exact Or.inl ⟨c, Or.inr ⟨hout, hcand⟩⟩
    | c :: d :: more => exact Or.inr (Or.inr ⟨nofun, _, rfl⟩)

/-- An argument has the role of a switch exactly if it opens one. -/
theorem classify_eq_switch_iff {arg : String} {isLong : Bool} {att : Option (List Char)} :
    classify arg = .ok (.switch s isLong att) ↔
      Opening arg.toList s att ∧ isLong = "--".toList.isPrefixOf arg.toList := by
  constructor
  · intro h
    have hdash : Dashed arg.toList := by
      by_contra hplain
      cases h.symm.trans (classify_eq_operand hplain)
    rcases classify_cases hdash with ⟨c, hfinds⟩ | ⟨-, hother⟩ | ⟨-, f, hfault⟩
    · obtain ⟨hopening, hlong⟩ := opening_of_finds hdash hfinds
      cases h.symm.trans (hfinds.classify hdash)
      exact ⟨hopening, hlong⟩
    · rw [hother] at h
      split at h <;> cases h
    · cases h.symm.trans hfault
  · rintro ⟨h, rfl⟩
    obtain ⟨sp, hfinds⟩ := h.exists_finds
    obtain ⟨-, hlong⟩ := opening_of_finds h.dashed hfinds
    rw [hfinds.classify h.dashed, Candidate.role, hlong]

theorem takeWhile_withAttached (h : '=' ∉ stem) (att : Option (List Char)) :
    (withAttached stem att).takeWhile (· ≠ '=') = stem := by
  have hall : ∀ c ∈ stem, decide (c ≠ '=') = true := fun c hc =>
    decide_eq_true fun heq => h (heq ▸ hc)
  cases att with
  | none => exact List.takeWhile_eq_self_iff.2 hall
  | some v =>
    rw [withAttached, List.takeWhile_append_of_pos hall, List.takeWhile_cons_of_neg (by simp),
      List.append_nil]

/-- There is no candidate exactly if the argument calls for no spelling of the table. -/
theorem candidates_eq_nil_iff (hdash : Dashed arg) :
    candidates arg = [] ↔ ∀ e ∈ Switch.table, ¬CallsFor arg e.1 := by
  unfold CallsFor
  rcases hdash.long_or_short with ⟨stem, att, hlong, hstem, rfl⟩ | ⟨x, rest, hx, rfl⟩
  · rw [candidates_long hlong hstem, List.map_eq_nil_iff, startedBy, List.filter_eq_nil_iff]
    simp only [if_pos (dashes_withAttached.2 hlong), takeWhile_withAttached hstem,
      List.isPrefixOf_iff_prefix]
  · have hshort : ¬"--".toList <+: '-' :: x :: rest := by simp [Ne.symm hx]
    rw [candidates_short hx, List.map_eq_nil_iff, List.filter_eq_nil_iff]
    simp only [if_neg hshort, decide_eq_true_eq, List.take_succ_cons, List.take_zero]

theorem callsFor_withAttached (h : (sp, s) ∈ Switch.table) (att : Option (List Char)) :
    CallsFor (withAttached sp att) sp := by
  unfold CallsFor
  split
  · exact ⟨[], by rw [List.append_nil, takeWhile_withAttached (not_mem_equals h)]⟩
  · next hshort =>
    rw [dashes_withAttached] at hshort
    rcases (isSpelling_of_mem_table h).length with ⟨hlong, -⟩ | ⟨-, hlength⟩
    · exact absurd hlong hshort
    · cases att with
      | none => rw [withAttached, List.take_of_length_le hlength.le]
      | some v => rw [withAttached, ← hlength, List.take_left]

theorem Finds.candidates_ne_nil {c : Candidate} (h : Finds arg c) (hdash : Dashed arg) :
    candidates arg ≠ [] := by
  rcases h with hout | ⟨-, hcand⟩
  · obtain ⟨rfl, hmem⟩ := spelledOut?_eq_some_iff.1 hout
    exact fun hnil => (candidates_eq_nil_iff hdash).1 hnil _ hmem (callsFor_withAttached hmem _)
  · rw [hcand]
    exact List.cons_ne_nil _ _

/-- An argument has the role of an operand exactly if it can be a value. -/
theorem classify_eq_operand_iff {arg : String} :
    classify arg = .ok .operand ↔ IsValue arg.toList := by
  by_cases hdash : Dashed arg.toList
  · have hvalue : IsValue arg.toList ↔
        (isNegativeNumber arg.toList = true ∨ ' ' ∈ arg.toList) ∧ candidates arg.toList = [] := by
      rw [candidates_eq_nil_iff hdash, IsValue, ← or_assoc, ← not_dashed_iff]
      exact or_iff_right (not_not_intro hdash)
    rw [hvalue]
    rcases classify_cases hdash with ⟨c, hfinds⟩ | ⟨hnil, hother⟩ | ⟨hsome, f, hfault⟩
    · rw [hfinds.classify hdash]
      exact iff_of_false (fun h => by cases h) fun h => hfinds.candidates_ne_nil hdash h.2
    · have hany : (isNegativeNumber arg.toList || ' ' ∈ arg.toList) = true ↔
          isNegativeNumber arg.toList = true ∨ ' ' ∈ arg.toList := by simp
      rw [hother, ← hany]
      split
      · next hyes => exact iff_of_true rfl ⟨hyes, hnil⟩
      · next hno => exact iff_of_false (fun h => by cases h) fun h => hno h.1
    · rw [hfault]
      exact iff_of_false (fun h => by cases h) fun h => hsome h.2
  · refine iff_of_true (classify_eq_operand hdash) ?_
    exact (not_dashed_iff.1 hdash).imp_right Or.inl

/-! ## Joined letters -/

theorem Joined.ne_nil {s last : Switch} {text : List Char} {flags : List Switch}
    {v : Option (List Char)} (h : Joined s text flags last v) : text ≠ [] := by
  cases h <;> exact List.cons_ne_nil _ _

theorem joined_of_takesValue (h : s.takesValue = true) (isLong : Bool) (text : List Char) :
    joined s isLong text = .ok ([], s, some text) := by
  unfold joined
  rw [if_pos h]

theorem joined_cons_cons {s next : Switch} {c d : Char} (hflag : s.takesValue = false)
    (h : (['-', c], next) ∈ Switch.table) (cs : List Char) : joined s false (c :: d :: cs) =
      (joined next false (d :: cs)).map fun (flags, last, value) => (s :: flags, last, value) := by
  conv_lhs => unfold joined
  simp [hflag, ofSpelling?_eq_some_iff.2 h]

/-- Flags that are written together are taken apart. -/
theorem Joined.joined_eq {s last : Switch} {text : List Char} {flags : List Switch}
    {v : Option (List Char)} (h : Joined s text flags last v) :
    joined s false text = .ok (flags, last, v) := by
  induction h with
  | last hflag h => simp [joined, hflag, ofSpelling?_eq_some_iff.2 h]
  | @value s last c v hflag h hvalue hv =>
    obtain ⟨d, v, rfl⟩ := List.exists_cons_of_ne_nil hv
    rw [joined_cons_cons hflag h, joined_of_takesValue hvalue]
    rfl
  | @more s next last c cs flags v hflag h hrest ih =>
    obtain ⟨d, cs, rfl⟩ := List.exists_cons_of_ne_nil hrest.ne_nil
    rw [joined_cons_cons hflag h, ih]
    rfl

/-- Conversely, what is taken apart was written together : the induction is on the letters. -/
theorem joined_of_eq_ok {s last : Switch} {isLong : Bool} {text : List Char} {flags : List Switch}
    {v : Option (List Char)} (h : joined s isLong text = .ok (flags, last, v))
    (hflag : s.takesValue = false) : isLong = false ∧ Joined s text flags last v := by
  induction text generalizing s isLong flags with
  | nil => simp [joined, hflag] at h
  | cons c cs ih =>
    cases isLong with
    | true => simp [joined, hflag] at h
    | false =>
      refine ⟨rfl, ?_⟩
      cases hnext : Switch.ofSpelling? ['-', c] with
      | none => simp [joined, hflag, hnext] at h
      | some next =>
        have hmem := ofSpelling?_eq_some_iff.1 hnext
        cases cs with
        | nil =>
          simp only [joined, hflag, hnext] at h
          cases h
          exact .last hflag hmem
        | cons d cs =>
          rw [joined_cons_cons hflag hmem] at h
          cases hrest : joined next false (d :: cs) with
          | error f =>
            rw [hrest] at h
            cases h
          | ok found =>
            rw [hrest] at h
            cases h
            cases hvalue : next.takesValue with
            | true =>
              cases hrest.symm.trans (joined_of_takesValue hvalue _ _)
              exact .value hflag hmem hvalue (List.cons_ne_nil d cs)
            | false => exact .more hflag hmem (ih hrest hvalue).2

/-- A word is a switch that is taken apart without a fault. -/
theorem word_iff {arg : String} {flags : List Switch} {last : Switch}
    {v : Option (List Char)} : Word arg.toList flags last v ↔
      ∃ s isLong att, classify arg = .ok (.switch s isLong att) ∧
        takeApart s isLong att = .ok (flags, last, v) := by
  constructor
  · intro h
    cases h with
    | alone h => exact ⟨_, _, _, classify_eq_switch_iff.2 ⟨h, rfl⟩, rfl⟩
    | value h hvalue =>
      exact ⟨_, _, _, classify_eq_switch_iff.2 ⟨h, rfl⟩, joined_of_takesValue hvalue _ _⟩
    | letters h hshort hjoined =>
      refine ⟨_, false, _, classify_eq_switch_iff.2 ⟨h, ?_⟩, hjoined.joined_eq⟩
      exact (Bool.eq_false_iff.2 fun hlong => hshort (List.isPrefixOf_iff_prefix.1 hlong)).symm
  · rintro ⟨s, isLong, att, hclassify, hapart⟩
    obtain ⟨hopening, rfl⟩ := classify_eq_switch_iff.1 hclassify
    cases att with
    | none =>
      cases hapart
      exact .alone hopening
    | some text =>
      cases hs : s.takesValue with
      | true =>
        rw [takeApart, joined_of_takesValue hs] at hapart
        cases hapart
        exact .value hopening hs
      | false =>
        obtain ⟨hshort, hjoined⟩ := joined_of_eq_ok hapart hs
        refine .letters hopening (fun hlong => ?_) hjoined
        rw [List.isPrefixOf_iff_prefix.2 hlong] at hshort
        cases hshort

end ClassSketch.CommandLine
