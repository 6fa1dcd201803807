import ClassSketch.Proofs.Namespaces

/-!
# Modules of a package

In Ruby a package becomes nested modules, one for each part of its name between
points that has a letter or digit. Whatever the name is, the modules spell these
letters and digits, case aside (`lower_moduleNames`), and they are opened and closed
at the same levels (`packageStart_eq`, `packageEnd_eq`).

The name of a module has to be a constant (`isConstant`). The letter at the front of
each word is made a capital, but a digit stays what it is. So the modules are
constants exactly if no part has a digit as the first of its letters and digits
(`forall_isConstant_moduleNames_iff`).
-/

namespace ClassSketch

open Text Layout

theorem Text.flatten_splitOnP (p : Char → Bool) (s : List Char) :
    (s.splitOnP p).flatten = s.filter fun c => !p c := by
  induction s with
  | nil => rfl
  | cons c s ih =>
    rw [List.splitOnP_cons_eq_if_modifyHead, List.filter_cons]
    cases hc : p c with
    | true => simpa using ih
    | false =>
      obtain ⟨w, ws, hws⟩ := List.exists_cons_of_ne_nil (List.splitOnP_ne_nil p s)
      rw [hws] at ih ⊢
      simpa using ih

/-- A text can be made if the widest step of its lines is possible, and only then. -/
theorem Layout.Writes.eq_ok_iff {m : Margin} {r : Spliced} {ls : Lines} (h : Writes m r ls)
    {k : Nat} (hls : ls.Within k) (hk : ∃ l ∈ ls, k ∈ l.steps) {text : String} :
    r = .ok text ↔ m.fault? k = none ∧ text = ls.render m.size := by
  constructor
  · intro hok
    obtain ⟨hpossible, heq⟩ := h.text_eq hok
    obtain ⟨l, hl, hstep⟩ := hk
    exact ⟨hpossible l hl k hstep, heq⟩
  · rintro ⟨hwidth, rfl⟩
    exact h.eq_ok (hls.possible hwidth)

namespace Target.Ruby

/-! ## Names of modules -/

/-- A capital with letters and digits behind it. -/
def isConstant : List Char → Bool
  | [] => false
  | c :: cs => c.isUpper && cs.all Char.isAlphanum

/-- The first of the letters and digits of a part, if it has any, is a letter. -/
def LetterFirst (part : List Char) : Prop :=
  (part.find? Char.isAlphanum).all Char.isAlpha = true

instance (part : List Char) : Decidable (LetterFirst part) :=
  inferInstanceAs (Decidable (_ = true))

/-- Letters and digits in lower case, for each part of a package name that has any. -/
def spellings (package : String) : List (List Char) :=
  ((package.toList.splitOn '.').map fun part => (part.filter Char.isAlphanum).map Char.toLower).filter
    (!·.isEmpty)

/-- The words of a part of a package name. -/
def moduleWords (part : List Char) : List (List Char) :=
  (part.splitOnP (!isModuleChar ·)).filter (!·.isEmpty)

/-- A part of a name is cut into words, and each starts with a capital letter. -/
theorem moduleName_eq (part : List Char) : moduleName part = (moduleWords part).flatMap capitalize :=
  rfl

/-- The words have all characters of the part that a module can have. -/
theorem flatten_moduleWords (part : List Char) :
    (moduleWords part).flatten = part.filter isModuleChar := by
  rw [moduleWords, List.flatten_filter_not_isEmpty, flatten_splitOnP]
  simp

theorem isModuleChar_of_mem_moduleWords {part word : List Char} (h : word ∈ moduleWords part) :
    ∀ c ∈ word, isModuleChar c = true := by
  intro c hc
  have hmem : c ∈ (moduleWords part).flatten := List.mem_flatten.2 ⟨word, h, hc⟩
  rw [flatten_moduleWords] at hmem
  exact (List.mem_filter.1 hmem).2

/-- Only letters have capitals, and these differ from them in case alone. -/
theorem toUpper_of_isModuleChar {c : Char} (h : isModuleChar c = true) :
    c.toUpper.isUpper = c.isAlpha ∧ c.toUpper.toLower = c.toLower :=
  of_isModuleChar (P := fun c => c.toUpper.isUpper = c.isAlpha ∧ c.toUpper.toLower = c.toLower)
    (by decide +kernel) h

/-- Up to case a word stays the same. -/
theorem map_toLower_capitalize {word : List Char} (h : ∀ c ∈ word, isModuleChar c = true) :
    (capitalize word).map Char.toLower = word.map Char.toLower := by
  cases word with
  | nil => rfl
  | cons c cs =>
    obtain ⟨-, hlower⟩ := toUpper_of_isModuleChar (h c List.mem_cons_self)
    rw [capitalize, List.map_cons, hlower, List.map_cons]

/-- Case aside, a module is called by the letters and digits of its part. -/
theorem lower_moduleName (part : List Char) :
    (moduleName part).map Char.toLower = (part.filter Char.isAlphanum).map Char.toLower := by
  have hwords : part.filter Char.isAlphanum = (moduleWords part).flatten :=
    (flatten_moduleWords part).symm
  rw [hwords, List.map_flatten, moduleName_eq, List.map_flatMap, List.flatMap_def]
  exact congrArg List.flatten (List.map_congr_left fun word hword =>
    map_toLower_capitalize (isModuleChar_of_mem_moduleWords hword))

/-- The first letter or digit of a part, made a capital, is the first one of its module. -/
theorem head?_moduleName (part : List Char) :
    (moduleName part).head? = (part.find? Char.isAlphanum).map Char.toUpper := by
  have hfind : part.find? Char.isAlphanum = (moduleWords part).flatten.head? := by
    rw [flatten_moduleWords, List.head?_filter]
    rfl
  rw [hfind, moduleName_eq]
  cases hwords : moduleWords part with
  | nil => rfl
  | cons word words =>
    have hne : word ≠ [] := by
      have hmem : word ∈ moduleWords part := hwords ▸ List.mem_cons_self
      simpa using (List.mem_filter.1 hmem).2
    obtain ⟨c, cs, rfl⟩ := List.exists_cons_of_ne_nil hne
    rfl

/-- A module is a constant exactly if its part starts with a letter. -/
theorem isConstant_moduleName_iff (part : List Char) :
    (moduleName part ≠ [] → isConstant (moduleName part) = true) ↔ LetterFirst part := by
  have hhead := head?_moduleName part
  have hchars := isModuleChar_of_mem_moduleName part
  unfold LetterFirst
  cases hname : moduleName part with
  | nil =>
    rw [hname, List.head?_nil, eq_comm, Option.map_eq_none_iff] at hhead
    simp [hhead]
  | cons x xs =>
    rw [hname, List.head?_cons, eq_comm, Option.map_eq_some_iff] at hhead
    obtain ⟨c, hfind, rfl⟩ := hhead
    obtain ⟨hupper, -⟩ := toUpper_of_isModuleChar (List.find?_some hfind)
    have htail : xs.all Char.isAlphanum = true :=
      List.all_eq_true.2 fun y hy => hchars y (hname ▸ List.mem_cons_of_mem _ hy)
    simp [isConstant, hfind, hupper, htail]

section Names

variable (package : String)

/-- Up to case the modules are the spellings of the parts. -/
theorem lower_moduleNames :
    (moduleNames package).map (fun m => m.toList.map Char.toLower) =
      if (spellings package).isEmpty then ["package".toList] else spellings package := by
  have hempty : (fun name : List Char => !name.isEmpty) ∘ List.map Char.toLower =
      fun name => !name.isEmpty :=
    funext fun name => by rw [Function.comp_apply, List.isEmpty_map]
  have hspellings : spellings package =
      (((package.toList.splitOn '.').map moduleName).filter (!·.isEmpty)).map
        (List.map Char.toLower) := by
    rw [← hempty, ← List.filter_map, List.map_map, spellings]
    exact congrArg _ (List.map_congr_left fun part _ => (lower_moduleName part).symm)
  rw [hspellings, List.isEmpty_map, moduleNames]
  split
  · decide
  · simp

/-- All modules are constants exactly if every part starts with a letter. -/
theorem forall_isConstant_moduleNames_iff :
    (∀ m ∈ moduleNames package, isConstant m.toList = true) ↔
      ∀ part ∈ package.toList.splitOn '.', LetterFirst part := by
  have hparts : (∀ part ∈ package.toList.splitOn '.', LetterFirst part) ↔
      ∀ name ∈ ((package.toList.splitOn '.').map moduleName).filter (!·.isEmpty),
        isConstant name = true := by
    simp [← isConstant_moduleName_iff]
  rw [hparts, moduleNames]
  split
  · next hnone =>
    rw [List.isEmpty_iff.1 hnone]
    decide
  · simp only [List.forall_mem_map, String.toList_ofList]

end Names

/-! ## Lines around a package -/

/-- A line moved in by some levels at once. -/
def movedLine (text : String) (level : Nat) : Line :=
  { steps := [level], text }

theorem nestBy_ofText {text : String} (h : '\n' ∉ text.toList) (level : Nat) :
    (Lines.ofText text).nestBy level = [movedLine text level] := by
  simp [Lines.ofText, splitText, splitOn_of_not_mem h, Lines.nestBy, movedLine]

/-- The modules are opened each one level deeper. -/
theorem packageStart_eq (package : String) :
    packageStart package = (moduleNames package).mapIdx fun i m => movedLine ("module " ++ m) i := by
  rw [packageStart, List.mapIdx_eq_zipIdx_map, List.map_eq_flatMap]
  refine List.flatMap_congr fun p hp => ?_
  have hword := isWordText_moduleNames package p.1 (List.fst_mem_of_mem_zipIdx hp)
  exact nestBy_ofText (flushLine_module hword).feed p.2

/-- And closed each one level less deep. -/
theorem packageEnd_eq (package : String) :
    packageEnd package =
      ((List.range (moduleNames package).length).map (movedLine "end")).reverse ++ Lines.blank := by
  rw [packageEnd, ← List.map_reverse, List.map_eq_flatMap]
  exact congrArg (· ++ Lines.blank) (List.flatMap_congr fun i _ => nestBy_ofText (by decide) i)

theorem render_movedLine (size : Int) {text : String} (h : text ≠ "") (level : Nat) :
    (movedLine text level).render size = spaces (level * size) ++ text := by
  have hlevel : (movedLine text level).level = level := Nat.add_zero level
  rw [Line.render, hlevel]
  exact if_neg h

/-- No line is moved in further than to its level. -/
theorem within_movedLine {text : String} {level k : Nat} (h : level ≤ k) :
    ∀ n ∈ (movedLine text level).steps, n ≤ k :=
  fun _ hn => List.mem_singleton.1 hn ▸ h

section Texts

variable (package : String) {m : Margin} {text : String}

/-- The text is written exactly if the deepest module has a possible margin. -/
theorem packageStartText_eq_ok_iff :
    packageStartText m package = .ok text ↔
      m.fault? ((moduleNames package).length - 1 : Nat) = none ∧
      text = String.join ((moduleNames package).mapIdx fun i name =>
        spaces (i * m.size) ++ "module " ++ name ++ "\n") := by
  have hpos := List.length_pos_iff.2 (moduleNames_ne_nil package)
  have hrender : (packageStart package).render m.size =
      String.join ((moduleNames package).mapIdx fun i name =>
        spaces (i * m.size) ++ "module " ++ name ++ "\n") := by
    have hname : ∀ name : String, "module " ++ name ≠ "" := fun name h =>
      absurd (String.append_eq_empty_iff.1 h).1 (by decide)
    rw [packageStart_eq, Lines.render, List.mapIdx_eq_zipIdx_map, List.mapIdx_eq_zipIdx_map,
      List.map_map]
    refine congrArg String.join (List.map_congr_left fun p _ => ?_)
    rw [Function.comp_apply, render_movedLine m.size (hname p.1), ← String.append_assoc]
  rw [← hrender]
  refine (writes_packageStartText package).eq_ok_iff ?_ ?_
  · intro l hl
    rw [packageStart_eq] at hl
    obtain ⟨i, hi, rfl⟩ := List.mem_mapIdx.1 hl
    exact within_movedLine (Nat.le_sub_one_of_lt hi)
  · rw [packageStart_eq]
    exact ⟨_, List.mem_mapIdx.2 ⟨_, Nat.sub_one_lt_of_lt hpos, rfl⟩, List.mem_singleton_self _⟩

/-- The same for the text that closes. -/
theorem packageEndText_eq_ok_iff :
    packageEndText m package = .ok text ↔
      m.fault? ((moduleNames package).length - 1 : Nat) = none ∧
      text = String.join ((List.range (moduleNames package).length).map fun i : Nat =>
        spaces (i * m.size) ++ "end\n").reverse ++ "\n" := by
  have hpos := List.length_pos_iff.2 (moduleNames_ne_nil package)
  have hrender : (packageEnd package).render m.size =
      String.join ((List.range (moduleNames package).length).map fun i : Nat =>
        spaces (i * m.size) ++ "end\n").reverse ++ "\n" := by
    have hblank : Lines.render m.size Lines.blank = "\n" := by
      simp [Lines.render, Lines.blank, Line.render, padLine]
    have hline : ∀ i, (movedLine "end" i).render m.size ++ "\n" = spaces (i * m.size) ++ "end\n" :=
      fun i => by rw [render_movedLine m.size (by decide), String.append_assoc]; rfl
    rw [packageEnd_eq, Lines.render_append, hblank, Lines.render, List.map_reverse, List.map_map]
    simp only [Function.comp_def, hline]
  rw [← hrender]
  refine (writes_packageEndText package).eq_ok_iff ?_ ?_
  · rw [packageEnd_eq]
    refine Lines.within_append.2 ⟨fun l hl => ?_, Lines.within_blank⟩
    obtain ⟨i, hi, rfl⟩ := List.mem_map.1 (List.mem_reverse.1 hl)
    exact within_movedLine (Nat.le_sub_one_of_lt (List.mem_range.1 hi))
  · rw [packageEnd_eq]
    refine ⟨movedLine "end" ((moduleNames package).length - 1), List.mem_append_left _ ?_,
      List.mem_singleton_self _⟩
    exact List.mem_reverse.2 (List.mem_map_of_mem (List.mem_range.2 (Nat.sub_one_lt_of_lt hpos)))

end Texts

/-- A package has at least one module. The modules spell its name, case and signs aside, and are
constants exactly if no part of the name has a digit as the first of its letters and digits.
They are opened one inside the other, each a level further in, and closed at the same levels in
reverse order, whenever the deepest level is of a possible width. -/
theorem modules_of_package (package : String) :
    let ms := moduleNames package
    0 < ms.length ∧
    ms.map (fun m => m.toList.map Char.toLower) =
      (if (spellings package).isEmpty then ["package".toList] else spellings package) ∧
    ((∀ m ∈ ms, isConstant m.toList = true) ↔
      ∀ part ∈ package.toList.splitOn '.', LetterFirst part) ∧
    ∀ (m : Margin) (text : String),
      (packageStartText m package = .ok text ↔
        m.fault? (ms.length - 1 : Nat) = none ∧
        text = String.join (ms.mapIdx fun i name =>
          spaces (i * m.size) ++ "module " ++ name ++ "\n")) ∧
      (packageEndText m package = .ok text ↔
        m.fault? (ms.length - 1 : Nat) = none ∧
        text = String.join ((List.range ms.length).map fun i : Nat =>
          spaces (i * m.size) ++ "end\n").reverse ++ "\n") := by
  refine ⟨List.length_pos_iff.2 (moduleNames_ne_nil package), lower_moduleNames package,
    forall_isConstant_moduleNames_iff package, fun m text => ?_⟩
  exact ⟨packageStartText_eq_ok_iff package, packageEndText_eq_ok_iff package⟩

/-- A name with an empty part, a sign and a digit inside a part, and a part without letters of
ASCII. -/
theorem modules_of_package_signs :
    (∀ m ∈ moduleNames "com..my_shop2.é", isConstant m.toList = true) ∧
    packageStartText ⟨3, 100⟩ "com..my_shop2.é" = .ok "module Com\n   module MyShop2\n" ∧
    packageEndText ⟨3, 100⟩ "com..my_shop2.é" = .ok "   end\nend\n\n" := by
  obtain ⟨-, -, hconstant, htexts⟩ := modules_of_package "com..my_shop2.é"
  refine ⟨hconstant.2 ?_, (htexts ⟨3, 100⟩ _).1.2 ?_, (htexts ⟨3, 100⟩ _).2.2 ?_⟩
  all_goals decide +kernel

/-- The module of a package that is called by a number is no constant. -/
theorem number_as_module :
    (Reading.ofText "package \"2\" \x7b\nclass A\n\x7d").diagram.packages = [("2", ["A"])] ∧
    moduleNames "2" = ["2"] ∧
    packageStartText ⟨2, 100⟩ "2" = .ok "module 2\n" ∧
    ¬∀ m ∈ moduleNames "2", isConstant m.toList = true := by
  decide +kernel

end Target.Ruby

end ClassSketch
