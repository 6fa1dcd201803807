import Mathlib.Data.List.Induction
import ClassSketch.Proofs.CommandLine.Words

/-!
# What arguments ask for

Arguments give options one after another, each with its value (`Given`). What they
ask for is read off this list : the last value of each option counts
(`Request.ofGiven`), in whatever order and however they are written. `Asks` is this
relation, without a word about how arguments are classified and consumed.
`ofArgs_eq_ok_iff` says that arguments are understood exactly if they ask for
something.
-/

namespace ClassSketch.CommandLine

open Text

/-- Options with their values, empty for those without. -/
abbrev Settings := List (Switch × String)

/-- Switches without values. -/
def flagSettings (flags : List Switch) : Settings :=
  flags.map fun s => (s, "")

/-- The options that arguments give, in order. -/
inductive Given : List String → Settings → Prop where
  | nil : Given [] []
  | attached {arg : String} {v : List Char} {flags : List Switch} {s : Switch}
      {args : List String} {gs : Settings} (hword : Word arg.toList flags s (some v))
      (h : Given args gs) : Given (arg :: args) (flagSettings flags ++ (s, String.ofList v) :: gs)
  | apart {arg v : String} {flags : List Switch} {s : Switch} {args : List String} {gs : Settings}
      (hword : Word arg.toList flags s none) (hvalue : s.takesValue = true)
      (hv : IsValue v.toList) (h : Given args gs) :
      Given (arg :: v :: args) (flagSettings flags ++ (s, v) :: gs)
  | flag {arg : String} {flags : List Switch} {s : Switch} {args : List String} {gs : Settings}
      (hword : Word arg.toList flags s none) (hflag : s.takesValue = false) (h : Given args gs) :
      Given (arg :: args) (flagSettings flags ++ (s, "") :: gs)

/-- The option has an effect : it does not ask for help, and an indent is a number or a
dropped value. -/
def IsEffective (s : Switch) (v : String) : Prop :=
  s ≠ .help ∧ (s = .indent → v = "--" ∨ ∃ n, Numeral.read v.toList = .ok n)

namespace Settings

/-- The last value that is given for an option. -/
def value? (gs : Settings) (s : Switch) : Option String :=
  (gs.filter (·.1 = s)).getLast?.map (·.2)

/-- The last text that is given for an option; two dashes are dropped. -/
def text (gs : Settings) (s : Switch) : String :=
  match gs.value? s with
  | some v => if v = "--" then "" else v
  | none => ""

def indent (gs : Settings) : IndentArg :=
  match gs.value? .indent with
  | none => .absent
  | some v =>
    if v = "--" then .dropped
    else match Numeral.read v.toList with
      | .ok n => .number n
      | .error _ => .absent

end Settings

/-- What options ask for : the last value of each of them counts. -/
def Request.ofGiven (gs : Settings) : Request where
  input := gs.text .input
  output := gs.text .output
  language := gs.text .language
  indent := gs.indent
  supertypesFirst := (gs.value? .supertypesFirst).isSome
  listLanguages := (gs.value? .listLanguages).isSome
  verbose := (gs.value? .verbose).isSome

/-- The arguments ask for `q` : the options that they give all have an effect, and the
last value of each of them counts. -/
def Asks (args : List String) (q : Request) : Prop :=
  ∃ gs, Given args gs ∧ (∀ g ∈ gs, IsEffective g.1 g.2) ∧ q = Request.ofGiven gs

/-! ## The effect of options -/

/-- The effect of options, one after another. -/
def Settings.applyTo (gs : Settings) (r : Request) : Except Halt Request :=
  gs.foldlM (fun r g => r.apply g.1 g.2) r

/-- Settings are applied from left to right. -/
theorem Settings.applyTo_append (gs hs : Settings) (r : Request) :
    Settings.applyTo (gs ++ hs) r = (gs.applyTo r).bind hs.applyTo := by
  unfold Settings.applyTo
  rw [List.foldlM_append]
  rfl

/-- A word applies its flags, and then its last switch with a value. -/
theorem applyAll_eq (r : Request) (flags : List Switch) (last : Switch) (value : String) :
    r.applyAll flags last value = Settings.applyTo (flagSettings flags ++ [(last, value)]) r := by
  induction flags generalizing r with
  | nil =>
    simp [Request.applyAll, flagSettings, Settings.applyTo]
  | cons s flags ih =>
    rw [Request.applyAll, flagSettings, List.map_cons, List.cons_append, Settings.applyTo,
      List.foldlM_cons]
    cases hs : r.apply s "" with
    | error h => rfl
    | ok r' => exact ih r'

theorem Settings.value?_snoc (gs : Settings) (s t : Switch) (v : String) :
    Settings.value? (gs ++ [(t, v)]) s = if t = s then some v else gs.value? s := by
  unfold Settings.value?
  rw [List.filter_append]
  split
  · next h => simp [h]
  · next h => simp [h]

theorem Settings.text_snoc (gs : Settings) (s t : Switch) (v : String) :
    Settings.text (gs ++ [(t, v)]) s = if t = s then if v = "--" then "" else v else gs.text s := by
  unfold Settings.text
  rw [Settings.value?_snoc]
  by_cases h : t = s
  · simp [h]
  · simp [h]

theorem Settings.indent_snoc_of_ne (gs : Settings) {t : Switch} (h : t ≠ .indent) (v : String) :
    Settings.indent (gs ++ [(t, v)]) = gs.indent := by
  unfold Settings.indent
  rw [Settings.value?_snoc, if_neg h]

/-- A size of the indent is set exactly if it is a number, or nothing. -/
theorem setIndent_eq_ok_iff {gs : Settings} {v : String} {q : Request} :
    (Request.ofGiven gs).setIndent v = .ok q ↔
      IsEffective .indent v ∧ q = Request.ofGiven (gs ++ [(.indent, v)]) := by
  unfold IsEffective Request.setIndent
  split
  · next hv =>
    simp [Request.ofGiven, Settings.text_snoc, Settings.value?_snoc, Settings.indent, hv, eq_comm]
  · next hv =>
    cases hread : Numeral.read v.toList with
    | ok n =>
      simp [Request.ofGiven, Settings.text_snoc, Settings.value?_snoc, Settings.indent, hv, hread,
        eq_comm]
    | error f => simp [hv]

/-- A request stays the one of the settings given so far, as long as each is effective. -/
theorem apply_ofGiven_eq_ok_iff {gs : Settings} {s : Switch} {v : String} {q : Request} :
    (Request.ofGiven gs).apply s v = .ok q ↔
      IsEffective s v ∧ q = Request.ofGiven (gs ++ [(s, v)]) := by
  cases s with
  | indent => exact setIndent_eq_ok_iff
  | help => simp [Request.apply, IsEffective]
  | _ =>
    simp [Request.apply, IsEffective, Request.ofGiven, Settings.text_snoc, Settings.value?_snoc,
      Settings.indent_snoc_of_ne, eq_comm]

/-- Settings make a request exactly if each of them is effective, and they make one only. -/
theorem applyTo_eq_ok_iff {gs : Settings} {q : Request} :
    gs.applyTo {} = .ok q ↔ (∀ g ∈ gs, IsEffective g.1 g.2) ∧ q = Request.ofGiven gs := by
  induction gs using List.reverseRecOn generalizing q with
  | nil =>
    have hstart : Settings.applyTo [] {} = .ok (Request.ofGiven []) := rfl
    simp [hstart, eq_comm]
  | append_singleton gs g ih =>
    rw [Settings.applyTo_append, List.forall_mem_append, List.forall_mem_singleton]
    cases hgs : Settings.applyTo gs {} with
    | error h =>
      refine iff_of_false (fun heq => by cases heq) fun heq => ?_
      cases hgs.symm.trans (ih.2 ⟨heq.1.1, rfl⟩)
    | ok r =>
      obtain ⟨heffective, rfl⟩ := ih.1 hgs
      have hlast : Settings.applyTo [g] (Request.ofGiven gs) =
          (Request.ofGiven gs).apply g.1 g.2 := by
        simp [Settings.applyTo]
      rw [Except.bind, hlast, apply_ofGiven_eq_ok_iff, and_iff_right heffective]

/-! ## Reading all arguments -/

/-- Operands that are left over stay left over. -/
theorem consume_left {r q : Request} {left left' : List String} {roles : List (String × Role)}
    (h : consume r left roles = .ok (q, left')) : left <+: left' := by
  fun_induction consume r left roles with
  | case1 =>
    cases h
    exact List.prefix_rfl
  | case4 r left arg s isLong att args flags last v happart r' happly ih => exact ih h
  | case6 r left arg s isLong att flags last happart hvalue v args r' happly ih => exact ih h
  | case9 r left arg s isLong att args flags last happart hflag r' happly ih => exact ih h
  | case10 r left arg role args hrole ih => exact (List.prefix_append left [arg]).trans (ih h)
  | _ => cases h

theorem eq_nil_of_classifyAll {args : List String} (h : classifyAll args = .ok []) : args = [] := by
  cases args with
  | nil => rfl
  | cons arg args =>
    unfold classifyAll at h
    split at h
    · cases h
    · split at h
      · cases h
      · cases hargs : classifyAll args with
        | error f => simp [hargs, Except.map] at h
        | ok roles => simp [hargs, Except.map] at h

/-- Roles are given to the arguments one by one, up to a separator. -/
theorem exists_of_classifyAll {args : List String} {arg : String} {role : Role}
    {roles : List (String × Role)} (h : classifyAll args = .ok ((arg, role) :: roles))
    (hrole : role ≠ .separator) :
    ∃ rest, args = arg :: rest ∧ classify arg = .ok role ∧ classifyAll rest = .ok roles := by
  cases args with
  | nil => cases h
  | cons first rest =>
    unfold classifyAll at h
    split at h
    · cases h
      exact absurd rfl hrole
    · split at h
      · cases h
      · next role' hfirst =>
        cases hrest : classifyAll rest with
        | error f => simp [hrest, Except.map] at h
        | ok roles' =>
          rw [hrest] at h
          cases h
          exact ⟨rest, rfl, hfirst, hrest⟩

/-- The options before a rest, and the rest. -/
theorem applyTo_eq_ok {r r' q : Request} {flags : List Switch} {last : Switch} {v : String}
    {gs : Settings} (happly : r.applyAll flags last v = .ok r') (hgs : gs.applyTo r' = .ok q) :
    Settings.applyTo (flagSettings flags ++ (last, v) :: gs) r = .ok q := by
  rw [List.append_cons, Settings.applyTo_append, ← applyAll_eq, happly]
  exact hgs

/-- Arguments that are consumed without rest give settings. The induction is on the roles, as the
reader consumes a switch together with its value. -/
theorem exists_given_of_consume {args : List String} {roles : List (String × Role)}
    {r q : Request} {left : List String} (hroles : classifyAll args = .ok roles)
    (h : consume r left roles = .ok (q, [])) : ∃ gs, Given args gs ∧ gs.applyTo r = .ok q := by
  fun_induction consume r left roles generalizing args with
  | case1 r left =>
    cases h
    obtain rfl := eq_nil_of_classifyAll hroles
    exact ⟨[], .nil, rfl⟩
  | case4 r left arg s isLong att roles flags last v hapart r' happly ih =>
    obtain ⟨rest, rfl, harg, hrest⟩ := exists_of_classifyAll hroles (fun h => by cases h)
    obtain ⟨gs, hgiven, hgs⟩ := ih hrest h
    exact ⟨_, .attached (word_iff.2 ⟨s, isLong, att, harg, hapart⟩) hgiven,
      applyTo_eq_ok happly hgs⟩
  | case6 r left arg s isLong att flags last hapart hvalue v roles r' happly ih =>
    obtain ⟨rest, rfl, harg, hrest⟩ := exists_of_classifyAll hroles (fun h => by cases h)
    obtain ⟨rest, rfl, hv, hrest⟩ := exists_of_classifyAll hrest (fun h => by cases h)
    obtain ⟨gs, hgiven, hgs⟩ := ih hrest h
    exact ⟨_, .apart (word_iff.2 ⟨s, isLong, att, harg, hapart⟩) hvalue
      (classify_eq_operand_iff.1 hv) hgiven, applyTo_eq_ok happly hgs⟩
  | case9 r left arg s isLong att roles flags last hapart hflag r' happly ih =>
    obtain ⟨rest, rfl, harg, hrest⟩ := exists_of_classifyAll hroles (fun h => by cases h)
    obtain ⟨gs, hgiven, hgs⟩ := ih hrest h
    exact ⟨_, .flag (word_iff.2 ⟨s, isLong, att, harg, hapart⟩) (Bool.eq_false_iff.2 hflag) hgiven,
      applyTo_eq_ok happly hgs⟩
  | case10 r left arg role roles hrole ih =>
    -- What is left over stays, so nothing may be left over.
    have hleft := List.prefix_nil.1 (consume_left h)
    exact absurd hleft (List.append_ne_nil_of_right_ne_nil _ (List.cons_ne_nil _ _))
  | _ => cases h

/-- Two dashes start every long switch, so they stand for none. -/
theorem ne_dashes_of_classify {arg : String} {role : Role} (h : classify arg = .ok role) :
    arg ≠ "--" := by
  rintro rfl
  cases h

theorem classifyAll_cons {arg : String} {role : Role} (h : classify arg = .ok role)
    {args : List String} {roles : List (String × Role)} (hargs : classifyAll args = .ok roles) :
    classifyAll (arg :: args) = .ok ((arg, role) :: roles) := by
  rw [classifyAll, if_neg (ne_dashes_of_classify h), h, hargs]
  rfl

theorem map_applyTo {r : Request} {left : List String} {flags : List Switch} {last : Switch}
    {v : String} {gs : Settings} {roles : List (String × Role)}
    (h : ∀ r, consume r left roles = (gs.applyTo r).map fun q => (q, left)) :
    (match r.applyAll flags last v with
      | .error h => .error h
      | .ok r' => consume r' left roles) =
      (Settings.applyTo (flagSettings flags ++ (last, v) :: gs) r).map fun q => (q, left) := by
  rw [List.append_cons, Settings.applyTo_append, ← applyAll_eq]
  cases r.applyAll flags last v with
  | error halt => rfl
  | ok r' => exact h r'

/-- Conversely, arguments that give settings are consumed, and apply these settings to any
request. -/
theorem Given.exists_roles {args : List String} {gs : Settings} (h : Given args gs) :
    ∃ roles, classifyAll args = .ok roles ∧
      ∀ r left, consume r left roles = (gs.applyTo r).map fun q => (q, left) := by
  induction h with
  | nil => exact ⟨[], rfl, fun r left => rfl⟩
  | attached hword _ ih =>
    obtain ⟨s, isLong, att, harg, hapart⟩ := word_iff.1 hword
    obtain ⟨roles, hroles, hconsume⟩ := ih
    refine ⟨_, classifyAll_cons harg hroles, fun r left => ?_⟩
    rw [consume, hapart]
    exact map_applyTo fun r => hconsume r left
  | apart hword hvalue hv _ ih =>
    obtain ⟨s, isLong, att, harg, hapart⟩ := word_iff.1 hword
    obtain ⟨roles, hroles, hconsume⟩ := ih
    have hrest := classifyAll_cons (classify_eq_operand_iff.2 hv) hroles
    refine ⟨_, classifyAll_cons harg hrest, fun r left => ?_⟩
    simp only [consume, hapart, hvalue, if_true]
    exact map_applyTo fun r => hconsume r left
  | flag hword hflag _ ih =>
    obtain ⟨s, isLong, att, harg, hapart⟩ := word_iff.1 hword
    obtain ⟨roles, hroles, hconsume⟩ := ih
    refine ⟨_, classifyAll_cons harg hroles, fun r left => ?_⟩
    simp only [consume, hapart, hflag]
    exact map_applyTo fun r => hconsume r left

/-- The arguments make a request exactly if they ask for it. -/
theorem ofArgs_eq_ok_iff {args : List String} {q : Request} :
    Request.ofArgs args = .ok q ↔ Asks args q := by
  unfold Asks Request.ofArgs
  simp only [← applyTo_eq_ok_iff]
  constructor
  · intro h
    split at h
    · cases h
    · next roles hroles =>
      split at h
      · cases h
      · next r hconsume =>
        cases h
        exact exists_given_of_consume hroles hconsume
      · cases h
  · rintro ⟨gs, hgiven, hgs⟩
    obtain ⟨roles, hroles, hconsume⟩ := hgiven.exists_roles
    simp only [hroles, hconsume, hgs, Except.map]

end ClassSketch.CommandLine
