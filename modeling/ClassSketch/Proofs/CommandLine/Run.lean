import ClassSketch.CommandLine.Run
import ClassSketch.Proofs.CommandLine.Arguments
import ClassSketch.Proofs.CommandLine.Folder

/-!
# All or nothing

A run that fails leaves the files as they were and writes nothing to the standard
output. A run that succeeds in a conversion has written the code to the one place that
was asked for : the output file, or else the standard output. This takes a machine
that writes what it can open (`Host.WritesOpened`). The one failure that leaves a trace is
that of the encoding, which comes after the output was opened : the file is empty then.

What a conversion can do is said once, for every machine (`Request.Outcome`) : it fails,
prints the code, writes it, or finds that the file cannot be opened, the code not encoded
or its bytes not written. Each stage before that either passes something on or stops with
a failure that prints nothing (`Step.Fails`) : the plan (`plan_cases`), the input
(`Request.start_job_cases`) and the conversion (`Request.step_job_cases`). `outcome_run`
puts the stages together, and what holds of every run is read off its cases.
-/

namespace ClassSketch.CommandLine

open Text

/-! ## What is asked for -/

/-- The indent that options pass on : none, or a number that is not negative. -/
inductive IndentArg.Passes : IndentArg → Option Int → Prop where
  | absent : Passes .absent none
  | number {n : Int} (h : 0 ≤ n) : Passes (.number n) (some n)

/-- A failure from before the code is encoded. -/
def Ending.IsEarly (e : Ending) : Prop :=
  e ≠ .exit 0 ∧ ∀ f, e ≠ .crash (.unencodable f)

namespace Request

variable (q : Request) (host : Host) (stdin : String) (files : host.Files)

/-- The text of the input : the standard input, or what a file holds. -/
inductive Content : List Char → Prop where
  | stdin (h : q.input = "") : Content stdin.toList
  | file {bytes : List UInt8} {content : List Char} (h : q.input ≠ "")
      (hread : host.read files (.ofString q.input) = .ok bytes)
      (hdecode : Utf8.decode bytes = .ok content) : Content content

/-- The text of the input is converted to `code`, with the language and the options that
are asked for. -/
def Converts (code : String) : Prop :=
  q.language ≠ "" ∧ ∃ indentSize content c, q.indent.Passes indentSize ∧
    q.Content host stdin files content ∧
    convert host.memory (String.ofList (normalizeNewlines content)) q.language
      { indentSize, supertypesFirst := q.supertypesFirst } = .ok c ∧
    c.output.code = code

/-- The code is in the output file and nowhere else, or else on the standard output. -/
def Delivers (code : String) (out : Report × host.Files) : Prop :=
  if q.output = "" then out.1.stdout = code ∧ out.2 = files
  else out.1.stdout = "" ∧ host.read out.2 (.ofString q.output) = .ok code.toUTF8.toList ∧
    ∃ place, host.Opens files (.ofString q.output) place ∧
      host.Holds files place code.toUTF8.toList out.2

/-- How the run of a conversion ends. -/
inductive Outcome : Report × host.Files → Prop where
  | failed {r : Report} (hnone : ∀ code, ¬q.Converts host stdin files code)
      (hending : r.ending.IsEarly) (hstdout : r.stdout = "") : Outcome (r, files)
  | printed {r : Report} (hconverts : q.Converts host stdin files r.stdout) (houtput : q.output = "")
      (hending : r.ending = .exit 0) : Outcome (r, files)
  | unwritable {log : String} {f : PathFault} (houtput : q.output ≠ "")
      (hcreate : host.create files (.ofString q.output) = .error f) :
      Outcome (notWritten (.ofString q.output) f log, files)
  | unencodable {code log : String} {f : EncodeFault} {place : host.Place} {opened : host.Files}
      (hconverts : q.Converts host stdin files code) (houtput : q.output ≠ "")
      (hcreate : host.create files (.ofString q.output) = .ok (place, opened))
      (hfault : host.encodeFault? code = some f) :
      Outcome ({ ending := .crash (.unencodable f), stderr := log }, opened)
  | interrupted {code log : String} {f : WriteFault} {place : host.Place}
      {opened after : host.Files} (houtput : q.output ≠ "")
      (hcreate : host.create files (.ofString q.output) = .ok (place, opened))
      (hwrite : host.write opened place code.toUTF8.toList = (some f, after)) :
      Outcome ({ ending := .crash (.interrupted f), stderr := log }, after)
  | written {code log : String} {place : host.Place} {opened after : host.Files}
      (hconverts : q.Converts host stdin files code) (houtput : q.output ≠ "")
      (hcreate : host.create files (.ofString q.output) = .ok (place, opened))
      (hwrite : host.write opened place code.toUTF8.toList = (none, after)) :
      Outcome (written q.output log, after)

end Request

/-! ## Steps -/

/-- The step stops with a failure and writes nothing. -/
inductive Step.Fails : Step → Prop where
  | stop {r : Report} (hending : r.ending.IsEarly) (hstdout : r.stdout = "") : Fails (.stop r)

/-- The step prints the code, or goes on to write it to the output. -/
inductive Step.Yields (output code : String) : Step → Prop where
  | print {r : Report} (houtput : output = "") (hending : r.ending = .exit 0)
      (hstdout : r.stdout = code) : Yields output code (.stop r)
  | write (houtput : output ≠ "") (log : String) : Yields output code (.write output code log)

theorem Step.fails_ofFault (f : UsageFault) : (Step.stop (.ofFault f)).Fails :=
  .stop ⟨nofun, nofun⟩ rfl

/-- The job of a request yields the generated text, or fails if there is none. -/
theorem Request.step_job_cases (q : Request) (memory : Nat) (indentSize : Option Int)
    (content : List Char) :
    let result := convert memory (String.ofList (normalizeNewlines content)) q.language
      { indentSize, supertypesFirst := q.supertypesFirst }
    (∃ c, result = .ok c ∧
        ((q.job indentSize).step memory content).Yields q.output c.output.code) ∨
      ((∀ c, result ≠ .ok c) ∧ ((q.job indentSize).step memory content).Fails) := by
  intro result
  have hresult : convert memory (String.ofList (normalizeNewlines content))
      (q.job indentSize).language (q.job indentSize).options = result := rfl
  rw [Job.step, hresult]
  cases result with
  | ok c =>
    refine Or.inl ⟨c, rfl, ?_⟩
    by_cases houtput : q.output = ""
    · have hjob : (q.job indentSize).output = none := if_pos houtput
      rw [hjob]
      exact .print houtput rfl rfl
    · have hjob : (q.job indentSize).output = some q.output := if_neg houtput
      rw [hjob]
      exact .write houtput _
  | error f =>
    refine Or.inr ⟨fun c h => (by cases h), ?_⟩
    cases f with
    | overwide reading o => exact .stop ⟨nofun, nofun⟩ rfl
    | _ => exact Step.fails_ofFault _

/-- A file is read if it is there and is encoded rightly, and else the job fails. -/
theorem Job.stepFile_cases (j : Job) (memory : Nat) (path : Path)
    (bytes : Except PathFault (List UInt8)) :
    (∃ b content, bytes = .ok b ∧ Utf8.decode b = .ok content ∧
        j.stepFile memory path bytes = j.step memory content) ∨
      ((∀ b content, bytes = .ok b → Utf8.decode b ≠ .ok content) ∧
        (j.stepFile memory path bytes).Fails) := by
  cases bytes with
  | error f =>
    refine Or.inr ⟨fun b content h => (by cases h), ?_⟩
    cases f <;> exact .stop ⟨nofun, nofun⟩ rfl
  | ok b =>
    simp only [Job.stepFile]
    cases hdecode : Utf8.decode b with
    | error f =>
      refine Or.inr ⟨fun b' content h hcontent => ?_, .stop ⟨nofun, nofun⟩ rfl⟩
      cases h
      cases hdecode.symm.trans hcontent
    | ok content => exact Or.inl ⟨b, content, rfl, hdecode, rfl⟩

/-! ## From the request to its outcome -/

section Outcome

variable {q : Request} {host : Host} {stdin : String} {files : host.Files}
  {indentSize : Option Int}

theorem IndentArg.Passes.unique {i : IndentArg} {a b : Option Int} (ha : i.Passes a)
    (hb : i.Passes b) : a = b := by
  cases ha <;> cases hb <;> rfl

/-- There is one content only. -/
theorem Request.Content.unique {a b : List Char} (ha : q.Content host stdin files a)
    (hb : q.Content host stdin files b) : a = b := by
  cases ha with
  | stdin h =>
    cases hb with
    | stdin => rfl
    | file h' => exact absurd h h'
  | file h hread hdecode =>
    cases hb with
    | stdin h' => exact absurd h' h
    | file _ hread' hdecode' =>
      cases hread.symm.trans hread'
      cases hdecode.symm.trans hdecode'
      rfl

/-- There is one generated text only. -/
theorem Request.Converts.unique {a b : String} (ha : q.Converts host stdin files a)
    (hb : q.Converts host stdin files b) : a = b := by
  obtain ⟨-, size, content, c, hsize, hcontent, hconvert, rfl⟩ := ha
  obtain ⟨-, size', content', c', hsize', hcontent', hconvert', rfl⟩ := hb
  obtain rfl := hsize.unique hsize'
  obtain rfl := hcontent.unique hcontent'
  cases hconvert.symm.trans hconvert'
  rfl

/-- A job starts with the content of its request, or fails without one. -/
theorem Request.start_job_cases (q : Request) (indentSize : Option Int) (host : Host)
    (stdin : String) (files : host.Files) :
    (∃ content, q.Content host stdin files content ∧
        (q.job indentSize).start host stdin files = (q.job indentSize).step host.memory content) ∨
      ((∀ content, ¬q.Content host stdin files content) ∧
        ((q.job indentSize).start host stdin files).Fails) := by
  unfold Job.start
  by_cases hinput : q.input = ""
  · have hjob : (q.job indentSize).input = none := by simp [Request.job, given?, hinput]
    rw [hjob]
    exact Or.inl ⟨_, .stdin hinput, rfl⟩
  · have hjob : (q.job indentSize).input = some (.ofString q.input) := by
      simp [Request.job, given?, hinput]
    rw [hjob]
    have hcases := (q.job indentSize).stepFile_cases host.memory (.ofString q.input)
      (host.read files (.ofString q.input))
    rcases hcases with ⟨bytes, content, hread, hdecode, hstep⟩ | ⟨hnone, hfails⟩
    · exact Or.inl ⟨content, .file hinput hread hdecode, hstep⟩
    · refine Or.inr ⟨fun content h => ?_, hfails⟩
      cases h with
      | stdin h => exact hinput h
      | file _ hread hdecode => exact hnone _ _ hread hdecode

/-- So it yields the text that the request converts to, or fails if there is none. -/
theorem start_cases (hlanguage : q.language ≠ "") (hindent : q.indent.Passes indentSize) :
    (∃ code, q.Converts host stdin files code ∧
        ((q.job indentSize).start host stdin files).Yields q.output code) ∨
      ((∀ code, ¬q.Converts host stdin files code) ∧
        ((q.job indentSize).start host stdin files).Fails) := by
  rcases q.start_job_cases indentSize host stdin files with
    ⟨content, hcontent, hstart⟩ | ⟨hnone, hfails⟩
  · rw [hstart]
    rcases q.step_job_cases host.memory indentSize content with
      ⟨c, hconvert, hyields⟩ | ⟨hnone, hfails⟩
    · have hconverts : q.Converts host stdin files c.output.code :=
        ⟨hlanguage, indentSize, content, c, hindent, hcontent, hconvert, rfl⟩
      exact Or.inl ⟨_, hconverts, hyields⟩
    · refine Or.inr ⟨fun code h => ?_, hfails⟩
      obtain ⟨-, size, content', c, hsize, hcontent', hconvert, -⟩ := h
      obtain rfl := hindent.unique hsize
      obtain rfl := hcontent.unique hcontent'
      exact hnone c hconvert
  · refine Or.inr ⟨fun code h => ?_, hfails⟩
    obtain ⟨-, -, content, -, -, hcontent, -⟩ := h
    exact hnone content hcontent

/-- The last step ends in one of the four ways in which a file is written or not. -/
theorem outcome_save {code : String} (hconverts : q.Converts host stdin files code)
    (houtput : q.output ≠ "") (log : String) :
    q.Outcome host stdin files (save host files q.output code log) := by
  unfold save
  cases hcreate : host.create files (.ofString q.output) with
  | error f => exact .unwritable houtput hcreate
  | ok place =>
    obtain ⟨place, opened⟩ := place
    cases hfault : host.encodeFault? code with
    | some f => exact .unencodable hconverts houtput hcreate hfault
    | none =>
      simp only
      split
      · next f after hwrite => exact .interrupted houtput hcreate hwrite
      · next after hwrite => exact .written hconverts houtput hcreate hwrite

theorem run_of_plan_stop {args : List String} {r : Report} (h : plan args = .stop r) :
    run host args stdin files = (r, files) := by
  rw [run, h]

/-- A request has a plan to work unless the language or the indent is wrong, and then it converts
nothing. -/
theorem plan_cases (hlist : q.listLanguages = false) :
    (q.language ≠ "" ∧ ∃ indentSize, q.indent.Passes indentSize ∧
        q.plan = .work (q.job indentSize)) ∨
      ((∀ host stdin files code, ¬q.Converts host stdin files code) ∧
        ∃ r, q.plan = .stop r ∧ (Step.stop r).Fails) := by
  unfold Request.plan
  rw [if_neg (by simp [hlist])]
  split
  · next hlanguage =>
    exact Or.inr ⟨fun host stdin files code h => h.1 hlanguage, _, rfl, Step.fails_ofFault _⟩
  · next hlanguage =>
    cases hindent : q.indent with
    | absent => exact Or.inl ⟨hlanguage, none, .absent, rfl⟩
    | dropped =>
      refine Or.inr ⟨fun host stdin files code h => ?_, _, rfl, .stop ⟨nofun, nofun⟩ rfl⟩
      obtain ⟨-, size, -, -, hsize, -⟩ := h
      rw [hindent] at hsize
      cases hsize
    | number n =>
      simp only
      split
      · next hneg =>
        refine Or.inr ⟨fun host stdin files code h => ?_, _, rfl, Step.fails_ofFault _⟩
        obtain ⟨-, size, -, -, hsize, -⟩ := h
        rw [hindent] at hsize
        cases hsize with
        | number hpos => exact absurd hneg (Int.not_lt.2 hpos)
      · next hpos => exact Or.inl ⟨hlanguage, some n, .number (Int.not_lt.1 hpos), rfl⟩

theorem plan_of_asks {args : List String} (h : Asks args q) : plan args = q.plan := by
  rw [plan, ofArgs_eq_ok_iff.2 h]

theorem outcome_of_fails {r : Report} (hnone : ∀ code, ¬q.Converts host stdin files code)
    (h : (Step.stop r).Fails) : q.Outcome host stdin files (r, files) := by
  cases h with
  | stop hending hstdout => exact .failed hnone hending hstdout

/-- What the start of a job leaves to do is done as the outcome says. -/
theorem outcome_of_start {args : List String} {j : Job} (hplan : plan args = .work j)
    (h : (∃ code, q.Converts host stdin files code ∧
        (j.start host stdin files).Yields q.output code) ∨
      ((∀ code, ¬q.Converts host stdin files code) ∧ (j.start host stdin files).Fails)) :
    q.Outcome host stdin files (run host args stdin files) := by
  rw [run, hplan]
  simp only
  generalize j.start host stdin files = step at h ⊢
  rcases h with ⟨code, hconverts, hyields⟩ | ⟨hnone, hfails⟩
  · cases hyields with
    | print houtput hending hstdout =>
      subst hstdout
      exact .printed hconverts houtput hending
    | write houtput log => exact outcome_save hconverts houtput log
  · cases hfails with
    | stop hending hstdout => exact .failed hnone hending hstdout

/-- A run that is asked for a conversion ends in one of the outcomes. -/
theorem outcome_run {args : List String} (hasks : Asks args q) (hlist : q.listLanguages = false)
    (host : Host) (stdin : String) (files : host.Files) :
    q.Outcome host stdin files (run host args stdin files) := by
  have hplan := plan_of_asks hasks
  rcases plan_cases hlist with ⟨hlanguage, indentSize, hindent, hwork⟩ | ⟨hnone, r, hstop, hfails⟩
  · exact outcome_of_start (hplan.trans hwork) (start_cases hlanguage hindent)
  · rw [run_of_plan_stop (hplan.trans hstop)]
    exact outcome_of_fails (hnone host stdin files) hfails

end Outcome

/-! ## What holds of every run -/

section Run

variable {args : List String} {host : Host} {stdin : String} {files : host.Files} {q : Request}

/-- The names of the languages, one on a line. -/
def languageList : String :=
  "\n".intercalate (Language.all.map Language.name) ++ "\n"

/-- A report of what can be asked for : the help, or the names of the languages. -/
def Informs (r : Report) : Prop :=
  r.stdout = help ∨ r.stdout = languageList

/-- Without a conversion there is a failure or an information, and no file is touched. -/
theorem run_of_no_conversion (h : ∀ q, Asks args q → q.listLanguages = true) (host : Host)
    (stdin : String) (files : host.Files) : ∃ r, run host args stdin files = (r, files) ∧
      ((Step.stop r).Fails ∨ r.ending = .exit 0 ∧ Informs r) := by
  cases hargs : Request.ofArgs args with
  | ok q =>
    have hasks := ofArgs_eq_ok_iff.1 hargs
    have hstop : q.plan = .stop { ending := .exit 0, stdout := languageList } :=
      if_pos (h q hasks)
    exact ⟨_, run_of_plan_stop ((plan_of_asks hasks).trans hstop), Or.inr ⟨rfl, Or.inr rfl⟩⟩
  | error halt =>
    cases halt with
    | help =>
      have hstop : plan args = .stop { ending := .exit 0, stdout := help } := by rw [plan, hargs]
      exact ⟨_, run_of_plan_stop hstop, Or.inr ⟨rfl, Or.inl rfl⟩⟩
    | fault f =>
      have hstop : plan args = .stop (.ofFault f) := by rw [plan, hargs]
      exact ⟨_, run_of_plan_stop hstop, Or.inl (Step.fails_ofFault f)⟩

/-- Arguments that ask for more than the list of languages ask for a conversion. -/
theorem exists_conversion (h : ¬∀ q, Asks args q → q.listLanguages = true) :
    ∃ q, Asks args q ∧ q.listLanguages = false := by
  obtain ⟨q, hq⟩ := not_forall.1 h
  obtain ⟨hasks, hlist⟩ := Classical.not_imp.1 hq
  exact ⟨q, hasks, Bool.eq_false_iff.2 hlist⟩

/-- Whatever code is asked for can be encoded. -/
def Encodable (host : Host) (args : List String) (stdin : String) (files : host.Files) : Prop :=
  ∀ q code, Asks args q → q.Converts host stdin files code → host.encodeFault? code = none

section Outcome

variable {out : Report × host.Files} (h : q.Outcome host stdin files out)

include h

/-- Without success nothing is printed, and no file is touched if the text can be encoded. -/
theorem Request.Outcome.untouched (hwrites : host.WritesOpened) (hending : out.1.ending ≠ .exit 0) :
    out.1.stdout = "" ∧
      ((∀ code, q.Converts host stdin files code → host.encodeFault? code = none) → out.2 = files) := by
  cases h with
  | failed _ _ hstdout => exact ⟨hstdout, fun _ => rfl⟩
  | printed _ _ hzero => exact absurd hzero hending
  | unwritable => exact ⟨rfl, fun _ => rfl⟩
  | unencodable hconverts _ _ hfault =>
    exact ⟨rfl, fun hencodable => by cases (hencodable _ hconverts).symm.trans hfault⟩
  | interrupted _ hcreate hwrite =>
    obtain ⟨after, hok, -⟩ := hwrites.writes hcreate _
    cases hwrite.symm.trans hok
  | written => exact absurd rfl hending

/-- If the code cannot be encoded then the output is open already, and empty. -/
theorem Request.Outcome.emptied (hwrites : host.WritesOpened) {f : EncodeFault}
    (hending : out.1.ending = .crash (.unencodable f)) :
    (∃ code, q.Converts host stdin files code ∧ host.encodeFault? code = some f) ∧
      ∃ place, host.Opens files (.ofString q.output) place ∧ host.Holds files place [] out.2 := by
  cases h with
  | failed _ hearly _ => exact absurd hending (hearly.2 f)
  | printed _ _ hzero => cases hzero.symm.trans hending
  | @unwritable log g =>
    rw [notWritten] at hending
    split at hending <;> cases hending
  | @unencodable code log f place opened hconverts _ hcreate hfault =>
    cases hending
    exact ⟨⟨code, hconverts, hfault⟩, place, ⟨opened, hcreate⟩, hwrites.empties hcreate⟩
  | interrupted => cases hending
  | written => cases hending

/-- With success the text is delivered. -/
theorem Request.Outcome.delivers (hwrites : host.WritesOpened) (hending : out.1.ending = .exit 0) :
    ∃ code, q.Converts host stdin files code ∧ q.Delivers host files code out := by
  cases h with
  | failed _ hearly _ => exact absurd hending hearly.1
  | printed hconverts houtput _ =>
    refine ⟨_, hconverts, ?_⟩
    rw [Request.Delivers, if_pos houtput]
    exact ⟨rfl, rfl⟩
  | unwritable => cases hending
  | unencodable => cases hending
  | interrupted => cases hending
  | @written code log place opened after hconverts houtput hcreate hwrite =>
    obtain ⟨after', hok, hread, hholds⟩ := hwrites.writes hcreate code.toUTF8.toList
    cases hwrite.symm.trans hok
    refine ⟨code, hconverts, ?_⟩
    rw [Request.Delivers, if_neg houtput]
    exact ⟨rfl, hread, place, ⟨opened, hcreate⟩, hholds⟩

/-- A text that can be encoded for a place that can be opened is a success. -/
theorem Request.Outcome.succeeds (hwrites : host.WritesOpened) {code : String}
    (hconverts : q.Converts host stdin files code)
    (hopens : q.output ≠ "" → host.encodeFault? code = none ∧
      ∃ place, host.Opens files (.ofString q.output) place) :
    out.1.ending = .exit 0 := by
  cases h with
  | failed hnone => exact absurd hconverts (hnone code)
  | printed _ _ hzero => exact hzero
  | unwritable houtput hcreate =>
    obtain ⟨-, place, opened, hopened⟩ := hopens houtput
    cases hcreate.symm.trans hopened
  | unencodable hconverts' houtput _ hfault =>
    obtain rfl := hconverts.unique hconverts'
    cases (hopens houtput).1.symm.trans hfault
  | interrupted _ hcreate hwrite =>
    obtain ⟨after, hok, -⟩ := hwrites.writes hcreate _
    cases hwrite.symm.trans hok
  | written => rfl

end Outcome

end Run

/-! ## Runs with mixed options -/

deriving instance DecidableEq for IndentArg
deriving instance DecidableEq for Request
deriving instance DecidableEq for Folder.Place

/-- The status with which a run ends. -/
def Report.status? (r : Report) : Option Nat :=
  match r.ending with
  | .exit status => some status
  | .crash _ => none

theorem status?_eq_some_iff {r : Report} {n : Nat} : r.status? = some n ↔ r.ending = .exit n := by
  unfold Report.status?
  cases r.ending <;> simp

/-- Whether a run ends because the code could not be encoded. -/
def Report.isUnencodable (r : Report) : Bool :=
  match r.ending with
  | .crash (.unencodable _) => true
  | _ => false

theorem exists_of_isUnencodable {r : Report} (h : r.isUnencodable = true) :
    ∃ f, r.ending = .crash (.unencodable f) := by
  unfold Report.isUnencodable at h
  split at h
  · next f hending => exact ⟨f, hending⟩
  · cases h

theorem eq_ok_of_toOption {ε α : Type} {x : Except ε α} {a : α} (h : x.toOption = some a) :
    x = .ok a := by
  cases x with
  | error e => cases h
  | ok b => exact congrArg _ (Option.some.inj h)

/-- Options cut short, joined and given twice. -/
def mixedArgs : List String :=
  ["-l", "java", "--out=gen/A.rb", "--ind", "3", "-vlRuby ", "-i", "a.puml"]

def mixedRequest : Request where
  input := "a.puml"
  output := "gen/A.rb"
  language := "Ruby "
  indent := .number 3
  verbose := true

theorem asks_mixedRequest : Asks mixedArgs mixedRequest :=
  ofArgs_eq_ok_iff.1 (eq_ok_of_toOption (by decide +kernel))

/-- Lines that end in two characters. -/
def mixedText : List Char :=
  "class A \x7b\r\n+ run()\r\n\x7d\r\n".toList

def mixedFolder (directories : List (List String)) : Folder where
  files := [(["a.puml"], mixedText.map fun c => c.toNat.toUInt8)]
  directories

theorem exists_converts_mixedRequest :
    ∃ code, mixedRequest.Converts (Folder.host 100) "" (mixedFolder [["gen"]]) code := by
  have hfacts : ((mixedFolder [["gen"]]).read (.ofString "a.puml")).toOption =
        some (mixedText.map fun c => c.toNat.toUInt8) ∧
      (Utf8.decode (mixedText.map fun c => c.toNat.toUInt8)).toOption = some mixedText ∧
      (convert 100 (String.ofList (normalizeNewlines mixedText)) "Ruby "
        { indentSize := some 3 }).toOption.isSome = true := by
    decide +kernel
  obtain ⟨hread, hdecode, hconvert⟩ := hfacts
  obtain ⟨c, hc⟩ := Option.isSome_iff_exists.1 hconvert
  exact ⟨_, by decide, some 3, mixedText, c, .number (by decide),
    .file (by decide) (eq_ok_of_toOption hread) (eq_ok_of_toOption hdecode),
    eq_ok_of_toOption hc, rfl⟩

/-- Files on a machine that encodes no text, with a fault as for half of a surrogate pair. -/
def halfHost : Host :=
  Folder.host 100 fun _ => some { unit := 0xd800, first := 0, last := 0 }

end ClassSketch.CommandLine
