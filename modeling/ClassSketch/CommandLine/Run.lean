import ClassSketch.CommandLine.Host
import ClassSketch.CommandLine.Request
import ClassSketch.CommandLine.Usage
import ClassSketch.Convert
import ClassSketch.Text.Utf8

/-!
# Running the command

The arguments fix a `Plan`: to stop with a report, or a job. A job turns
the content of its input into a `Step`: to stop with a report, or to write
code to a file. Neither touches a file. `run` carries the plan out on a
machine; only its last step changes the files.
-/

namespace ClassSketch.CommandLine

open Text

/-- A failure that ends the command without an exit status. -/
inductive Crash where
  | undecodable (f : Utf8.Fault)
  | unwritable (path : Path) (f : PathFault)
  | nullInPath
  | unencodable (f : EncodeFault)
  | interrupted (f : WriteFault)
  | overwide (f : Layout.WidthFault)
  /-- The indent was given without a value. -/
  | indentWithoutValue

def Crash.message : Crash → String
  | undecodable f => f.message
  | unwritable path f => f.message path
  | nullInPath => "embedded null byte"
  | unencodable f => f.message
  | interrupted f => f.message
  | overwide f => f.message
  | indentWithoutValue => "'<' not supported between instances of 'list' and 'int'"

inductive Ending where
  | exit (status : Nat)
  | crash (c : Crash)

structure Report where
  ending : Ending
  stdout : String := ""
  stderr : String := ""

/-- A usage fault: the usage, the fault, and status 2. -/
def Report.ofFault (f : UsageFault) : Report where
  ending := .exit 2
  stderr := usage ++ programName ++ ": error: " ++ f.message ++ "\n"

/-! ## Plan -/

structure Job where
  /-- The standard input if there is no file. -/
  input : Option Path
  /-- The file to write, as it was given; the standard output if there is none. -/
  output : Option String
  language : String
  options : Options
  verbose : Bool

inductive Plan where
  | stop (r : Report)
  | work (j : Job)

/-- A text, if it is not empty. -/
def given? (s : String) : Option String :=
  if s = "" then none else some s

def Request.job (r : Request) (indentSize : Option Int) : Job where
  input := (given? r.input).map Path.ofString
  output := given? r.output
  language := r.language
  options := { indentSize, supertypesFirst := r.supertypesFirst }
  verbose := r.verbose

def Request.plan (r : Request) : Plan :=
  if r.listLanguages then
    .stop { ending := .exit 0, stdout := "\n".intercalate (Language.all.map Language.name) ++ "\n" }
  else if r.language = "" then .stop (.ofFault .missingLanguage)
  else match r.indent with
    | .absent => .work (r.job none)
    | .dropped => .stop { ending := .crash .indentWithoutValue }
    | .number n => if n < 0 then .stop (.ofFault .negativeIndent) else .work (r.job (some n))

def plan (args : List String) : Plan :=
  match Request.ofArgs args with
  | .error .help => .stop { ending := .exit 0, stdout := help }
  | .error (.fault f) => .stop (.ofFault f)
  | .ok r => r.plan

/-! ## Log -/

def counts (d : Diagram) : String :=
  "Parsed " ++ toString d.classes.length ++ " classes, " ++ toString d.interfaces.length ++
    " interfaces, " ++ toString d.enums.length ++ " enums, " ++ toString d.relationships.length ++
    " relationships"

def skippedLine (s : Source.Skipped) : String :=
  "Skipping line " ++ toString s.fragment.line ++ " (" ++ s.reason.message ++ "): " ++
    quoted (String.ofList s.fragment.text)

/-- The diagnostics of a conversion: all of them, or only the bare warnings. -/
def log (verbose : Bool) (r : Reading) (warnings : List String) : List String :=
  if verbose then
    r.skipped.map (fun s => "DEBUG plantuml_transpiler.parser: " ++ skippedLine s) ++
      ["DEBUG plantuml_transpiler.parser: " ++ counts r.diagram,
        "DEBUG plantuml_transpiler: " ++ counts r.diagram ++ ", " ++
          toString r.diagram.packages.length ++ " packages"] ++
      warnings.map ("WARNING plantuml_transpiler.ordering: " ++ ·)
  else warnings

def logText (verbose : Bool) (r : Reading) (warnings : List String) : String :=
  String.join ((log verbose r warnings).map (· ++ "\n"))

/-! ## Steps of a job -/

inductive Step where
  | stop (r : Report)
  | write (path : String) (code : String) (log : String)

/-- What a job does with the text of its input. -/
def Job.step (memory : Nat) (j : Job) (content : List Char) : Step :=
  match convert memory (String.ofList (normalizeNewlines content)) j.language j.options with
  | .error (.overwide reading o) =>
    .stop { ending := .crash (.overwide o.fault), stderr := logText j.verbose reading o.warnings }
  | .error f => .stop (.ofFault (.conversion f))
  | .ok c =>
    let log := logText j.verbose c.reading c.output.warnings
    match j.output with
    | none => .stop { ending := .exit 0, stdout := c.output.code, stderr := log }
    | some path => .write path c.output.code log

/-- What a job does with the bytes of its input file, or without them. -/
def Job.stepFile (memory : Nat) (j : Job) (path : Path) (bytes : Except PathFault (List UInt8)) : Step :=
  match bytes with
  | .error .nullCharacter => .stop { ending := .crash .nullInPath }
  | .error f =>
    .stop {
      ending := .exit 1
      stderr := "Error: Cannot read " ++ path.render ++ ": " ++ f.message path ++ "\n" }
  | .ok bytes =>
    match Utf8.decode bytes with
    | .error f => .stop { ending := .crash (.undecodable f) }
    | .ok content => j.step memory content

def written (path : String) (log : String) : Report where
  ending := .exit 0
  stderr := log ++ "  Code written to " ++ path ++ "\n"

def notWritten (path : Path) (f : PathFault) (log : String) : Report where
  ending := .crash (if f = .nullCharacter then .nullInPath else .unwritable path f)
  stderr := log

/-- The first step of a job. -/
def Job.start (host : Host) (j : Job) (stdin : String) (files : host.Files) : Step :=
  match j.input with
  | none => j.step host.memory stdin.toList
  | some path => j.stepFile host.memory path (host.read files path)

/-- The last step of a job: the file is opened, the code is encoded, the bytes are written. -/
def save (host : Host) (files : host.Files) (path code log : String) : Report × host.Files :=
  match host.create files (.ofString path) with
  | .error f => (notWritten (.ofString path) f log, files)
  | .ok (place, opened) =>
    match host.encodeFault? code with
    | some f => ({ ending := .crash (.unencodable f), stderr := log }, opened)
    | none =>
      match host.write opened place code.toUTF8.toList with
      | (some f, after) => ({ ending := .crash (.interrupted f), stderr := log }, after)
      | (none, after) => (written path log, after)

/-- The report of a run, and the files after it. -/
def run (host : Host) (args : List String) (stdin : String) (files : host.Files) :
    Report × host.Files :=
  match plan args with
  | .stop r => (r, files)
  | .work j =>
    match j.start host stdin files with
    | .stop r => (r, files)
    | .write path code log => save host files path code log

end ClassSketch.CommandLine
