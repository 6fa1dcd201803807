import ClassSketch.CommandLine.Switch
import ClassSketch.Convert
import ClassSketch.Text.Numeral
import ClassSketch.Text.Quoted
import ClassSketch.Text.Scan

/-!
# Reading the arguments

An argument is a switch, an operand, or something that looks like a switch
and is none. A long switch may be cut short as long as it stays unique, and
a value may be attached: `--language=java`, `-ljava`, `-l=java`. Short
switches without a value may be joined. After `--` everything is an
operand. A negative number is an operand, and so is anything with a space
that is not a switch.

All arguments are classified before any of them takes effect, so that an
ambiguous one is reported first. Then they take effect from left to right.
There are no positional arguments: what is left over is reported at the
end.
-/

namespace ClassSketch.CommandLine

open Text

inductive UsageFault where
  | ambiguous (given : String) (spellings : List String)
  | missingValue (s : Switch)
  | ignoredValue (s : Switch) (text : String)
  | notANumber (text : String)
  | unrecognized (args : List String)
  | missingLanguage
  | negativeIndent
  | conversion (f : ConvertFault)

def UsageFault.message : UsageFault → String
  | ambiguous given spellings =>
    "ambiguous option: " ++ given ++ " could match " ++ ", ".intercalate spellings
  | missingValue s => "argument " ++ s.label ++ ": expected one argument"
  | ignoredValue s text => "argument " ++ s.label ++ ": ignored explicit argument " ++ quoted text
  | notANumber text => "argument " ++ Switch.indent.label ++ ": invalid int value: " ++ quoted text
  | unrecognized args => "unrecognized arguments: " ++ " ".intercalate args
  | missingLanguage => "the following arguments are required: " ++ Switch.language.label
  | negativeIndent => "--indent must not be negative"
  | conversion f => f.message

/-! ## Classification -/

inductive Role where
  | operand
  | separator
  | switch (s : Switch) (isLong : Bool) (attached : Option (List Char))
  | unknown

/-- A switch that an argument may stand for. -/
structure Candidate where
  switch : Switch
  spelling : List Char
  attached : Option (List Char)

def Candidate.role (c : Candidate) : Role :=
  .switch c.switch ("--".toList.isPrefixOf c.spelling) c.attached

/-- The switches whose spelling starts with a long argument up to its `=`. -/
def longCandidates (arg : List Char) : List Candidate :=
  let (stem, attached) := match cutAt '=' arg with
    | some (stem, value) => (stem, some value)
    | none => (arg, none)
  Switch.table.filterMap fun (spelling, switch) =>
    if stem.isPrefixOf spelling then some { switch, spelling, attached } else none

/-- The short switch with the rest attached, and the switches that the argument starts. -/
def shortCandidates (arg : List Char) : List Candidate :=
  Switch.table.filterMap fun (spelling, switch) =>
    if spelling = arg.take 2 then some { switch, spelling, attached := some (arg.drop 2) }
    else if arg.isPrefixOf spelling then some { switch, spelling, attached := none }
    else none

def candidates (arg : List Char) : List Candidate :=
  if "--".toList.isPrefixOf arg then longCandidates arg else shortCandidates arg

/-- A switch as it is spelled, alone or before `=`. -/
def spelledOut? (arg : List Char) : Option Candidate :=
  match Switch.ofSpelling? arg with
  | some switch => some { switch, spelling := arg, attached := none }
  | none =>
    (cutAt '=' arg).bind fun (spelling, value) =>
      (Switch.ofSpelling? spelling).map fun switch => { switch, spelling, attached := some value }

/-- A minus sign and digits, with an optional decimal point; a line feed may follow. -/
def isNegativeNumber : List Char → Bool
  | '-' :: s =>
    let s := if s.getLast? = some '\n' then s.dropLast else s
    match s.dropWhile Numeral.isDigit with
    | [] => !s.isEmpty
    | '.' :: t => !t.isEmpty && t.all Numeral.isDigit
    | _ => false
  | _ => false

def classify (arg : String) : Except UsageFault Role :=
  let cs := arg.toList
  if cs.head? ≠ some '-' ∨ cs = ['-'] then .ok .operand
  else match spelledOut? cs with
    | some c => .ok c.role
    | none =>
      match candidates cs with
      | [c] => .ok c.role
      | [] => .ok (if isNegativeNumber cs || ' ' ∈ cs then .operand else .unknown)
      | several => .error (.ambiguous arg (several.map fun c => String.ofList c.spelling))

def classifyAll : List String → Except UsageFault (List (String × Role))
  | [] => .ok []
  | arg :: args =>
    if arg = "--" then .ok ((arg, .separator) :: args.map fun a => (a, .operand))
    else match classify arg with
      | .error f => .error f
      | .ok role => (classifyAll args).map ((arg, role) :: ·)

/-! ## Effects -/

/-- How the indent was given. A value that is only `--` is dropped, which leaves
the switch without one. -/
inductive IndentArg where
  | absent
  | dropped
  | number (n : Int)

/-- What the arguments ask for. An empty text is as good as none. -/
structure Request where
  input : String := ""
  output : String := ""
  language : String := ""
  indent : IndentArg := .absent
  supertypesFirst : Bool := false
  listLanguages : Bool := false
  verbose : Bool := false

/-- Why the arguments yield no request. -/
inductive Halt where
  | help
  | fault (f : UsageFault)

namespace Request

def setIndent (r : Request) (text : String) : Except Halt Request :=
  if text = "--" then .ok { r with indent := .dropped }
  else match Numeral.read text.toList with
    | .ok n => .ok { r with indent := .number n }
    | .error _ => .error (.fault (.notANumber text))

/-- The effect of a switch with its value; the value is empty for a switch without. -/
def apply (r : Request) (s : Switch) (value : String) : Except Halt Request :=
  let text := if value = "--" then "" else value
  match s with
  | .help => .error .help
  | .input => .ok { r with input := text }
  | .output => .ok { r with output := text }
  | .language => .ok { r with language := text }
  | .indent => r.setIndent value
  | .supertypesFirst => .ok { r with supertypesFirst := true }
  | .listLanguages => .ok { r with listLanguages := true }
  | .verbose => .ok { r with verbose := true }

/-- The effect of switches without values, and then of one with its value. -/
def applyAll (r : Request) (flags : List Switch) (last : Switch) (value : String) :
    Except Halt Request :=
  match flags with
  | [] => r.apply last value
  | s :: flags =>
    match r.apply s "" with
    | .error h => .error h
    | .ok r' => r'.applyAll flags last value

end Request

/-- Takes joined switches apart: those before the last, the last, and the value
attached to it. -/
def joined (s : Switch) (isLong : Bool) (text : List Char) :
    Except UsageFault (List Switch × Switch × Option (List Char)) :=
  if s.takesValue then .ok ([], s, some text)
  else match text with
    | [] => .error (.ignoredValue s "")
    | c :: cs =>
      match if isLong then none else Switch.ofSpelling? ['-', c] with
      | none => .error (.ignoredValue s (String.ofList text))
      | some s' =>
        match cs with
        | [] => .ok ([s], s', none)
        | _ :: _ => (joined s' false cs).map fun (flags, last, value) => (s :: flags, last, value)

def takeApart (s : Switch) (isLong : Bool) (attached : Option (List Char)) :
    Except UsageFault (List Switch × Switch × Option (List Char)) :=
  match attached with
  | none => .ok ([], s, none)
  | some text => joined s isLong text

/-- Lets the arguments take effect; `left` are those left over so far. -/
def consume (r : Request) (left : List String) :
    List (String × Role) → Except Halt (Request × List String)
  | [] => .ok (r, left)
  | (_, .switch s isLong attached) :: args =>
    match takeApart s isLong attached with
    | .error f => .error (.fault f)
    | .ok (flags, last, some value) =>
      match r.applyAll flags last (String.ofList value) with
      | .error h => .error h
      | .ok r' => consume r' left args
    | .ok (flags, last, none) =>
      if last.takesValue then
        match args with
        | (value, .operand) :: args =>
          match r.applyAll flags last value with
          | .error h => .error h
          | .ok r' => consume r' left args
        | _ => .error (.fault (.missingValue last))
      else match r.applyAll flags last "" with
        | .error h => .error h
        | .ok r' => consume r' left args
  | (arg, _) :: args => consume r (left ++ [arg]) args

def Request.ofArgs (args : List String) : Except Halt Request :=
  match classifyAll args with
  | .error f => .error (.fault f)
  | .ok roles =>
    match consume {} [] roles with
    | .error h => .error h
    | .ok (r, []) => .ok r
    | .ok (_, left) => .error (.fault (.unrecognized left))

end ClassSketch.CommandLine
