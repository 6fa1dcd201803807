import ClassSketch.CommandLine.Run

/-!
# The command

Carries out the plan of the arguments on the real files.
-/

namespace ClassSketch.CommandLine

/-- The number of a system error, which may come with a minus sign. -/
def errorNumber (code : UInt32) : UInt32 :=
  if code < 0x80000000 then code else 0 - code

/-- The fault that an error of the file system stands for. -/
def pathFaultOf? (e : IO.Error) : Option PathFault :=
  match e with
  | .noFileOrDirectory .. => some .notFound
  | .permissionDenied .. => some .denied
  | .inappropriateType _ code _ =>
    some (if errorNumber code = 20 then .notADirectory else .isADirectory)
  | .invalidArgument _ code _ => if errorNumber code = 36 then some .nameTooLong else none
  | _ => none

/-- Prints a report and gives the exit status; a crash has status 1. -/
def print (r : Report) : IO UInt32 := do
  (← IO.getStdout).putStr r.stdout
  (← IO.getStderr).putStr r.stderr
  match r.ending with
  | .exit status => return status.toUInt32
  | .crash c =>
    (← IO.getStderr).putStrLn c.message
    return 1

def readFile (path : Path) : IO (Except PathFault (List UInt8)) := do
  if !path.isLegal then return .error .nullCharacter
  try
    return .ok (← IO.FS.readBinFile path.render).toList
  catch e =>
    match pathFaultOf? e with
    | some f => return .error f
    | none => throw e

/-- Every padding that can be counted is tried: whether there is memory for it shows then. -/
def memory : Nat :=
  Layout.indexBound.toNat

def readInput (j : Job) : IO Step := do
  match j.input with
  | some path => return j.stepFile memory path (← readFile path)
  | none =>
    match Text.Utf8.decode (← (← IO.getStdin).readBinToEnd).toList with
    | .error f => return .stop { ending := .crash (.undecodable f) }
    | .ok content => return j.step memory content

def writeFile (path code log : String) : IO Report := do
  let p := Path.ofString path
  if !p.isLegal then return notWritten p .nullCharacter log
  try
    IO.FS.writeFile p.render code
    return written path log
  catch e =>
    match pathFaultOf? e with
    | some f => return notWritten p f log
    | none => throw e

def execute (args : List String) : IO UInt32 := do
  match plan args with
  | .stop r => print r
  | .work j =>
    match ← readInput j with
    | .stop r => print r
    | .write path code log => print (← writeFile path code log)

end ClassSketch.CommandLine

def main (args : List String) : IO UInt32 :=
  ClassSketch.CommandLine.execute args
