import ClassSketch.CommandLine.Path

/-!
# The machine of a run

What a run needs of the machine that it takes place on: the memory for paddings,
the reading of a file, and three steps of writing one. A file is opened, which
creates it or empties it. The text is encoded, which fails for a text that holds
half of a surrogate pair. The bytes are written, which may fail with some of them
in the file. So a run that fails in the second or the third step has changed a file.

None of this is fixed here. `Host.WritesOpened` is the condition that opening and the
third step do what they are there for. Nothing is asked of the second step.
-/

namespace ClassSketch.CommandLine

/-- Halves of surrogate pairs in a text, which cannot be encoded: the first of them, its
position, and the position of the last one next to it. -/
structure EncodeFault where
  unit : Nat
  first : Nat
  last : Nat

def EncodeFault.message (f : EncodeFault) : String :=
  "'utf-8' codec can't encode character" ++
    (if f.first = f.last then
      " '\\u" ++ String.ofList (Text.hexDigits 4 f.unit) ++ "' in position " ++ toString f.first
    else "s in position " ++ toString f.first ++ "-" ++ toString f.last) ++
    ": surrogates not allowed"

/-- Why the bytes of an open file were not written, by its number and its text. -/
structure WriteFault where
  number : Nat
  text : String

def WriteFault.message (f : WriteFault) : String :=
  "[Errno " ++ toString f.number ++ "] " ++ f.text

structure Host where
  /-- The number of spaces that there is memory for. -/
  memory : Nat
  /-- What all files hold, and the directories. -/
  Files : Type
  /-- Where a file is. Several paths may lead to one place. -/
  Place : Type
  /-- All that is no file: which directories there are. -/
  Rest : Type
  content : Files → Place → Option (List UInt8)
  rest : Files → Rest
  read : Files → Path → Except PathFault (List UInt8)
  /-- Opens a file for writing. -/
  create : Files → Path → Except PathFault (Place × Files)
  /-- What keeps a text from being encoded. -/
  encodeFault? : String → Option EncodeFault
  /-- Writes an open file. Also if it fails it may have changed the file. -/
  write : Files → Place → List UInt8 → Option WriteFault × Files

namespace Host

/-- The bytes are at the place, and all else is as in `files`. -/
structure Holds (host : Host) (files : host.Files) (place : host.Place) (bytes : List UInt8)
    (after : host.Files) : Prop where
  file : host.content after place = some bytes
  others : ∀ q, q ≠ place → host.content after q = host.content files q
  rest : host.rest after = host.rest files

/-- The path can be opened for writing, and leads to the place. -/
def Opens (host : Host) (files : host.Files) (path : Path) (place : host.Place) : Prop :=
  ∃ opened, host.create files path = .ok (place, opened)

/-- A file that can be opened is written completely. When it is opened it becomes empty. After
its bytes were written it holds these and is read through the same path. All else stays as it
was. -/
structure WritesOpened (host : Host) : Prop where
  empties {files opened : host.Files} {path : Path} {place : host.Place} :
    host.create files path = .ok (place, opened) → host.Holds files place [] opened
  writes {files opened : host.Files} {path : Path} {place : host.Place} :
    host.create files path = .ok (place, opened) → ∀ bytes, ∃ after,
      host.write opened place bytes = (none, after) ∧ host.read after path = .ok bytes ∧
        host.Holds files place bytes after

end Host

end ClassSketch.CommandLine
