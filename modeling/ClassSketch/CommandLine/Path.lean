import ClassSketch.Text.Quoted

/-!
# Paths

`Path.ofString` brings a path into its normal form: repeated slashes and
single dots are dropped, double dots stay, and exactly two slashes at the
front are kept.
-/

namespace ClassSketch.CommandLine

structure Path where
  root : String
  parts : List String
deriving DecidableEq

namespace Path

def ofString (s : String) : Path :=
  let cs := s.toList
  let slashes := (cs.takeWhile (· == '/')).length
  { root := if slashes = 0 then "" else if slashes = 2 then "//" else "/"
    parts := ((cs.splitOn '/').map String.ofList).filter fun p => p ≠ "" ∧ p ≠ "." }

def render (p : Path) : String :=
  let s := p.root ++ "/".intercalate p.parts
  if s = "" then "." else s

/-- No path can hold a null character. -/
def isLegal (p : Path) : Bool :=
  !p.render.toList.contains '\x00'

end Path

/-- Why a path cannot be opened. -/
inductive PathFault where
  | notFound
  | notADirectory
  | isADirectory
  | denied
  | nameTooLong
  | nullCharacter
  /-- Any other fault, by its number and its text. -/
  | other (number : Nat) (text : String)
deriving DecidableEq

def PathFault.message (p : Path) : PathFault → String
  | notFound => "[Errno 2] No such file or directory: " ++ Text.quoted p.render
  | notADirectory => "[Errno 20] Not a directory: " ++ Text.quoted p.render
  | isADirectory => "[Errno 21] Is a directory: " ++ Text.quoted p.render
  | denied => "[Errno 13] Permission denied: " ++ Text.quoted p.render
  | nameTooLong => "[Errno 36] File name too long: " ++ Text.quoted p.render
  | nullCharacter => "embedded null byte"
  | other number text =>
    "[Errno " ++ toString number ++ "] " ++ text ++ ": " ++ Text.quoted p.render

end ClassSketch.CommandLine
