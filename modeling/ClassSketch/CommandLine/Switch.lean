/-!
# Command line switches

The switches of the command, with their spellings in the order in which
they are declared.
-/

namespace ClassSketch.CommandLine

inductive Switch where
  | help
  | input
  | output
  | language
  | indent
  | supertypesFirst
  | listLanguages
  | verbose
deriving DecidableEq

namespace Switch

def all : List Switch :=
  [help, input, output, language, indent, supertypesFirst, listLanguages, verbose]

def spellings : Switch → List String
  | help => ["-h", "--help"]
  | input => ["--input", "-i"]
  | output => ["--output", "-o"]
  | language => ["--language", "-l"]
  | indent => ["--indent"]
  | supertypesFirst => ["--order-by-inheritance"]
  | listLanguages => ["--list-languages"]
  | verbose => ["--verbose", "-v"]

def takesValue : Switch → Bool
  | input | output | language | indent => true
  | _ => false

/-- All spellings of a switch, as messages show them. -/
def label (s : Switch) : String :=
  "/".intercalate s.spellings

/-- Every spelling with its switch, in the order of declaration. -/
def table : List (List Char × Switch) :=
  all.flatMap fun s => s.spellings.map fun sp => (sp.toList, s)

def ofSpelling? (sp : List Char) : Option Switch :=
  table.lookup sp

end Switch

end ClassSketch.CommandLine
