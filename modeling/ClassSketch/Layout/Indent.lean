import ClassSketch.Layout.Width

/-!
# Indented text

Code is put together from texts. `Margin.indent` moves a text inwards: it puts
spaces before each of its lines that is not empty, and a negative size means
none. What it moves may itself hold lines that were moved before.
-/

namespace ClassSketch.Layout

/-- Spaces, none for a negative number. -/
def spaces (n : Int) : String :=
  String.ofList (List.replicate n.toNat ' ')

/-- Puts spaces before a line that is not empty. -/
def padLine (width : Int) (line : String) : String :=
  if line = "" then line else spaces width ++ line

/-- The parts of a text between its line feeds. -/
def splitText (s : String) : List String :=
  (s.toList.splitOn '\n').map String.ofList

/-- Texts one below the other. -/
def joinLines (texts : List String) : String :=
  "\n".intercalate texts

/-- What text is indented with. -/
structure Margin where
  /-- Spaces per level. -/
  size : Int
  /-- The number of spaces that there is memory for. -/
  memory : Nat

/-- What keeps a text from being moved in by a number of levels. -/
def Margin.fault? (m : Margin) (level : Int) : Option WidthFault :=
  widthFault? m.memory (level * m.size)

/-- A text, unless a padding could not be made. -/
abbrev Spliced := Except WidthFault String

/-- Puts `level * size` spaces before every line of a text that is not empty. -/
def Margin.indent (m : Margin) (level : Int) (s : String) : Spliced :=
  match m.fault? level with
  | some f => .error f
  | none => .ok (joinLines ((splitText s).map (padLine (level * m.size))))

end ClassSketch.Layout
