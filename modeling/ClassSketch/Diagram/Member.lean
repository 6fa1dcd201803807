import ClassSketch.TypeExpr.Basic

/-!
# Members

What the body of a class or interface holds: attributes, methods, and for a
class constructors. A constructor is a method without a return type.
-/

namespace ClassSketch

/-- Who may see a member. A diagram built by hand may use a word of its own. -/
inductive Visibility where
  | everyone
  | own
  | inherited
  | package
  | other (word : String)
deriving DecidableEq, Inhabited

namespace Visibility

/-- The sign that stands before a member. -/
def ofSign? : Char → Option Visibility
  | '+' => some everyone
  | '-' => some own
  | '#' => some inherited
  | '~' => some package
  | _ => none

def word : Visibility → String
  | everyone => "public"
  | own => "private"
  | inherited => "protected"
  | package => "package"
  | other w => w

def ofWord (w : String) : Visibility :=
  if w = "public" then everyone
  else if w = "private" then own
  else if w = "protected" then inherited
  else if w = "package" then package
  else other w

theorem word_ofWord (w : String) : (ofWord w).word = w := by
  unfold ofWord
  repeat' split
  all_goals simp_all [word]

end Visibility

/-- A parameter of a method; `type` is absent only in diagrams built by hand. -/
structure Parameter where
  name : String
  type : Option TypeExpr
deriving Inhabited

/-- A field of a class. -/
structure Attribute where
  name : String
  type : Option TypeExpr
  visibility : Visibility := .everyone
  isStatic : Bool := false
  isFinal : Bool := false
deriving Inhabited

/-- A method, or a constructor when nothing is returned. -/
structure Method where
  name : String
  returns : Option TypeExpr
  parameters : List Parameter := []
  visibility : Visibility := .everyone
  isStatic : Bool := false
  isAbstract : Bool := false
deriving Inhabited

end ClassSketch
