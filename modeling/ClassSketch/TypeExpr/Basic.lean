/-!
# Type expressions

A type expression is a name with type arguments, each again a type
expression. One without arguments is a plain named type; with arguments its
name is the container, as in `Map<String, List<Integer>>`.

`TypeExpr.chars` writes it in that form. `chars_eq_intercalate` says that
the arguments stand between one pair of angle brackets, separated by a
comma and a space.
-/

namespace ClassSketch

structure TypeExpr where
  name : String
  args : List TypeExpr := []
deriving Inhabited

namespace TypeExpr

def isGeneric (t : TypeExpr) : Bool :=
  !t.args.isEmpty

mutual

def chars : TypeExpr → List Char
  | ⟨name, args⟩ => name.toList ++ argChars args

/-- The argument list with its brackets; nothing for an empty list. -/
def argChars : List TypeExpr → List Char
  | [] => []
  | a :: as => '<' :: a.chars ++ moreChars as

/-- The arguments after the first, each after a separator, and the closing bracket. -/
def moreChars : List TypeExpr → List Char
  | [] => ['>']
  | a :: as => ',' :: ' ' :: a.chars ++ moreChars as

end

def render (t : TypeExpr) : String :=
  String.ofList t.chars

theorem chars_plain (name : String) : chars ⟨name, []⟩ = name.toList := by
  simp [chars, argChars]

theorem moreChars_eq_intercalate (a : TypeExpr) (as : List TypeExpr) :
    a.chars ++ moreChars as = [',', ' '].intercalate ((a :: as).map chars) ++ ['>'] := by
  induction as generalizing a with
  | nil => simp [moreChars, List.intercalate]
  | cons b bs ih => simp [moreChars, ih, List.intercalate_cons_cons]

theorem chars_eq_intercalate (name : String) (a : TypeExpr) (as : List TypeExpr) :
    chars ⟨name, a :: as⟩ =
      name.toList ++ '<' :: [',', ' '].intercalate ((a :: as).map chars) ++ ['>'] := by
  simp only [chars, argChars, List.cons_append, moreChars_eq_intercalate]
  simp

end TypeExpr

end ClassSketch
