import ClassSketch.Text.Numeral
import ClassSketch.Text.Quoted

/-!
# Options

Options set the number of spaces per level and whether supertypes come
first. They may be given as loosely typed settings, as from a configuration
file, with keys in either of two spellings. `Options.ofSetting` reads them:
the indent is a whole number in whatever form, the order flag is whatever
the setting amounts to as a truth value.
-/

namespace ClassSketch

structure Options where
  /-- Spaces per level; each language has a size of its own. -/
  indentSize : Option Int := none
  supertypesFirst : Bool := false
deriving DecidableEq, Inhabited

/-- A loosely typed value. -/
inductive Setting where
  | null
  | bool (b : Bool)
  | int (n : Int)
  | real (x : Float)
  | text (s : String)
  | list (items : List Setting)
  | record (fields : List (String × Setting))
deriving Inhabited

namespace Setting

/-- The sort of a value, as messages name it. -/
def sort : Setting → String
  | null => "NoneType"
  | bool _ => "bool"
  | int _ => "int"
  | real _ => "float"
  | text _ => "str"
  | list _ => "list"
  | record _ => "dict"

/-- Zero and everything empty is false. -/
def truth : Setting → Bool
  | null => false
  | bool b => b
  | int n => n != 0
  | real x => x != 0.0
  | text s => s != ""
  | list items => !items.isEmpty
  | record fields => !fields.isEmpty

end Setting

namespace Options

inductive Fault where
  /-- The options are not a record. -/
  | notARecord (sort : String)
  /-- A text that is no whole number. -/
  | notANumeral (text : String)
  /-- A numeral with too many digits. -/
  | tooLong (digits : Nat)
  /-- A number without a whole part: infinite, or not a number at all. -/
  | notFinite (isNaN : Bool)
  /-- A value that stands for no number. -/
  | notANumber (sort : String)

/-- A message shows at most this much of a quoted numeral. -/
def quoteLimit : Nat := 200

def Fault.message : Fault → String
  | notARecord sort => "'" ++ sort ++ "' object has no attribute 'get'"
  | notANumeral s =>
    "invalid literal for int() with base 10: " ++
      String.ofList ((Text.quotedChars s.toList).take quoteLimit)
  | tooLong n =>
    "Exceeds the limit (" ++ toString Text.Numeral.maxDigits ++
      " digits) for integer string conversion: value has " ++ toString n ++
      " digits; use sys.set_int_max_str_digits() to increase the limit"
  | notFinite isNaN =>
    if isNaN then "cannot convert float NaN to integer"
    else "cannot convert float infinity to integer"
  | notANumber sort =>
    "int() argument must be a string, a bytes-like object or a real number, not '" ++ sort ++ "'"

/-- The whole part of a finite binary64 number, from its bits. -/
def wholePart (x : Float) : Int :=
  let bits := x.toBits.toNat
  let exponent := bits / Nat.pow 2 52 % Nat.pow 2 11
  let fraction := bits % Nat.pow 2 52
  let magnitude : Nat :=
    if exponent < 1023 then 0
    else if exponent < 1075 then (Nat.pow 2 52 + fraction) / Nat.pow 2 (1075 - exponent)
    else (Nat.pow 2 52 + fraction) * Nat.pow 2 (exponent - 1075)
  if bits < Nat.pow 2 63 then magnitude else -magnitude

def wholeNumber : Setting → Except Fault Int
  | .bool b => .ok (if b then 1 else 0)
  | .int n => .ok n
  | .real x => if x.isNaN || x.isInf then .error (.notFinite x.isNaN) else .ok (wholePart x)
  | .text s =>
    match Text.Numeral.read s.toList with
    | .ok n => .ok n
    | .error .malformed => .error (.notANumeral s)
    | .error (.tooLong n) => .error (.tooLong n)
  | s => .error (.notANumber s.sort)

/-- The indent of a setting; none if the setting is null. -/
def indentOf : Setting → Except Fault (Option Int)
  | .null => .ok none
  | s => (wholeNumber s).map some

/-- The first of the given keys that is present, null if none is. -/
def lookupFirst (fields : List (String × Setting)) (keys : List String) : Setting :=
  (keys.findSome? fun key => fields.lookup key).getD .null

def ofSetting : Setting → Except Fault Options
  | .null => .ok {}
  | .record fields =>
    (indentOf (lookupFirst fields ["indent_size", "indentSize"])).map fun indentSize =>
      { indentSize
        supertypesFirst :=
          (lookupFirst fields ["order_by_inheritance", "orderByInheritance"]).truth }
  | s => .error (.notARecord s.sort)

end Options

end ClassSketch
