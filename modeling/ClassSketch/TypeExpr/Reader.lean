import ClassSketch.Text.Scan
import ClassSketch.TypeExpr.Basic
import ClassSketch.TypeExpr.Split

/-!
# Reading a type expression

Every text is a type expression. It is generic when it has the form
`base<inner>` with a base, matching brackets inside, and a non-empty list of
non-empty arguments; otherwise the whole trimmed text is its name.
-/

namespace ClassSketch.TypeExpr

open Text

/-- Whether a text is a list of arguments: brackets match, there is at least one
part, none is empty, and no comma ends the list. -/
def isArgList (inner : List Char) : Bool :=
  balanced inner && (trim inner).getLast? != some ',' && !(topLevelParts inner).isEmpty &&
    (topLevelParts inner).all (!·.isEmpty)

/-- The base and the arguments of a trimmed text of the form `base<inner>`. -/
def genericParts? (raw : List Char) : Option (List Char × List (List Char)) :=
  match cutAt '<' raw with
  | none => none
  | some (before, after) =>
    if after.getLast? = some '>' ∧ trim before ≠ [] ∧ isArgList after.dropLast then
      some (trim before, topLevelParts after.dropLast)
    else none

theorem length_lt_of_genericParts? {raw base : List Char} {parts : List (List Char)}
    (h : genericParts? raw = some (base, parts)) : ∀ p ∈ parts, p.length < raw.length := by
  intro p hp
  unfold genericParts? at h
  split at h
  · simp at h
  · next before after hcut =>
    split at h
    · simp only [Option.some.injEq, Prod.mk.injEq] at h
      rw [← h.2] at hp
      have h1 := length_le_of_mem_topLevelParts hp
      have h2 := length_lt_of_cutAt hcut
      simp only [List.length_dropLast] at h1
      omega
    · simp at h

def read (s : List Char) : TypeExpr :=
  match _h : genericParts? (trim s) with
  | none => ⟨String.ofList (trim s), []⟩
  | some (base, parts) =>
    ⟨String.ofList base, parts.attach.map fun ⟨p, _⟩ => read p⟩
termination_by s.length
decreasing_by
  next hp => exact Nat.lt_of_lt_of_le (length_lt_of_genericParts? _h p hp) (length_trim_le s)

def ofString (s : String) : TypeExpr :=
  read s.toList

/-- The name before the first angle bracket. -/
def baseName (s : List Char) : List Char :=
  trim (s.takeWhile (· != '<'))

/-- Whether a written type has both angle brackets, in whatever order. -/
def looksGeneric (s : String) : Bool :=
  s.contains '<' && s.contains '>'

/-- The container of a written type that looks generic; otherwise the text as it is. -/
def writtenBase (s : String) : String :=
  if looksGeneric s then String.ofList (baseName s.toList) else s

end ClassSketch.TypeExpr
