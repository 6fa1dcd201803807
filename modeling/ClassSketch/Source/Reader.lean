import ClassSketch.Source.Cursor
import ClassSketch.Source.Fragment

/-!
# Reading a diagram

A text is read by stepping through its fragments. `Reader.run` keeps the
fragments that were skipped; `Reader.trace` also keeps every state on the
way. Reading never fails: what is not understood is skipped.
-/

namespace ClassSketch

namespace Source

/-- A fragment that contributed nothing, and why. -/
structure Skipped where
  fragment : Fragment
  reason : SkipReason
deriving DecidableEq

namespace Reader

/-- Steps through fragments; the skipped ones in order. -/
def run (r : Reader) : List Fragment → Reader × List Skipped
  | [] => (r, [])
  | f :: fs =>
    let (r', reason) := r.step f.text
    let (last, skipped) := r'.run fs
    (last, (reason.map fun reason => { fragment := f, reason }).toList ++ skipped)

/-- The fragments with the reason and the state after each. -/
def trace (r : Reader) : List Fragment → List (Fragment × Option SkipReason × Reader)
  | [] => []
  | f :: fs => (f, (r.step f.text).2, (r.step f.text).1) :: (r.step f.text).1.trace fs

theorem run_append (r : Reader) (fs gs : List Fragment) :
    r.run (fs ++ gs) =
      (((r.run fs).1.run gs).1, (r.run fs).2 ++ ((r.run fs).1.run gs).2) := by
  induction fs generalizing r with
  | nil => simp [run]
  | cons f fs ih => simp [run, ih]

end Reader

end Source

open Source

/-- What a diagram text says, and the fragments that said nothing. -/
structure Reading where
  diagram : Diagram
  skipped : List Skipped

def Reading.ofText (text : String) : Reading :=
  let (r, skipped) := Reader.run {} (fragments text.toList)
  { diagram := r.diagram, skipped }

end ClassSketch
