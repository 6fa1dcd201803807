import ClassSketch.Diagram.Basic

/-!
# Arrows

An arrow has a tip at either end and a solid or dotted stroke between them.
`Arrow.meaning?` is the table of the arrows that stand for a relationship:
its kind, and the direction in which the arrow is drawn. An arrow drawn
from right to left has its source on the right.
-/

namespace ClassSketch

/-- The end of an arrow: nothing, `<|`, `<`, `*` or `o`. On the right the first two are
`|>` and `>`. -/
inductive Tip where
  | plain
  | triangle
  | angle
  | diamond
  | circle
deriving DecidableEq

inductive Stroke where
  | solid
  | dotted
deriving DecidableEq

inductive Direction where
  | rightward
  | leftward
deriving DecidableEq

structure Arrow where
  head : Tip
  stroke : Stroke
  tail : Tip
deriving DecidableEq

def Arrow.meaning? : Arrow → Option (RelationKind × Direction)
  | ⟨.triangle, .solid, .plain⟩ => some (.inheritance, .rightward)
  | ⟨.plain, .solid, .triangle⟩ => some (.inheritance, .leftward)
  | ⟨.triangle, .dotted, .plain⟩ => some (.implementation, .rightward)
  | ⟨.plain, .dotted, .triangle⟩ => some (.implementation, .leftward)
  | ⟨.circle, .solid, .angle⟩ => some (.aggregation, .rightward)
  | ⟨.circle, .solid, .plain⟩ => some (.aggregation, .rightward)
  | ⟨.angle, .solid, .circle⟩ => some (.aggregation, .leftward)
  | ⟨.plain, .solid, .circle⟩ => some (.aggregation, .leftward)
  | ⟨.diamond, .solid, .angle⟩ => some (.composition, .rightward)
  | ⟨.diamond, .solid, .plain⟩ => some (.composition, .rightward)
  | ⟨.angle, .solid, .diamond⟩ => some (.composition, .leftward)
  | ⟨.plain, .solid, .diamond⟩ => some (.composition, .leftward)
  | ⟨.plain, .dotted, .angle⟩ => some (.dependency, .rightward)
  | ⟨.angle, .dotted, .plain⟩ => some (.dependency, .leftward)
  | ⟨.plain, .solid, .angle⟩ => some (.association, .rightward)
  | ⟨.plain, .solid, .plain⟩ => some (.association, .rightward)
  | ⟨.angle, .solid, .plain⟩ => some (.association, .leftward)
  | _ => none

end ClassSketch
