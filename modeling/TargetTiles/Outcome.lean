import TargetTiles.Tile

/-!
# Outcomes

What is left of a round once the player has committed: the target, and the number reached.
-/

namespace TargetTiles

/-- The result of a round. -/
structure Outcome where
  target : Int64
  final : Float
deriving BEq, Repr

namespace Outcome

/-- How far the number reached is from the target, counted in floats. -/
def distance (outcome : Outcome) : Float := (nearestFloat outcome.target - outcome.final).abs

/-- Whether no distance is left. -/
def isExact (outcome : Outcome) : Bool := outcome.distance == 0.0

end Outcome

end TargetTiles
