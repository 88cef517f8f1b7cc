import TargetTiles.Outcome
import TargetTiles.Play

/-!
# Rounds

A round from before the deal to after the commit.
-/

namespace TargetTiles

/-- A round in one of its phases. -/
inductive Round where
  | initial
  | playing (play : Play)
  | done (outcome : Outcome)
deriving BEq, Repr

namespace Round

def phase : Round → Phase
  | .initial => .initial
  | .playing _ => .playing
  | .done _ => .done

/-- The round in play, if it is one. -/
def play? : Round → Option Play
  | .playing play => some play
  | _ => none

/-- The outcome, once the round is settled. -/
def outcome? : Round → Option Outcome
  | .done outcome => some outcome
  | _ => none

/-- The warnings that working out the value of the round gives. -/
def warnings : Round → List Event
  | .playing play => play.warnings
  | _ => []

end Round

end TargetTiles
