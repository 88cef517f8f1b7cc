import TargetTiles.Event
import TargetTiles.OperandCheck
import TargetTiles.Token

/-!
# Evaluation

A token stream is read as postfix notation. A tile puts its number on top of the operands; an
operator takes the two topmost operands away and puts its value in their place. An operator that
finds fewer than two leaves everything as it is. One whose operands are there but are turned down
by the check takes both away and puts nothing back. Either way it counts as skipped, and reading
goes on, so every stream has an evaluation.

The value of a stream is the lowest operand left, whatever lies above it.
-/

namespace TargetTiles

/-- Where the reading of a token stream stands. -/
structure Evaluation where
  /-- The operands that are left, the topmost first. -/
  operands : List Float
  /-- How many operators were skipped. -/
  skipped : Nat
deriving BEq, Repr

/-- The operands that an operator leaves, and whether it was carried out. -/
def OperandCheck.reduce (check : OperandCheck) (op : Operator) : List Float → List Float × Bool
  | rhs :: lhs :: below =>
    if check.rejects rhs || check.rejects lhs then (below, false)
    else (op.apply lhs rhs :: below, true)
  | operands => (operands, false)

namespace Evaluation

def empty : Evaluation := ⟨[], 0⟩

def read (check : OperandCheck) (evaluation : Evaluation) : Token → Evaluation
  | .tile t => { evaluation with operands := t.operand :: evaluation.operands }
  | .operator op =>
    match check.reduce op evaluation.operands with
    | (operands, true) => { evaluation with operands }
    | (operands, false) => ⟨operands, evaluation.skipped + 1⟩

/-- Reads a token stream from its beginning. -/
def ofTokens (check : OperandCheck) (tokens : List Token) : Evaluation :=
  tokens.foldl (read check) empty

/-- The operands left, the lowest first. -/
def stack (evaluation : Evaluation) : List Float := evaluation.operands.reverse

/-- The lowest operand left. -/
def value (evaluation : Evaluation) : Option Float := evaluation.operands.getLast?

/-- Whether exactly one operand is left. -/
def isComplete (evaluation : Evaluation) : Bool := evaluation.operands.length == 1

/-- The warnings that reading the rest of a stream gives, the next token being at `position`. -/
def warningsFrom (check : OperandCheck) (evaluation : Evaluation) (position : Nat) :
    List Token → List Event
  | [] => []
  | token :: rest =>
    let later := warningsFrom check (evaluation.read check token) (position + 1) rest
    match token with
    | .tile _ => later
    | .operator op =>
      if (check.reduce op evaluation.operands).2 then later else .skipped op position :: later

/-- The warnings that reading a token stream gives, one for each operator skipped. -/
def warnings (check : OperandCheck) (tokens : List Token) : List Event :=
  warningsFrom check empty 0 tokens

end Evaluation

end TargetTiles
