/-!
# Operand checks

Which numbers an operator accepts as operands.
-/

namespace TargetTiles

/-- What is asked of an operand. -/
inductive OperandCheck where
  /-- It has to be there. -/
  | presence
  /-- It has to be there and to be a number other than zero. -/
  | truthy
deriving DecidableEq, Repr

/-- Whether an operand that is there is turned down. -/
def OperandCheck.rejects (check : OperandCheck) (operand : Float) : Bool :=
  match check with
  | .presence => false
  | .truthy => operand == 0.0 || operand.isNaN

end TargetTiles
