import TargetTiles.Fault
import TargetTiles.Text.Blank

/-!
# Operators

The four operations of arithmetic, how each is written, and how a written one is read.
-/

namespace TargetTiles

/-- An operation on two numbers. -/
inductive Operator where
  | add
  | subtract
  | multiply
  | divide
deriving DecidableEq, Repr

namespace Operator

/-- The operators in the order they are offered. -/
def all : List Operator := [.add, .subtract, .multiply, .divide]

/-- The value of the operation, left operand first. Division by zero is the float division. -/
def apply : Operator → Float → Float → Float
  | .add, lhs, rhs => lhs + rhs
  | .subtract, lhs, rhs => lhs - rhs
  | .multiply, lhs, rhs => lhs * rhs
  | .divide, lhs, rhs => lhs / rhs

def symbol : Operator → Char
  | .add => '+'
  | .subtract => '-'
  | .multiply => '*'
  | .divide => '/'

def text (op : Operator) : String := op.symbol.toString

/-- The spellings by which the operator is recognised. -/
def spellings : Operator → List String
  | .add => ["+"]
  | .subtract => ["-"]
  | .multiply => ["*", "x", "×"]
  | .divide => ["/", "÷"]

/-- Reads an operator between blanks. A text that is none is reported without its margins. -/
def parse (text : String) : Except RoundError Operator :=
  let word := Text.trim text
  match all.find? (·.spellings.contains word) with
  | some op => .ok op
  | none => .error (.unrecognised word)

end Operator

end TargetTiles
