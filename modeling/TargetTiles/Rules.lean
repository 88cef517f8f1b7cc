import TargetTiles.Fault
import TargetTiles.OperandCheck

/-!
# Rules

The rules of a game: the two pools that tiles come from, how many tiles a round has, between
which bounds its target lies, and what is asked of operands.
-/

namespace TargetTiles

def standardLargePool : List Int64 := [25, 50, 75, 100]

/-- The small numbers of the standard game: one to ten, each twice. -/
def standardSmallPool : List Int64 :=
  [1, 1, 2, 2, 3, 3, 4, 4, 5, 5, 6, 6, 7, 7, 8, 8, 9, 9, 10, 10]

def standardTileCount : Nat := 6

/-- The rules of a game. -/
structure Rules where
  largePool : List Int64
  smallPool : List Int64
  tileCount : Nat
  targetMin : Int64
  targetMax : Int64
  operandCheck : OperandCheck
deriving DecidableEq, Repr

namespace Rules

def standard : Rules where
  largePool := standardLargePool
  smallPool := standardSmallPool
  tileCount := standardTileCount
  targetMin := 100
  targetMax := 999
  operandCheck := .presence

/-- The greatest number of large tiles a round can have. -/
def maxLarge (rules : Rules) : Nat := min rules.largePool.length rules.tileCount

/-- The least number of large tiles a round can have: those that the small pool is short of. -/
def minLarge (rules : Rules) : Nat := rules.tileCount - rules.smallPool.length

/-- The first fault for which no round can be dealt. -/
def fault? (rules : Rules) : Option RulesFault :=
  if rules.tileCount = 0 then some .noTiles
  else if 255 < rules.tileCount then some (.tooManyTiles rules.tileCount)
  else if rules.targetMax < rules.targetMin then
    some (.emptyTargetRange rules.targetMin rules.targetMax)
  else if rules.maxLarge < rules.minLarge then
    some (.poolsTooSmall (rules.largePool.length + rules.smallPool.length) rules.tileCount)
  else none

/-- Refuses rules by which no round can be dealt. -/
def validate (rules : Rules) : Except RoundError Unit :=
  match rules.fault? with
  | some fault => .error (.rules fault)
  | none => .ok ()

/-- Refuses a number of large tiles that the pools cannot supply. -/
def checkLarge (rules : Rules) (requested : Nat) : Except RoundError Unit :=
  if requested < rules.minLarge ∨ rules.maxLarge < requested then
    .error (.largeCount requested rules.maxLarge)
  else .ok ()

end Rules

end TargetTiles
