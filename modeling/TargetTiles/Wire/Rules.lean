import TargetTiles.Rules
import TargetTiles.Wire.Record

/-!
# Rules on the wire

Rules are a record of their six fields. Whether a round can be dealt by them is not looked at
while they are read.
-/

namespace TargetTiles

open Wire

/-! ## Operand checks -/

/-- The name of an operand check on the wire. -/
def OperandCheck.wireName : OperandCheck → String
  | .presence => "Presence"
  | .truthy => "Truthy"

/-- An operand check is written as its name. -/
def OperandCheck.toWire (check : OperandCheck) : Wire := .text check.wireName

/-- Reads an operand check by its name. -/
def OperandCheck.ofWire : Wire → Decoded OperandCheck :=
  readName fun name => [OperandCheck.presence, .truthy].find? (·.wireName == name)

/-! ## Rules -/

/-- Rules are written field by field. -/
def Rules.toWire (rules : Rules) : Wire :=
  .ofFields [("large_pool", .list (rules.largePool.map .ofInt64)),
    ("small_pool", .list (rules.smallPool.map .ofInt64)),
    ("tile_count", .int rules.tileCount),
    ("target_min", .ofInt64 rules.targetMin),
    ("target_max", .ofInt64 rules.targetMax),
    ("operand_check", rules.operandCheck.toWire)]

/-- Rules of which some fields may not have been read yet. -/
structure Rules.Draft where
  largePool : Option (List Int64) := none
  smallPool : Option (List Int64) := none
  tileCount : Option Nat := none
  targetMin : Option Int64 := none
  targetMax : Option Int64 := none
  operandCheck : Option OperandCheck := none

/-- The fields of rules, in the order in which a list gives them. -/
def Rules.fields : List (RecordField Rules.Draft) :=
  [.of "large_pool" (listOf int64) (·.largePool)
      fun draft pool => { draft with largePool := some pool },
    .of "small_pool" (listOf int64) (·.smallPool)
      fun draft pool => { draft with smallPool := some pool },
    .of "tile_count" (natBelow 64) (·.tileCount)
      fun draft count => { draft with tileCount := some count },
    .of "target_min" int64 (·.targetMin)
      fun draft target => { draft with targetMin := some target },
    .of "target_max" int64 (·.targetMax)
      fun draft target => { draft with targetMax := some target },
    .of "operand_check" OperandCheck.ofWire (·.operandCheck)
      fun draft check => { draft with operandCheck := some check }]

/-- Reads rules, valid or not; no field may be missing. -/
def Rules.ofWire (wire : Wire) : Decoded Rules := do
  let draft ← readRecord Rules.fields {} wire
  return {
    largePool := ← required draft.largePool
    smallPool := ← required draft.smallPool
    tileCount := ← required draft.tileCount
    targetMin := ← required draft.targetMin
    targetMax := ← required draft.targetMax
    operandCheck := ← required draft.operandCheck }

end TargetTiles
