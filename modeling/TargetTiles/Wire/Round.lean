import TargetTiles.Decimal.Reading
import TargetTiles.Round
import TargetTiles.Wire.Rules
import TargetTiles.Wire.Setup

/-!
# Rounds on the wire

A snapshot of a round. The value of the tokens is not part of it: a round in play is restored from
its setup and its tokens, which are checked and evaluated anew. A final value that is no finite
number is written as text.
-/

namespace TargetTiles

open Wire

/-! ## Phases -/

/-- The name of a phase on the wire. -/
def Phase.wireName : Phase → String
  | .initial => "Initial"
  | .playing => "Playing"
  | .done => "Done"

/-- A phase is written as its name. -/
def Phase.toWire (phase : Phase) : Wire := .text phase.wireName

/-- Reads a phase by its name. -/
def Phase.ofWire : Wire → Decoded Phase :=
  readName fun name => [Phase.initial, .playing, .done].find? (·.wireName == name)

/-! ## Rounds in play -/

/-- A round in play is written without its value, which its tokens tell. -/
def Play.toWire (play : Play) : Wire :=
  .ofFields [("setup", play.setup.toWire), ("tokens", .list (play.tokens.map Token.toWire)),
    ("operand_check", play.check.toWire)]

/-- A round in play of which some fields may not have been read yet. -/
structure Play.Draft where
  setup : Option Setup := none
  tokens : Option (List Token) := none
  check : Option OperandCheck := none

/-- The fields of a round in play, in the order in which a list gives them. -/
def Play.fields : List (RecordField Play.Draft) :=
  [.of "setup" Setup.ofWire (·.setup) fun draft setup => { draft with setup := some setup },
    .of "tokens" (listOf Token.ofWire) (·.tokens)
      fun draft tokens => { draft with tokens := some tokens },
    .of "operand_check" OperandCheck.ofWire (·.check)
      fun draft check => { draft with check := some check }]

/-- Reads a round in play. Where no operand check is given, operands only have to be there. -/
def Play.ofWire (wire : Wire) : Decoded Play := do
  let draft ← readRecord Play.fields {} wire
  accepted (Play.restore (← required draft.setup) (← required draft.tokens)
    (draft.check.getD .presence))

/-! ## Outcomes -/

/-- Writes a final value: a number if it is finite, its name otherwise. -/
def finalToWire (final : Float) : Wire :=
  if final.isFinite then .float final else .text (Decimal.Style.plain.write final)

/-- Reads a final value from a number or from the text of one. -/
def finalOfWire : Wire → Decoded Float
  | .float value => .ok value
  | .int n =>
    let value := Float.ofInt n
    if value.isInf then .error .malformed else .ok value
  | .text word => required (Decimal.ofText? word)
  | _ => .error .malformed

/-- An outcome is written as its target and its final value. -/
def Outcome.toWire (outcome : Outcome) : Wire :=
  .ofFields [("target", .ofInt64 outcome.target), ("final_value", finalToWire outcome.final)]

/-- An outcome of which some fields may not have been read yet. -/
structure Outcome.Draft where
  target : Option Int64 := none
  final : Option Float := none

/-- The fields of an outcome, in the order in which a list gives them. -/
def Outcome.fields : List (RecordField Outcome.Draft) :=
  [.of "target" int64 (·.target) fun draft target => { draft with target := some target },
    .of "final_value" finalOfWire (·.final)
      fun draft final => { draft with final := some final }]

/-- Reads an outcome; neither field may be missing. -/
def Outcome.ofWire (wire : Wire) : Decoded Outcome := do
  let draft ← readRecord Outcome.fields {} wire
  return ⟨← required draft.target, ← required draft.final⟩

/-! ## Rounds -/

/-- A round is written as a choice named for its phase. At a table without a round the name is
all. -/
def Round.toWire : Round → Wire
  | .initial => Phase.initial.toWire
  | .playing play => .ofFields [(Phase.playing.wireName, play.toWire)]
  | .done outcome => .ofFields [(Phase.done.wireName, outcome.toWire)]

/-- Reads a round as a choice by the name of its phase. -/
def Round.ofWire : Wire → Decoded Round :=
  readChoice (fun name => if name = Phase.initial.wireName then some .initial else none)
    fun name =>
      if name = Phase.playing.wireName then some fun content => (Play.ofWire content).map .playing
      else if name = Phase.done.wireName then
        some fun content => (Outcome.ofWire content).map .done
      else none

end TargetTiles
