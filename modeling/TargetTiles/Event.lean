import TargetTiles.Decimal.Style
import TargetTiles.Outcome
import TargetTiles.Token

/-!
# Events

What a round reports while it is played. Warnings tell of operators that could not be carried
out; the other events trace the course of the round.
-/

namespace TargetTiles

/-- One report. -/
inductive Event where
  /-- An operator of the token stream found no two operands it could use. -/
  | skipped (op : Operator) (position : Nat)
  | dealt (target : Int64) (values : List Int64)
  /-- A round was given up for a new one. -/
  | discarded (phase : Phase)
  | started (target : Int64)
  | appended (token : Token) (value : Option Float)
  | removed (token : Token) (value : Option Float)
  | committed (outcome : Outcome)
  /-- The round was given up. -/
  | cleared (phase : Phase)

namespace Event

def isWarning : Event → Bool
  | .skipped _ _ => true
  | _ => false

/-- A value that may be absent, with a point in every number. -/
def valueText : Option Float → String
  | none => "None"
  | some value => s!"Some({Decimal.Style.exact.write value})"

/-- A list of whole numbers in brackets. -/
def listText (values : List Int64) : String :=
  "[" ++ String.intercalate ", " (values.map fun value => toString value.toInt) ++ "]"

def text : Event → String
  | .skipped op position => s!"skipping `{op.text}` at position {position}: not enough operands"
  | .dealt target values => s!"dealt target {target.toInt} with tiles {listText values}"
  | .discarded phase => s!"discarding {phase.text} round to start a new one"
  | .started target => s!"round started: target {target.toInt}"
  | .appended token value => s!"appended `{token.text}`, value now {valueText value}"
  | .removed token value => s!"removed `{token.text}`, value now {valueText value}"
  | .committed outcome =>
    let final := Decimal.Style.plain.write outcome.final
    let distance := Decimal.Style.plain.write outcome.distance
    s!"round committed: {final} for target {outcome.target.toInt} (off by {distance})"
  | .cleared phase => s!"reset from {phase.text}"

/-- The report as one line of a log, its level first. -/
def line (event : Event) : String :=
  (if event.isWarning then "WARN " else "DEBUG ") ++ event.text

end Event

end TargetTiles
