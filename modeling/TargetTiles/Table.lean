import TargetTiles.Deal
import TargetTiles.Round

/-!
# The table

A table is where rounds are played one after the other: it has its rules, the operand check that
rounds are begun with, its random source and the round it is at. Every command gives a reply; a
refused command leaves the table as it was.
-/

namespace TargetTiles

/-- A table at which rounds are played. -/
structure Table where
  rules : Rules
  /-- What is asked of operands in the rounds that are begun. -/
  check : OperandCheck
  rng : Rng
  round : Round

namespace Table

/-- A table with the standard rules. -/
def standard (seed : UInt64) : Table := ⟨.standard, .presence, .ofSeed seed, .initial⟩

/-- A table with rules of its own, by which some round can be dealt. Its rounds are begun with the
check that the rules name. -/
def withRules (rules : Rules) (rng : Rng) : Except RoundError Table := do
  rules.validate
  return ⟨rules, rules.operandCheck, rng, .initial⟩

/-! ## Starting a round -/

/-- Puts a setup into play, in place of whatever round the table was at. -/
def begin (table : Table) (setup : Setup) : Table × List Event :=
  let given := match table.round with
    | .initial => []
    | round => [.discarded round.phase]
  ({ table with round := .playing (.fresh setup table.check) },
    given ++ [.started setup.target])

/-- Deals a round and puts it into play. -/
def start (table : Table) (large : Nat) : Reply Table Setup :=
  let deal := table.rules.deal large table.rng
  -- the source goes on from where the deal left it, refused or not
  let dealt := { table with rng := deal.next }
  match deal.result with
  | .error error => ⟨.error error, dealt, deal.events⟩
  | .ok setup =>
    let (next, events) := dealt.begin setup
    ⟨.ok setup, next, deal.events ++ events⟩

/-- Puts a setup into play that could have been dealt. -/
def startWith (table : Table) (setup : Setup) : Reply Table Setup :=
  match table.rules.checkSetup setup with
  | .error error => .refuse error table
  | .ok () =>
    let (next, events) := table.begin setup
    ⟨.ok setup, next, events⟩

/-! ## Playing -/

/-- Enters a token and gives the value of all tokens entered. -/
def append (table : Table) (token : Token) : Reply Table (Option Float) :=
  match table.round with
  | .playing play =>
    match play.permit token with
    | .error error => .refuse error table
    | .ok () =>
      let play := play.push token
      ⟨.ok play.value, { table with round := .playing play },
        play.warnings ++ [.appended token play.value]⟩
  | round => .refuse (.notAllowed .appendToken round.phase) table

/-- Enters the tile of a slot. -/
def appendTile (table : Table) (id : TileId) : Reply Table (Option Float) :=
  match table.round with
  | .playing play =>
    match play.setup.tile? id with
    | some tile => table.append (.tile tile)
    | none => .refuse (.unknownTile id) table
  | round => .refuse (.notAllowed .appendToken round.phase) table

def appendOperator (table : Table) (op : Operator) : Reply Table (Option Float) :=
  table.append (.operator op)

/-- Takes the last token back, if there is one, and gives it. -/
def removeLast (table : Table) : Reply Table (Option Token) :=
  match table.round with
  | .playing play =>
    match play.pop? with
    | some (token, play) =>
      ⟨.ok (some token), { table with round := .playing play },
        play.warnings ++ [.removed token play.value]⟩
    | none => ⟨.ok none, table, []⟩
  | round => .refuse (.notAllowed .removeLastToken round.phase) table

/-! ## Ending a round -/

/-- Settles the round with the value of its tokens, which counts as 0 if there is none. -/
def commit (table : Table) : Reply Table Outcome :=
  match table.round with
  | .playing play =>
    let outcome : Outcome := ⟨play.setup.target, play.value.getD 0.0⟩
    ⟨.ok outcome, { table with round := .done outcome }, [.committed outcome]⟩
  | round => .refuse (.notAllowed .commit round.phase) table

/-- Clears the table of its round, whichever it is. -/
def reset (table : Table) : Reply Table Unit :=
  let events := match table.round with
    | .initial => []
    | round => [.cleared round.phase]
  ⟨.ok (), { table with round := .initial }, events⟩

/-! ## What can be seen -/

/-- The value of the tokens entered, while a round is played. -/
def value (table : Table) : Option Float := table.round.play?.bind (·.value)

/-- The tiles not entered yet, while a round is played. -/
def available (table : Table) : List Tile := (table.round.play?.map (·.available)).getD []

end Table

end TargetTiles
