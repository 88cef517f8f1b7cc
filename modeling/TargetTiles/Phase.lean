/-!
# Phases and commands

The three phases a round goes through, and the commands that move it along. Both are known to
users by the names given here, which error texts and log lines repeat.
-/

namespace TargetTiles

/-- Where a round stands. -/
inductive Phase where
  | initial
  | playing
  | done
deriving DecidableEq, Repr

/-- The phase as a message names it. -/
def Phase.text : Phase → String
  | .initial => "initial"
  | .playing => "playing"
  | .done => "done"

/-- What a player may ask for. -/
inductive Command where
  | startRound
  | appendToken
  | removeLastToken
  | commit
  | reset
deriving DecidableEq, Repr

def Command.text : Command → String
  | .startRound => "start_round"
  | .appendToken => "append_token"
  | .removeLastToken => "remove_last_token"
  | .commit => "commit"
  | .reset => "reset"

end TargetTiles
