import TargetTiles.Event
import TargetTiles.Fault

/-!
# Replies

What comes back from a request to something that has a state: the answer or the refusal, the
state afterwards, and the events reported on the way.
-/

namespace TargetTiles

/-- The reply to a request for an `α`, from something with the states `σ`. -/
structure Reply (σ α : Type) where
  result : Except RoundError α
  next : σ
  events : List Event

namespace Reply

variable {σ α : Type}

/-- A refusal that changes and reports nothing. -/
def refuse (error : RoundError) (state : σ) : Reply σ α := ⟨.error error, state, []⟩

end Reply

end TargetTiles
