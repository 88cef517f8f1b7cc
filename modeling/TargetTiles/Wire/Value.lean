import TargetTiles.Fault

/-!
# Wire values

The values that leave and enter the game: a tree of lists and records with numbers and texts at
its ends. What is read from a document may hold two further ends, and neither stands for a value.
A literal that is well formed but denotes nothing, such as a number beyond every float, is
unreadable: it may be passed over, never used. At the place where the text of a document stops
making sense the tree holds a mark, so that a reader who goes through the tree in order meets the
faults of its text and the faults of its content in the order in which the text has them.
-/

namespace TargetTiles

/-- A value on the wire. -/
inductive Wire where
  | null
  | bool (value : Bool)
  | int (value : Int)
  | float (value : Float)
  | text (value : String)
  | list (items : List Wire)
  /-- Named entries in order. A name is absent where its literal denotes no text. -/
  | record (entries : List (Option String × Wire))
  /-- A literal that denotes nothing. -/
  | unreadable
  /-- The place where the text stops making sense. -/
  | malformed
deriving Repr

/-- Why a wire value is not the value asked for. -/
inductive DecodeError where
  /-- Its text or its form is not right. -/
  | malformed
  /-- Its form is right, but what it says is refused. -/
  | refused (error : RoundError)
deriving DecidableEq, Repr

/-- What reading a wire value gives. -/
abbrev Decoded (α : Type) := Except DecodeError α

namespace Wire

/-- A record with these fields in order. -/
def ofFields (fields : List (String × Wire)) : Wire :=
  .record (fields.map fun (name, value) => (some name, value))

mutual

/-- Whether the value can be passed over, its text making sense to the end. -/
def isSkippable : Wire → Bool
  | .malformed => false
  | .list items => areSkippable items
  | .record entries => entriesSkippable entries
  | _ => true

/-- Whether all of the values can be passed over. -/
def areSkippable : List Wire → Bool
  | [] => true
  | item :: items => isSkippable item && areSkippable items

/-- Whether the values of all entries can be passed over, whatever their names. -/
def entriesSkippable : List (Option String × Wire) → Bool
  | [] => true
  | (_, value) :: entries => isSkippable value && entriesSkippable entries

end

/-! ## Numbers -/

/-- Reads a whole number from 0 up to, but not including, `2 ^ bits`. -/
def natBelow (bits : Nat) : Wire → Decoded Nat
  | .int n => if 0 ≤ n ∧ n.toNat < 1 <<< bits then .ok n.toNat else .error .malformed
  | _ => .error .malformed

/-- Reads a whole number of 64 bits with its sign. -/
def int64 : Wire → Decoded Int64
  | .int n =>
    if Int64.minValue.toInt ≤ n ∧ n ≤ Int64.maxValue.toInt then .ok (Int64.ofInt n)
    else .error .malformed
  | _ => .error .malformed

/-- Reads a whole number of 64 bits without a sign. -/
def uint64 (wire : Wire) : Decoded UInt64 := (wire.natBelow 64).map UInt64.ofNat

/-- A whole number of 64 bits as a wire value. -/
def ofInt64 (n : Int64) : Wire := .int n.toInt

/-! ## Lists -/

/-- Reads a list whose items are all read alike. -/
def listOf {α : Type} (read : Wire → Decoded α) : Wire → Decoded (List α)
  | .list items => items.mapM read
  | _ => .error .malformed

end Wire

end TargetTiles
