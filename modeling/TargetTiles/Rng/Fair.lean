/-!
# Fair choice from one word

How a word of so many bits settles a choice among a range of numbers. The word is multiplied by
the range; the high half of the product is the choice, and the low half tells whether the word
counts. The words that do not count are those that would favour some numbers over others.
-/

namespace TargetTiles.Fair

/-- The greatest low half with which a word still counts: the greatest product of the range and a
power of two that fits the word, less one. -/
def zone (bits range : Nat) : Nat := range <<< (bits - (range.log2 + 1)) - 1

/-- The number below `range` that a word of `bits` bits chooses, if the word counts. -/
def choose? (bits range word : Nat) : Option Nat :=
  if word * range % (1 <<< bits) ≤ zone bits range then some ((word * range) >>> bits) else none

end TargetTiles.Fair
