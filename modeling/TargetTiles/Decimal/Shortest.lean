/-!
# Shortest decimals

The decimal digits a float is written with: the fewest that still read back as the same float,
and among those of that number the ones nearest to it. The search is exact. A float is a whole
number times a power of two, the reals that round to it fill an interval around it, and the
digits wanted are the point in that interval on the coarsest decimal grid that has one.
-/

namespace TargetTiles.Decimal

/-- What the bits of a float say. -/
inductive Shape where
  | nan
  | infinite (negative : Bool)
  /-- A number of the size `significand * 2 ^ exponent`. -/
  | finite (negative : Bool) (significand : Nat) (exponent : Int)
deriving DecidableEq, Repr

/-- Takes the bits of a float apart. -/
def Shape.ofFloat (x : Float) : Shape :=
  let bits := x.toBits.toNat
  let negative := bits >>> 63 = 1
  let field : Nat := bits >>> 52 % 2048
  let fraction : Nat := bits % (1 <<< 52)
  if field = 2047 then
    if fraction = 0 then .infinite negative else .nan
  else if field = 0 then .finite negative fraction (-1074)
  else .finite negative (1 <<< 52 + fraction) (field - 1075)

/-- A number of the size `digits * 10 ^ place`. -/
structure Digits where
  digits : Nat
  place : Int
deriving DecidableEq, Repr

/-- The point on the grid of multiples of `10 ^ place` that is nearest to
`significand * 2 ^ exponent`, if it reads back as that float; of two that are equally near, the
greater one. All sizes are counted in one unit that makes them whole. The interval that reads back
reaches half a step either way, less below a power of two, and has its ends if the significand is
even. -/
def gridPoint? (significand : Nat) (exponent place : Int) : Option Nat :=
  let quarter := Nat.pow 10 (-place).toNat <<< (exponent - 2).toNat
  let step := Nat.pow 10 place.toNat <<< (2 - exponent).toNat
  let value := 4 * significand * quarter
  -- below a power of two the floats lie twice as close
  let reach := if significand = 1 <<< 52 ∧ -1074 < exponent then 1 else 2
  let low := (4 * significand - reach) * quarter
  let high := (4 * significand + 2) * quarter
  let readsBack (size : Nat) : Bool :=
    if significand % 2 = 0 then low ≤ size && size ≤ high else low < size && size < high
  let below := value / step
  let above := below + 1
  match readsBack (below * step), readsBack (above * step) with
  | true, true => some (if value - below * step < above * step - value then below else above)
  | true, false => some below
  | false, true => some above
  | false, false => none

/-- The first grid with a point that reads back, going down from `place` to finer grids. -/
def firstGrid (significand : Nat) (exponent : Int) : (tries : Nat) → (place : Int) → Digits
  | 0, place => ⟨0, place⟩
  | tries + 1, place =>
    match gridPoint? significand exponent place with
    | some digits => ⟨digits, place⟩
    | none => firstGrid significand exponent tries (place - 1)

/-- The shortest digits of a positive float. The first grid tried is too coarse for any float of
that size, and seventeen digits are always enough. -/
def shortest (significand : Nat) (exponent : Int) : Digits :=
  let place := (significand.log2 + exponent + 1) * 30103 / 100000 + 2
  firstGrid significand exponent 24 place

end TargetTiles.Decimal
