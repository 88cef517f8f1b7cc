import TargetTiles.Decimal.Shortest

/-!
# Written floats

How the shortest digits of a float are laid out. A style says which sizes are written with a
point and zeros and which with a power of ten, and whether a whole number shows its point.
-/

namespace TargetTiles.Decimal

/-- A way to lay out digits. -/
structure Style where
  /-- Whether a number whose first digit counts `10 ^ n` is written without a power of ten. -/
  positional : Int → Bool
  /-- Whether a whole number written without a power of ten ends in a point and a zero. -/
  wholePoint : Bool

namespace Style

/-- Every digit in its place, and no point on a whole number: `100`, `2.5`. -/
def plain : Style := ⟨fun _ => true, false⟩

/-- A point in every number, and a power of ten from `1e16` up and below `0.0001`. -/
def exact : Style := ⟨fun n => -4 ≤ n && n < 16, true⟩

/-- A point in every number, and a power of ten from `1e16` up and below `0.00001`. -/
def document : Style := ⟨fun n => -5 ≤ n && n < 16, true⟩

/-- The digits in their places. -/
def places (style : Style) (digits : List Char) (place : Int) : List Char :=
  if 0 ≤ place then
    digits ++ List.replicate place.toNat '0' ++ (if style.wholePoint then ['.', '0'] else [])
  else
    let behind := (-place).toNat
    if behind < digits.length then
      digits.take (digits.length - behind) ++ '.' :: digits.drop (digits.length - behind)
    else
      '0' :: '.' :: (List.replicate (behind - digits.length) '0' ++ digits)

/-- One digit before the point, and the power of ten that the first digit counts. -/
def power (digits : List Char) (lead : Int) : List Char :=
  let mantissa := match digits with
    | first :: second :: rest => first :: '.' :: second :: rest
    | digits => digits
  mantissa ++ 'e' :: (toString lead).toList

/-- A number that is not zero. -/
def layOut (style : Style) (number : Digits) : List Char :=
  let digits := Nat.toDigits 10 number.digits
  let lead := number.place + digits.length - 1
  if style.positional lead then style.places digits number.place else power digits lead

/-- A float in this style. -/
def write (style : Style) (x : Float) : String :=
  match Shape.ofFloat x with
  | .nan => "NaN"
  | .infinite negative => if negative then "-inf" else "inf"
  | .finite negative significand exponent =>
    let size := if significand = 0 then style.places ['0'] 0
      else style.layOut (shortest significand exponent)
    String.ofList (if negative then '-' :: size else size)

end Style

end TargetTiles.Decimal
