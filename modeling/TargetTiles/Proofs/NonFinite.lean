import Mathlib
import TargetTiles.Decimal.Reading
import TargetTiles.Decimal.Style

/-!
# Floats that are not finite

A float is its bits, and the bits of a float that is no number are always the same. So there are
three floats that are not finite, and each of them is read back from its name.
-/

namespace TargetTiles.Decimal

/-- A float is packed again from what it unpacks to. -/
theorem eq_pack_unpack (x : Float) : x = ⟨.pack x.toModel.unpack⟩ :=
  x.ofBits_toBits.symm

/-- The floats that are not finite are the two infinities and the float that is no number. -/
theorem cases_of_not_finite {x : Float} (h : x.isFinite = false) :
    x = infinity ∨ x = -infinity ∨ x = 0.0 / 0.0 := by
  have hfinite : x.toModel.unpack.isFinite = false := h
  rw [eq_pack_unpack x]
  generalize x.toModel.unpack = unpacked at hfinite ⊢
  cases unpacked with
  | infinity sign =>
    cases sign with
    | positive => exact .inl (Float.toBits_inj.mp (by decide +kernel))
    | negative => exact .inr (.inl (Float.toBits_inj.mp (by decide +kernel)))
  | notANumber => exact .inr (.inr (Float.toBits_inj.mp (by decide +kernel)))
  | zero sign => cases hfinite
  | finite sign mantissa exponent => cases hfinite

/-- A float that is not finite is read back from its name. -/
theorem ofText?_write {x : Float} (h : x.isFinite = false) :
    ofText? (Style.plain.write x) = some x := by
  rcases cases_of_not_finite h with rfl | rfl | rfl <;> decide +kernel

end TargetTiles.Decimal
