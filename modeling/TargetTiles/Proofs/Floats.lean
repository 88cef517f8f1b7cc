import Mathlib
import TargetTiles.Decimal.Shortest

/-!
# Floats as numbers

The number that a float stands for is read off its bits: a significand times a power of two. The
arithmetic of floats does not work on the bits but on what they unpack to, so the two readings are
compared first. A float unpacks to a significand of at most 53 digits, with fewer only where the
exponent cannot go down. What has this form is packed without a loss, or it is too large and
becomes infinite; it never becomes zero.
-/

namespace TargetTiles.Binary

open Float.Model Float.Model.UnpackedFloat Decimal

/-- The number that a float stands for, as its bits say. -/
def number? (x : Float) : Option ℚ :=
  match Shape.ofFloat x with
  | .finite negative significand exponent =>
    some (if negative then -(significand * 2 ^ exponent) else significand * 2 ^ exponent)
  | _ => none

/-- The number with the sign, the significand and the exponent. -/
def signed (s : Sign) (m : ℕ) (e : ℤ) : ℚ := s.apply m * 2 ^ e

/-- The number that an unpacked float stands for. -/
def value? : UnpackedFloat → Option ℚ
  | .infinity _ | .notANumber => none
  | .zero _ => some 0
  | .finite s m e _ => some (signed s m e)

/-- The significand and the exponent are in the form that floats have them in. There is no upper
end to the exponents: a number that is too large can have this form too. -/
structure Regular (significand : ℕ) (exponent : ℤ) : Prop where
  short : significand < 2 ^ 53
  above : -1074 ≤ exponent
  full : 2 ^ 52 ≤ significand ∨ exponent = -1074

/-- An unpacked float in the form that floats have. -/
inductive Canonical : UnpackedFloat → Prop
  | infinity (s : Sign) : Canonical (.infinity s)
  | notANumber : Canonical .notANumber
  | zero (s : Sign) : Canonical (.zero s)
  | finite (s : Sign) {m : ℕ} {e : ℤ} (hpos : 0 < m) (h : Regular m e) :
      Canonical (.finite s m e hpos)

/-- The number has as many digits before a power of two as there is room for in a float, but it may
be too large for one. -/
def Short (q : ℚ) : Prop := ∃ (m : ℕ) (e : ℤ), m < 2 ^ 53 ∧ -1074 ≤ e ∧ |q| = m * 2 ^ e

variable {s : Sign} {m : ℕ} {e : ℤ} {hpos : 0 < m} {u : UnpackedFloat} {x : Float} {q : ℚ}

/-! ## Signs -/

theorem signed_positive (m : ℕ) (e : ℤ) : signed .positive m e = m * 2 ^ e := rfl

theorem signed_negative (m : ℕ) (e : ℤ) : signed .negative m e = -(m * 2 ^ e) := by
  rw [signed, Sign.apply, Int.cast_neg, neg_mul, Int.cast_natCast]

theorem signed_neg (s : Sign) (m : ℕ) (e : ℤ) : signed (-s) m e = -signed s m e := by
  cases s with
  | positive => rw [signed_positive]; exact signed_negative m e
  | negative => rw [signed_negative, neg_neg]; rfl

theorem abs_signed (s : Sign) (m : ℕ) (e : ℤ) : |signed s m e| = m * 2 ^ e := by
  have hnonneg : (0 : ℚ) ≤ m * 2 ^ e := mul_nonneg m.cast_nonneg (zpow_nonneg zero_le_two e)
  cases s with
  | positive => rw [signed_positive, abs_of_nonneg hnonneg]
  | negative => rw [signed_negative, abs_neg, abs_of_nonneg hnonneg]

theorem abs_signed_sub_signed (s : Sign) (m n : ℕ) (e t : ℤ) :
    |signed s m e - signed s n t| = |(m : ℚ) * 2 ^ e - n * 2 ^ t| := by
  cases s with
  | positive => rfl
  | negative => rw [signed_negative, signed_negative, sub_neg_eq_add, neg_add_eq_sub, abs_sub_comm]

theorem signed_eq_zero_iff : signed s m e = 0 ↔ m = 0 := by
  rw [← abs_eq_zero, abs_signed, mul_eq_zero_iff_right (zpow_ne_zero e two_ne_zero),
    Nat.cast_eq_zero]

theorem short_signed (s : Sign) (hm : m < 2 ^ 53) (he : -1074 ≤ e) : Short (signed s m e) :=
  ⟨m, e, hm, he, abs_signed s m e⟩

theorem Short.neg : Short q → Short (-q) := by
  rintro ⟨m, e, hm, he, hq⟩
  exact ⟨m, e, hm, he, by rw [abs_neg, hq]⟩

/-! ## Reading the bits -/

/-- The sign that is told by the first bit. -/
def sign (negative : Bool) : Sign := if negative then .negative else .positive

theorem signed_sign (negative : Bool) (m : ℕ) (e : ℤ) :
    signed (sign negative) m e = if negative then -(m * 2 ^ e : ℚ) else m * 2 ^ e := by
  cases negative with
  | false => exact signed_positive m e
  | true => exact signed_negative m e

section

variable (bits : BitVec 64)

theorem toNat_unpackExponent :
    (@unpackExponent Format.binary64 bits).toNat = bits.toNat >>> 52 % 2048 := by
  simp [unpackExponent, BitVec.extractLsb_toNat]

theorem toNat_unpackMantissa :
    (@unpackMantissa Format.binary64 bits).toNat = bits.toNat % (1 <<< 52) := by
  simp [unpackMantissa, BitVec.extractLsb_toNat]

theorem ofBitVec_unpackSign :
    Sign.ofBitVec (@unpackSign Format.binary64 bits) =
      sign (bits.toNat >>> 63 = 1) := by
  have hlt : bits.toNat >>> 63 < 2 := by
    have hbits := bits.isLt
    omega
  have hsign : (@unpackSign Format.binary64 bits).toNat = bits.toNat >>> 63 := by
    simpa [unpackSign, BitVec.extractLsb_toNat] using hlt
  simp only [Sign.ofBitVec, ← BitVec.toNat_inj, hsign, sign, BitVec.toNat_ofNat]
  obtain h | h : bits.toNat >>> 63 = 0 ∨ bits.toNat >>> 63 = 1 := by omega
  · rw [h]; rfl
  · rw [h]; rfl

end

/-- The digit that is not written stands before the others. -/
theorem toNat_normal (fraction : BitVec 52) :
    (1#1 ++ fraction).toNat = 1 <<< 52 + fraction.toNat := by
  rw [BitVec.toNat_append, ← Nat.shiftLeft_add_eq_or_of_lt fraction.isLt]
  rfl

/-- The two readings of the bits agree. -/
theorem unpack_spec (x : Float) :
    Canonical x.toModel.unpack ∧ value? x.toModel.unpack = number? x := by
  have hexponent := toNat_unpackExponent x.toModel.toBits.toBitVec
  have hfraction := toNat_unpackMantissa x.toModel.toBits.toBitVec
  have hsign := ofBitVec_unpackSign x.toModel.toBits.toBitVec
  have hbits : x.toModel.toBits.toBitVec.toNat = x.toBits.toNat := rfl
  rw [hbits] at hexponent hfraction hsign
  have hinf : @unpackExponent Format.binary64 x.toModel.toBits.toBitVec = -1#_ ↔
      x.toBits.toNat >>> 52 % 2048 = 2047 := by rw [← hexponent]; exact BitVec.toNat_inj.symm
  have hsub : @unpackExponent Format.binary64 x.toModel.toBits.toBitVec = 0#_ ↔
      x.toBits.toNat >>> 52 % 2048 = 0 := by rw [← hexponent]; exact BitVec.toNat_inj.symm
  have hzero : @unpackMantissa Format.binary64 x.toModel.toBits.toBitVec = 0#_ ↔
      x.toBits.toNat % 1 <<< 52 = 0 := by rw [← hfraction]; exact BitVec.toNat_inj.symm
  have hfield : x.toBits.toNat >>> 52 % 2048 < 2048 := Nat.mod_lt _ (by decide)
  have hshort : x.toBits.toNat % 1 <<< 52 < 1 <<< 52 := Nat.mod_lt _ (by decide)
  simp only [Float.Model.unpack, UnpackedFloat.unpack, number?, Shape.ofFloat, hsign]
  by_cases h : x.toBits.toNat >>> 52 % 2048 = 2047
  · -- not finite
    rw [if_pos (hinf.mpr h), if_pos h]
    by_cases hrest : x.toBits.toNat % 1 <<< 52 = 0
    · rw [if_pos (hzero.mpr hrest), if_pos hrest]
      exact ⟨.infinity _, rfl⟩
    · rw [if_neg (mt hzero.mp hrest), if_neg hrest]
      exact ⟨.notANumber, rfl⟩
  rw [if_neg (mt hinf.mp h), if_neg h]
  by_cases h' : x.toBits.toNat >>> 52 % 2048 = 0
  · rw [if_pos (hsub.mpr h'), if_pos h']
    by_cases hrest : x.toBits.toNat % 1 <<< 52 = 0
    · rw [dif_pos (hzero.mpr hrest), hrest]
      exact ⟨.zero _, by simp [value?]⟩
    · -- the digits are not enough for a first one
      rw [dif_neg (mt hzero.mp hrest)]
      simp only [hexponent, hfraction, h']
      exact ⟨.finite _ _ ⟨by omega, by decide, .inr rfl⟩, congrArg some (signed_sign _ _ _)⟩
  · rw [if_neg (mt hsub.mp h'), if_neg h']
    simp only [toNat_normal, hexponent, hfraction]
    have hexp : (↑(x.toBits.toNat >>> 52 % 2048) : ℤ) - (Format.binary64.exponentBias + 52) =
        ↑(x.toBits.toNat >>> 52 % 2048) - 1075 := rfl
    simp only [Nat.cast_ofNat, hexp]
    exact ⟨.finite _ _ ⟨by omega, by omega, .inl (by omega)⟩, congrArg some (signed_sign _ _ _)⟩

theorem canonical_unpack (x : Float) : Canonical x.toModel.unpack := (unpack_spec x).1

theorem value?_unpack (x : Float) : value? x.toModel.unpack = number? x := (unpack_spec x).2

theorem short_of_number? (h : number? x = some q) : Short q := by
  rw [← value?_unpack] at h
  have hcanonical := canonical_unpack x
  generalize x.toModel.unpack = u at h hcanonical
  cases hcanonical with
  | infinity s => cases h
  | notANumber => cases h
  | zero s => exact Option.some_inj.mp h ▸ ⟨0, 0, by decide, by decide, by simp⟩
  | finite s hpos hregular =>
    exact Option.some_inj.mp h ▸ short_signed s hregular.short hregular.above

/-! ## Packing -/

theorem pack_finite (s : Sign) (m : ℕ) (e : ℤ) (hpos : 0 < m) :
    UnpackedFloat.pack Format.binary64 (.finite s m e hpos) =
      if 971 < e then packedInfinity Format.binary64 s
      else if m.log2 = 52 then
        packComponents Format.binary64 s (BitVec.ofNat 11 (e + 1075).toNat) (BitVec.ofNat 52 m)
      else packComponents Format.binary64 s 0#11 (BitVec.ofNat 52 m) := by
  have hbias : (e + Format.binary64.exponentBias + (52 : ℕ)) = e + 1075 := by
    rw [add_assoc]; rfl
  have hover : 2 ^ Format.binary64.exponentBits ≤ (e + 1075).toNat + 1 ↔ 971 < e := by
    rw [show 2 ^ Format.binary64.exponentBits = 2048 from rfl]; omega
  have hfull : m.log2 + 1 = Format.binary64.mantissaBits ↔ m.log2 = 52 := by
    rw [show Format.binary64.mantissaBits = 53 from rfl]; omega
  rw [UnpackedFloat.pack]
  simp only [hbias, hover, hfull]

theorem ofNat_ne {width n k : ℕ} (hn : n < 2 ^ width) (hk : k < 2 ^ width) (h : n ≠ k) :
    BitVec.ofNat width n ≠ BitVec.ofNat width k := by
  rw [ne_eq, ← BitVec.toNat_inj, BitVec.toNat_ofNat, BitVec.toNat_ofNat, Nat.mod_eq_of_lt hn,
    Nat.mod_eq_of_lt hk]
  exact h

/-- A number that has room is packed without a loss. -/
theorem unpack_pack_finite (h : Regular m e) (hbelow : e ≤ 971) :
    (Float.Model.pack (.finite s m e hpos)).unpack = .finite s m e hpos := by
  obtain ⟨hshort, habove, hfull⟩ := h
  have hlog : m.log2 < 53 := (Nat.log2_lt hpos.ne').mpr hshort
  have hbias (n : ℤ) : n - (Format.binary64.exponentBias + (52 : ℕ)) = n - 1075 := rfl
  change UnpackedFloat.unpack Format.binary64 (UnpackedFloat.pack Format.binary64 _) = _
  rw [pack_finite, if_neg (by omega)]
  by_cases hnormal : m.log2 = 52
  · have hlow : 2 ^ 52 ≤ m := (Nat.le_log2 hpos.ne').mp hnormal.ge
    have hfield : (e + 1075).toNat < 2 ^ 11 := by omega
    have hinf : BitVec.ofNat 11 (e + 1075).toNat ≠ -1#11 :=
      ofNat_ne (k := 2047) hfield (by decide) (by omega)
    have hsub : BitVec.ofNat 11 (e + 1075).toNat ≠ 0#11 := ofNat_ne hfield (by decide) (by omega)
    rw [if_pos hnormal]
    simp only [UnpackedFloat.unpack, unpackExponent_packComponents, unpackMantissa_packComponents,
      unpackSign_packComponents, Sign.ofBitVec_toBitVec, if_neg hinf, if_neg hsub, hbias,
      toNat_normal, BitVec.toNat_ofNat, Nat.mod_eq_of_lt hfield]
    congr 1 <;> omega
  · have hlow : m < 2 ^ 52 := (Nat.log2_lt hpos.ne').mp (by omega)
    have hzero : BitVec.ofNat 52 m ≠ 0#52 := ofNat_ne hlow (by decide) hpos.ne'
    have hinf : 0#11 ≠ -1#11 := by decide
    rw [if_neg hnormal]
    simp only [UnpackedFloat.unpack, unpackExponent_packComponents, unpackMantissa_packComponents,
      unpackSign_packComponents, Sign.ofBitVec_toBitVec, if_neg hinf, if_true, hbias,
      BitVec.toNat_ofNat, Nat.mod_eq_of_lt hlow, dif_neg hzero]
    congr 1
    omega

/-- Packing keeps everything but a number that is too large, which becomes infinite. -/
theorem Canonical.unpack_pack (h : Canonical u) :
    (Float.Model.pack u).unpack = u ∨
      ∃ s m e hpos, u = .finite s m e hpos ∧ Regular m e ∧ 971 < e ∧
        (Float.Model.pack u).unpack = .infinity s := by
  cases h with
  | infinity s => exact .inl (by cases s <;> rfl)
  | notANumber => exact .inl rfl
  | zero s => exact .inl (by cases s <;> rfl)
  | @finite s m e hpos hregular =>
    by_cases hbelow : e ≤ 971
    · exact .inl (unpack_pack_finite hregular hbelow)
    · refine .inr ⟨s, m, e, hpos, rfl, hregular, by omega, ?_⟩
      change UnpackedFloat.unpack Format.binary64 (UnpackedFloat.pack Format.binary64 _) = _
      rw [pack_finite, if_pos (by omega)]
      cases s <;> rfl

theorem value?_finite_ne_zero : value? (.finite s m e hpos) ≠ some 0 := by
  rw [value?, ne_eq, Option.some_inj, signed_eq_zero_iff]
  exact hpos.ne'

/-- Nothing but zero is packed as zero. -/
theorem Canonical.number?_pack_eq_zero_iff (h : Canonical u) :
    number? ⟨.pack u⟩ = some 0 ↔ value? u = some 0 := by
  rw [← value?_unpack]
  obtain hu | ⟨s, m, e, hpos, rfl, -, -, hu⟩ := h.unpack_pack
  · rw [hu]
  · rw [hu]
    exact iff_of_false (by simp [value?]) value?_finite_ne_zero

/-- A number below the greatest float is packed as itself. -/
theorem Canonical.number?_pack (h : Canonical u) (hu : value? u = some q) (hq : |q| < 2 ^ 1024) :
    number? ⟨.pack u⟩ = some q := by
  rw [← value?_unpack, ← hu]
  obtain hu' | ⟨s, m, e, hpos, rfl, hregular, hover, -⟩ := h.unpack_pack
  · rw [hu']
  · exfalso
    have hfull : 2 ^ 52 ≤ m := hregular.full.resolve_right (by omega)
    have habs : |q| = m * 2 ^ e := by
      rw [← Option.some_inj.mp hu, abs_signed]
    refine absurd hq (not_lt.mpr ?_)
    calc (2 : ℚ) ^ 1024 = 2 ^ 52 * 2 ^ ((972 : ℕ) : ℤ) := by rw [zpow_natCast, ← pow_add]
      _ ≤ (m : ℚ) * 2 ^ e := by
        gcongr
        · exact_mod_cast hfull
        · exact one_le_two
        · omega
      _ = |q| := habs.symm

/-! ## Sign and zero -/

theorem value?_neg (u : UnpackedFloat) : value? u.neg = (value? u).map (-·) := by
  cases u with
  | infinity s => rfl
  | notANumber => rfl
  | zero s => exact congrArg some neg_zero.symm
  | finite s m e hpos => exact congrArg some (signed_neg s m e)

theorem value?_abs (u : UnpackedFloat) : value? u.abs = (value? u).map (|·|) := by
  cases u with
  | infinity s => rfl
  | notANumber => rfl
  | zero s => exact congrArg some abs_zero.symm
  | finite s m e hpos => exact congrArg some (abs_signed s m e).symm

theorem Canonical.neg : Canonical u → Canonical u.neg
  | .infinity _ => .infinity _
  | .notANumber => .notANumber
  | .zero _ => .zero _
  | .finite _ hpos h => .finite _ hpos h

theorem Canonical.abs : Canonical u → Canonical u.abs
  | .infinity _ => .infinity _
  | .notANumber => .notANumber
  | .zero _ => .zero _
  | .finite _ hpos h => .finite _ hpos h

theorem number?_neg (hq : |q| < 2 ^ 1024) (h : number? x = some q) : number? x.neg = some (-q) := by
  refine (canonical_unpack x).neg.number?_pack ?_ (by rwa [abs_neg])
  rw [value?_neg, value?_unpack, h, Option.map_some]

theorem number?_abs_eq_zero_iff (x : Float) : number? x.abs = some 0 ↔ number? x = some 0 := by
  refine (canonical_unpack x).abs.number?_pack_eq_zero_iff.trans ?_
  rw [value?_abs, value?_unpack, Option.map_eq_some_iff]
  simp

/-- The comparison with zero looks at the number only, and both zeros are the number. -/
theorem beq_zero_iff (x : Float) : (x == 0.0) = true ↔ number? x = some 0 := by
  have hzero : (0.0 : Float).toModel.unpack = .zero .positive := rfl
  change UnpackedFloat.beq x.toModel.unpack (0.0 : Float).toModel.unpack = true ↔ _
  rw [hzero, ← value?_unpack]
  cases x.toModel.unpack with
  | infinity s => cases s <;> simp [UnpackedFloat.beq, UnpackedFloat.compare, value?]
  | notANumber => simp [UnpackedFloat.beq, UnpackedFloat.compare, value?]
  | zero s => simp [UnpackedFloat.beq, UnpackedFloat.compare, value?]
  | finite s m e hpos =>
    refine iff_of_false ?_ value?_finite_ne_zero
    cases s <;> simp [UnpackedFloat.beq, UnpackedFloat.compare]

end TargetTiles.Binary
