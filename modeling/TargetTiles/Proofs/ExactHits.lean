import TargetTiles.Outcome
import TargetTiles.Proofs.Rounding

/-!
# Exact hits

A target is compared with the number reached after it has become a float. A whole number with up to
53 digits before its zeros is a float, and then the comparison is exact. Any other is rounded first,
and what counts as an exact hit is the nearest float, never the target itself.
-/

namespace TargetTiles

namespace Binary

open Float.Model Float.Model.UnpackedFloat

variable {s : Sign} {n : ℕ} {z : ℤ} {u : UnpackedFloat} {x : Float} {q : ℚ}

/-! ## Whole numbers as floats -/

/-- There is room for every word in a float. -/
theorem Rounds.abs_lt (h : Rounds s n 0 u) (hpos : 0 < n) (hsmall : n < 2 ^ 64)
    (hu : value? u = some q) : |q| < 2 ^ 1024 := by
  have hn : (n : ℚ) < 2 ^ 64 := by exact_mod_cast hsmall
  have hzero : |q - signed s n 0| ≤ |0 - signed s n 0| :=
    h.nearest hpos hu ⟨0, 0, by decide, by decide, by simp⟩
  have htriangle := abs_sub_abs_le_abs_sub q (signed s n 0)
  rw [zero_sub, abs_neg, abs_signed, zpow_zero, mul_one] at hzero
  rw [abs_signed, zpow_zero, mul_one] at htriangle
  calc |q| ≤ 2 * n := by linarith
    _ < 2 * 2 ^ 64 := by gcongr
    _ = 2 ^ 65 := (pow_succ' 2 64).symm
    _ ≤ 2 ^ 1024 := pow_le_pow_right₀ one_le_two (by decide)

theorem Rounds.number?_pack (h : Rounds s n 0 u) (hpos : 0 < n) (hsmall : n < 2 ^ 64) :
    number? ⟨.pack u⟩ = value? u := by
  obtain ⟨r, -, hvalue⟩ := h.exists_nearest
  rw [h.canonical.number?_pack hvalue (h.abs_lt hpos hsmall hvalue), hvalue]

/-- To multiply with one does not change a number. -/
theorem Canonical.mul_one (h : Canonical u) (hu : value? u = some q) (hone : 0 < 2 ^ 52) :
    Canonical (UnpackedFloat.mul Format.binary64 u (.finite .positive (2 ^ 52) (-52) hone)) ∧
      value? (UnpackedFloat.mul Format.binary64 u (.finite .positive (2 ^ 52) (-52) hone)) =
        some q := by
  cases h with
  | infinity s => cases hu
  | notANumber => cases hu
  | zero s => exact ⟨.zero _, hu⟩
  | @finite s m e hpos hregular =>
    have hmul : UnpackedFloat.mul Format.binary64 (.finite s m e hpos)
        (.finite .positive (2 ^ 52) (-52) hone) =
          roundWithAccuracy Format.binary64 s (m <<< 52) (e - (52 : ℕ)) .exact := by
      rw [UnpackedFloat.mul, ← Nat.shiftLeft_eq]
      cases s <;> rfl
    have hrounds := rounds_shiftLeft s hpos (e := e) (k := 52) (by rw [grid]; omega)
    have hshort := short_signed s hregular.short hregular.above
    rw [hmul]
    exact ⟨hrounds.canonical, (hrounds.value?_of_short hpos hshort).trans hu⟩

theorem number?_mul_one (hx : number? x = some q) (hq : |q| < 2 ^ 1024) :
    number? (x * Float.ofBits 0x3FF0000000000000) = some q := by
  have hone : (Float.ofBits 0x3FF0000000000000).toModel.unpack =
      .finite .positive (2 ^ 52) (-52) (Nat.two_pow_pos 52) := rfl
  rw [← value?_unpack] at hx
  obtain ⟨hcanonical, hmul⟩ := (canonical_unpack x).mul_one hx (Nat.two_pow_pos 52)
  rw [← hone] at hcanonical hmul
  exact hcanonical.number?_pack hmul hq

theorem toFloat_eq (hpos : 0 < n) (hsmall : n < 2 ^ 64) :
    n.toUInt64.toFloat = ⟨.pack (round Format.binary64 .positive n 0)⟩ := by
  have hword : n.toUInt64.toNat = n := UInt64.toNat_ofNat_of_lt hsmall
  have hfloat : n.toUInt64.toFloat =
      ⟨.pack (UnpackedFloat.normalize Format.binary64 n.toUInt64.toNat 0 .positive)⟩ := rfl
  rw [hfloat, hword, UnpackedFloat.normalize, Int.compare_eq_gt.mpr (Int.natCast_pos.mpr hpos)]
  rfl

theorem number?_ofNat (hpos : 0 < n) (hsmall : n < 2 ^ 64) :
    ∃ u, Rounds .positive n 0 u ∧ number? (Float.ofNat n) = value? u := by
  by_cases hshort : n < 2 ^ 53
  · have hofNat : Float.ofNat n = n.toUInt64.toFloat * Float.ofBits 0x3FF0000000000000 := by
      change Float.ofScientific n false 0 = _
      rw [Float.ofScientific, dif_pos ⟨hshort, by decide⟩]
      rfl
    have hrounds := rounds_round .positive hpos 0
    have hvalue := hrounds.value?_of_short hpos (short_signed _ hshort (by decide))
    have hword : number? n.toUInt64.toFloat = some (signed .positive n 0) := by
      rw [toFloat_eq hpos hsmall, hrounds.number?_pack hpos hsmall, hvalue]
    refine ⟨_, hrounds, ?_⟩
    rw [hofNat, number?_mul_one hword (hrounds.abs_lt hpos hsmall hvalue), hvalue]
  · have hofNat : Float.ofNat n = ⟨Float.Model.ofScientific n 0⟩ := by
      change Float.ofScientific n false 0 = _
      rw [Float.ofScientific, dif_neg (fun h => hshort h.1)]
      rfl
    have hscientific : UnpackedFloat.ofScientific Format.binary64 n 0 =
        roundWithAccuracy Format.binary64 .positive (n <<< 53) (0 - (53 : ℕ)) .exact := by
      have hlow : ¬(0 : ℤ) < -((2 ^ Format.binary64.exponentBits : ℤ) + n.log2) := by
        have hpow : (0 : ℤ) ≤ 2 ^ Format.binary64.exponentBits := by positivity
        omega
      rw [UnpackedFloat.ofScientific, dif_neg hpos.ne', if_neg (by decide), if_neg hlow,
        if_pos le_rfl, UnpackedFloat.mul]
      have hten : n <<< Format.binary64.mantissaBits * 10 ^ (0 : ℤ).toNat = n <<< 53 :=
        Nat.mul_one _
      rw [hten]
      rfl
    have hrounds := rounds_shiftLeft .positive hpos (e := 0) (k := 53) (by rw [grid]; omega)
    rw [← hscientific] at hrounds
    refine ⟨_, hrounds, ?_⟩
    rw [hofNat]
    exact hrounds.number?_pack hpos hsmall

/-- Of a whole number the size is rounded. -/
theorem number?_ofInt (hne : z ≠ 0) (hsmall : z.natAbs < 2 ^ 64) :
    ∃ s u, signed s z.natAbs 0 = z ∧ Rounds s z.natAbs 0 u ∧ number? (Float.ofInt z) = value? u := by
  obtain ⟨u, hrounds, hnumber⟩ := number?_ofNat (Int.natAbs_pos.mpr hne) hsmall
  cases z with
  | ofNat n =>
    refine ⟨.positive, u, ?_, hrounds, hnumber⟩
    rw [signed_positive, zpow_zero, mul_one]
    rfl
  | negSucc n =>
    obtain ⟨r, -, hvalue⟩ := hrounds.exists_nearest
    have hsize := hrounds.abs_lt n.succ_pos hsmall hvalue
    refine ⟨.negative, u.neg, ?_, hrounds.neg, ?_⟩
    · rw [signed_negative, zpow_zero, mul_one]
      simp
    · rw [value?_neg, hvalue]
      exact number?_neg hsize (hnumber.trans hvalue)

theorem short_intCast_iff (z : ℤ) :
    Short z ↔ ∃ (c : ℤ) (k : ℕ), c.natAbs < 2 ^ 53 ∧ z = c * 2 ^ k := by
  constructor
  · rintro ⟨m, e, hm, -, hz⟩
    rw [← Int.cast_abs, ← Nat.cast_natAbs] at hz
    rcases le_or_gt 0 e with he | he
    · lift e to ℕ using he
      rw [zpow_natCast] at hz
      have hsize : z.natAbs = m * 2 ^ e := by exact_mod_cast hz
      rcases z.natAbs_eq with hsign | hsign
      · exact ⟨m, e, by omega, by rw [hsign, hsize]; push_cast; rfl⟩
      · exact ⟨-m, e, by omega, by rw [hsign, hsize]; push_cast; ring⟩
    · -- what is left of a fraction is short anyway
      have hpow : (2 : ℚ) ^ e ≤ 1 := zpow_le_one_of_nonpos₀ one_le_two he.le
      have hsize : (z.natAbs : ℚ) ≤ m := hz ▸ mul_le_of_le_one_right m.cast_nonneg hpow
      have hle : z.natAbs ≤ m := by exact_mod_cast hsize
      exact ⟨z, 0, hle.trans_lt hm, by rw [pow_zero, mul_one]⟩
  · rintro ⟨c, k, hc, rfl⟩
    refine ⟨c.natAbs, k, hc, by omega, ?_⟩
    rw [Int.cast_mul, Int.cast_pow, abs_mul, zpow_natCast, Nat.cast_natAbs, Int.cast_abs]
    simp

end Binary

/-! ## Targets as floats -/

namespace Outcome

open Binary Decimal

/-- The number reached is the one that counts as an exact hit of the target. -/
structure Hits (target : Int64) (reached : ℚ) : Prop where
  counted : number? (nearestFloat target) = some reached
  isExact_iff : ∀ final, (Outcome.mk target final).isExact = true ↔ number? final = some reached
  nearest : ∀ x q, number? x = some q → |reached - target.toInt| ≤ |q - target.toInt|
  even : |reached - target.toInt| = 2 ^ grid target.toInt.natAbs 0 / 2 →
    ∃ z : ℤ, reached = z * (2 * 2 ^ grid target.toInt.natAbs 0)
  /-- The target itself is not missed. -/
  isExact_of_eq : ∀ final, number? final = some (target.toInt : ℚ) →
    (Outcome.mk target final).isExact = true
  /-- It is the only number that counts if and only if it is a float. -/
  exact_iff : (∀ final, (Outcome.mk target final).isExact = true ↔
      number? final = some (target.toInt : ℚ)) ↔
    ∃ (c : ℤ) (k : ℕ), c.natAbs < 2 ^ 53 ∧ target.toInt = c * 2 ^ k

theorem isExact_iff_same (target : Int64) (final : Float) :
    (Outcome.mk target final).isExact = true ↔
      ∃ q, number? (nearestFloat target) = some q ∧ number? final = some q := by
  rw [isExact, distance, beq_zero_iff, number?_abs_eq_zero_iff, number?_sub_eq_zero_iff]

theorem number?_nearestFloat (target : Int64) :
    ∃ reached, number? (nearestFloat target) = some reached ∧
      (∀ p, Short p → |reached - target.toInt| ≤ |p - target.toInt|) ∧
      (|reached - target.toInt| = 2 ^ grid target.toInt.natAbs 0 / 2 →
        ∃ z : ℤ, reached = z * (2 * 2 ^ grid target.toInt.natAbs 0)) := by
  rw [nearestFloat]
  rcases eq_or_ne target.toInt 0 with hzero | hne
  · rw [hzero]
    refine ⟨0, ?_, fun p _ => ?_, fun _ => ⟨0, ?_⟩⟩
    · have hbits : Shape.ofFloat (Float.ofInt 0) = .finite false 0 (-1074) := by decide +kernel
      simp [number?, hbits]
    · rw [Int.cast_zero, sub_self, abs_zero]
      exact abs_nonneg _
    · rw [Int.cast_zero, zero_mul]
  · have hsmall : target.toInt.natAbs < 2 ^ 64 := by
      have hlow := target.le_toInt
      have hhigh := target.toInt_lt
      omega
    obtain ⟨s, u, hsigned, hrounds, hnumber⟩ := number?_ofInt hne hsmall
    obtain ⟨r, -, hvalue⟩ := hrounds.exists_nearest
    rw [← hsigned]
    exact ⟨_, hnumber.trans hvalue,
      fun p => hrounds.nearest (Int.natAbs_pos.mpr hne) hvalue, hrounds.even hvalue⟩

/-- Every target has just one number that counts as an exact hit, the float that is nearest to it. -/
theorem hits_nearest_float (target : Int64) : ∃ reached, Hits target reached := by
  obtain ⟨reached, hcounted, hnearest, heven⟩ := number?_nearestFloat target
  have hexact (final : Float) :
      (Outcome.mk target final).isExact = true ↔ number? final = some reached := by
    rw [isExact_iff_same, hcounted]
    constructor
    · rintro ⟨q, hq, hfinal⟩
      exact hfinal.trans hq.symm
    · exact fun hfinal => ⟨reached, rfl, hfinal⟩
  have hkept (hshort : Short target.toInt) : reached = target.toInt := by
    have hle := hnearest _ hshort
    rwa [sub_self, abs_zero, abs_nonpos_iff, sub_eq_zero] at hle
  refine ⟨reached, hcounted, hexact, fun x q hq => hnearest q (short_of_number? hq), heven, ?_, ?_⟩
  · intro final hfinal
    rw [hexact, hfinal, hkept (short_of_number? hfinal)]
  · rw [← short_intCast_iff]
    constructor
    · intro h
      exact short_of_number? ((h _).mp ((hexact _).mpr hcounted))
    · intro hshort final
      rw [hexact, hkept hshort]

/-- So an exact hit need not be one: the number below a target can count as well. -/
theorem not_every_exact_hit_is_one :
    ¬ ∀ (target : Int64) (final : Float),
      (Outcome.mk target final).isExact = true ↔ number? final = some (target.toInt : ℚ) := by
  intro h
  have hbits : Shape.ofFloat (Float.ofBits 0x4340000000000000) = .finite false (2 ^ 52) 1 := by
    decide +kernel
  have hbelow : number? (Float.ofBits 0x4340000000000000) = some 9007199254740992 := by
    rw [number?, hbits]
    norm_num
  have hexact := (h 9007199254740993 (Float.ofBits 0x4340000000000000)).mp (by decide +kernel)
  rw [hbelow, Option.some_inj] at hexact
  have htarget : (9007199254740993 : Int64).toInt = 9007199254740993 := by decide
  rw [htarget] at hexact
  norm_num at hexact

end Outcome
end TargetTiles
