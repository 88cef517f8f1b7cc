import Mathlib.Order.Interval.Set.Basic
import Mathlib.Order.Nat
import TargetTiles.Proofs.Dealing

/-!
# Rules by which rounds can be dealt

Whether rules are valid is decided by comparing two bounds. Whether a round can be dealt is a
question of supply: some number of large tiles has to be found that the large pool can give, and
for which the small pool can give the rest. The two come to the same, in whatever order the sizes
of the pools and the number of tiles lie.
-/

namespace TargetTiles.Rules

variable {rules : Rules} {large : Nat}

/-! ## Numbers of large tiles -/

/-- The least number of large tiles is supplied, if any number is. -/
theorem minLarge_le_maxLarge_iff :
    rules.minLarge ≤ rules.maxLarge ↔ ∃ large, rules.Supplies large := by
  constructor
  · intro h
    exact ⟨rules.minLarge, supplies_iff.mpr ⟨Nat.le_refl _, h⟩⟩
  · rintro ⟨large, h⟩
    obtain ⟨hmin, hmax⟩ := supplies_iff.mp h
    exact Nat.le_trans hmin hmax

/-- It takes both pools together to supply a round, however the tiles are shared out. -/
theorem minLarge_le_maxLarge_iff_length : rules.minLarge ≤ rules.maxLarge ↔
    rules.tileCount ≤ rules.largePool.length + rules.smallPool.length := by
  rw [minLarge, maxLarge]
  omega

/-! ## Rules -/

theorem validate_eq_ok_iff_supplies : rules.validate = .ok () ↔
    (1 ≤ rules.tileCount ∧ rules.tileCount ≤ 255) ∧ rules.targetMin ≤ rules.targetMax ∧
      ∃ large, rules.Supplies large := by
  rw [validate_eq_ok_iff, fault?_eq_none_iff, minLarge_le_maxLarge_iff, and_assoc]
  rfl

/-- Where no number of large tiles is supplied, every one that is asked for is refused. -/
theorem deal_of_not_supplies (h : ¬rules.Supplies large) (rng : Rng) :
    rules.deal large rng = .refuse (.largeCount large rules.maxLarge) rng := by
  rw [supplies_iff] at h
  exact deal_of_checkLarge_error (checkLarge_eq_error (by omega)) rng

/-- A number of large tiles is legal exactly if the pools supply the round with it. The legal
numbers are all those between two bounds, and there are some exactly if both pools together hold
enough tiles. Rules are valid exactly if their number of tiles and their targets are within limits
and some number of large tiles is legal. So valid rules deal a round from every source, with some
number of large tiles, and accept what they deal; and rules that are not valid though they are
within those limits deal none, whatever number is asked for. -/
theorem valid_iff_dealable (rules : Rules) :
    (∀ large, rules.checkLarge large = .ok () ↔ rules.Supplies large) ∧
    {large | rules.checkLarge large = .ok ()} = Set.Icc rules.minLarge rules.maxLarge ∧
    ({large | rules.checkLarge large = .ok ()}.Nonempty ↔
      rules.tileCount ≤ rules.largePool.length + rules.smallPool.length) ∧
    (rules.validate = .ok () ↔ (1 ≤ rules.tileCount ∧ rules.tileCount ≤ 255) ∧
      rules.targetMin ≤ rules.targetMax ∧ ∃ large, rules.checkLarge large = .ok ()) ∧
    (rules.validate = .ok () →
      ∃ large, ∀ rng, ∃ setup, (rules.deal large rng).result = .ok setup ∧
        rules.checkSetup setup = .ok ()) ∧
    (rules.validate ≠ .ok () → 1 ≤ rules.tileCount → rules.tileCount ≤ 255 →
      rules.targetMin ≤ rules.targetMax → ∀ large rng,
        rules.deal large rng = .refuse (.largeCount large rules.maxLarge) rng) := by
  refine ⟨fun _ => checkLarge_eq_ok_iff_supplies, ?_⟩
  simp only [checkLarge_eq_ok_iff_supplies]
  refine ⟨?_, ?_, validate_eq_ok_iff_supplies, ?_, ?_⟩
  · ext large
    exact supplies_iff
  · exact minLarge_le_maxLarge_iff.symm.trans minLarge_le_maxLarge_iff_length
  · intro valid
    obtain ⟨-, -, large, hlarge⟩ := validate_eq_ok_iff_supplies.mp valid
    refine ⟨large, fun rng => ?_⟩
    obtain ⟨-, setup, -, -, hdealt, -⟩ :=
      deal_of_checkLarge_ok valid (checkLarge_eq_ok_iff_supplies.mpr hlarge) rng
    exact ⟨setup, hdealt, checkSetup_of_deal valid hdealt⟩
  · intro hrejected hpos hmost hrange large rng
    refine deal_of_not_supplies (fun hlarge => hrejected ?_) rng
    exact validate_eq_ok_iff_supplies.mpr ⟨⟨hpos, hmost⟩, hrange, large, hlarge⟩

/-- Five tiles a round take all that pools of three and of two hold, so three of them are large.
Six tiles a round are more than those pools hold, and no number of large ones is dealt. -/
theorem valid_iff_dealable_all_taken :
    let five := { standard with largePool := [25, 50, 75], smallPool := [1, 2], tileCount := 5 }
    let six := { five with tileCount := 6 }
    {large | five.checkLarge large = .ok ()} = Set.Icc 3 3 ∧
    (∃ large, ∀ rng, ∃ setup, (five.deal large rng).result = .ok setup ∧
      five.checkSetup setup = .ok ()) ∧
    six.validate = .error (.rules (.poolsTooSmall 5 6)) ∧
    ∀ large rng, six.deal large rng = .refuse (.largeCount large 3) rng := by
  intro five six
  obtain ⟨-, hinterval, -, -, hdealt, -⟩ := valid_iff_dealable five
  obtain ⟨-, -, -, -, -, hrefused⟩ := valid_iff_dealable six
  have hsix : six.validate = .error (.rules (.poolsTooSmall 5 6)) := by decide
  have hrejected : six.validate ≠ .ok () := by rw [hsix]; decide
  exact ⟨hinterval, hdealt (by decide), hsix,
    hrefused hrejected (by decide) (by decide) (by decide)⟩

end TargetTiles.Rules
