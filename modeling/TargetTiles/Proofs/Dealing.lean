import Mathlib.Data.List.Perm.Subperm
import TargetTiles.Deal
import TargetTiles.Proofs.Drawing
import TargetTiles.Proofs.Slots

/-!
# What is dealt

The rules that pass validation, the setups that could have been dealt, and the link between the
two: what valid rules deal is a setup that they accept. A pool counts as a bag of values here, so
that shuffling it changes nothing.
-/

namespace TargetTiles.Rules

/-! ## Rules and counts that pass -/

theorem fault?_eq_none_iff {rules : Rules} :
    rules.fault? = none ↔ 0 < rules.tileCount ∧ rules.tileCount ≤ 255 ∧
      rules.targetMin ≤ rules.targetMax ∧ rules.minLarge ≤ rules.maxLarge := by
  simp only [fault?, Int64.le_iff_toInt_le, Int64.lt_iff_toInt_lt]
  grind

theorem validate_eq_ok_iff {rules : Rules} : rules.validate = .ok () ↔ rules.fault? = none := by
  rw [validate]
  cases rules.fault? <;> simp

theorem checkLarge_eq_ok_iff {rules : Rules} {large : Nat} :
    rules.checkLarge large = .ok () ↔ rules.minLarge ≤ large ∧ large ≤ rules.maxLarge := by
  rw [checkLarge]
  split
  · simp only [reduceCtorEq, false_iff]
    omega
  · simp only [true_iff]
    omega

/-- Each pool can give its share of the tiles, if that many of them are large. -/
structure Supplies (rules : Rules) (large : Nat) : Prop where
  from_large : large ≤ rules.largePool.length
  within_round : large ≤ rules.tileCount
  from_small : rules.tileCount - large ≤ rules.smallPool.length

theorem supplies_iff {rules : Rules} {large : Nat} :
    rules.Supplies large ↔ rules.minLarge ≤ large ∧ large ≤ rules.maxLarge := by
  rw [minLarge, maxLarge]
  constructor
  · rintro ⟨hlarge, hround, hsmall⟩
    omega
  · rintro ⟨hmin, hmax⟩
    exact ⟨by omega, by omega, by omega⟩

theorem checkLarge_eq_ok_iff_supplies {rules : Rules} {large : Nat} :
    rules.checkLarge large = .ok () ↔ rules.Supplies large :=
  checkLarge_eq_ok_iff.trans supplies_iff.symm

theorem checkLarge_eq_error {rules : Rules} {large : Nat}
    (h : large < rules.minLarge ∨ rules.maxLarge < large) :
    rules.checkLarge large = .error (.largeCount large rules.maxLarge) :=
  if_pos h

/-! ## Setups that could have been dealt -/

/-- Taking values out of a pool one by one succeeds exactly if the pool holds them all at once. -/
theorem firstMissing?_eq_none_iff {pool values : List Int64} :
    firstMissing? pool values = none ↔ values.Subperm pool := by
  induction values generalizing pool with
  | nil => simp [firstMissing?]
  | cons value values ih =>
    rw [firstMissing?]
    by_cases hv : value ∈ pool
    · rw [if_pos hv, ih, (List.perm_cons_erase hv).subperm_left, List.subperm_cons]
    · rw [if_neg hv]
      simp only [reduceCtorEq, false_iff]
      exact fun hsub => hv (hsub.subset List.mem_cons_self)

theorem setupFault?_eq_none_iff {rules : Rules} {setup : Setup} :
    rules.setupFault? setup = none ↔ setup.tiles.length = rules.tileCount ∧
      (rules.targetMin ≤ setup.target ∧ setup.target ≤ rules.targetMax) ∧
      setup.values.Subperm (rules.largePool ++ rules.smallPool) := by
  simp only [setupFault?, Int64.le_iff_toInt_le, Int64.lt_iff_toInt_lt,
    ← firstMissing?_eq_none_iff]
  grind [Option.map_eq_none_iff]

theorem checkSetup_eq_ok_iff {rules : Rules} {setup : Setup} :
    rules.checkSetup setup = .ok () ↔ rules.setupFault? setup = none := by
  rw [checkSetup]
  cases rules.setupFault? setup <;> simp

/-! ## What a deal draws -/

/-- What a deal draws from its source: both pools in a new order and the target. With it comes the
source as the deal leaves it. -/
structure Draw where
  largePool : List Int64
  smallPool : List Int64
  target : Int64
  next : Rng

/-- Draws what a deal is made of. The number of large tiles plays no part in it. -/
def draw (rules : Rules) (rng : Rng) : Except RoundError Draw :=
  let (largePool, rng) := rng.shuffle rules.largePool
  let (smallPool, rng) := rng.shuffle rules.smallPool
  match rng.between rules.targetMin rules.targetMax with
  | .error error => .error error
  | .ok (target, next) => .ok ⟨largePool, smallPool, target, next⟩

/-- A draw holds the pools of the rules, each in some order, and a target within bounds. -/
structure Draw.Fits (draw : Draw) (rules : Rules) : Prop where
  large : draw.largePool.Perm rules.largePool
  small : draw.smallPool.Perm rules.smallPool
  target : rules.targetMin ≤ draw.target ∧ draw.target ≤ rules.targetMax

variable {rules : Rules} {large : Nat} {draw : Draw}

/-- The pools are shuffled one after the other, and then the target is drawn. -/
theorem draw_eq_ok {rng : Rng} (h : rules.draw rng = .ok draw) :
    draw.largePool = (rng.shuffle rules.largePool).1 ∧
      draw.smallPool = ((rng.shuffle rules.largePool).2.shuffle rules.smallPool).1 ∧
      ((rng.shuffle rules.largePool).2.shuffle rules.smallPool).2.between
        rules.targetMin rules.targetMax = .ok (draw.target, draw.next) := by
  simp only [Rules.draw] at h
  split at h
  · cases h
  · next hbetween =>
    cases h
    exact ⟨rfl, rfl, hbetween⟩

theorem draw_fits (valid : rules.validate = .ok ()) (rng : Rng) :
    ∃ draw, rules.draw rng = .ok draw ∧ draw.Fits rules := by
  obtain ⟨-, -, hrange, -⟩ := fault?_eq_none_iff.mp (validate_eq_ok_iff.mp valid)
  obtain ⟨target, next, hbetween, hwithin⟩ := Rng.between_within hrange
    ((rng.shuffle rules.largePool).2.shuffle rules.smallPool).2
  have hl := rng.shuffle_perm rules.largePool
  have hs := (rng.shuffle rules.largePool).2.shuffle_perm rules.smallPool
  exact ⟨⟨_, _, target, next⟩, by simp only [Rules.draw, hbetween], hl, hs, hwithin⟩

/-! ## Which of it is taken -/

namespace Draw.Fits

/-- A legal number of large tiles is at most the number of tiles, and neither pool runs short. -/
theorem enough (h : draw.Fits rules) (hc : rules.checkLarge large = .ok ()) :
    large ≤ rules.tileCount ∧ large ≤ draw.largePool.length ∧
      rules.tileCount - large ≤ draw.smallPool.length := by
  obtain ⟨hlarge, hround, hsmall⟩ := checkLarge_eq_ok_iff_supplies.mp hc
  rw [h.large.length_eq, h.small.length_eq]
  exact ⟨hround, hlarge, hsmall⟩

theorem pick_length (h : draw.Fits rules) (hc : rules.checkLarge large = .ok ()) :
    (rules.pick large draw.largePool draw.smallPool).length = rules.tileCount := by
  obtain ⟨hcount, hlarge, hsmall⟩ := h.enough hc
  rw [pick, List.length_append, List.length_take_of_le hlarge, List.length_take_of_le hsmall]
  omega

theorem pick_take (h : draw.Fits rules) (hc : rules.checkLarge large = .ok ()) :
    (rules.pick large draw.largePool draw.smallPool).take large = draw.largePool.take large :=
  List.take_left' (List.length_take_of_le (h.enough hc).2.1)

theorem pick_drop (h : draw.Fits rules) (hc : rules.checkLarge large = .ok ()) :
    (rules.pick large draw.largePool draw.smallPool).drop large =
      draw.smallPool.take (rules.tileCount - large) :=
  List.drop_left' (List.length_take_of_le (h.enough hc).2.1)

theorem pick_subperm (h : draw.Fits rules) :
    (rules.pick large draw.largePool draw.smallPool).Subperm
      (rules.largePool ++ rules.smallPool) :=
  ((List.take_sublist _ _).append (List.take_sublist _ _)).subperm.trans
    (h.large.append h.small).subperm

end Draw.Fits

/-! ## A deal -/

theorem deal_of_checkLarge_error {error : RoundError} (h : rules.checkLarge large = .error error)
    (rng : Rng) : rules.deal large rng = .refuse error rng := by
  rw [deal, h]

theorem deal_of_draw {rng : Rng} (hc : rules.checkLarge large = .ok ())
    (hd : rules.draw rng = .ok draw) :
    (rules.deal large rng).result =
        Setup.ofValues draw.target (rules.pick large draw.largePool draw.smallPool) ∧
      (rules.deal large rng).next = draw.next := by
  obtain ⟨hlarge, hsmall, hbetween⟩ := draw_eq_ok hd
  simp only [deal, hc, hbetween, hlarge, hsmall, and_self]

/-- Valid rules deal every number of large tiles that they admit: values and target are those
drawn, and so is the source left behind. -/
theorem deal_of_checkLarge_ok (valid : rules.validate = .ok ())
    (h : rules.checkLarge large = .ok ()) (rng : Rng) :
    ∃ draw setup, rules.draw rng = .ok draw ∧ draw.Fits rules ∧
      (rules.deal large rng).result = .ok setup ∧ (rules.deal large rng).next = draw.next ∧
      setup.values = rules.pick large draw.largePool draw.smallPool ∧
      setup.target = draw.target := by
  obtain ⟨draw, hdraw, hfits⟩ := draw_fits valid rng
  obtain ⟨-, hcount, -, -⟩ := fault?_eq_none_iff.mp (validate_eq_ok_iff.mp valid)
  have hlen := hfits.pick_length h ▸ Nat.le_succ_of_le hcount
  obtain ⟨setup, hsetup, htarget, hvalues⟩ := Setup.ofValues_eq_ok hlen draw.target
  obtain ⟨hresult, hnext⟩ := deal_of_draw h hdraw
  exact ⟨draw, setup, hdraw, hfits, hresult.trans hsetup, hnext, hvalues, htarget⟩

/-- Whatever valid rules deal comes from a legal number of large tiles and was drawn. -/
theorem deal_eq_ok (valid : rules.validate = .ok ()) {rng : Rng} {setup : Setup}
    (h : (rules.deal large rng).result = .ok setup) :
    rules.checkLarge large = .ok () ∧ ∃ draw, rules.draw rng = .ok draw ∧ draw.Fits rules ∧
      (rules.deal large rng).next = draw.next ∧
      setup.values = rules.pick large draw.largePool draw.smallPool ∧
      setup.target = draw.target := by
  cases hc : rules.checkLarge large with
  | error error =>
    rw [deal_of_checkLarge_error hc] at h
    cases h
  | ok =>
    obtain ⟨draw, dealt, hdraw, hfits, hdealt, hnext, hvalues, htarget⟩ :=
      deal_of_checkLarge_ok valid hc rng
    obtain rfl : dealt = setup := Except.ok.inj (hdealt.symm.trans h)
    exact ⟨rfl, draw, hdraw, hfits, hnext, hvalues, htarget⟩

/-- Whatever valid rules deal, they could have dealt. -/
theorem checkSetup_of_deal (valid : rules.validate = .ok ()) {rng : Rng} {setup : Setup}
    (h : (rules.deal large rng).result = .ok setup) : rules.checkSetup setup = .ok () := by
  obtain ⟨hc, draw, -, hfits, -, hvalues, htarget⟩ := deal_eq_ok valid h
  refine checkSetup_eq_ok_iff.mpr (setupFault?_eq_none_iff.mpr
    ⟨?_, htarget ▸ hfits.target, hvalues ▸ hfits.pick_subperm⟩)
  rw [← setup.length_values, hvalues, hfits.pick_length hc]

end TargetTiles.Rules
