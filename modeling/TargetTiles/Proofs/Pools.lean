import TargetTiles.Proofs.Dealing

/-!
# Deals and pools

A deal takes its tiles out of the pools as out of two bags: the large tiles first, then the small
ones, none more often than its pool holds it. Whether there is a deal at all depends on the number
of large tiles alone.
-/

namespace TargetTiles.Rules

variable {rules : Rules} {large : Nat}

/-! ## Values taken from a pool -/

/-- The first items of a shuffled pool hold no item more often than the pool does. -/
theorem count_take_le {pool shuffled : List Int64} (h : shuffled.Perm pool) (taken : Nat)
    (value : Int64) : (shuffled.take taken).count value ≤ pool.count value :=
  h.count_eq value ▸ (List.take_sublist taken shuffled).count_le value

namespace Draw.Fits

variable {draw : Draw}

/-- Where no value lies in both pools, the large tiles are known by their values. -/
theorem countP_pick (h : draw.Fits rules) (hc : rules.checkLarge large = .ok ())
    (hapart : ∀ value ∈ rules.largePool, value ∉ rules.smallPool) :
    (rules.pick large draw.largePool draw.smallPool).countP (· ∈ rules.largePool) = large := by
  have hlarge : (draw.largePool.take large).countP (· ∈ rules.largePool) = large := by
    rw [List.countP_eq_length.mpr, List.length_take_of_le (h.enough hc).2.1]
    intro value hv
    exact decide_eq_true (h.large.mem_iff.mp (List.mem_of_mem_take hv))
  have hsmall : (draw.smallPool.take (rules.tileCount - large)).countP
      (· ∈ rules.largePool) = 0 := by
    rw [List.countP_eq_zero]
    intro value hv hin
    exact hapart value (of_decide_eq_true hin) (h.small.mem_iff.mp (List.mem_of_mem_take hv))
  rw [pick, List.countP_append, hlarge, hsmall, Nat.add_zero]

end Draw.Fits

/-! ## Deals -/

/-- Valid rules deal the numbers of large tiles between their bounds, and refuse the others without
touching the source; there is no third way. What is dealt has the right number of tiles, each in
its slot. The first of them come from the large pool and the others from the small one, no value
more often than the pool holds it. The target is the number that is drawn once both pools have been
shuffled, with which the deal leaves the source, and it is within bounds. The setup could have been
dealt. -/
theorem deal_draws_from_pools (valid : rules.validate = .ok ()) (rng : Rng) (large : Nat) :
    ((∃ setup, (rules.deal large rng).result = .ok setup) ↔
      rules.minLarge ≤ large ∧ large ≤ rules.maxLarge) ∧
    (¬(rules.minLarge ≤ large ∧ large ≤ rules.maxLarge) →
      rules.deal large rng = .refuse (.largeCount large rules.maxLarge) rng) ∧
    ∀ setup, (rules.deal large rng).result = .ok setup →
      large ≤ rules.tileCount ∧
      setup.tiles.map (·.id.index) = List.range rules.tileCount ∧
      (∀ value, (setup.values.take large).count value ≤ rules.largePool.count value) ∧
      (∀ value, (setup.values.drop large).count value ≤ rules.smallPool.count value) ∧
      ((rng.shuffle rules.largePool).2.shuffle rules.smallPool).2.between
        rules.targetMin rules.targetMax = .ok (setup.target, (rules.deal large rng).next) ∧
      (rules.targetMin ≤ setup.target ∧ setup.target ≤ rules.targetMax) ∧
      rules.checkSetup setup = .ok () ∧
      ((∀ value ∈ rules.largePool, value ∉ rules.smallPool) →
        setup.values.countP (· ∈ rules.largePool) = large) := by
  refine ⟨⟨?_, ?_⟩, ?_, ?_⟩
  · rintro ⟨setup, h⟩
    exact checkLarge_eq_ok_iff.mp (deal_eq_ok valid h).1
  · intro h
    obtain ⟨-, setup, -, -, hdealt, -⟩ :=
      deal_of_checkLarge_ok valid (checkLarge_eq_ok_iff.mpr h) rng
    exact ⟨setup, hdealt⟩
  · intro h
    exact deal_of_checkLarge_error (checkLarge_eq_error (by omega)) rng
  · intro setup h
    obtain ⟨hc, draw, hdraw, hfits, hnext, hvalues, htarget⟩ := deal_eq_ok valid h
    refine ⟨(hfits.enough hc).1, ?_, ?_, ?_, ?_, htarget ▸ hfits.target,
      checkSetup_of_deal valid h, ?_⟩
    · rw [setup.map_index_tiles, ← setup.length_values, hvalues, hfits.pick_length hc]
    · rw [hvalues, hfits.pick_take hc]
      exact count_take_le hfits.large large
    · rw [hvalues, hfits.pick_drop hc]
      exact count_take_le hfits.small _
    · rw [htarget, hnext]
      exact (draw_eq_ok hdraw).2.2
    · rw [hvalues]
      exact hfits.countP_pick hc

/-- The standard rules refuse five large tiles, and deal two of them as asked for. -/
theorem deal_draws_from_pools_standard :
    Rules.standard.validate = .ok () ∧
    Rules.standard.deal 5 (.ofSeed 42) = .refuse (.largeCount 5 4) (.ofSeed 42) ∧
    ∃ setup, (Rules.standard.deal 2 (.ofSeed 42)).result = .ok setup ∧
      setup.tiles.map (·.id.index) = [0, 1, 2, 3, 4, 5] ∧
      setup.values.countP (· ∈ standardLargePool) = 2 ∧
      Rules.standard.checkSetup setup = .ok () := by
  have valid : Rules.standard.validate = .ok () := by decide
  have disjoint : ∀ value ∈ standardLargePool, value ∉ standardSmallPool := by
    simp [standardLargePool, standardSmallPool]
  obtain ⟨-, hrefused, -⟩ := deal_draws_from_pools valid (.ofSeed 42) 5
  obtain ⟨hlegal, -, hdealt⟩ := deal_draws_from_pools valid (.ofSeed 42) 2
  obtain ⟨setup, hd⟩ := hlegal.mpr (by decide)
  obtain ⟨-, hslots, -, -, -, -, hcheck, hlarge⟩ := hdealt setup hd
  exact ⟨valid, hrefused (by decide), setup, hd, hslots, hlarge disjoint, hcheck⟩

end TargetTiles.Rules
