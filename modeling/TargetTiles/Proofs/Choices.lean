import TargetTiles.Proofs.Dealing

/-!
# Choices of tiles

Which setups could have been dealt, told without the check that decides it. Tiles are taken from
places of the two pools, no place twice, as many from the large pool as the rules allow; the setup
shows their values in whatever order. The check only counts values over both pools at once. That
is the same, because values that the pools hold together can always be shared out between them, and
sharing them out never asks for a number of large tiles that the rules forbid.
-/

namespace TargetTiles

/-- Places of the large pool and places of the small one, no place twice. -/
structure Choice (rules : Rules) where
  large : List (Fin rules.largePool.length)
  small : List (Fin rules.smallPool.length)
  large_nodup : large.Nodup
  small_nodup : small.Nodup

namespace Choice

variable {rules : Rules}

/-- The values at the places chosen, those of the large pool first. -/
def values (choice : Choice rules) : List Int64 :=
  choice.large.map rules.largePool.get ++ choice.small.map rules.smallPool.get

theorem length_values (choice : Choice rules) :
    choice.values.length = choice.large.length + choice.small.length := by
  simp [values]

/-! ## Places of one pool -/

/-- The values at different places of a pool are held by it all at once. -/
theorem map_get_subperm {pool : List Int64} {places : List (Fin pool.length)}
    (h : places.Nodup) : (places.map pool.get).Subperm pool := by
  have hall : places.Subperm (List.finRange pool.length) :=
    h.subperm fun place _ => List.mem_finRange place
  obtain ⟨ascending, hperm, hsub⟩ := hall
  have hheld := hsub.map pool.get
  rw [List.map_get_finRange] at hheld
  exact ⟨_, hperm.map pool.get, hheld⟩

theorem length_places_le {pool : List Int64} {places : List (Fin pool.length)}
    (h : places.Nodup) : places.length ≤ pool.length := by
  rw [← List.length_map pool.get]
  exact (map_get_subperm h).length_le

/-- Values left when others are struck out of a pool stand at different places of it. -/
theorem exists_places {pool taken : List Int64} (h : taken.Sublist pool) :
    ∃ places : List (Fin pool.length), places.Nodup ∧ places.map pool.get = taken := by
  obtain ⟨places, hplaces, hascending⟩ := List.sublist_eq_map_getElem h
  exact ⟨places, hascending.imp Fin.ne_of_lt, hplaces.symm⟩

/-! ## Places of both pools -/

theorem values_subperm (choice : Choice rules) :
    choice.values.Subperm (rules.largePool ++ rules.smallPool) :=
  (map_get_subperm choice.large_nodup).append (map_get_subperm choice.small_nodup)

/-- Values that the pools hold together are those of some choice. -/
theorem exists_of_subperm {values : List Int64}
    (h : values.Subperm (rules.largePool ++ rules.smallPool)) :
    ∃ choice : Choice rules, choice.values.Perm values := by
  obtain ⟨taken, hperm, hsub⟩ := h
  -- what is taken from both pools in a row comes first from the one, then from the other
  obtain ⟨fromLarge, fromSmall, rfl, hlarge, hsmall⟩ := List.sublist_append_iff.mp hsub
  obtain ⟨large, hlargeNodup, rfl⟩ := exists_places hlarge
  obtain ⟨small, hsmallNodup, rfl⟩ := exists_places hsmall
  exact ⟨⟨large, small, hlargeNodup, hsmallNodup⟩, hperm⟩

/-- Whatever choice has the right number of tiles, its number of large ones is legal. -/
theorem checkLarge_of_length (choice : Choice rules)
    (h : choice.large.length + choice.small.length = rules.tileCount) :
    rules.checkLarge choice.large.length = .ok () := by
  have hlarge := length_places_le choice.large_nodup
  have hsmall := length_places_le choice.small_nodup
  exact Rules.checkLarge_eq_ok_iff_supplies.mpr ⟨hlarge, by omega, by omega⟩

end Choice

namespace Rules

variable {rules : Rules}

/-- Values are held by two pools together if no value occurs more often than in both of them. -/
theorem subperm_append_iff_count {values large small : List Int64} :
    values.Subperm (large ++ small) ↔
      ∀ value, values.count value ≤ large.count value + small.count value := by
  simp only [← List.count_append]
  refine ⟨fun h value => h.count_le value, fun h => ?_⟩
  exact List.subperm_ext_iff.mpr fun value _ => h value

/-- A setup is accepted exactly if, for some number of large tiles that the rules allow, that many
places of the large pool and places of the small pool for the other tiles can be chosen so that
their values are those of the setup in some order, and if its target is within bounds. Put without
choices: it has the right number of tiles, its target is within bounds, and it shows no value more
often than both pools together. -/
theorem checkSetup_iff_choice (rules : Rules) (setup : Setup) :
    (rules.checkSetup setup = .ok () ↔
      (∃ (large : Nat) (choice : Choice rules), rules.checkLarge large = .ok () ∧
        choice.large.length = large ∧ choice.small.length = rules.tileCount - large ∧
        choice.values.Perm setup.values) ∧
      rules.targetMin ≤ setup.target ∧ setup.target ≤ rules.targetMax) ∧
    (rules.checkSetup setup = .ok () ↔
      setup.tiles.length = rules.tileCount ∧
      (rules.targetMin ≤ setup.target ∧ setup.target ≤ rules.targetMax) ∧
      ∀ value, setup.values.count value ≤
        rules.largePool.count value + rules.smallPool.count value) := by
  rw [checkSetup_eq_ok_iff, setupFault?_eq_none_iff, ← setup.length_values]
  refine ⟨⟨?_, ?_⟩, ?_⟩
  · rintro ⟨hcount, htarget, hheld⟩
    obtain ⟨choice, hperm⟩ := Choice.exists_of_subperm hheld
    have hlength : choice.large.length + choice.small.length = rules.tileCount := by
      rw [← choice.length_values, hperm.length_eq, hcount]
    refine ⟨⟨_, choice, choice.checkLarge_of_length hlength, rfl, ?_, hperm⟩, htarget⟩
    omega
  · rintro ⟨⟨large, choice, hlegal, hlarge, hsmall, hperm⟩, htarget⟩
    have hmost := (checkLarge_eq_ok_iff_supplies.mp hlegal).within_round
    refine ⟨?_, htarget, hperm.symm.subperm.trans choice.values_subperm⟩
    rw [← hperm.length_eq, choice.length_values]
    omega
  · rw [subperm_append_iff_count]

/-- A value that both pools hold counts in both of them. -/
example :
    let rules := { standard with largePool := [5], smallPool := [5, 1], tileCount := 2 }
    rules.checkSetup ⟨100, Setup.inSlots [5, 5], Setup.inSlots_placed (by decide)⟩ = .ok () := by
  decide

end Rules

end TargetTiles
