import TargetTiles.Proofs.Choices
import TargetTiles.Proofs.Fairness
import TargetTiles.Proofs.Orders

/-!
# Chances of a choice

A deal shuffles each pool and takes what then comes first. What it takes is a choice of places, made
by two sequences of swaps. Orders that begin with given places differ only in the places left over,
and each order comes from one sequence of swaps; so every choice of places is made by as many pairs
of sequences as every other. The swaps themselves are indices drawn one after the other from the
source, and no index is favoured over another.
-/

namespace TargetTiles

namespace Rng

variable {α : Type} {items front : List α}

/-! ## Orders that begin alike -/

/-- The orders that begin with given items are as many as the orders of the items left over. -/
theorem ncard_orders_beginning (hnodup : items.Nodup) (hfront : front.Nodup)
    (hsub : front ⊆ items) :
    {order : List α | order.Perm items ∧ order.take front.length = front}.ncard =
      (items.length - front.length).factorial := by
  obtain ⟨taken, htaken, hsublist⟩ := hfront.subperm hsub
  obtain ⟨rest, hrest⟩ := hsublist.exists_perm_append
  have hitems : items.Perm (front ++ rest) := hrest.trans (htaken.append_right rest)
  have hnodupRest : rest.Nodup := (List.nodup_append.mp (hitems.nodup_iff.mp hnodup)).2.1
  have hlen : rest.length = items.length - front.length := by
    rw [hitems.length_eq, List.length_append, Nat.add_sub_cancel_left]
  have hbij : Set.BijOn (fun tail => front ++ tail) {tail : List α | tail.Perm rest}
      {order | order.Perm items ∧ order.take front.length = front} := by
    refine ⟨?_, ?_, ?_⟩
    · intro tail htail
      exact ⟨(htail.append_left front).trans hitems.symm, List.take_left' rfl⟩
    · intro tail _ tail' _ heq
      exact List.append_cancel_left heq
    · rintro order ⟨hperm, htake⟩
      have hsplit : front ++ order.drop front.length = order := by
        have h := List.take_append_drop front.length order
        rwa [htake] at h
      have hrest : (front ++ order.drop front.length).Perm (front ++ rest) := by
        rw [hsplit]
        exact hperm.trans hitems
      exact ⟨order.drop front.length, (List.perm_append_left_iff front).mp hrest, hsplit⟩
  rw [← hbij.ncard_eq, ncard_orders hnodupRest, hlen]

/-- So are the sequences of swaps that bring the given items to the front. -/
theorem ncard_swaps_beginning (hnodup : items.Nodup) (hfront : front.Nodup)
    (hsub : front ⊆ items) :
    {partners | Swaps (items.length - 1) partners ∧
      (arrange partners items).take front.length = front}.ncard =
      (items.length - front.length).factorial := by
  have hbeginning : {order : List α | order.Perm items ∧ order.take front.length = front} ⊆
      {order | order.Perm items} := fun order h => h.1
  have hbij := (arrange_bijOn hnodup).subset_right hbeginning
  rw [← ncard_orders_beginning hnodup hfront hsub, ← hbij.ncard_eq]
  congr 1
  ext partners
  constructor
  · rintro ⟨hswaps, htake⟩
    exact ⟨hswaps, arrange_perm partners items, htake⟩
  · rintro ⟨hswaps, -, htake⟩
    exact ⟨hswaps, htake⟩

end Rng

open Rng

namespace Choice

variable {rules : Rules}

theorem eq_of_places {choice choice' : Choice rules} (hl : choice.large = choice'.large)
    (hs : choice.small = choice'.small) : choice = choice' := by
  obtain ⟨large, small, _, _⟩ := choice
  obtain ⟨large', small', _, _⟩ := choice'
  subst hl hs
  rfl

/-- The places that come first after the swaps, as many as asked for. -/
def places (size taken : Nat) (partners : List Nat) : List (Fin size) :=
  (arrange partners (List.finRange size)).take taken

theorem nodup_places (size taken : Nat) (partners : List Nat) :
    (places size taken partners).Nodup := by
  have hall := (arrange_perm partners (List.finRange size)).nodup_iff.mpr (List.nodup_finRange size)
  exact hall.sublist (List.take_sublist _ _)

/-- The values at those places are the first ones of the pool after the swaps. -/
theorem map_get_places (pool : List Int64) (taken : Nat) (partners : List Nat) :
    (places pool.length taken partners).map pool.get = (arrange partners pool).take taken := by
  rw [places, List.map_take, ← map_arrange, List.map_get_finRange]

/-- The choice that a deal makes, from the swaps of the large pool and those of the small one. -/
def ofSwaps (rules : Rules) (large : Nat) (swaps : List Nat × List Nat) : Choice rules where
  large := places _ large swaps.1
  small := places _ (rules.tileCount - large) swaps.2
  large_nodup := nodup_places _ _ _
  small_nodup := nodup_places _ _ _

theorem values_ofSwaps (large : Nat) (swaps : List Nat × List Nat) :
    (ofSwaps rules large swaps).values = rules.pick large (arrange swaps.1 rules.largePool)
      (arrange swaps.2 rules.smallPool) := by
  rw [values, ofSwaps, map_get_places, map_get_places, Rules.pick]

theorem ncard_swaps_places {size taken : Nat} {front : List (Fin size)} (hfront : front.Nodup)
    (hlen : front.length = taken) :
    {partners | Swaps (size - 1) partners ∧ places size taken partners = front}.ncard =
      (size - taken).factorial := by
  subst hlen
  have hcount := ncard_swaps_beginning (List.nodup_finRange size) hfront
    fun place _ => List.mem_finRange place
  rwa [List.length_finRange] at hcount

/-- Whatever is chosen, as many pairs of sequences of swaps choose it. -/
theorem ncard_swaps (choice : Choice rules) {large : Nat} (hl : choice.large.length = large)
    (hs : choice.small.length = rules.tileCount - large) :
    {swaps : List Nat × List Nat | (Swaps (rules.largePool.length - 1) swaps.1 ∧
        Swaps (rules.smallPool.length - 1) swaps.2) ∧ ofSwaps rules large swaps = choice}.ncard =
      (rules.largePool.length - large).factorial *
        (rules.smallPool.length - (rules.tileCount - large)).factorial := by
  rw [← ncard_swaps_places choice.large_nodup hl, ← ncard_swaps_places choice.small_nodup hs,
    ← Set.ncard_prod]
  congr 1
  ext ⟨forLarge, forSmall⟩
  constructor
  · rintro ⟨⟨hlarge, hsmall⟩, rfl⟩
    exact ⟨⟨hlarge, rfl⟩, hsmall, rfl⟩
  · rintro ⟨⟨hlarge, hl'⟩, hsmall, hs'⟩
    exact ⟨⟨hlarge, hsmall⟩, eq_of_places hl' hs'⟩

end Choice

namespace Rules

variable {rules : Rules} {large : Nat} {rng : Rng}

/-! ## Deals -/

/-- The swaps that a deal draws, those of the large pool first. -/
def dealSwaps (rules : Rules) (rng : Rng) : List Nat × List Nat :=
  let (forLarge, rng) := rng.swaps (rules.largePool.length - 1)
  let (forSmall, _) := rng.swaps (rules.smallPool.length - 1)
  (forLarge, forSmall)

/-- The swaps of the small pool are drawn from the source as those of the large one leave it. -/
theorem dealSwaps_drawn (rules : Rules) (rng : Rng) : ∃ between next,
    rng.SwapsDrawn (rules.largePool.length - 1) (rules.dealSwaps rng).1 between ∧
      between.SwapsDrawn (rules.smallPool.length - 1) (rules.dealSwaps rng).2 next :=
  ⟨_, _, rng.swapsDrawn_swaps _, swapsDrawn_swaps _ _⟩

theorem draw_pools {draw : Draw} (h : rules.draw rng = .ok draw) :
    draw.largePool = arrange (rules.dealSwaps rng).1 rules.largePool ∧
      draw.smallPool = arrange (rules.dealSwaps rng).2 rules.smallPool := by
  obtain ⟨hlarge, hsmall, -⟩ := draw_eq_ok h
  exact ⟨hlarge, hsmall⟩

/-- A deal shows the values of the choice that its swaps make. -/
theorem values_of_deal (valid : rules.validate = .ok ()) {setup : Setup}
    (h : (rules.deal large rng).result = .ok setup) :
    setup.values = (Choice.ofSwaps rules large (rules.dealSwaps rng)).values := by
  obtain ⟨-, draw, hdraw, -, -, hvalues, -⟩ := deal_eq_ok valid h
  obtain ⟨hlarge, hsmall⟩ := draw_pools hdraw
  rw [hvalues, hlarge, hsmall, Choice.values_ofSwaps]

/-- An index below a range is settled by the first word that counts, and of the words there are
equally many settle on each index. A shuffle draws its swaps as such indices, one after the other
from its source: a place swaps with one of the places up to its own. Different items come into the
order that these swaps lead to, and each of their orders is led to by one sequence of swaps. So a
deal favours no choice of tiles: it shows the values of the places that its two sequences of swaps,
drawn one behind the other, bring to the front; and whatever places are to be chosen, in whatever
order, as many pairs of sequences choose them. -/
theorem deal_favours_no_choice :
    (∀ range, 0 < range → range < 2 ^ 32 → FairIndex range) ∧
    (∀ {α : Type} (items : List α), items.Nodup →
      (∀ rng : Rng,
        rng.SwapsDrawn (items.length - 1) (rng.swaps (items.length - 1)).1 (rng.shuffle items).2 ∧
        Swaps (items.length - 1) (rng.swaps (items.length - 1)).1 ∧
        (rng.shuffle items).1 = arrange (rng.swaps (items.length - 1)).1 items) ∧
      Set.BijOn (fun partners => arrange partners items)
        {partners | Swaps (items.length - 1) partners} {order | order.Perm items} ∧
      {order : List α | order.Perm items}.ncard = items.length.factorial) ∧
    ∀ (rules : Rules) (large : Nat), rules.validate = .ok () → rules.checkLarge large = .ok () →
      (∀ rng : Rng, ∃ setup between next, (rules.deal large rng).result = .ok setup ∧
        rng.SwapsDrawn (rules.largePool.length - 1) (rules.dealSwaps rng).1 between ∧
        between.SwapsDrawn (rules.smallPool.length - 1) (rules.dealSwaps rng).2 next ∧
        Swaps (rules.largePool.length - 1) (rules.dealSwaps rng).1 ∧
        Swaps (rules.smallPool.length - 1) (rules.dealSwaps rng).2 ∧
        setup.values = (Choice.ofSwaps rules large (rules.dealSwaps rng)).values) ∧
      ∀ choice : Choice rules, choice.large.length = large →
        choice.small.length = rules.tileCount - large →
        {swaps : List Nat × List Nat | (Swaps (rules.largePool.length - 1) swaps.1 ∧
            Swaps (rules.smallPool.length - 1) swaps.2) ∧
            Choice.ofSwaps rules large swaps = choice}.ncard =
          (rules.largePool.length - large).factorial *
            (rules.smallPool.length - (rules.tileCount - large)).factorial := by
  refine ⟨fun range hr hb => fairIndex hr hb, ?_, ?_⟩
  · intro α items hnodup
    refine ⟨?_, arrange_bijOn hnodup, ncard_orders hnodup⟩
    intro rng
    have hdrawn := rng.swapsDrawn_swaps (items.length - 1)
    rw [shuffle_eq]
    exact ⟨hdrawn, hdrawn.swaps, rfl⟩
  · intro rules large valid hlegal
    refine ⟨?_, ?_⟩
    · intro rng
      obtain ⟨-, setup, -, -, hdealt, -⟩ := deal_of_checkLarge_ok valid hlegal rng
      obtain ⟨between, next, hlarge, hsmall⟩ := rules.dealSwaps_drawn rng
      exact ⟨setup, between, next, hdealt, hlarge, hsmall, hlarge.swaps, hsmall.swaps,
        values_of_deal valid hdealt⟩
    · intro choice hlarge hsmall
      exact choice.ncard_swaps hlarge hsmall

/-- The last of twenty items swaps with the eleventh for `2 ^ 27` words. It does so from seed 2,
whose first two words count for nothing here. Three items have six orders. The standard rules choose
75 and 25, the first of the ones, the sixes and a ten, in this order and from these places, by as
many swaps as any other tiles. -/
theorem deal_favours_no_choice_standard :
    {word | word < 2 ^ 32 ∧ Fair.choose? 32 20 word = some 10}.ncard = 2 ^ 27 ∧
    (ofSeed 2).index 20 = (10, (ofSeed 2).ahead 3) ∧
    {order : List Nat | order.Perm [3, 1, 2]}.ncard = 6 ∧
    standard.validate = .ok () ∧ standard.checkLarge 2 = .ok () ∧
    ∃ choice : Choice standard, choice.values = [75, 25, 1, 6, 6, 10] ∧
      {swaps : List Nat × List Nat | (Swaps 3 swaps.1 ∧ Swaps 19 swaps.2) ∧
        Choice.ofSwaps standard 2 swaps = choice}.ncard = Nat.factorial 2 * Nat.factorial 16 := by
  obtain ⟨hindices, hshuffle, hdeal⟩ := deal_favours_no_choice
  have hindex := hindices 20 (by decide) (by decide)
  have hdrawn := hindex.settled (ofSeed 2) 2 10 (by decide +kernel) (by decide +kernel)
  obtain ⟨-, -, horders⟩ := hshuffle [3, 1, 2] (by decide)
  have valid : standard.validate = .ok () := by decide
  have hlegal : standard.checkLarge 2 = .ok () := by decide
  obtain ⟨-, hchance⟩ := hdeal standard 2 valid hlegal
  let choice : Choice standard :=
    ⟨[(2 : Fin 4), (0 : Fin 4)], [(0 : Fin 20), (10 : Fin 20), (11 : Fin 20), (19 : Fin 20)],
      by decide, by decide⟩
  exact ⟨hindex.shares 10 (by decide), hdrawn, horders, valid, hlegal, choice, by decide,
    hchance choice rfl rfl⟩

end Rules

end TargetTiles
