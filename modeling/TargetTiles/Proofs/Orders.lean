import Mathlib.Data.List.Permutation
import Mathlib.Data.Set.Card
import TargetTiles.Proofs.Drawing

/-!
# Orders and the swaps that lead to them

A shuffle fills the places from the last one down: each swap settles one place for good and leaves
the places before it to the swaps that follow. So the item that stands in a place afterwards tells
which swap was made there, and every order of different items is reached by one sequence of swaps.
-/

namespace TargetTiles.Rng

variable {α β : Type} {last partner : Nat} {partners : List Nat} {items order : List α}

/-! ## Swaps -/

/-- Swaps as a shuffle may draw them: for each place from `last` down to 1, a place at or before
it. -/
inductive Swaps : Nat → List Nat → Prop
  | done : Swaps 0 []
  | swap {last partner : Nat} {partners : List Nat} (h : partner ≤ last + 1)
      (later : Swaps last partners) : Swaps (last + 1) (partner :: partners)

theorem index_lt (rng : Rng) {range : Nat} (hr : 0 < range) : (rng.index range).1 < range := by
  rw [index]
  exact firstFair_lt hr word32_lt (1 <<< 68) rng

/-- Swaps as they come from a source, and the source that they leave. A place swaps with one of
the places up to its own, drawn as an index below their number, and the swaps of the places before
it are drawn from the source as that leaves it. -/
inductive SwapsDrawn : Rng → Nat → List Nat → Rng → Prop
  | done (rng : Rng) : SwapsDrawn rng 0 [] rng
  | swap {rng next : Rng} {last : Nat} {partners : List Nat}
      (later : SwapsDrawn (rng.index (last + 2)).2 last partners next) :
      SwapsDrawn rng (last + 1) ((rng.index (last + 2)).1 :: partners) next

/-- What is drawn are swaps as a shuffle may draw them. -/
theorem SwapsDrawn.swaps {rng next : Rng} (h : SwapsDrawn rng last partners next) :
    Swaps last partners := by
  induction h with
  | done => exact .done
  | @swap rng next last partners later ih =>
    have hpartner := rng.index_lt (Nat.zero_lt_succ (last + 1))
    exact .swap (Nat.le_of_lt_succ hpartner) ih

theorem swapsDrawn_swaps (rng : Rng) (last : Nat) :
    SwapsDrawn rng last (rng.swaps last).1 (rng.swaps last).2 := by
  induction last generalizing rng with
  | zero => exact .done rng
  | succ last ih =>
    rw [swaps_succ]
    exact .swap (ih _)

/-! ## What the swaps do -/

/-- The items after the places from `last` down to 1 have been swapped with their partners. -/
def reorder (last : Nat) (partners : List Nat) (items : List α) : List α :=
  (permute last partners items.toArray).toList

@[simp] theorem reorder_nil (last : Nat) (items : List α) : reorder last [] items = items := by
  cases last <;> rfl

@[simp] theorem reorder_cons (last partner : Nat) (partners : List Nat) (items : List α) :
    reorder (last + 1) (partner :: partners) items =
      reorder last partners (items.swap (last + 1) partner) := by
  have hswap : (items.toArray.swapIfInBounds (last + 1) partner).toList =
      items.swap (last + 1) partner := by
    refine List.ext_getElem (by simp) fun place _ _ => ?_
    simp only [Array.getElem_toList, Array.getElem_swapIfInBounds, List.getElem_swap,
      List.getElem_toArray, List.size_toArray]
  rw [reorder, permute, reorder, ← hswap, Array.toArray_toList]

theorem reorder_perm (last : Nat) (partners : List Nat) (items : List α) :
    (reorder last partners items).Perm items :=
  (permute_perm last partners items.toArray).toList

/-! ## Places -/

theorem getElem?_swap_left {place : Nat} (hp : place < items.length)
    (hpartner : partner < items.length) : (items.swap place partner)[place]? = items[partner]? := by
  rw [List.getElem?_eq_getElem (by rwa [List.length_swap]), List.getElem?_eq_getElem hpartner,
    List.getElem_swap_left, dif_pos hpartner]

theorem getElem?_swap_of_ne {place other : Nat} (hp : other ≠ place) (hpartner : other ≠ partner) :
    (items.swap place partner)[other]? = items[other]? := by
  by_cases h : other < items.length
  · rw [List.getElem?_eq_getElem (by rwa [List.length_swap]), List.getElem?_eq_getElem h,
      List.getElem_swap_of_ne hp hpartner]
  · rw [List.getElem?_eq_none (by rw [List.length_swap]; omega), List.getElem?_eq_none (by omega)]

/-- Two orders hold the same items behind a place. -/
def AgreeBehind (last : Nat) (order items : List α) : Prop :=
  ∀ place, last < place → order[place]? = items[place]?

/-- Swaps of the places from `last` down leave the places behind `last` alone. -/
theorem Swaps.agreeBehind_reorder (h : Swaps last partners) (items : List α) :
    AgreeBehind last (reorder last partners items) items := by
  intro place hp
  induction h generalizing items with
  | done => rfl
  | swap hle later ih =>
    rw [reorder_cons, ih _ (by omega), getElem?_swap_of_ne (by omega) (by omega)]

/-- The place that is swapped first holds its partner's item in the end. -/
theorem Swaps.getElem?_reorder_first (h : Swaps (last + 1) (partner :: partners))
    (hlast : last + 1 < items.length) :
    (reorder (last + 1) (partner :: partners) items)[last + 1]? = items[partner]? := by
  cases h with
  | swap hle later =>
    rw [reorder_cons, later.agreeBehind_reorder _ _ (Nat.lt_succ_self last),
      getElem?_swap_left hlast (by omega)]

/-! ## One order for each sequence of swaps -/

theorem nodup_swap (hnodup : items.Nodup) (place other : Nat) : (items.swap place other).Nodup :=
  (List.swap_perm items place other).nodup_iff.mpr hnodup

/-- Different items tell by their order how they were swapped. -/
theorem Swaps.eq_of_reorder_eq {partners' : List Nat} (h : Swaps last partners)
    (h' : Swaps last partners') (hlast : last ≤ items.length - 1) (hnodup : items.Nodup)
    (heq : reorder last partners items = reorder last partners' items) : partners = partners' := by
  induction h generalizing items partners' with
  | done =>
    cases h'
    rfl
  | @swap last partner partners hle later ih =>
    have hplace : last + 1 < items.length := by omega
    cases h' with
    | @swap _ partner' partners' hle' later' =>
      have hitem : items[partner]? = items[partner']? := by
        rw [← (Swaps.swap hle later).getElem?_reorder_first hplace, heq,
          (Swaps.swap hle' later').getElem?_reorder_first hplace]
      obtain rfl : partner = partner' := (List.getElem?_inj (by omega) hnodup).mp hitem
      rw [reorder_cons, reorder_cons] at heq
      rw [ih later' (by rw [List.length_swap]; omega) (nodup_swap hnodup _ _) heq]

/-- Of the same items only one can stand in the first place, if the others are as they were. -/
theorem AgreeBehind.eq_of_zero (h : AgreeBehind 0 order items) (hperm : order.Perm items) :
    order = items := by
  cases items with
  | nil => exact List.perm_nil.mp hperm
  | cons first rest =>
    cases order with
    | nil => exact absurd hperm.length_eq (by simp)
    | cons first' rest' =>
      have hrest : rest' = rest := by
        refine List.ext_getElem? fun place => ?_
        have hplace := h (place + 1) (Nat.succ_pos place)
        rwa [List.getElem?_cons_succ, List.getElem?_cons_succ] at hplace
      subst hrest
      have hfirst : [first'] = [first] :=
        List.perm_singleton.mp ((List.perm_append_right_iff rest').mp hperm)
      rw [List.singleton_inj.mp hfirst]

/-- One swap settles one place more: the item that is to stand there tells its partner, which has
not been settled yet. -/
theorem AgreeBehind.exists_swap (h : AgreeBehind (last + 1) order items)
    (hlast : last + 1 < items.length) (hnodup : items.Nodup) (hperm : order.Perm items) :
    ∃ partner ≤ last + 1, AgreeBehind last order (items.swap (last + 1) partner) := by
  have hplace : last + 1 < order.length := hperm.length_eq ▸ hlast
  obtain ⟨partner, hpartner, hitem⟩ := List.getElem_of_mem (hperm.subset (List.getElem_mem hplace))
  have hmoved : order[last + 1]? = items[partner]? := by
    rw [List.getElem?_eq_getElem hplace, List.getElem?_eq_getElem hpartner, hitem]
  have hle : partner ≤ last + 1 := by
    refine Nat.le_of_not_lt fun hlt => ?_
    rw [← h partner hlt] at hmoved
    have hsame := (List.getElem?_inj hplace (hperm.nodup_iff.mpr hnodup)).mp hmoved
    omega
  refine ⟨partner, hle, ?_⟩
  intro place hp
  by_cases hbehind : last + 1 < place
  · rw [h place hbehind, getElem?_swap_of_ne (by omega) (by omega)]
  · obtain rfl : place = last + 1 := by omega
    rw [getElem?_swap_left hlast hpartner, hmoved]

/-- Items that are swapped from `last` down come into any order that agrees with theirs behind
`last`. -/
theorem AgreeBehind.exists_swaps (h : AgreeBehind last order items)
    (hlast : last ≤ items.length - 1) (hnodup : items.Nodup) (hperm : order.Perm items) :
    ∃ partners, Swaps last partners ∧ reorder last partners items = order := by
  induction last generalizing items with
  | zero => exact ⟨[], .done, (h.eq_of_zero hperm).symm⟩
  | succ last ih =>
    obtain ⟨partner, hle, hagree⟩ := h.exists_swap (by omega) hnodup hperm
    have hswapped : order.Perm (items.swap (last + 1) partner) :=
      hperm.trans (List.swap_perm items _ _).symm
    obtain ⟨partners, hswaps, hreorder⟩ :=
      ih hagree (by rw [List.length_swap]; omega) (nodup_swap hnodup _ _) hswapped
    exact ⟨partner :: partners, .swap hle hswaps, by rw [reorder_cons, hreorder]⟩

/-! ## Shuffles -/

/-- The items in the order that a shuffle with these swaps gives them. -/
def arrange (partners : List Nat) (items : List α) : List α :=
  reorder (items.length - 1) partners items

theorem shuffle_eq (rng : Rng) (items : List α) :
    rng.shuffle items = (arrange (rng.swaps (items.length - 1)).1 items,
      (rng.swaps (items.length - 1)).2) := rfl

theorem arrange_perm (partners : List Nat) (items : List α) : (arrange partners items).Perm items :=
  reorder_perm _ partners items

/-- Each order of different items comes from one sequence of swaps. -/
theorem arrange_bijOn (hnodup : items.Nodup) :
    Set.BijOn (fun partners => arrange partners items)
      {partners | Swaps (items.length - 1) partners} {order : List α | order.Perm items} := by
  refine ⟨?_, ?_, ?_⟩
  · intro partners _
    exact arrange_perm partners items
  · intro partners h partners' h' heq
    exact h.eq_of_reorder_eq h' (Nat.le_refl _) hnodup heq
  · intro order hperm
    have hagree : AgreeBehind (items.length - 1) order items := by
      intro place hp
      have hlen := hperm.length_eq
      rw [List.getElem?_eq_none (by omega), List.getElem?_eq_none (by omega)]
    exact hagree.exists_swaps (Nat.le_refl _) hnodup hperm

theorem ncard_orders (hnodup : items.Nodup) :
    {order : List α | order.Perm items}.ncard = items.length.factorial := by
  classical
  have horders : {order : List α | order.Perm items} = items.permutations.toFinset := by
    ext order
    simp [List.mem_permutations]
  rw [horders, Set.ncard_coe_finset, List.toFinset_card_of_nodup (List.nodup_permutations _ hnodup),
    List.length_permutations]

/-! ## Shuffles of places -/

theorem map_swap (f : α → β) (items : List α) (place other : Nat) :
    (items.map f).swap place other = (items.swap place other).map f := by
  refine List.ext_getElem (by simp) fun k _ _ => ?_
  simp only [List.getElem_map, List.getElem_swap, List.length_map]
  split
  · rfl
  · split <;> rfl

theorem map_reorder (f : α → β) (last : Nat) (partners : List Nat) (items : List α) :
    reorder last partners (items.map f) = (reorder last partners items).map f := by
  induction last generalizing partners items with
  | zero => rfl
  | succ last ih =>
    cases partners with
    | nil => simp only [reorder_nil]
    | cons partner partners => rw [reorder_cons, reorder_cons, map_swap, ih]

/-- Swaps look at places only, so whatever stands there goes with them. -/
theorem map_arrange (f : α → β) (partners : List Nat) (items : List α) :
    arrange partners (items.map f) = (arrange partners items).map f := by
  rw [arrange, List.length_map, map_reorder, arrange]

end TargetTiles.Rng
