import TargetTiles.Proofs.Requests

/-!
# Soundness of tables

What is true of a table at all times: its rules are valid, rounds are begun with the operand check
that the rules name, a round in play could have been dealt, each tile is entered at most once and
only if it was dealt, and the value shown is the value of the tokens. Each way of granting a request
keeps this, and so does every sequence of requests.
-/

namespace TargetTiles

/-- What is true of a round in play at a table with these rules. -/
structure Play.Sound (rules : Rules) (play : Play) : Prop where
  placed : ∀ (slot : Nat) (tile : Tile), play.setup.tiles[slot]? = some tile →
    tile.id.index = slot
  dealable : rules.checkSetup play.setup = .ok ()
  dealt : ∀ tile, .tile tile ∈ play.tokens → tile ∈ play.setup.tiles
  once : play.used.Nodup
  check_eq : play.check = rules.operandCheck
  value_eq : play.value = (Evaluation.ofTokens play.check play.tokens).value

/-- What is true of a table. -/
structure Table.Sound (table : Table) : Prop where
  valid : table.rules.validate = .ok ()
  check_eq : table.check = table.rules.operandCheck
  playing : ∀ play, table.round = .playing play → play.Sound table.rules
  done : ∀ outcome, table.round = .done outcome →
    table.rules.targetMin ≤ outcome.target ∧ outcome.target ≤ table.rules.targetMax

/-! ## Rounds in play -/

namespace Play.Sound

variable {rules : Rules} {play shorter : Play} {token : Token}

theorem fresh {setup : Setup} {check : OperandCheck} (hc : check = rules.operandCheck)
    (h : rules.checkSetup setup = .ok ()) : (Play.fresh setup check).Sound rules where
  placed := setup.placed
  dealable := h
  dealt _ ht := absurd ht List.not_mem_nil
  once := .nil
  check_eq := hc
  value_eq := rfl

theorem push (h : play.Sound rules) (hp : play.permit token = .ok ()) :
    (play.push token).Sound rules where
  placed := h.placed
  dealable := h.dealable
  dealt tile ht := by
    rcases List.mem_append.mp ht with ht | ht
    · exact h.dealt tile ht
    · rw [List.mem_singleton] at ht
      subst ht
      exact (Play.permit_tile_eq_ok_iff.mp hp).1
  once := by
    rw [Play.used_push]
    cases token with
    | operator op => simpa [Token.tileId?] using h.once
    | tile tile =>
      have hnew := (Play.permit_tile_eq_ok_iff.mp hp).2
      have hdiff : ∀ id ∈ play.used, id ≠ tile.id := fun id hid he => hnew (he ▸ hid)
      simpa [Token.tileId?, List.nodup_append] using ⟨h.once, hdiff⟩
  check_eq := h.check_eq
  value_eq := rfl

theorem pop (h : play.Sound rules) (hp : play.pop? = some (token, shorter)) :
    shorter.Sound rules := by
  obtain ⟨htokens, hshorter⟩ := Play.pop?_eq_some hp
  have hsub : shorter.tokens.Sublist play.tokens := htokens ▸ List.sublist_append_left _ _
  rw [hshorter]
  exact {
    placed := h.placed
    dealable := h.dealable
    dealt := fun tile ht => h.dealt tile (hsub.subset ht)
    once := h.once.sublist (hsub.filterMap _)
    check_eq := h.check_eq
    value_eq := rfl }

/-- The target of a round in play is within bounds. -/
theorem target_within (h : play.Sound rules) :
    rules.targetMin ≤ play.setup.target ∧ play.setup.target ≤ rules.targetMax :=
  (Rules.setupFault?_eq_none_iff.mp (Rules.checkSetup_eq_ok_iff.mp h.dealable)).2.1

end Play.Sound

/-! ## Tables -/

namespace Table

variable {table next : Table} {request : Request} {grant : Grant}

theorem Grants.rules_eq (h : table.Grants request grant next) : next.rules = table.rules := by
  cases h <;> rfl

/-- A sound round in play may be put on a sound table, whatever has been drawn for it. -/
theorem Sound.put (h : table.Sound) (rng : Rng) {play : Play} (hp : play.Sound table.rules) :
    Sound { table with rng, round := .playing play } where
  valid := h.valid
  check_eq := h.check_eq
  playing other ho := by
    obtain rfl : play = other := Round.playing.inj ho
    exact hp
  done outcome ho := by cases ho

theorem Sound.of_initial (valid : table.rules.validate = .ok ())
    (hc : table.check = table.rules.operandCheck) (hr : table.round = .initial) :
    table.Sound where
  valid := valid
  check_eq := hc
  playing play hp := by simp [hr] at hp
  done outcome ho := by simp [hr] at ho

theorem withRules_eq_ok_iff {rules : Rules} {rng : Rng} :
    withRules rules rng = .ok table ↔
      rules.validate = .ok () ∧ table = ⟨rules, rules.operandCheck, rng, .initial⟩ := by
  rw [withRules]
  cases rules.validate with
  | error error => simp [bind, Except.bind]
  | ok => simp [bind, Except.bind, pure, Except.pure, eq_comm]

theorem Opened.sound (h : table.Opened) : table.Sound := by
  cases h with
  | standard seed => exact .of_initial (show Rules.standard.validate = .ok () by decide) rfl rfl
  | withRules h =>
    obtain ⟨valid, rfl⟩ := withRules_eq_ok_iff.mp h
    exact .of_initial valid rfl rfl

/-- One granted request keeps a table sound. -/
theorem Sound.granted (h : table.Sound) (hg : table.Grants request grant next) : next.Sound := by
  cases hg with
  | start hd => exact h.put _ (.fresh h.check_eq (Rules.checkSetup_of_deal h.valid hd))
  | startWith hc => exact h.put _ (.fresh h.check_eq hc)
  | append hr _ hp => exact h.put _ ((h.playing _ hr).push hp)
  | removeLast hr hp => exact h.put _ ((h.playing _ hr).pop hp)
  | removeNone => exact h
  | commit hr =>
    exact {
      valid := h.valid
      check_eq := h.check_eq
      playing := fun _ hp => by cases hp
      done := fun _ ho => by
        cases ho
        exact (h.playing _ hr).target_within }
  | reset => exact .of_initial h.valid h.check_eq rfl

theorem Sound.answered (h : table.Sound) (request : Request) :
    (table.answer request).next.Sound ∧ (table.answer request).next.rules = table.rules := by
  rcases answer_cases h.valid request with ⟨error, hr⟩ | ⟨grant, -, hg⟩
  · rw [hr]
    exact ⟨h, rfl⟩
  · exact ⟨h.granted hg, hg.rules_eq⟩

/-- A sequence of requests keeps a table sound. -/
theorem Sound.afterwards (h : table.Sound) (requests : List Request) :
    (table.after requests).Sound ∧ (table.after requests).rules = table.rules := by
  induction requests generalizing table with
  | nil => exact ⟨h, rfl⟩
  | cons request requests ih =>
    obtain ⟨hs, hrules⟩ := h.answered request
    obtain ⟨hs', hrules'⟩ := ih hs
    exact ⟨hs', hrules'.trans hrules⟩

theorem Reachable.sound (h : table.Reachable) : table.Sound := by
  obtain ⟨start, requests, ho, rfl⟩ := h
  exact (ho.sound.afterwards requests).1

/-- Whatever is asked of a new table, in whatever order, its rules stay as they are and it stays
sound. -/
theorem sound_after {table : Table} (h : table.Opened) (requests : List Request) :
    (table.after requests).rules = table.rules ∧ (table.after requests).Sound :=
  (h.sound.afterwards requests).symm

/-- An operator entered too early, a tile entered twice and a forged tile are refused; what stands
after an operator has been taken back is a sound round. -/
theorem sound_after_taking_back :
    (standard 42).Opened ∧ ∃ table, table = (standard 42).after
        [.append (.operator .add),
          .startWith ⟨532, Setup.inSlots [100, 10, 4, 3, 3, 7], Setup.inSlots_placed (by decide)⟩,
          .appendTile ⟨3⟩, .appendTile ⟨3⟩, .append (.tile ⟨⟨4⟩, 100⟩), .appendOperator .divide,
          .removeLast] ∧
      table.round.phase = .playing ∧ table.value = some 3.0 ∧
      table.rules = .standard ∧ table.Sound := by
  refine ⟨.standard 42, _, rfl, by decide, by decide +kernel, ?_⟩
  exact sound_after (.standard 42) _

end Table

end TargetTiles
