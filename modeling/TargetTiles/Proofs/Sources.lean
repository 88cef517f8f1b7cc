import TargetTiles.Proofs.Soundness

/-!
# Deals and their number

A round dealt depends on the rules, on the random source the table began with, and on how many
rounds were dealt before it. Whatever else happens at the table leaves the source alone, and a
deal reads the same words of it for every number of large tiles. So two tables that began alike
deal the same targets and the same order of values, however differently they are played at.
-/

namespace TargetTiles

namespace Rules

/-- The source after a round has been dealt. -/
def nextSource (rules : Rules) (rng : Rng) : Rng :=
  match rules.draw rng with
  | .ok draw => draw.next
  | .error _ => rng

/-- The source after some number of rounds has been dealt. -/
def sourceAfter (rules : Rules) (rng : Rng) : Nat → Rng
  | 0 => rng
  | count + 1 => rules.sourceAfter (rules.nextSource rng) count

variable {rules : Rules} {rng : Rng} {large large' : Nat} {setup setup' : Setup}

theorem nextSource_of_deal (valid : rules.validate = .ok ())
    (h : (rules.deal large rng).result = .ok setup) :
    (rules.deal large rng).next = rules.nextSource rng := by
  obtain ⟨-, draw, hdraw, -, hnext, -⟩ := deal_eq_ok valid h
  rw [hnext, nextSource, hdraw]

/-- Two deals from one source have the same target, and agree on the tiles as far as both take
them from the same pool. -/
theorem deals_agree (valid : rules.validate = .ok ())
    (h : (rules.deal large rng).result = .ok setup)
    (h' : (rules.deal large' rng).result = .ok setup') :
    setup.target = setup'.target ∧
      (large ≤ large' → setup.values.take large = setup'.values.take large ∧
        setup'.values.drop large' <+: setup.values.drop large) := by
  obtain ⟨hc, draw, hdraw, hfits, -, hvalues, htarget⟩ := deal_eq_ok valid h
  obtain ⟨hc', draw', hdraw', -, -, hvalues', htarget'⟩ := deal_eq_ok valid h'
  obtain rfl : draw = draw' := Except.ok.inj (hdraw.symm.trans hdraw')
  refine ⟨htarget.trans htarget'.symm, fun hle => ⟨?_, ?_⟩⟩
  · calc setup.values.take large
        = draw.largePool.take large := by rw [hvalues, hfits.pick_take hc]
      _ = (draw.largePool.take large').take large := by
          rw [List.take_take, Nat.min_eq_left hle]
      _ = (setup'.values.take large').take large := by rw [hvalues', hfits.pick_take hc']
      _ = setup'.values.take large := by rw [List.take_take, Nat.min_eq_left hle]
  · rw [hvalues, hvalues', hfits.pick_drop hc, hfits.pick_drop hc']
    exact List.take_prefix_take_left (Nat.sub_le_sub_left hle _)

end Rules

/-- The round that a granted request has dealt, with the number of large tiles asked for. -/
def Grant.dealt? : Grant → Request → Option (Nat × Setup)
  | .setup dealt, .start large => some (large, dealt)
  | _, _ => none

namespace Table

/-- The rounds dealt while a table answers requests, the first one first. -/
def deals (table : Table) : List Request → List (Nat × Setup)
  | [] => []
  | request :: requests =>
    let later := (table.answer request).next.deals requests
    match (table.answer request).result with
    | .ok grant => (grant.dealt? request).toList ++ later
    | .error _ => later

variable {table next : Table} {request : Request} {grant : Grant}

/-! ## One request -/

/-- A granted request deals a round, or it leaves the random source alone. -/
theorem Grants.dealt (h : table.Grants request grant next) (valid : table.rules.validate = .ok ()) :
    (∃ large setup, grant.dealt? request = some (large, setup) ∧
      (table.rules.deal large table.rng).result = .ok setup ∧
      next.rng = table.rules.nextSource table.rng) ∨
    (grant.dealt? request = none ∧ next.rng = table.rng) := by
  cases h with
  | start hd => exact .inl ⟨_, _, rfl, hd, Rules.nextSource_of_deal valid hd⟩
  | startWith => exact .inr ⟨rfl, rfl⟩
  | append => exact .inr ⟨rfl, rfl⟩
  | removeLast => exact .inr ⟨rfl, rfl⟩
  | removeNone => exact .inr ⟨rfl, rfl⟩
  | commit => exact .inr ⟨rfl, rfl⟩
  | reset => exact .inr ⟨rfl, rfl⟩

@[simp] theorem deals_nil (table : Table) : table.deals [] = [] := rfl

theorem deals_of_refused {error : RoundError}
    (h : table.answer request = .refuse error table) (requests : List Request) :
    table.deals (request :: requests) = table.deals requests := by
  simp only [deals, h, Reply.refuse]

/-- So does every request, granted or refused. -/
theorem deals_cons (valid : table.rules.validate = .ok ()) (request : Request)
    (requests : List Request) :
    (∃ large setup, table.deals (request :: requests) =
        (large, setup) :: (table.answer request).next.deals requests ∧
      (table.rules.deal large table.rng).result = .ok setup ∧
      (table.answer request).next.rng = table.rules.nextSource table.rng) ∨
    (table.deals (request :: requests) = (table.answer request).next.deals requests ∧
      (table.answer request).next.rng = table.rng) := by
  rcases answer_cases valid request with ⟨error, hr⟩ | ⟨grant, hok, hg⟩
  · rw [deals_of_refused hr, hr]
    exact .inr ⟨rfl, rfl⟩
  · rcases hg.dealt valid with ⟨large, setup, hdealt, hd, hnext⟩ | ⟨hdealt, hnext⟩
    · exact .inl ⟨large, setup, by simp [deals, hok, hdealt], hd, hnext⟩
    · exact .inr ⟨by simp [deals, hok, hdealt], hnext⟩

/-- A legal number of large tiles has a round dealt in every phase. -/
theorem deals_start (valid : table.rules.validate = .ok ()) (large : Nat)
    (hc : table.rules.checkLarge large = .ok ()) (requests : List Request) :
    ∃ setup, table.deals (.start large :: requests) =
      (large, setup) :: (table.answer (.start large)).next.deals requests := by
  obtain ⟨-, setup, -, -, hd, -⟩ := Rules.deal_of_checkLarge_ok valid hc table.rng
  refine ⟨setup, ?_⟩
  have hr : (table.answer (.start large)).result = .ok (.setup setup) := by
    simp only [answer, start, hd]
    rfl
  simp only [deals, hr]
  rfl

/-! ## A sequence of requests -/

/-- After any requests the source is the one that follows from the number of rounds dealt, and
each of them was dealt from the source that follows from the number of those before it. -/
theorem Sound.deals_spec (h : table.Sound) (requests : List Request) :
    (table.after requests).rng =
        table.rules.sourceAfter table.rng (table.deals requests).length ∧
      ∀ count large setup, (table.deals requests)[count]? = some (large, setup) →
        (table.rules.deal large (table.rules.sourceAfter table.rng count)).result =
          .ok setup := by
  induction requests generalizing table with
  | nil => exact ⟨rfl, fun count _ _ hd => by simp [deals] at hd⟩
  | cons request requests ih =>
    obtain ⟨hs, hrules⟩ := h.answered request
    obtain ⟨hrng, hdeals⟩ := ih hs
    rw [hrules] at hrng hdeals
    rcases deals_cons h.valid request requests with
      ⟨large, setup, hcons, hd, hnext⟩ | ⟨hcons, hnext⟩
    · rw [hnext] at hrng hdeals
      rw [hcons]
      refine ⟨hrng, fun count large' setup' hc => ?_⟩
      cases count with
      | zero =>
        cases hc
        exact hd
      | succ count => exact hdeals count large' setup' hc
    · rw [hnext] at hrng hdeals
      rw [hcons]
      exact ⟨hrng, hdeals⟩

/-- At two tables that began with the same valid rules and the same source, the source stands at
the same place whenever as many rounds have been dealt at both, whatever else was asked for. The
rounds dealt there as the first, as the second and so on have the same targets. If both were to
have as many large tiles they are the same round; and if one was to have more than the other, its
first tiles are the large tiles of the other, and its small tiles the first small ones. -/
theorem deals_follow_count {rules : Rules} {rng : Rng} {table : Table}
    (h : withRules rules rng = .ok table) (requests requests' : List Request) :
    ((table.deals requests).length = (table.deals requests').length →
      (table.after requests).rng = (table.after requests').rng) ∧
    ∀ (count large large' : Nat) (setup setup' : Setup),
      (table.deals requests)[count]? = some (large, setup) →
      (table.deals requests')[count]? = some (large', setup') →
      setup.target = setup'.target ∧
      (large = large' → setup = setup') ∧
      (large ≤ large' → setup.values.take large = setup'.values.take large ∧
        setup'.values.drop large' <+: setup.values.drop large) := by
  have hs := (Opened.withRules h).sound
  obtain ⟨hrng, hdeals⟩ := hs.deals_spec requests
  obtain ⟨hrng', hdeals'⟩ := hs.deals_spec requests'
  refine ⟨fun hlen => by rw [hrng, hrng', hlen], ?_⟩
  intro count large large' setup setup' hc hc'
  have hd := hdeals count large setup hc
  have hd' := hdeals' count large' setup' hc'
  obtain ⟨htarget, hvalues⟩ := Rules.deals_agree hs.valid hd hd'
  refine ⟨htarget, ?_, hvalues⟩
  rintro rfl
  exact Except.ok.inj (hd.symm.trans hd')

/-- A table asked for one large tile at once, and one asked for three after two refusals. -/
theorem deals_follow_count_refused :
    withRules .standard (.ofSeed 42) = .ok (standard 42) ∧ ∃ setup setup',
      (standard 42).deals [.start 1] = [(1, setup)] ∧
      (standard 42).deals [.appendOperator .add, .start 5, .start 3] = [(3, setup')] ∧
      ((standard 42).after [.start 1]).rng =
        ((standard 42).after [.appendOperator .add, .start 5, .start 3]).rng ∧
      setup.target = setup'.target ∧ setup.values.take 1 = setup'.values.take 1 ∧
      setup'.values.drop 3 <+: setup.values.drop 1 := by
  have hopened : withRules .standard (.ofSeed 42) = .ok (standard 42) := rfl
  have valid : (standard 42).rules.validate = .ok () := by decide
  obtain ⟨setup, hd⟩ := deals_start valid 1 (by decide) []
  obtain ⟨setup', hd'⟩ := deals_start valid 3 (by decide) []
  have hskip : (standard 42).deals [.appendOperator .add, .start 5, .start 3] =
      (standard 42).deals [.start 3] :=
    (deals_of_refused rfl _).trans (deals_of_refused rfl _)
  rw [deals_nil] at hd hd'
  obtain ⟨hrng, hdealt⟩ := deals_follow_count hopened [.start 1]
    [.appendOperator .add, .start 5, .start 3]
  rw [hskip, hd, hd'] at hrng hdealt
  obtain ⟨htarget, -, hvalues⟩ := hdealt 0 1 3 setup setup' rfl rfl
  obtain ⟨htake, hdrop⟩ := hvalues (by decide)
  exact ⟨hopened, setup, setup', hd, hskip.trans hd', hrng rfl, htarget, htake, hdrop⟩

end Table

end TargetTiles
