import TargetTiles.Proofs.Histories

/-!
# Taking back undoes entering

Entering a token and taking back the last one undo each other. One way round this needs nothing
but that the value shown is the value of the tokens: without the last token they have the value
they had before it. The other way round the token has to be accepted a second time, which it is
because its tile was dealt and stood only once among the tokens.
-/

namespace TargetTiles

/-! ## One token -/

namespace Play

variable {rules : Rules} {play shorter : Play} {token : Token}

theorem pop?_push (h : play.value = (Evaluation.ofTokens play.check play.tokens).value)
    (token : Token) : (play.push token).pop? = some (token, play) := by
  have hback : (play.push token).withTokens play.tokens = play := withTokens_self h
  simp only [pop?, push, withTokens_tokens, List.getLast?_concat, List.dropLast_concat,
    Option.map_some]
  rw [← push, hback]

theorem push_of_pop? (h : play.value = (Evaluation.ofTokens play.check play.tokens).value)
    (hp : play.pop? = some (token, shorter)) : shorter.push token = play := by
  obtain ⟨htokens, hshorter⟩ := pop?_eq_some hp
  have hback : play.withTokens (shorter.tokens ++ [token]) = play := by
    rw [← htokens, withTokens_self h]
  rw [hshorter]
  exact hback

/-- The token taken back from a sound round may be entered again. -/
theorem Sound.permit_of_pop? (h : play.Sound rules) (hp : play.pop? = some (token, shorter)) :
    shorter.permit token = .ok () := by
  obtain ⟨htokens, hshorter⟩ := pop?_eq_some hp
  cases token with
  | operator op => rfl
  | tile tile =>
    rw [permit_tile_eq_ok_iff]
    constructor
    · rw [hshorter]
      exact h.dealt tile (by simp [htokens])
    · -- the slot stands once among the tokens, and that is at their end
      have honce := h.once
      rw [← push_of_pop? h.value_eq hp, used_push] at honce
      intro hused
      exact (List.nodup_append.mp honce).2.2 _ hused _ (by simp [Token.tileId?]) rfl

end Play

namespace Table

variable {table : Table} {play : Play} {request : Request} {token : Token} {grant : Grant}

theorem removeLast_of_pushed (hr : table.round = .playing play)
    (hv : play.value = (Evaluation.ofTokens play.check play.tokens).value) (token : Token) :
    let pushed := { table with round := .playing (play.push token) }
    pushed.removeLast.result = .ok (some token) ∧ pushed.removeLast.next = table := by
  simp only [removeLast, Play.pop?_push hv, ← hr, and_self]

theorem append_of_popped (hr : table.round = .playing play) (h : play.Sound table.rules)
    {shorter : Play} (hp : play.pop? = some (token, shorter)) :
    let popped := { table with round := .playing shorter }
    (popped.append token).result = .ok play.value ∧ (popped.append token).next = table := by
  intro popped
  have hround : popped.round = .playing shorter := rfl
  obtain ⟨hresult, hnext⟩ := append_of_permit hround (h.permit_of_pop? hp)
  rw [Play.push_of_pop? h.value_eq hp] at hresult hnext
  exact ⟨hresult, by rw [hnext, ← hr]⟩

theorem removeLast_eq_some (h : table.removeLast.result = .ok (some token)) :
    ∃ play shorter, table.round = .playing play ∧ play.pop? = some (token, shorter) ∧
      table.removeLast.next = { table with round := .playing shorter } := by
  obtain ⟨play, hr⟩ := Round.phase_eq_playing_iff.mp (removeLast_granted_iff.mp ⟨_, h⟩)
  cases hp : play.pop? with
  | none =>
    simp only [removeLast, hr, hp] at h
    cases h
  | some popped =>
    obtain ⟨last, shorter⟩ := popped
    simp only [removeLast, hr, hp] at h ⊢
    cases h
    exact ⟨play, shorter, rfl, hp, rfl⟩

/-! ## Several tokens -/

/-- The tables that requests lead through, this one being the first. -/
def course (table : Table) : List Request → List Table
  | [] => [table]
  | request :: requests => table :: (table.answer request).next.course requests

theorem course_concat (table : Table) (requests : List Request) (request : Request) :
    table.course (requests ++ [request]) =
      table.course requests ++ [((table.after requests).answer request).next] := by
  induction requests generalizing table with
  | nil => rfl
  | cons first requests ih => simp only [List.cons_append, course, ih, after, List.foldl_cons]

/-- A request that was granted a token has put it last. -/
theorem answer_of_token (h : table.Sound) (hr : table.round = .playing play)
    (ht : request.token? play.setup = some token)
    (hg : (table.answer request).result = .ok grant) :
    (table.answer request).next = { table with round := .playing (play.push token) } := by
  rcases answer_cases h.valid request with ⟨error, he⟩ | ⟨given, -, hgrants⟩
  · rw [he] at hg
    cases hg
  · generalize (table.answer request).next = next at hgrants
    cases hgrants with
    | append hr' ht' _ =>
      obtain rfl := Round.playing.inj (hr.symm.trans hr')
      obtain rfl := Option.some.inj (ht.symm.trans ht')
      rfl
    | start | startWith | removeLast | removeNone | commit | reset => cases ht

/-- A granted request that enters a token is undone by taking one back. -/
theorem removeLast_undoes (h : table.Sound) (hr : table.round = .playing play)
    (ht : request.token? play.setup = some token)
    (hg : (table.answer request).result = .ok grant) :
    let next := (table.answer request).next
    next.round = .playing (play.push token) ∧
      (next.answer .removeLast).result = .ok (.token (some token)) ∧
      (next.answer .removeLast).next = table := by
  obtain ⟨hresult, hback⟩ := removeLast_of_pushed hr (h.playing play hr).value_eq token
  rw [answer_of_token h hr ht hg]
  exact ⟨rfl, answer_removeLast hresult, hback⟩

/-- Several requests that enter tokens are undone by as many that take one back. -/
theorem take_back_all (h : table.Sound) (hr : table.round = .playing play)
    {requests : List Request} {tokens : List Token}
    (ht : requests.map (·.token? play.setup) = tokens.map some)
    (hg : ∀ exchange ∈ table.history requests, ∃ grant, exchange.result = .ok grant) :
    let back := List.replicate requests.length Request.removeLast
    (table.after requests).history back =
        tokens.reverse.map (fun token => ⟨.removeLast, .ok (.token (some token))⟩) ∧
      (table.after requests).course back = (table.course requests).reverse ∧
      (table.after requests).after back = table := by
  induction requests generalizing table play tokens with
  | nil =>
    obtain rfl := List.map_eq_nil_iff.mp ht.symm
    exact ⟨rfl, rfl, rfl⟩
  | cons request requests ih =>
    obtain ⟨token, tokens, rfl⟩ : ∃ token rest, tokens = token :: rest := by
      cases tokens with
      | nil => cases ht
      | cons token tokens => exact ⟨_, _, rfl⟩
    obtain ⟨htoken, htokens⟩ := List.cons.inj ht
    obtain ⟨⟨grant, hgrant⟩, hgrants⟩ := List.forall_mem_cons.mp hg
    obtain ⟨hround, htook, hleft⟩ := removeLast_undoes h hr htoken hgrant
    obtain ⟨hhistory, hcourse, hafter⟩ := ih (h.answered request).1 hround htokens hgrants
    have hcons : table.after (request :: requests) =
        (table.answer request).next.after requests := rfl
    -- the request entered first is undone last
    simp only [List.length_cons, List.replicate_succ', hcons]
    rw [history_concat, course_concat, after_concat, hhistory, hcourse, hafter, htook, hleft]
    simp only [course, List.reverse_cons, List.map_append, List.map_cons, List.map_nil, and_self]

/-- Entering a token and taking back the last one undo each other. A token that was accepted is
taken back and leaves the table as it was; a run of them comes back in reverse, through the tables
and so through the values that it led through; and a token that was taken back is accepted again,
with the value that stood before. -/
theorem taking_back_inverts {table : Table} {play : Play} (h : table.Reachable)
    (hr : table.round = .playing play) :
    (∀ token value, (table.append token).result = .ok value →
      (table.append token).next.removeLast.result = .ok (some token) ∧
      (table.append token).next.removeLast.next = table) ∧
    (∀ (requests : List Request) (tokens : List Token),
      requests.map (·.token? play.setup) = tokens.map some →
      (∀ exchange ∈ table.history requests, ∃ grant, exchange.result = .ok grant) →
      let back := List.replicate requests.length Request.removeLast
      (table.after requests).history back =
          tokens.reverse.map (fun token => ⟨.removeLast, .ok (.token (some token))⟩) ∧
        (table.after requests).course back = (table.course requests).reverse) ∧
    (∀ token, table.removeLast.result = .ok (some token) →
      (table.removeLast.next.append token).result = .ok table.value ∧
      (table.removeLast.next.append token).next = table) := by
  have hplay := h.sound.playing play hr
  refine ⟨fun token value hv => ?_, fun requests tokens ht hg => ?_, fun token ht => ?_⟩
  · obtain ⟨other, ho, hadmits⟩ := append_granted_iff.mp ⟨value, hv⟩
    obtain rfl := Round.playing.inj (hr.symm.trans ho)
    rw [(append_of_permit hr (Play.permit_eq_ok_iff.mpr hadmits)).2]
    exact removeLast_of_pushed hr hplay.value_eq token
  · obtain ⟨hhistory, hcourse, -⟩ := take_back_all h.sound hr ht hg
    exact ⟨hhistory, hcourse⟩
  · obtain ⟨other, shorter, ho, hp, hnext⟩ := removeLast_eq_some ht
    obtain rfl := Round.playing.inj (hr.symm.trans ho)
    have hvalue : table.value = play.value := by rw [value, hr]; rfl
    rw [hnext, hvalue]
    exact append_of_popped hr hplay hp

/-- With one of two tiles of value 6 entered, the other one, a division and an operator that is
skipped are entered and taken back; then the first tile is taken back and entered again. -/
theorem taking_back_inverts_skipped :
    ∃ table play requests tokens, table = (standard 42).after
        [.startWith ⟨300, Setup.inSlots [50, 6, 6, 2, 9, 1], Setup.inSlots_placed (by decide)⟩,
          .appendTile ⟨1⟩] ∧
      table.Reachable ∧ table.round = .playing play ∧ table.value = some 6.0 ∧
      requests = [.appendTile ⟨2⟩, .appendOperator .divide, .append (.operator .add)] ∧
      tokens = [.tile ⟨⟨2⟩, 6⟩, .operator .divide, .operator .add] ∧
      (table.after requests).value = some 1.0 ∧
      ((table.append (.tile ⟨⟨2⟩, 6⟩)).next.removeLast.result = .ok (some (.tile ⟨⟨2⟩, 6⟩)) ∧
        (table.append (.tile ⟨⟨2⟩, 6⟩)).next.removeLast.next = table) ∧
      ((table.after requests).history [.removeLast, .removeLast, .removeLast] =
          tokens.reverse.map (fun token => ⟨.removeLast, .ok (.token (some token))⟩) ∧
        (table.after requests).course [.removeLast, .removeLast, .removeLast] =
          (table.course requests).reverse) ∧
      (table.removeLast.next.append (.tile ⟨⟨1⟩, 6⟩)).result = .ok table.value ∧
      (table.removeLast.next.append (.tile ⟨⟨1⟩, 6⟩)).next = table := by
  have h : Reachable ((standard 42).after
      [.startWith ⟨300, Setup.inSlots [50, 6, 6, 2, 9, 1], Setup.inSlots_placed (by decide)⟩,
        .appendTile ⟨1⟩]) := ⟨_, _, .standard 42, rfl⟩
  obtain ⟨hback, hrun, hagain⟩ := taking_back_inverts h rfl
  refine ⟨_, _, _, _, rfl, h, rfl, by decide +kernel, rfl, rfl, by decide +kernel,
    hback _ _ rfl, hrun _ _ rfl ?_, hagain _ rfl⟩
  exact List.forall_mem_cons.mpr ⟨⟨_, rfl⟩, List.forall_mem_cons.mpr ⟨⟨_, rfl⟩,
    List.forall_mem_cons.mpr ⟨⟨_, rfl⟩, List.forall_mem_nil _⟩⟩⟩

end Table

end TargetTiles
