import Mathlib.Data.List.Induction
import Mathlib.Data.List.Nodup
import TargetTiles.Proofs.Drawing
import TargetTiles.Proofs.Resuming

/-!
# Branches of a random source

Taking branches and reading words do not disturb each other. What is drawn comes from the stream of
the seed, and no branch moves the place in it. A branch comes from the seed and the number of
branches taken, and no draw touches either. The seeds of neighbouring branches are a stride apart;
the stride has an inverse among the words of 64 bits, so as long as the branches can be counted no
two of them have the same seed, and none has the seed that they were taken from.
-/

namespace TargetTiles.Rng

/-! ## The seeds of branches -/

/-- The seed of the branch that is counted as this one. -/
def branchSeed (seed count : UInt64) : UInt64 := seed + count * stride

theorem stride_mul_inverse : stride * 0xF1DE83E19937733D = 1 := by decide

theorem branchSeed_inj {seed count count' : UInt64} :
    branchSeed seed count = branchSeed seed count' ↔ count = count' := by
  refine ⟨fun h => ?_, fun h => by rw [h]⟩
  have hsteps : count * stride = count' * stride := (UInt64.add_right_inj seed).mp h
  calc count
      = count * stride * 0xF1DE83E19937733D := by
        rw [UInt64.mul_assoc, stride_mul_inverse, UInt64.mul_one]
    _ = count' * stride * 0xF1DE83E19937733D := by rw [hsteps]
    _ = count' := by rw [UInt64.mul_assoc, stride_mul_inverse, UInt64.mul_one]

@[simp] theorem branchSeed_zero (seed : UInt64) : branchSeed seed 0 = seed := by
  rw [branchSeed, UInt64.zero_mul, UInt64.add_zero]

theorem branchSeed_branchSeed (seed count count' : UInt64) :
    branchSeed (branchSeed seed count) count' = branchSeed seed (count + count') := by
  simp only [branchSeed, UInt64.add_mul, UInt64.add_assoc]

theorem ofNat_eq_ofNat_iff {a b : Nat} :
    UInt64.ofNat a = UInt64.ofNat b ↔ a % 2 ^ 64 = b % 2 ^ 64 := by
  rw [UInt64.ofNat_eq_iff_mod_eq_toNat, UInt64.toNat_ofNat']

/-- Counting on comes round behind the greatest count. -/
theorem count_eq_ofNat_iff {forks : UInt64} {n m : Nat} :
    forks + .ofNat n = .ofNat m ↔ (forks.toNat + n) % 2 ^ 64 = m % 2 ^ 64 := by
  rw [← ofNat_eq_ofNat_iff, UInt64.ofNat_add, UInt64.ofNat_toNat]

/-! ## What comes from the stream alone -/

/-- The same place in the same stream, with another number of branches counted. -/
def withForks (rng : Rng) (forks : UInt64) : Rng := { rng with forks }

/-- What is read of a source in this way is the same whatever branches have been counted, and
reading it changes neither their count nor the seed. -/
structure Streams {α : Type*} (read : Rng → α × Rng) : Prop where
  seed_eq : ∀ rng, (read rng).2.seed = rng.seed
  recount : ∀ (rng : Rng) (forks : UInt64),
    read (rng.withForks forks) = ((read rng).1, (read rng).2.withForks forks)

namespace Streams

variable {α β : Type*} {read : Rng → α × Rng} {next : α → Rng → β × Rng}

theorem forks_eq (h : Streams read) (rng : Rng) : (read rng).2.forks = rng.forks :=
  congrArg (·.2.forks) (h.recount rng rng.forks)

theorem pure (a : α) : Streams fun rng => (a, rng) := ⟨fun _ => rfl, fun _ _ => rfl⟩

theorem bind (h : Streams read) (hn : ∀ a, Streams (next a)) :
    Streams fun rng => next (read rng).1 (read rng).2 where
  seed_eq rng := ((hn _).seed_eq _).trans (h.seed_eq rng)
  recount rng forks := by rw [h.recount, (hn _).recount]

theorem map (h : Streams read) (f : α → β) :
    Streams fun rng => (f (read rng).1, (read rng).2) :=
  h.bind fun a => .pure (f a)

theorem word32 : Streams Rng.word32 := ⟨fun _ => rfl, fun _ _ => rfl⟩

theorem word64 : Streams Rng.word64 :=
  word32.bind fun low => word32.map fun high => high <<< 32 + low

theorem firstFair {next : Rng → Nat × Rng} (h : Streams next) (bits range tries : Nat) :
    Streams (Rng.firstFair next bits range tries) := by
  induction tries with
  | zero => exact .pure 0
  | succ tries ih =>
    have hstep (rng : Rng) : Rng.firstFair next bits range (tries + 1) rng =
        (Fair.choose? bits range (next rng).1).elim
          (Rng.firstFair next bits range tries (next rng).2) (·, (next rng).2) := by
      rw [Rng.firstFair]
      cases next rng with
      | mk word rest => cases hc : Fair.choose? bits range word <;> simp only [hc, Option.elim]
    have hnext (word : Nat) : Streams fun rng =>
        (Fair.choose? bits range word).elim (Rng.firstFair next bits range tries rng) (·, rng) := by
      cases Fair.choose? bits range word with
      | some choice => exact .pure choice
      | none => exact ih
    have hdraws := h.bind hnext
    simpa only [← hstep] using hdraws

theorem index (range : Nat) : Streams (Rng.index · range) := by
  simp only [Rng.index]
  exact word32.firstFair 32 range _

theorem swaps (last : Nat) : Streams (Rng.swaps · last) := by
  induction last with
  | zero => exact .pure []
  | succ last ih =>
    have hdraws := (index (last + 2)).bind fun partner => ih.map (partner :: ·)
    simpa only [swaps_succ] using hdraws

theorem shuffle {γ : Type} (items : List γ) : Streams (Rng.shuffle · items) :=
  (swaps (items.length - 1)).map fun partners =>
    (permute (items.length - 1) partners items.toArray).toList

end Streams

/-! ## Draws and branches -/

/-- Whether a use takes a branch. The other uses draw from the stream. -/
def Use.isFork : Use → Bool
  | .fork => true
  | _ => false

/-- The branch that is yielded, if it is one. -/
def Yield.branch? : Yield → Option Rng
  | .branch rng => some rng
  | _ => none

/-- What is drawn among all that is yielded. -/
def drawn (yields : List Yield) : List Yield := yields.filter (·.branch?.isNone)

/-- The branches among all that is yielded. -/
def branches (yields : List Yield) : List Rng := yields.filterMap Yield.branch?

variable {use : Use} {uses : List Use}

theorem Use.eq_fork (h : use.isFork = true) : use = .fork := by
  cases use with
  | fork => rfl
  | between | shuffle => cases h

theorem Streams.serve_between (low high : Int64) : Streams (serve · (.between low high)) := by
  by_cases hle : low ≤ high
  · by_cases hfull : span low high = 2 ^ 64
    · simp only [serve, between_of_le hle, if_pos hfull]
      exact word64.map fun word => Yield.number (.ok (.ofNat word))
    · have hdraws := (word64.firstFair 64 (span low high) (1 <<< 67)).map fun offset =>
        Yield.number (.ok (.ofInt (low.toInt + offset)))
      simpa only [serve, between_of_le hle, if_neg hfull] using hdraws
  · simp only [serve, between, if_pos (Int64.not_le.mp hle)]
    exact .pure _

/-- A draw comes from the stream alone. -/
theorem Streams.serve (h : use.isFork = false) : Streams (serve · use) := by
  cases use with
  | between low high => exact .serve_between low high
  | shuffle items => exact (Streams.shuffle items).map Yield.order
  | fork => cases h

theorem branch?_serve (h : use.isFork = false) (rng : Rng) : (rng.serve use).1.branch? = none := by
  cases use with
  | between low high =>
    rw [Rng.serve]
    cases rng.between low high <;> rfl
  | shuffle items => rfl
  | fork => cases h

theorem serve_fork (rng : Rng) : rng.serve .fork =
    (.branch (ofSeed (branchSeed rng.seed (rng.forks + 1))), rng.withForks (rng.forks + 1)) := rfl

/-! ## Runs -/

theorem serveAll_concat (rng : Rng) (uses : List Use) (use : Use) :
    rng.serveAll (uses ++ [use]) =
      ((rng.serveAll uses).1 ++ [((rng.serveAll uses).2.serve use).1],
        ((rng.serveAll uses).2.serve use).2) :=
  serveAll_append rng uses [use]

/-- Of the source itself a run changes the place in the stream, and counts the branches. -/
theorem serveAll_counts (rng : Rng) (uses : List Use) :
    (rng.serveAll uses).2.seed = rng.seed ∧
      (rng.serveAll uses).2.forks = rng.forks + .ofNat (uses.countP (·.isFork)) := by
  induction uses using List.reverseRecOn with
  | nil => simp [serveAll]
  | append_singleton uses use ih =>
    obtain ⟨hseed, hforks⟩ := ih
    rw [serveAll_concat, List.countP_append, List.countP_singleton]
    cases hf : use.isFork with
    | true =>
      obtain rfl := Use.eq_fork hf
      simp [serve_fork, withForks, hseed, hforks, UInt64.add_assoc]
    | false =>
      have hdraw := Streams.serve hf
      simp [hdraw.seed_eq, hdraw.forks_eq, hseed, hforks]

/-- The stream that is read stays that of the seed which the source was made with. -/
theorem key_serveAll (rng : Rng) (uses : List Use) :
    (rng.serveAll uses).2.key = Stream.key rng.seed := by
  rw [(rng.serveAll uses).2.keyed, (rng.serveAll_counts uses).1]

/-- A run draws what it draws without its branches, and goes as far in the stream. -/
theorem drawn_serveAll (rng : Rng) (uses : List Use) :
    let draws := rng.serveAll (uses.filter (!·.isFork))
    drawn (rng.serveAll uses).1 = draws.1 ∧
      ∃ forks, (rng.serveAll uses).2 = draws.2.withForks forks := by
  induction uses using List.reverseRecOn with
  | nil => exact ⟨rfl, rng.forks, rfl⟩
  | append_singleton uses use ih =>
    -- before the last use the two sources differ in what they have counted, and no draw reads that
    obtain ⟨hdrawn, forks, hsource⟩ := ih
    rw [serveAll_concat, hsource, List.filter_append, drawn, List.filter_append, ← drawn, hdrawn]
    cases hf : use.isFork with
    | true =>
      obtain rfl := Use.eq_fork hf
      refine ⟨?_, forks + 1, ?_⟩
      · simp [serve_fork, Yield.branch?, hf]
      · simp [serve_fork, withForks, hf]
    | false =>
      have hdraw := Streams.serve hf
      have hkept : [use].filter (!·.isFork) = [use] := by simp [hf]
      rw [hkept, serveAll_concat, hdraw.recount]
      exact ⟨by simp [branch?_serve hf], forks, rfl⟩

theorem branches_serveAll (rng : Rng) (uses : List Use) :
    branches (rng.serveAll uses).1 = (List.range' 1 (uses.countP (·.isFork))).map fun n =>
      ofSeed (branchSeed rng.seed (rng.forks + .ofNat n)) := by
  induction uses using List.reverseRecOn with
  | nil => rfl
  | append_singleton uses use ih =>
    obtain ⟨hseed, hforks⟩ := rng.serveAll_counts uses
    rw [serveAll_concat, List.countP_append, List.countP_singleton, branches,
      List.filterMap_append, ← branches, ih]
    cases hf : use.isFork with
    | true =>
      obtain rfl := Use.eq_fork hf
      have hnext (count : Nat) : rng.forks + .ofNat count + 1 = rng.forks + .ofNat (1 + count) := by
        rw [UInt64.add_assoc, Nat.add_comm, UInt64.ofNat_add]
        rfl
      simp [serve_fork, Yield.branch?, List.range'_1_concat, hseed, hforks, hnext]
    | false => simp [branch?_serve hf]

/-! ## As long as branches can be counted -/

/-- Whenever a branch is taken, the number of branches is not yet the greatest one. -/
def Counts (rng : Rng) (uses : List Use) : Prop :=
  ∀ before after, uses = before ++ .fork :: after →
    (rng.serveAll before).2.forks ≠ .ofNat (2 ^ 64 - 1)

theorem counts_iff (rng : Rng) (uses : List Use) :
    rng.Counts uses ↔ rng.forks.toNat + uses.countP (·.isFork) < 2 ^ 64 := by
  constructor
  · intro h
    induction uses using List.reverseRecOn with
    | nil => exact rng.forks.toNat_lt
    | append_singleton uses use ih =>
      have hlt := ih fun before after hsplit =>
        h before (after ++ [use]) (by rw [hsplit, List.append_assoc, List.cons_append])
      rw [List.countP_append, List.countP_singleton]
      cases hf : use.isFork with
      | true =>
        have hfull := h uses [] (by rw [Use.eq_fork hf])
        rw [(rng.serveAll_counts uses).2, Ne, count_eq_ofNat_iff] at hfull
        rw [if_pos rfl]
        omega
      | false => exact hlt
  · rintro hlt before after rfl
    rw [List.countP_append, List.countP_cons] at hlt
    rw [(rng.serveAll_counts before).2, Ne, count_eq_ofNat_iff]
    simp only [Use.isFork, if_true] at hlt ⊢
    omega

/-- Drawing and branching do not disturb each other. Where uses of a source are served that take no
more branches than can be counted, the draws yield what they yield without the branches, and the
source stands where it stands without them; the branches are those taken without the draws. The
`n`-th of them is the source of a seed that depends on nothing but the seed and the count of the
source it was taken of. No two branches have the same seed, and none has the seed of that source.
The stream that is read stays that of the seed. -/
theorem draws_and_branches_apart (rng : Rng) (uses : List Use) (h : rng.Counts uses) :
    let served := rng.serveAll uses
    let draws := rng.serveAll (uses.filter (!·.isFork))
    let forks := rng.serveAll (uses.filter (·.isFork))
    drawn served.1 = draws.1 ∧
    branches served.1 = branches forks.1 ∧
    served.2 = draws.2.withForks forks.2.forks ∧
    branches served.1 = (List.range' 1 (uses.countP (·.isFork))).map (fun n =>
      ofSeed (branchSeed rng.seed (rng.forks + .ofNat n))) ∧
    ((branches served.1).map (·.seed)).Nodup ∧
    rng.seed ∉ (branches served.1).map (·.seed) ∧
    served.2.key = Stream.key rng.seed := by
  intro served draws forks
  have hcount : (uses.filter (·.isFork)).countP (·.isFork) = uses.countP (·.isFork) := by
    simp [List.countP_filter]
  have hlt := (rng.counts_iff uses).mp h
  obtain ⟨hdrawn, count, hsource⟩ := rng.drawn_serveAll uses
  have hbranches := rng.branches_serveAll uses
  have hseeds : (branches served.1).map (·.seed) = (List.range' 1 (uses.countP (·.isFork))).map
      fun n => branchSeed rng.seed (rng.forks + .ofNat n) := by
    rw [hbranches, List.map_map]
    rfl
  refine ⟨hdrawn, ?_, ?_, hbranches, ?_, ?_, rng.key_serveAll uses⟩
  · rw [hbranches, branches_serveAll, hcount]
  · have hforks : count = forks.2.forks := by
      rw [(rng.serveAll_counts _).2, hcount, ← (rng.serveAll_counts uses).2, hsource]
      rfl
    rw [← hforks]
    exact hsource
  · rw [hseeds]
    refine List.Nodup.map_on (fun n hn m hm heq => ?_) List.nodup_range'
    rw [List.mem_range'_1] at hn hm
    have hsame := ofNat_eq_ofNat_iff.mp ((UInt64.add_right_inj _).mp (branchSeed_inj.mp heq))
    omega
  · rw [hseeds, List.mem_map]
    -- the seed itself is that of the branch counted as 0, and the count does not come round to 0
    rintro ⟨n, hn, heq⟩
    rw [List.mem_range'_1] at hn
    have hzero : rng.forks + .ofNat n = 0 := branchSeed_inj.mp (heq.trans (branchSeed_zero _).symm)
    have hround := (count_eq_ofNat_iff (m := 0)).mp hzero
    omega

/-- The source has been branched so often that only two branches more can be counted. -/
theorem draws_and_branches_apart_last_two :
    let rng := ofCheckpoint ⟨42, 7, .ofNat (2 ^ 64 - 3)⟩
    let uses : List Use := [.fork, .between 100 999, .fork, .shuffle [25, 50, 75, 100]]
    rng.Counts uses ∧
    drawn (rng.serveAll uses).1 =
      (rng.serveAll [.between 100 999, .shuffle [25, 50, 75, 100]]).1 ∧
    branches (rng.serveAll uses).1 = branches (rng.serveAll [.fork, .fork]).1 ∧
    (branches (rng.serveAll uses).1).map (·.seed) = [14092058508772706304, 7046029254386353173] ∧
    ((branches (rng.serveAll uses).1).map (·.seed)).Nodup := by
  intro rng uses
  have hcounts : rng.Counts uses := (rng.counts_iff uses).mpr (by decide)
  obtain ⟨hdrawn, hbranches, -, hseeds, hnodup, -⟩ := draws_and_branches_apart rng uses hcounts
  refine ⟨hcounts, hdrawn, hbranches, ?_, hnodup⟩
  rw [hseeds]
  decide

/-! ## Branches of branches -/

/-- The source after so many branches have been taken of it. -/
def forked (rng : Rng) : Nat → Rng
  | 0 => rng
  | count + 1 => (rng.forked count).fork.2

/-- The `n`-th branch taken of a source, the next one being the first. -/
def branch (rng : Rng) (n : Nat) : Rng := (rng.forked (n - 1)).fork.1

theorem forked_eq (rng : Rng) (count : Nat) :
    rng.forked count = rng.withForks (rng.forks + .ofNat count) := by
  induction count with
  | zero => simp [forked, withForks]
  | succ count ih => simp [forked, ih, fork, withForks, UInt64.add_assoc]

theorem branch_eq (rng : Rng) {n : Nat} (hn : 0 < n) :
    rng.branch n = ofSeed (branchSeed rng.seed (rng.forks + .ofNat n)) := by
  obtain ⟨before, rfl⟩ := Nat.exists_eq_succ_of_ne_zero (Nat.ne_of_gt hn)
  simp [branch, forked_eq, withForks, fork, branchSeed, UInt64.add_assoc]

theorem branch_branch_eq (rng : Rng) {n m : Nat} (hn : 0 < n) (hm : 0 < m) :
    (rng.branch n).branch m = ofSeed (branchSeed rng.seed (rng.forks + .ofNat (n + m))) := by
  have hseed : branchSeed (branchSeed rng.seed (rng.forks + .ofNat n)) (0 + .ofNat m) =
      branchSeed rng.seed (rng.forks + .ofNat (n + m)) := by
    simp [branchSeed_branchSeed, UInt64.add_assoc]
  rw [branch_eq _ hm, branch_eq rng hn, ← hseed]
  rfl

/-- A branch of a branch lies as many strides from the root as both counts make together, and the
branch of the root that lies as far is the same source. So as long as all branches can be counted,
the `m`-th branch of the `n`-th branch has the seed of the `k`-th branch exactly if `n + m` is `k`,
or exceeds `k` by all the seeds that there are; and then it goes on as that branch does. -/
theorem branch_of_branch_eq_iff (rng : Rng) {n m k : Nat} (hn : 0 < n) (hm : 0 < m) (hk : 0 < k)
    (hn' : rng.forks.toNat + n < 2 ^ 64) (hm' : m < 2 ^ 64) (hk' : rng.forks.toNat + k < 2 ^ 64) :
    (((rng.branch n).branch m).seed = (rng.branch k).seed ↔ n + m = k ∨ n + m = k + 2 ^ 64) ∧
    (n + m = k ∨ n + m = k + 2 ^ 64 → (rng.branch n).branch m = rng.branch k) := by
  rw [branch_branch_eq rng hn hm, branch_eq rng hk]
  have hmeet : branchSeed rng.seed (rng.forks + .ofNat (n + m)) =
      branchSeed rng.seed (rng.forks + .ofNat k) ↔ n + m = k ∨ n + m = k + 2 ^ 64 := by
    rw [branchSeed_inj, UInt64.add_right_inj, ofNat_eq_ofNat_iff]
    omega
  exact ⟨hmeet, fun h => congrArg ofSeed (hmeet.mpr h)⟩

/-- The first branch of the first branch is the second branch, and not the third. -/
theorem branch_of_branch_eq_iff_first :
    (((ofSeed 42).branch 1).branch 1).seed = ((ofSeed 42).branch 2).seed ∧
    (((ofSeed 42).branch 1).branch 1).seed ≠ ((ofSeed 42).branch 3).seed ∧
    ((ofSeed 42).branch 1).branch 1 = (ofSeed 42).branch 2 := by
  have hfirst (k : Nat) (hk : 0 < k) (hk' : (ofSeed 42).forks.toNat + k < 2 ^ 64) :=
    branch_of_branch_eq_iff (ofSeed 42) (by decide : 0 < 1) (by decide : 0 < 1) hk (by decide)
      (by decide) hk'
  obtain ⟨hsecond, hsame⟩ := hfirst 2 (by decide) (by decide)
  obtain ⟨hthird, -⟩ := hfirst 3 (by decide) (by decide)
  exact ⟨hsecond.mpr (by decide), fun h => absurd (hthird.mp h) (by decide), hsame (by decide)⟩

/-- So branches of branches are not apart from the other branches of the root. -/
theorem branches_of_branches_not_apart :
    ¬ ∀ (rng : Rng) (n m k : Nat), 0 < n → 0 < m → 0 < k →
      rng.forks.toNat + n < 2 ^ 64 → m < 2 ^ 64 → rng.forks.toNat + k < 2 ^ 64 →
      ((rng.branch n).branch m).seed ≠ (rng.branch k).seed := by
  intro h
  have hapart := h (ofSeed 42) 1 1 2 (by decide) (by decide) (by decide) (by decide) (by decide)
    (by decide)
  exact hapart (by decide)

end TargetTiles.Rng
