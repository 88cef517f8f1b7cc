import Mathlib.Algebra.Group.Nat.Defs
import TargetTiles.Rng.Basic

/-!
# Resuming a random source

A checkpoint holds the seed of a random source, its place in the stream and the number of its
branches. That is all there is to it, for the key of the stream is the one that the seed is
stretched to. Whatever has been drawn, shuffled and branched off before, and wherever in
the stream that has led to, the source made of the checkpoint goes on as the source itself does. So
a run may be saved and resumed between any two uses, and as often as one likes.
-/

namespace TargetTiles.Rng

/-! ## Uses of a source -/

/-- What a random source may be asked for. -/
inductive Use : Type 1
  | between (low high : Int64)
  | shuffle {α : Type} (items : List α)
  | fork

/-- What a use yields: a number or the refusal to draw one, the items in their new order, or the
branch taken. -/
inductive Yield : Type 1
  | number (drawn : Except RoundError Int64)
  | order {α : Type} (items : List α)
  | branch (rng : Rng)

/-- What a use yields, and the source after it. Where no number can be drawn nothing is read. -/
def serve (rng : Rng) : Use → Yield × Rng
  | .between low high =>
    match rng.between low high with
    | .ok (number, rng) => (.number (.ok number), rng)
    | .error error => (.number (.error error), rng)
  | .shuffle items =>
    let (items, rng) := rng.shuffle items
    (.order items, rng)
  | .fork =>
    let (branch, rng) := rng.fork
    (.branch branch, rng)

/-- What uses yield one after the other, and the source after the last of them. -/
def serveAll (rng : Rng) : List Use → List Yield × Rng
  | [] => ([], rng)
  | use :: uses =>
    let (first, rng) := rng.serve use
    let (later, rng) := rng.serveAll uses
    (first :: later, rng)

/-- The source that is resumed from a checkpoint of this one. -/
def resumed (rng : Rng) : Rng := ofCheckpoint rng.checkpoint

/-- What a run in several parts yields, if the source is saved after each part and the next part is
served by the source resumed. -/
def serveParts (rng : Rng) : List (List Use) → List Yield × Rng
  | [] => ([], rng)
  | part :: parts =>
    let (first, rng) := rng.serveAll part
    let (later, rng) := rng.resumed.serveParts parts
    (first ++ later, rng)

theorem serveAll_append (rng : Rng) (front back : List Use) :
    rng.serveAll (front ++ back) =
      ((rng.serveAll front).1 ++ ((rng.serveAll front).2.serveAll back).1,
        ((rng.serveAll front).2.serveAll back).2) := by
  induction front generalizing rng with
  | nil => rfl
  | cons use front ih => simp only [List.cons_append, serveAll, ih]

/-! ## Checkpoints -/

theorem resumed_eq (rng : Rng) : rng.resumed = rng := by
  obtain ⟨seed, key, position, forks, rfl⟩ := rng
  simp only [resumed, checkpoint, ofCheckpoint, BitVec.ofNat_toNat, BitVec.setWidth_eq]

theorem checkpoint_ofCheckpoint (saved : Checkpoint) :
    (ofCheckpoint saved).checkpoint = { saved with position := saved.position % 2 ^ 68 } := by
  simp only [checkpoint, ofCheckpoint, BitVec.toNat_ofNat]

example : (ofCheckpoint ⟨5, 2 ^ 68 + 3, 1⟩).checkpoint = ⟨5, 3, 1⟩ := by decide

/-- Parts between which the source is saved and resumed yield what the whole yields. -/
theorem serveParts_eq (rng : Rng) (parts : List (List Use)) :
    rng.serveParts parts = rng.serveAll parts.flatten := by
  induction parts generalizing rng with
  | nil => rfl
  | cons part parts ih =>
    simp only [serveParts, List.flatten_cons, serveAll_append, resumed_eq, ih]

/-- Saving a source and resuming it goes unnoticed. After any uses, the source resumed yields the
same numbers, the same orders and the same branches as the source itself, and it comes to the same
checkpoint; and a run that is interrupted any number of times yields what it yields at one go. The
source made of a checkpoint has that checkpoint again, but that a place past the end of the stream
is counted on from its beginning; resuming it once more changes nothing. -/
theorem resuming_unnoticed :
    (∀ (rng : Rng) (before after : List Use),
      let paused := (rng.serveAll before).2
      (paused.resumed.serveAll after).1 = (paused.serveAll after).1 ∧
        (paused.resumed.serveAll after).2.checkpoint = (paused.serveAll after).2.checkpoint) ∧
    (∀ (rng : Rng) (parts : List (List Use)),
      rng.serveParts parts = rng.serveAll parts.flatten) ∧
    (∀ saved : Checkpoint,
      (ofCheckpoint saved).checkpoint = { saved with position := saved.position % 2 ^ 68 } ∧
        (ofCheckpoint saved).resumed = ofCheckpoint saved) := by
  refine ⟨fun rng before after => ?_, serveParts_eq, fun saved => ?_⟩
  · intro paused
    rw [resumed_eq]
    exact ⟨rfl, rfl⟩
  · exact ⟨checkpoint_ofCheckpoint saved, resumed_eq _⟩

end TargetTiles.Rng
