import Mathlib.Data.List.Rotate

/-! # Moving a run forward by swaps

A run of elements is moved in front of what precedes it by exchanging its elements one by one with
those at the target. What it passes is not shifted but rotated by the length of the run. Blocks of
one length stay whole under a rotation by a multiple of that length.
-/
namespace Redic.SwapForward

variable {α β : Type}

/-- The elements at the two places change places. -/
def swapAt (list : List α) (i j : ℕ) : List α :=
  match list[i]?, list[j]? with
  | some a, some b => (list.set i b).set j a
  | _, _ => list

/-- As many swaps as the run is long, each one place further. -/
def moveForward (list : List α) (source target : ℕ) : ℕ → List α
  | 0 => list
  | count + 1 => moveForward (swapAt list source target) (source + 1) (target + 1) count

theorem swapAt_self (list : List α) (i : ℕ) : swapAt list i i = list := by
  unfold swapAt
  cases h : list[i]? with
  | none => rfl
  | some a =>
    obtain ⟨hi, rfl⟩ := List.getElem?_eq_some_iff.mp h
    simp

theorem swapAt_split (done front rest : List α) (a b : α) :
    swapAt (done ++ a :: (front ++ b :: rest)) (done.length + (front.length + 1)) done.length =
      done ++ b :: (front ++ a :: rest) := by
  have hfirst : (done ++ a :: (front ++ b :: rest))[done.length]? = some a := by simp
  have hsecond : (done ++ a :: (front ++ b :: rest))[done.length + (front.length + 1)]? =
      some b := by simp
  unfold swapAt
  rw [hfirst, hsecond]
  simp [List.set_append_right]

/-- The run comes to stand at the target, and what was there is rotated behind it. -/
theorem moveForward_eq_rotate (done front run rest : List α) :
    moveForward (done ++ (front ++ (run ++ rest))) (done.length + front.length) done.length
        run.length =
      done ++ (run ++ (front.rotate run.length ++ rest)) := by
  induction run generalizing done front with
  | nil => simp [moveForward]
  | cons b run ih =>
    rw [List.length_cons, moveForward]
    cases front with
    | nil =>
      have hstep := ih (done ++ [b]) []
      simpa [swapAt_self] using hstep
    | cons a front =>
      -- the first element passed changes places with the first of the run, behind all the others
      have hstep := ih (done ++ [b]) (front ++ [a])
      rw [List.rotate_cons_succ, List.cons_append, List.cons_append, List.length_cons, swapAt_split]
      simpa [Nat.add_assoc, Nat.add_comm 1] using hstep

theorem rotate_flatMap {blocks : List β} {words : β → List α} {size : ℕ}
    (h : ∀ block ∈ blocks, (words block).length = size) (count : ℕ) :
    (blocks.flatMap words).rotate (count * size) = (blocks.rotate count).flatMap words := by
  induction count with
  | zero => simp
  | succ count ih =>
    rw [Nat.succ_mul, ← List.rotate_rotate, ih, ← List.rotate_rotate blocks]
    cases hrotated : blocks.rotate count with
    | nil => simp
    | cons block others =>
      have hmem : block ∈ blocks := by
        rw [← List.mem_rotate (n := count), hrotated]
        exact List.mem_cons_self
      rw [List.flatMap_cons, ← h block hmem, List.rotate_append_length_eq, List.rotate_cons_succ,
        List.rotate_zero, List.flatMap_append, List.flatMap_singleton]

end Redic.SwapForward
