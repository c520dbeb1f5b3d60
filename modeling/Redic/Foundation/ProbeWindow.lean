import Mathlib.Data.List.ReduceOption
import Mathlib.Data.Nat.ModEq

/-! # Bounded probing in a circular table of slots

A probe visits a fixed number of consecutive positions of a circular table and stops at the
first one that passes a test. The table is a list of optional occupants; writing one slot
replaces at most one occupant and leaves the others.
-/
namespace Redic.ProbeWindow

/-- The position a probe visits after `offset` steps. -/
def position (size start offset : ℕ) : ℕ := (start + offset) % size

def probe (test : ℕ → Bool) (size : ℕ) : ℕ → ℕ → Option ℕ
  | 0, _ => none
  | count + 1, curr => if test curr then some curr else probe test size count ((curr + 1) % size)

variable {test : ℕ → Bool} {size count start index : ℕ}

theorem position_zero (h : start < size) : position size start 0 = start := Nat.mod_eq_of_lt h

theorem position_succ (offset : ℕ) :
    position size ((start + 1) % size) offset = position size start (offset + 1) := by
  unfold position
  rw [Nat.mod_add_mod, Nat.add_right_comm, Nat.add_assoc]

theorem position_lt (h : start < size) (offset : ℕ) : position size start offset < size :=
  Nat.mod_lt _ (Nat.zero_lt_of_lt h)

theorem position_injective {a b : ℕ} (ha : a < size) (hb : b < size)
    (h : position size start a = position size start b) : a = b := by
  have hmod : start + a ≡ start + b [MOD size] := h
  exact (Nat.ModEq.add_left_cancel' start hmod).eq_of_lt_of_lt ha hb

theorem probe_eq_none (hstart : start < size) : probe test size count start = none ↔
    ∀ offset < count, test (position size start offset) = false := by
  induction count generalizing start with
  | zero => simp [probe]
  | succ count ih =>
    have hnext : (start + 1) % size < size := Nat.mod_lt _ (Nat.zero_lt_of_lt hstart)
    rw [probe]
    constructor
    · intro h offset hoffset
      by_cases htest : test start = true
      · rw [if_pos htest] at h
        cases h
      · rw [if_neg htest] at h
        cases offset with
        | zero => rw [position_zero hstart, Bool.eq_false_iff.mpr htest]
        | succ offset =>
          rw [← position_succ]
          exact (ih hnext).mp h offset (Nat.lt_of_succ_lt_succ hoffset)
    · intro h
      have hfirst := h 0 (Nat.succ_pos count)
      rw [position_zero hstart] at hfirst
      rw [if_neg (by simp [hfirst]), ih hnext]
      intro offset hoffset
      rw [position_succ]
      exact h (offset + 1) (Nat.succ_lt_succ hoffset)

theorem probe_eq_some (hstart : start < size) (h : probe test size count start = some index) :
    ∃ offset < count, index = position size start offset ∧ test index = true ∧
      ∀ earlier < offset, test (position size start earlier) = false := by
  induction count generalizing start with
  | zero => cases h
  | succ count ih =>
    rw [probe] at h
    by_cases htest : test start = true
    · rw [if_pos htest] at h
      cases h
      exact ⟨0, Nat.succ_pos count, (position_zero hstart).symm, htest,
        fun _ hlt => absurd hlt (Nat.not_lt_zero _)⟩
    · rw [if_neg htest] at h
      obtain ⟨offset, hoffset, hindex, hpass, hfail⟩ :=
        ih (Nat.mod_lt _ (Nat.zero_lt_of_lt hstart)) h
      refine ⟨offset + 1, Nat.succ_lt_succ hoffset, hindex.trans (position_succ offset), hpass, ?_⟩
      intro earlier hearlier
      cases earlier with
      | zero => rw [position_zero hstart, Bool.eq_false_iff.mpr htest]
      | succ earlier =>
        rw [← position_succ]
        exact hfail earlier (Nat.lt_of_succ_lt_succ hearlier)

section Slots
variable {α : Type*} {slots : List (Option α)}

theorem perm_occupants (occupant : Option α) (before after : List (Option α)) :
    (before ++ occupant :: after).reduceOption.Perm
      (occupant.toList ++ (before ++ after).reduceOption) := by
  rw [List.reduceOption_append, List.reduceOption_append]
  cases occupant with
  | none => simp
  | some a => simp [List.perm_middle]

/-- Before and after a write, the other occupants are those of the other slots. -/
theorem reduceOption_set (h : index < slots.length) (occupant : Option α) :
    slots.reduceOption.Perm (slots[index].toList ++ (slots.eraseIdx index).reduceOption) ∧
      (slots.set index occupant).reduceOption.Perm
        (occupant.toList ++ (slots.eraseIdx index).reduceOption) := by
  rw [List.eraseIdx_eq_take_drop_succ, List.set_eq_take_append_cons_drop, if_pos h]
  refine ⟨?_, perm_occupants _ _ _⟩
  have hsplit := perm_occupants slots[index] (slots.take index) (slots.drop (index + 1))
  rwa [List.getElem_cons_drop, List.take_append_drop] at hsplit

end Slots

end Redic.ProbeWindow
