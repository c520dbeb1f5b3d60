import Mathlib.Algebra.Group.Int.Defs
import Mathlib.Algebra.Group.Nat.Defs
import Mathlib.Tactic.Use

/-! # When 64-bit arithmetic is exact

The wrapping operations on 64-bit integers agree with those on the integers exactly when the
integer result is one of the 64-bit values.
-/
namespace Redic.Int64Range

/-- The integers a 64-bit word can hold. -/
def InInt64 (n : ℤ) : Prop := -2 ^ 63 ≤ n ∧ n < 2 ^ 63
  deriving Decidable

variable {a b : Int64} {n : ℤ}

theorem inInt64_toInt (a : Int64) : InInt64 a.toInt := ⟨a.le_toInt, a.toInt_lt⟩

theorem bmod_eq_self_iff : n.bmod (2 ^ 64) = n ↔ InInt64 n := by
  constructor
  · intro h
    have hlo : -(2 ^ 64 / 2 : ℤ) ≤ n.bmod (2 ^ 64) := Int.le_bmod (by decide)
    have hhi : n.bmod (2 ^ 64) < (2 ^ 64 + 1) / 2 := Int.bmod_lt (by decide)
    unfold InInt64
    omega
  · rintro ⟨hlo, hhi⟩
    exact Int.bmod_eq_of_le (by omega) (by omega)

theorem toInt_add_iff : (a + b).toInt = a.toInt + b.toInt ↔ InInt64 (a.toInt + b.toInt) := by
  rw [Int64.toInt_add, bmod_eq_self_iff]

theorem toInt_sub_iff : (a - b).toInt = a.toInt - b.toInt ↔ InInt64 (a.toInt - b.toInt) := by
  rw [Int64.toInt_sub, bmod_eq_self_iff]

theorem toInt_mul_iff : (a * b).toInt = a.toInt * b.toInt ↔ InInt64 (a.toInt * b.toInt) := by
  rw [Int64.toInt_mul, bmod_eq_self_iff]

theorem toInt_ofInt_iff : (Int64.ofInt n).toInt = n ↔ InInt64 n := by
  have h : (Int64.ofInt n).toInt = n.bmod (2 ^ 64) := Int64.toInt_ofInt
  rw [h, bmod_eq_self_iff]

end Redic.Int64Range
