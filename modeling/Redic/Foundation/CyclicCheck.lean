import Mathlib

/-! # Cyclic redundancy checks

A register that shifts towards its lowest bit and adds the feedback whenever that bit is set. It
holds a polynomial over two elements with the highest power in the lowest bit, so a shift
multiplies it modulo the generator, and a message leaves its remainder. Eight shifts at a time can
be read from a table.
-/
namespace Redic.CyclicCheck
open Polynomial

section Register
variable (feedback : ℕ)

def shift (register : ℕ) : ℕ :=
  if register.testBit 0 then (register >>> 1) ^^^ feedback else register >>> 1

def shifts (register : ℕ) : ℕ → ℕ
  | 0 => register
  | n + 1 => shift feedback (shifts register n)

/-- A byte of the message goes into the lowest bits. -/
def feed (register byte : ℕ) : ℕ := shifts feedback (register ^^^ byte) 8

def check (register : ℕ) (bytes : List ℕ) : ℕ := bytes.foldl (feed feedback) register

variable {feedback}

theorem shift_xor (a b : ℕ) : shift feedback (a ^^^ b) = shift feedback a ^^^ shift feedback b := by
  apply Nat.eq_of_testBit_eq
  intro i
  unfold shift
  rw [Nat.testBit_xor]
  cases a.testBit 0 <;> cases b.testBit 0 <;>
    simp [Nat.testBit_xor, Nat.testBit_shiftRight, Bool.xor_comm, Bool.xor_left_comm]

theorem shifts_xor (a b n : ℕ) :
    shifts feedback (a ^^^ b) n = shifts feedback a n ^^^ shifts feedback b n := by
  induction n with
  | zero => rfl
  | succ n ih => rw [shifts, ih, shift_xor, shifts, shifts]

theorem shifts_shiftLeft (a n : ℕ) : shifts feedback (a <<< n) n = a := by
  have hmove : ∀ k, k ≤ n → shifts feedback (a <<< n) k = a <<< (n - k) := by
    intro k hk
    induction k with
    | zero => rfl
    | succ k ih =>
      have hleft : n - k = (n - (k + 1)) + 1 := by omega
      have heven : (a <<< (n - (k + 1) + 1)).testBit 0 = false := by
        simp
      rw [shifts, ih (Nat.le_of_succ_le hk), hleft, shift, heven, if_neg Bool.false_ne_true,
        Nat.shiftLeft_add, Nat.shiftLeft_shiftRight]
  rw [hmove n le_rfl, Nat.sub_self, Nat.shiftLeft_zero]

theorem split_byte (a : ℕ) : a = (a &&& 255) ^^^ ((a >>> 8) <<< 8) := by
  apply Nat.eq_of_testBit_eq
  intro i
  rw [Nat.testBit_xor, Nat.testBit_and, Nat.testBit_shiftLeft, Nat.testBit_shiftRight,
    show (255 : ℕ) = 2 ^ 8 - 1 from rfl, Nat.testBit_two_pow_sub_one]
  by_cases hi : i < 8
  · simp [hi, Nat.not_le.mpr hi]
  · simp [hi, Nat.not_lt.mp hi]

/-- Eight shifts are those of the lowest byte, added to the other bytes moved down. -/
theorem feed_eq (register byte : ℕ) (hbyte : byte < 256) : feed feedback register byte =
    shifts feedback ((register ^^^ byte) &&& 255) 8 ^^^ (register >>> 8) := by
  have hhigh : (register ^^^ byte) >>> 8 = register >>> 8 := by
    rw [Nat.shiftRight_xor_distrib, Nat.shiftRight_eq_div_pow byte, Nat.div_eq_of_lt hbyte,
      Nat.xor_zero]
  calc feed feedback register byte
      = shifts feedback (((register ^^^ byte) &&& 255) ^^^ (((register ^^^ byte) >>> 8) <<< 8)) 8 :=
        congrArg (shifts feedback · 8) (split_byte (register ^^^ byte))
    _ = shifts feedback ((register ^^^ byte) &&& 255) 8 ^^^ (register >>> 8) := by
        rw [shifts_xor, shifts_shiftLeft, hhigh]

theorem shift_lt {w register : ℕ} (hfeedback : feedback < 2 ^ w) (h : register < 2 ^ w) :
    shift feedback register < 2 ^ w := by
  have hdown : register >>> 1 < 2 ^ w := (Nat.shiftRight_le register 1).trans_lt h
  unfold shift
  split
  · exact Nat.xor_lt_two_pow hdown hfeedback
  · exact hdown

theorem shifts_lt {w register : ℕ} (hfeedback : feedback < 2 ^ w) (h : register < 2 ^ w) (n : ℕ) :
    shifts feedback register n < 2 ^ w := by
  induction n with
  | zero => exact h
  | succ n ih => exact shift_lt hfeedback ih

theorem check_lt {w register : ℕ} (hw : 8 ≤ w) (hfeedback : feedback < 2 ^ w)
    (h : register < 2 ^ w) {bytes : List ℕ} (hbytes : ∀ byte ∈ bytes, byte < 2 ^ 8) :
    check feedback register bytes < 2 ^ w := by
  induction bytes generalizing register with
  | nil => exact h
  | cons byte bytes ih =>
    obtain ⟨hbyte, hrest⟩ := List.forall_mem_cons.mp hbytes
    have hwide : byte < 2 ^ w := hbyte.trans_le (Nat.pow_le_pow_right Nat.two_pos hw)
    exact ih (shifts_lt hfeedback (Nat.xor_lt_two_pow h hwide) 8) hrest

end Register

section Remainder
variable {w feedback register : ℕ}

/-- The polynomial in a register of a given width. -/
noncomputable def poly (w register : ℕ) : (ZMod 2)[X] :=
  ∑ i ∈ Finset.range w, if register.testBit i then X ^ (w - 1 - i) else 0

noncomputable def generator (w feedback : ℕ) : (ZMod 2)[X] := X ^ w + poly w feedback

/-- A byte is sent from its lowest bit. -/
noncomputable def message (bytes : List ℕ) : (ZMod 2)[X] :=
  bytes.foldl (fun sent byte => X ^ 8 * sent + poly 8 byte) 0

theorem coeff_poly {i : ℕ} (hi : i < w) :
    (poly w register).coeff (w - 1 - i) = if register.testBit i then 1 else 0 := by
  rw [poly, finsetSum_coeff, Finset.sum_eq_single i]
  · split <;> simp
  · intro j hj hne
    have hjw := Finset.mem_range.mp hj
    have hpow : w - 1 - i ≠ w - 1 - j := by omega
    split
    · rw [coeff_X_pow, if_neg hpow]
    · exact coeff_zero _
  · intro hout
    exact absurd (Finset.mem_range.mpr hi) hout

theorem poly_injective {a b : ℕ} (ha : a < 2 ^ w) (hb : b < 2 ^ w) (h : poly w a = poly w b) :
    a = b := by
  apply Nat.eq_of_testBit_eq
  intro i
  by_cases hi : i < w
  · have hcoeff := congrArg (fun p => p.coeff (w - 1 - i)) h
    simp only [coeff_poly hi] at hcoeff
    cases hbit : a.testBit i <;> cases hbit' : b.testBit i <;> simp_all
  · have hw : 2 ^ w ≤ 2 ^ i := Nat.pow_le_pow_right Nat.two_pos (Nat.not_lt.mp hi)
    rw [Nat.testBit_lt_two_pow (ha.trans_le hw), Nat.testBit_lt_two_pow (hb.trans_le hw)]

theorem degree_poly_lt (w register : ℕ) : (poly w register).degree < w := by
  refine (degree_sum_le _ _).trans_lt ((Finset.sup_lt_iff (WithBot.bot_lt_coe w)).mpr ?_)
  intro i hi
  have hiw := Finset.mem_range.mp hi
  split
  · have hpow : w - 1 - i < w := by omega
    exact (degree_X_pow_le _).trans_lt (WithBot.coe_lt_coe.mpr hpow)
  · rw [degree_zero]
    exact WithBot.bot_lt_coe w

theorem generator_monic (w feedback : ℕ) : (generator w feedback).Monic :=
  monic_X_pow_add (degree_poly_lt w feedback)

theorem poly_xor (w a b : ℕ) : poly w (a ^^^ b) = poly w a + poly w b := by
  rw [poly, poly, poly, ← Finset.sum_add_distrib]
  refine Finset.sum_congr rfl fun i _ => ?_
  have hdouble : (X ^ (w - 1 - i) : (ZMod 2)[X]) + X ^ (w - 1 - i) = 0 :=
    CharTwo.add_self_eq_zero _
  rw [Nat.testBit_xor]
  cases a.testBit i <;> cases b.testBit i <;> simp [hdouble]

/-- The lowest bit holds the highest power, so moving the register down multiplies. -/
theorem poly_shiftRight (h : register < 2 ^ w) : poly w (register >>> 1) =
    X * poly w register + if register.testBit 0 then X ^ w else 0 := by
  cases w with
  | zero =>
    have hzero : register = 0 := by simpa using h
    simp [poly, hzero]
  | succ n =>
    have hdouble : (X ^ (n + 1) : (ZMod 2)[X]) + X ^ (n + 1) = 0 := CharTwo.add_self_eq_zero _
    have htop : register.testBit (n + 1) = false := Nat.testBit_lt_two_pow h
    rw [poly, poly, Finset.sum_range_succ, Finset.sum_range_succ', mul_add, Finset.mul_sum]
    simp only [Nat.testBit_shiftRight, Nat.add_comm 1, htop, Bool.false_eq_true, if_false, add_zero]
    have hsum : ∀ i ∈ Finset.range n,
        (if register.testBit (i + 1) then X ^ (n + 1 - 1 - i) else (0 : (ZMod 2)[X])) =
          X * if register.testBit (i + 1) then X ^ (n + 1 - 1 - (i + 1)) else 0 := by
      intro i hi
      have hin := Finset.mem_range.mp hi
      have hpow : n + 1 - 1 - i = (n + 1 - 1 - (i + 1)) + 1 := by omega
      split
      · rw [hpow, pow_succ']
      · rw [mul_zero]
    rw [Finset.sum_congr rfl hsum, add_assoc]
    cases register.testBit 0 <;> simp [← pow_succ', hdouble]

theorem poly_shift (h : register < 2 ^ w) : poly w (shift feedback register) =
    X * poly w register + if register.testBit 0 then generator w feedback else 0 := by
  unfold shift
  have hdown := poly_shiftRight h
  cases hbit : register.testBit 0 with
  | true =>
    rw [hbit] at hdown
    simp only [if_true] at hdown ⊢
    rw [poly_xor, hdown, generator, add_assoc]
  | false =>
    rw [hbit] at hdown
    exact hdown

theorem poly_shifts (hfeedback : feedback < 2 ^ w) (h : register < 2 ^ w) (n : ℕ) :
    generator w feedback ∣ poly w (shifts feedback register n) - X ^ n * poly w register := by
  induction n with
  | zero => simp [shifts]
  | succ n ih =>
    have hstep : generator w feedback ∣
        poly w (shifts feedback register (n + 1)) - X * poly w (shifts feedback register n) := by
      rw [shifts, poly_shift (shifts_lt hfeedback h n), add_sub_cancel_left]
      split
      · exact dvd_rfl
      · exact dvd_zero _
    have hsum := dvd_add hstep (ih.mul_left X)
    rwa [mul_sub, sub_add_sub_cancel, ← mul_assoc, ← pow_succ'] at hsum

theorem poly_byte (hw : 8 ≤ w) {byte : ℕ} (hbyte : byte < 2 ^ 8) :
    poly w byte = X ^ (w - 8) * poly 8 byte := by
  have hsub : Finset.range 8 ⊆ Finset.range w := Finset.range_subset_range.mpr hw
  rw [poly, poly, Finset.mul_sum, ← Finset.sum_subset hsub]
  · refine Finset.sum_congr rfl fun i hi => ?_
    have hi8 := Finset.mem_range.mp hi
    have hpow : w - 1 - i = (w - 8) + (8 - 1 - i) := by omega
    split
    · rw [hpow, pow_add]
    · rw [mul_zero]
  · intro i _ hi
    have h8 : 8 ≤ i := Nat.not_lt.mp fun hlt => hi (Finset.mem_range.mpr hlt)
    have hbit : byte.testBit i = false :=
      Nat.testBit_lt_two_pow (hbyte.trans_le (Nat.pow_le_pow_right Nat.two_pos h8))
    rw [hbit]
    rfl

theorem poly_feed (hw : 8 ≤ w) (hfeedback : feedback < 2 ^ w) (h : register < 2 ^ w) {byte : ℕ}
    (hbyte : byte < 2 ^ 8) : generator w feedback ∣
      poly w (feed feedback register byte) - (X ^ 8 * poly w register + X ^ w * poly 8 byte) := by
  have hwide : byte < 2 ^ w := hbyte.trans_le (Nat.pow_le_pow_right Nat.two_pos hw)
  have hshifts := poly_shifts hfeedback (Nat.xor_lt_two_pow h hwide) 8
  have hpow : 8 + (w - 8) = w := by omega
  rwa [poly_xor, poly_byte hw hbyte, mul_add, ← mul_assoc, ← pow_add, hpow] at hshifts

theorem message_append (bytes : List ℕ) (byte : ℕ) :
    message (bytes ++ [byte]) = X ^ 8 * message bytes + poly 8 byte := by
  rw [message, List.foldl_append]
  rfl

theorem poly_check (hw : 8 ≤ w) (hfeedback : feedback < 2 ^ w) {bytes : List ℕ}
    (hbytes : ∀ byte ∈ bytes, byte < 2 ^ 8) :
    generator w feedback ∣ poly w (check feedback 0 bytes) - X ^ w * message bytes := by
  induction bytes using List.reverseRecOn with
  | nil => simp [check, message, poly]
  | append_singleton bytes byte ih =>
    obtain ⟨hrest, hlast⟩ := List.forall_mem_append.mp hbytes
    have hbyte := hlast byte (List.mem_singleton_self byte)
    have hsofar := check_lt hw hfeedback (Nat.two_pow_pos w) hrest
    have hstep := poly_feed hw hfeedback hsofar hbyte
    have hsum := dvd_add hstep ((ih hrest).mul_left (X ^ 8))
    have hcheck : check feedback 0 (bytes ++ [byte]) =
        feed feedback (check feedback 0 bytes) byte := by
      rw [check, List.foldl_append]
      rfl
    rw [hcheck, message_append]
    convert hsum using 1
    ring

/-- The check is the remainder of the message, moved up by the width of the register. -/
theorem poly_check_eq (hw : 8 ≤ w) (hfeedback : feedback < 2 ^ w) {bytes : List ℕ}
    (hbytes : ∀ byte ∈ bytes, byte < 2 ^ 8) :
    poly w (check feedback 0 bytes) = (X ^ w * message bytes) %ₘ generator w feedback := by
  have hmonic := generator_monic w feedback
  have hdegree : (generator w feedback).degree = w := by
    rw [generator, degree_add_eq_left_of_degree_lt] <;> rw [degree_X_pow]
    exact degree_poly_lt w feedback
  have hself : poly w (check feedback 0 bytes) %ₘ generator w feedback =
      poly w (check feedback 0 bytes) := by
    rw [modByMonic_eq_self_iff hmonic, hdegree]
    exact degree_poly_lt w _
  rw [← hself]
  exact modByMonic_eq_of_dvd_sub hmonic (poly_check hw hfeedback hbytes)

/-- With a constant term in the generator, messages have the same check exactly when the generator
divides their difference. -/
theorem check_eq_iff (hw : 8 ≤ w) (hfeedback : feedback < 2 ^ w)
    (hconstant : feedback.testBit (w - 1) = true) {bytes others : List ℕ}
    (hbytes : ∀ byte ∈ bytes, byte < 2 ^ 8) (hothers : ∀ byte ∈ others, byte < 2 ^ 8) :
    check feedback 0 bytes = check feedback 0 others ↔
      generator w feedback ∣ message bytes - message others := by
  have hdvd := poly_check hw hfeedback hbytes
  have hdvd' := poly_check hw hfeedback hothers
  constructor
  · intro h
    have hcoprime : IsCoprime (generator w feedback) (X ^ w) := by
      have hone : (generator w feedback).coeff 0 = 1 := by
        have hcoeff : (poly w feedback).coeff (w - 1 - (w - 1)) =
            if feedback.testBit (w - 1) then 1 else 0 := coeff_poly (by omega)
        rw [Nat.sub_self, hconstant, if_pos rfl] at hcoeff
        rw [generator, coeff_add, hcoeff, coeff_X_pow, if_neg (by omega), zero_add]
      obtain ⟨quotient, hquotient⟩ := X_dvd_sub_C (p := generator w feedback)
      rw [hone, C_1] at hquotient
      refine IsCoprime.pow_right ⟨1, -quotient, ?_⟩
      linear_combination hquotient
    refine hcoprime.dvd_of_dvd_mul_left ?_
    have hsub := dvd_sub hdvd' hdvd
    rw [h] at hsub
    convert hsub using 1
    ring
  · intro h
    apply poly_injective (check_lt hw hfeedback (Nat.two_pow_pos w) hbytes)
      (check_lt hw hfeedback (Nat.two_pow_pos w) hothers)
    rw [poly_check_eq hw hfeedback hbytes, poly_check_eq hw hfeedback hothers]
    refine modByMonic_eq_of_dvd_sub (generator_monic w feedback) ?_
    rw [← mul_sub]
    exact h.mul_left _

end Remainder

end Redic.CyclicCheck
