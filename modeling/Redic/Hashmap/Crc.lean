import Redic.Foundation.CyclicCheck
import Redic.Hashmap.Hash

/-! # What the table computes

The table holds eight shifts for each value of a byte, so a step of `crc32` is eight steps of the
shift register that the source describes, and the result is a remainder modulo its polynomial.
-/
namespace Redic.Hashmap
open CyclicCheck Polynomial

/-- The polynomial backwards, without its highest power. -/
def crc32Feedback : ℕ := 0xedb88320

noncomputable def crc32Polynomial : (ZMod 2)[X] :=
  X ^ 32 + X ^ 26 + X ^ 23 + X ^ 22 + X ^ 16 + X ^ 12 + X ^ 11 + X ^ 10 + X ^ 8 + X ^ 7 + X ^ 5 +
    X ^ 4 + X ^ 2 + X ^ 1 + X ^ 0

theorem generator_crc32 : generator 32 crc32Feedback = crc32Polynomial := by
  have hbits : (List.range 32).filter (crc32Feedback.testBit ·) =
      [5, 8, 9, 15, 19, 20, 21, 23, 24, 26, 27, 29, 30, 31] := by decide +kernel
  have hpoly : poly 32 crc32Feedback =
      (((List.range 32).filter (crc32Feedback.testBit ·)).map fun i => X ^ (32 - 1 - i)).sum := by
    rw [poly, ← Finset.sum_filter, ← List.sum_toFinset _ (List.nodup_range.filter _)]
    refine Finset.sum_congr ?_ fun _ _ => rfl
    ext i
    simp
  rw [generator, hpoly, hbits, crc32Polynomial]
  simp only [List.map_cons, List.map_nil, List.sum_cons, List.sum_nil]
  ring

theorem crc32Tab_shifts : ∀ i, i < 256 → (crc32Tab.getD i 0).toNat = shifts crc32Feedback i 8 := by
  decide +kernel

theorem crc32Step_toNat (crc32val : UInt64) (c : UInt8) :
    (crc32Step crc32val c).toNat = feed crc32Feedback crc32val.toNat c.toNat := by
  have hlow : ((crc32val ^^^ c.toUInt64) &&& 0xff).toNat = (crc32val.toNat ^^^ c.toNat) &&& 255 := by
    rw [UInt64.toNat_and, UInt64.toNat_xor, UInt8.toNat_toUInt64]
    rfl
  have hindex : (crc32val.toNat ^^^ c.toNat) &&& 255 < 256 :=
    Nat.and_lt_two_pow _ (show 255 < 2 ^ 8 by decide)
  have hdown : (crc32val >>> 8).toNat = crc32val.toNat >>> 8 := by
    rw [UInt64.toNat_shiftRight]
    rfl
  rw [feed_eq _ _ c.toNat_lt, crc32Step, UInt64.toNat_xor, hdown, hlow, crc32Tab_shifts _ hindex]

theorem crc32_toNat (s : List UInt8) (len : UInt32) :
    (crc32 s len).toNat = check crc32Feedback 0 ((s.take len.toNat).map UInt8.toNat) := by
  have hfold : ∀ (bytes : List UInt8) (crc32val : UInt64),
      (bytes.foldl crc32Step crc32val).toNat =
        check crc32Feedback crc32val.toNat (bytes.map UInt8.toNat) := by
    intro bytes
    induction bytes with
    | nil => exact fun _ => rfl
    | cons c bytes ih =>
      intro crc32val
      rw [List.foldl_cons, ih, crc32Step_toNat]
      rfl
  exact hfold _ 0

/-- The check of any bytes is the remainder of their polynomial times `X ^ 32`, and bytes are told
apart unless the generator divides the difference of their polynomials. -/
theorem crc32_remainder (s : List UInt8) (len : UInt32) :
    poly 32 (crc32 s len).toNat =
      (X ^ 32 * message ((s.take len.toNat).map UInt8.toNat)) %ₘ crc32Polynomial ∧
    ∀ (t : List UInt8) (len' : UInt32), crc32 s len = crc32 t len' ↔
      crc32Polynomial ∣ message ((s.take len.toNat).map UInt8.toNat) -
        message ((t.take len'.toNat).map UInt8.toNat) := by
  have hfeedback : crc32Feedback < 2 ^ 32 := by decide
  have hconstant : crc32Feedback.testBit (32 - 1) = true := by decide
  have hbytes : ∀ (bytes : List UInt8), ∀ byte ∈ bytes.map UInt8.toNat, byte < 2 ^ 8 := by
    intro bytes byte hbyte
    obtain ⟨c, -, rfl⟩ := List.mem_map.mp hbyte
    exact c.toNat_lt
  rw [← generator_crc32]
  constructor
  · rw [crc32_toNat]
    exact poly_check_eq (by decide) hfeedback (hbytes _)
  · intro t len'
    rw [← check_eq_iff (by decide) hfeedback hconstant (hbytes _) (hbytes _), ← crc32_toNat,
      ← crc32_toNat, UInt64.toNat_inj]

end Redic.Hashmap
