import Mathlib.Data.Nat.Digits.Defs

/-! # Fixed-width words in memory

The bytes a machine word occupies, lowest byte first, and the number those bytes denote.
-/
namespace Redic.HostWord

def wordBytes : ℕ → ℕ → List UInt8
  | 0, _ => []
  | width + 1, value => UInt8.ofNat value :: wordBytes width (value / 256)

def bytesWord (bytes : List UInt8) : ℕ := Nat.ofDigits 256 (bytes.map UInt8.toNat)

@[simp] theorem length_wordBytes (width value : ℕ) : (wordBytes width value).length = width := by
  induction width generalizing value with
  | zero => rfl
  | succ width ih => rw [wordBytes, List.length_cons, ih]

theorem bytesWord_wordBytes {width value : ℕ} (h : value < 256 ^ width) :
    bytesWord (wordBytes width value) = value := by
  induction width generalizing value with
  | zero =>
    obtain rfl : value = 0 := Nat.lt_one_iff.mp h
    rfl
  | succ width ih =>
    have hdiv : value / 256 < 256 ^ width :=
      Nat.div_lt_of_lt_mul (by rwa [Nat.pow_succ, Nat.mul_comm] at h)
    have htail := ih hdiv
    unfold bytesWord at htail ⊢
    rw [wordBytes, List.map_cons, Nat.ofDigits_cons, htail]
    change value % 256 + 256 * (value / 256) = value
    exact Nat.mod_add_div value 256

theorem bytesWord_cons (byte : UInt8) (bytes : List UInt8) :
    bytesWord (byte :: bytes) = byte.toNat + 256 * bytesWord bytes := by
  unfold bytesWord
  rw [List.map_cons, Nat.ofDigits_cons]

theorem bytesWord_lt (bytes : List UInt8) : bytesWord bytes < 256 ^ bytes.length := by
  induction bytes with
  | nil => decide
  | cons byte bytes ih =>
    have hbyte := byte.toNat_lt
    rw [bytesWord_cons, List.length_cons, Nat.pow_succ]
    omega

theorem wordBytes_bytesWord (bytes : List UInt8) :
    wordBytes bytes.length (bytesWord bytes) = bytes := by
  induction bytes with
  | nil => rfl
  | cons byte bytes ih =>
    have hbyte := byte.toNat_lt
    have hlow : UInt8.ofNat (byte.toNat + 256 * bytesWord bytes) = byte := by
      apply UInt8.toNat_inj.mp
      rw [UInt8.toNat_ofNat']
      omega
    have hhigh : (byte.toNat + 256 * bytesWord bytes) / 256 = bytesWord bytes := by omega
    rw [bytesWord_cons, List.length_cons, wordBytes, hlow, hhigh, ih]

end Redic.HostWord
