import Redic.Data
import Redic.Foundation.Int64Range
import Redic.Foundation.SignedDecimal

/-! # Which texts are 64-bit integers

`parse_int64` hands its bytes to `strtoll` in a buffer of 21 bytes. It is meant to read exactly
the decimal numbers of the 64-bit range; white space in front of a number slips through, and a
number padded to more than 20 bytes does not fit.
-/
namespace Redic
open DecimalText Int64Range

variable {str : List UInt8} {out : Int64}

section Reader

variable {text : List UInt8} {v : ℤ} {c : UInt8}

theorem strtoll_fits (h : numeralValue text = some v) (hfits : InInt64 v)
    (hc : isDigit c = false) (rest : List UInt8) :
    strtoll (text ++ c :: rest) = ⟨Int64.ofInt v, text.length, false⟩ := by
  obtain ⟨hlo, hhi⟩ := hfits
  rw [strtoll_numeral h hc, if_neg (by omega), if_neg (by omega)]

theorem strtoll_erange (h : numeralValue text = some v) (hfits : ¬ InInt64 v)
    (hc : isDigit c = false) (rest : List UInt8) :
    (strtoll (text ++ c :: rest)).erange = true := by
  rw [strtoll_numeral h hc]
  split_ifs with hlo hhi
  · rfl
  · rfl
  · exact absurd ⟨by omega, by omega⟩ hfits

end Reader

/-- `parse_int64` accepts white space and a number, in at most 20 bytes. -/
theorem parseInt64_eq_some : parseInt64 str = some out ↔
    str.length ≤ 20 ∧ numeralValue str = some out.toInt := by
  have hzero : isDigit 0 = false := by decide
  constructor
  · intro h
    unfold parseInt64 at h
    split at h
    · cases h
    · rename_i hlength
      obtain ⟨hpos, hle⟩ := not_or.mp hlength
      dsimp only at h
      split at h
      · cases h
      · rename_i hparsed
        obtain ⟨hend, herange⟩ := not_or.mp hparsed
        have hne : str ≠ [] := fun hnil => hpos (List.length_eq_zero_iff.mpr hnil)
        obtain ⟨v, hv⟩ := strtoll_whole hne (not_not.mp hend)
        have hfits : InInt64 v := by
          by_contra hnot
          exact herange (strtoll_erange hv hnot hzero [])
        rw [strtoll_fits hv hfits hzero] at h
        cases h
        rw [toInt_ofInt_iff.mpr hfits]
        exact ⟨Nat.le_of_not_lt hle, hv⟩
  · rintro ⟨hlength, hvalue⟩
    have hpos : str.length ≠ 0 := by
      intro hnil
      rw [List.length_eq_zero_iff.mp hnil] at hvalue
      cases hvalue
    have hread := strtoll_fits hvalue (inInt64_toInt out) hzero []
    unfold parseInt64
    rw [if_neg (by omega)]
    simp [hread]

/-- The text is white space, at least one byte of it, and a number that fits the buffer. -/
def BlankPadded (str : List UInt8) : Prop :=
  str.length ≤ 20 ∧ ∃ (blanks number : List UInt8) (out : Int64), blanks ≠ [] ∧ Blank blanks ∧
    DecimalInteger number out.toInt ∧ str = blanks ++ number

/-- The text is a number of the range, padded with zeros to more than the buffer holds. -/
def ZeroPadded (str : List UInt8) : Prop :=
  20 < str.length ∧ ∃ out : Int64, DecimalInteger str out.toInt

/-- `parse_int64` reads exactly the decimal numbers of the 64-bit range, unless the text is a
number behind white space or one of more than 20 bytes; on those it always goes wrong. -/
theorem parseInt64_exact_iff (str : List UInt8) :
    (∀ out, parseInt64 str = some out ↔ DecimalInteger str out.toInt) ↔
      ¬ BlankPadded str ∧ ¬ ZeroPadded str := by
  constructor
  · intro hexact
    constructor
    · rintro ⟨hlength, blanks, number, out, hne, hblank, hnumber, rfl⟩
      have hread := parseInt64_eq_some.mpr
        ⟨hlength, numeralValue_iff.mpr ⟨blanks, number, hblank, hnumber, rfl⟩⟩
      obtain ⟨c, cs, rfl⟩ := List.exists_cons_of_ne_nil hne
      have hspace := hblank c List.mem_cons_self
      rw [((hexact out).mp hread).head_not_space c (Option.mem_def.mpr rfl)] at hspace
      cases hspace
    · rintro ⟨hlong, out, hnumber⟩
      have hread := parseInt64_eq_some.mp ((hexact out).mpr hnumber)
      omega
  · rintro ⟨hblanks, hzeros⟩ out
    rw [parseInt64_eq_some]
    constructor
    · rintro ⟨hlength, hvalue⟩
      obtain ⟨blanks, number, hblank, hnumber, rfl⟩ := numeralValue_iff.mp hvalue
      by_cases hne : blanks = []
      · subst hne
        exact hnumber
      · exact absurd ⟨hlength, blanks, number, out, hne, hblank, hnumber, rfl⟩ hblanks
    · intro hnumber
      have hlength : str.length ≤ 20 := by
        by_contra hlong
        exact hzeros ⟨Nat.lt_of_not_le hlong, out, hnumber⟩
      exact ⟨hlength, hnumber.numeralValue_eq⟩

/-- A blank and a five are read as five. -/
theorem parseInt64_blank_five : parseInt64 [32, 53] = some 5 ∧
    ¬ ∀ out, parseInt64 [32, 53] = some out ↔ DecimalInteger [32, 53] out.toInt := by
  have hread : parseInt64 [32, 53] = some 5 := by decide
  refine ⟨hread, ?_⟩
  intro hexact
  have hspace : isSpace 32 = false :=
    ((hexact 5).mp hread).head_not_space 32 (Option.mem_def.mpr rfl)
  cases hspace

end Redic
