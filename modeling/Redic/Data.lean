import Redic.Foundation.DecimalText
import Redic.Foundation.TimedMap

/-! # Stored entries, the wall clock, and integers kept as text

An entry is a byte string with an optional absolute deadline in unix milliseconds. Every
function of `data.c` that reads the clock takes the reading as an argument.
-/
namespace Redic
open DecimalText

/-- Length-prefixed byte string; the length is the length of the list. -/
abbrev DataString := List UInt8

/-- On a 64-bit target, without the bytes. -/
def sizeofDataString : ℕ := 8

abbrev OptionTime := Option Int64

inductive DataType
  | dataString
  deriving DecidableEq, Repr

structure DataEntry where
  expiresAt : OptionTime
  type : DataType
  value : DataString
  deriving DecidableEq, Repr

/-- One reading of `CLOCK_REALTIME`. The nanoseconds are normalised and the instant in
milliseconds fits the 64-bit integer it is computed in. -/
structure Timespec where
  tvSec : Int64
  tvNsec : Int64
  nsec_nonneg : 0 ≤ tvNsec.toInt
  nsec_lt : tvNsec.toInt < 1000000000
  ms_lower : -2 ^ 63 ≤ tvSec.toInt * 1000
  ms_upper : tvSec.toInt * 1000 + 999 < 2 ^ 63

/-- The reading at a whole second. -/
def Timespec.atSecond (sec : Int64) (hlo : -9223372036854775 ≤ sec.toInt)
    (hhi : sec.toInt ≤ 9223372036854774) : Timespec :=
  ⟨sec, 0, by decide, by decide, by omega, by omega⟩

def dataNowMs (ts : Timespec) : Int64 := ts.tvSec * 1000 + ts.tvNsec / 1000000

def dataIsExpired (entry : DataEntry) (ts : Timespec) : Bool :=
  match entry.expiresAt with
  | none => false
  | some value => decide (value ≤ dataNowMs ts)

def dataCreateStringEntry (expiresAt : OptionTime) (str : DataString) : DataEntry :=
  { expiresAt := expiresAt, type := .dataString, value := str }

def dataUnwrapString (entry : DataEntry) : DataString := entry.value

/-- Base-10 text of a 64-bit integer, as `snprintf` writes it into the 21-byte buffer. -/
def dataStringFromInt64 (value : Int64) : DataString := intText value.toInt

/-- The text is copied into a 21-byte buffer, closed by a NUL, and must be consumed whole. -/
def parseInt64 (str : DataString) : Option Int64 :=
  if str.length = 0 ∨ 20 < str.length then none
  else
    let parsed := strtoll (str ++ [0])
    if parsed.endPos ≠ str.length ∨ parsed.erange = true then none else some parsed.value

/-- Neither the sum nor the quotient wraps: the reading is exact in milliseconds. -/
theorem dataNowMs_toInt (ts : Timespec) :
    (dataNowMs ts).toInt = ts.tvSec.toInt * 1000 + ts.tvNsec.toInt / 1000000 := by
  have hlo := ts.ms_lower
  have hhi := ts.ms_upper
  have h0 := ts.nsec_nonneg
  have h1 := ts.nsec_lt
  have hq : (ts.tvNsec / 1000000).toInt = ts.tvNsec.toInt / 1000000 := by
    rw [Int64.toInt_div, show (1000000 : Int64).toInt = 1000000 from rfl,
      Int.tdiv_eq_ediv_of_nonneg h0]
    exact Int.bmod_eq_of_le (by omega) (by omega)
  have hm : (ts.tvSec * 1000).toInt = ts.tvSec.toInt * 1000 := by
    rw [Int64.toInt_mul, show (1000 : Int64).toInt = 1000 from rfl]
    exact Int.bmod_eq_of_le (by omega) (by omega)
  rw [dataNowMs, Int64.toInt_add, hq, hm]
  exact Int.bmod_eq_of_le (by omega) (by omega)

theorem dataIsExpired_eq (entry : DataEntry) (ts : Timespec) :
    dataIsExpired entry ts = TimedMap.expired DataEntry.expiresAt (dataNowMs ts) entry := by
  unfold dataIsExpired TimedMap.expired
  cases entry.expiresAt <;> rfl

theorem parseInt64_dataStringFromInt64 (value : Int64) :
    parseInt64 (dataStringFromInt64 value) = some value := by
  have hlen := intText_length_le value
  have hpos := List.length_pos_iff.mpr (intText_ne_nil value.toInt)
  have hstop : StopsDigits [0] := by
    intro c hc
    cases hc
    rfl
  unfold parseInt64 dataStringFromInt64
  rw [if_neg (by omega)]
  simp [strtoll_intText value hstop]

end Redic
