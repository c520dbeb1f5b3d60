import Redic.ParseInt64
import Redic.Resp.Serializer
import Redic.Resp.Settle

/-! # The RESP grammar

The well-formed encodings of a value: a length is digits and nothing else, an integer an optional
sign and digits, and the declared bytes or elements follow. An encoding settles its value, so the
parser accepts it whatever stands behind.
-/
namespace Redic
open DecimalText FrameOutcome

/-- One or more digits that denote a length of 64 bits. -/
structure LengthText (ds : List UInt8) (n : ℕ) : Prop where
  isDigits : IsDigits ds
  readDigits_eq : readDigits ds = n
  fits : n < 2 ^ 64

mutual
/-- The text is a well-formed encoding of the value. -/
inductive Encodes : List UInt8 → RESPValue → Prop
  | simpleString {text} (htext : ∀ c ∈ text, isText c = true) :
    Encodes (RESPValueKind.simpleString.marker :: (text ++ crlf)) (.simpleString text)
  | simpleError {text} (htext : ∀ c ∈ text, isText c = true) :
    Encodes (RESPValueKind.simpleError.marker :: (text ++ crlf)) (.simpleError text)
  | integer {text} {value : Int64} (hnumber : DecimalInteger text value.toInt) :
    Encodes (RESPValueKind.integer.marker :: (text ++ crlf)) (.integer value)
  | null : Encodes (RESPValueKind.null.marker :: crlf) .null
  | bulkString {ds data} (hlength : LengthText ds data.length) :
    Encodes (RESPValueKind.bulkString.marker :: (ds ++ (crlf ++ (data ++ crlf)))) (.bulkString data)
  | array {ds elements values} (hlength : LengthText ds values.length)
    (helements : EncodesAll elements values) :
    Encodes (RESPValueKind.array.marker :: (ds ++ (crlf ++ elements))) (.array values)

inductive EncodesAll : List UInt8 → List RESPValue → Prop
  | nil : EncodesAll [] []
  | cons {text elements value values} (hvalue : Encodes text value)
    (hvalues : EncodesAll elements values) : EncodesAll (text ++ elements) (value :: values)
end

theorem lineEnd_crlf (rest : List UInt8) : LineEnd (crlf ++ rest) none := .crlf rest

theorem crlf_stops (rest : List UInt8) : ∃ c ∈ (crlf ++ rest).head?, isText c = false :=
  ⟨cr, rfl, rfl⟩

section Numbers

variable {ds text : List UInt8} {n : ℕ} {value : Int64}

theorem isDigits_natText (n : ℕ) : IsDigits (natText n) :=
  ⟨natText_ne_nil n, fun _ h => isDigit_of_mem_natText h⟩

theorem lengthText_natText (h : n < 2 ^ 64) : LengthText (natText n) n :=
  ⟨isDigits_natText n, readDigits_natText n, h⟩

theorem decimalInteger_intText (v : ℤ) : DecimalInteger (intText v) v := by
  unfold intText
  split
  · refine ⟨true, [45], natText v.natAbs, .minus, isDigits_natText _, rfl, ?_⟩
    simp only [signed, if_true, readDigits_natText]
    omega
  · refine ⟨false, [], natText v.natAbs, .none, isDigits_natText _, rfl, ?_⟩
    simp only [signed, Bool.false_eq_true, if_false, readDigits_natText]
    omega

theorem LengthText.strtoull (h : LengthText ds n) (rest : List UInt8) :
    strtoull (ds ++ cr :: rest) = ⟨UInt64.ofNat n, ds.length, false⟩ := by
  obtain ⟨hdigits, rfl, hfits⟩ := h
  exact strtoull_digits hdigits hfits rfl rest

theorem LengthText.ends (h : LengthText ds n) (rest : List UInt8) : Ends (ds ++ cr :: rest) :=
  h.isDigits.decimalInteger.ends rfl rest

theorem LengthText.toNat (h : LengthText ds n) : (UInt64.ofNat n).toNat = n :=
  UInt64.toNat_ofNat_of_lt h.fits

theorem strtoll_integer (h : DecimalInteger text value.toInt) (rest : List UInt8) :
    strtoll (text ++ cr :: rest) = ⟨value, text.length, false⟩ := by
  rw [strtoll_fits h.numeralValue_eq (Int64Range.inInt64_toInt value) rfl, Int64.ofInt_toInt]

theorem numberLine_of_read {α : Type} {read : List UInt8 → Parsed α} {digits rest : List UInt8}
    {value : α} {erange : Bool} (hends : Ends (digits ++ (crlf ++ rest)))
    (hread : read (digits ++ (crlf ++ rest)) = ⟨value, digits.length, erange⟩) :
    NumberLine read (digits ++ (crlf ++ rest)) (complete value (digits.length + 2)) := by
  have hline : LineEnd ((digits ++ (crlf ++ rest)).drop
      (read (digits ++ (crlf ++ rest))).endPos) none := by
    rw [hread, List.drop_left]
    exact lineEnd_crlf rest
  have hmk := NumberLine.mk hends hline
  rwa [hread] at hmk

theorem LengthText.numberLine (h : LengthText ds n) (rest : List UInt8) :
    NumberLine DecimalText.strtoull (ds ++ (crlf ++ rest))
      (complete (UInt64.ofNat n) (ds.length + 2)) :=
  numberLine_of_read (h.ends (lf :: rest)) (h.strtoull (lf :: rest))

theorem numberLine_integer (h : DecimalInteger text value.toInt) (rest : List UInt8) :
    NumberLine strtoll (text ++ (crlf ++ rest)) (complete value (text.length + 2)) :=
  numberLine_of_read (h.ends rfl (lf :: rest)) (strtoll_integer h (lf :: rest))

theorem drop_numberLine (text rest : List UInt8) :
    (text ++ (crlf ++ rest)).drop (text.length + 2) = rest := by
  rw [← List.drop_drop, List.drop_left]
  rfl

end Numbers

mutual
theorem Encodes.frame {text : List UInt8} {value : RESPValue} (rest : List UInt8) :
    Encodes text value → Frame (text ++ rest) (complete value text.length)
  | @Encodes.simpleString text htext => by
    have hlength : (RESPValueKind.simpleString.marker :: (text ++ crlf)).length =
        1 + text.length + 2 := by
      simp only [crlf, List.length_cons, List.length_append, List.length_nil]
      omega
    rw [hlength, List.cons_append, List.append_assoc]
    exact .simpleString htext (crlf_stops rest) (lineEnd_crlf rest)
  | @Encodes.simpleError text htext => by
    have hlength : (RESPValueKind.simpleError.marker :: (text ++ crlf)).length =
        1 + text.length + 2 := by
      simp only [crlf, List.length_cons, List.length_append, List.length_nil]
      omega
    rw [hlength, List.cons_append, List.append_assoc]
    exact .simpleError htext (crlf_stops rest) (lineEnd_crlf rest)
  | @Encodes.integer text value hnumber => by
    have hlength : (RESPValueKind.integer.marker :: (text ++ crlf)).length =
        1 + (text.length + 2) := by
      simp only [crlf, List.length_cons, List.length_append, List.length_nil]
      omega
    rw [hlength, List.cons_append, List.append_assoc]
    exact .integer (numberLine_integer hnumber rest)
  | .null => .null (lineEnd_crlf rest)
  | @Encodes.bulkString ds data hnumber => by
    have hlength : (RESPValueKind.bulkString.marker :: (ds ++ (crlf ++ (data ++ crlf)))).length =
        1 + (ds.length + 2) + data.length + 2 := by
      simp only [crlf, List.length_cons, List.length_append, List.length_nil]
      omega
    rw [hlength]
    simp only [List.cons_append, List.append_assoc]
    exact .bulkString (hnumber.numberLine (data ++ (crlf ++ rest))) (drop_numberLine ds _)
      hnumber.toNat.symm (lineEnd_crlf rest)
  | @Encodes.array ds elements values hnumber helements => by
    have hlength : (RESPValueKind.array.marker :: (ds ++ (crlf ++ elements))).length =
        1 + (ds.length + 2) + elements.length := by
      simp only [crlf, List.length_cons, List.length_append, List.length_nil]
      omega
    have hframe := Frame.array (hnumber.numberLine (elements ++ rest)) (by
      rw [hnumber.toNat, drop_numberLine]
      exact helements.elements rest)
    rw [hlength]
    simp only [List.cons_append, List.append_assoc]
    exact hframe

theorem EncodesAll.elements {text : List UInt8} {values : List RESPValue} (rest : List UInt8) :
    EncodesAll text values → Elements values.length (text ++ rest) (complete values text.length)
  | .nil => .nil rest
  | @EncodesAll.cons text elements value values hvalue hvalues => by
    have hframe := hvalue.frame (elements ++ rest)
    have hcons := Elements.cons hframe (by
      rw [List.drop_left]
      exact hvalues.elements rest)
    rwa [List.length_append, List.append_assoc]
end

theorem Frame.complete_unique {input : List UInt8} {value value' : RESPValue} {n n' : ℕ}
    (h : Frame input (complete value n)) (h' : Frame input (complete value' n')) :
    value = value' ∧ n = n' := by
  have hparse := (respParseInput_of_frame h).symm.trans (respParseInput_of_frame h')
  simp only [FrameOutcome.result, Nat.zero_add] at hparse
  cases hparse
  exact ⟨rfl, rfl⟩

end Redic
