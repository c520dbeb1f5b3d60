import Redic.Resp.Grammar

/-! # The parser undoes the serializer

The wire bytes of a value are an encoding of it in the grammar, so the parser reads the value back
whatever follows them, and stops at the length the serializer returned.
-/
namespace Redic
open DecimalText FrameOutcome

theorem strlen_of_isLine {string : List UInt8} (h : IsLine string) :
    string.take (strlen string) = string := by
  have htake : string.takeWhile (· ≠ 0) = string := by
    have happend : (string ++ []).takeWhile (· ≠ 0) = string ++ [].takeWhile (· ≠ 0) :=
      List.takeWhile_append_of_pos fun c hc => by simpa using (h c hc).2.2
    simpa using happend
  rw [strlen, htake, List.take_length]

theorem isText_of_isLine {string : List UInt8} (h : IsLine string) :
    ∀ c ∈ string, isText c = true := by
  intro c hc
  obtain ⟨hcr, hlf, -⟩ := h c hc
  simp [isText, hcr, hlf]

theorem wire_length_pos (value : RESPValue) : 0 < value.wire.length := by
  cases value <;> simp [RESPValue.wire]

theorem length_le_wireElements (values : List RESPValue) :
    values.length ≤ (wireElements values).length := by
  induction values with
  | nil => exact Nat.le_refl 0
  | cons value values ih =>
    have hvalue := wire_length_pos value
    rw [wireElements, List.length_append, List.length_cons]
    omega

mutual
theorem encodes_wire (value : RESPValue) (hplain : value.Plain)
    (hsize : value.wire.length < 2 ^ 64) : Encodes value.wire value := by
  cases value with
  | simpleString string =>
    rw [RESPValue.wire, strlen_of_isLine hplain]
    exact .simpleString (isText_of_isLine hplain)
  | simpleError message =>
    rw [RESPValue.wire, strlen_of_isLine hplain]
    exact .simpleError (isText_of_isLine hplain)
  | bulkString data =>
    simp only [RESPValue.wire, List.length_cons, List.length_append] at hsize
    exact .bulkString (lengthText_natText (by omega))
  | integer value => exact .integer (decimalInteger_intText value.toInt)
  | null => exact .null
  | array values =>
    have hcount := length_le_wireElements values
    simp only [RESPValue.wire, List.length_cons, List.length_append] at hsize
    exact .array (lengthText_natText (by omega)) (encodesAll_wire values hplain (by omega))

theorem encodesAll_wire (values : List RESPValue) (hplain : AllPlain values)
    (hsize : (wireElements values).length < 2 ^ 64) : EncodesAll (wireElements values) values := by
  cases values with
  | nil => exact .nil
  | cons value values =>
    rw [wireElements, List.length_append] at hsize
    exact .cons (encodes_wire value hplain.1 (by omega))
      (encodesAll_wire values hplain.2 (by omega))
end

/-- Parsing what was serialized, with anything behind it, gives the value back and stops at the
returned length. -/
theorem respParseInput_respSerializeValue {size : UInt64} {buffer written : ByteBuffer size}
    {value : RESPValue} {length : ℕ} (hplain : value.Plain)
    (hwritten : respSerializeValue buffer value = some (written, length))
    (following : List UInt8) :
    respParseInput (written.bytes.take length ++ following) = .ok (value, length) := by
  rw [respSerializeValue_eq] at hwritten
  obtain ⟨stored, hstore, hsome⟩ := Option.bind_eq_some_iff.mp hwritten
  cases hsome
  have hfits := (ByteBuffer.store_isSome buffer 0 (value.wire ++ [0])).mp (by rw [hstore]; rfl)
  have hsize : value.wire.length < 2 ^ 64 := by
    have hmax := size.toNat_lt
    rw [List.length_append, List.length_singleton] at hfits
    omega
  have hbytes : written.bytes.take value.wire.length = value.wire := by
    rw [ByteBuffer.bytes_of_store_zero hstore, List.append_assoc, List.take_left]
  rw [hbytes, respParseInput_of_frame ((encodes_wire value hplain hsize).frame following)]
  simp only [FrameOutcome.result, Nat.zero_add]

/-- A nested reply in a 64-byte buffer, read back with a stray byte behind it. -/
theorem respParseInput_respSerializeValue_nested :
    ∃ written, respSerializeValue (ByteBuffer.zeroed 64) (.array [.integer (-7),
        .array [.null, .bulkString [13, 10, 0]], .simpleString [79, 75], .array []]) =
          some (written, 34) ∧
      respParseInput (written.bytes.take 34 ++ [33]) = .ok (.array [.integer (-7),
        .array [.null, .bulkString [13, 10, 0]], .simpleString [79, 75], .array []], 34) := by
  have hlength : (respSerializeValue (ByteBuffer.zeroed 64) (.array [.integer (-7),
      .array [.null, .bulkString [13, 10, 0]], .simpleString [79, 75], .array []])).map Prod.snd =
        some 34 := by
    decide +kernel
  obtain ⟨⟨written, length⟩, hwritten, rfl⟩ := Option.map_eq_some_iff.mp hlength
  refine ⟨written, hwritten, respParseInput_respSerializeValue ?_ hwritten [33]⟩
  simp [RESPValue.Plain, AllPlain, IsLine, cr, lf]

end Redic
