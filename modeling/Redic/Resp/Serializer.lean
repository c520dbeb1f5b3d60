import Redic.Foundation.ByteBuffer
import Redic.Foundation.DecimalText
import Redic.Resp.Value

/-! # Writing a value into a buffer

Every function writes at a moving pointer and afterwards adds the length it wrote, summed by
hand, to the position. A write outside the buffer ends the run. `sprintf` closes the digits with
a NUL, which the line end then covers.
-/
namespace Redic
open DecimalText

structure RESPSerializer (size : UInt64) where
  pos : ℕ
  buffer : ByteBuffer size
  deriving DecidableEq, Repr

variable {size : UInt64}

def sprintf (buffer : ByteBuffer size) (ptr : ℕ) (text : List UInt8) :
    Option (ByteBuffer size × ℕ) := do
  let buffer ← buffer.store ptr (text ++ [0])
  some (buffer, text.length)

def serializeNull (serializer : RESPSerializer size) : Option (RESPSerializer size) := do
  let ptr := serializer.pos
  let buffer ← serializer.buffer.store ptr [RESPValueKind.null.marker]
  let buffer ← buffer.store (ptr + 1) [cr]
  let buffer ← buffer.store (ptr + 2) [lf]
  some ⟨serializer.pos + (1 + 2), buffer⟩

/-- The body that simple strings and simple errors share. -/
def serializeLine (kind : RESPValueKind) (serializer : RESPSerializer size)
    (string : List UInt8) : Option (RESPSerializer size) := do
  let ptr := serializer.pos
  let len := strlen string
  let buffer ← serializer.buffer.store ptr [kind.marker]
  let buffer ← buffer.store (ptr + 1) (string.take len)
  let ptr := ptr + (len + 1)
  let buffer ← buffer.store ptr [cr]
  let buffer ← buffer.store (ptr + 1) [lf]
  some ⟨serializer.pos + (1 + len + 2), buffer⟩

def serializeSimpleString (serializer : RESPSerializer size) (string : List UInt8) :
    Option (RESPSerializer size) :=
  serializeLine .simpleString serializer string

def serializeSimpleError (serializer : RESPSerializer size) (message : List UInt8) :
    Option (RESPSerializer size) :=
  serializeLine .simpleError serializer message

def serializeBulkString (serializer : RESPSerializer size) (data : List UInt8) :
    Option (RESPSerializer size) := do
  let ptr := serializer.pos
  let buffer ← serializer.buffer.store ptr [RESPValueKind.bulkString.marker]
  let ptr := ptr + 1
  let (buffer, lenCharCount) ← sprintf buffer ptr (natText data.length)
  let ptr := ptr + lenCharCount
  let buffer ← buffer.store ptr [cr]
  let buffer ← buffer.store (ptr + 1) [lf]
  let ptr := ptr + 2
  let buffer ← buffer.store ptr data
  let ptr := ptr + data.length
  let buffer ← buffer.store ptr [cr]
  let buffer ← buffer.store (ptr + 1) [lf]
  some ⟨serializer.pos + (1 + lenCharCount + 2 + data.length + 2), buffer⟩

def serializeInteger (serializer : RESPSerializer size) (value : Int64) :
    Option (RESPSerializer size) := do
  let ptr := serializer.pos
  let buffer ← serializer.buffer.store ptr [RESPValueKind.integer.marker]
  let ptr := ptr + 1
  let (buffer, valueCharCount) ← sprintf buffer ptr (intText value.toInt)
  let ptr := ptr + valueCharCount
  let buffer ← buffer.store ptr [cr]
  let buffer ← buffer.store (ptr + 1) [lf]
  some ⟨serializer.pos + (1 + valueCharCount + 2), buffer⟩

def serializeArrayHeader (serializer : RESPSerializer size) (length : ℕ) :
    Option (RESPSerializer size) := do
  let ptr := serializer.pos
  let buffer ← serializer.buffer.store ptr [RESPValueKind.array.marker]
  let ptr := ptr + 1
  let (buffer, lenCharCount) ← sprintf buffer ptr (natText length)
  let ptr := ptr + lenCharCount
  let buffer ← buffer.store ptr [cr]
  let buffer ← buffer.store (ptr + 1) [lf]
  some ⟨serializer.pos + (1 + lenCharCount + 2), buffer⟩

mutual
def serializeValueHelper (serializer : RESPSerializer size) :
    RESPValue → Option (RESPSerializer size)
  | .integer value => serializeInteger serializer value
  | .simpleString string => serializeSimpleString serializer string
  | .simpleError message => serializeSimpleError serializer message
  | .bulkString data => serializeBulkString serializer data
  | .null => serializeNull serializer
  | .array array =>
    (serializeArrayHeader serializer array.length).bind fun serializer =>
      serializeElements serializer array

def serializeElements (serializer : RESPSerializer size) :
    List RESPValue → Option (RESPSerializer size)
  | [] => some serializer
  | item :: items =>
    (serializeValueHelper serializer item).bind fun serializer =>
      serializeElements serializer items
end

/-- The buffer with the value and a closing NUL, and the length without it. -/
def respSerializeValue (buffer : ByteBuffer size) (value : RESPValue) :
    Option (ByteBuffer size × ℕ) := do
  let serializer ← serializeValueHelper ⟨0, buffer⟩ value
  let buffer ← serializer.buffer.store serializer.pos [0]
  some (buffer, serializer.pos)

def crlf : List UInt8 := [cr, lf]

mutual
/-- The bytes of a value on the wire. -/
def RESPValue.wire : RESPValue → List UInt8
  | .simpleString string =>
    RESPValueKind.simpleString.marker :: (string.take (strlen string) ++ crlf)
  | .simpleError message =>
    RESPValueKind.simpleError.marker :: (message.take (strlen message) ++ crlf)
  | .bulkString data =>
    RESPValueKind.bulkString.marker :: (natText data.length ++ (crlf ++ (data ++ crlf)))
  | .integer value => RESPValueKind.integer.marker :: (intText value.toInt ++ crlf)
  | .null => RESPValueKind.null.marker :: crlf
  | .array array =>
    RESPValueKind.array.marker :: (natText array.length ++ (crlf ++ wireElements array))

def wireElements : List RESPValue → List UInt8
  | [] => []
  | value :: values => value.wire ++ wireElements values
end

/-- The function writes `bytes` at the position and moves behind them. -/
def Writes (write : RESPSerializer size → Option (RESPSerializer size)) (bytes : List UInt8) :
    Prop :=
  ∀ serializer, write serializer = (serializer.buffer.store serializer.pos bytes).bind
    fun buffer => some ⟨serializer.pos + bytes.length, buffer⟩

section Writes
variable {write next : RESPSerializer size → Option (RESPSerializer size)} {a b : List UInt8}

theorem Writes.comp (ha : Writes write a) (hb : Writes next b) :
    Writes (fun serializer => (write serializer).bind next) (a ++ b) := by
  intro serializer
  dsimp only
  rw [ha serializer, Option.bind_assoc]
  have hnext : (fun buffer => (some (⟨serializer.pos + a.length, buffer⟩ : RESPSerializer size)).bind
      next) = fun buffer => (buffer.store (serializer.pos + a.length) b).bind fun buffer =>
        some ⟨serializer.pos + (a ++ b).length, buffer⟩ := by
    funext buffer
    rw [Option.bind_some, hb, List.length_append, Nat.add_assoc]
  rw [hnext, ByteBuffer.store_bind_store _ rfl]

end Writes

theorem sprintf_bind {α : Type} (buffer : ByteBuffer size) (ptr : ℕ) (text : List UInt8)
    (f : ByteBuffer size × ℕ → Option α) :
    (sprintf buffer ptr text).bind f =
      (buffer.store ptr (text ++ [0])).bind fun buffer => f (buffer, text.length) := by
  rw [sprintf, Option.bind_eq_bind, Option.bind_assoc]
  rfl

theorem serializeNull_writes :
    Writes (serializeNull : RESPSerializer size → _) RESPValue.null.wire := by
  intro serializer
  simp only [serializeNull, Option.bind_eq_bind]
  rw [ByteBuffer.store_bind_store, ByteBuffer.store_bind_store]
  · rfl
  · rfl
  · rfl

theorem strlen_le (string : List UInt8) : strlen string ≤ string.length :=
  (List.takeWhile_sublist _).length_le

theorem serializeLine_writes (kind : RESPValueKind) (string : List UInt8) :
    Writes (fun serializer : RESPSerializer size => serializeLine kind serializer string)
      (kind.marker :: (string.take (strlen string) ++ crlf)) := by
  intro serializer
  have hlen := List.length_take_of_le (strlen_le string)
  have hpos : 1 + strlen string + 2 =
      (kind.marker :: (string.take (strlen string) ++ crlf)).length := by
    simp only [List.length_cons, List.length_append, hlen, crlf, List.length_nil]
    omega
  simp only [serializeLine, Option.bind_eq_bind]
  rw [ByteBuffer.store_bind_store _ (by rfl), ByteBuffer.store_bind_store,
    ByteBuffer.store_bind_store, hpos]
  · simp only [crlf, List.append_assoc, List.cons_append, List.nil_append]
  all_goals
    simp only [List.length_append, List.length_singleton, hlen]
    omega

/-- The marker, a printed number and the line end make one run: the NUL of `sprintf` is gone. -/
theorem store_numeral {α : Type} (buffer : ByteBuffer size) (ptr : ℕ) (marker : UInt8)
    (text : List UInt8) (f : ByteBuffer size → Option α) :
    ((buffer.store ptr [marker]).bind fun buffer =>
      (buffer.store (ptr + 1) (text ++ [0])).bind fun buffer =>
        (buffer.store (ptr + 1 + text.length) [cr]).bind fun buffer =>
          (buffer.store (ptr + 1 + text.length + 1) [lf]).bind f) =
      (buffer.store ptr (marker :: (text ++ crlf))).bind f := by
  rw [ByteBuffer.store_bind_store _ (by rfl), ← List.append_assoc,
    ByteBuffer.store_bind_cover _ _ (by rfl), ByteBuffer.store_bind_store]
  · simp only [crlf, List.append_assoc, List.cons_append, List.nil_append]
  all_goals
    simp only [List.length_append, List.length_singleton]
    omega

theorem serializeInteger_writes (value : Int64) :
    Writes (fun serializer : RESPSerializer size => serializeInteger serializer value)
      (RESPValue.integer value).wire := by
  intro serializer
  simp only [serializeInteger, Option.bind_eq_bind, sprintf_bind, store_numeral, RESPValue.wire]
  simp only [List.length_cons, List.length_append, crlf, List.length_nil, Nat.add_comm,
    Nat.add_left_comm]

theorem serializeArrayHeader_writes (length : ℕ) :
    Writes (fun serializer : RESPSerializer size => serializeArrayHeader serializer length)
      (RESPValueKind.array.marker :: (natText length ++ crlf)) := by
  intro serializer
  simp only [serializeArrayHeader, Option.bind_eq_bind, sprintf_bind, store_numeral]
  simp only [List.length_cons, List.length_append, crlf, List.length_nil, Nat.add_comm,
    Nat.add_left_comm]

theorem serializeBulkString_writes (data : List UInt8) :
    Writes (fun serializer : RESPSerializer size => serializeBulkString serializer data)
      (RESPValue.bulkString data).wire := by
  intro serializer
  have hpos : 1 + (natText data.length).length + 2 + data.length + 2 =
      (RESPValue.bulkString data).wire.length := by
    simp only [RESPValue.wire, crlf, List.length_cons, List.length_append, List.length_nil]
    omega
  simp only [serializeBulkString, Option.bind_eq_bind, sprintf_bind, store_numeral]
  rw [ByteBuffer.store_bind_store, ByteBuffer.store_bind_store, ByteBuffer.store_bind_store, hpos]
  · simp only [RESPValue.wire, crlf, List.append_assoc, List.cons_append,
      List.nil_append]
  all_goals
    simp only [crlf, List.length_cons, List.length_append, List.length_nil]
    omega

mutual
theorem serializeValueHelper_writes (value : RESPValue) :
    Writes (fun serializer : RESPSerializer size => serializeValueHelper serializer value)
      value.wire := by
  cases value with
  | simpleString string => exact serializeLine_writes .simpleString string
  | simpleError message => exact serializeLine_writes .simpleError message
  | bulkString data => exact serializeBulkString_writes data
  | integer value => exact serializeInteger_writes value
  | null => exact serializeNull_writes
  | array array =>
    have helements := serializeElements_writes array (serializeArrayHeader_writes array.length)
    simpa only [serializeValueHelper, RESPValue.wire, List.cons_append, List.append_assoc]
      using helements

theorem serializeElements_writes (values : List RESPValue)
    {write : RESPSerializer size → Option (RESPSerializer size)} {bytes : List UInt8}
    (hwrite : Writes write bytes) :
    Writes (fun serializer => (write serializer).bind fun serializer =>
      serializeElements serializer values) (bytes ++ wireElements values) := by
  cases values with
  | nil =>
    simpa only [serializeElements, wireElements, List.append_nil, Option.bind_fun_some]
      using hwrite
  | cons value values =>
    have hvalue := hwrite.comp (serializeValueHelper_writes value)
    have hvalues := serializeElements_writes values hvalue
    simpa only [serializeElements, wireElements, Option.bind_assoc, List.append_assoc]
      using hvalues
end

/-- A value is written whenever it fits, with room for the closing NUL, and nothing else in the
buffer changes. -/
theorem respSerializeValue_eq (buffer : ByteBuffer size) (value : RESPValue) :
    respSerializeValue buffer value = (buffer.store 0 (value.wire ++ [0])).bind
      fun buffer => some (buffer, value.wire.length) := by
  have hvalue := serializeValueHelper_writes value ⟨0, buffer⟩
  dsimp only at hvalue
  simp only [respSerializeValue, Option.bind_eq_bind, hvalue, Option.bind_assoc, Option.bind_some]
  rw [ByteBuffer.store_bind_store _ rfl, Nat.zero_add]

/-- The buffer holds a value and its NUL exactly when it is longer than the wire bytes. -/
theorem respSerializeValue_isSome (buffer : ByteBuffer size) (value : RESPValue) :
    (respSerializeValue buffer value).isSome = true ↔ value.wire.length < size.toNat := by
  have hstore := buffer.store_isSome 0 (value.wire ++ [0])
  rw [List.length_append, List.length_singleton, Nat.zero_add] at hstore
  rw [respSerializeValue_eq, Nat.lt_iff_add_one_le, ← hstore]
  cases buffer.store 0 (value.wire ++ [0]) <;> simp

end Redic
