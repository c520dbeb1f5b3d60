import Redic.Foundation.RecordStream
import Redic.Potty.Serializer

/-! # Reading the append-only file

`fread` delivers whole items or sets the end-of-file indicator. The error indicator, and whether
the arena has a block of some size, are parameters of the stream position. Only the first byte of
a record may meet the end of the file cleanly.
-/
namespace Redic
open HostWord RecordStream

/-- Every reading result but `POTTY_PARSER_OK`, and two ends of the process: the exit on a tag
that is never written and the crash of `arena_alloc`, which writes through what `malloc` returns. -/
inductive PottyParserStop
  | eof | unexpectedEof | readError | unreachable | noMemory
  deriving DecidableEq, Repr

section Readers
variable (ferror : List UInt8 → Bool) (arenaAlloc : List UInt8 → ℕ → Bool)

def fread (count : ℕ) (failOnEof : Bool) : Reader (List UInt8) UInt8 PottyParserStop :=
  fun stream =>
    if ferror stream then .error .readError
    else if stream.length < count then .error (if failOnEof then .unexpectedEof else .eof)
    else .ok (stream.take count, stream.drop count)

def freadByte (failOnEof : Bool) : Reader UInt8 UInt8 PottyParserStop :=
  (fread ferror 1 failOnEof).map fun bytes => bytes.headD 0

def freadInt64 (failOnEof : Bool) : Reader Int64 UInt8 PottyParserStop :=
  (fread ferror 8 failOnEof).map fun bytes => (UInt64.ofNat (bytesWord bytes)).toInt64

/-- The block for a string. From `2 ^ 64` on the size wraps around in the C code and the string is
written behind the block, so no arena has these sizes. -/
def allocString (len : ℕ) : Reader Unit UInt8 PottyParserStop := fun stream =>
  if arenaAlloc stream (sizeofDataString + len) then .ok ((), stream) else .error .noMemory

def freadString (failOnEof : Bool) : Reader DataString UInt8 PottyParserStop :=
  (fread ferror 8 failOnEof).andThen fun bytes =>
    let len := bytesWord bytes
    (allocString arenaAlloc len).andThen fun _ =>
      if 0 < len then fread ferror len true else .pure []

def freadFields (type : UInt8) : Reader SepticTankMutation UInt8 PottyParserStop :=
  if type = SepticTankOperationType.set.tag then
    (freadInt64 ferror true).andThen fun expiresAt =>
      (freadString ferror arenaAlloc true).andThen fun key =>
        (freadString ferror arenaAlloc true).map fun value => .set ⟨key, value, expiresAt⟩
  else if type = SepticTankOperationType.del.tag then
    (freadString ferror arenaAlloc true).map fun key => .del key
  else if type = SepticTankOperationType.expire.tag then
    (freadString ferror arenaAlloc true).andThen fun key =>
      (freadInt64 ferror true).map fun expiresAt => .expire ⟨key, expiresAt⟩
  else fun _ => .error .unreachable

def pottyParserRead : Reader SepticTankMutation UInt8 PottyParserStop :=
  (freadByte ferror false).andThen (freadFields ferror arenaAlloc)

end Readers

def noReadError : List UInt8 → Bool := fun _ => false

def enoughMemory : List UInt8 → ℕ → Bool := fun _ _ => true

/-- Strings whose length fits the 64-bit length field. -/
def SepticTankMutation.Fits : SepticTankMutation → Prop
  | set mutation => mutation.key.length < 2 ^ 64 ∧ mutation.value.length < 2 ^ 64
  | del key => key.length < 2 ^ 64
  | expire mutation => mutation.key.length < 2 ^ 64

theorem fread_of_le {count : ℕ} {failOnEof : Bool} {stream : List UInt8}
    (h : count ≤ stream.length) :
    fread noReadError count failOnEof stream = .ok (stream.take count, stream.drop count) := by
  simp [fread, noReadError, Nat.not_lt.mpr h]

theorem fread_of_lt {count : ℕ} {failOnEof : Bool} {stream : List UInt8}
    (h : stream.length < count) : fread noReadError count failOnEof stream =
      .error (if failOnEof then .unexpectedEof else .eof) := by
  simp [fread, noReadError, h]

theorem fread_delivers (bytes : List UInt8) :
    Delivers .unexpectedEof (fread noReadError bytes.length true) bytes bytes := by
  constructor
  · intro rest
    rw [fread_of_le (by simp), List.take_left, List.drop_left]
  · intro p hp hne
    have hlt : p.length < bytes.length :=
      Nat.lt_of_le_of_ne hp.length_le (fun h => hne (hp.eq_of_length h))
    rw [fread_of_lt hlt]
    rfl

theorem freadInt64_delivers (value : Int64) :
    Delivers .unexpectedEof (freadInt64 noReadError true) (int64Bytes value) value := by
  have hread := fread_delivers (int64Bytes value)
  have hlen : (int64Bytes value).length = 8 := length_wordBytes 8 _
  have hword : bytesWord (int64Bytes value) = value.toUInt64.toNat :=
    bytesWord_wordBytes value.toUInt64.toNat_lt
  rw [hlen] at hread
  refine hread.map ?_
  rw [hword, UInt64.ofNat_toNat, Int64.toInt64_toUInt64]

theorem freadString_delivers {str : DataString} (h : str.length < 2 ^ 64) :
    Delivers .unexpectedEof (freadString noReadError enoughMemory true) (stringBytes str) str := by
  have hread := fread_delivers (wordBytes 8 str.length)
  rw [length_wordBytes] at hread
  refine hread.andThen ?_
  rw [bytesWord_wordBytes h]
  have hgranted : Delivers .unexpectedEof (allocString enoughMemory str.length) [] () :=
    delivers_pure ()
  refine hgranted.andThen ?_
  cases str with
  | nil => exact delivers_pure []
  | cons c str => exact fread_delivers (c :: str)

theorem freadFields_delivers {mutation : SepticTankMutation} (h : mutation.Fits) :
    Delivers .unexpectedEof (freadFields noReadError enoughMemory mutation.type.tag)
      (mutationFields mutation) mutation := by
  cases mutation with
  | set mutation =>
    have hvalue := (freadString_delivers h.2).map
      (f := fun value => SepticTankMutation.set ⟨mutation.key, value, mutation.expiresAt⟩) rfl
    have hkey := (freadString_delivers h.1).andThen
      (k := fun key => (freadString noReadError enoughMemory true).map fun value =>
        SepticTankMutation.set ⟨key, value, mutation.expiresAt⟩) hvalue
    exact (freadInt64_delivers mutation.expiresAt).andThen hkey
  | del key => exact (freadString_delivers h).map rfl
  | expire mutation =>
    have hexpires := (freadInt64_delivers mutation.expiresAt).map
      (f := fun expiresAt => SepticTankMutation.expire ⟨mutation.key, expiresAt⟩) rfl
    exact (freadString_delivers h).andThen hexpires

/-- Only an empty rest of the file is a clean end: a record is at least its tag. -/
def pottyCodec : Codec SepticTankMutation UInt8 PottyParserStop where
  encode := mutationRecord
  read := pottyParserRead noReadError enoughMemory
  atEnd := .eof
  torn := .unexpectedEof
  valid := SepticTankMutation.Fits
  read_nil := rfl
  read_encode mutation h rest := (freadFields_delivers h).1 rest
  read_torn mutation h p hp hne hnil := by
    cases p with
    | nil => exact absurd rfl hnil
    | cons type p =>
      obtain ⟨htype, hfields⟩ := List.cons_prefix_cons.mp hp
      subst htype
      exact (freadFields_delivers h).2 p hfields (fun he => hne (by rw [he]; rfl))

/-- The records read back from a log cut anywhere: exactly those that lie inside the cut, field
for field, and then a clean end on a record boundary and an unexpected one elsewhere. -/
theorem pottyParser_reads_prefix (mutations : List SepticTankMutation)
    (hfits : ∀ mutation ∈ mutations, mutation.Fits) (file : List UInt8)
    (hfile : file <+: serializedLog mutations) :
    ∃ n, n ≤ mutations.length ∧ serializedLog (mutations.take n) <+: file ∧
      (n < mutations.length → ¬ serializedLog (mutations.take (n + 1)) <+: file) ∧
      ∀ fuel, file.length < fuel →
        readAll (pottyParserRead noReadError enoughMemory) fuel file = (mutations.take n,
          some (if file = serializedLog (mutations.take n) then .eof else .unexpectedEof)) := by
  simp only [serializedLog_eq] at hfile ⊢
  exact pottyCodec.readAll_prefix mutations hfits hfile

/-- A SET with an empty value and a DEL of the empty key, cut inside the DEL's length field. -/
theorem pottyParser_reads_prefix_torn_del :
    let mutations : List SepticTankMutation := [.set ⟨[107], [], -1⟩, .del []]
    let file := (serializedLog mutations).take 29
    ∃ n, n ≤ mutations.length ∧ serializedLog (mutations.take n) <+: file ∧
      (n < mutations.length → ¬ serializedLog (mutations.take (n + 1)) <+: file) ∧
      ∀ fuel, file.length < fuel →
        readAll (pottyParserRead noReadError enoughMemory) fuel file = (mutations.take n,
          some (if file = serializedLog (mutations.take n) then .eof else .unexpectedEof)) := by
  intro mutations file
  refine pottyParser_reads_prefix mutations ?_ file (List.take_prefix 29 _)
  simp [mutations, SepticTankMutation.Fits]

end Redic
