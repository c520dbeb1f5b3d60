import Redic.Foundation.EventRun
import Redic.Resp.Serializer
import Redic.Resp.Settle

/-! # The connection of a client

One buffer serves a connection for its whole life: every read lands at its start and overwrites
as many bytes as arrived, the reply is serialized into it, and the parser is given its address.
Whether a command depends on the bytes received alone is a matter of those bytes.
-/
namespace Redic
open FrameOutcome EventRun

/-- The result of a `read` that delivers bytes: at least one, and at most the buffer's size. -/
structure SocketRead where
  bytes : List UInt8
  ne_nil : bytes ≠ []
  length_le : bytes.length ≤ 4096

def RESPValue.bulkData : RESPValue → Option (List UInt8)
  | .bulkString data => some data
  | _ => none

def isValidBulkStringArrayCommand (array : List RESPValue) : Bool :=
  !array.isEmpty && array.all fun value => value.bulkData.isSome

/-- The command and its arguments. Every other value ends the server. -/
def commandWords : Option RESPValue → Option (List (List UInt8))
  | some (.array array) =>
    if isValidBulkStringArrayCommand array then some (array.filterMap RESPValue.bulkData) else none
  | _ => none

variable {σ : Type} (processCommandHelper : σ → List UInt8 → List (List UInt8) → σ × RESPValue)

def processCommand (server : σ) (input : Option RESPValue) : Option (σ × RESPValue) :=
  match commandWords input with
  | some (command :: args) => some (processCommandHelper server command args)
  | _ => none

structure ClientSocket (σ : Type) where
  server : σ
  buffer : ByteBuffer 4096

/-- A failed parse leaves the value as it was initialised, of no kind. -/
def parsedValue (result : Except RESPStop (RESPValue × ℕ)) : Option (Option RESPValue) :=
  match result with
  | .ok (value, _) => some (some value)
  | .error (.failure _) => some none
  | .error _ => none

/-- One round of the loop. A round that leaves the memory or the server has no successor. -/
def handleClientSocket (socket : ClientSocket σ) (read : SocketRead) :
    Option (ClientSocket σ) := do
  let buffer ← socket.buffer.store 0 read.bytes
  let value ← parsedValue (respParseInput buffer.bytes)
  let (server, responseValue) ← processCommand processCommandHelper socket.server value
  let (buffer, _) ← respSerializeValue buffer responseValue
  some ⟨server, buffer⟩

/-- The parser stays within the first `n` bytes of the buffer, and buffers that agree on them
parse to the same value or the same failure. -/
def CommandDetermined (n : ℕ) (buffer : ByteBuffer 4096) : Prop :=
  respParseInput (buffer.bytes.take n) ≠ .error .fault ∧
    ∀ other : ByteBuffer 4096, other.bytes.take n = buffer.bytes.take n →
      respParseInput other.bytes = respParseInput buffer.bytes

/-- The command of a read is determined by the bytes the read delivers. -/
def ReadDetermined (socket : ClientSocket σ) (read : SocketRead) : Prop :=
  ∀ buffer, socket.buffer.store 0 read.bytes = some buffer →
    CommandDetermined read.bytes.length buffer

/-- The bytes the read delivers hold a whole value or cannot be one. -/
def ReadSettled (_ : ClientSocket σ) (read : SocketRead) : Prop :=
  ∃ outcome, Frame read.bytes outcome

theorem take_of_store {buffer stored : ByteBuffer 4096} {bytes : List UInt8}
    (h : buffer.store 0 bytes = some stored) : stored.bytes.take bytes.length = bytes := by
  rw [ByteBuffer.bytes_of_store_zero h, List.take_left]

theorem respParseInput_of_take {outcome : FrameOutcome RESPValue} {buffer : List UInt8} {n : ℕ}
    (h : Frame (buffer.take n) outcome) : respParseInput buffer = outcome.result 0 := by
  have happend := h.append (buffer.drop n)
  rw [List.take_append_drop] at happend
  exact respParseInput_of_frame happend

theorem commandDetermined_iff (n : ℕ) (buffer : ByteBuffer 4096) :
    CommandDetermined n buffer ↔ ∃ outcome, Frame (buffer.bytes.take n) outcome := by
  constructor
  · rintro ⟨hinside, -⟩
    exact (respParseInput_ne_fault_iff _).mp hinside
  · rintro ⟨outcome, h⟩
    refine ⟨(respParseInput_ne_fault_iff _).mpr ⟨outcome, h⟩, ?_⟩
    intro other hother
    rw [respParseInput_of_take h, respParseInput_of_take (hother ▸ h)]

theorem readDetermined_iff (socket : ClientSocket σ) (read : SocketRead) :
    ReadDetermined socket read ↔ ReadSettled socket read := by
  constructor
  · intro h
    have hfits : (socket.buffer.store 0 read.bytes).isSome = true :=
      (ByteBuffer.store_isSome _ _ _).mpr (by rw [Nat.zero_add]; exact read.length_le)
    obtain ⟨buffer, hbuffer⟩ := Option.isSome_iff_exists.mp hfits
    have hframe := (commandDetermined_iff _ buffer).mp (h buffer hbuffer)
    rwa [take_of_store hbuffer] at hframe
  · intro h buffer hbuffer
    rw [commandDetermined_iff, take_of_store hbuffer]
    exact h

/-- Along a connection, the commands are determined by the bytes received exactly when every
read is settled by its own bytes. -/
theorem clientSocket_determined_iff (start : ClientSocket σ) (reads : List SocketRead) :
    Guarded (handleClientSocket processCommandHelper) ReadDetermined start reads ↔
      Guarded (handleClientSocket processCommandHelper) ReadSettled start reads := by
  constructor
  · intro h done read socket hdone hrun
    exact (readDetermined_iff socket read).mp (h done read socket hdone hrun)
  · intro h done read socket hdone hrun
    exact (readDetermined_iff socket read).mpr (h done read socket hdone hrun)

/-- `process_get` over a tank that maps keys to strings. -/
def processGet (tank : List (List UInt8 × List UInt8)) (_ : List UInt8)
    (args : List (List UInt8)) : List (List UInt8 × List UInt8) × RESPValue :=
  match args with
  | [key] =>
    match tank.lookup key with
    | none => (tank, .null)
    | some string => (tank, .bulkString string)
  | _ => (tank, .simpleError "Invalid command arguments".toUTF8.toList)

/-- `*2 $3 GET $3 foo`. -/
def readGetFoo : SocketRead :=
  ⟨[42, 50, 13, 10, 36, 51, 13, 10, 71, 69, 84, 13, 10, 36, 51, 13, 10, 102, 111, 111, 13, 10],
    by decide, by decide⟩

/-- `*2 $3 GET`, the key still under way. -/
def readGet : SocketRead :=
  ⟨[42, 50, 13, 10, 36, 51, 13, 10, 71, 69, 84, 13, 10], by decide, by decide⟩

/-- The command taken from the buffer once the reads are served and one more has arrived. -/
def commandAfter (start : ClientSocket (List (List UInt8 × List UInt8))) (reads : List SocketRead)
    (read : SocketRead) : Option (List (List UInt8)) := do
  let socket ← run (handleClientSocket processGet) start reads
  let buffer ← socket.buffer.store 0 read.bytes
  let value ← parsedValue (respParseInput buffer.bytes)
  commandWords value

/-- The parser runs past the received bytes, and the key of the earlier request completes the
command. -/
theorem clientSocket_stale_command :
    commandAfter ⟨[], ByteBuffer.zeroed 4096⟩ [readGetFoo] readGet =
        some [[71, 69, 84], [102, 111, 111]] ∧
      ¬ Guarded (handleClientSocket processGet) ReadDetermined ⟨[], ByteBuffer.zeroed 4096⟩
        [readGetFoo, readGet] := by
  refine ⟨by decide +kernel, ?_⟩
  intro h
  have hfirst : (run (handleClientSocket processGet) ⟨[], ByteBuffer.zeroed 4096⟩
      [readGetFoo]).isSome = true := by
    decide +kernel
  obtain ⟨socket, hsocket⟩ := Option.isSome_iff_exists.mp hfirst
  obtain ⟨buffer, hbuffer⟩ := Option.isSome_iff_exists.mp
    ((ByteBuffer.store_isSome socket.buffer 0 readGet.bytes).mpr (by decide))
  have hinside := (h [readGetFoo] readGet socket List.prefix_rfl hsocket buffer hbuffer).1
  rw [take_of_store hbuffer] at hinside
  exact hinside rfl

end Redic
