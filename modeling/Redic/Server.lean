import Redic.Command.Effect
import Redic.Potty.Parser
import Redic.Resp.ClientSocket
import Redic.Resp.FrameSize

/-! # The server

Any number of connections share one tank. A round of a connection reads, parses, executes and
replies; a round that ends the process has no successor. A restart replays what the log holds in
whole records, and a log that is cut inside a record stops the boot.
-/
namespace Redic
open Command EventRun FrameOutcome RecordStream

variable {S : Type} [KeyStore S]

namespace Command

def processCommand (server : Server S) (clock : CommandClock) (input : Option RESPValue) :
    Except ServerStop (Server S × RESPValue) :=
  match commandWords input with
  | some (command :: args) => processCommandHelper server clock command args
  | _ => .error .unimplemented

/-- A use of memory that the model does not follow. -/
def inMemory {α : Type} : Option α → Except ServerStop α
  | some a => .ok a
  | none => .error .fault

/-- What becomes of the `write` of a reply. Its result is ignored; to a peer that has gone it raises
`SIGPIPE`. -/
inductive SocketWrite
  | returned | brokenPipe
  deriving DecidableEq, Repr

def socketWrite : SocketWrite → Except ServerStop Unit
  | .returned => .ok ()
  | .brokenPipe => .error .sigpipe

/-- One round that gets bytes: the server, the reply, and the buffer it was written from. -/
def handleClientSocket (server : Server S) (clock : CommandClock) (buffer : ByteBuffer 4096)
    (read : SocketRead) (write : SocketWrite) :
    Except ServerStop (Server S × RESPValue × ByteBuffer 4096) := do
  let buffer ← inMemory (buffer.store 0 read.bytes)
  let value ← inMemory (parsedValue (respParseInput buffer.bytes))
  let (server, responseValue) ← processCommand server clock value
  let (buffer, _) ← inMemory (respSerializeValue buffer responseValue)
  socketWrite write
  .ok (server, responseValue, buffer)

/-- The words are the name of a command and arguments it takes. -/
def IsCommand (S : Type) [KeyStore S] (command : List UInt8) (args : List (List UInt8)) : Prop :=
  ∃ commandDef ∈ (commands : List (CommandDefinition S)),
    strEqCi command (cstr commandDef.name) = true ∧
      ∃ parsed, parseCommandArguments commandDef.argDefs args = .ok (.ok parsed)

end Command

def bootRecords (file : List UInt8) : Option (List SepticTankMutation) :=
  match readAll (pottyParserRead noReadError enoughMemory) (file.length + 1) file with
  | (records, some .eof) => some records
  | _ => none

structure RedicState (S : Type) where
  server : Server S
  buffers : ℕ → ByteBuffer 4096

inductive RedicEvent
  | connect (client : ℕ) (buffer : ByteBuffer 4096)
  | read (client : ℕ) (bytes : SocketRead) (clock : CommandClock) (write : SocketWrite)
  | close (client : ℕ)
  | restart (file : List UInt8)

/-- A server without a log. -/
def RedicState.start (maybeMaster : Bool) (buffers : ℕ → ByteBuffer 4096) : RedicState S :=
  ⟨⟨⟨septicTankCreate, []⟩, maybeMaster⟩, buffers⟩

def RedicState.step (state : RedicState S) : RedicEvent → Option (RedicState S)
  | .connect client buffer =>
    some { state with buffers := Function.update state.buffers client buffer }
  | .read client bytes clock write =>
    match Command.handleClientSocket state.server clock (state.buffers client) bytes write with
    | .error _ => none
    | .ok (server, _, buffer) =>
      some ⟨server, Function.update state.buffers client buffer⟩
  | .close _ => some state
  | .restart file =>
    if file <+: serializedLog state.server.tank.log then
      (bootRecords file).map fun records =>
        { state with server := { state.server with tank := ⟨serverBoot records, records⟩ } }
    else none

/-- The handlers return for every command, so they are a function of the server. -/
def commandHelper (clock : CommandClock) (server : Server S) (command : List UInt8)
    (args : List (List UInt8)) : Server S × RESPValue :=
  match processCommandHelper server clock command args with
  | .ok result => result
  | .error _ => (server, .null)

/-- The round is that of a connection whose commands are executed by the handlers. -/
theorem handleClientSocket_toOption (server : Server S) (clock : CommandClock)
    (buffer : ByteBuffer 4096) (read : SocketRead) :
    (Command.handleClientSocket server clock buffer read .returned).toOption.map
        (fun (server, _, buffer) => (⟨server, buffer⟩ : ClientSocket (Server S))) =
      Redic.handleClientSocket (commandHelper clock) ⟨server, buffer⟩ read := by
  simp only [Command.handleClientSocket, Redic.handleClientSocket, Command.processCommand,
    Redic.processCommand, bind, Except.bind, Option.bind]
  cases buffer.store 0 read.bytes with
  | none => rfl
  | some stored =>
    simp only [inMemory]
    cases parsedValue (respParseInput stored.bytes) with
    | none => rfl
    | some value =>
      simp only []
      cases commandWords value with
      | none => rfl
      | some words =>
        cases words with
        | nil => rfl
        | cons command args =>
          obtain ⟨server', reply, hreply, -⟩ :=
            processCommandHelper_serves server clock command args
          simp only [commandHelper, hreply]
          cases respSerializeValue stored reply with
          | none => rfl
          | some written => rfl

/-- The bytes begin with a complete command of these words. -/
def HoldsWords (bytes : List UInt8) (words : List (List UInt8)) : Prop :=
  words ≠ [] ∧ ∃ length, Frame bytes (complete (.array (words.map .bulkString)) length)

theorem bulkStrings_of_valid {array : List RESPValue}
    (h : isValidBulkStringArrayCommand array = true) :
    array.filterMap RESPValue.bulkData ≠ [] ∧
      (array.filterMap RESPValue.bulkData).map .bulkString = array := by
  simp only [isValidBulkStringArrayCommand, Bool.and_eq_true, Bool.not_eq_true',
    List.isEmpty_eq_false_iff, List.all_eq_true] at h
  obtain ⟨hne, hall⟩ := h
  have heq : (array.filterMap RESPValue.bulkData).map .bulkString = array := by
    clear hne
    induction array with
    | nil => rfl
    | cons value array ih =>
      obtain ⟨hvalue, harray⟩ := List.forall_mem_cons.mp hall
      cases value with
      | bulkString data => exact congrArg (RESPValue.bulkString data :: ·) (ih harray)
      | _ => cases hvalue
  refine ⟨?_, heq⟩
  intro hnil
  rw [hnil] at heq
  exact hne heq.symm

theorem commandWords_bulkStrings {words : List (List UInt8)} (h : words ≠ []) :
    commandWords (some (.array (words.map .bulkString))) = some words := by
  have hvalid : isValidBulkStringArrayCommand (words.map .bulkString) = true := by
    simp [isValidBulkStringArrayCommand, h, RESPValue.bulkData]
  rw [commandWords, if_pos hvalid, List.filterMap_map]
  simp [Function.comp_def, RESPValue.bulkData]

theorem holdsWords_iff {bytes : List UInt8} {words : List (List UInt8)} :
    HoldsWords bytes words ↔ ∃ value, parsedValue (respParseInput bytes) = some value ∧
      commandWords value = some words := by
  constructor
  · rintro ⟨hne, length, hframe⟩
    refine ⟨_, ?_, commandWords_bulkStrings hne⟩
    rw [respParseInput_of_frame hframe]
    rfl
  · rintro ⟨value, hvalue, hwords⟩
    unfold commandWords at hwords
    split at hwords
    · rename_i array
      split at hwords
      · rename_i hvalid
        cases hwords
        obtain ⟨hne, heq⟩ := bulkStrings_of_valid hvalid
        refine ⟨hne, ?_⟩
        rw [heq]
        rcases respParseInput_fault_or_frame bytes with hfault | ⟨outcome, hframe⟩
        · rw [hfault] at hvalue
          cases hvalue
        · rw [respParseInput_of_frame hframe] at hvalue
          cases outcome with
          | complete found length =>
            cases hvalue
            exact ⟨length, hframe⟩
          | broken code offset => cases hvalue
      · cases hwords
    · cases hwords

end Redic
