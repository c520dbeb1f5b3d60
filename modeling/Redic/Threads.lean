import Redic.Command.Plan
import Redic.ReplySize
import Redic.SepticTank.Linearizable

/-! # The threads of a server

Each connection has a thread with a buffer of its own. It reads, parses and comes to the call of a
handler, which answers at once or waits for the tank among the other threads, and it writes the
reply when it has the result. A step that ends the process has no successor. After its answer to a
client the tank still writes to the client's arena, and copies the mutation from it for the potty.
Until then the client neither parses another command nor closes, so that the mutation is handed on
as a value (`handoffRun_settled`). The last three fields of a state only record what was read, written
and handed to the potty.
-/
namespace Redic
open Command EventRun

variable {S : Type}

/-- A thread that waits for the tank knows what to make of the result. -/
structure Connection where
  accepted : Bool
  buffer : ByteBuffer 4096
  feeding : Option (SepticTankResult → Except ServerStop RESPValue)

structure Threads (S : Type) where
  feeds : FeedState S ℕ
  maybeMaster : Bool
  connections : ℕ → Connection
  /-- Whose response sewer has an address. -/
  callers : ℕ → Option ℕ
  unread : Option ℕ
  heard : List (ℕ × SocketRead)
  written : List (ℕ × List UInt8)
  handed : List SepticTankMutation

/-- The clock reading of a read is the handler's, and the address that of a response sewer. -/
inductive ThreadEvent
  | accept (client : ℕ) (buffer : ByteBuffer 4096)
  | close (client : ℕ)
  | read (client : ℕ) (bytes : SocketRead) (now : Timespec) (address : ℕ)
  | tank (event : FeedEvent ℕ)
  | settle
  | reply (client : ℕ)

/-- Calls of the tank start and end in the threads of the connections. -/
def FeedEvent.isCall {ClientId : Type} : FeedEvent ClientId → Bool
  | .feed .. => true
  | .finish _ => true
  | _ => false

def FeedEvent.isPump {ClientId : Type} : FeedEvent ClientId → Bool
  | .consume _ => true
  | .digest .. => true
  | .respond _ => true
  | .pottyFeed _ => true
  | _ => false

/-- The response sewer into which the pump has put the answer. -/
def TankPumpPhase.answers : TankPumpPhase → TankPumpPhase → Option ℕ
  | .responding message _ _, .consuming => message.cloggedSewer
  | .responding message _ _, .feeding _ => message.cloggedSewer
  | _, _ => none

/-- What the pump hands to the potty when it goes on to the next message. -/
def TankPumpPhase.hands : TankPumpPhase → TankPumpPhase → List SepticTankMutation
  | .feeding mutation, .consuming => [mutation]
  | _, _ => []

/-- What the pump has still to hand to the potty. -/
def TankPumpPhase.owes : TankPumpPhase → List SepticTankMutation
  | .responding _ _ mutation => mutation.toList
  | .feeding mutation => [mutation]
  | _ => []

namespace Threads

def start [KeyStore S] (cap pottyCap : ℕ) (maybeMaster : Bool) : Threads S where
  feeds := feedStart cap pottyCap septicTankCreate
  maybeMaster := maybeMaster
  connections := fun _ => ⟨false, ByteBuffer.zeroed 4096, none⟩
  callers := fun _ => none
  unread := none
  heard := []
  written := []
  handed := []

def setConnection (s : Threads S) (client : ℕ) (connection : Connection) : Threads S :=
  { s with connections := Function.update s.connections client connection }

/-- The buffer of a new thread is as the stack left it. -/
def accept (s : Threads S) (client : ℕ) (buffer : ByteBuffer 4096) : Option (Threads S) :=
  match s.connections client with
  | ⟨false, _, none⟩ => some (s.setConnection client ⟨true, buffer, none⟩)
  | _ => none

def close (s : Threads S) (client : ℕ) : Option (Threads S) :=
  if s.unread = some client then none
  else match s.connections client with
    | ⟨true, buffer, none⟩ => some (s.setConnection client ⟨false, buffer, none⟩)
    | _ => none

def write (s : Threads S) (client : ℕ) (buffer : ByteBuffer 4096) (responseValue : RESPValue) :
    Option (Threads S) :=
  (respSerializeValue buffer responseValue).map fun (buffer, serializedLen) =>
    { s.setConnection client ⟨true, buffer, none⟩ with
      written := s.written ++ [(client, buffer.bytes.take serializedLen)] }

def call (s : Threads S) (client : ℕ) (buffer : ByteBuffer 4096) (address : ℕ) :
    HandlerCall → Option (Threads S)
  | .answer reply => s.write client buffer (reply s.maybeMaster)
  | .feed operation reply =>
    (s.feeds.feed client operation address).map fun feeds =>
      { s.setConnection client ⟨true, buffer, some reply⟩ with
        feeds := feeds
        callers := Function.update s.callers address (some client) }

def bufferWords (buffer : ByteBuffer 4096) : Option (List (List UInt8)) :=
  (parsedValue (respParseInput buffer.bytes)).bind commandWords

def read (s : Threads S) (client : ℕ) (bytes : SocketRead) (now : Timespec) (address : ℕ) :
    Option (Threads S) :=
  if s.unread = some client then none
  else match s.connections client with
    | ⟨true, buffer, none⟩ => do
      let buffer ← buffer.store 0 bytes.bytes
      let command :: args ← bufferWords buffer | none
      let call ← (commandCall now command args).toOption
      { s with heard := s.heard ++ [(client, bytes)] }.call client buffer address call
    | _ => none

/-- The pump goes on when it has settled its last answer. -/
def tank [KeyStore S] (s : Threads S) (event : FeedEvent ℕ) : Option (Threads S) :=
  if event.isCall || event.isPump && s.unread.isSome then none
  else (s.feeds.step event).map fun feeds =>
    { s with
      feeds := feeds
      unread := ((s.feeds.pump.answers feeds.pump).bind s.callers).or s.unread
      handed := s.handed ++ s.feeds.pump.hands feeds.pump }

/-- The tank marks its response as consumed and clones the mutation that it still has to feed. -/
def settle (s : Threads S) : Option (Threads S) :=
  s.unread.map fun _ => { s with unread := none }

/-- The call of the tank returns, and the handler answers. -/
def reply (s : Threads S) (client : ℕ) : Option (Threads S) :=
  match s.connections client, s.feeds.clients client with
  | ⟨_, buffer, some reply⟩, .received _ _ result => do
    let feeds ← s.feeds.finish client
    let responseValue ← (reply result).toOption
    { s with feeds := feeds }.write client buffer responseValue
  | _, _ => none

def step [KeyStore S] (s : Threads S) : ThreadEvent → Option (Threads S)
  | .accept client buffer => s.accept client buffer
  | .close client => s.close client
  | .read client bytes now address => s.read client bytes now address
  | .tank event => s.tank event
  | .settle => s.settle
  | .reply client => s.reply client

end Threads

end Redic
