import Redic.Hashmap.Store
import Redic.ReplySize

/-! # The input that a server survives

A round is safe when it ends with one reply and, unless the bytes it read are a valid command, leaves
the tank alone. No command and no arguments break that: whether a round is safe is decided before,
by the bytes in front of the parser, and behind, by a peer that is gone before its reply.
-/
namespace Redic
open Command EventRun FrameOutcome

variable {S : Type} [KeyStore S]

/-- What the buffer holds once the bytes have been read. -/
def received (buffer : ByteBuffer 4096) (bytes : SocketRead) : List UInt8 :=
  bytes.bytes ++ buffer.bytes.drop bytes.bytes.length

theorem store_received (buffer : ByteBuffer 4096) (bytes : SocketRead) :
    ∃ stored, buffer.store 0 bytes.bytes = some stored ∧ stored.bytes = received buffer bytes := by
  have hfits : (buffer.store 0 bytes.bytes).isSome = true :=
    (ByteBuffer.store_isSome _ _ _).mpr (by rw [Nat.zero_add]; exact bytes.length_le)
  obtain ⟨stored, hstore⟩ := Option.isSome_iff_exists.mp hfits
  exact ⟨stored, hstore, ByteBuffer.bytes_of_store_zero hstore⟩

theorem processCommandHelper_of_not_isCommand {server server' : Server S} {clock : CommandClock}
    {command : List UInt8} {args : List (List UInt8)} {reply : RESPValue}
    (h : ¬ IsCommand S command args)
    (hreply : processCommandHelper server clock command args = .ok (server', reply)) :
    server' = server := by
  unfold processCommandHelper at hreply
  split at hreply
  · cases hreply
    rfl
  · rename_i commandDef hfind
    split at hreply
    · cases hreply
    · cases hreply
      rfl
    · rename_i parsed hparse
      have hname := (List.find?_eq_some_iff_append.mp hfind).1
      exact absurd ⟨commandDef, List.mem_of_find?_eq_some hfind, hname, parsed, hparse⟩ h

variable [ConservativeStore S]

theorem round_answered {server : Server S} (h : server.tank.Sized) (clock : CommandClock)
    {buffer : ByteBuffer 4096} {bytes : SocketRead} {command : List UInt8}
    {args : List (List UInt8)} (hwords : HoldsWords (received buffer bytes) (command :: args)) :
    ∃ server' reply written,
      Command.handleClientSocket server clock buffer bytes .returned =
        .ok (server', reply, written) ∧ (¬ IsCommand S command args → server' = server) := by
  obtain ⟨stored, hstore, hstored⟩ := store_received buffer bytes
  obtain ⟨server', reply, written, hreply, -, hround, -⟩ :=
    handleClientSocket_of_holdsWords h clock hstore (hstored ▸ hwords)
  exact ⟨server', reply, written, hround, fun hcommand =>
    processCommandHelper_of_not_isCommand hcommand hreply⟩

/-- With the hash map as it is for a store, a command in the buffer is answered in every state that
the server reaches. -/
theorem hashmapServer_answers {maybeMaster : Bool} {buffers : ℕ → ByteBuffer 4096}
    {events : List RedicEvent} {state : RedicState Hashmap.HashmapStore}
    (hrun : run RedicState.step (RedicState.start maybeMaster buffers) events = some state)
    {client : ℕ} {bytes : SocketRead} {words : List (List UInt8)} (clock : CommandClock)
    (hwords : HoldsWords (received (state.buffers client) bytes) words) :
    ∃ server reply buffer,
      Command.handleClientSocket state.server clock (state.buffers client) bytes .returned =
        .ok (server, reply, buffer) := by
  cases words with
  | nil => exact absurd rfl hwords.1
  | cons command args =>
    obtain ⟨server, reply, buffer, hround, -⟩ :=
      round_answered (RedicState.run_sized hrun) clock hwords
    exact ⟨server, reply, buffer, hround⟩

end Redic
