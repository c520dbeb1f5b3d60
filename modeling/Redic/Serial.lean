import Redic.Threads

/-! # One connection after another

The server whose threads take turns does what the sequential server does, where the round of a
command takes place as the tank digests its operation, or as it is read when the tank is not
asked. Between the two a client's thread is a round behind or a reply behind the sequential
server, and all that a step does to other clients is nothing.
-/
namespace Redic
open Command EventRun

variable {S : Type} [KeyStore S]

def FeedPhase.operation : FeedPhase → Option SepticTankOperation
  | .idle => none
  | .sending operation _ => some operation
  | .awaiting operation _ => some operation
  | .received operation _ _ => some operation

theorem TankPumpPhase.owes_self (phase : TankPumpPhase) :
    phase.owes = phase.hands phase ++ phase.owes := by
  cases phase <;> rfl

namespace FeedState
variable {cap : ℕ} {tank : SepticTank S} {s s' : FeedState S ℕ} {queue : List FeedMessage}
  {done pending : List (ℕ × SepticTankOperation)} {event : FeedEvent ℕ} {ts₁ ts₂ : Timespec}

/-- A step that is not seen from the outside. -/
structure Quiet (s s' : FeedState S ℕ) : Prop where
  tank : s'.tank = s.tank
  served : s'.served = s.served
  returned : s'.returned = s.returned
  operation : ∀ client, (s'.clients client).operation = (s.clients client).operation
  owes : s.pump.owes = s.pump.hands s'.pump ++ s'.pump.owes

omit [KeyStore S] in
theorem operation_update {phase : FeedPhase} {client : ℕ}
    (h : phase.operation = (s.clients client).operation) (other : ℕ) :
    (Function.update s.clients client phase other).operation = (s.clients other).operation := by
  by_cases hne : other = client
  · subst hne
    rw [Function.update_self, h]
  · rw [Function.update_of_ne hne]

theorem Ordered.step_quiet (h : s.Ordered cap tank queue done pending)
    (hcall : event.isCall = false) (hs : s.step event = some s') :
    Quiet s s' ∨ ∃ ts₁ ts₂, event = .digest ts₁ ts₂ := by
  cases event with
  | feed client operation address => cases hcall
  | finish client => cases hcall
  | digest ts₁ ts₂ => exact Or.inr ⟨ts₁, ts₂, rfl⟩
  | send client woken =>
    left
    obtain ⟨operation, address, sewer, hphase, ⟨-, rfl⟩ | ⟨-, rfl⟩⟩ := send_cases hs
    · exact ⟨rfl, rfl, rfl, fun _ => rfl, s.pump.owes_self⟩
    · refine ⟨rfl, ?_, rfl, operation_update (by rw [hphase]; rfl), s.pump.owes_self⟩
      rw [h.served_eq, served]
      dsimp only
      rw [h.enqueued, List.append_assoc, zipWith_served h.length_digested]
  | consume woken =>
    left
    obtain ⟨hpump, sewer, ⟨-, rfl⟩ | ⟨message, -, rfl⟩⟩ := consume_cases hs
    · exact ⟨rfl, rfl, rfl, fun _ => rfl, by rw [hpump]; rfl⟩
    · exact ⟨rfl, rfl, rfl, fun _ => rfl, by rw [hpump]; rfl⟩
  | respond woken =>
    left
    obtain ⟨message, result, mutation, hpump, ⟨-, rfl⟩ | ⟨_, _, _, -, -, ⟨-, rfl⟩ | ⟨-, rfl⟩⟩⟩ :=
      respond_cases hs
    · exact ⟨rfl, rfl, rfl, fun _ => rfl, by rw [hpump]; cases mutation <;> rfl⟩
    · exact ⟨rfl, rfl, rfl, fun _ => rfl, by rw [hpump]; rfl⟩
    · exact ⟨rfl, rfl, rfl, fun _ => rfl, by rw [hpump]; cases mutation <;> rfl⟩
  | receive client woken =>
    left
    obtain ⟨operation, address, _, _, hphase, -, ⟨-, rfl⟩ | ⟨result, -, rfl⟩⟩ := receive_cases hs
    · exact ⟨rfl, rfl, rfl, fun _ => rfl, s.pump.owes_self⟩
    · exact ⟨rfl, rfl, rfl, operation_update (by rw [hphase]; rfl), s.pump.owes_self⟩
  | pottyFeed woken =>
    left
    obtain ⟨mutation, sewer, hpump, ⟨-, rfl⟩ | ⟨-, rfl⟩⟩ := pottyFeed_cases hs
    · exact ⟨rfl, rfl, rfl, fun _ => rfl, by rw [hpump]; rfl⟩
    · exact ⟨rfl, rfl, rfl, fun _ => rfl, by rw [hpump]; rfl⟩
  | pottyConsume woken =>
    left
    obtain ⟨_, _, -, rfl⟩ := pottyConsume_cases hs
    exact ⟨rfl, rfl, rfl, fun _ => rfl, s.pump.owes_self⟩
  | wake thread =>
    left
    cases hs
    exact ⟨rfl, rfl, rfl, fun _ => rfl, s.pump.owes_self⟩

/-- A digest serves a client whose operation was not served. -/
structure Serves (s s' : FeedState S ℕ) (client : ℕ) (input : DigestInput) : Prop where
  waits : (s.clients client).operation = some input.operation
  unserved : ofClient client s.served = ofClient client s.returned
  tank : s'.tank = (s.tank.digest input).1
  served : s'.served = s.served ++ [(client, input.operation, (s.tank.digest input).2.1)]
  returned : s'.returned = s.returned
  clients : s'.clients = s.clients
  owed : s.pump.owes = []
  hands : s.pump.hands s'.pump = []
  owes : s'.pump.owes = (s.tank.digest input).2.2.toList

theorem Ordered.digest_serves (h : s.Ordered cap tank queue done pending)
    (hs : s.digest ts₁ ts₂ = some s') :
    ∃ client operation, Serves s s' client ⟨operation, ts₁, ts₂⟩ := by
  obtain ⟨message, hpump, hs'⟩ := digest_cases hs
  have hcarried := h.carried
  rw [hpump] at hcarried
  cases pending with
  | nil => cases hcarried
  | cons call pending =>
    obtain ⟨client, operation⟩ := call
    obtain ⟨hmessage, -⟩ := List.cons.inj hcarried
    obtain ⟨address, hphase⟩ := h.waits (client, operation) List.mem_cons_self
    have haccount := h.accounts client
    rw [hphase] at haccount
    subst hmessage
    refine ⟨client, operation, ?_⟩
    constructor
    · rw [hphase]
      rfl
    · cases haccount with
      | queued _ _ hserved => exact hserved
      | answering hgone => exact absurd List.mem_cons_self hgone
      | answered hgone => exact absurd List.mem_cons_self hgone
    · rw [hs']
      rfl
    · rw [h.served_eq, hs', served]
      dsimp only
      rw [h.enqueued, List.zipWith_append h.length_digested, List.zipWith_cons_cons,
        List.zipWith_nil_right]
      rfl
    · rw [hs']
    · rw [hs']
    · rw [hpump]
      rfl
    · rw [hs', hpump]
      rfl
    · rw [hs']
      rfl

end FeedState

/-- The sequential server, with what its clients sent and were sent. -/
structure SerialServer (S : Type) where
  state : RedicState S
  heard : List (ℕ × SocketRead)
  written : List (ℕ × List UInt8)

def RedicEvent.heard : RedicEvent → List (ℕ × SocketRead)
  | .read client bytes _ _ => [(client, bytes)]
  | _ => []

def RedicState.written (state : RedicState S) : RedicEvent → List (ℕ × List UInt8)
  | .read client bytes clock write =>
    match Command.handleClientSocket state.server clock (state.buffers client) bytes write with
    | .error _ => []
    | .ok (_, responseValue, _) => [(client, responseValue.wire)]
  | _ => []

namespace SerialServer

def start (maybeMaster : Bool) : SerialServer S :=
  ⟨.start maybeMaster fun _ => ByteBuffer.zeroed 4096, [], []⟩

def step (t : SerialServer S) (event : RedicEvent) : Option (SerialServer S) :=
  (t.state.step event).map fun state =>
    ⟨state, t.heard ++ event.heard, t.written ++ t.state.written event⟩

theorem step_read {t : SerialServer S} {client : ℕ} {bytes : SocketRead} {clock : CommandClock}
    {server : Server S} {responseValue : RESPValue} {buffer : ByteBuffer 4096}
    (h : Command.handleClientSocket t.state.server clock (t.state.buffers client) bytes .returned =
      .ok (server, responseValue, buffer)) :
    t.step (.read client bytes clock .returned) =
      some ⟨⟨server, Function.update t.state.buffers client buffer⟩, t.heard ++ [(client, bytes)],
        t.written ++ [(client, responseValue.wire)]⟩ := by
  simp only [step, RedicState.step, RedicState.written, h]
  rfl

end SerialServer

namespace Threads
variable {s s' : Threads S} {t t' : SerialServer S} {client : ℕ}

inductive Account (s : Threads S) (t : SerialServer S) (client : ℕ) :
    Option (SepticTankResult → Except ServerStop RESPValue) → Prop
  | idle (phase : (s.feeds.clients client).operation = none)
      (heard : ofClient client t.heard = ofClient client s.heard)
      (written : ofClient client t.written = ofClient client s.written)
      (buffer : t.state.buffers client = (s.connections client).buffer) :
      Account s t client none
  | waiting {bytes : SocketRead} {now : Timespec} {command : List UInt8}
      {args : List (List UInt8)} {operation : SepticTankOperation}
      {reply : SepticTankResult → Except ServerStop RESPValue}
      (phase : (s.feeds.clients client).operation = some operation)
      (served : ofClient client s.feeds.served = ofClient client s.feeds.returned)
      (heard : ofClient client s.heard = ofClient client t.heard ++ [(client, bytes)])
      (written : ofClient client t.written = ofClient client s.written)
      (buffer : (t.state.buffers client).store 0 bytes.bytes = some (s.connections client).buffer)
      (words : HoldsWords (s.connections client).buffer.bytes (command :: args))
      (call : commandCall now command args = .ok (.feed operation reply)) :
      Account s t client (some reply)
  | answered {operation : SepticTankOperation} {result : SepticTankResult}
      {reply : SepticTankResult → Except ServerStop RESPValue} {responseValue : RESPValue}
      (phase : (s.feeds.clients client).operation = some operation)
      (served : ofClient client s.feeds.served =
        ofClient client s.feeds.returned ++ [(client, operation, result)])
      (heard : ofClient client t.heard = ofClient client s.heard)
      (written : ofClient client t.written =
        ofClient client s.written ++ [(client, responseValue.wire)])
      (answer : reply result = .ok responseValue)
      (buffer : respSerializeValue (s.connections client).buffer responseValue =
        some (t.state.buffers client, responseValue.wire.length)) :
      Account s t client (some reply)

structure SameFor (s s' : Threads S) (t t' : SerialServer S) (client : ℕ) : Prop where
  connection : s'.connections client = s.connections client
  phase : (s'.feeds.clients client).operation = (s.feeds.clients client).operation
  served : ofClient client s'.feeds.served = ofClient client s.feeds.served
  returned : ofClient client s'.feeds.returned = ofClient client s.feeds.returned
  heard : ofClient client s'.heard = ofClient client s.heard
  written : ofClient client s'.written = ofClient client s.written
  serialHeard : ofClient client t'.heard = ofClient client t.heard
  serialWritten : ofClient client t'.written = ofClient client t.written
  buffer : t'.state.buffers client = t.state.buffers client

omit [KeyStore S] in
theorem Account.frame (h : s.Account t client (s.connections client).feeding)
    (same : SameFor s s' t t' client) :
    s'.Account t' client (s'.connections client).feeding := by
  obtain ⟨hconnection, hphase, hserved, hreturned, hheard, hwritten, hheard', hwritten', hbuffer⟩ :=
    same
  rw [hconnection]
  generalize hf : (s.connections client).feeding = feeding at h ⊢
  cases h with
  | idle phase heard written buffer =>
    exact .idle (hphase.trans phase) (by rw [hheard', hheard, heard])
      (by rw [hwritten', hwritten, written]) (by rw [hbuffer, hconnection, buffer])
  | waiting phase served heard written buffer words call =>
    exact .waiting (hphase.trans phase) (by rw [hserved, hreturned, served])
      (by rw [hheard, hheard', heard]) (by rw [hwritten', hwritten, written])
      (by rw [hbuffer, hconnection, buffer]) (by rw [hconnection]; exact words) call
  | answered phase served heard written answer buffer =>
    exact .answered (hphase.trans phase) (by rw [hserved, hreturned, served])
      (by rw [hheard', hheard, heard]) (by rw [hwritten', hwritten, written]) answer
      (by rw [hconnection, hbuffer, buffer])

section Cases
variable {bytes : SocketRead} {now : Timespec} {address : ℕ} {buffer : ByteBuffer 4096}
  {responseValue : RESPValue}

omit [KeyStore S] in
theorem bufferWords_eq_some {words : List (List UInt8)} :
    bufferWords buffer = some words ↔ HoldsWords buffer.bytes words := by
  rw [holdsWords_iff, bufferWords, Option.bind_eq_some_iff]

omit [KeyStore S] in
theorem write_cases (h : s.write client buffer responseValue = some s') :
    ∃ written, respSerializeValue buffer responseValue =
        some (written, responseValue.wire.length) ∧
      s' = { s.setConnection client ⟨true, written, none⟩ with
        written := s.written ++ [(client, responseValue.wire)] } := by
  obtain ⟨⟨written, length⟩, hwritten, rfl⟩ := Option.map_eq_some_iff.mp h
  have hstored := hwritten
  rw [respSerializeValue_eq] at hstored
  obtain ⟨stored, hstore, heq⟩ := Option.bind_eq_some_iff.mp hstored
  cases heq
  refine ⟨written, hwritten, ?_⟩
  dsimp only
  rw [ByteBuffer.bytes_of_store_zero hstore, List.append_assoc, List.take_left]

omit [KeyStore S] in
theorem read_cases (h : s.read client bytes now address = some s') :
    ∃ before stored command args call, s.connections client = ⟨true, before, none⟩ ∧
      before.store 0 bytes.bytes = some stored ∧ HoldsWords stored.bytes (command :: args) ∧
      commandCall now command args = .ok call ∧
      ({ s with heard := s.heard ++ [(client, bytes)] } : Threads S).call client stored address
        call = some s' := by
  unfold read at h
  split at h
  · cases h
  · split at h
    · rename_i before hconnection
      obtain ⟨stored, hstore, h⟩ := Option.bind_eq_some_iff.mp h
      obtain ⟨words, hwords, h⟩ := Option.bind_eq_some_iff.mp h
      cases words with
      | nil => cases h
      | cons command args =>
        obtain ⟨call, hcall, h⟩ := Option.bind_eq_some_iff.mp h
        refine ⟨before, stored, command, args, call, hconnection, hstore,
          bufferWords_eq_some.mp hwords, eq_ok_of_toOption hcall, h⟩
    · cases h

omit [KeyStore S] in
theorem close_cases (h : s.close client = some s') :
    ∃ buffer, s.connections client = ⟨true, buffer, none⟩ ∧
      s' = s.setConnection client ⟨false, buffer, none⟩ := by
  unfold close at h
  split at h
  · cases h
  · split at h
    · rename_i buffer hconnection
      cases h
      exact ⟨buffer, hconnection, rfl⟩
    · cases h

theorem tank_cases {event : FeedEvent ℕ} (h : s.tank event = some s') :
    event.isCall = false ∧ ∃ feeds unread, s.feeds.step event = some feeds ∧ s' = { s with
      feeds := feeds
      unread := unread
      handed := s.handed ++ s.feeds.pump.hands feeds.pump } := by
  unfold tank at h
  split at h
  · cases h
  · rename_i hevent
    rw [Bool.or_eq_true, not_or] at hevent
    obtain ⟨feeds, hstep, rfl⟩ := Option.map_eq_some_iff.mp h
    exact ⟨Bool.eq_false_iff.mpr hevent.1, feeds, _, hstep, rfl⟩

omit [KeyStore S] in
theorem reply_cases (h : s.reply client = some s') :
    ∃ accepted buffer reply operation address result feeds responseValue,
      s.connections client = ⟨accepted, buffer, some reply⟩ ∧
      s.feeds.clients client = .received operation address result ∧
      s.feeds.finish client = some feeds ∧ reply result = .ok responseValue ∧
      ({ s with feeds := feeds } : Threads S).write client buffer responseValue = some s' := by
  unfold reply at h
  split at h
  · rename_i accepted buffer reply operation address result hconnection hphase
    obtain ⟨feeds, hfinish, h⟩ := Option.bind_eq_some_iff.mp h
    obtain ⟨responseValue, hanswer, h⟩ := Option.bind_eq_some_iff.mp h
    refine ⟨accepted, buffer, reply, operation, address, result, feeds, responseValue, hconnection,
      hphase, hfinish, eq_ok_of_toOption hanswer, h⟩
  · cases h

end Cases

variable [ConservativeStore S]

/-- The sequential server has been through the rounds of the threads, as far as the tank has. -/
structure Serial (cap pottyCap : ℕ) (s : Threads S) (t : SerialServer S) : Prop where
  inv : s.feeds.Inv cap pottyCap septicTankCreate
  sized : t.state.server.tank.Sized
  tank : t.state.server.tank.tank = s.feeds.tank
  log : t.state.server.tank.log = s.handed ++ s.feeds.pump.owes
  maybeMaster : t.state.server.maybeMaster = s.maybeMaster
  accounts : ∀ client, s.Account t client (s.connections client).feeding

variable {cap pottyCap : ℕ}

def Matched (cap pottyCap : ℕ) (s' : Threads S) (t : SerialServer S) : Prop :=
  ∃ rounds t', run SerialServer.step t rounds = some t' ∧ s'.Serial cap pottyCap t'

theorem Serial.matched (h : s'.Serial cap pottyCap t) : s'.Matched cap pottyCap t :=
  ⟨[], t, rfl, h⟩

theorem Serial.matched_round {event : RedicEvent} (hstep : t.step event = some t')
    (h : s'.Serial cap pottyCap t') : s'.Matched cap pottyCap t := by
  refine ⟨[event], t', ?_, h⟩
  rw [run, List.foldlM_cons, hstep]
  rfl

/-- A command in the buffer is a round of the sequential server, by way of its call. -/
theorem Serial.round (h : s.Serial cap pottyCap t) (clock : CommandClock) {bytes : SocketRead}
    {stored : ByteBuffer 4096} (hstore : (t.state.buffers client).store 0 bytes.bytes = some stored)
    {command : List UInt8} {args : List (List UInt8)}
    (hwords : HoldsWords stored.bytes (command :: args)) {call : HandlerCall}
    (hcall : commandCall clock.now command args = .ok call) :
    ∃ server responseValue written,
      call.execute t.state.server clock = .ok (server, responseValue) ∧
      respSerializeValue stored responseValue = some (written, responseValue.wire.length) ∧
      t.step (.read client bytes clock .returned) =
        some ⟨⟨server, Function.update t.state.buffers client written⟩,
          t.heard ++ [(client, bytes)], t.written ++ [(client, responseValue.wire)]⟩ ∧
      server.tank.Sized := by
  obtain ⟨server, responseValue, written, hreply, hwritten, hround, hsized⟩ :=
    handleClientSocket_of_holdsWords h.sized clock hstore hwords
  rw [processCommandHelper_eq, hcall] at hreply
  exact ⟨server, responseValue, written, hreply, hwritten, SerialServer.step_read hround, hsized⟩

theorem Serial.accept (h : s.Serial cap pottyCap t) {buffer : ByteBuffer 4096}
    (hs : s.accept client buffer = some s') : s'.Matched cap pottyCap t := by
  unfold Threads.accept at hs
  split at hs
  · rename_i before hconnection
    cases hs
    have hstep : t.step (.connect client buffer) = some ⟨{ t.state with
        buffers := Function.update t.state.buffers client buffer }, t.heard ++ [], t.written ++ []⟩ :=
      rfl
    rw [List.append_nil, List.append_nil] at hstep
    refine Serial.matched_round hstep ⟨h.inv, h.sized, h.tank, h.log, h.maybeMaster, ?_⟩
    intro other
    by_cases hne : other = client
    · subst hne
      have haccount := h.accounts other
      rw [hconnection] at haccount
      have hself : (s.setConnection other ⟨true, buffer, none⟩).connections other =
          ⟨true, buffer, none⟩ := Function.update_self _ _ _
      rw [hself]
      cases haccount with
      | idle phase heard written _ =>
        exact .idle phase heard written (by rw [hself]; exact Function.update_self _ _ _)
    · exact (h.accounts other).frame ⟨Function.update_of_ne hne _ _, rfl, rfl, rfl, rfl, rfl, rfl, rfl,
        Function.update_of_ne hne _ _⟩
  · cases hs

theorem Serial.close (h : s.Serial cap pottyCap t) (hs : s.close client = some s') :
    s'.Matched cap pottyCap t := by
  obtain ⟨buffer, hconnection, rfl⟩ := close_cases hs
  refine Serial.matched ⟨h.inv, h.sized, h.tank, h.log, h.maybeMaster, ?_⟩
  intro other
  by_cases hne : other = client
  · subst hne
    have haccount := h.accounts other
    rw [hconnection] at haccount
    have hself : (s.setConnection other ⟨false, buffer, none⟩).connections other =
        ⟨false, buffer, none⟩ := Function.update_self _ _ _
    rw [hself]
    cases haccount with
    | idle phase heard written held =>
      exact .idle phase heard written (by rw [hself, held, hconnection])
  · exact (h.accounts other).frame ⟨Function.update_of_ne hne _ _, rfl, rfl, rfl, rfl, rfl, rfl, rfl,
      rfl⟩

theorem Serial.read (h : s.Serial cap pottyCap t) {bytes : SocketRead} {now : Timespec}
    {address : ℕ} (hs : s.read client bytes now address = some s') : s'.Matched cap pottyCap t := by
  obtain ⟨before, stored, command, args, call, hconnection, hstore, hwords, hcall, hs⟩ :=
    read_cases hs
  have haccount := h.accounts client
  rw [hconnection] at haccount
  cases haccount with
  | idle phase heard written held =>
    have hbefore : t.state.buffers client = before := held.trans (congrArg _ hconnection)
    rw [← hbefore] at hstore
    cases call with
    | answer reply =>
      -- no other thread can tell where the round takes place
      obtain ⟨buffer, hbuffer, rfl⟩ := write_cases hs
      obtain ⟨server, responseValue, buffer', hexecute, hbuffer', hstep, hsized⟩ :=
        h.round ⟨now, now, now⟩ hstore hwords hcall
      cases hexecute
      rw [h.maybeMaster] at hbuffer' hstep
      cases hbuffer.symm.trans hbuffer'
      refine Serial.matched_round hstep ⟨h.inv, hsized, h.tank, h.log, h.maybeMaster, ?_⟩
      intro other
      by_cases hne : other = client
      · subst hne
        dsimp only [setConnection]
        rw [Function.update_self]
        refine .idle phase ?_ ?_ ?_
        · rw [ofClient_self, ofClient_self, heard]
        · rw [ofClient_self, ofClient_self, written]
        · dsimp only
          rw [Function.update_self, Function.update_self]
      · exact (h.accounts other).frame ⟨Function.update_of_ne hne _ _, rfl, rfl, rfl,
          ofClient_other (Ne.symm hne) _ _, ofClient_other (Ne.symm hne) _ _,
          ofClient_other (Ne.symm hne) _ _, ofClient_other (Ne.symm hne) _ _,
          Function.update_of_ne hne _ _⟩
    | feed operation reply =>
      obtain ⟨feeds, hfeed, rfl⟩ := Option.map_eq_some_iff.mp hs
      have hstep : s.feeds.step (.feed client operation address) = some feeds := hfeed
      have hinv := h.inv.step hstep
      obtain ⟨queue, done, pending, hordered⟩ := h.inv.order
      have hcalls := hordered.accounts client
      obtain ⟨hidle, -, rfl⟩ := FeedState.feed_cases hfeed
      rw [hidle] at hcalls
      refine Serial.matched ⟨hinv, h.sized, h.tank, h.log, h.maybeMaster, ?_⟩
      intro other
      by_cases hne : other = client
      · subst hne
        dsimp only [setConnection]
        rw [Function.update_self]
        cases hcalls with
        | idle _ _ served =>
          have hheard : ofClient other (s.heard ++ [(other, bytes)]) =
              ofClient other t.heard ++ [(other, bytes)] := by rw [ofClient_self, heard]
          refine .waiting ?_ served hheard written ?_ ?_ hcall
          · dsimp only
            rw [Function.update_self]
            rfl
          · dsimp only
            rw [Function.update_self]
            exact hstore
          · dsimp only
            rw [Function.update_self]
            exact hwords
      · refine (h.accounts other).frame ⟨Function.update_of_ne hne _ _, ?_, rfl, rfl,
          ofClient_other (Ne.symm hne) _ _, rfl, rfl, rfl, rfl⟩
        dsimp only
        rw [Function.update_of_ne hne]

theorem Serial.received (h : s.Serial cap pottyCap t) {operation : SepticTankOperation} {address : ℕ}
    {result : SepticTankResult}
    (hphase : s.feeds.clients client = .received operation address result) :
    ∃ reply responseValue, (s.connections client).feeding = some reply ∧
      reply result = .ok responseValue ∧
      respSerializeValue (s.connections client).buffer responseValue =
        some (t.state.buffers client, responseValue.wire.length) ∧
      ofClient client t.heard = ofClient client s.heard ∧
      ofClient client t.written = ofClient client s.written ++ [(client, responseValue.wire)] := by
  obtain ⟨queue, done, pending, hordered⟩ := h.inv.order
  have hcalls := hordered.accounts client
  rw [hphase] at hcalls
  have haccount := h.accounts client
  generalize hfeeding : (s.connections client).feeding = feeding at haccount
  cases hcalls with
  | received _ _ returns =>
    cases haccount with
    | idle phase =>
      rw [hphase] at phase
      cases phase
    | waiting _ served =>
      rw [returns] at served
      cases List.append_right_eq_self.mp served
    | answered _ served heard written answer buffer =>
      cases List.append_cancel_left (returns.symm.trans served)
      exact ⟨_, _, rfl, answer, buffer, heard, written⟩

theorem Serial.reply (h : s.Serial cap pottyCap t) (hs : s.reply client = some s') :
    s'.Matched cap pottyCap t := by
  obtain ⟨accepted, buffer, reply, operation, address, result, feeds, responseValue, hconnection,
    hphase, hfinish, hanswer, hs⟩ := reply_cases hs
  obtain ⟨reply', responseValue', hfeeding, hanswer', held, heard, written⟩ := h.received hphase
  rw [hconnection] at hfeeding held
  cases hfeeding
  cases hanswer.symm.trans hanswer'
  have hstep : s.feeds.step (.finish client) = some feeds := hfinish
  have hinv := h.inv.step hstep
  obtain ⟨_, _, _, hphase', rfl⟩ := FeedState.finish_cases hfinish
  cases hphase.symm.trans hphase'
  obtain ⟨stored, hstored, rfl⟩ := write_cases hs
  have hbuffer := congrArg Prod.fst (Option.some.inj (hstored.symm.trans held))
  refine Serial.matched ⟨hinv, h.sized, h.tank, h.log, h.maybeMaster, ?_⟩
  intro other
  by_cases hne : other = client
  · subst hne
    dsimp only [setConnection]
    rw [Function.update_self]
    refine .idle ?_ heard ?_ ?_
    · dsimp only
      rw [Function.update_self]
      rfl
    · rw [ofClient_self, written]
    · dsimp only
      rw [Function.update_self]
      exact hbuffer.symm
  · refine (h.accounts other).frame ⟨Function.update_of_ne hne _ _, ?_, rfl,
      ofClient_other (Ne.symm hne) _ _, rfl, ofClient_other (Ne.symm hne) _ _, rfl, rfl, rfl⟩
    dsimp only [setConnection]
    rw [Function.update_of_ne hne]

/-- The round of a command takes place as the tank digests its operation. -/
theorem Serial.digest (h : s.Serial cap pottyCap t) {ts₁ ts₂ : Timespec} {feeds : FeedState S ℕ}
    (hs : s.feeds.step (.digest ts₁ ts₂) = some feeds) (unread : Option ℕ) :
    ({ s with
      feeds := feeds
      unread := unread
      handed := s.handed ++ s.feeds.pump.hands feeds.pump } :
        Threads S).Matched cap pottyCap t := by
  have hinv := h.inv.step hs
  obtain ⟨queue, done, pending, hordered⟩ := h.inv.order
  obtain ⟨client, operation, hserves⟩ := hordered.digest_serves hs
  have haccount := h.accounts client
  generalize hfeeding : (s.connections client).feeding = feeding at haccount
  cases haccount with
  | idle phase => cases phase.symm.trans hserves.waits
  | answered _ served =>
    rw [hserves.unserved] at served
    cases List.append_right_eq_self.mp served.symm
  | waiting phase served heard written held words call =>
    rename_i bytes now command args operation' reply
    cases phase.symm.trans hserves.waits
    obtain ⟨server, responseValue, buffer, hexecute, hbuffer, hstep, hsized⟩ :=
      h.round ⟨now, ts₁, ts₂⟩ held words call
    obtain ⟨rfl, hreply⟩ := HandlerCall.execute_feed hexecute
    have hinput : t.state.server.tank.tank.digest ⟨operation, ts₁, ts₂⟩ =
        s.feeds.tank.digest ⟨operation, ts₁, ts₂⟩ := by
      rw [h.tank]
    have hresult : (septicTankFeed t.state.server operation ⟨now, ts₁, ts₂⟩).2 =
        (s.feeds.tank.digest ⟨operation, ts₁, ts₂⟩).2.1 := by
      rw [← hinput]
      rfl
    rw [hresult] at hreply
    refine Serial.matched_round hstep ⟨hinv, hsized, ?_, ?_, h.maybeMaster, ?_⟩
    · rw [hserves.tank, ← hinput]
      rfl
    · have hlog : (septicTankFeed t.state.server operation ⟨now, ts₁, ts₂⟩).1.tank.log =
          t.state.server.tank.log ++
            (t.state.server.tank.tank.digest ⟨operation, ts₁, ts₂⟩).2.2.toList := rfl
      dsimp only
      rw [hlog, h.log, hserves.owed, hserves.hands, hserves.owes, hinput, List.append_nil]
    · intro other
      dsimp only
      by_cases hne : other = client
      · subst hne
        rw [hfeeding]
        have hphase : (feeds.clients other).operation = some operation := by
          rw [hserves.clients]
          exact phase
        refine .answered hphase ?_ ?_ ?_ hreply ?_
        · dsimp only
          rw [hserves.served, ofClient_self, hserves.unserved, hserves.returned]
        · rw [ofClient_self, heard]
        · rw [ofClient_self, written]
        · dsimp only
          rw [Function.update_self]
          exact hbuffer
      · refine (h.accounts other).frame ⟨rfl, ?_, ?_, ?_, rfl, rfl,
          ofClient_other (Ne.symm hne) _ _, ofClient_other (Ne.symm hne) _ _,
          Function.update_of_ne hne _ _⟩
        · rw [hserves.clients]
        · rw [hserves.served]
          exact ofClient_other (Ne.symm hne) _ _
        · rw [hserves.returned]

theorem Serial.tankStep (h : s.Serial cap pottyCap t) {event : FeedEvent ℕ}
    (hs : s.tank event = some s') : s'.Matched cap pottyCap t := by
  obtain ⟨hcall, feeds, unread, hstep, rfl⟩ := tank_cases hs
  obtain ⟨queue, done, pending, hordered⟩ := h.inv.order
  rcases hordered.step_quiet hcall hstep with hquiet | ⟨ts₁, ts₂, rfl⟩
  · refine Serial.matched ⟨h.inv.step hstep, h.sized, h.tank.trans hquiet.tank.symm, ?_,
      h.maybeMaster, fun client => (h.accounts client).frame ⟨rfl, hquiet.operation client, ?_, ?_,
        rfl, rfl, rfl, rfl, rfl⟩⟩
    · rw [h.log, hquiet.owes, List.append_assoc]
    · rw [hquiet.served]
    · rw [hquiet.returned]
  · exact h.digest hstep unread

theorem Serial.unread (h : s.Serial cap pottyCap t) (unread : Option ℕ) :
    ({ s with unread := unread } : Threads S).Serial cap pottyCap t :=
  ⟨h.inv, h.sized, h.tank, h.log, h.maybeMaster,
    fun client => (h.accounts client).frame ⟨rfl, rfl, rfl, rfl, rfl, rfl, rfl, rfl, rfl⟩⟩

theorem simulates (cap pottyCap : ℕ) :
    Simulates (Threads.step (S := S)) SerialServer.step (Serial cap pottyCap) := by
  intro s t event s' h hs
  cases event with
  | accept client buffer => exact h.accept hs
  | close client => exact h.close hs
  | read client bytes now address => exact h.read hs
  | tank event => exact h.tankStep hs
  | settle =>
    obtain ⟨_, -, rfl⟩ := Option.map_eq_some_iff.mp hs
    exact Serial.matched (h.unread none)
  | reply client => exact h.reply hs

theorem start_serial (hcap : 0 < cap) (hpotty : 0 < pottyCap) (maybeMaster : Bool) :
    (start cap pottyCap maybeMaster : Threads S).Serial cap pottyCap (.start maybeMaster) where
  inv := FeedState.feedStart_inv hcap hpotty septicTankCreate
  sized := serverBoot_sized fun _ hmem => absurd hmem List.not_mem_nil
  tank := rfl
  log := rfl
  maybeMaster := rfl
  accounts _ := .idle rfl rfl rfl rfl

/-- What clients see of the threads. -/
structure Agrees (s : Threads S) (t : SerialServer S) : Prop where
  tank : t.state.server.tank.tank = s.feeds.tank
  log : t.state.server.tank.log = s.handed ++ s.feeds.pump.owes
  heard : ∀ client, ofClient client t.heard <+: ofClient client s.heard
  written : ∀ client, ofClient client s.written <+: ofClient client t.written
  idle : ∀ client, (s.connections client).feeding = none →
    ofClient client t.heard = ofClient client s.heard ∧
      ofClient client t.written = ofClient client s.written ∧
      t.state.buffers client = (s.connections client).buffer

theorem Serial.agrees (h : s.Serial cap pottyCap t) : s.Agrees t where
  tank := h.tank
  log := h.log
  heard client := by
    have haccount := h.accounts client
    generalize (s.connections client).feeding = feeding at haccount
    cases haccount with
    | idle _ heard => exact heard ▸ List.prefix_rfl
    | waiting _ _ heard => exact heard ▸ List.prefix_append _ _
    | answered _ _ heard => exact heard ▸ List.prefix_rfl
  written client := by
    have haccount := h.accounts client
    generalize (s.connections client).feeding = feeding at haccount
    cases haccount with
    | idle _ _ written => exact written ▸ List.prefix_rfl
    | waiting _ _ _ written => exact written ▸ List.prefix_rfl
    | answered _ _ _ written => exact written ▸ List.prefix_append _ _
  idle client hidle := by
    have haccount := h.accounts client
    rw [hidle] at haccount
    cases haccount with
    | idle _ heard written buffer => exact ⟨heard, written, buffer⟩

end Threads

def ThreadEvent.isTurn : ThreadEvent → Bool
  | .tank _ => true
  | .settle => true
  | .reply _ => true
  | _ => false

namespace Threads
variable [ConservativeStore S] {cap pottyCap : ℕ} {s s' : Threads S} {t : SerialServer S}

omit [ConservativeStore S] in
theorem settles (s : Threads S) :
    ∃ turns, (∀ event ∈ turns, ThreadEvent.isTurn event = true) ∧
      run Threads.step s turns = some { s with unread := none } := by
  cases hunread : s.unread with
  | none =>
    refine ⟨[], by simp, ?_⟩
    rw [← hunread]
    rfl
  | some client =>
    have hsettle : s.step .settle = some { s with unread := none } := by
      rw [Threads.step, settle, hunread]
      rfl
    refine ⟨[.settle], by simp [ThreadEvent.isTurn], ?_⟩
    rw [run, List.foldlM_cons, hsettle]
    rfl

theorem Serial.lifts (h : s.Serial cap pottyCap t) {event : FeedEvent ℕ} {feeds : FeedState S ℕ}
    (hfeed : event.isFeed = false) (hs : s.feeds.step event = some feeds) :
    ∃ turns s', (∀ event ∈ turns, ThreadEvent.isTurn event = true) ∧
      run Threads.step s turns = some s' ∧ s'.feeds = feeds ∧ s'.heard = s.heard := by
  obtain ⟨turns, hturns, hsettled⟩ := s.settles
  have hone : ∀ turn s', turn.isTurn = true →
      ({ s with unread := none } : Threads S).step turn = some s' →
      (∀ event ∈ turns ++ [turn], ThreadEvent.isTurn event = true) ∧
        run Threads.step s (turns ++ [turn]) = some s' := by
    intro turn s' hturn hstep
    refine ⟨List.forall_mem_append.mpr ⟨hturns, List.forall_mem_singleton.mpr hturn⟩, ?_⟩
    rw [run_append, hsettled]
    exact hstep
  by_cases hcall : event.isCall = true
  · cases event with
    | finish client =>
      have hfinish : s.feeds.finish client = some feeds := hs
      obtain ⟨operation, address, result, hphase, -⟩ := FeedState.finish_cases hfinish
      obtain ⟨reply, responseValue, hfeeding, hanswer, hwritten, -⟩ := h.received hphase
      cases hconnection : s.connections client with
      | mk accepted buffer feeding =>
        rw [hconnection] at hfeeding hwritten
        cases hfeeding
        have hreply : ({ s with unread := none } : Threads S).reply client =
            ({ s with feeds := feeds, unread := none } : Threads S).write client buffer
              responseValue := by
          simp only [Threads.reply, hconnection, hphase, hfinish, hanswer]
          rfl
        rw [Threads.write, hwritten, Option.map_some] at hreply
        obtain ⟨hall, hrun⟩ := hone (.reply client) _ rfl hreply
        exact ⟨_, _, hall, hrun, rfl, rfl⟩
    | feed client operation address => cases hfeed
    | _ => cases hcall
  · have htank : ({ s with unread := none } : Threads S).tank event = some { s with
        feeds := feeds
        unread := ((s.feeds.pump.answers feeds.pump).bind s.callers).or none
        handed := s.handed ++ s.feeds.pump.hands feeds.pump } := by
      rw [Threads.tank, Bool.eq_false_iff.mpr hcall, if_neg (by simp), hs]
      rfl
    obtain ⟨hall, hrun⟩ := hone (.tank event) _ rfl htank
    exact ⟨_, _, hall, hrun, rfl, rfl⟩

/-- Every thread that waits for the tank can be brought to its reply, and may then read again. -/
theorem Serial.completes (hcap : 0 < cap) (hpotty : 0 < pottyCap) (h : s.Serial cap pottyCap t) :
    ∃ rest s', (∀ event ∈ rest, ThreadEvent.isTurn event = true) ∧
      run Threads.step s rest = some s' ∧ s'.heard = s.heard ∧ s'.unread = none ∧
      ∀ client, (s'.connections client).feeding = none := by
  obtain ⟨rest, feeds, hrest, hrun, hidle, -⟩ := h.inv.completes hcap hpotty
  induction rest generalizing s t with
  | nil =>
    cases hrun
    obtain ⟨turns, hturns, hsettled⟩ := s.settles
    refine ⟨turns, _, hturns, hsettled, rfl, rfl, ?_⟩
    intro client
    have haccount := h.accounts client
    dsimp only
    generalize (s.connections client).feeding = feeding at haccount
    cases haccount with
    | idle => rfl
    | waiting phase =>
      rw [hidle] at phase
      cases phase
    | answered phase =>
      rw [hidle] at phase
      cases phase
  | cons event rest ih =>
    rw [run, List.foldlM_cons] at hrun
    obtain ⟨between, hstep, hrun⟩ := Option.bind_eq_some_iff.mp hrun
    obtain ⟨hfeed, hrest⟩ := List.forall_mem_cons.mp hrest
    obtain ⟨first, s₁, hfirst, hrun₁, rfl, hheard₁⟩ := h.lifts hfeed hstep
    obtain ⟨_, t₁, -, hserial, -⟩ := (simulates cap pottyCap).exists_run h hrun₁
    obtain ⟨turns, s', hturns, hrun', hheard, hunread, hdone⟩ := ih hserial hrest hrun
    exact ⟨first ++ turns, s', List.forall_mem_append.mpr ⟨hfirst, hturns⟩,
      run_trans hrun₁ hrun', hheard.trans hheard₁, hunread, hdone⟩

end Threads

/-- However the threads take turns, as long as a client leaves its arena alone until the tank has
settled the answer, what the clients are sent, the tank and its log are those of a server that
serves one round after another, which grow as the threads go on. And every client that waits can
still be answered, and is then free to read. -/
theorem threadsRun_serial [ConservativeStore S] (cap pottyCap : ℕ) (hcap : 0 < cap)
    (hpotty : 0 < pottyCap) (maybeMaster : Bool) (events : List ThreadEvent) (s : Threads S)
    (hrun : run Threads.step (Threads.start cap pottyCap maybeMaster) events = some s) :
    (∃ rounds t, run SerialServer.step (.start maybeMaster) rounds = some t ∧ s.Agrees t ∧
      ∀ (before : List ThreadEvent) (s₀ : Threads S), before <+: events →
        run Threads.step (Threads.start cap pottyCap maybeMaster) before = some s₀ →
        ∃ done t₀, done <+: rounds ∧ run SerialServer.step (.start maybeMaster) done = some t₀ ∧
          s₀.Agrees t₀) ∧
      ∃ rest s', (∀ event ∈ rest, ThreadEvent.isTurn event = true) ∧
        run Threads.step s rest = some s' ∧ s'.heard = s.heard ∧ s'.unread = none ∧
        ∀ client, (s'.connections client).feeding = none := by
  obtain ⟨rounds, t, hrounds, hserial, hbefores⟩ := (Threads.simulates cap pottyCap).exists_run
    (Threads.start_serial hcap hpotty maybeMaster) hrun
  refine ⟨⟨rounds, t, hrounds, hserial.agrees, ?_⟩, hserial.completes hcap hpotty⟩
  intro before s₀ hbefore hrun₀
  obtain ⟨done, t₀, hdone, hrun₀, hserial₀⟩ := hbefores before s₀ hbefore hrun₀
  exact ⟨done, t₀, hdone, hrun₀, hserial₀.agrees⟩

/-- Two clients, of which the one that reads second overtakes the other one on its way to the tank
and does not see what it stores. The first one's `SET` is settled before it reads again. -/
theorem threadsRun_serial_overtaken :
    let now := Timespec.atSecond 1 (by decide) (by decide)
    let buffer := ByteBuffer.zeroed 4096
    let start : Threads FiniteStore := .start 2 1 false
    let events : List ThreadEvent := [.accept 0 buffer, .accept 1 buffer, .read 0 readSetHi now 0,
      .read 1 readGetHi now 1, .tank (.send 1 none), .tank (.send 0 none), .tank (.consume none),
      .tank (.digest now now), .tank (.respond none), .tank (.receive 1 none), .reply 1, .settle,
      .tank (.consume none), .tank (.digest now now), .tank (.respond none),
      .tank (.receive 0 none), .reply 0, .settle, .read 0 readGetHi now 0,
      .tank (.pottyFeed none)]
    ∃ s, run Threads.step start events = some s ∧
      s.written = [(1, [95, 13, 10]), (0, [43, 79, 75, 13, 10])] ∧
      (∃ rounds t, run SerialServer.step (.start false) rounds = some t ∧ s.Agrees t ∧
        ∀ (before : List ThreadEvent) (s₀ : Threads FiniteStore), before <+: events →
          run Threads.step start before = some s₀ →
          ∃ done t₀, done <+: rounds ∧ run SerialServer.step (.start false) done = some t₀ ∧
            s₀.Agrees t₀) ∧
        ∃ rest s', (∀ event ∈ rest, ThreadEvent.isTurn event = true) ∧
          run Threads.step s rest = some s' ∧ s'.heard = s.heard ∧ s'.unread = none ∧
          ∀ client, (s'.connections client).feeding = none := by
  intro now buffer start events
  have hwritten : (run Threads.step start events).map Threads.written =
      some [(1, [95, 13, 10]), (0, [43, 79, 75, 13, 10])] := by
    decide +kernel
  obtain ⟨s, hrun, hs⟩ := Option.map_eq_some_iff.mp hwritten
  exact ⟨s, hrun, hs, threadsRun_serial 2 1 (by decide) (by decide) false events s hrun⟩

/-- A client that has its answer does not read before it is settled. -/
example :
    let now := Timespec.atSecond 1 (by decide) (by decide)
    let start : Threads FiniteStore := .start 2 1 false
    let answered : List ThreadEvent := [.accept 0 (ByteBuffer.zeroed 4096), .read 0 readSetHi now 0,
      .tank (.send 0 none), .tank (.consume none), .tank (.digest now now), .tank (.respond none),
      .tank (.receive 0 none), .reply 0]
    (run Threads.step start answered).map Threads.unread = some (some 0) ∧
      (run Threads.step start (answered ++ [.read 0 readGetHi now 0])).isNone = true := by
  decide +kernel

end Redic
