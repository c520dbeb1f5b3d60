import Redic.SepticTank.LazyExpiry
import Redic.Sewer.Sewer

/-! # Clients feeding the tank

Any number of client threads call `septic_tank_feed` over the sewer of the tank. Each call makes a
response sewer for one message, sends its operation, waits for the response and destroys the
response sewer, whose address may be handed out again. The pump of the tank consumes, digests,
responds and feeds the potty, whose own sewer is drained by the potty. One pass through a critical
section is one step, and any order of enabled steps is a run. The last four fields of a state only
record what happened; no step reads them.
-/
namespace Redic

variable {S ClientId : Type}

inductive SewerThread (ClientId : Type)
  | pump
  | potty
  | client (client : ClientId)
  deriving DecidableEq

structure FeedMessage where
  value : SepticTankOperation
  cloggedSewer : Option ℕ

/-- Where a client is in `septic_tank_feed`, with its local variables. -/
inductive FeedPhase
  | idle
  | sending (operation : SepticTankOperation) (responseSewer : ℕ)
  | awaiting (operation : SepticTankOperation) (responseSewer : ℕ)
  | received (operation : SepticTankOperation) (responseSewer : ℕ) (result : SepticTankResult)

/-- Where the tank is in `septic_tank_pump`, with its local variables. -/
inductive TankPumpPhase
  | consuming
  | digesting (message : FeedMessage)
  | responding (message : FeedMessage) (result : SepticTankResult)
      (mutation : Option SepticTankMutation)
  | feeding (mutation : SepticTankMutation)

structure Digested where
  input : DigestInput
  result : SepticTankResult

structure FeedState (S ClientId : Type) where
  sewer : Sewer FeedMessage (SewerThread ClientId)
  responses : ℕ → Option (Sewer SepticTankResult (SewerThread ClientId))
  pottySewer : Sewer SepticTankMutation (SewerThread ClientId)
  tank : SepticTank S
  pump : TankPumpPhase
  clients : ClientId → FeedPhase
  fed : List (ClientId × SepticTankOperation)
  enqueued : List (ClientId × SepticTankOperation)
  digested : List Digested
  returned : List (ClientId × SepticTankOperation × SepticTankResult)

inductive FeedEvent (ClientId : Type)
  | feed (client : ClientId) (operation : SepticTankOperation) (address : ℕ)
  | send (client : ClientId) (woken : Option (SewerThread ClientId))
  | consume (woken : Option (SewerThread ClientId))
  | digest (ts₁ ts₂ : Timespec)
  | respond (woken : Option (SewerThread ClientId))
  | receive (client : ClientId) (woken : Option (SewerThread ClientId))
  | finish (client : ClientId)
  | pottyFeed (woken : Option (SewerThread ClientId))
  | pottyConsume (woken : Option (SewerThread ClientId))
  | wake (thread : SewerThread ClientId)

def feedStart (cap pottyCap : ℕ) (tank : SepticTank S) : FeedState S ClientId where
  sewer := sewerCreate cap
  responses := fun _ => none
  pottySewer := sewerCreate pottyCap
  tank := tank
  pump := .consuming
  clients := fun _ => .idle
  fed := []
  enqueued := []
  digested := []
  returned := []

def TankPumpPhase.next : Option SepticTankMutation → TankPumpPhase
  | none => .consuming
  | some mutation => .feeding mutation

section Steps
variable [DecidableEq ClientId]

namespace FeedState
variable (s : FeedState S ClientId)

/-- A call starts: its response sewer gets an address that is not in use. -/
def feed (client : ClientId) (operation : SepticTankOperation) (address : ℕ) :
    Option (FeedState S ClientId) :=
  match s.clients client, s.responses address with
  | .idle, none => some { s with
      responses := Function.update s.responses address (some (sewerCreate 1))
      clients := Function.update s.clients client (.sending operation address)
      fed := s.fed ++ [(client, operation)] }
  | _, _ => none

def send (client : ClientId) (woken : Option (SewerThread ClientId)) :
    Option (FeedState S ClientId) :=
  match s.clients client with
  | .sending operation responseSewer =>
    match sewerSend s.sewer (.client client) ⟨operation, some responseSewer⟩ woken with
    | some (.waits, sewer) => some { s with sewer := sewer }
    | some (.done (), sewer) => some { s with
        sewer := sewer
        clients := Function.update s.clients client (.awaiting operation responseSewer)
        enqueued := s.enqueued ++ [(client, operation)] }
    | none => none
  | _ => none

def consume (woken : Option (SewerThread ClientId)) : Option (FeedState S ClientId) :=
  match s.pump with
  | .consuming =>
    match sewerConsume s.sewer .pump woken with
    | some (.waits, sewer) => some { s with sewer := sewer }
    | some (.done (some message), sewer) => some { s with
        sewer := sewer
        pump := .digesting message }
    | _ => none
  | _ => none

def digest [KeyStore S] (s : FeedState S ClientId) (ts₁ ts₂ : Timespec) :
    Option (FeedState S ClientId) :=
  match s.pump with
  | .digesting message =>
    let input : DigestInput := ⟨message.value, ts₁, ts₂⟩
    let (tank, result, mutation) := s.tank.digest input
    some { s with
      tank := tank
      pump := .responding message result mutation
      digested := s.digested ++ [⟨input, result⟩] }
  | _ => none

/-- There is no step when the response sewer was destroyed before the response. -/
def respond (woken : Option (SewerThread ClientId)) : Option (FeedState S ClientId) :=
  match s.pump with
  | .responding message result mutation =>
    match message.cloggedSewer with
    | none => some { s with pump := .next mutation }
    | some address =>
      match s.responses address with
      | none => none
      | some responseSewer =>
        match sewerSend responseSewer .pump result woken with
        | some (.waits, sewer) => some { s with
            responses := Function.update s.responses address (some sewer) }
        | some (.done (), sewer) => some { s with
            responses := Function.update s.responses address (some sewer)
            pump := .next mutation }
        | none => none
  | _ => none

def receive (client : ClientId) (woken : Option (SewerThread ClientId)) :
    Option (FeedState S ClientId) :=
  match s.clients client with
  | .awaiting operation address =>
    match s.responses address with
    | none => none
    | some responseSewer =>
      match sewerConsume responseSewer (.client client) woken with
      | some (.waits, sewer) => some { s with
          responses := Function.update s.responses address (some sewer) }
      | some (.done (some result), sewer) => some { s with
          responses := Function.update s.responses address (some sewer)
          clients := Function.update s.clients client (.received operation address result) }
      | _ => none
  | _ => none

def finish (client : ClientId) : Option (FeedState S ClientId) :=
  match s.clients client with
  | .received operation address result => some { s with
      responses := Function.update s.responses address none
      clients := Function.update s.clients client .idle
      returned := s.returned ++ [(client, operation, result)] }
  | _ => none

def pottyFeed (woken : Option (SewerThread ClientId)) : Option (FeedState S ClientId) :=
  match s.pump with
  | .feeding mutation =>
    match sewerSend s.pottySewer .pump mutation woken with
    | some (.waits, sewer) => some { s with pottySewer := sewer }
    | some (.done (), sewer) => some { s with
        pottySewer := sewer
        pump := .consuming }
    | none => none
  | _ => none

def pottyConsume (woken : Option (SewerThread ClientId)) : Option (FeedState S ClientId) :=
  (sewerTimedConsume s.pottySewer woken).map fun taken => { s with pottySewer := taken.2 }

/-- A waiting thread wakes up without a signal, wherever it waits. -/
def wake (thread : SewerThread ClientId) : FeedState S ClientId :=
  { s with
    sewer := s.sewer.spuriousWake thread
    responses := fun address => (s.responses address).map (·.spuriousWake thread)
    pottySewer := s.pottySewer.spuriousWake thread }

def step [KeyStore S] (s : FeedState S ClientId) :
    FeedEvent ClientId → Option (FeedState S ClientId)
  | .feed client operation address => s.feed client operation address
  | .send client woken => s.send client woken
  | .consume woken => s.consume woken
  | .digest ts₁ ts₂ => s.digest ts₁ ts₂
  | .respond woken => s.respond woken
  | .receive client woken => s.receive client woken
  | .finish client => s.finish client
  | .pottyFeed woken => s.pottyFeed woken
  | .pottyConsume woken => s.pottyConsume woken
  | .wake thread => some (s.wake thread)

section Cases
variable {s} {s' : FeedState S ClientId} {client : ClientId} {operation : SepticTankOperation}
  {address : ℕ} {woken : Option (SewerThread ClientId)} {ts₁ ts₂ : Timespec}

theorem feed_cases (h : s.feed client operation address = some s') :
    s.clients client = .idle ∧ s.responses address = none ∧ s' = { s with
      responses := Function.update s.responses address (some (sewerCreate 1))
      clients := Function.update s.clients client (.sending operation address)
      fed := s.fed ++ [(client, operation)] } := by
  unfold feed at h
  split at h
  next hidle hfree =>
    cases h
    exact ⟨hidle, hfree, rfl⟩
  next => cases h

theorem send_cases (h : s.send client woken = some s') :
    ∃ operation address sewer, s.clients client = .sending operation address ∧
      ((sewerSend s.sewer (.client client) ⟨operation, some address⟩ woken =
          some (.waits, sewer) ∧ s' = { s with sewer := sewer }) ∨
        (sewerSend s.sewer (.client client) ⟨operation, some address⟩ woken =
            some (.done (), sewer) ∧
          s' = { s with
            sewer := sewer
            clients := Function.update s.clients client (.awaiting operation address)
            enqueued := s.enqueued ++ [(client, operation)] })) := by
  unfold send at h
  split at h
  next operation address hphase =>
    split at h
    next sewer hsend =>
      cases h
      exact ⟨operation, address, sewer, hphase, Or.inl ⟨hsend, rfl⟩⟩
    next sewer hsend =>
      cases h
      exact ⟨operation, address, sewer, hphase, Or.inr ⟨hsend, rfl⟩⟩
    next => cases h
  next => cases h

theorem consume_cases (h : s.consume woken = some s') :
    s.pump = .consuming ∧ ∃ sewer,
      (sewerConsume s.sewer .pump woken = some (.waits, sewer) ∧ s' = { s with sewer := sewer }) ∨
      ∃ message, sewerConsume s.sewer .pump woken = some (.done (some message), sewer) ∧
        s' = { s with sewer := sewer, pump := .digesting message } := by
  unfold consume at h
  split at h
  next hpump =>
    split at h
    next sewer hconsume =>
      cases h
      exact ⟨hpump, sewer, Or.inl ⟨hconsume, rfl⟩⟩
    next message sewer hconsume =>
      cases h
      exact ⟨hpump, sewer, Or.inr ⟨message, hconsume, rfl⟩⟩
    next => cases h
  next => cases h

omit [DecidableEq ClientId] in
theorem digest_cases [KeyStore S] (h : s.digest ts₁ ts₂ = some s') :
    ∃ message, s.pump = .digesting message ∧ s' = { s with
      tank := (s.tank.digest ⟨message.value, ts₁, ts₂⟩).1
      pump := .responding message (s.tank.digest ⟨message.value, ts₁, ts₂⟩).2.1
        (s.tank.digest ⟨message.value, ts₁, ts₂⟩).2.2
      digested := s.digested ++ [⟨⟨message.value, ts₁, ts₂⟩,
        (s.tank.digest ⟨message.value, ts₁, ts₂⟩).2.1⟩] } := by
  unfold digest at h
  split at h
  next message hpump =>
    cases h
    exact ⟨message, hpump, rfl⟩
  next => cases h

theorem respond_cases (h : s.respond woken = some s') :
    ∃ message result mutation, s.pump = .responding message result mutation ∧
      ((message.cloggedSewer = none ∧ s' = { s with pump := .next mutation }) ∨
        ∃ address responseSewer sewer, message.cloggedSewer = some address ∧
          s.responses address = some responseSewer ∧
          ((sewerSend responseSewer .pump result woken = some (.waits, sewer) ∧
              s' = { s with responses := Function.update s.responses address (some sewer) }) ∨
            (sewerSend responseSewer .pump result woken = some (.done (), sewer) ∧
              s' = { s with
                responses := Function.update s.responses address (some sewer)
                pump := .next mutation }))) := by
  unfold respond at h
  split at h
  next message result mutation hpump =>
    refine ⟨message, result, mutation, hpump, ?_⟩
    split at h
    next hclogged =>
      cases h
      exact Or.inl ⟨hclogged, rfl⟩
    next address hclogged =>
      split at h
      next => cases h
      next responseSewer hresponse =>
        split at h
        next sewer hsend =>
          cases h
          exact Or.inr ⟨address, responseSewer, sewer, hclogged, hresponse, Or.inl ⟨hsend, rfl⟩⟩
        next sewer hsend =>
          cases h
          exact Or.inr ⟨address, responseSewer, sewer, hclogged, hresponse, Or.inr ⟨hsend, rfl⟩⟩
        next => cases h
  next => cases h

theorem receive_cases (h : s.receive client woken = some s') :
    ∃ operation address responseSewer sewer, s.clients client = .awaiting operation address ∧
      s.responses address = some responseSewer ∧
      ((sewerConsume responseSewer (.client client) woken = some (.waits, sewer) ∧
          s' = { s with responses := Function.update s.responses address (some sewer) }) ∨
        ∃ result, sewerConsume responseSewer (.client client) woken =
            some (.done (some result), sewer) ∧
          s' = { s with
            responses := Function.update s.responses address (some sewer)
            clients := Function.update s.clients client
              (.received operation address result) }) := by
  unfold receive at h
  split at h
  next operation address hphase =>
    split at h
    next => cases h
    next responseSewer hresponse =>
      split at h
      next sewer hconsume =>
        cases h
        exact ⟨operation, address, responseSewer, sewer, hphase, hresponse,
          Or.inl ⟨hconsume, rfl⟩⟩
      next result sewer hconsume =>
        cases h
        exact ⟨operation, address, responseSewer, sewer, hphase, hresponse,
          Or.inr ⟨result, hconsume, rfl⟩⟩
      next => cases h
  next => cases h

theorem finish_cases (h : s.finish client = some s') :
    ∃ operation address result, s.clients client = .received operation address result ∧
      s' = { s with
        responses := Function.update s.responses address none
        clients := Function.update s.clients client .idle
        returned := s.returned ++ [(client, operation, result)] } := by
  unfold finish at h
  split at h
  next operation address result hphase =>
    cases h
    exact ⟨operation, address, result, hphase, rfl⟩
  next => cases h

theorem pottyFeed_cases (h : s.pottyFeed woken = some s') :
    ∃ mutation sewer, s.pump = .feeding mutation ∧
      ((sewerSend s.pottySewer .pump mutation woken = some (.waits, sewer) ∧
          s' = { s with pottySewer := sewer }) ∨
        (sewerSend s.pottySewer .pump mutation woken = some (.done (), sewer) ∧
          s' = { s with pottySewer := sewer, pump := .consuming })) := by
  unfold pottyFeed at h
  split at h
  next mutation hpump =>
    split at h
    next sewer hsend =>
      cases h
      exact ⟨mutation, sewer, hpump, Or.inl ⟨hsend, rfl⟩⟩
    next sewer hsend =>
      cases h
      exact ⟨mutation, sewer, hpump, Or.inr ⟨hsend, rfl⟩⟩
    next => cases h
  next => cases h

theorem pottyConsume_cases (h : s.pottyConsume woken = some s') :
    ∃ out sewer, sewerTimedConsume s.pottySewer woken = some (out, sewer) ∧
      s' = { s with pottySewer := sewer } := by
  obtain ⟨⟨out, sewer⟩, htaken, heq⟩ := Option.map_eq_some_iff.mp h
  exact ⟨out, sewer, htaken, heq.symm⟩

end Cases

end FeedState

end Steps

def SepticTank.digestAll [KeyStore S] (tank : SepticTank S) :
    List DigestInput → SepticTank S × List SepticTankResult
  | [] => (tank, [])
  | input :: inputs =>
    let (tank, result, _) := tank.digest input
    let (tank, results) := tank.digestAll inputs
    (tank, result :: results)

theorem SepticTank.digestAll_append [KeyStore S] (tank : SepticTank S)
    (inputs : List DigestInput) (input : DigestInput) :
    tank.digestAll (inputs ++ [input]) =
      (((tank.digestAll inputs).1.digest input).1,
        (tank.digestAll inputs).2 ++ [((tank.digestAll inputs).1.digest input).2.1]) := by
  induction inputs generalizing tank with
  | nil => rfl
  | cons first inputs ih =>
    rw [List.cons_append, SepticTank.digestAll, SepticTank.digestAll]
    simp only [ih]
    rfl

def ofClient {β : Type} [DecidableEq ClientId] (client : ClientId) (calls : List (ClientId × β)) :
    List (ClientId × β) :=
  calls.filter (·.1 = client)

namespace FeedState

def servedAs (call : ClientId × SepticTankOperation) (done : Digested) :
    ClientId × SepticTankOperation × SepticTankResult := (call.1, call.2, done.result)

/-- The operations digested so far with their clients and results, in order. -/
def served (s : FeedState S ClientId) : List (ClientId × SepticTankOperation × SepticTankResult) :=
  List.zipWith servedAs s.enqueued s.digested

/-- What a state shows of linearizability: the tank digests in the order of enqueueing, each
operation once, as a sequential run from the first tank would, and a call returns the result of
its own operation. -/
structure Linearized [KeyStore S] [DecidableEq ClientId] (tank : SepticTank S)
    (s : FeedState S ClientId) : Prop where
  order : s.digested.map (·.input.operation) <+: s.enqueued.map Prod.snd
  sequential : tank.digestAll (s.digested.map Digested.input) =
    (s.tank, s.digested.map Digested.result)
  calls : ∀ client, ofClient client s.enqueued <+: ofClient client s.fed
  own : ∀ client, ofClient client s.returned <+: ofClient client s.served
  finished : ∀ client, s.clients client = .idle →
    ofClient client s.returned = ofClient client s.served ∧
      (ofClient client s.returned).map (·.2.1) = (ofClient client s.fed).map (·.2)

/-- A later state of a run only adds to what was recorded. -/
structure Extends (s s' : FeedState S ClientId) : Prop where
  fed : s.fed <+: s'.fed
  enqueued : s.enqueued <+: s'.enqueued
  digested : s.digested <+: s'.digested
  returned : s.returned <+: s'.returned

end FeedState

def FeedEvent.isFeed : FeedEvent ClientId → Bool
  | .feed .. => true
  | _ => false

end Redic
