import Mathlib.Data.List.Nodup
import Redic.SepticTank.Feed

/-! # The order in which the tank serves

The invariant splits what was enqueued into what the tank has digested and what is still on its
way: in the hand of the pump and then in the ring, in that order. Each client has one of six
accounts, which say where its call is and what its response sewer holds. A step changes the
account of one client and frames the others, because no two calls in progress share a response
sewer.
-/
namespace Redic

variable {S ClientId : Type} [DecidableEq ClientId]

section OfClient
variable {β : Type}

theorem ofClient_self (client : ClientId) (calls : List (ClientId × β)) (call : β) :
    ofClient client (calls ++ [(client, call)]) = ofClient client calls ++ [(client, call)] := by
  simp [ofClient, List.filter_append]

theorem ofClient_other {client other : ClientId} (h : other ≠ client)
    (calls : List (ClientId × β)) (call : β) :
    ofClient client (calls ++ [(other, call)]) = ofClient client calls := by
  simp [ofClient, List.filter_append, h]

end OfClient

def FeedPhase.address : FeedPhase → Option ℕ
  | .idle => none
  | .sending _ address => some address
  | .awaiting _ address => some address
  | .received _ address _ => some address

def TankPumpPhase.inHand : TankPumpPhase → List FeedMessage
  | .digesting message => [message]
  | _ => []

@[simp] theorem TankPumpPhase.inHand_next (mutation : Option SepticTankMutation) :
    (TankPumpPhase.next mutation).inHand = [] := by
  cases mutation <;> rfl

namespace FeedState

def ResponseHolds (s : FeedState S ClientId) (client : ClientId) (address : ℕ)
    (results : List SepticTankResult) : Prop :=
  ∃ sewer, s.responses address = some sewer ∧ sewer.Serves (.client client) 1 results ∧
    sewer.hasSpace = ∅

def messageOf (s : FeedState S ClientId) (call : ClientId × SepticTankOperation) : FeedMessage :=
  ⟨call.2, (s.clients call.1).address⟩

inductive Account (s : FeedState S ClientId) (pending : List ClientId) (client : ClientId) :
    FeedPhase → Prop
  | idle (out : client ∉ pending)
      (fed : ofClient client s.fed = ofClient client s.enqueued)
      (served : ofClient client s.served = ofClient client s.returned) :
      Account s pending client .idle
  | sending {operation : SepticTankOperation} {address : ℕ} (out : client ∉ pending)
      (fed : ofClient client s.fed = ofClient client s.enqueued ++ [(client, operation)])
      (served : ofClient client s.served = ofClient client s.returned)
      (response : s.ResponseHolds client address []) :
      Account s pending client (.sending operation address)
  | queued {operation : SepticTankOperation} {address : ℕ} (isIn : client ∈ pending)
      (fed : ofClient client s.fed = ofClient client s.enqueued)
      (served : ofClient client s.served = ofClient client s.returned)
      (response : s.ResponseHolds client address []) :
      Account s pending client (.awaiting operation address)
  | answering {operation : SepticTankOperation} {address : ℕ} {result : SepticTankResult}
      {mutation : Option SepticTankMutation} (out : client ∉ pending)
      (fed : ofClient client s.fed = ofClient client s.enqueued)
      (served : ofClient client s.served =
        ofClient client s.returned ++ [(client, operation, result)])
      (response : s.ResponseHolds client address [])
      (pump : s.pump = .responding ⟨operation, some address⟩ result mutation) :
      Account s pending client (.awaiting operation address)
  | answered {operation : SepticTankOperation} {address : ℕ} {result : SepticTankResult}
      (out : client ∉ pending)
      (fed : ofClient client s.fed = ofClient client s.enqueued)
      (served : ofClient client s.served =
        ofClient client s.returned ++ [(client, operation, result)])
      (response : s.ResponseHolds client address [result]) :
      Account s pending client (.awaiting operation address)
  | received {operation : SepticTankOperation} {address : ℕ} {result : SepticTankResult}
      (out : client ∉ pending)
      (fed : ofClient client s.fed = ofClient client s.enqueued)
      (served : ofClient client s.served =
        ofClient client s.returned ++ [(client, operation, result)])
      (response : s.ResponseHolds client address []) :
      Account s pending client (.received operation address result)

/-- The invariant, with the ring's queue and with what was enqueued in two parts. -/
structure Ordered [KeyStore S] (cap : ℕ) (tank : SepticTank S) (s : FeedState S ClientId)
    (queue : List FeedMessage) (done pending : List (ClientId × SepticTankOperation)) : Prop where
  ring : s.sewer.Serves .pump cap queue
  enqueued : s.enqueued = done ++ pending
  digested : s.digested.map (·.input.operation) = done.map Prod.snd
  sequential : tank.digestAll (s.digested.map Digested.input) =
    (s.tank, s.digested.map Digested.result)
  carried : s.pump.inHand ++ queue = pending.map s.messageOf
  waits : ∀ call ∈ pending, ∃ address, s.clients call.1 = .awaiting call.2 address
  nodup : (pending.map Prod.fst).Nodup
  addresses : ∀ client other address, (s.clients client).address = some address →
    (s.clients other).address = some address → client = other
  accounts : ∀ client, s.Account (pending.map Prod.fst) client (s.clients client)
  answers : ∀ message result mutation, s.pump = .responding message result mutation →
    ∃ client address, s.clients client = .awaiting message.value address ∧
      message.cloggedSewer = some address ∧ client ∉ pending.map Prod.fst ∧
      s.ResponseHolds client address []

section Frame
variable {s s' : FeedState S ClientId} {pending pending' : List ClientId} {client : ClientId}

omit [DecidableEq ClientId] in
theorem messageOf_congr (hclients : s'.clients = s.clients) : s'.messageOf = s.messageOf := by
  funext call
  rw [messageOf, messageOf, hclients]

structure SameFor (s s' : FeedState S ClientId) (pending pending' : List ClientId)
    (client : ClientId) : Prop where
  phase : s'.clients client = s.clients client
  fed : ofClient client s'.fed = ofClient client s.fed
  enqueued : ofClient client s'.enqueued = ofClient client s.enqueued
  served : ofClient client s'.served = ofClient client s.served
  returned : ofClient client s'.returned = ofClient client s.returned
  pending : client ∈ pending' ↔ client ∈ pending
  response : ∀ address results, (s.clients client).address = some address →
    s.ResponseHolds client address results → s'.ResponseHolds client address results
  pump : ∀ operation address result mutation, s.clients client = .awaiting operation address →
    s.pump = .responding ⟨operation, some address⟩ result mutation → s'.pump = s.pump

theorem Account.frame (h : s.Account pending client (s.clients client))
    (same : SameFor s s' pending pending' client) :
    s'.Account pending' client (s'.clients client) := by
  obtain ⟨hphase, hfed, henqueued, hserved, hreturned, hpending, hresponse, hpump⟩ := same
  rw [hphase]
  generalize hp : s.clients client = phase at h hresponse hpump ⊢
  cases h with
  | idle out fed served =>
    exact .idle (mt hpending.mp out) (by rw [hfed, henqueued, fed])
      (by rw [hserved, hreturned, served])
  | sending out fed served response =>
    exact .sending (mt hpending.mp out) (by rw [hfed, henqueued, fed])
      (by rw [hserved, hreturned, served]) (hresponse _ _ rfl response)
  | queued isIn fed served response =>
    exact .queued (hpending.mpr isIn) (by rw [hfed, henqueued, fed])
      (by rw [hserved, hreturned, served]) (hresponse _ _ rfl response)
  | answering out fed served response pump =>
    exact .answering (mt hpending.mp out) (by rw [hfed, henqueued, fed])
      (by rw [hserved, hreturned, served]) (hresponse _ _ rfl response)
      ((hpump _ _ _ _ rfl pump).trans pump)
  | answered out fed served response =>
    exact .answered (mt hpending.mp out) (by rw [hfed, henqueued, fed])
      (by rw [hserved, hreturned, served]) (hresponse _ _ rfl response)
  | received out fed served response =>
    exact .received (mt hpending.mp out) (by rw [hfed, henqueued, fed])
      (by rw [hserved, hreturned, served]) (hresponse _ _ rfl response)

theorem Account.response {phase : FeedPhase} (h : s.Account pending client phase) {address : ℕ}
    (haddress : phase.address = some address) :
    ∃ results, s.ResponseHolds client address results := by
  cases h with
  | idle out fed served => cases haddress
  | sending out fed served response =>
    cases haddress
    exact ⟨_, response⟩
  | queued isIn fed served response =>
    cases haddress
    exact ⟨_, response⟩
  | answering out fed served response pump =>
    cases haddress
    exact ⟨_, response⟩
  | answered out fed served response =>
    cases haddress
    exact ⟨_, response⟩
  | received out fed served response =>
    cases haddress
    exact ⟨_, response⟩

theorem Account.calls {phase : FeedPhase} (h : s.Account pending client phase) :
    ofClient client s.enqueued <+: ofClient client s.fed := by
  cases h with
  | sending out fed =>
    rw [fed]
    exact List.prefix_append _ _
  | idle out fed => exact fed ▸ List.prefix_rfl
  | queued isIn fed => exact fed ▸ List.prefix_rfl
  | answering out fed => exact fed ▸ List.prefix_rfl
  | answered out fed => exact fed ▸ List.prefix_rfl
  | received out fed => exact fed ▸ List.prefix_rfl

theorem Account.own {phase : FeedPhase} (h : s.Account pending client phase) :
    ofClient client s.returned <+: ofClient client s.served := by
  cases h with
  | idle out fed served => exact served ▸ List.prefix_rfl
  | sending out fed served => exact served ▸ List.prefix_rfl
  | queued isIn fed served => exact served ▸ List.prefix_rfl
  | answering out fed served =>
    rw [served]
    exact List.prefix_append _ _
  | answered out fed served =>
    rw [served]
    exact List.prefix_append _ _
  | received out fed served =>
    rw [served]
    exact List.prefix_append _ _

omit [DecidableEq ClientId] in
theorem ResponseHolds.congr {address : ℕ} {results : List SepticTankResult}
    (h : s.ResponseHolds client address results)
    (hresponses : s'.responses address = s.responses address) :
    s'.ResponseHolds client address results := by
  obtain ⟨sewer, hsewer, hserves⟩ := h
  exact ⟨sewer, hresponses.trans hsewer, hserves⟩

omit [DecidableEq ClientId] in
theorem ResponseHolds.unique {address : ℕ} {results results' : List SepticTankResult}
    (h : s.ResponseHolds client address results) (h' : s.ResponseHolds client address results') :
    results = results' := by
  obtain ⟨sewer, hsewer, hserves, -⟩ := h
  obtain ⟨sewer', hsewer', hserves', -⟩ := h'
  cases hsewer.symm.trans hsewer'
  exact hserves.holds.unique hserves'.holds

end Frame

section Ordered
variable [KeyStore S] {cap : ℕ} {tank : SepticTank S} {s s' : FeedState S ClientId}
  {queue : List FeedMessage} {done pending : List (ClientId × SepticTankOperation)}
  {client other : ClientId}

omit [DecidableEq ClientId] in
/-- What was enqueued and is still on its way was not served. -/
theorem zipWith_served {digested : List Digested} (hlen : done.length = digested.length) :
    List.zipWith servedAs (done ++ pending) digested = List.zipWith servedAs done digested := by
  have happend : List.zipWith servedAs (done ++ pending) (digested ++ []) =
      List.zipWith servedAs done digested ++ List.zipWith servedAs pending [] :=
    List.zipWith_append hlen
  rw [List.append_nil, List.zipWith_nil_right, List.append_nil] at happend
  exact happend

theorem Ordered.length_digested (h : s.Ordered cap tank queue done pending) :
    done.length = s.digested.length := by
  have hlen := congrArg List.length h.digested
  rw [List.length_map, List.length_map] at hlen
  exact hlen.symm

theorem Ordered.served_eq (h : s.Ordered cap tank queue done pending) :
    s.served = List.zipWith servedAs done s.digested := by
  rw [served, h.enqueued, zipWith_served h.length_digested]

theorem Ordered.address_ne (h : s.Ordered cap tank queue done pending) (hne : other ≠ client)
    {address address' : ℕ} (haddress : (s.clients client).address = some address)
    (hother : (s.clients other).address = some address') : address' ≠ address := by
  rintro rfl
  exact hne (h.addresses other client address' hother haddress)

theorem Ordered.address_used (h : s.Ordered cap tank queue done pending) {address : ℕ}
    (haddress : (s.clients client).address = some address) : s.responses address ≠ none := by
  obtain ⟨results, sewer, hsewer, -⟩ := (h.accounts client).response haddress
  rw [hsewer]
  exact Option.some_ne_none sewer

theorem Ordered.carried_frame (h : s.Ordered cap tank queue done pending)
    (hout : client ∉ pending.map Prod.fst)
    (hothers : ∀ other, other ≠ client → s'.clients other = s.clients other) :
    pending.map s'.messageOf = pending.map s.messageOf ∧
      ∀ call ∈ pending, ∃ address, s'.clients call.1 = .awaiting call.2 address := by
  have hsame : ∀ call ∈ pending, s'.clients call.1 = s.clients call.1 := by
    intro call hcall
    apply hothers
    rintro rfl
    exact hout (List.mem_map_of_mem hcall)
  constructor
  · apply List.map_congr_left
    intro call hcall
    rw [messageOf, messageOf, hsame call hcall]
  · intro call hcall
    rw [hsame call hcall]
    exact h.waits call hcall

theorem Ordered.answers_frame (h : s.Ordered cap tank queue done pending)
    {pending' : List (ClientId × SepticTankOperation)} (hpump : s'.pump = s.pump)
    (same : ∀ client operation address, s.clients client = .awaiting operation address →
      s.ResponseHolds client address [] → client ∉ pending.map Prod.fst →
      SameFor s s' (pending.map Prod.fst) (pending'.map Prod.fst) client) :
    ∀ message result mutation, s'.pump = .responding message result mutation →
      ∃ client address, s'.clients client = .awaiting message.value address ∧
        message.cloggedSewer = some address ∧ client ∉ pending'.map Prod.fst ∧
        s'.ResponseHolds client address [] := by
  intro message result mutation hresponding
  obtain ⟨client, address, hphase, hclogged, hout, hholds⟩ :=
    h.answers message result mutation (hpump ▸ hresponding)
  have hsame := same client _ address hphase hholds hout
  refine ⟨client, address, hsame.phase.trans hphase, hclogged, mt hsame.pending.mp hout, ?_⟩
  exact hsame.response address [] (by rw [hphase]; rfl) hholds

end Ordered

end FeedState

end Redic
