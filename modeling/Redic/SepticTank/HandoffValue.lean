import Redic.SepticTank.HandoffRun
import Redic.SepticTank.Replay

/-! # The hand-over by value

A logged tank keeps the mutation that it hands on as a value. The tank of a run that meets the
condition on its steps is one: it holds and hands on what a logged tank does that digests the same
operations, whatever the clients allocate in the meantime. A client that leaves its arena alone
until the tank is done with its answer meets the condition.
-/
namespace Redic
open EventRun ClientArena

variable {S ClientId : Type} [KeyStore S]

def digestLogged (inputs : List DigestInput) : LoggedTank S := loggedRun (inputs.map .digest)

theorem digestLogged_append (inputs : List DigestInput) (input : DigestInput) :
    let before : LoggedTank S := digestLogged inputs
    let (tank, result) := before.tank.resolve input
    (digestLogged (inputs ++ [input]) : LoggedTank S) =
      ⟨septicTankApplyResolved tank result.resolvedMutation,
        before.log ++ result.resolvedMutation.toList⟩ := by
  have haof := loggedRun_aofEnabled (S := S) (inputs.map .digest)
  simp only [digestLogged, List.map_append, List.map_singleton, loggedRun_append, LoggedTank.step]
  rw [SepticTank.digest_tank, SepticTank.digest_fed haof]

/-- Between its resolve and its apply the tank is one operation ahead, and the client's arena holds
what it resolved to. -/
def Handoff.Digests (s : Handoff S ClientId) (inputs : List DigestInput) : Prop :=
  let before : LoggedTank S := digestLogged inputs
  s.applied = before.log ∧
    match s.phase with
    | .resolved client result succeeded => ∃ input,
      s.tank = (before.tank.resolve input).1 ∧
        succeeded = (before.tank.resolve input).2.success ∧
        readResolved (s.arenas client).memory result =
          some (before.tank.resolve input).2.resolvedMutation
    | _ => s.tank = before.tank

variable {cap : ℕ} {s s' : Handoff S ClientId} {c : ClientId} {inputs : List DigestInput}
  {result : Region} {succeeded : Bool}

theorem Handoff.Digests.client [DecidableEq ClientId] (h : s.Digests inputs) (hinv : s.Inv)
    (hready : s.clients c ≠ .waiting) (a : ClientArena) (phase : ClientPhase) :
    (s.client c a phase).Digests inputs := by
  obtain ⟨happlied, htank⟩ := h
  refine ⟨happlied, ?_⟩
  dsimp only [Handoff.client]
  cases hphase : s.phase with
  | resolved busy result succeeded =>
    rw [hphase] at htank
    have hne : busy ≠ c := by
      rintro rfl
      exact hready (hinv.serving (by rw [hphase]; rfl)).1
    dsimp only
    rw [Function.update_of_ne hne]
    exact htank
  | _ =>
    rw [hphase] at htank
    exact htank

theorem Handoff.Digests.apply (h : s.Digests inputs)
    (hphase : s.phase = .resolved c result succeeded) : ∃ input,
      Handoff.Digests { (if succeeded then s.applyResolved c result else s) with
        phase := .applied c result succeeded } (inputs ++ [input]) := by
  obtain ⟨happlied, htank⟩ := h
  rw [hphase] at htank
  obtain ⟨input, htank, rfl, hread⟩ := htank
  have happend := digestLogged_append (S := S) inputs input
  refine ⟨input, ?_⟩
  cases hmutation : ((digestLogged inputs : LoggedTank S).tank.resolve input).2.resolvedMutation with
  | none =>
    rw [hmutation] at hread
    simp only [hmutation, Option.toList_none, List.append_nil] at happend
    unfold Handoff.Digests Handoff.applyResolved
    rw [happend, hread]
    split <;> exact ⟨happlied, htank⟩
  | some mutation =>
    have hsuccess := septicTankResolve_success _ _ _ _ hmutation
    rw [hmutation] at hread
    simp only [hmutation, Option.toList_some] at happend
    unfold Handoff.Digests Handoff.applyResolved
    rw [happend, hread]
    change ((digestLogged inputs : LoggedTank S).tank.resolve input).2.success = true at hsuccess
    rw [if_pos hsuccess]
    refine ⟨?_, ?_⟩
    · dsimp only
      rw [happlied]
    · dsimp only
      rw [htank]
      rfl

variable [DecidableEq ClientId]

theorem handoffStep_digests {event : HandoffEvent ClientId} (h : s.Digests inputs) (hinv : s.Inv)
    (hstep : handoffStep cap s event = some s') :
    ∃ more, s'.Digests (inputs ++ more) := by
  have hsame : ∀ {s' : Handoff S ClientId}, s'.Digests inputs →
      ∃ more, s'.Digests (inputs ++ more) := fun h => ⟨[], by rwa [List.append_nil]⟩
  have hcases := handoffStep_cases hstep
  cases event with
  | parse c sizes operation =>
    obtain ⟨hready, rfl⟩ := hcases
    exact hsame (h.client hinv (by simp [hready]) _ _)
  | send c =>
    obtain ⟨operation, hsending, rfl⟩ := hcases
    exact hsame (h.client hinv (by simp [hsending]) (s.arenas c) .waiting)
  | consume ts₁ ts₂ =>
    obtain ⟨c, operation, sewer, hphase, hsewer, rfl⟩ := hcases
    obtain ⟨happlied, htank⟩ := h
    rw [hphase] at htank
    refine hsame ⟨happlied, ⟨operation, ts₁, ts₂⟩, ?_⟩
    dsimp only [SepticTank.resolve]
    rw [← htank, Function.update_self]
    exact ⟨rfl, rfl, (resolveAllocs_keeps _ _).1.read⟩
  | apply =>
    obtain ⟨c, result, succeeded, hphase, rfl⟩ := hcases
    obtain ⟨input, hdigests⟩ := h.apply hphase
    exact ⟨[input], hdigests⟩
  | respond =>
    obtain ⟨c, result, succeeded, hphase, rfl⟩ := hcases
    rw [Handoff.Digests, hphase] at h
    exact hsame h
  | markConsumed =>
    obtain ⟨c, result, succeeded, response, hphase, rfl⟩ := hcases
    rw [Handoff.Digests, hphase] at h
    exact hsame h
  | feed =>
    obtain ⟨c, result, succeeded, hphase, rfl⟩ := hcases
    rw [Handoff.Digests, hphase] at h
    refine hsame ?_
    unfold Handoff.Digests Handoff.feedResolved
    split
    · split <;> exact h
    · exact h
  | receive c sizes =>
    obtain ⟨response, hdelivered, rfl⟩ := hcases
    exact hsame (h.client hinv (by simp [hdelivered]) _ _)
  | serialise c =>
    obtain ⟨hanswering, rfl⟩ := hcases
    exact hsame (h.client hinv (by simp [hanswering]) _ _)
  | reset c =>
    obtain ⟨hserialised, rfl⟩ := hcases
    exact hsame (h.client hinv (by simp [hserialised]) _ _)
  | close c =>
    obtain ⟨hready, rfl⟩ := hcases
    exact hsame (h.client hinv (by simp [hready]) _ _)

structure Handoff.Logged (s : Handoff S ClientId) : Prop where
  inv : s.Inv
  digests : ∃ inputs, s.Digests inputs

theorem Handoff.Logged.step {event : HandoffEvent ClientId} (h : s.Logged)
    (hsafe : HandoffSafe s event) (hstep : handoffStep cap s event = some s') : s'.Logged := by
  obtain ⟨inputs, hdigests⟩ := h.digests
  obtain ⟨more, hmore⟩ := handoffStep_digests hdigests h.inv hstep
  exact ⟨handoffStep_inv h.inv hsafe hstep, _, hmore⟩

/-- A run that meets the condition is one of a logged tank: the potty was handed its log, up to the
mutation in flight, and between two operations the tanks hold the same. -/
theorem handoffRun_loggedTank (cap : ℕ) (events : List (HandoffEvent ClientId))
    (s : Handoff S ClientId)
    (hsafe : Guarded (handoffStep cap) HandoffSafe (handoffStart : Handoff S ClientId) events)
    (hrun : run (handoffStep cap) handoffStart events = some s) :
    ∃ inputs, s.applied = (digestLogged inputs : LoggedTank S).log ∧
      (s.phase = .idle → s.tank = (digestLogged inputs).tank ∧
        s.handed = (digestLogged inputs : LoggedTank S).log.map some) := by
  have hstart : (handoffStart : Handoff S ClientId).Logged := ⟨handoffStart_inv, [], rfl, rfl⟩
  obtain ⟨hinv, inputs, happlied, htank⟩ : s.Logged :=
    run_invariant hstart (fun _ _ _ hs hguard hstep => hs.step hguard hstep) hsafe hrun
  refine ⟨inputs, happlied, fun hidle => ?_⟩
  rw [hidle] at htank
  obtain ⟨inFlight, hhanded, hnone⟩ := hinv.handsApplied
  obtain rfl := hnone (by rw [hidle]; rfl)
  rw [happlied] at hhanded
  exact ⟨htank, by simpa using hhanded.symm⟩

/-- The client whose arena the step uses anew or gives back. -/
def HandoffEvent.reuses : HandoffEvent ClientId → Option ClientId
  | parse client _ _ => some client
  | close client => some client
  | _ => none

/-- No client reuses its arena before the tank is done with its answer. -/
def HandoffSettled (s : Handoff S ClientId) (event : HandoffEvent ClientId) : Prop :=
  ∀ client result, s.phase.unread = some (client, result) → event.reuses ≠ some client

omit [KeyStore S] [DecidableEq ClientId] in
theorem HandoffSettled.safe {event : HandoffEvent ClientId} (h : HandoffSettled s event) :
    HandoffSafe s event := by
  cases event with
  | parse client sizes operation => exact fun result hunread => absurd rfl (h client result hunread)
  | close client => exact fun result hunread => absurd rfl (h client result hunread)
  | _ => trivial

/-- So a run is one of a logged tank when every client waits until its answer is settled. -/
theorem handoffRun_settled (cap : ℕ) (events : List (HandoffEvent ClientId))
    (s : Handoff S ClientId)
    (hsettled : Guarded (handoffStep cap) HandoffSettled (handoffStart : Handoff S ClientId) events)
    (hrun : run (handoffStep cap) handoffStart events = some s) :
    ∃ inputs, s.applied = (digestLogged inputs : LoggedTank S).log ∧
      (s.phase = .idle → s.tank = (digestLogged inputs).tank ∧
        s.handed = (digestLogged inputs : LoggedTank S).log.map some) :=
  handoffRun_loggedTank cap events s
    (fun done event before hdone hbefore => (hsettled done event before hdone hbefore).safe) hrun

end Redic
