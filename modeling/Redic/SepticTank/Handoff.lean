import Redic.SepticTank.Digest
import Redic.SepticTank.ResponseArena

/-! # The hand-over between the tank and its clients

The tank thread digests a message in separate steps: resolve, apply, send the response, mark the
response message as consumed, and read the resolved mutation once more to feed it to the potty.
A client thread parses a command into its arena, sends the operation, receives the response,
serialises it and resets the arena, or destroys it when the connection ends. Any order of enabled
steps is a run. What the tank reads from bytes that were overwritten in the meantime is not a
mutation of anyone.
-/
namespace Redic

variable {S ClientId : Type}

inductive ClientPhase
  | ready
  | sending (operation : SepticTankOperation)
  | waiting
  | delivered (response : Region)
  | answering
  | serialised
  | closed
  deriving DecidableEq, Repr

/-- Where the tank thread is in `septic_tank_digest`, with its local variables. -/
inductive TankPhase (ClientId : Type)
  | idle
  | resolved (client : ClientId) (result : Region) (succeeded : Bool)
  | applied (client : ClientId) (result : Region) (succeeded : Bool)
  | sent (client : ClientId) (result : Region) (succeeded : Bool) (response : Region)
  | consumed (client : ClientId) (result : Region) (succeeded : Bool)
  deriving DecidableEq, Repr

structure Handoff (S ClientId : Type) where
  tank : SepticTank S
  phase : TankPhase ClientId
  sewer : List (ClientId × SepticTankOperation)
  arenas : ClientId → ClientArena
  clients : ClientId → ClientPhase
  applied : List SepticTankMutation
  handed : List (Option SepticTankMutation)

inductive HandoffEvent (ClientId : Type)
  | parse (client : ClientId) (sizes : List ℕ) (operation : Option SepticTankOperation)
  | send (client : ClientId)
  | consume (ts₁ ts₂ : Timespec)
  | apply
  | respond
  | markConsumed
  | feed
  | receive (client : ClientId) (sizes : List ℕ)
  | serialise (client : ClientId)
  | reset (client : ClientId)
  | close (client : ClientId)

section Steps
variable [KeyStore S] [DecidableEq ClientId]

def handoffStart : Handoff S ClientId where
  tank := septicTankCreate
  phase := .idle
  sewer := []
  arenas := fun _ => .create
  clients := fun _ => .ready
  applied := []
  handed := []

def Handoff.client (s : Handoff S ClientId) (client : ClientId) (a : ClientArena)
    (phase : ClientPhase) : Handoff S ClientId :=
  { s with
    arenas := Function.update s.arenas client a
    clients := Function.update s.clients client phase }

def Handoff.applyResolved (s : Handoff S ClientId) (client : ClientId) (result : Region) :
    Handoff S ClientId :=
  match readResolved (s.arenas client).memory result with
  | some (some mutation) =>
    { s with
      tank := septicTankApplyMutation s.tank mutation
      applied := s.applied ++ [mutation] }
  | _ => s

/-- Feeding what the result's mutation pointer leads to, be it a mutation or not. -/
def Handoff.feedResolved (s : Handoff S ClientId) (client : ClientId) (result : Region) :
    Handoff S ClientId :=
  match readResolved (s.arenas client).memory result with
  | some none => s
  | some (some mutation) => { s with handed := s.handed ++ [some mutation] }
  | none => { s with handed := s.handed ++ [none] }

/-- One step, with the capacity of the tank's sewer. A step that is not enabled has no successor. -/
def handoffStep (cap : ℕ) (s : Handoff S ClientId) :
    HandoffEvent ClientId → Option (Handoff S ClientId)
  | .parse client sizes operation =>
    match s.clients client with
    | .ready => some (s.client client ((s.arenas client).allocData sizes)
        (operation.elim .answering .sending))
    | _ => none
  | .send client =>
    match s.clients client with
    | .sending operation =>
      if s.sewer.length < cap then
        some { s.client client (s.arenas client) .waiting with
          sewer := s.sewer ++ [(client, operation)] }
      else none
    | _ => none
  | .consume ts₁ ts₂ =>
    match s.phase, s.sewer with
    | .idle, (client, operation) :: sewer =>
      let (tank, result) := septicTankResolve s.tank operation ts₁ ts₂
      let (a, region) := resolveAllocs (s.arenas client) result
      some { s with
        tank := tank
        phase := .resolved client region result.success
        sewer := sewer
        arenas := Function.update s.arenas client a }
    | _, _ => none
  | .apply =>
    match s.phase with
    | .resolved client result succeeded =>
      let s' := if succeeded then s.applyResolved client result else s
      some { s' with phase := .applied client result succeeded }
    | _ => none
  | .respond =>
    match s.phase with
    | .applied client result succeeded =>
      let (a, response) := (s.arenas client).alloc sizeofSewerMessage (.message result false)
      some { s.client client a (.delivered response) with
        phase := .sent client result succeeded response }
    | _ => none
  | .markConsumed =>
    match s.phase with
    | .sent client result succeeded response =>
      some { s with
        phase := .consumed client result succeeded
        arenas := Function.update s.arenas client ((s.arenas client).markConsumed response) }
    | _ => none
  | .feed =>
    match s.phase with
    | .consumed client result succeeded =>
      let s' := if s.tank.aofEnabled && succeeded then s.feedResolved client result else s
      some { s' with phase := .idle }
    | _ => none
  | .receive client sizes =>
    match s.clients client with
    | .delivered _ => some (s.client client ((s.arenas client).allocData sizes) .answering)
    | _ => none
  | .serialise client =>
    match s.clients client with
    | .answering => some (s.client client (s.arenas client) .serialised)
    | _ => none
  | .reset client =>
    match s.clients client with
    | .serialised => some (s.client client (s.arenas client).reset .ready)
    | _ => none
  | .close client =>
    match s.clients client with
    | .ready => some (s.client client (s.arenas client).destroy .closed)
    | _ => none

/-- Where each step starts from, and what it does. -/
theorem handoffStep_cases {cap : ℕ} {s s' : Handoff S ClientId} {event : HandoffEvent ClientId}
    (hstep : handoffStep cap s event = some s') :
    match event with
    | .parse client sizes operation => s.clients client = .ready ∧ s' =
        s.client client ((s.arenas client).allocData sizes) (operation.elim .answering .sending)
    | .send client => ∃ operation, s.clients client = .sending operation ∧
        s' = { s.client client (s.arenas client) .waiting with
          sewer := s.sewer ++ [(client, operation)] }
    | .consume ts₁ ts₂ => ∃ client operation sewer, s.phase = .idle ∧
        s.sewer = (client, operation) :: sewer ∧
        let (tank, result) := septicTankResolve s.tank operation ts₁ ts₂
        let (a, region) := resolveAllocs (s.arenas client) result
        s' = { s with
          tank := tank
          phase := .resolved client region result.success
          sewer := sewer
          arenas := Function.update s.arenas client a }
    | .apply => ∃ client result succeeded, s.phase = .resolved client result succeeded ∧
        s' = { (if succeeded then s.applyResolved client result else s) with
          phase := .applied client result succeeded }
    | .respond => ∃ client result succeeded, s.phase = .applied client result succeeded ∧
        let (a, response) := (s.arenas client).alloc sizeofSewerMessage (.message result false)
        s' = { s.client client a (.delivered response) with
          phase := .sent client result succeeded response }
    | .markConsumed => ∃ client result succeeded response,
        s.phase = .sent client result succeeded response ∧
        s' = { s with
          phase := .consumed client result succeeded
          arenas := Function.update s.arenas client ((s.arenas client).markConsumed response) }
    | .feed => ∃ client result succeeded, s.phase = .consumed client result succeeded ∧
        s' = { (if s.tank.aofEnabled && succeeded then s.feedResolved client result else s) with
          phase := .idle }
    | .receive client sizes => ∃ response, s.clients client = .delivered response ∧
        s' = s.client client ((s.arenas client).allocData sizes) .answering
    | .serialise client => s.clients client = .answering ∧
        s' = s.client client (s.arenas client) .serialised
    | .reset client => s.clients client = .serialised ∧
        s' = s.client client (s.arenas client).reset .ready
    | .close client => s.clients client = .ready ∧
        s' = s.client client (s.arenas client).destroy .closed := by
  cases event with
  | parse client sizes operation =>
    simp only [handoffStep] at hstep
    split at hstep
    · rename_i hready
      cases hstep
      exact ⟨hready, rfl⟩
    · cases hstep
  | send client =>
    simp only [handoffStep] at hstep
    split at hstep
    · rename_i operation hsending
      split at hstep
      · cases hstep
        exact ⟨operation, hsending, rfl⟩
      · cases hstep
    · cases hstep
  | consume ts₁ ts₂ =>
    simp only [handoffStep] at hstep
    split at hstep
    · rename_i client operation sewer hphase hsewer
      cases hstep
      exact ⟨client, operation, sewer, hphase, hsewer, rfl⟩
    · cases hstep
  | apply =>
    simp only [handoffStep] at hstep
    split at hstep
    · rename_i client result succeeded hphase
      cases hstep
      exact ⟨client, result, succeeded, hphase, rfl⟩
    · cases hstep
  | respond =>
    simp only [handoffStep] at hstep
    split at hstep
    · rename_i client result succeeded hphase
      cases hstep
      exact ⟨client, result, succeeded, hphase, rfl⟩
    · cases hstep
  | markConsumed =>
    simp only [handoffStep] at hstep
    split at hstep
    · rename_i client result succeeded response hphase
      cases hstep
      exact ⟨client, result, succeeded, response, hphase, rfl⟩
    · cases hstep
  | feed =>
    simp only [handoffStep] at hstep
    split at hstep
    · rename_i client result succeeded hphase
      cases hstep
      exact ⟨client, result, succeeded, hphase, rfl⟩
    · cases hstep
  | receive client sizes =>
    simp only [handoffStep] at hstep
    split at hstep
    · rename_i response hdelivered
      cases hstep
      exact ⟨response, hdelivered, rfl⟩
    · cases hstep
  | serialise client =>
    simp only [handoffStep] at hstep
    split at hstep
    · rename_i hanswering
      cases hstep
      exact ⟨hanswering, rfl⟩
    · cases hstep
  | reset client =>
    simp only [handoffStep] at hstep
    split at hstep
    · rename_i hserialised
      cases hstep
      exact ⟨hserialised, rfl⟩
    · cases hstep
  | close client =>
    simp only [handoffStep] at hstep
    split at hstep
    · rename_i hready
      cases hstep
      exact ⟨hready, rfl⟩
    · cases hstep

end Steps

/-- The result the tank still has to read although its client was answered already. -/
def TankPhase.unread : TankPhase ClientId → Option (ClientId × Region)
  | .sent client result true _ => some (client, result)
  | .consumed client result true => some (client, result)
  | _ => none

/-- The condition on a step: a command is not parsed into bytes the tank has yet to read, nor is
the arena that holds them destroyed. -/
def HandoffSafe (s : Handoff S ClientId) : HandoffEvent ClientId → Prop
  | .parse client sizes _ => ∀ result, s.phase.unread = some (client, result) →
    ∀ region ∈ ClientArena.dataRegions (s.arenas client).blocks sizes,
      ∀ kept ∈ footprint (s.arenas client).memory result, kept.Disjoint region
  | .close client => ∀ result, s.phase.unread ≠ some (client, result)
  | _ => True

instance [DecidableEq ClientId] (s : Handoff S ClientId) :
    (event : HandoffEvent ClientId) → Decidable (HandoffSafe s event)
  | .parse client sizes _ =>
    have hiff : (∀ unread ∈ s.phase.unread, unread.1 = client →
        ∀ region ∈ ClientArena.dataRegions (s.arenas client).blocks sizes,
          ∀ kept ∈ footprint (s.arenas client).memory unread.2, kept.Disjoint region) ↔
        HandoffSafe s (.parse client sizes _) := by
      constructor
      · exact fun h result hresult => h (client, result) hresult rfl
      · rintro h ⟨other, result⟩ hunread rfl
        exact h result hunread
    decidable_of_iff _ hiff
  | .close client =>
    have hiff : (∀ unread ∈ s.phase.unread, unread.1 ≠ client) ↔ HandoffSafe s (.close client) := by
      constructor
      · exact fun h result hresult => h (client, result) hresult rfl
      · rintro h ⟨other, result⟩ hunread rfl
        exact h result hunread
    decidable_of_iff _ hiff
  | .send _ => .isTrue trivial
  | .consume _ _ => .isTrue trivial
  | .apply => .isTrue trivial
  | .respond => .isTrue trivial
  | .markConsumed => .isTrue trivial
  | .feed => .isTrue trivial
  | .receive _ _ => .isTrue trivial
  | .serialise _ => .isTrue trivial
  | .reset _ => .isTrue trivial

/-- The one mutation that may be applied and not yet handed over. -/
def TankPhase.betweenApplyAndFeed : TankPhase ClientId → Bool
  | .applied .. => true
  | .sent .. => true
  | .consumed .. => true
  | _ => false

/-- The potty was handed what was applied, in order, up to the mutation in flight. -/
def Handoff.HandsApplied (s : Handoff S ClientId) : Prop :=
  ∃ inFlight : Option SepticTankMutation,
    s.applied.map some = s.handed ++ inFlight.toList.map some ∧
      (s.phase.betweenApplyAndFeed = false → inFlight = none)

end Redic
