import Redic.Foundation.EventRun
import Redic.SepticTank.Handoff

/-! # What is handed over is what was applied

The invariant follows the client the tank is busy with. Until its response is sent the client
waits, so nothing touches its arena; from then on only its own allocations do, and these avoid
the resolved mutation either because the arena was not reset yet or by the condition on the
step.
-/
namespace Redic
open EventRun ClientArena

variable {S ClientId : Type}

def TankPhase.client : TankPhase ClientId → Option ClientId
  | .idle => none
  | .resolved client .. => some client
  | .applied client .. => some client
  | .sent client .. => some client
  | .consumed client .. => some client

/-- The client that waits for the step the tank is in. -/
def TankPhase.serving : TankPhase ClientId → Option ClientId
  | .resolved client .. => some client
  | .applied client .. => some client
  | _ => none

def ClientPhase.isDelivered : ClientPhase → Bool
  | .delivered _ => true
  | _ => false

/-- What the tank relies on in the arena of the client it is busy with. -/
def TankPhase.Relies (phase : TankPhase ClientId) (mutation : Option SepticTankMutation)
    (a : ClientArena) (client : ClientPhase) : Prop :=
  match phase with
  | .idle => True
  | .resolved _ result _ => a.Keeps result mutation ∧ a.KeepsBelow result
  | .applied _ result _ => a.Keeps result mutation ∧ a.KeepsBelow result
  | .sent _ result succeeded response => succeeded = true →
    a.Keeps result mutation ∧ (client.isDelivered = true → a.KeepsBelow result) ∧
      response.size = sizeofSewerMessage ∧
      ∀ kept ∈ footprint a.memory result, kept.Disjoint response
  | .consumed _ result succeeded => succeeded = true →
    a.Keeps result mutation ∧ (client.isDelivered = true → a.KeepsBelow result)

/-- The part of the log still to come from the step the tank is in. -/
def TankPhase.owes (phase : TankPhase ClientId) (mutation : Option SepticTankMutation) :
    Option SepticTankMutation :=
  match phase with
  | .applied _ _ true => mutation
  | .sent _ _ true _ => mutation
  | .consumed _ _ true => mutation
  | _ => none

def Handoff.waiting (s : Handoff S ClientId) : List ClientId :=
  s.phase.serving.toList ++ s.sewer.map Prod.fst

structure Handoff.Inv (s : Handoff S ClientId) : Prop where
  aof : s.tank.aofEnabled = true
  nodup : s.waiting.Nodup
  waits : ∀ client ∈ s.waiting, s.clients client = .waiting
  follows : ∃ mutation,
    s.applied.map some = s.handed ++ (s.phase.owes mutation).toList.map some ∧
      ∀ client, s.phase.client = some client →
        s.phase.Relies mutation (s.arenas client) (s.clients client)

theorem Handoff.Inv.handsApplied {s : Handoff S ClientId} (h : s.Inv) : s.HandsApplied := by
  obtain ⟨mutation, hlog, -⟩ := h.follows
  refine ⟨s.phase.owes mutation, hlog, ?_⟩
  intro hphase
  cases hp : s.phase <;> rw [hp] at hphase <;> first | rfl | cases hphase

theorem handoffStart_inv [KeyStore S] : (handoffStart : Handoff S ClientId).Inv where
  aof := rfl
  nodup := List.nodup_nil
  waits client h := by cases h
  follows := ⟨none, rfl, fun _ h => by cases h⟩

section ClientSteps
variable [DecidableEq ClientId] {s : Handoff S ClientId} {c : ClientId}

/-- A client that is not waiting may change its arena as long as the result the tank has yet to
read stays readable. -/
theorem Handoff.Inv.client_step (h : s.Inv) {a : ClientArena} {phase : ClientPhase}
    (hready : s.clients c ≠ .waiting) (hphase : phase.isDelivered = false)
    (hkeeps : ∀ result mutation, s.phase.unread = some (c, result) →
      (s.arenas c).Keeps result mutation →
      ((s.clients c).isDelivered = true → (s.arenas c).KeepsBelow result) →
      a.Keeps result mutation ∧
        footprint a.memory result = footprint (s.arenas c).memory result) :
    (s.client c a phase).Inv := by
  have hother : ∀ other ∈ s.waiting, other ≠ c := by
    rintro other hmem rfl
    exact hready (h.waits _ hmem)
  obtain ⟨mutation, hlog, hrelies⟩ := h.follows
  refine ⟨h.aof, h.nodup, ?_, mutation, hlog, ?_⟩
  · intro other hmem
    change Function.update s.clients c phase other = .waiting
    rw [Function.update_of_ne (hother other hmem)]
    exact h.waits other hmem
  · intro other hclient
    change s.phase.client = some other at hclient
    change s.phase.Relies mutation (Function.update s.arenas c a other)
      (Function.update s.clients c phase other)
    by_cases heq : other = c
    · subst heq
      rw [Function.update_self, Function.update_self]
      have hold := hrelies other hclient
      cases hp : s.phase with
      | idle => trivial
      | resolved busy result succeeded =>
        rw [hp] at hclient
        cases hclient
        have hmem : other ∈ s.waiting := by simp [Handoff.waiting, hp, TankPhase.serving]
        exact absurd rfl (hother other hmem)
      | applied busy result succeeded =>
        rw [hp] at hclient
        cases hclient
        have hmem : other ∈ s.waiting := by simp [Handoff.waiting, hp, TankPhase.serving]
        exact absurd rfl (hother other hmem)
      | sent busy result succeeded response =>
        rw [hp] at hclient hold
        cases hclient
        rintro rfl
        obtain ⟨hkept, hbelow, hsize, hdisjoint⟩ := hold rfl
        obtain ⟨hkept', hfootprint⟩ := hkeeps result mutation (by rw [hp]; rfl) hkept hbelow
        refine ⟨hkept', fun hdelivered => ?_, hsize, hfootprint ▸ hdisjoint⟩
        rw [hphase] at hdelivered
        cases hdelivered
      | consumed busy result succeeded =>
        rw [hp] at hclient hold
        cases hclient
        rintro rfl
        obtain ⟨hkept, hbelow⟩ := hold rfl
        obtain ⟨hkept', -⟩ := hkeeps result mutation (by rw [hp]; rfl) hkept hbelow
        refine ⟨hkept', fun hdelivered => ?_⟩
        rw [hphase] at hdelivered
        cases hdelivered
    · rw [Function.update_of_ne heq, Function.update_of_ne heq]
      exact hrelies other hclient

end ClientSteps

section TankSteps
variable {s : Handoff S ClientId} {c : ClientId} {result : Region}
  {succeeded : Bool}

theorem Handoff.Inv.serving (h : s.Inv) (hserving : s.phase.serving = some c) :
    s.clients c = .waiting ∧ c ∉ s.sewer.map Prod.fst := by
  have hwaiting : s.waiting = c :: s.sewer.map Prod.fst := by
    simp [Handoff.waiting, hserving]
  have hnodup := h.nodup
  rw [hwaiting] at hnodup
  exact ⟨h.waits c (by simp [hwaiting]), (List.nodup_cons.mp hnodup).1⟩

theorem Handoff.Inv.consume [KeyStore S] [DecidableEq ClientId] (h : s.Inv)
    {operation : SepticTankOperation} {sewer : List (ClientId × SepticTankOperation)}
    (hphase : s.phase = .idle) (hsewer : s.sewer = (c, operation) :: sewer) (ts₁ ts₂ : Timespec) :
    Handoff.Inv { s with
      tank := (septicTankResolve s.tank operation ts₁ ts₂).1
      phase := .resolved c (resolveAllocs (s.arenas c)
        (septicTankResolve s.tank operation ts₁ ts₂).2).2
        (septicTankResolve s.tank operation ts₁ ts₂).2.success
      sewer := sewer
      arenas := Function.update s.arenas c (resolveAllocs (s.arenas c)
        (septicTankResolve s.tank operation ts₁ ts₂).2).1 } := by
  have hwaiting : s.waiting = c :: sewer.map Prod.fst := by
    simp [Handoff.waiting, hphase, hsewer, TankPhase.serving]
  have hnodup := h.nodup
  have hwaits := h.waits
  rw [hwaiting] at hnodup hwaits
  obtain ⟨mutation, hlog, -⟩ := h.follows
  rw [hphase] at hlog
  refine ⟨(septicTankResolve_aofEnabled s.tank operation ts₁ ts₂).trans h.aof, hnodup, hwaits,
    (septicTankResolve s.tank operation ts₁ ts₂).2.resolvedMutation, hlog, ?_⟩
  intro other hclient
  cases hclient
  dsimp only
  rw [Function.update_self]
  exact resolveAllocs_keeps (s.arenas c) _

theorem Handoff.Inv.apply [KeyStore S] (h : s.Inv)
    (hphase : s.phase = .resolved c result succeeded) :
    Handoff.Inv { (if succeeded then s.applyResolved c result else s) with
      phase := .applied c result succeeded } := by
  obtain ⟨mutation, hlog, hrelies⟩ := h.follows
  have hkept := hrelies c (by rw [hphase]; rfl)
  rw [hphase] at hkept hlog
  have hread := hkept.1.read
  have hnodup := h.nodup
  have hwaits := h.waits
  unfold Handoff.waiting at hnodup hwaits
  rw [hphase] at hnodup hwaits
  change s.applied.map some = s.handed ++ [] at hlog
  rw [List.append_nil] at hlog
  cases succeeded with
  | false =>
    refine ⟨h.aof, hnodup, hwaits, mutation, ?_, ?_⟩
    · simpa [TankPhase.owes] using hlog
    · intro other hclient
      cases hclient
      exact hkept
  | true =>
    unfold Handoff.applyResolved
    rw [hread]
    cases mutation with
    | none =>
      refine ⟨h.aof, hnodup, hwaits, none, ?_, ?_⟩
      · simpa [TankPhase.owes] using hlog
      · intro other hclient
        cases hclient
        exact hkept
    | some mutation =>
      refine ⟨?_, hnodup, hwaits, some mutation, ?_, ?_⟩
      · exact (septicTankApplyMutation_aofEnabled s.tank mutation).trans h.aof
      · simp [TankPhase.owes, hlog]
      · intro other hclient
        cases hclient
        exact hkept

theorem Handoff.Inv.respond [DecidableEq ClientId] (h : s.Inv)
    (hphase : s.phase = .applied c result succeeded) :
    Handoff.Inv { s.client c ((s.arenas c).alloc sizeofSewerMessage (.message result false)).1
        (.delivered ((s.arenas c).alloc sizeofSewerMessage (.message result false)).2) with
      phase := .sent c result succeeded
        ((s.arenas c).alloc sizeofSewerMessage (.message result false)).2 } := by
  obtain ⟨hwaits, hgone⟩ := h.serving (c := c) (by rw [hphase]; rfl)
  obtain ⟨mutation, hlog, hrelies⟩ := h.follows
  have hkept := hrelies c (by rw [hphase]; rfl)
  rw [hphase] at hkept hlog
  have hsewer : s.waiting = c :: s.sewer.map Prod.fst := by
    simp [Handoff.waiting, hphase, TankPhase.serving]
  have hnodup := h.nodup
  rw [hsewer] at hnodup
  refine ⟨h.aof, (List.nodup_cons.mp hnodup).2, ?_, mutation, ?_, ?_⟩
  · intro other hmem
    have hne : other ≠ c := by
      rintro rfl
      exact hgone hmem
    change Function.update s.clients c _ other = .waiting
    rw [Function.update_of_ne hne]
    exact h.waits other (hsewer ▸ List.mem_cons_of_mem _ hmem)
  · cases succeeded <;> exact hlog
  · intro other hclient
    cases hclient
    rintro rfl
    dsimp only [Handoff.client]
    rw [Function.update_self]
    obtain ⟨hkeeps, hbelow, hdisjoint⟩ := hkept.1.respond hkept.2 (.message result false)
    exact ⟨hkeeps, fun _ => hbelow, alloc_size, hdisjoint⟩

theorem Handoff.Inv.markConsumed [DecidableEq ClientId] (h : s.Inv) {response : Region}
    (hphase : s.phase = .sent c result succeeded response) :
    Handoff.Inv { s with
      phase := .consumed c result succeeded
      arenas := Function.update s.arenas c ((s.arenas c).markConsumed response) } := by
  obtain ⟨mutation, hlog, hrelies⟩ := h.follows
  have hkept := hrelies c (by rw [hphase]; rfl)
  have hnodup := h.nodup
  have hwaits := h.waits
  unfold Handoff.waiting at hnodup hwaits
  rw [hphase] at hkept hlog hnodup hwaits
  refine ⟨h.aof, hnodup, hwaits, mutation, ?_, ?_⟩
  · cases succeeded <;> exact hlog
  · intro other hclient
    cases hclient
    rintro rfl
    obtain ⟨hkeeps, hbelow, hsize, hdisjoint⟩ := hkept rfl
    obtain ⟨hkeeps', hfootprint⟩ := hkeeps.markConsumed hsize hdisjoint
    dsimp only
    rw [Function.update_self]
    refine ⟨hkeeps', fun hdelivered => ?_⟩
    unfold ClientArena.KeepsBelow
    rw [hfootprint, markConsumed_blocks]
    exact hbelow hdelivered

theorem Handoff.Inv.feed (h : s.Inv) (hphase : s.phase = .consumed c result succeeded) :
    Handoff.Inv { (if s.tank.aofEnabled && succeeded then s.feedResolved c result else s) with
      phase := .idle } := by
  obtain ⟨mutation, hlog, hrelies⟩ := h.follows
  have hkept := hrelies c (by rw [hphase]; rfl)
  have hnodup := h.nodup
  have hwaits := h.waits
  unfold Handoff.waiting at hnodup hwaits
  rw [hphase] at hkept hlog hnodup hwaits
  rw [h.aof, Bool.true_and]
  cases succeeded with
  | false => exact ⟨h.aof, hnodup, hwaits, none, hlog, fun _ hclient => by cases hclient⟩
  | true =>
    have hread := (hkept rfl).1.read
    unfold Handoff.feedResolved
    rw [hread]
    cases mutation with
    | none => exact ⟨h.aof, hnodup, hwaits, none, hlog, fun _ hclient => by cases hclient⟩
    | some mutation =>
      refine ⟨h.aof, hnodup, hwaits, none, ?_, fun _ hclient => by cases hclient⟩
      simpa [TankPhase.owes] using hlog

theorem Handoff.Inv.enqueue (h : s.Inv) (hwaits : s.clients c = .waiting) (hnew : c ∉ s.waiting)
    (operation : SepticTankOperation) :
    Handoff.Inv { s with sewer := s.sewer ++ [(c, operation)] } := by
  have hwaiting : Handoff.waiting { s with sewer := s.sewer ++ [(c, operation)] } =
      s.waiting ++ [c] := by simp [Handoff.waiting]
  refine ⟨h.aof, ?_, ?_, h.follows⟩
  · rw [hwaiting]
    exact List.nodup_append.mpr ⟨h.nodup, List.nodup_singleton c, by
      rintro other hother last hlast rfl
      exact hnew (List.mem_singleton.mp hlast ▸ hother)⟩
  · intro other hmem
    rw [hwaiting, List.mem_append, List.mem_singleton] at hmem
    rcases hmem with hold | rfl
    · exact h.waits other hold
    · exact hwaits

end TankSteps

variable [KeyStore S] [DecidableEq ClientId]

theorem handoffStep_inv {cap : ℕ} {s s' : Handoff S ClientId} {event : HandoffEvent ClientId}
    (h : s.Inv) (hsafe : HandoffSafe s event) (hstep : handoffStep cap s event = some s') :
    s'.Inv := by
  have hcases := handoffStep_cases hstep
  cases event with
  | parse c sizes operation =>
    obtain ⟨hready, rfl⟩ := hcases
    refine h.client_step (by simp [hready]) (by cases operation <;> rfl) ?_
    intro result mutation hunread hkeeps _
    exact hkeeps.allocData sizes (hsafe result hunread)
  | send c =>
    obtain ⟨operation, hsending, rfl⟩ := hcases
    have hsame : (s.client c (s.arenas c) .waiting).Inv :=
      h.client_step (by simp [hsending]) rfl fun _ _ _ hkeeps _ => ⟨hkeeps, rfl⟩
    refine hsame.enqueue (Function.update_self ..) ?_ operation
    intro hmem
    exact absurd (h.waits c hmem) (by simp [hsending])
  | consume ts₁ ts₂ =>
    obtain ⟨c, operation, sewer, hphase, hsewer, rfl⟩ := hcases
    exact h.consume hphase hsewer ts₁ ts₂
  | apply =>
    obtain ⟨c, result, succeeded, hphase, rfl⟩ := hcases
    exact h.apply hphase
  | respond =>
    obtain ⟨c, result, succeeded, hphase, rfl⟩ := hcases
    exact h.respond hphase
  | markConsumed =>
    obtain ⟨c, result, succeeded, response, hphase, rfl⟩ := hcases
    exact h.markConsumed hphase
  | feed =>
    obtain ⟨c, result, succeeded, hphase, rfl⟩ := hcases
    exact h.feed hphase
  | receive c sizes =>
    obtain ⟨response, hdelivered, rfl⟩ := hcases
    refine h.client_step (by simp [hdelivered]) rfl ?_
    intro result mutation _ hkeeps hbelow
    have hbelow' := hbelow (by rw [hdelivered]; rfl)
    exact hkeeps.allocData sizes fun region hregion kept hkept =>
      dataRegions_disjoint (hbelow' kept hkept) sizes region hregion
  | serialise c =>
    obtain ⟨hanswering, rfl⟩ := hcases
    exact h.client_step (by simp [hanswering]) rfl fun _ _ _ hkeeps _ => ⟨hkeeps, rfl⟩
  | reset c =>
    obtain ⟨hserialised, rfl⟩ := hcases
    exact h.client_step (by simp [hserialised]) rfl
      fun _ _ _ hkeeps _ => ⟨⟨hkeeps.read, hkeeps.sized⟩, rfl⟩
  | close c =>
    obtain ⟨hready, rfl⟩ := hcases
    refine h.client_step (by simp [hready]) rfl ?_
    intro result _ hunread
    exact absurd hunread (hsafe result)

/-- In every state of a run that meets the condition, the potty was handed exactly what was
applied, in order, up to the one mutation the tank is about to feed. -/
theorem handoffRun_handsApplied (cap : ℕ) (events : List (HandoffEvent ClientId))
    (s : Handoff S ClientId)
    (hsafe : Guarded (handoffStep cap) HandoffSafe (handoffStart : Handoff S ClientId) events)
    (h : run (handoffStep cap) handoffStart events = some s) : s.HandsApplied := by
  have hinv : s.Inv := run_invariant handoffStart_inv
    (fun _ _ _ hs hguard hstep => handoffStep_inv hs hguard hstep) hsafe h
  exact hinv.handsApplied

/-- The client's allocations for `SET a` with a value of the given length. -/
def setCommandSizes (length : ℕ) : List ℕ :=
  [8, 40, 48, 16, 16, 4, 16, 16, 2, 16, 16, length + 1, 16, 40, 34, 16, 9, 16, length + 8,
    16, 16, 16, 16, 16, 16]

def setCommand (value : DataString) : SepticTankOperation :=
  .set ⟨[97], value, false, false, false, ⟨.noExpire, 0⟩⟩

/-- The client parses its next command while the tank has yet to read the mutation of the first, but
into bytes in front of it. -/
theorem handoffRun_handsApplied_window :
    let ts := Timespec.atSecond 1 (by decide) (by decide)
    let events : List (HandoffEvent Bool) :=
      [.parse true (setCommandSizes 1) (some (setCommand [49])), .send true, .consume ts ts, .apply,
        .respond, .receive true [8], .serialise true, .reset true,
        .parse true (setCommandSizes 1) (some (setCommand [50])), .markConsumed, .feed, .send true,
        .consume ts ts, .apply, .respond, .receive true [8], .markConsumed, .feed]
    ∃ before s : Handoff FiniteStore Bool,
      run (handoffStep 100) handoffStart (events.take 8) = some before ∧
        before.phase.unread ≠ none ∧ run (handoffStep 100) handoffStart events = some s ∧
        s.handed = [some (.set ⟨[97], [49], -1⟩), some (.set ⟨[97], [50], -1⟩)] ∧
        s.HandsApplied := by
  intro ts events
  have hbefore : (run (handoffStep 100) (handoffStart : Handoff FiniteStore Bool)
      (events.take 8)).map (fun s => s.phase.unread.isSome) = some true := by decide +kernel
  have hrun : (run (handoffStep 100) (handoffStart : Handoff FiniteStore Bool) events).map
      Handoff.handed = some [some (.set ⟨[97], [49], -1⟩), some (.set ⟨[97], [50], -1⟩)] := by
    decide +kernel
  have hsafe : Guarded (handoffStep 100) HandoffSafe (handoffStart : Handoff FiniteStore Bool)
      events := by decide +kernel
  obtain ⟨before, hbefore, hunread⟩ := Option.map_eq_some_iff.mp hbefore
  obtain ⟨s, hs, hhanded⟩ := Option.map_eq_some_iff.mp hrun
  refine ⟨before, s, hbefore, ?_, hs, hhanded, handoffRun_handsApplied 100 events s hsafe hs⟩
  exact Option.isSome_iff_ne_none.mp hunread

/-- The client parses its next command before the tank has read the mutation again: the bytes of
the second value lie where the first result was. -/
theorem handoffRun_overwritten :
    ¬ ∀ (cap : ℕ) (events : List (HandoffEvent Bool)) (s : Handoff FiniteStore Bool),
      run (handoffStep cap) handoffStart events = some s → s.HandsApplied := by
  intro h
  have hrun : (run (handoffStep 100) (handoffStart : Handoff FiniteStore Bool)
      [.parse true (setCommandSizes 1) (some (setCommand [49])), .send true,
        .consume (.atSecond 1 (by decide) (by decide)) (.atSecond 1 (by decide) (by decide)),
        .apply, .respond, .receive true [8], .serialise true, .reset true,
        .parse true (setCommandSizes 1000) (some (setCommand (List.replicate 1000 50))),
        .markConsumed, .feed]).map (fun s => (s.phase, s.applied, s.handed)) =
      some (.idle, [.set ⟨[97], [49], -1⟩], [none]) := by decide +kernel
  obtain ⟨s, hs, hfields⟩ := Option.map_eq_some_iff.mp hrun
  simp only [Prod.mk.injEq] at hfields
  obtain ⟨hphase, happlied, hhanded⟩ := hfields
  obtain ⟨inFlight, hlog, hidle⟩ := h 100 _ s hs
  obtain rfl := hidle (by rw [hphase]; rfl)
  rw [happlied, hhanded] at hlog
  simp at hlog

end Redic
