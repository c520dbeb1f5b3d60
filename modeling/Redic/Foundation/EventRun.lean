import Mathlib.Data.List.Induction
import Mathlib.Data.List.Infix

/-! # Runs of a partial step function

A system takes one event at a time; an event that is not enabled has no successor. A run is
guarded when every event meets a condition in the state it is taken in.
-/
namespace Redic.EventRun

variable {σ ε : Type} (step : σ → ε → Option σ)

def run (s : σ) (events : List ε) : Option σ := events.foldlM step s

def Guarded (guard : σ → ε → Prop) (s : σ) (events : List ε) : Prop :=
  ∀ done event s', done ++ [event] <+: events → run step s done = some s' → guard s' event

variable {step} {s s' : σ} {events done : List ε}

theorem run_append (event : ε) :
    run step s (events ++ [event]) = (run step s events).bind fun s' => step s' event := by
  rw [run, List.foldlM_append]
  cases h : events.foldlM step s with
  | none => simp [run, h]
  | some s' => simp [run, h]

/-- A run that goes through has gone through every prefix. -/
theorem run_done (h : (run step s events).isSome = true) (hdone : done <+: events) :
    ∃ s', run step s done = some s' := by
  obtain ⟨rest, rfl⟩ := hdone
  rw [run, List.foldlM_append] at h
  cases hrun : run step s done with
  | none =>
    rw [run] at hrun
    rw [hrun] at h
    cases h
  | some s' => exact ⟨s', rfl⟩

theorem Guarded.mono {guard : σ → ε → Prop} (h : Guarded step guard s events)
    (hdone : done <+: events) : Guarded step guard s done :=
  fun before event s' hbefore => h before event s' (hbefore.trans hdone)

theorem guarded_cons {guard : σ → ε → Prop} {event : ε} : Guarded step guard s (event :: events) ↔
    guard s event ∧ ∀ s', step s event = some s' → Guarded step guard s' events := by
  constructor
  · intro h
    refine ⟨h [] event s (by simp) rfl, ?_⟩
    intro s' hstep done next s'' hdone hrun
    refine h (event :: done) next s'' (List.cons_prefix_cons.mpr ⟨rfl, hdone⟩) ?_
    rw [run, List.foldlM_cons, hstep]
    exact hrun
  · rintro ⟨hfirst, hrest⟩ done next s'' hdone hrun
    cases done with
    | nil =>
      cases hrun
      rw [List.nil_append, List.cons_prefix_cons] at hdone
      exact hdone.1 ▸ hfirst
    | cons first done =>
      rw [List.cons_append, List.cons_prefix_cons] at hdone
      obtain ⟨rfl, hdone⟩ := hdone
      rw [run, List.foldlM_cons] at hrun
      obtain ⟨s', hstep, hrun⟩ := Option.bind_eq_some_iff.mp hrun
      exact hrest s' hstep done next s'' hdone hrun

/-- Whether every event meets a guard that can be evaluated. -/
def guardedSteps (step : σ → ε → Option σ) (guard : σ → ε → Prop)
    [∀ s event, Decidable (guard s event)] : σ → List ε → Bool
  | _, [] => true
  | s, event :: events =>
    decide (guard s event) && (step s event).all fun s' => guardedSteps step guard s' events

theorem guardedSteps_iff {guard : σ → ε → Prop} [∀ s event, Decidable (guard s event)] :
    guardedSteps step guard s events = true ↔ Guarded step guard s events := by
  induction events generalizing s with
  | nil =>
    refine ⟨?_, fun _ => rfl⟩
    intro _ done event s' hdone _
    simp at hdone
  | cons event events ih =>
    rw [guardedSteps, Bool.and_eq_true, decide_eq_true_eq, Option.all_eq_true, guarded_cons]
    simp only [ih]

instance {guard : σ → ε → Prop} [∀ s event, Decidable (guard s event)] :
    Decidable (Guarded step guard s events) := decidable_of_iff _ guardedSteps_iff

theorem guarded_of_forall {guard : σ → ε → Prop} (h : ∀ event ∈ events, ∀ s, guard s event) :
    Guarded step guard s events := by
  intro done event s' hdone _
  exact h event (hdone.subset (by simp)) s'

/-- What holds at the start and is kept by every guarded step holds after a guarded run. -/
theorem run_invariant {guard : σ → ε → Prop} {inv : σ → Prop} (hinit : inv s)
    (hkeep : ∀ s event s', inv s → guard s event → step s event = some s' → inv s')
    (hguard : Guarded step guard s events) (h : run step s events = some s') : inv s' := by
  induction events using List.reverseRecOn generalizing s' with
  | nil =>
    cases h
    exact hinit
  | append_singleton events event ih =>
    rw [run_append, Option.bind_eq_some_iff] at h
    obtain ⟨before, hrun, hstep⟩ := h
    have hbefore := ih (hguard.mono (List.prefix_append _ _)) hrun
    exact hkeep before event s' hbefore (hguard events event before List.prefix_rfl hrun) hstep

/-- What holds at the start and is kept by every step holds after every run. -/
theorem run_preserves {inv : σ → Prop} (hinit : inv s)
    (hkeep : ∀ s event s', inv s → step s event = some s' → inv s')
    (h : run step s events = some s') : inv s' := by
  have hguard : Guarded step (fun _ _ => True) s events := guarded_of_forall fun _ _ _ => trivial
  exact run_invariant hinit (fun s event s' hinv _ hstep => hkeep s event s' hinv hstep) hguard h

/-- What every guarded step moves forward, a guarded run moves forward. -/
theorem run_monotone {guard : σ → ε → Prop} {inv : σ → Prop} {r : σ → σ → Prop}
    (hrefl : ∀ s, r s s) (htrans : ∀ a b c, r a b → r b c → r a c) (hinit : inv s)
    (hkeep : ∀ s event s', inv s → guard s event → step s event = some s' → inv s' ∧ r s s')
    (hguard : Guarded step guard s events) (h : run step s events = some s') : r s s' := by
  induction events generalizing s with
  | nil =>
    cases h
    exact hrefl _
  | cons event events ih =>
    obtain ⟨hfirst, hrest⟩ := guarded_cons.mp hguard
    rw [run, List.foldlM_cons] at h
    obtain ⟨between, hstep, hrun⟩ := Option.bind_eq_some_iff.mp h
    obtain ⟨hinv, hforward⟩ := hkeep s event between hinit hfirst hstep
    exact htrans _ _ _ hforward (ih hinv (hrest between hstep) hrun)

theorem run_trans {s'' : σ} {more : List ε} (h : run step s events = some s')
    (hmore : run step s' more = some s'') : run step s (events ++ more) = some s'' := by
  rw [run] at h hmore ⊢
  rw [List.foldlM_append, h]
  exact hmore

section Simulation
variable {τ δ : Type} {other : τ → δ → Option τ} {rel : σ → τ → Prop} {t : τ}

/-- Every step is matched by a run of the other system. -/
def Simulates (step : σ → ε → Option σ) (other : τ → δ → Option τ) (rel : σ → τ → Prop) : Prop :=
  ∀ s t event s', rel s t → step s event = some s' →
    ∃ more t', run other t more = some t' ∧ rel s' t'

/-- So is every run, and what a run begins with by what the other one begins with. -/
theorem Simulates.exists_run (h : Simulates step other rel) (hinit : rel s t)
    (hrun : run step s events = some s') :
    ∃ matched t', run other t matched = some t' ∧ rel s' t' ∧
      ∀ before s₀, before <+: events → run step s before = some s₀ →
        ∃ done t₀, done <+: matched ∧ run other t done = some t₀ ∧ rel s₀ t₀ := by
  induction events using List.reverseRecOn generalizing s' with
  | nil =>
    cases hrun
    refine ⟨[], t, rfl, hinit, ?_⟩
    intro before s₀ hbefore hrun
    cases List.prefix_nil.mp hbefore
    cases hrun
    exact ⟨[], t, List.prefix_rfl, rfl, hinit⟩
  | append_singleton events event ih =>
    have hall := hrun
    rw [run_append, Option.bind_eq_some_iff] at hrun
    obtain ⟨between, hrun, hstep⟩ := hrun
    obtain ⟨matched, t₁, hmatched, hrel, hbefores⟩ := ih hrun
    obtain ⟨more, t', hmore, hrel'⟩ := h between t₁ event s' hrel hstep
    refine ⟨matched ++ more, t', run_trans hmatched hmore, hrel', ?_⟩
    intro before s₀ hbefore hrun₀
    rcases List.prefix_concat_iff.mp hbefore with rfl | hbefore
    · cases hall.symm.trans hrun₀
      exact ⟨_, t', List.prefix_rfl, run_trans hmatched hmore, hrel'⟩
    · obtain ⟨done, t₀, hdone, hrest⟩ := hbefores before s₀ hbefore hrun₀
      exact ⟨done, t₀, hdone.trans (List.prefix_append _ _), hrest⟩

end Simulation

end Redic.EventRun
