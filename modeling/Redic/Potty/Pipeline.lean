import Redic.Foundation.EventRun
import Redic.SepticTank.Operation

/-! # From the tank to the file

The tank thread feeds the potty's sewer, the potty thread collects what it consumes as waste and
swaps the waste for a queued flush job, and a detached flusher writes the jobs until none is
left. A section under a mutex is one step, together with the thread's work on data of its own up
to its next section; the records of a job are written one step each. The clock only decides
whether the potty thread flushes, so it decides freely below the threshold.
-/
namespace Redic
open EventRun

abbrev FlushJob := List SepticTankMutation

def flushItemsThreshold : ℕ := 500

inductive PumpPhase
  | polling
  | deciding
  deriving DecidableEq, Repr

/-- A thread in `potty_drain`: before its next look at the queue, or in `perform_flush`. -/
inductive DrainPhase
  | looping
  | flushing (unwritten : FlushJob)
  deriving DecidableEq, Repr

structure Pipeline where
  sewer : List SepticTankMutation
  pump : PumpPhase
  waste : List SepticTankMutation
  flushJobs : List FlushJob
  flusherRunning : Bool
  drains : List DrainPhase
  file : List SepticTankMutation
  fed : List SepticTankMutation
  deriving DecidableEq, Repr

inductive PipelineEvent
  | feed (mutation : SepticTankMutation)
  | consume
  | timeout
  | decide (overdue : Bool)
  | grab (drain : ℕ)
  | write (drain : ℕ)
  | finish (drain : ℕ)
  deriving DecidableEq, Repr

def pottyCreate : Pipeline :=
  { sewer := [], pump := .polling, waste := [], flushJobs := [], flusherRunning := false,
    drains := [], file := [], fed := [] }

namespace Pipeline

/-- `overdue` is the outcome of the comparison with the last flush. -/
def shouldFlush (s : Pipeline) (overdue : Bool) : Bool :=
  Decidable.decide (flushItemsThreshold ≤ s.waste.length) || overdue

def pottyFlush (s : Pipeline) : Pipeline :=
  if s.waste = [] then s
  else
    { s with
      waste := []
      flushJobs := s.flushJobs ++ [s.waste]
      drains := if s.flusherRunning then s.drains else s.drains ++ [.looping]
      flusherRunning := true }

/-- The section of `potty_drain` under the flusher mutex. -/
def grabJob (s : Pipeline) (drain : ℕ) : Pipeline :=
  match s.flushJobs with
  | [] => { s with flusherRunning := false, drains := s.drains.eraseIdx drain }
  | job :: flushJobs =>
    { s with flushJobs := flushJobs, drains := s.drains.set drain (.flushing job) }

end Pipeline

def pipelineStep (cap : ℕ) (s : Pipeline) : PipelineEvent → Option Pipeline
  | .feed mutation =>
    if s.sewer.length < cap then
      some { s with sewer := s.sewer ++ [mutation], fed := s.fed ++ [mutation] }
    else none
  | .consume =>
    match s.pump, s.sewer with
    | .polling, mutation :: sewer =>
      some { s with pump := .deciding, sewer := sewer, waste := s.waste ++ [mutation] }
    | _, _ => none
  | .timeout =>
    match s.pump with
    | .polling => some { s with pump := .deciding }
    | .deciding => none
  | .decide overdue =>
    match s.pump with
    | .deciding =>
      let s' := if s.shouldFlush overdue then s.pottyFlush else s
      some { s' with pump := .polling }
    | .polling => none
  | .grab drain =>
    match s.drains[drain]? with
    | some .looping => some (s.grabJob drain)
    | _ => none
  | .write drain =>
    match s.drains[drain]? with
    | some (.flushing (mutation :: unwritten)) =>
      some { s with
        file := s.file ++ [mutation]
        drains := s.drains.set drain (.flushing unwritten) }
    | _ => none
  | .finish drain =>
    match s.drains[drain]? with
    | some (.flushing []) => some { s with drains := s.drains.set drain .looping }
    | _ => none

def DrainPhase.unwritten : DrainPhase → FlushJob
  | .looping => []
  | .flushing unwritten => unwritten

def DrainPhase.isFlushing : DrainPhase → Bool
  | .looping => false
  | .flushing _ => true

namespace Pipeline

def unwritten (s : Pipeline) : List SepticTankMutation := s.drains.flatMap DrainPhase.unwritten

/-- Everything fed is on its way, once and in order. -/
def Accounts (s : Pipeline) : Prop :=
  s.file ++ s.unwritten ++ s.flushJobs.flatten ++ s.waste ++ s.sewer = s.fed

/-- One flusher lives exactly while the flag is set, and no job is left without one. -/
structure Inv (s : Pipeline) : Prop where
  accounts : s.Accounts
  flushers : s.drains.length = if s.flusherRunning then 1 else 0
  manned : s.flusherRunning = false → s.flushJobs = []

theorem pottyCreate_inv : pottyCreate.Inv := ⟨rfl, rfl, fun _ => rfl⟩

theorem Inv.drains_eq {s : Pipeline} (h : s.Inv) {drain : ℕ} {phase : DrainPhase}
    (hphase : s.drains[drain]? = some phase) :
    drain = 0 ∧ s.drains = [phase] ∧ s.flusherRunning = true := by
  have hlen := h.flushers
  obtain ⟨hlt, hget⟩ := List.getElem?_eq_some_iff.mp hphase
  split at hlen
  · rename_i hrunning
    obtain ⟨only, honly⟩ := List.length_eq_one_iff.mp hlen
    have hzero : drain = 0 := by omega
    subst hzero
    rw [honly] at hphase
    cases hphase
    exact ⟨rfl, honly, hrunning⟩
  · omega

theorem Inv.pottyFlush {s : Pipeline} (h : s.Inv) : s.pottyFlush.Inv := by
  unfold Pipeline.pottyFlush
  split
  · exact h
  · have haccounts := h.accounts
    have hflushers := h.flushers
    unfold Accounts Pipeline.unwritten at haccounts
    cases hrunning : s.flusherRunning with
    | true =>
      rw [hrunning] at hflushers
      refine ⟨?_, hflushers, fun hstopped => by cases hstopped⟩
      simpa [Accounts, Pipeline.unwritten, List.flatten_append] using haccounts
    | false =>
      rw [hrunning] at hflushers
      refine ⟨?_, ?_, fun hstopped => by cases hstopped⟩
      · simpa [Accounts, Pipeline.unwritten, DrainPhase.unwritten, List.flatten_append]
          using haccounts
      · simpa using hflushers

theorem Inv.grabJob {s : Pipeline} (h : s.Inv) {drain : ℕ}
    (hphase : s.drains[drain]? = some .looping) : (s.grabJob drain).Inv := by
  obtain ⟨rfl, hdrains, hrunning⟩ := h.drains_eq hphase
  have haccounts := h.accounts
  unfold Accounts Pipeline.unwritten at haccounts
  rw [hdrains] at haccounts
  unfold Pipeline.grabJob
  cases hjobs : s.flushJobs with
  | nil =>
    rw [hjobs] at haccounts
    refine ⟨?_, ?_, fun _ => rfl⟩
    · simpa [Accounts, Pipeline.unwritten, DrainPhase.unwritten, hdrains] using haccounts
    · simp [hdrains]
  | cons job flushJobs =>
    rw [hjobs] at haccounts
    refine ⟨?_, ?_, ?_⟩
    · simpa [Accounts, Pipeline.unwritten, DrainPhase.unwritten, hdrains] using haccounts
    · simp [hdrains, hrunning]
    · intro hstopped
      rw [hrunning] at hstopped
      cases hstopped

theorem Inv.drained {s : Pipeline} (h : s.Inv) {drain : ℕ} {phase : DrainPhase}
    (hphase : s.drains[drain]? = some phase) (written : List SepticTankMutation)
    (next : DrainPhase) (hwork : written ++ next.unwritten = phase.unwritten) :
    { s with file := s.file ++ written, drains := s.drains.set drain next }.Inv := by
  obtain ⟨rfl, hdrains, -⟩ := h.drains_eq hphase
  have haccounts := h.accounts
  unfold Accounts Pipeline.unwritten at haccounts
  rw [hdrains] at haccounts
  refine ⟨?_, ?_, h.manned⟩
  · simpa [Accounts, Pipeline.unwritten, hdrains, ← hwork] using haccounts
  · rw [← h.flushers]
    exact List.length_set

theorem pipelineStep_inv {cap : ℕ} {s s' : Pipeline} {event : PipelineEvent} (h : s.Inv)
    (hstep : pipelineStep cap s event = some s') : s'.Inv := by
  have haccounts := h.accounts
  unfold Accounts at haccounts
  cases event with
  | feed mutation =>
    simp only [pipelineStep] at hstep
    split at hstep
    · cases hstep
      refine ⟨?_, h.flushers, h.manned⟩
      rw [Accounts, ← haccounts]
      simp [Pipeline.unwritten]
    · cases hstep
  | consume =>
    simp only [pipelineStep] at hstep
    split at hstep
    · rename_i mutation sewer hpump hsewer
      cases hstep
      refine ⟨?_, h.flushers, h.manned⟩
      rw [hsewer] at haccounts
      simpa [Accounts, Pipeline.unwritten] using haccounts
    · cases hstep
  | timeout =>
    simp only [pipelineStep] at hstep
    split at hstep
    · cases hstep
      exact ⟨haccounts, h.flushers, h.manned⟩
    · cases hstep
  | decide overdue =>
    simp only [pipelineStep] at hstep
    split at hstep
    · cases hstep
      split
      · have hflush := h.pottyFlush
        exact ⟨hflush.accounts, hflush.flushers, hflush.manned⟩
      · exact ⟨haccounts, h.flushers, h.manned⟩
    · cases hstep
  | grab drain =>
    simp only [pipelineStep] at hstep
    split at hstep
    · rename_i hphase
      cases hstep
      exact h.grabJob hphase
    · cases hstep
  | write drain =>
    simp only [pipelineStep] at hstep
    split at hstep
    · rename_i mutation unwritten hphase
      cases hstep
      exact h.drained hphase [mutation] (.flushing unwritten) rfl
    · cases hstep
  | finish drain =>
    simp only [pipelineStep] at hstep
    split at hstep
    · rename_i hphase
      cases hstep
      have hdrained := h.drained hphase [] .looping rfl
      rwa [List.append_nil] at hdrained
    · cases hstep

end Pipeline

open Pipeline

/-- In every state a run reaches, the file, the unwritten rest of the job in hand, the queued
jobs, the waste and the sewer hold exactly what was fed, in order, and at most one flusher is
between taking a job and finishing it. -/
theorem pipelineRun_accounts (cap : ℕ) (events : List PipelineEvent) (s : Pipeline)
    (h : run (pipelineStep cap) pottyCreate events = some s) :
    s.file ++ s.unwritten ++ s.flushJobs.flatten ++ s.waste ++ s.sewer = s.fed ∧
      (s.drains.filter DrainPhase.isFlushing).length ≤ 1 := by
  have hinv : s.Inv :=
    run_preserves pottyCreate_inv (fun _ _ _ hs hstep => pipelineStep_inv hs hstep) h
  refine ⟨hinv.accounts, ?_⟩
  have hfilter := List.length_filter_le DrainPhase.isFlushing s.drains
  have hflushers := hinv.flushers
  split at hflushers <;> omega

/-- A flush is queued while the job before it is half written. -/
theorem pipelineRun_accounts_two_jobs :
    let m₁ : SepticTankMutation := .set ⟨[97], [49], -1⟩
    let m₂ : SepticTankMutation := .del [97]
    let m₃ : SepticTankMutation := .expire ⟨[98], 5000⟩
    ∃ s, run (pipelineStep 100) pottyCreate
        [.feed m₁, .feed m₂, .consume, .decide false, .consume, .decide true, .grab 0, .write 0,
          .feed m₃, .consume, .decide true, .feed m₁] = some s ∧
      (s.file ++ s.unwritten ++ s.flushJobs.flatten ++ s.waste ++ s.sewer = s.fed ∧
        (s.drains.filter DrainPhase.isFlushing).length ≤ 1) ∧
      (s.file, s.unwritten, s.flushJobs, s.waste, s.sewer) = ([m₁], [m₂], [[m₃]], [], [m₁]) := by
  intro m₁ m₂ m₃
  have hrun : (run (pipelineStep 100) pottyCreate
      [.feed m₁, .feed m₂, .consume, .decide false, .consume, .decide true, .grab 0, .write 0,
        .feed m₃, .consume, .decide true, .feed m₁]).map
      (fun s => (s.file, s.unwritten, s.flushJobs, s.waste, s.sewer)) =
      some ([m₁], [m₂], [[m₃]], [], [m₁]) := by decide +kernel
  obtain ⟨s, hs, hfields⟩ := Option.map_eq_some_iff.mp hrun
  exact ⟨s, hs, pipelineRun_accounts 100 _ s hs, hfields⟩

end Redic
