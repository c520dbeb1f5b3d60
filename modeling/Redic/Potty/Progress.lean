import Redic.Potty.Pipeline

/-! # The pipeline runs dry

As long as anything fed is not in the file, a thread of the potty has a step that brings it
closer. A mutation weighs the more the further it has to go, an empty look at the clock weighs
something too, and every such step makes the whole lighter.
-/
namespace Redic

def PipelineEvent.isFeed : PipelineEvent → Bool
  | .feed _ => true
  | _ => false

namespace Pipeline

def jobWork (job : FlushJob) : ℕ := 2 * job.length + 3

def drainWork : DrainPhase → ℕ
  | .looping => 1
  | .flushing unwritten => 2 * unwritten.length + 2

/-- The potty thread has something to do where its waste can be flushed, or where a decision is
due although there is none. -/
def pumpWork : List SepticTankMutation → PumpPhase → ℕ
  | [], .polling => 0
  | [], .deciding => 1
  | _ :: _, .polling => 1
  | _ :: _, .deciding => 0

/-- How much is left until everything fed is in the file and the threads are idle. -/
def work (s : Pipeline) : ℕ :=
  12 * s.sewer.length + 8 * s.waste.length + (s.flushJobs.map jobWork).sum +
    (s.drains.map drainWork).sum + pumpWork s.waste s.pump

theorem pumpWork_le (waste : List SepticTankMutation) (pump : PumpPhase) :
    pumpWork waste pump ≤ 1 := by
  cases waste <;> cases pump <;> simp [pumpWork]

def Advances (cap : ℕ) (s : Pipeline) : Prop :=
  ∃ event s', event.isFeed = false ∧ pipelineStep cap s event = some s' ∧
    s'.work < s.work

/-- A flush weighs less as a job and a flusher for it than as waste. -/
theorem work_pottyFlush {s : Pipeline} {mutation : SepticTankMutation}
    {waste : List SepticTankMutation} (hwaste : s.waste = mutation :: waste) :
    { s.pottyFlush with pump := .polling }.work < s.work := by
  simp only [work, pottyFlush, hwaste, if_neg (List.cons_ne_nil mutation waste), List.map_append,
    List.sum_append, List.map_cons, List.map_nil, List.sum_cons, List.sum_nil, jobWork, pumpWork,
    List.length_cons, List.length_nil]
  split
  · omega
  · simp only [List.map_append, List.sum_append, List.map_cons, List.map_nil, List.sum_cons,
      List.sum_nil, drainWork]
    omega

theorem advances_pump {cap : ℕ} {s : Pipeline} (hbusy : s.sewer ≠ [] ∨ s.waste ≠ []) :
    Advances cap s := by
  cases hpump : s.pump with
  | polling =>
    cases hsewer : s.sewer with
    | nil =>
      refine ⟨.timeout, { s with pump := .deciding }, rfl, by simp [pipelineStep, hpump], ?_⟩
      obtain ⟨mutation, waste, hwaste⟩ :=
        List.exists_cons_of_ne_nil (hbusy.resolve_left fun h => h hsewer)
      simp [work, hwaste, hpump, pumpWork]
    | cons mutation sewer =>
      refine ⟨.consume, _, rfl, by simp [pipelineStep, hpump, hsewer]; rfl, ?_⟩
      have hle := pumpWork_le (s.waste ++ [mutation]) .deciding
      simp only [work, hsewer, List.length_append, List.length_cons, List.length_nil]
      omega
  | deciding =>
    have hstep : pipelineStep cap s (.decide true) =
        some { s.pottyFlush with pump := .polling } := by
      simp [pipelineStep, hpump, shouldFlush]
    refine ⟨.decide true, _, rfl, hstep, ?_⟩
    cases hwaste : s.waste with
    | nil => simp [work, pottyFlush, hwaste, hpump, pumpWork]
    | cons mutation waste => exact work_pottyFlush hwaste

end Pipeline

end Redic
