import Redic.Foundation.ArenaHeap
import Redic.Potty.Pipeline

/-! # The potty and its arenas

A message carries a clone of its mutation in an arena of its own. The potty thread clones it once
more into the arena of the waste and destroys the message, a flush job takes the waste along with
its arena, and a flusher destroys the arena when it has written the job. So the lists of the
pipeline are pointers here. What the flusher writes is what is in memory by then, a step that
touches an arena which is not alive has no successor, and the clock is read where the source reads
it. The queue of flush jobs is a list; what the vector under it does to its own storage is in
`Redic.Hector`. The fields `looked`, `file` and `fed` only record what happened.
-/
namespace Redic
open ArenaHeap EventRun

def flushTimeout : UInt64 := 1000

structure PottyMessage where
  value : Pointer
  arena : ℕ
  deriving DecidableEq, Repr

structure QueuedFlush where
  waste : List Pointer
  arena : ℕ
  ts : UInt64
  deriving DecidableEq, Repr

/-- A thread in `potty_drain`, with the job it has taken. -/
inductive Flusher
  | looping
  | flushing (job : QueuedFlush) (unwritten : List Pointer)
  deriving DecidableEq, Repr

structure Potty where
  heap : Heap SepticTankMutation
  sewer : List PottyMessage
  pump : PumpPhase
  arena : ℕ
  waste : List Pointer
  flushJobs : List QueuedFlush
  flusherRunning : Bool
  lastFlushTs : UInt64
  flushers : List Flusher
  looked : UInt64
  file : List SepticTankMutation
  fed : List SepticTankMutation

/-- The address is where the allocator puts the arena that the step creates. `nowMs` is the
reading of `should_flush` and `now` the one of `potty_flush`. -/
inductive PottyEvent
  | feed (mutation : SepticTankMutation) (address : ℕ)
  | consume
  | timeout
  | decide (nowMs now : UInt64) (address : ℕ)
  | grab (flusher : ℕ)
  | write (flusher : ℕ)
  | finish (flusher : ℕ)
  deriving DecidableEq, Repr

namespace Potty

def launch (address : ℕ) (now : UInt64) : Potty where
  heap := Function.update (fun _ => none) address (some [])
  sewer := []
  pump := .polling
  arena := address
  waste := []
  flushJobs := []
  flusherRunning := false
  lastFlushTs := now
  flushers := []
  looked := now
  file := []
  fed := []

def overdue (s : Potty) (nowMs : UInt64) : Bool :=
  Decidable.decide (s.lastFlushTs + flushTimeout < nowMs)

def shouldFlush (s : Potty) (nowMs : UInt64) : Bool :=
  if flushItemsThreshold ≤ s.waste.length then true else s.overdue nowMs

def pottyFlush (s : Potty) (now : UInt64) (address : ℕ) : Option Potty :=
  if s.waste = [] then some { s with lastFlushTs := now, looked := now }
  else do
    let heap ← create s.heap address
    some { s with
      heap := heap
      arena := address
      waste := []
      flushJobs := s.flushJobs ++ [⟨s.waste, s.arena, now⟩]
      flushers := if s.flusherRunning then s.flushers else s.flushers ++ [.looping]
      flusherRunning := true
      lastFlushTs := now
      looked := now }

/-- The clone goes to the arena of the waste. -/
def pottyPoop (s : Potty) (mutation : SepticTankMutation) : Option Potty := do
  let (heap, clone) ← alloc s.heap s.arena mutation
  some { s with heap := heap, waste := s.waste ++ [clone] }

def feed (cap : ℕ) (s : Potty) (mutation : SepticTankMutation) (address : ℕ) : Option Potty :=
  if s.sewer.length < cap then do
    let heap ← create s.heap address
    let (heap, clone) ← alloc heap address mutation
    some { s with
      heap := heap
      sewer := s.sewer ++ [⟨clone, address⟩]
      fed := s.fed ++ [mutation] }
  else none

def consume (s : Potty) : Option Potty :=
  match s.pump, s.sewer with
  | .polling, message :: sewer => do
    let mutation ← load s.heap message.value
    let s ← s.pottyPoop mutation
    let heap ← destroy s.heap message.arena
    some { s with heap := heap, sewer := sewer, pump := .deciding }
  | _, _ => none

def decide (s : Potty) (nowMs now : UInt64) (address : ℕ) : Option Potty :=
  match s.pump with
  | .deciding =>
    if s.shouldFlush nowMs then { s with pump := .polling }.pottyFlush now address
    else some { s with pump := .polling, looked := nowMs }
  | .polling => none

def grab (s : Potty) (flusher : ℕ) : Option Potty :=
  match s.flushers[flusher]?, s.flushJobs with
  | some .looping, [] =>
    some { s with flusherRunning := false, flushers := s.flushers.eraseIdx flusher }
  | some .looping, job :: flushJobs =>
    some { s with
      flushJobs := flushJobs
      flushers := s.flushers.set flusher (.flushing job job.waste) }
  | _, _ => none

def write (s : Potty) (flusher : ℕ) : Option Potty :=
  match s.flushers[flusher]? with
  | some (.flushing job (pointer :: unwritten)) => do
    let mutation ← load s.heap pointer
    some { s with
      flushers := s.flushers.set flusher (.flushing job unwritten)
      file := s.file ++ [mutation] }
  | _ => none

def finish (s : Potty) (flusher : ℕ) : Option Potty :=
  match s.flushers[flusher]? with
  | some (.flushing job []) => do
    let heap ← destroy s.heap job.arena
    some { s with heap := heap, flushers := s.flushers.set flusher .looping }
  | _ => none

/-- One step, with the capacity of the sewer. -/
def step (cap : ℕ) (s : Potty) : PottyEvent → Option Potty
  | .feed mutation address => s.feed cap mutation address
  | .consume => s.consume
  | .timeout =>
    match s.pump with
    | .polling => some { s with pump := .deciding }
    | .deciding => none
  | .decide nowMs now address => s.decide nowMs now address
  | .grab flusher => s.grab flusher
  | .write flusher => s.write flusher
  | .finish flusher => s.finish flusher

end Potty

def PottyMessage.block (message : PottyMessage) : Block := ⟨message.arena, [message.value]⟩

def QueuedFlush.block (job : QueuedFlush) : Block := ⟨job.arena, job.waste⟩

namespace Flusher

def blocks : Flusher → List Block
  | looping => []
  | flushing job unwritten => [⟨job.arena, unwritten⟩]

def forget (heap : Heap SepticTankMutation) : Flusher → DrainPhase
  | looping => .looping
  | flushing _ unwritten => .flushing (values heap unwritten)

end Flusher

namespace Potty

/-- Who has which arena: the flushers, the queued jobs, the waste and the messages. -/
def blocks (s : Potty) : List Block :=
  s.flushers.flatMap Flusher.blocks ++ s.flushJobs.map QueuedFlush.block ++
    ⟨s.arena, s.waste⟩ :: s.sewer.map PottyMessage.block

/-- The pipeline that a potty is when its pointers are followed. -/
def forget (s : Potty) : Pipeline where
  sewer := values s.heap (s.sewer.map PottyMessage.value)
  pump := s.pump
  waste := values s.heap s.waste
  flushJobs := s.flushJobs.map fun job => values s.heap job.waste
  flusherRunning := s.flusherRunning
  drains := s.flushers.map (Flusher.forget s.heap)
  file := s.file
  fed := s.fed

def forgetEvent (s : Potty) : PottyEvent → PipelineEvent
  | .feed mutation _ => .feed mutation
  | .consume => .consume
  | .timeout => .timeout
  | .decide nowMs _ _ => .decide (s.overdue nowMs)
  | .grab flusher => .grab flusher
  | .write flusher => .write flusher
  | .finish flusher => .finish flusher

def Fresh (s : Potty) : PottyEvent → Prop
  | .feed _ address => s.heap address = none
  | .decide nowMs _ address => s.shouldFlush nowMs = true → s.waste ≠ [] → s.heap address = none
  | _ => True

end Potty

end Redic
