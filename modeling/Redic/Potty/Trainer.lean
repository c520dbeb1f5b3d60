import Redic.Potty.Format
import Redic.SepticTank.Replay

/-! # Replaying the file at start

`potty_trainer_train` applies one record after the other to the tank and leaves the process
unless the file ends behind a record. `main` trains a fresh tank with logging off, before any
client is accepted.
-/
namespace Redic
open HostWord RecordStream

variable {S : Type} [KeyStore S]

/-- How the log opens for reading: its bytes, no such file, or another error. -/
inductive AofOpen
  | opened (file : List UInt8)
  | noEntry
  | failed
  deriving DecidableEq, Repr

/-- How a process that trains its tank ends: with a `PANIC`, on a tag that is never written, or in
`arena_alloc`. -/
inductive TrainerExit
  | openFailed | readError | unexpectedEof | unreachable | noMemory
  deriving DecidableEq, Repr

structure PottyTrainer (S : Type) where
  septicTank : SepticTank S
  numCommandsProcessed : ℕ

def pottyTrainerCreate (septicTank : SepticTank S) : PottyTrainer S := ⟨septicTank, 0⟩

/-- What the loop does with a result that is not `POTTY_PARSER_OK`. -/
def PottyTrainer.finish (trainer : PottyTrainer S) :
    PottyParserStop → Except TrainerExit (PottyTrainer S)
  | .eof => .ok trainer
  | .readError => .error .readError
  | .unexpectedEof => .error .unexpectedEof
  | .unreachable => .error .unreachable
  | .noMemory => .error .noMemory

section Boot
variable (ferror : List UInt8 → Bool) (arenaAlloc : List UInt8 → ℕ → Bool)

/-- The loop of `potty_trainer_train`. The fuel bounds the records it reads. -/
def PottyTrainer.loop :
    ℕ → PottyTrainer S → List UInt8 → Option (Except TrainerExit (PottyTrainer S))
  | 0, _, _ => none
  | fuel + 1, trainer, file =>
    match pottyParserRead ferror arenaAlloc file with
    | .error result => some (trainer.finish result)
    | .ok (mutation, rest) =>
      let septicTank := septicTankApplyMutation trainer.septicTank mutation
      PottyTrainer.loop fuel ⟨septicTank, trainer.numCommandsProcessed + 1⟩ rest

/-- A file holds fewer records than bytes, so the loop has returned. -/
def PottyTrainer.train (trainer : PottyTrainer S) :
    AofOpen → Option (Except TrainerExit (PottyTrainer S))
  | .opened file => trainer.loop ferror arenaAlloc (file.length + 1) file
  | .noEntry => some (.ok trainer)
  | .failed => some (.error .openFailed)

/-- The part of `main` between the creation of the tank and the first client. -/
def mainBoot (aof : AofOpen) :
    Option (Except TrainerExit (PottyTrainer S)) :=
  let tank := septicTankDisableAof septicTankCreate
  let trainer := pottyTrainerCreate tank
  (trainer.train ferror arenaAlloc aof).map fun result => result.map fun trainer =>
    { trainer with septicTank := septicTankEnableAof trainer.septicTank }

theorem PottyTrainer.loop_eq (fuel : ℕ) (trainer : PottyTrainer S) (file : List UInt8) :
    trainer.loop ferror arenaAlloc fuel file =
      (readAll (pottyParserRead ferror arenaAlloc) fuel file).2.map fun result =>
        let records := (readAll (pottyParserRead ferror arenaAlloc) fuel file).1
        PottyTrainer.finish ⟨pottyTrainerTrain trainer.septicTank records,
          trainer.numCommandsProcessed + records.length⟩ result := by
  induction fuel generalizing trainer file with
  | zero => rfl
  | succ fuel ih =>
    rw [loop, readAll]
    cases pottyParserRead ferror arenaAlloc file with
    | error result => rfl
    | ok first =>
      simp only [ih, pottyTrainerTrain, List.foldl_cons, List.length_cons]
      congr 1
      funext result
      congr 2
      omega

end Boot

variable {arenaAlloc : List UInt8 → ℕ → Bool}

theorem mainBoot_opened {file : List UInt8} {mutations : List SepticTankMutation}
    {stop : PottyParserStop}
    (h : readAll (pottyParserRead noReadError arenaAlloc) (file.length + 1) file =
      (mutations, some stop)) : (mainBoot noReadError arenaAlloc (.opened file) :
        Option (Except TrainerExit (PottyTrainer S))) =
      some (PottyTrainer.finish ⟨serverBoot mutations, mutations.length⟩ stop) := by
  simp only [mainBoot, PottyTrainer.train, PottyTrainer.loop_eq, h, pottyTrainerCreate]
  cases stop <;> simp [PottyTrainer.finish, serverBoot, Except.map]

/-- There is no log yet, or it is these records, whose strings all get memory. -/
def AofOpen.Holds (arenaAlloc : List UInt8 → ℕ → Bool) :
    AofOpen → List SepticTankMutation → Prop
  | opened file, mutations => SplitsFile arenaAlloc file mutations .eof []
  | noEntry, mutations => mutations = []
  | failed, _ => False

/-- A boot gets to serving exactly from no file or from a file of whole records that it has the
memory for, with every record applied to the tank once and in order and counted. From any other
file the process ends. -/
theorem mainBoot_serves_iff (arenaAlloc : List UInt8 → ℕ → Bool) (aof : AofOpen) :
    (∀ trainer : PottyTrainer S, mainBoot noReadError arenaAlloc aof = some (.ok trainer) ↔
      ∃ mutations, aof.Holds arenaAlloc mutations ∧
        trainer = ⟨serverBoot mutations, mutations.length⟩) ∧
    ((∀ mutations, ¬ aof.Holds arenaAlloc mutations) → ∃ exit,
      (mainBoot noReadError arenaAlloc aof : Option (Except TrainerExit (PottyTrainer S))) =
        some (.error exit)) := by
  cases aof with
  | failed =>
    refine ⟨fun trainer => ⟨fun h => ?_, ?_⟩, fun _ => ⟨.openFailed, rfl⟩⟩
    · cases h
    · rintro ⟨_, hfailed, -⟩
      exact hfailed.elim
  | noEntry =>
    refine ⟨fun trainer => ⟨fun h => ?_, ?_⟩, fun h => absurd rfl (h [])⟩
    · cases h
      exact ⟨[], rfl, rfl⟩
    · rintro ⟨_, rfl, rfl⟩
      rfl
  | opened file =>
    obtain ⟨mutations, stop, hread⟩ := readAll_pottyParser_stops arenaAlloc file
    obtain ⟨tail, hsplits⟩ := readAll_pottyParser_iff.mp hread
    rw [mainBoot_opened hread]
    refine ⟨fun trainer => ⟨fun h => ?_, ?_⟩, fun hother => ?_⟩
    · cases stop with
      | eof =>
        cases h
        cases hsplits.leaves
        exact ⟨mutations, hsplits, rfl⟩
      | _ => cases h
    · rintro ⟨records, hwhole, rfl⟩
      have hread' := readAll_pottyParser_iff.mpr ⟨[], hwhole⟩
      rw [hread] at hread'
      cases hread'
      rfl
    · cases stop with
      | eof =>
        cases hsplits.leaves
        exact absurd hsplits (hother mutations)
      | readError => exact ⟨_, rfl⟩
      | unexpectedEof => exact ⟨_, rfl⟩
      | unreachable => exact ⟨_, rfl⟩
      | noMemory => exact ⟨_, rfl⟩

/-- A file of one record boots. With a `DEL` behind it whose key would take more memory than there
is, the process ends. -/
theorem mainBoot_serves_iff_denied :
    let arenaAlloc : List UInt8 → ℕ → Bool := fun _ size => decide (size ≤ 4096)
    let record := mutationRecord (.del [97])
    let torn := SepticTankOperationType.del.tag :: wordBytes 8 (2 ^ 40)
    (∃ trainer : PottyTrainer FiniteStore, mainBoot noReadError arenaAlloc (.opened record) =
        some (.ok trainer) ∧ trainer.numCommandsProcessed = 1) ∧
      ∃ exit, (mainBoot noReadError arenaAlloc (.opened (record ++ torn)) :
        Option (Except TrainerExit (PottyTrainer FiniteStore))) = some (.error exit) := by
  intro arenaAlloc record torn
  constructor
  · have hread : readAll (pottyParserRead noReadError arenaAlloc) (record.length + 1) record =
        ([.del [97]], some .eof) := by decide +kernel
    obtain ⟨tail, hsplits⟩ := readAll_pottyParser_iff.mp hread
    cases hsplits.leaves
    have hserves := (mainBoot_serves_iff (S := FiniteStore) arenaAlloc (.opened record)).1
    exact ⟨_, (hserves _).mpr ⟨[.del [97]], hsplits, rfl⟩, rfl⟩
  · refine (mainBoot_serves_iff arenaAlloc (.opened (record ++ torn))).2 ?_
    intro mutations hholds
    have hread := readAll_pottyParser_iff.mpr ⟨[], hholds⟩
    have hdenied : (readAll (pottyParserRead noReadError arenaAlloc) ((record ++ torn).length + 1)
        (record ++ torn)).2 = some .noMemory := by decide +kernel
    rw [hread] at hdenied
    cases hdenied

end Redic
