import Redic.Potty.Flusher
import Redic.Potty.Trainer
import Redic.Recovery.Session
import Redic.ReplySize

/-! # A server and its disk

The tank executes commands and hands what they log to the potty, as a value: when it does is in
`Redic.SepticTank.HandoffValue`. The potty's threads take it to the file as in the pipeline, only
that a flusher here writes bytes through a stream of its own. The process may stop between any two
steps, and between any two bytes of a record. Its streams are lost then, after a power failure so is
the cache, and the next process boots from what is left of the file. The fields `replayed`, `flushed`
and `durable` only record what happened.
-/
namespace Redic
open BufferedFile Command EventRun RecordStream

variable {S : Type} [KeyStore S]

/-- The stream that a flusher has open, and whether it was synced. -/
structure OpenStream where
  buffer : List UInt8
  synced : Bool
  deriving DecidableEq, Repr

def OpenStream.closed : OpenStream := ⟨[], false⟩

structure Host (S : Type) where
  server : Server S
  feeding : Option SepticTankMutation
  potty : Pipeline
  streams : ℕ → OpenStream
  disk : Disk UInt8
  replayed : List SepticTankMutation
  flushed : List SepticTankMutation
  durable : List SepticTankMutation

inductive HostEvent
  | command (round : CommandRound)
  | feed
  | consume
  | timeout
  | decide (overdue : Bool)
  | grab (drain : ℕ)
  | write (drain : ℕ)
  | sync (drain : ℕ)
  | close (drain : ℕ)
  | stop (drain bytes : ℕ) (powerFailure : Bool)

namespace Host

def start (maybeMaster : Bool) : Host S where
  server := freshServer maybeMaster
  feeding := none
  potty := pottyCreate
  streams := fun _ => .closed
  disk := ⟨[], []⟩
  replayed := []
  flushed := []
  durable := []

def aof (host : Host S) (drain : ℕ) : Stream UInt8 := ⟨host.disk, (host.streams drain).buffer⟩

/-- The records that the streams were given, in this process or in an earlier one. -/
def given (host : Host S) : List SepticTankMutation := host.replayed ++ host.potty.file

def setStream (host : Host S) (drain : ℕ) (stream : OpenStream) : Host S :=
  { host with streams := Function.update host.streams drain stream }

/-- A step of the potty's threads that touches no stream. -/
def potters (cap : ℕ) (host : Host S) (event : PipelineEvent) : Option (Host S) :=
  (pipelineStep cap host.potty event).map fun potty => { host with potty := potty }

/-- The tank is done with one command before it takes the next. -/
def command (host : Host S) (round : CommandRound) : Option (Host S) :=
  match host.feeding with
  | some _ => none
  | none =>
    let server := (CommandRound.serve host.server round).1
    some { host with
      server := server
      feeding := (server.tank.log.drop host.server.tank.log.length).head? }

/-- `potty_feed`, once the sewer has space. -/
def feed (cap : ℕ) (host : Host S) : Option (Host S) :=
  match host.feeding with
  | none => none
  | some mutation =>
    (pipelineStep cap host.potty (.feed mutation)).map fun potty =>
      { host with potty := potty, feeding := none }

def grab (cap : ℕ) (host : Host S) (drain : ℕ) : Option (Host S) :=
  (host.potters cap (.grab drain)).map fun host => host.setStream drain .closed

def write (size cap : ℕ) (host : Host S) (drain : ℕ) : Option (Host S) :=
  match host.potty.drains[drain]? with
  | some (.flushing (mutation :: _)) =>
    let aof := pottySerializeMutation (fwrite size) (host.aof drain) mutation
    (host.potters cap (.write drain)).map fun host =>
      { host with disk := aof.disk }.setStream drain ⟨aof.buffer, false⟩
  | _ => none

def sync (host : Host S) (drain : ℕ) : Option (Host S) :=
  match host.potty.drains[drain]? with
  | some (.flushing []) =>
    let aof := fsync (host.aof drain)
    some ({ host with disk := aof.disk, durable := host.flushed }.setStream drain
      ⟨aof.buffer, true⟩)
  | _ => none

def close (cap : ℕ) (host : Host S) (drain : ℕ) : Option (Host S) :=
  if (host.streams drain).synced then
    (host.potters cap (.finish drain)).map fun host =>
      { host with disk := fclose (host.aof drain), flushed := host.given }.setStream drain .closed
  else none

/-- What has reached the stream of the record that is being written. -/
def inHand (host : Host S) (drain bytes : ℕ) : List UInt8 :=
  match host.potty.drains[drain]? with
  | some (.flushing (mutation :: _)) => (mutationRecord mutation).take bytes
  | _ => []

def diskAtStop (size : ℕ) (host : Host S) (drain bytes : ℕ) (powerFailure : Bool) : Disk UInt8 :=
  let disk := (fwrite size (host.aof drain) (host.inHand drain bytes)).disk
  if powerFailure then disk.powerFailure else disk

/-- The next process, if the boot gets to serving, with memory for every string in the file. A log
that was never written is empty. -/
def boot (maybeMaster : Bool) (disk : Disk UInt8) (durable : List SepticTankMutation) :
    Option (Host S) :=
  let file := disk.stable ++ disk.cache
  let records := (readAll (pottyParserRead noReadError enoughMemory) (file.length + 1) file).1
  match (mainBoot noReadError enoughMemory (.opened file) :
      Option (Except TrainerExit (PottyTrainer S))) with
  | some (.ok trainer) => some
      { server := ⟨⟨trainer.septicTank, records⟩, maybeMaster⟩
        feeding := none
        potty := pottyCreate
        streams := fun _ => .closed
        disk := disk
        replayed := records
        flushed := records
        durable := if disk.cache = [] then records else durable }
  | _ => none

def stop (size : ℕ) (host : Host S) (drain bytes : ℕ) (powerFailure : Bool) : Option (Host S) :=
  boot host.server.maybeMaster (host.diskAtStop size drain bytes powerFailure) host.durable

/-- One step, with the buffer size of a stream and the capacity of the potty's sewer. -/
def step (size cap : ℕ) (host : Host S) : HostEvent → Option (Host S)
  | .command round => host.command round
  | .feed => host.feed cap
  | .consume => host.potters cap .consume
  | .timeout => host.potters cap .timeout
  | .decide overdue => host.potters cap (.decide overdue)
  | .grab drain => host.grab cap drain
  | .write drain => host.write size cap drain
  | .sync drain => host.sync drain
  | .close drain => host.close cap drain
  | .stop drain bytes powerFailure => host.stop size drain bytes powerFailure

def Flushing (host : Host S) : Prop :=
  ∃ unwritten, host.potty.drains[0]? = some (.flushing unwritten)

/-- The file and the open stream hold the records that were given to a stream. What finished
flushes wrote is in the file, and on stable storage it is up to the last sync. -/
structure Inv (host : Host S) : Prop where
  pipeline : host.potty.Inv
  log_eq : host.server.tank.log = host.replayed ++ (host.potty.fed ++ host.feeding.toList)
  written : (host.aof 0).contents = serializedLog host.given
  flushed_given : host.flushed <+: host.given
  flushed_kept : serializedLog host.flushed <+: host.disk.stable ++ host.disk.cache
  durable_flushed : host.durable <+: host.flushed
  durable_kept : serializedLog host.durable <+: host.disk.stable
  idle : ¬ host.Flushing → (host.streams 0).buffer = [] ∧ host.flushed = host.given
  sized : LogSized host.server.tank.log

end Host

theorem serializedLog_append (mutations others : List SepticTankMutation) :
    serializedLog (mutations ++ others) = serializedLog mutations ++ serializedLog others := by
  simp only [serializedLog_eq, List.flatMap_append]

theorem serializedLog_mono {mutations others : List SepticTankMutation} (h : mutations <+: others) :
    serializedLog mutations <+: serializedLog others := by
  obtain ⟨rest, rfl⟩ := h
  rw [serializedLog_append]
  exact List.prefix_append _ _

theorem LogSized.fits {log : List SepticTankMutation} (h : LogSized log) :
    ∀ mutation ∈ log, mutation.Fits := by
  intro mutation hmem
  have hsized := h mutation hmem
  cases mutation with
  | set mutation => exact ⟨(hsized _ (by simp [mutationStrings])).length_lt,
      (hsized _ (by simp [mutationStrings])).length_lt⟩
  | del key => exact (hsized _ (by simp [mutationStrings])).length_lt
  | expire mutation => exact (hsized _ (by simp [mutationStrings])).length_lt

theorem serve_logSized {server : Server S} {round : CommandRound}
    (h : LogSized server.tank.log) (hargs : ∀ arg ∈ round.args, Storable arg) :
    LogSized (CommandRound.serve server round).1.tank.log := by
  obtain ⟨plan, hcarries, -, hplan⟩ := round.exists_plan (S := S)
  rw [hplan]
  cases plan with
  | answer reply => exact h
  | feed operation reply =>
    have hstrings : ∀ string ∈ Command.operationStrings operation, Storable string := by
      intro string hstring
      rcases List.mem_cons.mp (hcarries string hstring) with rfl | hmem
      · decide
      · exact hargs string hmem
    have hdigest : LogSized (fedMutation server operation round.clock).toList := by
      rcases septicTankDigest_cases server.tank.tank operation round.clock.ts₁ round.clock.ts₂ with
        ⟨mutation, hmutation, heq⟩ | ⟨-, heq⟩
      · have hsized := resolvedMutation_storable hstrings hmutation
        simp only [fedMutation, SepticTank.digest, heq]
        intro logged hmem
        split at hmem
        · rw [List.mem_singleton.mp hmem]
          exact hsized
        · cases hmem
      · simp only [fedMutation, SepticTank.digest, heq]
        intro logged hmem
        cases hmem
    intro mutation hmem
    rcases List.mem_append.mp hmem with hmem | hmem
    · exact h mutation hmem
    · exact hdigest mutation hmem

end Redic
