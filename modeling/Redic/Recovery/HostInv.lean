import Redic.Recovery.Host

/-! # The file keeps up with the log

Every step of a host keeps its invariant. A stop leaves a file that begins like the log and holds
what was flushed, after a power failure what was durable, so a boot from it keeps the invariant,
too.
-/
namespace Redic
open BufferedFile Command EventRun Pipeline RecordStream

variable {S : Type}

theorem pipelineStep_pump {cap : ℕ} {s s' : Pipeline} (hinv : s.Inv) {event : PipelineEvent}
    (hevent : event = .consume ∨ event = .timeout ∨ ∃ overdue, event = .decide overdue)
    (hstep : pipelineStep cap s event = some s') : s'.file = s.file ∧ s'.fed = s.fed ∧
      ∀ unwritten, s.drains[0]? = some (.flushing unwritten) →
        s'.drains[0]? = some (.flushing unwritten) := by
  rcases hevent with rfl | rfl | ⟨overdue, rfl⟩
  · simp only [pipelineStep] at hstep
    split at hstep
    · cases hstep
      exact ⟨rfl, rfl, fun _ h => h⟩
    · cases hstep
  · simp only [pipelineStep] at hstep
    split at hstep
    · cases hstep
      exact ⟨rfl, rfl, fun _ h => h⟩
    · cases hstep
  · simp only [pipelineStep] at hstep
    split at hstep
    · cases hstep
      split
      · unfold Pipeline.pottyFlush
        split
        · exact ⟨rfl, rfl, fun _ h => h⟩
        · refine ⟨rfl, rfl, fun unwritten h => ?_⟩
          obtain ⟨-, hdrains, hrunning⟩ := hinv.drains_eq h
          simp only [hrunning, if_true, hdrains]
          rfl
      · exact ⟨rfl, rfl, fun _ h => h⟩
    · cases hstep

def HostEvent.args : HostEvent → List (List UInt8)
  | .command round => round.args
  | _ => []

/-- What a client sends came out of a connection's buffer. -/
def FromBuffer (event : HostEvent) : Prop := ∀ arg ∈ event.args, Storable arg

instance : DecidablePred FromBuffer := fun event =>
  inferInstanceAs (Decidable (∀ arg ∈ event.args, Storable arg))

namespace Host
variable {host host' : Host S} {size cap drain bytes : ℕ} {powerFailure : Bool}

theorem start_inv [KeyStore S] (maybeMaster : Bool) : (start maybeMaster : Host S).Inv where
  pipeline := pottyCreate_inv
  log_eq := rfl
  written := rfl
  flushed_given := List.prefix_rfl
  flushed_kept := List.prefix_rfl
  durable_flushed := List.prefix_rfl
  durable_kept := List.prefix_rfl
  idle _ := ⟨rfl, rfl⟩
  sized _ hmem := absurd hmem List.not_mem_nil

theorem potters_cases {event : PipelineEvent} (h : host.potters cap event = some host') :
    ∃ potty, pipelineStep cap host.potty event = some potty ∧
      host' = { host with potty := potty } := by
  obtain ⟨potty, hstep, rfl⟩ := Option.map_eq_some_iff.mp h
  exact ⟨potty, hstep, rfl⟩

theorem Inv.of_potty (h : host.Inv) {potty : Pipeline} (hpotty : potty.Inv)
    (hfile : potty.file = host.potty.file) (hfed : potty.fed = host.potty.fed)
    (hflushing : host.Flushing → { host with potty := potty }.Flushing) :
    { host with potty := potty }.Inv where
  pipeline := hpotty
  log_eq := by simpa [hfed] using h.log_eq
  written := by simpa [given, aof, hfile] using h.written
  flushed_given := by simpa [given, hfile] using h.flushed_given
  flushed_kept := h.flushed_kept
  durable_flushed := h.durable_flushed
  durable_kept := h.durable_kept
  idle hidle := by simpa [given, hfile] using h.idle fun hbefore => hidle (hflushing hbefore)
  sized := h.sized

theorem Inv.pump (h : host.Inv) {event : PipelineEvent}
    (hevent : event = .consume ∨ event = .timeout ∨ ∃ overdue, event = .decide overdue)
    (hstep : host.potters cap event = some host') : host'.Inv := by
  obtain ⟨potty, hpotty, rfl⟩ := potters_cases hstep
  obtain ⟨hfile, hfed, hphase⟩ := pipelineStep_pump h.pipeline hevent hpotty
  refine h.of_potty (pipelineStep_inv h.pipeline hpotty) hfile hfed ?_
  rintro ⟨unwritten, hunwritten⟩
  exact ⟨unwritten, hphase unwritten hunwritten⟩

theorem Inv.command [KeyStore S] (h : host.Inv) {round : CommandRound}
    (hargs : ∀ arg ∈ round.args, Storable arg) (hstep : host.command round = some host') :
    host'.Inv := by
  unfold Host.command at hstep
  split at hstep
  · cases hstep
  · rename_i hfeeding
    cases hstep
    obtain ⟨added, hadded⟩ := serve_appendsOne host.server round
    have hlog := h.log_eq
    simp only [hfeeding, Option.toList_none, List.append_nil] at hlog
    refine ⟨h.pipeline, ?_, h.written, h.flushed_given, h.flushed_kept, h.durable_flushed,
      h.durable_kept, h.idle, serve_logSized h.sized hargs⟩
    simp only [hadded, List.drop_left]
    rw [hlog, List.append_assoc]
    cases added <;> rfl

theorem Inv.feed (h : host.Inv) (hstep : host.feed cap = some host') : host'.Inv := by
  unfold Host.feed at hstep
  split at hstep
  · cases hstep
  · rename_i mutation hfeeding
    obtain ⟨potty, hpotty, rfl⟩ := Option.map_eq_some_iff.mp hstep
    have hinv := pipelineStep_inv h.pipeline hpotty
    have hlog := h.log_eq
    simp only [pipelineStep] at hpotty
    split at hpotty
    · cases hpotty
      refine ⟨hinv, ?_, h.written, h.flushed_given, h.flushed_kept, h.durable_flushed,
        h.durable_kept, h.idle, h.sized⟩
      simpa [hfeeding] using hlog
    · cases hpotty

theorem Inv.grab (h : host.Inv) (hstep : host.grab cap drain = some host') : host'.Inv := by
  obtain ⟨between, hbetween, rfl⟩ := Option.map_eq_some_iff.mp hstep
  obtain ⟨potty, hpotty, rfl⟩ := potters_cases hbetween
  have hinv := pipelineStep_inv h.pipeline hpotty
  simp only [pipelineStep] at hpotty
  split at hpotty
  · rename_i hphase
    cases hpotty
    obtain ⟨rfl, hdrains, -⟩ := h.pipeline.drains_eq hphase
    have hidle : ¬ host.Flushing := by
      rintro ⟨unwritten, hunwritten⟩
      rw [hdrains] at hunwritten
      cases hunwritten
    obtain ⟨hbuffer, hflushed⟩ := h.idle hidle
    have hfile : (host.potty.grabJob 0).file = host.potty.file := by
      unfold Pipeline.grabJob
      split <;> rfl
    have hfed : (host.potty.grabJob 0).fed = host.potty.fed := by
      unfold Pipeline.grabJob
      split <;> rfl
    have hgrab := h.of_potty hinv hfile hfed fun hflushing => absurd hflushing hidle
    refine ⟨hinv, hgrab.log_eq, ?_, hgrab.flushed_given, h.flushed_kept, h.durable_flushed,
      h.durable_kept, fun _ => ⟨rfl, ?_⟩, h.sized⟩
    · have hwritten := hgrab.written
      simpa [aof, setStream, given, OpenStream.closed, hbuffer] using hwritten
    · simpa [given, setStream, hfile] using hflushed
  · cases hpotty

theorem given_write (host : Host S) (mutation : SepticTankMutation) :
    serializedLog (host.given ++ [mutation]) =
      serializedLog host.given ++ mutationRecord mutation := by
  simp [serializedLog_eq]

theorem Inv.write (h : host.Inv) (hstep : host.write size cap drain = some host') : host'.Inv := by
  unfold Host.write at hstep
  split at hstep
  · rename_i mutation unwritten hphase
    obtain ⟨between, hbetween, rfl⟩ := Option.map_eq_some_iff.mp hstep
    obtain ⟨potty, hpotty, rfl⟩ := potters_cases hbetween
    have hinv := pipelineStep_inv h.pipeline hpotty
    obtain ⟨rfl, hdrains, -⟩ := h.pipeline.drains_eq hphase
    simp only [pipelineStep, hphase] at hpotty
    cases hpotty
    obtain ⟨hcontents, hstable, hcache⟩ :=
      fwrite_keeps size (host.aof 0) (mutationRecord mutation)
    rw [pottySerializeMutation_eq (fwrite_writesBytes size)]
    refine ⟨hinv, h.log_eq, ?_, ?_, ?_, h.durable_flushed, ?_, ?_, h.sized⟩
    · -- what the stream holds grows by the record
      have hgiven := given_write host mutation
      rw [h.written, ← hgiven] at hcontents
      simpa [given, aof, setStream, Stream.contents] using hcontents
    · refine h.flushed_given.trans ?_
      simp [given, setStream]
    · refine h.flushed_kept.trans ?_
      simp only [setStream, hstable]
      exact (List.prefix_append_right_inj _).mpr hcache
    · simp only [setStream, hstable]
      exact h.durable_kept
    · intro hidle
      exact absurd ⟨unwritten, by simp [setStream, hdrains]⟩ hidle
  · cases hstep

theorem Inv.sync (h : host.Inv) (hstep : host.sync drain = some host') : host'.Inv := by
  unfold Host.sync at hstep
  split at hstep
  · rename_i hphase
    cases hstep
    obtain ⟨rfl, hdrains, -⟩ := h.pipeline.drains_eq hphase
    refine ⟨h.pipeline, h.log_eq, ?_, h.flushed_given, ?_, List.prefix_rfl, ?_, ?_, h.sized⟩
    · have hwritten := h.written
      simpa [given, aof, setStream, Stream.contents, fsync] using hwritten
    · simpa [setStream, fsync, aof] using h.flushed_kept
    · simpa [setStream, fsync, aof] using h.flushed_kept
    · intro hidle
      exact absurd ⟨[], by simp [setStream, hdrains]⟩ hidle
  · cases hstep

theorem Inv.close (h : host.Inv) (hstep : host.close cap drain = some host') : host'.Inv := by
  unfold Host.close at hstep
  split at hstep
  · obtain ⟨between, hbetween, rfl⟩ := Option.map_eq_some_iff.mp hstep
    obtain ⟨potty, hpotty, rfl⟩ := potters_cases hbetween
    have hinv := pipelineStep_inv h.pipeline hpotty
    simp only [pipelineStep] at hpotty
    split at hpotty
    · rename_i hphase
      cases hpotty
      obtain ⟨rfl, hdrains, -⟩ := h.pipeline.drains_eq hphase
      have hclosed : host.disk.stable ++ (host.disk.cache ++ (host.streams 0).buffer) =
          serializedLog host.given := h.written
      have hkept : serializedLog host.given <+:
          (fclose (host.aof 0)).stable ++ (fclose (host.aof 0)).cache := by
        rw [← hclosed]
        exact List.prefix_rfl
      refine ⟨hinv, h.log_eq, ?_, List.prefix_rfl, hkept, h.durable_flushed.trans h.flushed_given,
        h.durable_kept, fun _ => ⟨rfl, rfl⟩, h.sized⟩
      simpa [given, aof, setStream, Stream.contents, fclose, spill, OpenStream.closed] using hclosed
    · cases hpotty
  · cases hstep

theorem Inv.given_unwritten (h : host.Inv) {mutation : SepticTankMutation} {unwritten : FlushJob}
    (hphase : host.potty.drains[drain]? = some (.flushing (mutation :: unwritten))) :
    host.given ++ [mutation] <+: host.server.tank.log := by
  obtain ⟨-, hdrains, -⟩ := h.pipeline.drains_eq hphase
  have haccounts := h.pipeline.accounts
  rw [Pipeline.Accounts, Pipeline.unwritten, hdrains] at haccounts
  rw [h.log_eq, given, List.append_assoc, List.prefix_append_right_inj, ← haccounts]
  simp [DrainPhase.unwritten]

theorem Inv.given_prefix (h : host.Inv) : host.given <+: host.server.tank.log := by
  have haccounts := h.pipeline.accounts
  rw [Pipeline.Accounts] at haccounts
  rw [h.log_eq, given, List.prefix_append_right_inj, ← haccounts]
  simp

theorem Inv.file_prefix (h : host.Inv) :
    host.disk.stable ++ host.disk.cache <+: serializedLog host.server.tank.log := by
  have hfile : host.disk.stable ++ host.disk.cache <+: (host.aof 0).contents := by
    rw [Stream.contents, ← List.append_assoc]
    exact List.prefix_append _ _
  rw [h.written] at hfile
  exact hfile.trans (serializedLog_mono h.given_prefix)

/-- Whatever has left the stream begins like the log. -/
theorem Inv.spilled (h : host.Inv) (size drain bytes : ℕ) :
    let file := fwrite size (host.aof drain) (host.inHand drain bytes)
    file.disk.stable ++ file.disk.cache <+: serializedLog host.server.tank.log := by
  intro file
  have hspilled : file.disk.stable ++ file.disk.cache <+: file.contents := by
    rw [Stream.contents, ← List.append_assoc]
    exact List.prefix_append _ _
  unfold file inHand at *
  split at hspilled
  · rename_i mutation unwritten hphase
    obtain ⟨rfl, -, -⟩ := h.pipeline.drains_eq hphase
    rw [(fwrite_keeps ..).1, h.written] at hspilled
    refine hspilled.trans (List.IsPrefix.trans ?_ (serializedLog_mono (h.given_unwritten hphase)))
    rw [given_write, List.prefix_append_right_inj]
    exact List.take_prefix bytes _
  · exact h.file_prefix

/-- The file that a stop leaves begins like the log and goes on behind what it was to keep. -/
theorem Inv.diskAtStop (h : host.Inv) (size drain bytes : ℕ) (powerFailure : Bool) :
    let disk := host.diskAtStop size drain bytes powerFailure
    disk.stable ++ disk.cache <+: serializedLog host.server.tank.log ∧
      (powerFailure = false → serializedLog host.flushed <+: disk.stable ++ disk.cache) ∧
      serializedLog host.durable <+: disk.stable := by
  intro disk
  have hspilled := h.spilled size drain bytes
  obtain ⟨-, hstable, hcache⟩ := fwrite_keeps size (host.aof drain) (host.inHand drain bytes)
  have hdurable : serializedLog host.durable <+:
      (fwrite size (host.aof drain) (host.inHand drain bytes)).disk.stable := by
    rw [hstable]
    exact h.durable_kept
  unfold disk Host.diskAtStop
  cases powerFailure with
  | true =>
    refine ⟨?_, nofun, hdurable⟩
    simp only [if_true, Disk.powerFailure, List.append_nil]
    exact (List.prefix_append _ _).trans hspilled
  | false =>
    refine ⟨hspilled, fun _ => ?_, hdurable⟩
    refine h.flushed_kept.trans ?_
    simp only [Bool.false_eq_true, if_false]
    rw [hstable]
    exact (List.prefix_append_right_inj _).mpr hcache

theorem boot_cases [KeyStore S] {maybeMaster : Bool} {disk : Disk UInt8}
    {durable : List SepticTankMutation}
    (h : boot maybeMaster disk durable = some host') : ∃ records,
      (∀ mutation ∈ records, mutation.Fits) ∧ disk.stable ++ disk.cache = serializedLog records ∧
      host' = { (start maybeMaster : Host S) with
        server := ⟨⟨serverBoot records, records⟩, maybeMaster⟩
        disk := disk
        replayed := records
        flushed := records
        durable := if disk.cache = [] then records else durable } := by
  obtain ⟨records, stop, hread⟩ :=
    readAll_pottyParser_stops enoughMemory (disk.stable ++ disk.cache)
  obtain ⟨tail, hfits, hfile, -, hleaves⟩ := readAll_pottyParser_iff.mp hread
  simp only [boot, hread, mainBoot_opened hread] at h
  cases stop with
  | eof =>
    cases h
    cases hleaves
    exact ⟨records, hfits, by rw [hfile, List.append_nil], rfl⟩
  | _ => cases h

theorem serializedLog_prefix {mutations others : List SepticTankMutation}
    (hmutations : ∀ mutation ∈ mutations, mutation.Fits)
    (hothers : ∀ mutation ∈ others, mutation.Fits)
    (h : serializedLog mutations <+: serializedLog others) : mutations <+: others := by
  rw [serializedLog_eq, serializedLog_eq] at h
  exact pottyCodec.prefix_of_flatMap hmutations hothers h

/-- The next process replays a beginning of the log that has in it what was flushed, or what was
durable if the power failed. -/
theorem Inv.stop [KeyStore S] (h : host.Inv)
    (hstep : host.stop size drain bytes powerFailure = some host') :
    host'.Inv ∧
      host'.server = ⟨⟨serverBoot host'.replayed, host'.replayed⟩, host.server.maybeMaster⟩ ∧
      host'.replayed <+: host.server.tank.log ∧
      (if powerFailure then host.durable else host.flushed) <+: host'.replayed := by
  obtain ⟨hbegins, hflushed, hdurable⟩ := h.diskAtStop size drain bytes powerFailure
  obtain ⟨records, hfits, hfile, rfl⟩ := boot_cases hstep
  rw [hfile] at hbegins hflushed
  have hlog := h.sized.fits
  have hrecords := serializedLog_prefix hfits hlog hbegins
  have hgiven : ∀ {kept}, kept <+: host.given → ∀ mutation ∈ kept, mutation.Fits :=
    fun hkept mutation hmem => hlog mutation ((hkept.trans h.given_prefix).subset hmem)
  have hdurable' : host.durable <+: records := by
    refine serializedLog_prefix (hgiven (h.durable_flushed.trans h.flushed_given)) hfits ?_
    rw [← hfile]
    exact hdurable.trans (List.prefix_append _ _)
  refine ⟨?_, rfl, hrecords, ?_⟩
  · refine ⟨pottyCreate_inv, by simp [start, pottyCreate], ?_, by simp [given, start, pottyCreate],
      ?_, ?_, ?_, fun _ => ⟨rfl, by simp [given, start, pottyCreate]⟩,
      fun mutation hmem => h.sized mutation (hrecords.subset hmem)⟩
    · simpa [aof, start, OpenStream.closed, Stream.contents, given, pottyCreate] using hfile
    · simp only [hfile]
      exact List.prefix_rfl
    · dsimp only
      split
      · exact List.prefix_rfl
      · exact hdurable'
    · dsimp only
      split
      · rename_i hcache
        rw [← hfile, hcache, List.append_nil]
      · exact hdurable
  · cases powerFailure with
    | true => exact hdurable'
    | false => exact serializedLog_prefix (hgiven h.flushed_given) hfits (hflushed rfl)

theorem Inv.step [KeyStore S] (h : host.Inv) {event : HostEvent} (hevent : FromBuffer event)
    (hstep : host.step size cap event = some host') : host'.Inv := by
  cases event with
  | command round => exact h.command hevent hstep
  | feed => exact h.feed hstep
  | consume => exact h.pump (Or.inl rfl) hstep
  | timeout => exact h.pump (Or.inr (Or.inl rfl)) hstep
  | decide overdue => exact h.pump (Or.inr (Or.inr ⟨overdue, rfl⟩)) hstep
  | grab drain => exact h.grab hstep
  | write drain => exact h.write hstep
  | sync drain => exact h.sync hstep
  | close drain => exact h.close hstep
  | stop drain bytes powerFailure => exact (h.stop hstep).1

end Host

end Redic
