import Redic.Recovery.HostInv

/-! # What survives

However often the process was stopped, the host holds what a server would hold that was never
stopped and was sent some of the commands: a stop makes the last ones unsent and no other. What
was flushed stays through every kill, and what was durable through a power failure, too.
-/
namespace Redic
open AppendLog BufferedFile Command EventRun TimedMap

namespace HostEvent

def readings : HostEvent → List Int64
  | command round => round.readings
  | _ => []

/-- Neither a client nor the machine interferes. -/
def isQuiet : HostEvent → Bool
  | command _ => false
  | stop .. => false
  | _ => true

def isPowerFailure : HostEvent → Bool
  | stop _ _ powerFailure => powerFailure
  | _ => false

end HostEvent

/-- The commands that count after the events. -/
inductive Survives : List HostEvent → List CommandRound → Prop
  | nil : Survives [] []
  | command {events rounds} (round : CommandRound) (h : Survives events rounds) :
    Survives (events ++ [.command round]) (rounds ++ [round])
  | stop {events rounds kept} (drain bytes : ℕ) (powerFailure : Bool) (h : Survives events rounds)
    (hkept : kept <+: rounds) : Survives (events ++ [.stop drain bytes powerFailure]) kept
  | quiet {events rounds} {event : HostEvent} (hquiet : event.isQuiet = true)
    (h : Survives events rounds) : Survives (events ++ [event]) rounds

variable {S : Type} [KeyStore S]

theorem serveAll_maybeMaster (server : Server S) (rounds : List CommandRound) :
    (serveAll server rounds).maybeMaster = server.maybeMaster := by
  induction rounds generalizing server with
  | nil => rfl
  | cons round rounds ih => exact (ih _).trans (serve_maybeMaster server round)

theorem serveAll_append (server : Server S) (rounds : List CommandRound) (round : CommandRound) :
    serveAll server (rounds ++ [round]) = (CommandRound.serve (serveAll server rounds) round).1 := by
  rw [serveAll, List.foldl_append]
  rfl

namespace Host
variable {host host' : Host S} {size cap : ℕ} {event : HostEvent} {maybeMaster : Bool}

omit [KeyStore S] in
theorem potters_server {event : PipelineEvent} (h : host.potters cap event = some host') :
    host'.server = host.server := by
  obtain ⟨potty, -, rfl⟩ := potters_cases h
  rfl

theorem step_server (hquiet : event.isQuiet = true) (hstep : host.step size cap event = some host') :
    host'.server = host.server := by
  cases event with
  | command round => cases hquiet
  | stop drain bytes powerFailure => cases hquiet
  | feed =>
    simp only [step, feed] at hstep
    split at hstep
    · cases hstep
    · obtain ⟨potty, -, rfl⟩ := Option.map_eq_some_iff.mp hstep
      rfl
  | consume => exact potters_server hstep
  | timeout => exact potters_server hstep
  | decide overdue => exact potters_server hstep
  | grab drain =>
    obtain ⟨between, hbetween, rfl⟩ := Option.map_eq_some_iff.mp hstep
    have hserver := potters_server hbetween
    exact hserver
  | write drain =>
    simp only [step, write] at hstep
    split at hstep
    · obtain ⟨between, hbetween, rfl⟩ := Option.map_eq_some_iff.mp hstep
      have hserver := potters_server hbetween
      exact hserver
    · cases hstep
  | sync drain =>
    simp only [step, sync] at hstep
    split at hstep
    · cases hstep
      rfl
    · cases hstep
  | close drain =>
    simp only [step, close] at hstep
    split at hstep
    · obtain ⟨between, hbetween, rfl⟩ := Option.map_eq_some_iff.mp hstep
      have hserver := potters_server hbetween
      exact hserver
    · cases hstep

theorem command_server {round : CommandRound} (hstep : host.command round = some host') :
    host'.server = (CommandRound.serve host.server round).1 := by
  unfold command at hstep
  split at hstep
  · cases hstep
  · cases hstep
    rfl

theorem inv_of_run {events : List HostEvent} (h : host.Inv)
    (hevents : ∀ event ∈ events, FromBuffer event)
    (hrun : run (step size cap) host events = some host') : host'.Inv := by
  have hguard : Guarded (step (S := S) size cap) (fun _ event => FromBuffer event) host events :=
    guarded_of_forall fun event hmem _ => hevents event hmem
  exact run_invariant h (fun _ _ _ hinv hevent hstep => hinv.step hevent hstep) hguard hrun

/-- The host and a server that was sent the surviving commands follow one log, and so does a
server that was sent the first of them. -/
theorem run_survives [LawfulKeyStore S] {events : List HostEvent}
    (hevents : ∀ event ∈ events, FromBuffer event)
    (hclock : (events.flatMap HostEvent.readings).Pairwise (· ≤ ·))
    (hrun : run (step size cap) (start maybeMaster : Host S) events = some host) :
    ∃ rounds, Survives events rounds ∧
      host.server.maybeMaster = maybeMaster ∧
      host.server.tank.log = (serveAll (freshServer maybeMaster : Server S) rounds).tank.log ∧
      ∀ since, (∀ reading ∈ events.flatMap HostEvent.readings, reading ≤ since) →
        FollowsLog since host.server ∧ ∀ kept, kept <+: rounds →
          FollowsLog since (serveAll (freshServer maybeMaster : Server S) kept) := by
  induction events using List.reverseRecOn generalizing host with
  | nil =>
    cases hrun
    refine ⟨[], .nil, rfl, rfl, fun since _ => ?_⟩
    have hfresh : FollowsLog since (freshServer maybeMaster : Server S) :=
      followsLog_boot since maybeMaster []
    refine ⟨hfresh, fun kept hkept => ?_⟩
    rw [List.prefix_nil.mp hkept]
    exact hfresh
  | append_singleton events event ih =>
    rw [run_append, Option.bind_eq_some_iff] at hrun
    obtain ⟨before, hbefore, hstep⟩ := hrun
    have hevents' : ∀ event ∈ events, FromBuffer event :=
      fun event hmem => hevents event (List.mem_append_left _ hmem)
    rw [List.flatMap_append, List.flatMap_singleton] at hclock ⊢
    obtain ⟨hclock', hevent, hlater⟩ := List.pairwise_append.mp hclock
    obtain ⟨rounds, hsurvives, hmaster, hlog, hfollow⟩ := ih hevents' hclock' hbefore
    have hearlier : ∀ since, (∀ reading ∈ events.flatMap HostEvent.readings ++ event.readings,
        reading ≤ since) → ∀ reading ∈ events.flatMap HostEvent.readings, reading ≤ since :=
      fun since h reading hmem => h reading (List.mem_append_left _ hmem)
    by_cases hquiet : event.isQuiet = true
    · have hserver := step_server hquiet hstep
      refine ⟨rounds, .quiet hquiet hsurvives, by rw [hserver, hmaster], by rw [hserver, hlog],
        fun since hsince => ?_⟩
      rw [hserver]
      exact hfollow since (hearlier since hsince)
    · cases event with
      | command round =>
        have hserver := command_server hstep
        have hts : ∀ reading ∈ events.flatMap HostEvent.readings,
            reading ≤ dataNowMs round.clock.ts₁ :=
          fun reading hmem => hlater reading hmem _ List.mem_cons_self
        obtain ⟨hhost, hrounds⟩ := hfollow _ hts
        have hfresh := hrounds rounds List.prefix_rfl
        refine ⟨rounds ++ [round], .command round hsurvives, ?_, ?_, fun since hsince => ?_⟩
        · rw [hserver, serve_maybeMaster, hmaster]
        · rw [hserver, serveAll_append]
          exact (serve_congr hhost hfresh hlog (Int64.le_refl _)).1
        · have hsince' : dataNowMs round.clock.ts₁ ≤ since :=
            hsince _ (List.mem_append_right _ List.mem_cons_self)
          constructor
          · rw [hserver]
            exact (hhost.serve (Int64.le_refl _)).later hsince'
          · intro kept hkept
            rcases List.prefix_concat_iff.mp hkept with rfl | hkept
            · rw [serveAll_append]
              exact (hfresh.serve (Int64.le_refl _)).later hsince'
            · exact (hfollow since (hearlier since hsince)).2 kept hkept
      | stop drain bytes powerFailure =>
        have hinv := inv_of_run (start_inv maybeMaster) hevents' hbefore
        obtain ⟨-, hserver, hreplayed, -⟩ := hinv.stop hstep
        rw [hlog] at hreplayed
        obtain ⟨kept, hkept, hcut⟩ :=
          serve_appendsOne.exists_inputs (List.nil_prefix (l := host.replayed)) hreplayed
        refine ⟨kept, .stop drain bytes powerFailure hsurvives hkept, ?_, ?_, fun since hsince => ?_⟩
        · rw [hserver, ← hmaster]
        · rw [hserver]
          exact hcut.symm
        · rw [hserver]
          exact ⟨followsLog_boot since _ _, fun fewer hfewer =>
            (hfollow since (hearlier since hsince)).2 fewer (hfewer.trans hkept)⟩
      | _ => exact absurd rfl hquiet

/-- A beginning of the log that would survive a power failure. -/
def Stable (host : Host S) (records : List SepticTankMutation) : Prop :=
  records <+: host.server.tank.log ∧ serializedLog records <+: host.disk.stable

/-- A beginning of the log that would survive a kill. -/
def InFile (host : Host S) (records : List SepticTankMutation) : Prop :=
  records <+: host.server.tank.log ∧
    serializedLog records <+: host.disk.stable ++ host.disk.cache

/-- Nothing is taken back from a file, from its cache unless the power fails. -/
structure DiskKeeps (powerFailure : Bool) (disk disk' : Disk UInt8) : Prop where
  stable : disk.stable <+: disk'.stable
  file : powerFailure = false → disk.stable ++ disk.cache <+: disk'.stable ++ disk'.cache

omit [KeyStore S] in
theorem potters_disk {event : PipelineEvent} (h : host.potters cap event = some host') :
    host'.disk = host.disk := by
  obtain ⟨potty, -, rfl⟩ := potters_cases h
  rfl

theorem DiskKeeps.of_eq {powerFailure : Bool} {disk disk' : Disk UInt8} (h : disk' = disk) :
    DiskKeeps powerFailure disk disk' := by
  subst h
  exact ⟨List.prefix_rfl, fun _ => List.prefix_rfl⟩

theorem diskKeeps_fwrite (size : ℕ) (powerFailure : Bool) (file : Stream UInt8)
    (bytes : List UInt8) : DiskKeeps powerFailure file.disk (fwrite size file bytes).disk := by
  obtain ⟨-, hstable, hcache⟩ := fwrite_keeps size file bytes
  refine ⟨hstable ▸ List.prefix_rfl, fun _ => ?_⟩
  rw [hstable]
  exact (List.prefix_append_right_inj _).mpr hcache

theorem stop_disk {drain bytes : ℕ} {powerFailure : Bool}
    (hstep : host.stop size drain bytes powerFailure = some host') :
    DiskKeeps powerFailure host.disk host'.disk := by
  obtain ⟨records, -, -, rfl⟩ := boot_cases hstep
  have hwritten := diskKeeps_fwrite size powerFailure (host.aof drain) (host.inHand drain bytes)
  cases powerFailure with
  | true => exact ⟨hwritten.stable, nofun⟩
  | false => exact hwritten

theorem step_disk (hstep : host.step size cap event = some host') :
    DiskKeeps event.isPowerFailure host.disk host'.disk := by
  cases event with
  | command round =>
    simp only [Host.step, Host.command] at hstep
    split at hstep
    · cases hstep
    · cases hstep
      exact .of_eq rfl
  | feed =>
    simp only [Host.step, Host.feed] at hstep
    split at hstep
    · cases hstep
    · obtain ⟨potty, -, rfl⟩ := Option.map_eq_some_iff.mp hstep
      exact .of_eq rfl
  | consume => exact .of_eq (potters_disk hstep)
  | timeout => exact .of_eq (potters_disk hstep)
  | decide overdue => exact .of_eq (potters_disk hstep)
  | grab drain =>
    obtain ⟨between, hbetween, rfl⟩ := Option.map_eq_some_iff.mp hstep
    have hdisk := potters_disk hbetween
    exact .of_eq hdisk
  | write drain =>
    simp only [Host.step, Host.write] at hstep
    split at hstep
    · rename_i mutation unwritten hphase
      obtain ⟨between, hbetween, rfl⟩ := Option.map_eq_some_iff.mp hstep
      rw [pottySerializeMutation_eq (fwrite_writesBytes size)]
      exact diskKeeps_fwrite size _ (host.aof drain) (mutationRecord mutation)
    · cases hstep
  | sync drain =>
    simp only [Host.step, Host.sync] at hstep
    split at hstep
    · cases hstep
      refine ⟨List.prefix_append _ _, fun _ => ?_⟩
      rw [setStream, fsync, aof]
      simp
    · cases hstep
  | close drain =>
    simp only [Host.step, Host.close] at hstep
    split at hstep
    · obtain ⟨between, hbetween, rfl⟩ := Option.map_eq_some_iff.mp hstep
      obtain ⟨potty, -, rfl⟩ := potters_cases hbetween
      refine ⟨List.prefix_rfl, fun _ => ?_⟩
      exact (List.prefix_append_right_inj _).mpr (List.prefix_append _ _)
    · cases hstep
  | stop drain bytes powerFailure => exact stop_disk hstep

omit [KeyStore S] in
theorem Inv.kept (h : host.Inv) (h' : host'.Inv) {records : List SepticTankMutation}
    (hrecords : records <+: host.server.tank.log)
    (hkept : serializedLog records <+: host'.disk.stable ++ host'.disk.cache) :
    records <+: host'.server.tank.log :=
  serializedLog_prefix (fun mutation hmem => h.sized.fits mutation (hrecords.subset hmem))
    h'.sized.fits (hkept.trans h'.file_prefix)

end Host

open Host

/-- The commands of a run stand but for the last ones before each stop: what the host shows, logs
and answers from then on is what a server does that was never stopped and was sent the others. -/
theorem hostRun_recovers [LawfulKeyStore S] (size cap : ℕ) (maybeMaster : Bool)
    (events : List HostEvent) (host : Host S) (hevents : ∀ event ∈ events, FromBuffer event)
    (hclock : (events.flatMap HostEvent.readings).Pairwise (· ≤ ·))
    (hrun : run (step size cap) (start maybeMaster) events = some host) :
    ∃ rounds, Survives events rounds ∧
      host.server.tank.log = (serveAll (freshServer maybeMaster : Server S) rounds).tank.log ∧
      ∀ t, (∀ reading ∈ events.flatMap HostEvent.readings, reading ≤ dataNowMs t) →
        SameVisible t host.server.tank.tank.data
          (serveAll (freshServer maybeMaster : Server S) rounds).tank.tank.data ∧
        ∀ later, (dataNowMs t :: later.flatMap SessionEvent.readings).Pairwise (· ≤ ·) →
          (∀ event ∈ later, event.testsExpiry = true) →
          sessionReplies host.server later =
            sessionReplies (serveAll (freshServer maybeMaster : Server S) rounds)
              (later.filter SessionEvent.isCommand) := by
  obtain ⟨rounds, hsurvives, hmaster, hlog, hfollow⟩ := run_survives hevents hclock hrun
  refine ⟨rounds, hsurvives, hlog, fun t ht => ?_⟩
  obtain ⟨hhost, hrounds⟩ := hfollow (dataNowMs t) ht
  have hserver := hrounds rounds List.prefix_rfl
  refine ⟨hhost.sameVisible hserver hlog (Int64.le_refl _), fun later hlater htests => ?_⟩
  refine sessionReplies_eq hhost hserver hlog ?_ hlater htests
  rw [hmaster, serveAll_maybeMaster]
  rfl

/-- `SET k hi` at second 1. -/
def roundSetHi : CommandRound :=
  let now := Timespec.atSecond 1 (by decide) (by decide)
  ⟨⟨now, now, now⟩, cstr "SET", [[107], [104, 105]]⟩

/-- `INCR n` at second 2. -/
def roundIncr : CommandRound :=
  let now := Timespec.atSecond 2 (by decide) (by decide)
  ⟨⟨now, now, now⟩, cstr "INCR", [[110]]⟩

/-- The key is flushed, the counter is still on its way when the process is killed. -/
def eventsUntilKill : List HostEvent :=
  [.command roundSetHi, .feed, .consume, .decide true, .grab 0, .write 0, .sync 0, .close 0,
    .command roundIncr, .feed, .stop 0 0 false]

theorem hostRun_recovers_kill :
    ∃ host : Host FiniteStore,
      run (step 16 100) (start false) eventsUntilKill = some host ∧
      ∃ rounds, Survives eventsUntilKill rounds ∧
        host.server.tank.log = (serveAll (freshServer false : Server FiniteStore) rounds).tank.log := by
  have hsome :
      (run (step 16 100) (start false : Host FiniteStore) eventsUntilKill).isSome = true := by
    decide +kernel
  obtain ⟨host, hrun⟩ := Option.isSome_iff_exists.mp hsome
  obtain ⟨rounds, hsurvives, hlog, -⟩ :=
    hostRun_recovers 16 100 false eventsUntilKill host (by decide) (by decide) hrun
  exact ⟨host, hrun, rounds, hsurvives, hlog⟩

/-- Whatever happens, records that are on stable storage stay there and in the log, and so do those
in the file unless the power fails. All that was flushed is in the file, and what was flushed before
the last sync is on stable storage. -/
theorem hostRun_keepsFlushed (size cap : ℕ) (maybeMaster : Bool) (events later : List HostEvent)
    (host host' : Host S) (hevents : ∀ event ∈ events ++ later, FromBuffer event)
    (hrun : run (step size cap) (start maybeMaster) events = some host)
    (hlater : run (step size cap) host later = some host') :
    (∀ records, host.Stable records → host'.Stable records) ∧
      ((∀ event ∈ later, event.isPowerFailure = false) →
        ∀ records, host.InFile records → host'.InFile records) ∧
      host.InFile host.flushed ∧ host.Stable host.durable := by
  obtain ⟨hdone, hmore⟩ := List.forall_mem_append.mp hevents
  have hinv := inv_of_run (start_inv maybeMaster) hdone hrun
  have hinv' := inv_of_run hinv hmore hlater
  have hflushed := hinv.flushed_given.trans hinv.given_prefix
  refine ⟨?_, ?_, ⟨hflushed, hinv.flushed_kept⟩, hinv.durable_flushed.trans hflushed,
    hinv.durable_kept⟩
  · rintro records ⟨hrecords, hstable⟩
    have hguard : Guarded (step (S := S) size cap) (fun _ event => FromBuffer event) host later :=
      guarded_of_forall fun event hmem _ => hmore event hmem
    have hdisk : host.disk.stable <+: host'.disk.stable :=
      run_monotone (r := fun s s' : Host S => s.disk.stable <+: s'.disk.stable)
        (fun _ => List.prefix_rfl) (fun _ _ _ => List.IsPrefix.trans) hinv
        (fun _ _ _ hs hevent hstep => ⟨hs.step hevent hstep, (step_disk hstep).stable⟩) hguard hlater
    have hkept := hstable.trans hdisk
    exact ⟨hinv.kept hinv' hrecords (hkept.trans (List.prefix_append _ _)), hkept⟩
  · rintro hpowered records ⟨hrecords, hfile⟩
    have hguard : Guarded (step (S := S) size cap)
        (fun _ event => FromBuffer event ∧ event.isPowerFailure = false) host later :=
      guarded_of_forall fun event hmem _ => ⟨hmore event hmem, hpowered event hmem⟩
    have hdisk : host.disk.stable ++ host.disk.cache <+: host'.disk.stable ++ host'.disk.cache :=
      run_monotone (r := fun s s' : Host S =>
          s.disk.stable ++ s.disk.cache <+: s'.disk.stable ++ s'.disk.cache)
        (fun _ => List.prefix_rfl) (fun _ _ _ => List.IsPrefix.trans) hinv
        (fun _ _ _ hs hevent hstep =>
          ⟨hs.step hevent.1 hstep, (step_disk hstep).file hevent.2⟩) hguard hlater
    have hkept := hfile.trans hdisk
    exact ⟨hinv.kept hinv' hrecords hkept, hkept⟩

/-- The key is flushed, and the flush of the counter has synced it when the power fails. -/
def eventsUntilSync : List HostEvent :=
  [.command roundSetHi, .feed, .consume, .decide true, .grab 0, .write 0, .sync 0, .close 0,
    .command roundIncr, .feed, .consume, .decide true, .grab 0, .write 0, .sync 0]

/-- Of two records in the log the first one is on stable storage and is all that the next process
finds. -/
theorem hostRun_keepsFlushed_powerFailure :
    let records : List SepticTankMutation := [.set ⟨[107], [104, 105], -1⟩]
    ∃ host host' : Host FiniteStore,
      run (step 32 100) (start false) eventsUntilSync = some host ∧
      run (step 32 100) host [.stop 0 0 true] = some host' ∧
      host.server.tank.log.length = 2 ∧ host.durable = records ∧ host'.Stable records ∧
      host'.server.tank.log.length = 1 := by
  intro records
  have hsome : ((run (step 32 100) (start false : Host FiniteStore) eventsUntilSync).bind
      fun host => (run (step 32 100) host [.stop 0 0 true]).bind fun host' =>
        if host.server.tank.log.length = 2 ∧ host.durable = records ∧
          host'.server.tank.log.length = 1 then some () else none).isSome = true := by
    decide +kernel
  obtain ⟨_, hruns⟩ := Option.isSome_iff_exists.mp hsome
  obtain ⟨host, hrun, hruns⟩ := Option.bind_eq_some_iff.mp hruns
  obtain ⟨host', hlater, hruns⟩ := Option.bind_eq_some_iff.mp hruns
  have hkept := hostRun_keepsFlushed 32 100 false _ _ host host' (by decide) hrun hlater
  split at hruns
  · rename_i hlogs
    obtain ⟨hlog, hdurable, hlog'⟩ := hlogs
    refine ⟨host, host', hrun, hlater, hlog, hdurable, ?_, hlog'⟩
    rw [← hdurable]
    exact hkept.1 _ hkept.2.2.2
  · cases hruns

end Redic
