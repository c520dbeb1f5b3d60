import Redic.Command.Plan
import Redic.Foundation.AppendLog
import Redic.Server

/-! # Sessions across restarts

A server follows its log when the replay of the log shows what its tank shows. Commands keep
that, a restart brings it about, and two servers that follow one log answer alike. So the replies
of a session say nothing about the restarts in it.
-/
namespace Redic
open AppendLog Command KeyStore TimedMap

variable {S : Type} [KeyStore S]

/-- The command of a client, with the clock readings that it leads to. -/
structure CommandRound where
  clock : CommandClock
  command : List UInt8
  args : List (List UInt8)

namespace CommandRound

def readings (round : CommandRound) : List Int64 :=
  [dataNowMs round.clock.ts₁, dataNowMs round.clock.ts₂]

def serve (server : Server S) (round : CommandRound) : Server S × RESPValue :=
  commandHelper round.clock server round.command round.args

def isTtl (round : CommandRound) : Bool := strEqCi round.command (cstr "TTL")

theorem exists_plan (round : CommandRound) : ∃ plan : CommandPlan, plan.Carries round.args ∧
    (round.isTtl = false → plan.testsExpiry = true) ∧
    ∀ server : Server S, serve server round = plan.execute server round.clock := by
  obtain ⟨plan, hcarries, htests, hplan⟩ :=
    processCommandHelper_plans (S := S) round.clock.now round.command round.args
  refine ⟨plan, hcarries, htests, ?_⟩
  intro server
  simp only [serve, commandHelper, hplan server round.clock rfl]

end CommandRound

def serveAll (server : Server S) (rounds : List CommandRound) : Server S :=
  rounds.foldl (fun server round => (CommandRound.serve server round).1) server

def freshServer (maybeMaster : Bool) : Server S := ⟨⟨septicTankCreate, []⟩, maybeMaster⟩

def fedMutation (server : Server S) (operation : SepticTankOperation) (clock : CommandClock) :
    Option SepticTankMutation :=
  (server.tank.tank.digest ⟨operation, clock.ts₁, clock.ts₂⟩).2.2

theorem septicTankFeed_log (server : Server S) (operation : SepticTankOperation)
    (clock : CommandClock) : (septicTankFeed server operation clock).1.tank.log =
      server.tank.log ++ (fedMutation server operation clock).toList := rfl

theorem serve_appendsOne :
    AppendsOne (fun (server : Server S) round => (CommandRound.serve server round).1)
      (fun server => server.tank.log) := by
  intro server round
  obtain ⟨plan, -, -, hplan⟩ := round.exists_plan (S := S)
  simp only [hplan]
  cases plan with
  | answer reply => exact ⟨none, by simp [CommandPlan.execute]⟩
  | feed operation reply => exact ⟨_, septicTankFeed_log server operation round.clock⟩

/-- The server logs, and from an instant on the replay of its log shows what its tank shows. -/
structure FollowsLog (since : Int64) (server : Server S) : Prop where
  aofEnabled : server.tank.tank.aofEnabled = true
  shows : ∀ t, since ≤ dataNowMs t → SameVisible t server.tank.tank.data
    (pottyTrainerTrain septicTankCreate server.tank.log : SepticTank S).data

theorem followsLog_boot (since : Int64) (maybeMaster : Bool) (log : List SepticTankMutation) :
    FollowsLog since (⟨⟨serverBoot log, log⟩, maybeMaster⟩ : Server S) where
  aofEnabled := rfl
  shows t _ := by
    rw [serverBoot_data]
    exact AgreeAt.refl _

section FollowsLog
variable {since : Int64} {server server' : Server S} {round : CommandRound}

theorem FollowsLog.later {since' : Int64} (h : FollowsLog since server) (hle : since ≤ since') :
    FollowsLog since' server :=
  ⟨h.aofEnabled, fun t ht => h.shows t (Int64.le_trans hle ht)⟩

theorem FollowsLog.sameVisible (h : FollowsLog since server) (h' : FollowsLog since server')
    (hlog : server.tank.log = server'.tank.log) {t : Timespec} (ht : since ≤ dataNowMs t) :
    SameVisible t server.tank.tank.data server'.tank.tank.data := by
  have hshows := (h'.shows t ht).symm
  rw [← hlog] at hshows
  exact (h.shows t ht).trans hshows

theorem FollowsLog.serve [LawfulKeyStore S] (h : FollowsLog since server)
    (hts : since ≤ dataNowMs round.clock.ts₁) :
    FollowsLog (dataNowMs round.clock.ts₁) (CommandRound.serve server round).1 := by
  obtain ⟨plan, -, -, hplan⟩ := round.exists_plan (S := S)
  rw [hplan]
  cases plan with
  | answer reply => exact h.later hts
  | feed operation reply =>
    refine ⟨LoggedTank.step_aofEnabled h.aofEnabled _, ?_⟩
    intro t ht
    refine LoggedTank.step_replay h.aofEnabled ?_
    intro input hinput
    cases hinput
    exact ⟨ht, h.shows _ hts⟩

/-- Only an operation that tests for expiry writes, so equal views feed the same mutation. -/
theorem fedMutation_congr {operation : SepticTankOperation} {clock : CommandClock}
    (h : server.tank.tank.aofEnabled = true) (h' : server'.tank.tank.aofEnabled = true)
    (hsame : SameVisible clock.ts₁ server.tank.tank.data server'.tank.tank.data) :
    fedMutation server operation clock = fedMutation server' operation clock := by
  simp only [fedMutation, SepticTank.digest_fed h, SepticTank.digest_fed h']
  cases htests : operation.testsExpiry with
  | true =>
    have hresult : (server.tank.tank.resolve ⟨operation, clock.ts₁, clock.ts₂⟩).2 =
        (server'.tank.tank.resolve ⟨operation, clock.ts₁, clock.ts₂⟩).2 :=
      SepticTank.resolve_result_eq htests hsame
    rw [hresult]
  | false =>
    cases operation with
    | ttl key => simp only [SepticTank.resolve, septicTankResolve, septicTankTtl_resolvedMutation]
    | _ => cases htests

/-- A command is answered and logged alike by servers that follow one log. -/
theorem serve_congr (h : FollowsLog since server) (h' : FollowsLog since server')
    (hlog : server.tank.log = server'.tank.log) (hts : since ≤ dataNowMs round.clock.ts₁) :
    (CommandRound.serve server round).1.tank.log = (CommandRound.serve server' round).1.tank.log ∧
      (round.isTtl = false → server.maybeMaster = server'.maybeMaster →
        (CommandRound.serve server round).2 = (CommandRound.serve server' round).2) := by
  obtain ⟨plan, -, htests, hplan⟩ := round.exists_plan (S := S)
  have hsame := h.sameVisible h' hlog hts
  rw [hplan, hplan]
  cases plan with
  | answer reply =>
    refine ⟨hlog, fun _ hmaster => ?_⟩
    simp only [CommandPlan.execute, hmaster]
  | feed operation reply =>
    constructor
    · simp only [CommandPlan.execute, septicTankFeed_log, hlog,
        fedMutation_congr h.aofEnabled h'.aofEnabled hsame]
    · intro httl _
      have hop : operation.testsExpiry = true := htests httl
      have hresult : (server.tank.tank.resolve ⟨operation, round.clock.ts₁, round.clock.ts₂⟩).2 =
          (server'.tank.tank.resolve ⟨operation, round.clock.ts₁, round.clock.ts₂⟩).2 :=
        SepticTank.resolve_result_eq hop hsame
      simp only [CommandPlan.execute, septicTankFeed, SepticTank.digest_result, hresult]

theorem serve_maybeMaster (server : Server S) (round : CommandRound) :
    (CommandRound.serve server round).1.maybeMaster = server.maybeMaster := by
  obtain ⟨plan, -, -, hplan⟩ := round.exists_plan (S := S)
  rw [hplan]
  cases plan <;> rfl

end FollowsLog

inductive SessionEvent
  | command (round : CommandRound)
  | restart

namespace SessionEvent

def readings : SessionEvent → List Int64
  | command round => round.readings
  | restart => []

def isCommand : SessionEvent → Bool
  | command _ => true
  | restart => false

/-- The clients' commands, none of which is a `TTL`. -/
def testsExpiry : SessionEvent → Bool
  | command round => !round.isTtl
  | restart => true

end SessionEvent

/-- A restart trains a fresh tank on the whole log. -/
def restartServer (server : Server S) : Server S :=
  { server with tank := ⟨serverBoot server.tank.log, server.tank.log⟩ }

def sessionReplies (server : Server S) : List SessionEvent → List RESPValue
  | [] => []
  | .command round :: events =>
    (CommandRound.serve server round).2 :: sessionReplies (CommandRound.serve server round).1 events
  | .restart :: events => sessionReplies (restartServer server) events

theorem sessionReplies_eq [LawfulKeyStore S] {events : List SessionEvent} {since : Int64}
    {server server' : Server S} (h : FollowsLog since server) (h' : FollowsLog since server')
    (hlog : server.tank.log = server'.tank.log) (hmaster : server.maybeMaster = server'.maybeMaster)
    (hclock : (since :: events.flatMap SessionEvent.readings).Pairwise (· ≤ ·))
    (htests : ∀ event ∈ events, event.testsExpiry = true) :
    sessionReplies server events = sessionReplies server' (events.filter SessionEvent.isCommand) := by
  induction events generalizing since server server' with
  | nil => rfl
  | cons event events ih =>
    obtain ⟨hevent, hevents⟩ := List.forall_mem_cons.mp htests
    cases event with
    | restart =>
      have hboot : FollowsLog since (restartServer server) := followsLog_boot since _ _
      rw [List.filter_cons_of_neg (by simp [SessionEvent.isCommand]), sessionReplies]
      exact ih hboot h' hlog hmaster hclock hevents
    | command round =>
      simp only [List.flatMap_cons, SessionEvent.readings, CommandRound.readings,
        List.cons_append, List.nil_append] at hclock
      obtain ⟨hfirst, hrest⟩ := List.pairwise_cons.mp hclock
      obtain ⟨hone, htail⟩ := List.pairwise_cons.mp hrest
      have hts := hfirst _ List.mem_cons_self
      have hafter : (dataNowMs round.clock.ts₁ ::
          events.flatMap SessionEvent.readings).Pairwise (· ≤ ·) :=
        List.pairwise_cons.mpr ⟨fun r hr => hone r (List.mem_cons_of_mem _ hr), htail.of_cons⟩
      obtain ⟨hlogs, hreplies⟩ := serve_congr h h' hlog hts
      have httl : round.isTtl = false := by simpa [SessionEvent.testsExpiry] using hevent
      rw [List.filter_cons_of_pos rfl, sessionReplies, sessionReplies, hreplies httl hmaster]
      refine congrArg _ (ih (h.serve hts) (h'.serve hts) hlogs ?_ hafter hevents)
      rw [serve_maybeMaster, serve_maybeMaster, hmaster]

/-- Restarts cannot be observed: the replies of any session without a `TTL` are the replies of
the session without its restarts. -/
theorem restarts_invisible [LawfulKeyStore S] (maybeMaster : Bool) (events : List SessionEvent)
    (hclock : (events.flatMap SessionEvent.readings).Pairwise (· ≤ ·))
    (htests : ∀ event ∈ events, event.testsExpiry = true) :
    sessionReplies (freshServer maybeMaster : Server S) events =
      sessionReplies (freshServer maybeMaster : Server S) (events.filter SessionEvent.isCommand) := by
  have hfresh : FollowsLog Int64.minValue (freshServer maybeMaster : Server S) :=
    followsLog_boot Int64.minValue maybeMaster []
  refine sessionReplies_eq hfresh hfresh rfl rfl ?_ htests
  exact List.pairwise_cons.mpr ⟨fun r _ => Int64.minValue_le r, hclock⟩

/-- A key that is set before a restart and read after it. -/
theorem restarts_invisible_setGet :
    let now := Timespec.atSecond 1 (by decide) (by decide)
    let events : List SessionEvent :=
      [.command ⟨⟨now, now, now⟩, cstr "SET", [[107], [104, 105]]⟩, .restart,
        .command ⟨⟨now, now, now⟩, cstr "GET", [[107]]⟩]
    sessionReplies (freshServer false : Server FiniteStore) events =
      sessionReplies (freshServer false : Server FiniteStore)
        (events.filter SessionEvent.isCommand) := by
  intro now events
  exact restarts_invisible false events (by decide) (by decide +kernel)

end Redic
