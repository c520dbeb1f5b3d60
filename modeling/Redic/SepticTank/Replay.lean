import Redic.SepticTank.LazyExpiry

/-! # Replaying the log

The log collects every mutation the digest feeds to the potty. A restart replaces the tank by
the replay of the whole log with logging disabled. The replayed store differs from the live one
by entries that are dead already, so both show the same entries at every later instant.
-/
namespace Redic
open KeyStore TimedMap

variable {S : Type} [KeyStore S]

def septicTankDisableAof (tank : SepticTank S) : SepticTank S := { tank with aofEnabled := false }
def septicTankEnableAof (tank : SepticTank S) : SepticTank S := { tank with aofEnabled := true }

/-- `potty_trainer_train` on the records read back from the log. -/
def pottyTrainerTrain (tank : SepticTank S) (log : List SepticTankMutation) : SepticTank S :=
  log.foldl septicTankApplyMutation tank

/-- The tank `main` starts to serve from. -/
def serverBoot (log : List SepticTankMutation) : SepticTank S :=
  septicTankEnableAof (pottyTrainerTrain (septicTankDisableAof septicTankCreate) log)

/-- The tank together with everything logged since the log was created. -/
structure LoggedTank (S : Type) where
  tank : SepticTank S
  log : List SepticTankMutation

inductive TankEvent
  | digest (input : DigestInput)
  | restart

def TankEvent.readings : TankEvent → List Int64
  | digest input => input.readings
  | restart => []

def LoggedTank.step (state : LoggedTank S) : TankEvent → LoggedTank S
  | .digest input =>
    let (tank, _, fed) := state.tank.digest input
    { tank := tank, log := state.log ++ fed.toList }
  | .restart => { state with tank := serverBoot state.log }

def loggedRun (events : List TankEvent) : LoggedTank S :=
  events.foldl LoggedTank.step ⟨septicTankCreate, []⟩

theorem septicTankApplyMutation_data {tank tank' : SepticTank S} (h : tank.data = tank'.data)
    (mutation : SepticTankMutation) :
    (septicTankApplyMutation tank mutation).data =
      (septicTankApplyMutation tank' mutation).data := by
  cases mutation with
  | set mutation => simp only [septicTankApplyMutation, septicTankApplySet, h]
  | del key => simp only [septicTankApplyMutation, septicTankApplyDel, h]
  | expire mutation =>
    simp only [septicTankApplyMutation, septicTankApplyExpire, h]
    split
    · exact h
    · rfl

theorem pottyTrainerTrain_data {tank tank' : SepticTank S} (h : tank.data = tank'.data)
    (log : List SepticTankMutation) :
    (pottyTrainerTrain tank log).data = (pottyTrainerTrain tank' log).data := by
  induction log generalizing tank tank' with
  | nil => exact h
  | cons mutation log ih => exact ih (septicTankApplyMutation_data h mutation)

theorem serverBoot_data (log : List SepticTankMutation) :
    (serverBoot log : SepticTank S).data = (pottyTrainerTrain septicTankCreate log).data := by
  have h : (septicTankDisableAof septicTankCreate : SepticTank S).data = septicTankCreate.data := rfl
  exact pottyTrainerTrain_data h log

theorem pottyTrainerTrain_append (tank : SepticTank S) (log : List SepticTankMutation)
    (fed : Option SepticTankMutation) :
    pottyTrainerTrain tank (log ++ fed.toList) =
      septicTankApplyResolved (pottyTrainerTrain tank log) fed := by
  cases fed with
  | none => simp [pottyTrainerTrain, septicTankApplyResolved]
  | some mutation => simp [pottyTrainerTrain, septicTankApplyResolved, List.foldl_append]

theorem SepticTank.digest_fed {tank : SepticTank S} (h : tank.aofEnabled = true)
    (input : DigestInput) :
    (tank.digest input).2.2 = (tank.resolve input).2.resolvedMutation := by
  rcases septicTankDigest_cases tank input.operation input.ts₁ input.ts₂ with
    ⟨mutation, hm, hd⟩ | ⟨hm, hd⟩
  · simp only [digest, resolve, hd, hm, h, if_true]
  · simp only [digest, resolve, hd, hm]

theorem LoggedTank.step_aofEnabled {state : LoggedTank S} (h : state.tank.aofEnabled = true)
    (event : TankEvent) : (state.step event).tank.aofEnabled = true := by
  cases event with
  | digest input =>
    have hd := septicTankDigest_aofEnabled state.tank input.operation input.ts₁ input.ts₂
    exact hd.trans h
  | restart => rfl

theorem loggedRun_append (events : List TankEvent) (event : TankEvent) :
    (loggedRun (events ++ [event]) : LoggedTank S) = (loggedRun events).step event := by
  simp [loggedRun, List.foldl_append]

theorem loggedRun_aofEnabled (events : List TankEvent) :
    (loggedRun events : LoggedTank S).tank.aofEnabled = true := by
  induction events using List.reverseRecOn with
  | nil => rfl
  | append_singleton events event ih =>
    rw [loggedRun_append]
    exact LoggedTank.step_aofEnabled ih event

variable [LawfulKeyStore S]

/-- The replayed store keeps up with one step of the live tank. -/
theorem LoggedTank.step_replay {state : LoggedTank S} {event : TankEvent} {t : Timespec}
    (haof : state.tank.aofEnabled = true)
    (hlive : ∀ input, event = .digest input →
      dataNowMs input.ts₁ ≤ dataNowMs t ∧
      SameVisible input.ts₁ state.tank.data
        (pottyTrainerTrain septicTankCreate state.log : SepticTank S).data) :
    SameVisible t (state.step event).tank.data
      (pottyTrainerTrain septicTankCreate (state.step event).log : SepticTank S).data := by
  cases event with
  | digest input =>
    obtain ⟨hts, hsame⟩ := hlive input rfl
    have hfollow := (SepticTank.digest_follow hsame).later hts
    simp only [step]
    rw [SepticTank.digest_fed haof, pottyTrainerTrain_append]
    exact hfollow
  | restart =>
    simp only [step]
    rw [serverBoot_data]
    exact AgreeAt.refl _

/-- At every instant not before the last clock reading, replaying the log gives the keys, the
values and the deadlines a client of the live tank can observe. -/
theorem loggedRun_replay (events : List TankEvent) (t : Timespec)
    (hclock : (events.flatMap TankEvent.readings ++ [dataNowMs t]).Pairwise (· ≤ ·)) :
    ∀ key, visible t (pottyTrainerTrain septicTankCreate
        (loggedRun events : LoggedTank S).log : SepticTank S).data key =
      visible t (loggedRun events : LoggedTank S).tank.data key := by
  have same : SameVisible t (loggedRun events : LoggedTank S).tank.data
      (pottyTrainerTrain septicTankCreate
        (loggedRun events : LoggedTank S).log : SepticTank S).data := by
    induction events using List.reverseRecOn generalizing t with
    | nil => exact AgreeAt.refl _
    | append_singleton events event ih =>
      rw [loggedRun_append]
      refine LoggedTank.step_replay (loggedRun_aofEnabled events) ?_
      intro input hevent
      subst hevent
      -- the state before the step is compared at the first reading of the step
      simp only [List.flatMap_append, List.flatMap_singleton, TankEvent.readings,
        DigestInput.readings, List.append_assoc, List.cons_append, List.nil_append] at hclock
      obtain ⟨hbefore, hstep, hcross⟩ := List.pairwise_append.mp hclock
      refine ⟨(List.pairwise_cons.mp hstep).1 _ (by simp), ih input.ts₁ ?_⟩
      refine List.pairwise_append.mpr ⟨hbefore, List.pairwise_singleton _ _, ?_⟩
      intro r hr r' hr'
      exact hcross r hr r' (by simp_all)
  intro key
  exact (same.visible_eq key).symm

/-- A key set with a deadline, a restart, a dead key and a counter, compared at second 9. -/
theorem loggedRun_replay_restart :
    let clock (sec : Int64) (hlo : -9223372036854775 ≤ sec.toInt)
      (hhi : sec.toInt ≤ 9223372036854774) := Timespec.atSecond sec hlo hhi
    let at₁ := clock 1 (by decide) (by decide)
    let at₉ := clock 9 (by decide) (by decide)
    let events : List TankEvent :=
      [.digest ⟨.set ⟨[97], [49], false, false, false, ⟨.unixTs, 5000⟩⟩, at₁, at₁⟩, .restart,
        .digest ⟨.incrby ⟨[97], 7⟩, at₉, at₉⟩]
    visible at₉ (pottyTrainerTrain septicTankCreate
        (loggedRun events : LoggedTank FiniteStore).log : SepticTank FiniteStore).data [97] =
      visible at₉ (loggedRun events : LoggedTank FiniteStore).tank.data [97] := by
  intro clock at₁ at₉ events
  exact loggedRun_replay events at₉ (by decide) [97]

end Redic
