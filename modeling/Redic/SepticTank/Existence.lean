import Redic.SepticTank.Replay

/-! # Which commands agree that a key exists

`GET`, `EXISTS`, `DEL`, `SET NX` and an unconditional `EXPIRE` decide existence by the visible
entry. `TTL` looks at the stored entry without testing its expiry, so it joins them exactly
when the store holds no dead entry under the key, or one whose age happens to read as `-2`.
-/
namespace Redic
open KeyStore TimedMap

variable {S : Type} [KeyStore S]

def getReturnsValue (tank : SepticTank S) (key : DataString) (ts : Timespec) : Prop :=
  ∃ value, (septicTankGet tank key ts).2.value = .getResult (some value)

def existsReturnsOne (tank : SepticTank S) (key : DataString) (ts : Timespec) : Prop :=
  (septicTankExists tank key ts).2.value = .existsResult 1

def delReturnsOne (tank : SepticTank S) (key : DataString) (ts : Timespec) : Prop :=
  (septicTankResolveDel tank key ts).2.value = .delResult 1

def setRejected (tank : SepticTank S) (op : SepticTankSetOperation) (ts : Timespec) : Prop :=
  (septicTankResolveSet tank op ts).2.resolvedMutation = none

def expireReturnsOne (tank : SepticTank S) (op : SepticTankExpireOperation) (ts : Timespec) :
    Prop :=
  (septicTankResolveExpire tank op ts ts).2.value = .expireResult 1

def ttlReturns (tank : SepticTank S) (key : DataString) (ts : Timespec) (n : Int64) : Prop :=
  (septicTankTtl tank key ts).2.value = .ttlResult n

/-- All commands, asked at one clock reading, say the same about a key, and `TTL` tells a
missing deadline from a remaining time. -/
structure CommandsAgree (tank : SepticTank S) (key : DataString) (ts : Timespec) : Prop where
  get : getReturnsValue tank key ts ↔ existsReturnsOne tank key ts
  del : delReturnsOne tank key ts ↔ existsReturnsOne tank key ts
  setNx : ∀ op : SepticTankSetOperation, op.key = key → op.nx = true → op.xx = false →
    (setRejected tank op ts ↔ existsReturnsOne tank key ts)
  expire : ∀ op : SepticTankExpireOperation, op.key = key → op.condition = .none →
    (expireReturnsOne tank op ts ↔ existsReturnsOne tank key ts)
  ttl : ¬ ttlReturns tank key ts (-2) ↔ existsReturnsOne tank key ts
  ttlNoExpiry : existsReturnsOne tank key ts → ∀ entry, hashmapGet tank.data key = some entry →
    (ttlReturns tank key ts (-1) ↔ entry.expiresAt = none)
  ttlRemaining : existsReturnsOne tank key ts → ∀ entry, hashmapGet tank.data key = some entry →
    entry.expiresAt ≠ none → ∃ n, 0 ≤ n ∧ ttlReturns tank key ts n

/-- Every dead entry still stored under the key has its deadline in the second that lies two
before the clock's, the one age that `TTL` reads as a missing key. -/
def DeadEntryReadsMissing (tank : SepticTank S) (key : DataString) (ts : Timespec) : Prop :=
  ∀ entry deadline, hashmapGet tank.data key = some entry → dataIsExpired entry ts = true →
    entry.expiresAt = some deadline → deadline.toInt.tdiv 1000 = ts.tvSec.toInt - 2

section Answers
variable {tank : SepticTank S} {key : DataString} {ts : Timespec}

theorem getReturnsValue_iff :
    getReturnsValue tank key ts ↔ (visible ts tank.data key).isSome = true := by
  rw [getReturnsValue, septicTankGet_outcome]
  cases visible ts tank.data key <;> simp [getOutcome]

theorem existsReturnsOne_iff :
    existsReturnsOne tank key ts ↔ (visible ts tank.data key).isSome = true := by
  rw [existsReturnsOne, septicTankExists_outcome]
  cases visible ts tank.data key <;> simp [existsOutcome]

theorem delReturnsOne_iff :
    delReturnsOne tank key ts ↔ (visible ts tank.data key).isSome = true := by
  rw [delReturnsOne, septicTankResolveDel_outcome]
  cases visible ts tank.data key <;> simp [delOutcome]

theorem setNxRejected_iff {op : SepticTankSetOperation} (hnx : op.nx = true)
    (hxx : op.xx = false) :
    setRejected tank op ts ↔ (visible ts tank.data op.key).isSome = true := by
  rw [setRejected, septicTankResolveSet_outcome]
  cases visible ts tank.data op.key <;> simp [setOutcome, setWrites, hnx, hxx]

theorem expireReturnsOne_iff {op : SepticTankExpireOperation} (hc : op.condition = .none) :
    expireReturnsOne tank op ts ↔ (visible ts tank.data op.key).isSome = true := by
  rw [expireReturnsOne, septicTankResolveExpire_outcome]
  cases visible ts tank.data op.key with
  | none => simp [expireOutcome]
  | some entry => simp [expireOutcome, expireIsNoop, hc]

theorem ttlReturns_missing (h : hashmapGet tank.data key = none) (n : Int64) :
    ttlReturns tank key ts n ↔ n = -2 := by
  simp only [ttlReturns, septicTankTtl, h, SepticTankResultValue.ttlResult.injEq]
  exact eq_comm

theorem ttlReturns_noExpiry {entry : DataEntry} (h : hashmapGet tank.data key = some entry)
    (he : entry.expiresAt = none) (n : Int64) : ttlReturns tank key ts n ↔ n = -1 := by
  simp only [ttlReturns, septicTankTtl, h, he, SepticTankResultValue.ttlResult.injEq]
  exact eq_comm

theorem ttlReturns_deadline {entry : DataEntry} {deadline : Int64}
    (h : hashmapGet tank.data key = some entry) (he : entry.expiresAt = some deadline)
    (n : Int64) : ttlReturns tank key ts n ↔ n = deadline / 1000 - ts.tvSec := by
  simp only [ttlReturns, septicTankTtl, h, he, SepticTankResultValue.ttlResult.injEq]
  exact eq_comm

/-- The subtraction of `TTL` cannot wrap. -/
theorem ttl_toInt (deadline : Int64) (ts : Timespec) :
    (deadline / 1000 - ts.tvSec).toInt = deadline.toInt.tdiv 1000 - ts.tvSec.toInt := by
  have hlo := deadline.le_toInt
  have hhi := deadline.toInt_lt
  have slo := ts.ms_lower
  have shi := ts.ms_upper
  have bounds : -9223372036854775 ≤ deadline.toInt.tdiv 1000 ∧
      deadline.toInt.tdiv 1000 ≤ 9223372036854775 := by
    rcases Int.le_total 0 deadline.toInt with hp | hn
    · rw [Int.tdiv_eq_ediv_of_nonneg hp]
      omega
    · have hneg : (-deadline.toInt).tdiv 1000 = (-deadline.toInt) / 1000 :=
        Int.tdiv_eq_ediv_of_nonneg (by omega)
      rw [Int.neg_tdiv] at hneg
      omega
  have hq : (deadline / 1000).toInt = deadline.toInt.tdiv 1000 := by
    rw [Int64.toInt_div, show (1000 : Int64).toInt = 1000 from rfl]
    exact Int.bmod_eq_of_le (by omega) (by omega)
  rw [Int64.toInt_sub, hq]
  exact Int.bmod_eq_of_le (by omega) (by omega)

theorem ttl_nonneg {deadline : Int64} (h : ¬ deadline ≤ dataNowMs ts) :
    0 ≤ deadline / 1000 - ts.tvSec := by
  have hn := ts.nsec_nonneg
  rw [Int64.le_iff_toInt_le, ttl_toInt, show (0 : Int64).toInt = 0 from rfl]
  rw [Int64.le_iff_toInt_le, dataNowMs_toInt] at h
  rcases Int.le_total 0 deadline.toInt with hp | hneg
  · rw [Int.tdiv_eq_ediv_of_nonneg hp]
    omega
  · have hd : (-deadline.toInt).tdiv 1000 = (-deadline.toInt) / 1000 :=
      Int.tdiv_eq_ediv_of_nonneg (by omega)
    rw [Int.neg_tdiv] at hd
    omega

theorem dataIsExpired_some {entry : DataEntry} {deadline : Int64}
    (he : entry.expiresAt = some deadline) :
    dataIsExpired entry ts = decide (deadline ≤ dataNowMs ts) := by
  simp only [dataIsExpired, he]

theorem notExpired_of_exists {entry : DataEntry} (hlive : existsReturnsOne tank key ts)
    (hentry : hashmapGet tank.data key = some entry) : dataIsExpired entry ts = false := by
  obtain ⟨visibleEntry, hvisible⟩ := Option.isSome_iff_exists.mp (existsReturnsOne_iff.mp hlive)
  obtain ⟨hfound, hx⟩ := visible_eq_some.mp hvisible
  rw [hentry] at hfound
  cases hfound
  exact hx

theorem commandsAgree_of_ttl
    (httl : ¬ ttlReturns tank key ts (-2) ↔ existsReturnsOne tank key ts) :
    CommandsAgree tank key ts where
  get := getReturnsValue_iff.trans existsReturnsOne_iff.symm
  del := delReturnsOne_iff.trans existsReturnsOne_iff.symm
  setNx := by
    rintro op rfl hnx hxx
    exact (setNxRejected_iff hnx hxx).trans existsReturnsOne_iff.symm
  expire := by
    rintro op rfl hc
    exact (expireReturnsOne_iff hc).trans existsReturnsOne_iff.symm
  ttl := httl
  ttlNoExpiry := by
    intro hlive entry hentry
    have hx := notExpired_of_exists hlive hentry
    cases hd : entry.expiresAt with
    | none => simp [ttlReturns_noExpiry hentry hd]
    | some deadline =>
      rw [dataIsExpired_some hd, decide_eq_false_iff_not] at hx
      have hnonneg := ttl_nonneg hx
      rw [ttlReturns_deadline hentry hd]
      constructor
      · intro h
        rw [← h] at hnonneg
        exact absurd hnonneg (by decide)
      · intro h
        cases h
  ttlRemaining := by
    intro hlive entry hentry hne
    have hx := notExpired_of_exists hlive hentry
    obtain ⟨deadline, hd⟩ := Option.ne_none_iff_exists'.mp hne
    rw [dataIsExpired_some hd, decide_eq_false_iff_not] at hx
    exact ⟨_, ttl_nonneg hx, (ttlReturns_deadline hentry hd _).mpr rfl⟩

theorem CommandsAgree.deadEntryReadsMissing (h : CommandsAgree tank key ts) :
    DeadEntryReadsMissing tank key ts := by
  intro entry deadline hentry hx hd
  have hmissing : ¬ existsReturnsOne tank key ts := by
    rw [existsReturnsOne_iff, visible_of_expired hentry hx]
    simp
  have httl : ttlReturns tank key ts (-2) := by
    by_contra hc
    exact hmissing (h.ttl.mp hc)
  have hvalue := congrArg Int64.toInt ((ttlReturns_deadline hentry hd _).mp httl)
  rw [ttl_toInt, show (-2 : Int64).toInt = -2 from rfl] at hvalue
  omega

theorem DeadEntryReadsMissing.ttl (h : DeadEntryReadsMissing tank key ts) :
    ¬ ttlReturns tank key ts (-2) ↔ existsReturnsOne tank key ts := by
  rw [existsReturnsOne_iff]
  rcases entry_cases ts tank.data key with ⟨hm, hv⟩ | ⟨entry, hm, hx, hv⟩ | ⟨entry, hm, hx, hv⟩
  · simp [hv, ttlReturns_missing hm]
  · cases hd : entry.expiresAt with
    | none => simp [dataIsExpired, hd] at hx
    | some deadline =>
      have hsec := h entry deadline hm hx hd
      have hvalue : deadline / 1000 - ts.tvSec = -2 := by
        rw [← Int64.toInt_inj, ttl_toInt, hsec]
        simp
      simp [hv, ttlReturns_deadline hm hd, hvalue]
  · cases hd : entry.expiresAt with
    | none => simp [hv, ttlReturns_noExpiry hm hd]
    | some deadline =>
      rw [dataIsExpired_some hd, decide_eq_false_iff_not] at hx
      have hnonneg := ttl_nonneg hx
      have hne : ¬ (-2 = deadline / 1000 - ts.tvSec) := by
        intro hc
        rw [← hc] at hnonneg
        exact absurd hnonneg (by decide)
      simp [hv, ttlReturns_deadline hm hd, hne]

/-- The commands agree on a key exactly when no dead entry under it misleads `TTL`. -/
theorem commandsAgree_iff (tank : SepticTank S) (key : DataString) (ts : Timespec) :
    CommandsAgree tank key ts ↔ DeadEntryReadsMissing tank key ts :=
  ⟨CommandsAgree.deadEntryReadsMissing, fun h => commandsAgree_of_ttl h.ttl⟩

end Answers

/-- A key set to live one second, asked five seconds later: `EXISTS` says 0 and `TTL` says it
has been gone for four seconds. -/
theorem commandsDisagree_dead_key :
    ¬ ∀ (events : List TankEvent) (key : DataString) (ts : Timespec),
      CommandsAgree (loggedRun events : LoggedTank FiniteStore).tank key ts := by
  intro h
  let at₁ := Timespec.atSecond 1 (by decide) (by decide)
  let at₆ := Timespec.atSecond 6 (by decide) (by decide)
  let set : SepticTankSetOperation := ⟨[97], [49], false, false, false, ⟨.unixTs, 2000⟩⟩
  have hc := (h [.digest ⟨.set set, at₁, at₁⟩] [97] at₆).deadEntryReadsMissing
  have hstored : hashmapGet (loggedRun [.digest ⟨.set set, at₁, at₁⟩] :
      LoggedTank FiniteStore).tank.data [97] = some (dataCreateStringEntry (some 2000) [49]) := by
    decide
  exact absurd (hc _ _ hstored (by decide) rfl) (by decide)

end Redic
