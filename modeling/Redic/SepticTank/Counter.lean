import Redic.Foundation.Int64Range
import Redic.SepticTank.SetContract

/-! # Counters count exactly

A key is a counter when its string reads as a 64-bit integer; a missing or dead key counts as
zero. Over the integers, `INCRBY` is an exact addition that is refused when the sum leaves the
64-bit range. The tank, whose counters are kept as text and whose overflow test is itself done in
64-bit arithmetic, follows this machine step by step.
-/
namespace Redic
open KeyStore TimedMap Int64Range DecimalText

/-- What a key is worth as a counter: its number, if its string has one, and its deadline. -/
structure Counter where
  number : Option ℤ
  expiresAt : OptionTime
  deriving DecidableEq

abbrev Counters := DataString → Option Counter

/-- The exact `INCRBY`, and its reply; an error is no reply. -/
def Counters.incrBy (counters : Counters) (op : SepticTankIncrByOperation) (now : Int64) :
    Counters × Option ℤ :=
  let live := view Counter.expiresAt now counters op.key
  match live.elim (some 0) Counter.number with
  | none => (counters, none)
  | some n =>
    if InInt64 (n + op.delta.toInt) then
      (Function.update counters op.key
        (some ⟨some (n + op.delta.toInt), live.bind Counter.expiresAt⟩),
        some (n + op.delta.toInt))
    else (counters, none)

abbrev IncrByInput := SepticTankIncrByOperation × Timespec

def Counters.run (counters : Counters) : List IncrByInput → Counters × List (Option ℤ)
  | [] => (counters, [])
  | input :: inputs =>
    let next := counters.incrBy input.1 (dataNowMs input.2)
    let rest := run next.1 inputs
    (rest.1, next.2 :: rest.2)

def DataEntry.counter (entry : DataEntry) : Counter :=
  ⟨(parseInt64 entry.value).map Int64.toInt, entry.expiresAt⟩

section Tank
variable {S : Type} [KeyStore S]

def countersOf (s : S) : Counters := fun key => (hashmapGet s key).map DataEntry.counter

def incrByDigest (tank : SepticTank S) (input : IncrByInput) :
    SepticTank S × SepticTankResult × Option SepticTankMutation :=
  tank.digest ⟨.incrby input.1, input.2, input.2⟩

def incrByRun (tank : SepticTank S) (inputs : List IncrByInput) : SepticTank S :=
  inputs.foldl (fun tank input => (incrByDigest tank input).1) tank

def counterReply (result : SepticTankResult) : Option ℤ :=
  match result.success, result.value with
  | true, .incrbyResult value => some value.toInt
  | _, _ => none

def incrByReplies (tank : SepticTank S) : List IncrByInput → List (Option ℤ)
  | [] => []
  | input :: inputs =>
    counterReply (incrByDigest tank input).2.1 :: incrByReplies (incrByDigest tank input).1 inputs

def counterValue (ts : Timespec) (s : S) (key : DataString) : Option ℤ :=
  (visible ts s key).elim (some 0) fun entry => (parseInt64 entry.value).map Int64.toInt

/-- One `INCRBY` adds exactly, or answers an error and changes nothing. -/
structure CountsExactly (tank : SepticTank S) (op : SepticTankIncrByOperation) (ts : Timespec) :
    Prop where
  succeeds : (incrByDigest tank (op, ts)).2.1.success = true ↔
    ∃ n, counterValue ts tank.data op.key = some n ∧ InInt64 (n + op.delta.toInt)
  reply : ∀ n, counterValue ts tank.data op.key = some n → InInt64 (n + op.delta.toInt) →
    ∃ value : Int64, value.toInt = n + op.delta.toInt ∧
      (incrByDigest tank (op, ts)).2.1.value = .incrbyResult value ∧
      parseInt64 (intText (n + op.delta.toInt)) = some value
  stored : ∀ n, counterValue ts tank.data op.key = some n → InInt64 (n + op.delta.toInt) →
    hashmapGet (incrByDigest tank (op, ts)).1.data op.key = some
      ⟨(visible ts tank.data op.key).bind DataEntry.expiresAt, .dataString,
        intText (n + op.delta.toInt)⟩
  laterGet : ∀ n, counterValue ts tank.data op.key = some n → InInt64 (n + op.delta.toInt) →
    ∀ later, (∀ deadline, (visible ts tank.data op.key).bind DataEntry.expiresAt = some deadline →
      ¬ deadline ≤ dataNowMs later) →
    (septicTankGet (incrByDigest tank (op, ts)).1 op.key later).2.value =
      .getResult (some (intText (n + op.delta.toInt)))
  fails : (incrByDigest tank (op, ts)).2.1.success = false →
    (incrByDigest tank (op, ts)).2.1.error.isSome = true ∧
      (incrByDigest tank (op, ts)).1 = tank ∧ (incrByDigest tank (op, ts)).2.2 = none
  otherKeys : ∀ key, key ≠ op.key →
    hashmapGet (incrByDigest tank (op, ts)).1.data key = hashmapGet tank.data key

end Tank

/-- The overflow test is exact near both limits: its own differences never leave the range. -/
theorem incrByOverflows_eq_false {value delta : Int64} :
    incrByOverflows value delta = false ↔ InInt64 (value.toInt + delta.toInt) := by
  obtain ⟨vlo, vhi⟩ := inInt64_toInt value
  obtain ⟨dlo, dhi⟩ := inInt64_toInt delta
  have hzero : (0 : Int64).toInt = 0 := rfl
  have hmax : Int64.maxValue.toInt = 2 ^ 63 - 1 := rfl
  have hmin : Int64.minValue.toInt = -2 ^ 63 := rfl
  simp only [incrByOverflows, Bool.or_eq_false_iff, Bool.and_eq_false_iff, decide_eq_false_iff_not,
    Int64.lt_iff_toInt_lt, hzero]
  rcases Int.lt_trichotomy delta.toInt 0 with hneg | hz | hpos
  · have hdiff : (Int64.minValue - delta).toInt = -2 ^ 63 - delta.toInt := by
      rw [toInt_sub_iff.mpr (by rw [hmin]; constructor <;> omega), hmin]
    rw [hdiff]
    unfold InInt64
    omega
  · unfold InInt64
    omega
  · have hdiff : (Int64.maxValue - delta).toInt = 2 ^ 63 - 1 - delta.toInt := by
      rw [toInt_sub_iff.mpr (by rw [hmax]; constructor <;> omega), hmax]
    rw [hdiff]
    unfold InInt64
    omega

section Steps
variable {S : Type} [KeyStore S] {tank : SepticTank S} {op : SepticTankIncrByOperation}
  {ts : Timespec}

theorem incrByResolve_outcome : (tank.resolve ⟨.incrby op, ts, ts⟩).2 =
    incrByOutcome op (visible ts tank.data op.key) := septicTankResolveIncrBy_outcome tank ts op

theorem incrByResolve_tank : (tank.resolve ⟨.incrby op, ts, ts⟩).1 = tank :=
  septicTankResolveIncrBy_tank tank ts op

theorem incrByOutcome_of_fits {live : Option DataEntry} {n : ℤ}
    (hn : live.elim (some 0) (fun entry => (parseInt64 entry.value).map Int64.toInt) = some n)
    (hfits : InInt64 (n + op.delta.toInt)) :
    ∃ value : Int64, value.toInt = n + op.delta.toInt ∧
      incrByOutcome op live = ⟨.incrby, .incrbyResult value,
        some (.set ⟨op.key, intText (n + op.delta.toInt),
          encodeDeadline (live.bind DataEntry.expiresAt)⟩), true, none⟩ := by
  have hread : ∃ start : Int64, start.toInt = n ∧
      live.elim (some 0) (fun entry => parseInt64 entry.value) = some start := by
    cases live with
    | none =>
      cases hn
      exact ⟨0, rfl, rfl⟩
    | some entry =>
      obtain ⟨start, hstart, rfl⟩ := Option.map_eq_some_iff.mp hn
      exact ⟨start, rfl, hstart⟩
  obtain ⟨start, rfl, hstart⟩ := hread
  have hsum : (start + op.delta).toInt = start.toInt + op.delta.toInt := toInt_add_iff.mpr hfits
  refine ⟨start + op.delta, hsum, ?_⟩
  simp only [incrByOutcome, hstart, incrByOverflows_eq_false.mpr hfits, Bool.false_eq_true, if_false,
    dataStringFromInt64, hsum]
  rfl

theorem incrByOutcome_of_not_fits {live : Option DataEntry}
    (h : ¬ ∃ n, live.elim (some 0) (fun entry => (parseInt64 entry.value).map Int64.toInt) =
      some n ∧ InInt64 (n + op.delta.toInt)) :
    (incrByOutcome op live).success = false ∧ (incrByOutcome op live).error.isSome = true ∧
      (incrByOutcome op live).resolvedMutation = none := by
  unfold incrByOutcome
  cases hstart : live.elim (some 0) (fun entry => parseInt64 entry.value) with
  | none => exact ⟨rfl, rfl, rfl⟩
  | some start =>
    have hoverflow : incrByOverflows start op.delta = true := by
      by_contra hno
      refine h ⟨start.toInt, ?_, incrByOverflows_eq_false.mp (Bool.eq_false_iff.mpr hno)⟩
      cases live with
      | none =>
        cases hstart
        rfl
      | some entry => exact congrArg (Option.map Int64.toInt) hstart
    simp [hoverflow]

variable [LawfulKeyStore S]

theorem incrByDigest_of_fits (hclock : 0 ≤ (dataNowMs ts).toInt) {n : ℤ}
    (hn : counterValue ts tank.data op.key = some n) (hfits : InInt64 (n + op.delta.toInt)) :
    (∃ value : Int64, value.toInt = n + op.delta.toInt ∧
      (incrByDigest tank (op, ts)).2.1.success = true ∧
      (incrByDigest tank (op, ts)).2.1.value = .incrbyResult value) ∧
    ∀ key, hashmapGet (incrByDigest tank (op, ts)).1.data key = if key = op.key then some
      ⟨(visible ts tank.data op.key).bind DataEntry.expiresAt, .dataString,
        intText (n + op.delta.toInt)⟩ else hashmapGet tank.data key := by
  obtain ⟨value, hvalue, houtcome⟩ := incrByOutcome_of_fits hn hfits
  rw [← incrByResolve_outcome] at houtcome
  have hkept : (visible ts tank.data op.key).bind DataEntry.expiresAt ≠ some stMutationNoExpiry := by
    cases hlive : visible ts tank.data op.key with
    | none => exact fun h => by cases h
    | some entry => exact visible_deadline_ne hclock hlive
  constructor
  · refine ⟨value, hvalue, ?_, ?_⟩
    · rw [incrByDigest, SepticTank.digest_result, houtcome]
    · rw [incrByDigest, SepticTank.digest_result, houtcome]
  · intro key
    rw [incrByDigest, SepticTank.digest_get, houtcome, incrByResolve_tank]
    dsimp only [SepticTankMutation.key, SepticTankMutation.effect]
    change (if key = op.key then some (dataCreateStringEntry (decodeDeadline (encodeDeadline
      ((visible ts tank.data op.key).bind DataEntry.expiresAt))) _) else _) = _
    rw [decodeDeadline_encodeDeadline.mpr hkept]
    rfl

omit [LawfulKeyStore S] in
theorem incrByDigest_of_not_fits
    (h : ¬ ∃ n, counterValue ts tank.data op.key = some n ∧ InInt64 (n + op.delta.toInt)) :
    (incrByDigest tank (op, ts)).2.1.success = false ∧
      (incrByDigest tank (op, ts)).2.1.error.isSome = true ∧
      (incrByDigest tank (op, ts)).1 = tank ∧ (incrByDigest tank (op, ts)).2.2 = none := by
  obtain ⟨hsuccess, herror, hmutation⟩ := incrByOutcome_of_not_fits h
  rw [← incrByResolve_outcome] at hsuccess herror hmutation
  refine ⟨?_, ?_, ?_, ?_⟩
  · rw [incrByDigest, SepticTank.digest_result, hsuccess]
  · rw [incrByDigest, SepticTank.digest_result, herror]
  · rw [incrByDigest, SepticTank.digest_tank, hmutation]
    exact incrByResolve_tank
  · rw [incrByDigest, SepticTank.digest_fed_eq, hmutation, ite_self]

theorem incrBy_countsExactly (hclock : 0 ≤ (dataNowMs ts).toInt) : CountsExactly tank op ts where
  succeeds := by
    constructor
    · intro hsuccess
      by_contra h
      rw [(incrByDigest_of_not_fits h).1] at hsuccess
      cases hsuccess
    · rintro ⟨n, hn, hfits⟩
      obtain ⟨⟨value, -, hsuccess, -⟩, -⟩ := incrByDigest_of_fits hclock hn hfits
      exact hsuccess
  reply n hn hfits := by
    obtain ⟨⟨value, hvalue, -, hreply⟩, -⟩ := incrByDigest_of_fits hclock hn hfits
    refine ⟨value, hvalue, hreply, ?_⟩
    rw [← hvalue]
    exact parseInt64_dataStringFromInt64 value
  stored n hn hfits := ((incrByDigest_of_fits hclock hn hfits).2 op.key).trans (if_pos rfl)
  laterGet n hn hfits later hlater := by
    have hstored := ((incrByDigest_of_fits hclock hn hfits).2 op.key).trans (if_pos rfl)
    have hlive : dataIsExpired ⟨(visible ts tank.data op.key).bind DataEntry.expiresAt,
        .dataString, intText (n + op.delta.toInt)⟩ later = false := by
      unfold dataIsExpired
      dsimp only
      cases hdeadline : (visible ts tank.data op.key).bind DataEntry.expiresAt with
      | none => rfl
      | some deadline => exact decide_eq_false (hlater deadline hdeadline)
    rw [septicTankGet_outcome, visible_of_live hstored hlive]
    rfl
  fails hfail := by
    have h : ¬ ∃ n, counterValue ts tank.data op.key = some n ∧ InInt64 (n + op.delta.toInt) := by
      rintro ⟨n, hn, hfits⟩
      obtain ⟨⟨value, -, hsuccess, -⟩, -⟩ := incrByDigest_of_fits hclock hn hfits
      rw [hfail] at hsuccess
      cases hsuccess
    exact (incrByDigest_of_not_fits h).2
  otherKeys key hkey := by
    by_cases h : ∃ n, counterValue ts tank.data op.key = some n ∧ InInt64 (n + op.delta.toInt)
    · obtain ⟨n, hn, hfits⟩ := h
      exact ((incrByDigest_of_fits hclock hn hfits).2 key).trans (if_neg hkey)
    · rw [(incrByDigest_of_not_fits h).2.2.1]

omit [LawfulKeyStore S] in
/-- The live counter of the abstract machine is the counter of the visible entry. -/
theorem view_countersOf (ts : Timespec) (s : S) (key : DataString) :
    view Counter.expiresAt (dataNowMs ts) (countersOf s) key =
      (visible ts s key).map DataEntry.counter := by
  unfold visible view countersOf
  cases hashmapGet s key with
  | none => rfl
  | some entry =>
    have hexpired : expired Counter.expiresAt (dataNowMs ts) entry.counter =
      expired DataEntry.expiresAt (dataNowMs ts) entry := rfl
    cases h : expired DataEntry.expiresAt (dataNowMs ts) entry <;>
      simp [Option.filter, h, hexpired]

theorem incrByDigest_refines (hclock : 0 ≤ (dataNowMs ts).toInt) :
    (countersOf tank.data).incrBy op (dataNowMs ts) =
      (countersOf (incrByDigest tank (op, ts)).1.data,
        counterReply (incrByDigest tank (op, ts)).2.1) := by
  have hnumber : ((visible ts tank.data op.key).map DataEntry.counter).elim (some 0) Counter.number =
      counterValue ts tank.data op.key := by
    unfold counterValue
    cases visible ts tank.data op.key <;> rfl
  have hdeadline : ((visible ts tank.data op.key).map DataEntry.counter).bind Counter.expiresAt =
      (visible ts tank.data op.key).bind DataEntry.expiresAt := by
    cases visible ts tank.data op.key <;> rfl
  simp only [Counters.incrBy, view_countersOf, hnumber, hdeadline]
  by_cases h : ∃ n, counterValue ts tank.data op.key = some n ∧ InInt64 (n + op.delta.toInt)
  · obtain ⟨n, hn, hfits⟩ := h
    obtain ⟨⟨value, hvalue, hsuccess, hreply⟩, hstored⟩ := incrByDigest_of_fits hclock hn hfits
    have hparse : parseInt64 (intText (n + op.delta.toInt)) = some value := by
      rw [← hvalue]
      exact parseInt64_dataStringFromInt64 value
    simp only [hn, if_pos hfits, counterReply, hsuccess, hreply, hvalue, Prod.mk.injEq, and_true]
    funext key
    rw [countersOf, hstored, Function.update_apply]
    split
    · simp only [Option.map_some, DataEntry.counter, hparse, hvalue]
    · rfl
  · obtain ⟨hsuccess, -, htank, -⟩ := incrByDigest_of_not_fits h
    simp only [counterReply, hsuccess, htank]
    cases hn : counterValue ts tank.data op.key with
    | none => rfl
    | some n =>
      have hfits : ¬ InInt64 (n + op.delta.toInt) := fun hfits => h ⟨n, hn, hfits⟩
      exact if_neg hfits

theorem incrByRun_refines (tank : SepticTank S) (inputs : List IncrByInput)
    (hclock : ∀ input ∈ inputs, 0 ≤ (dataNowMs input.2).toInt) :
    (countersOf tank.data).run inputs =
      (countersOf (incrByRun tank inputs).data, incrByReplies tank inputs) := by
  induction inputs generalizing tank with
  | nil => rfl
  | cons input inputs ih =>
    have hstep : (countersOf tank.data).incrBy input.1 (dataNowMs input.2) =
        (countersOf (incrByDigest tank input).1.data,
          counterReply (incrByDigest tank input).2.1) :=
      incrByDigest_refines (hclock input List.mem_cons_self)
    have hrest := ih (incrByDigest tank input).1 fun i hi => hclock i (List.mem_cons_of_mem _ hi)
    simp only [Counters.run, hstep, hrest]
    rfl

/-- Every `INCRBY` of a run adds exactly or changes nothing, and the run as a whole is one of the
exact machine on the integers. -/
theorem incrByRun_countsExactly (tank : SepticTank S) (inputs : List IncrByInput)
    (hclock : ∀ input ∈ inputs, 0 ≤ (dataNowMs input.2).toInt) :
    (∀ done op ts, done ++ [(op, ts)] <+: inputs → CountsExactly (incrByRun tank done) op ts) ∧
      (countersOf tank.data).run inputs =
        (countersOf (incrByRun tank inputs).data, incrByReplies tank inputs) := by
  refine ⟨?_, incrByRun_refines tank inputs hclock⟩
  intro done op ts hdone
  exact incrBy_countsExactly (hclock (op, ts) (hdone.subset (by simp)))

end Steps

/-- Up to the highest 64-bit integer, one further, and down again, on a key that dies meanwhile. -/
theorem incrByRun_countsExactly_limit :
    let clock (sec : Int64) (hlo : -9223372036854775 ≤ sec.toInt)
      (hhi : sec.toInt ≤ 9223372036854774) := Timespec.atSecond sec hlo hhi
    let at₁ := clock 1 (by decide) (by decide)
    let at₉ := clock 9 (by decide) (by decide)
    let tank : SepticTank FiniteStore :=
      { data := Finmap.singleton [107] (dataCreateStringEntry (some 5000) [45, 49])
        aofEnabled := true }
    let inputs : List IncrByInput := [(⟨[107], Int64.maxValue⟩, at₁), (⟨[107], 1⟩, at₁),
      (⟨[107], 1⟩, at₁), (⟨[107], Int64.minValue⟩, at₉)]
    (∀ done op ts, done ++ [(op, ts)] <+: inputs → CountsExactly (incrByRun tank done) op ts) ∧
      (countersOf tank.data).run inputs =
        (countersOf (incrByRun tank inputs).data, incrByReplies tank inputs) := by
  intro clock at₁ at₉ tank inputs
  exact incrByRun_countsExactly tank inputs (by decide)

end Redic
