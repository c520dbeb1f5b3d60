import Redic.Potty.Parser
import Redic.SepticTank.LazyExpiry

/-! # The deadline of a SET on its way into the store and the log

A mutation carries its deadline in one 64-bit integer, and `-1` stands for no deadline there. The
encoding loses exactly the deadline `-1`. A deadline that a live entry already has is never lost
this way, as long as the clock is not negative.
-/
namespace Redic
open KeyStore TimedMap RecordStream

def encodeDeadline (expiresAt : OptionTime) : Int64 := expiresAt.getD stMutationNoExpiry

def decodeDeadline (expiresAt : Int64) : OptionTime :=
  if expiresAt = stMutationNoExpiry then none else some expiresAt

theorem decodeDeadline_encodeDeadline {expiresAt : OptionTime} :
    decodeDeadline (encodeDeadline expiresAt) = expiresAt ↔
      expiresAt ≠ some stMutationNoExpiry := by
  cases expiresAt with
  | none => simp [decodeDeadline, encodeDeadline]
  | some value =>
    by_cases h : value = stMutationNoExpiry
    · simp [decodeDeadline, encodeDeadline, h]
    · simp [decodeDeadline, encodeDeadline, h]

variable {S : Type} [KeyStore S]

/-- No live entry has the one deadline that is lost. -/
theorem visible_deadline_ne {ts : Timespec} {s : S} {key : DataString} {entry : DataEntry}
    (hclock : 0 ≤ (dataNowMs ts).toInt) (h : visible ts s key = some entry) :
    entry.expiresAt ≠ some stMutationNoExpiry := by
  intro hsentinel
  obtain ⟨-, hlive⟩ := visible_eq_some.mp h
  have hdead : dataIsExpired entry ts = true := by
    simp only [dataIsExpired, hsentinel, decide_eq_true_eq, Int64.le_iff_toInt_le]
    exact Int.le_trans (by decide) hclock
  rw [hdead] at hlive
  cases hlive

section Digest
variable [LawfulKeyStore S]

theorem SepticTank.digest_get (tank : SepticTank S) (input : DigestInput) (key : DataString) :
    hashmapGet (tank.digest input).1.data key =
      match (tank.resolve input).2.resolvedMutation with
      | none => hashmapGet (tank.resolve input).1.data key
      | some mutation =>
        if key = mutation.key then mutation.effect (hashmapGet (tank.resolve input).1.data mutation.key)
        else hashmapGet (tank.resolve input).1.data key := by
  rw [digest_tank]
  cases (tank.resolve input).2.resolvedMutation with
  | none => rfl
  | some mutation => exact septicTankApplyMutation_get _ mutation key

end Digest

section Apply
variable [RetentiveStore S]

theorem septicTankApplyMutation_set (tank : SepticTank S) (set : SepticTankSetMutation) :
    hashmapGet (septicTankApplyMutation tank (.set set)).data set.key =
      some (dataCreateStringEntry (decodeDeadline set.expiresAt) set.value) :=
  RetentiveStore.get_put_self tank.data set.key _

end Apply

def setInput (op : SepticTankSetOperation) (ts : Timespec) : DigestInput := ⟨.set op, ts, ts⟩

theorem septicTankResolve_set (tank : SepticTank S) (op : SepticTankSetOperation) (ts : Timespec) :
    (tank.resolve (setInput op ts)).2 = setOutcome op (visible ts tank.data op.key) :=
  septicTankResolveSet_outcome tank ts op

def SetWrites (tank : SepticTank S) (op : SepticTankSetOperation) (ts : Timespec) : Prop :=
  (tank.resolve (setInput op ts)).2.resolvedMutation.isSome = true
  deriving Decidable

/-- The deadline the SET asks for: none, the requested one, or that of the live entry it keeps. -/
def wantedDeadline (tank : SepticTank S) (op : SepticTankSetOperation) (ts : Timespec) :
    OptionTime :=
  match op.expiration.type with
  | .noExpire => none
  | .unixTs => some op.expiration.ts
  | .keepOld => (visible ts tank.data op.key).bind DataEntry.expiresAt

/-- The condition on the request and the old entry: neither names the in-band value. -/
def AvoidsSentinel (tank : SepticTank S) (op : SepticTankSetOperation) (ts : Timespec) : Prop :=
  (op.expiration.type = .unixTs → op.expiration.ts ≠ stMutationNoExpiry) ∧
    (op.expiration.type = .keepOld → ∀ entry, visible ts tank.data op.key = some entry →
      entry.expiresAt ≠ some stMutationNoExpiry)

theorem avoidsSentinel_iff {tank : SepticTank S} {op : SepticTankSetOperation} {ts : Timespec} :
    AvoidsSentinel tank op ts ↔ wantedDeadline tank op ts ≠ some stMutationNoExpiry := by
  unfold AvoidsSentinel wantedDeadline
  cases op.expiration.type with
  | noExpire => simp
  | unixTs => simp
  | keepOld => cases visible ts tank.data op.key <;> simp

theorem SetWrites.mutation {tank : SepticTank S} {op : SepticTankSetOperation} {ts : Timespec}
    (h : SetWrites tank op ts) : (tank.resolve (setInput op ts)).2.resolvedMutation =
      some (.set ⟨op.key, op.value, encodeDeadline (wantedDeadline tank op ts)⟩) := by
  unfold SetWrites at h
  rw [septicTankResolve_set] at h ⊢
  simp only [setOutcome] at h ⊢
  split
  · rfl
  · rename_i hskip
    rw [if_neg hskip] at h
    cases h

/-- The stored entry has the wanted deadline, right after the SET and after its record was
written, read back and replayed into any tank; and a deadline that has passed hides the key. -/
structure ExpirySurvives (tank : SepticTank S) (op : SepticTankSetOperation) (ts : Timespec) :
    Prop where
  applied : ∃ entry, hashmapGet (tank.digest (setInput op ts)).1.data op.key = some entry ∧
    entry.expiresAt = wantedDeadline tank op ts
  replayed : ∀ mutation, (tank.resolve (setInput op ts)).2.resolvedMutation = some mutation →
    ∀ (other : SepticTank S) (rest : List SepticTankMutation), ∃ parsed entry,
      pottyParserRead noReadError enoughMemory (serializedLog (mutation :: rest)) =
        .ok (parsed, serializedLog rest) ∧
      hashmapGet (septicTankApplyMutation other parsed).data op.key = some entry ∧
      entry.expiresAt = wantedDeadline tank op ts
  pastHidden : ∀ deadline, wantedDeadline tank op ts = some deadline →
    ∀ later, deadline ≤ dataNowMs later →
      visible later (tank.digest (setInput op ts)).1.data op.key = none

variable [RetentiveStore S] {tank : SepticTank S} {op : SepticTankSetOperation} {ts : Timespec}

theorem SetWrites.stored (h : SetWrites tank op ts) :
    hashmapGet (tank.digest (setInput op ts)).1.data op.key = some (dataCreateStringEntry
      (decodeDeadline (encodeDeadline (wantedDeadline tank op ts))) op.value) := by
  rw [SepticTank.digest_tank, h.mutation]
  exact septicTankApplyMutation_set _ _

theorem pottyParserRead_serializedLog {mutation : SepticTankMutation} (h : mutation.Fits)
    (rest : List SepticTankMutation) :
    pottyParserRead noReadError enoughMemory (serializedLog (mutation :: rest)) =
      .ok (mutation, serializedLog rest) := by
  rw [serializedLog_eq, serializedLog_eq, List.flatMap_cons]
  exact pottyCodec.read_encode mutation h _

/-- The deadline of a writing SET survives its encoding exactly when neither the request nor the
entry whose deadline is kept names the in-band value for no deadline. -/
theorem setExpiry_survives_iff (tank : SepticTank S) (op : SepticTankSetOperation) (ts : Timespec)
    (hwrites : SetWrites tank op ts) (hkey : op.key.length < 2 ^ 64)
    (hvalue : op.value.length < 2 ^ 64) :
    ExpirySurvives tank op ts ↔ AvoidsSentinel tank op ts := by
  rw [avoidsSentinel_iff, ← decodeDeadline_encodeDeadline]
  have hstored := hwrites.stored
  constructor
  · intro h
    obtain ⟨entry, hentry, hdeadline⟩ := h.applied
    rw [hstored] at hentry
    cases hentry
    exact hdeadline
  · intro hkept
    rw [hkept] at hstored
    refine ⟨⟨_, hstored, rfl⟩, ?_, ?_⟩
    · intro mutation hmutation other rest
      rw [hwrites.mutation] at hmutation
      cases hmutation
      have hfits : (SepticTankMutation.set ⟨op.key, op.value,
          encodeDeadline (wantedDeadline tank op ts)⟩).Fits := And.intro hkey hvalue
      exact ⟨_, _, pottyParserRead_serializedLog hfits rest,
        septicTankApplyMutation_set other _, hkept⟩
    · intro deadline hdeadline later hpast
      rw [hdeadline] at hstored
      exact visible_of_expired hstored (decide_eq_true hpast)

/-- The equivalence for a key that is given five seconds. -/
theorem setExpiry_survives_iff_seconds :
    let at₁ := Timespec.atSecond 1 (by decide) (by decide)
    let op : SepticTankSetOperation := ⟨[107], [118], false, false, false, ⟨.unixTs, 6000⟩⟩
    let tank : SepticTank FiniteStore := septicTankCreate
    ExpirySurvives tank op at₁ ↔ AvoidsSentinel tank op at₁ := by
  intro at₁ op tank
  exact setExpiry_survives_iff tank op at₁ (by decide) (by decide) (by decide)

/-- A requested deadline of one millisecond before the epoch is taken for no deadline: the key
that should be dead at once stays. -/
theorem setExpiry_lost :
    ¬ ∀ (tank : SepticTank FiniteStore) (op : SepticTankSetOperation) (ts : Timespec),
      SetWrites tank op ts → ExpirySurvives tank op ts := by
  intro h
  let at₁ := Timespec.atSecond 1 (by decide) (by decide)
  have hlost := (h septicTankCreate ⟨[107], [118], false, false, false, ⟨.unixTs, -1⟩⟩ at₁
    (by decide)).pastHidden (-1) rfl at₁ (by decide)
  exact absurd hlost (by decide)

end Redic
