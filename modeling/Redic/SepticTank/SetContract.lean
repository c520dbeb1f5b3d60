import Redic.SepticTank.SetExpiry

/-! # What a SET does to the store and answers

The contract of SET over a finite map: whether it writes, what it answers, and what every key
holds afterwards, for all its flags and all three states of the old entry. The eviction of a dead
entry on the way touches the SET's own key only.
-/
namespace Redic
open KeyStore TimedMap

variable {S : Type} [KeyStore S]

/-- The contract of one SET at a clock reading. The key is live when an entry is visible. -/
structure SetContract (tank : SepticTank S) (op : SepticTankSetOperation) (ts : Timespec) :
    Prop where
  succeeds : (tank.digest (setInput op ts)).2.1.success = true ∧
    (tank.digest (setInput op ts)).2.1.error = none
  writes : SetWrites tank op ts ↔
    (op.nx = true → (visible ts tank.data op.key).isSome = false) ∧
      (op.xx = true → (visible ts tank.data op.key).isSome = true)
  emits : tank.aofEnabled = true → (SetWrites tank op ts ↔
    ∃ set, (tank.digest (setInput op ts)).2.2 = some (.set set) ∧
      set.key = op.key ∧ set.value = op.value)
  emitsNothing : ¬ SetWrites tank op ts → (tank.digest (setInput op ts)).2.2 = none
  oldValue : (tank.digest (setInput op ts)).2.1.value = .setResult
    (if op.get then (visible ts tank.data op.key).map DataEntry.value else none)
  written : SetWrites tank op ts →
    hashmapGet (tank.digest (setInput op ts)).1.data op.key = some
      { expiresAt := match op.expiration.type with
          | .noExpire => none
          | .unixTs => some op.expiration.ts
          | .keepOld => (visible ts tank.data op.key).bind DataEntry.expiresAt
        type := .dataString
        value := op.value }
  notWritten : ¬ SetWrites tank op ts →
    SameVisible ts tank.data (tank.digest (setInput op ts)).1.data ∧
      ∀ key entry, visible ts tank.data key = some entry →
        hashmapGet (tank.digest (setInput op ts)).1.data key = some entry
  otherKeys : ∀ key, key ≠ op.key →
    hashmapGet (tank.digest (setInput op ts)).1.data key = hashmapGet tank.data key

section Contract
variable [LawfulKeyStore S] {tank : SepticTank S} {op : SepticTankSetOperation} {ts : Timespec}

theorem setDigest_otherKeys {key : DataString} (h : key ≠ op.key) :
    hashmapGet (tank.digest (setInput op ts)).1.data key = hashmapGet tank.data key := by
  rw [SepticTank.digest_get]
  by_cases hwrites : SetWrites tank op ts
  · rw [hwrites.mutation]
    exact (if_neg h).trans (tank.resolve_otherKeys (setInput op ts) h)
  · rw [Option.not_isSome_iff_eq_none.mp hwrites]
    exact tank.resolve_otherKeys (setInput op ts) h

omit [LawfulKeyStore S] in
theorem setWrites_iff : SetWrites tank op ts ↔
    (op.nx = true → (visible ts tank.data op.key).isSome = false) ∧
      (op.xx = true → (visible ts tank.data op.key).isSome = true) := by
  rw [SetWrites, septicTankResolve_set]
  cases hnx : op.nx <;> cases hxx : op.xx <;> cases visible ts tank.data op.key <;>
    simp [setOutcome, setWrites, hnx, hxx]

theorem setDigest_notWritten (h : ¬ SetWrites tank op ts) :
    EvictsExpired ts tank.data (tank.digest (setInput op ts)).1.data := by
  rw [SepticTank.digest_tank, Option.not_isSome_iff_eq_none.mp h]
  exact septicTankResolve_evicts tank ts ts (.set op)

omit [LawfulKeyStore S] in
theorem SepticTank.digest_fed_eq (tank : SepticTank S) (input : DigestInput) :
    (tank.digest input).2.2 =
      if tank.aofEnabled then (tank.resolve input).2.resolvedMutation else none := by
  rcases septicTankDigest_cases tank input.operation input.ts₁ input.ts₂ with
    ⟨mutation, hm, h⟩ | ⟨hm, h⟩
  · simp only [digest, resolve, h, hm]
  · simp only [digest, resolve, h, hm, ite_self]

/-- SET is the update of a finite map that its flags ask for, whatever the old entry is. -/
theorem setContract (tank : SepticTank S) (op : SepticTankSetOperation) (ts : Timespec)
    (hclock : 0 ≤ (dataNowMs ts).toInt)
    (hts : op.expiration.type = .unixTs → op.expiration.ts ≠ stMutationNoExpiry) :
    SetContract tank op ts where
  succeeds := by
    rw [SepticTank.digest_result, septicTankResolve_set]
    exact ⟨rfl, rfl⟩
  writes := setWrites_iff
  emits haof := by
    rw [SepticTank.digest_fed_eq, if_pos haof]
    constructor
    · intro hwrites
      exact ⟨_, hwrites.mutation, rfl, rfl⟩
    · rintro ⟨set, hset, -, -⟩
      rw [SetWrites, hset]
      rfl
  emitsNothing hskip := by
    rw [SepticTank.digest_fed_eq, Option.not_isSome_iff_eq_none.mp hskip, ite_self]
  oldValue := by
    rw [SepticTank.digest_result, septicTankResolve_set]
    rfl
  written hwrites := by
    have hkept : AvoidsSentinel tank op ts :=
      ⟨hts, fun _ _ hlive => visible_deadline_ne hclock hlive⟩
    rw [hwrites.stored, decodeDeadline_encodeDeadline.mpr (avoidsSentinel_iff.mp hkept)]
    rfl
  notWritten hskip :=
    ⟨(setDigest_notWritten hskip).sameVisible,
      fun _ _ hlive => (setDigest_notWritten hskip).of_view hlive⟩
  otherKeys _ hkey := setDigest_otherKeys hkey

end Contract

/-- `SET k v XX GET KEEPTTL` on a key with two seconds left. -/
theorem setContract_keepttl :
    let at₃ := Timespec.atSecond 3 (by decide) (by decide)
    let tank : SepticTank FiniteStore :=
      { data := Finmap.singleton [107] (dataCreateStringEntry (some 5000) [111])
        aofEnabled := true }
    SetContract tank ⟨[107], [118], false, true, true, ⟨.keepOld, 0⟩⟩ at₃ := by
  intro at₃ tank
  exact setContract tank _ at₃ (by decide) (fun h => by cases h)

end Redic
