import Redic.SepticTank.Resolve

/-! # What an operation answers about the visible entry

The purpose of the resolve functions, stated without the store: each answer and each resolved
mutation is a function of the operation, of the entry visible under its key at the first clock
reading, and for `EXPIRE` of the second reading. `TTL` alone looks at the stored entry itself.
Resolving removes nothing but an entry that is already expired.
-/
namespace Redic
open KeyStore TimedMap

variable {S : Type} [KeyStore S]

/-- The entries a client can observe at a clock reading. -/
def visible (ts : Timespec) (s : S) : DataString → Option DataEntry :=
  view DataEntry.expiresAt (dataNowMs ts) (hashmapGet s)

/-- Two stores, possibly of different kinds, that no observer can tell apart at a clock
reading. -/
def SameVisible {S S' : Type} [KeyStore S] [KeyStore S'] (ts : Timespec) (s : S) (s' : S') : Prop :=
  AgreeAt DataEntry.expiresAt (dataNowMs ts) (hashmapGet s) (hashmapGet s')

def EvictsExpired (ts : Timespec) (s s' : S) : Prop :=
  Evicts DataEntry.expiresAt (dataNowMs ts) (hashmapGet s) (hashmapGet s')

def setWrites (op : SepticTankSetOperation) (live : Option DataEntry) : Bool :=
  !(op.nx && live.isSome) && !(op.xx && live.isNone)

def setOutcome (op : SepticTankSetOperation) (live : Option DataEntry) : SepticTankResult where
  type := .set
  value := .setResult (if op.get then live.map DataEntry.value else none)
  resolvedMutation :=
    if setWrites op live then
      some (.set ⟨op.key, op.value, (setExpiresAt op.expiration live).getD stMutationNoExpiry⟩)
    else none
  success := true
  error := none

def expireOutcome (op : SepticTankExpireOperation) (live : Option DataEntry) (ts₂ : Timespec) :
    SepticTankResult :=
  match live with
  | none => ⟨.expire, .expireResult 0, none, true, none⟩
  | some entry =>
    if expireIsNoop op entry.expiresAt then ⟨.expire, .expireResult 0, none, true, none⟩
    else ⟨.expire, .expireResult 1,
      some (if op.expiresAt ≤ dataNowMs ts₂ then .del op.key else .expire ⟨op.key, op.expiresAt⟩),
      true, none⟩

def incrByOutcome (op : SepticTankIncrByOperation) (live : Option DataEntry) : SepticTankResult :=
  match live.elim (some 0) (fun e => parseInt64 e.value) with
  | none => ⟨.incrby, .incrbyResult 0, none, false,
      some "ERR value is not an integer or out of range"⟩
  | some value =>
    if incrByOverflows value op.delta then
      ⟨.incrby, .incrbyResult 0, none, false, some "Integer overflow"⟩
    else ⟨.incrby, .incrbyResult (value + op.delta),
      some (.set ⟨op.key, dataStringFromInt64 (value + op.delta),
        (live.bind DataEntry.expiresAt).getD stMutationNoExpiry⟩), true, none⟩

def delOutcome (key : DataString) (live : Option DataEntry) : SepticTankResult where
  type := .del
  value := .delResult (if live.isSome then 1 else 0)
  resolvedMutation := if live.isSome then some (.del key) else none
  success := true
  error := none

def existsOutcome (live : Option DataEntry) : SepticTankResult :=
  ⟨.exists, .existsResult (if live.isSome then 1 else 0), none, true, none⟩

def getOutcome (live : Option DataEntry) : SepticTankResult :=
  ⟨.get, .getResult (live.map DataEntry.value), none, true, none⟩

/-- The operations that decide existence by the visible entry: all but `TTL`. -/
def SepticTankOperation.testsExpiry : SepticTankOperation → Bool
  | ttl _ => false
  | _ => true

def outcome (operation : SepticTankOperation) (live : Option DataEntry) (ts₂ : Timespec) :
    SepticTankResult :=
  match operation with
  | .get _ => getOutcome live
  | .set op => setOutcome op live
  | .del key => delOutcome key live
  | .ttl _ => ⟨.get, .ttlResult 0, none, true, none⟩
  | .exists _ => existsOutcome live
  | .expire op => expireOutcome op live ts₂
  | .incrby op => incrByOutcome op live

theorem DataType.eq_dataString (t : DataType) : t = .dataString := by cases t; rfl

theorem visible_of_missing {ts : Timespec} {s : S} {key : DataString}
    (h : hashmapGet s key = none) : visible ts s key = none := view_of_none h

theorem visible_of_expired {ts : Timespec} {s : S} {key : DataString} {entry : DataEntry}
    (h : hashmapGet s key = some entry) (hx : dataIsExpired entry ts = true) :
    visible ts s key = none := view_of_expired h (dataIsExpired_eq entry ts ▸ hx)

theorem visible_of_live {ts : Timespec} {s : S} {key : DataString} {entry : DataEntry}
    (h : hashmapGet s key = some entry) (hx : dataIsExpired entry ts = false) :
    visible ts s key = some entry := view_of_live h (dataIsExpired_eq entry ts ▸ hx)

theorem visible_eq_some {ts : Timespec} {s : S} {key : DataString} {entry : DataEntry} :
    visible ts s key = some entry ↔
      hashmapGet s key = some entry ∧ dataIsExpired entry ts = false := by
  rw [dataIsExpired_eq]
  exact view_eq_some

theorem EvictsExpired.refl (ts : Timespec) (s : S) : EvictsExpired ts s s := Evicts.refl _

theorem EvictsExpired.sameVisible {ts : Timespec} {s s' : S} (h : EvictsExpired ts s s') :
    SameVisible ts s s' := Evicts.agreeAt h

theorem entry_cases (ts : Timespec) (s : S) (key : DataString) :
    hashmapGet s key = none ∧ visible ts s key = none ∨
    (∃ entry, hashmapGet s key = some entry ∧ dataIsExpired entry ts = true ∧
      visible ts s key = none) ∨
    ∃ entry, hashmapGet s key = some entry ∧ dataIsExpired entry ts = false ∧
      visible ts s key = some entry := by
  cases h : hashmapGet s key with
  | none => exact Or.inl ⟨rfl, visible_of_missing h⟩
  | some entry =>
    cases hx : dataIsExpired entry ts with
    | true => exact Or.inr (Or.inl ⟨entry, rfl, hx, visible_of_expired h hx⟩)
    | false => exact Or.inr (Or.inr ⟨entry, rfl, hx, visible_of_live h hx⟩)

section Answers
variable (tank : SepticTank S) (ts ts₁ ts₂ : Timespec)

theorem septicTankGet_outcome (key : DataString) :
    (septicTankGet tank key ts).2 = getOutcome (visible ts tank.data key) := by
  rcases entry_cases ts tank.data key with ⟨h, hv⟩ | ⟨e, h, hx, hv⟩ | ⟨e, h, hx, hv⟩
  · simp [septicTankGet, getOutcome, h, hv]
  · simp [septicTankGet, getOutcome, h, hx, hv]
  · simp [septicTankGet, getOutcome, h, hx, hv, DataType.eq_dataString, dataUnwrapString]

theorem septicTankResolveDel_outcome (key : DataString) :
    (septicTankResolveDel tank key ts).2 = delOutcome key (visible ts tank.data key) := by
  rcases entry_cases ts tank.data key with ⟨h, hv⟩ | ⟨e, h, hx, hv⟩ | ⟨e, h, hx, hv⟩
  · simp [septicTankResolveDel, delOutcome, h, hv]
  · simp [septicTankResolveDel, delOutcome, h, hx, hv]
  · simp [septicTankResolveDel, delOutcome, h, hx, hv]

theorem septicTankExists_outcome (key : DataString) :
    (septicTankExists tank key ts).2 = existsOutcome (visible ts tank.data key) := by
  rcases entry_cases ts tank.data key with ⟨h, hv⟩ | ⟨e, h, hx, hv⟩ | ⟨e, h, hx, hv⟩
  · simp [septicTankExists, existsOutcome, h, hv]
  · simp [septicTankExists, existsOutcome, h, hx, hv]
  · simp [septicTankExists, existsOutcome, h, hx, hv]

theorem septicTankResolveExpire_outcome (op : SepticTankExpireOperation) :
    (septicTankResolveExpire tank op ts₁ ts₂).2 =
      expireOutcome op (visible ts₁ tank.data op.key) ts₂ := by
  rcases entry_cases ts₁ tank.data op.key with ⟨h, hv⟩ | ⟨e, h, hx, hv⟩ | ⟨e, h, hx, hv⟩
  · simp [septicTankResolveExpire, expireOutcome, h, hv]
  · simp [septicTankResolveExpire, expireOutcome, h, hx, hv]
  · simp only [septicTankResolveExpire, expireOutcome, h, hx, hv, Bool.false_eq_true, if_false]
    split <;> rfl

theorem septicTankResolveIncrBy_outcome (op : SepticTankIncrByOperation) :
    (septicTankResolveIncrBy tank op ts).2 = incrByOutcome op (visible ts tank.data op.key) := by
  have answer : ∀ live : Option DataEntry, (if live.any (dataIsExpired · ts) then none else live) =
      visible ts tank.data op.key → hashmapGet tank.data op.key = live →
      (septicTankResolveIncrBy tank op ts).2 = incrByOutcome op (visible ts tank.data op.key) := by
    intro live hlive hget
    simp only [septicTankResolveIncrBy, hget, hlive, DataType.eq_dataString, bne_self_eq_false,
      Option.any_false, Bool.false_eq_true, if_false, incrByOutcome, dataUnwrapString]
    cases (visible ts tank.data op.key).elim (some 0) (fun e => parseInt64 e.value) with
    | none => rfl
    | some value =>
      simp only
      split <;> rfl
  rcases entry_cases ts tank.data op.key with ⟨h, hv⟩ | ⟨e, h, hx, hv⟩ | ⟨e, h, hx, hv⟩
  · exact answer _ (by simp [hv]) h
  · exact answer _ (by simp [hx, hv]) h
  · exact answer _ (by simp [hx, hv]) h

/-- `INCRBY` evicts nothing, not even the expired entry it ignores. -/
theorem septicTankResolveIncrBy_tank (op : SepticTankIncrByOperation) :
    (septicTankResolveIncrBy tank op ts).1 = tank := by
  simp only [septicTankResolveIncrBy]
  generalize (if (hashmapGet tank.data op.key).any (dataIsExpired · ts) = true then none
    else hashmapGet tank.data op.key) = entry
  split
  · rfl
  · cases entry.elim (some 0) (fun e => parseInt64 (dataUnwrapString e)) with
    | none => rfl
    | some value =>
      simp only
      split <;> rfl

theorem septicTankResolveSet_outcome (op : SepticTankSetOperation) :
    (septicTankResolveSet tank op ts).2 = setOutcome op (visible ts tank.data op.key) := by
  rcases entry_cases ts tank.data op.key with ⟨h, hv⟩ | ⟨e, h, hx, hv⟩ | ⟨e, h, hx, hv⟩
  · cases hxx : op.xx <;>
      simp [septicTankResolveSet, setOutcome, setWrites, h, hv, hxx]
  · cases hxx : op.xx <;>
      simp [septicTankResolveSet, setOutcome, setWrites, h, hx, hv, hxx]
  · cases hnx : op.nx <;> cases hget : op.get <;>
      simp [septicTankResolveSet, setOutcome, setWrites, h, hx, hv, hnx, hget,
        DataType.eq_dataString, dataUnwrapString]

end Answers

/-- Every operation but `TTL` answers as a function of the visible entry. -/
theorem septicTankResolve_outcome (tank : SepticTank S) {operation : SepticTankOperation}
    (h : operation.testsExpiry = true) (ts₁ ts₂ : Timespec) :
    (septicTankResolve tank operation ts₁ ts₂).2 =
      outcome operation (visible ts₁ tank.data operation.key) ts₂ := by
  cases operation with
  | get key => exact septicTankGet_outcome tank ts₁ key
  | set op => exact septicTankResolveSet_outcome tank ts₁ op
  | del key => exact septicTankResolveDel_outcome tank ts₁ key
  | ttl key => cases h
  | «exists» key => exact septicTankExists_outcome tank ts₁ key
  | expire op => exact septicTankResolveExpire_outcome tank ts₁ ts₂ op
  | incrby op => exact septicTankResolveIncrBy_outcome tank ts₁ op

/-- Resolving leaves the tank alone or evicts the entry under the operation's key. -/
theorem septicTankResolve_tank (tank : SepticTank S) (operation : SepticTankOperation)
    (ts₁ ts₂ : Timespec) :
    (septicTankResolve tank operation ts₁ ts₂).1 = tank ∨
      (septicTankResolve tank operation ts₁ ts₂).1 = tank.evict operation.key := by
  cases operation with
  | get key =>
    simp only [septicTankResolve, septicTankGet]
    repeat' split
    all_goals first | exact Or.inl rfl | exact Or.inr rfl
  | set op =>
    simp only [septicTankResolve, septicTankResolveSet]
    repeat' split
    all_goals first | exact Or.inl rfl | exact Or.inr rfl
  | del key =>
    simp only [septicTankResolve, septicTankResolveDel]
    repeat' split
    all_goals first | exact Or.inl rfl | exact Or.inr rfl
  | ttl key =>
    simp only [septicTankResolve, septicTankTtl]
    repeat' split
    all_goals exact Or.inl rfl
  | «exists» key =>
    simp only [septicTankResolve, septicTankExists]
    repeat' split
    all_goals first | exact Or.inl rfl | exact Or.inr rfl
  | expire op =>
    simp only [septicTankResolve, septicTankResolveExpire]
    repeat' split
    all_goals first | exact Or.inl rfl | exact Or.inr rfl
  | incrby op => exact Or.inl (septicTankResolveIncrBy_tank tank ts₁ op)

section Eviction
variable [LawfulKeyStore S] (tank : SepticTank S) (ts ts₁ ts₂ : Timespec)

theorem evict_evictsExpired {key : DataString} {entry : DataEntry}
    (h : hashmapGet tank.data key = some entry) (hx : dataIsExpired entry ts = true) :
    EvictsExpired ts tank.data (tank.evict key).data :=
  Evicts.erase h (dataIsExpired_eq entry ts ▸ hx) (LawfulKeyStore.get_remove tank.data key)

theorem evict_if_evictsExpired {key : DataString} {c : Prop} [Decidable c]
    (hc : c → ∃ entry, hashmapGet tank.data key = some entry ∧ dataIsExpired entry ts = true) :
    EvictsExpired ts tank.data (if c then tank.evict key else tank).data := by
  split
  · rename_i h
    obtain ⟨entry, he, hx⟩ := hc h
    exact evict_evictsExpired tank ts he hx
  · exact EvictsExpired.refl ts _

theorem any_expired {o : Option DataEntry} (h : o.any (dataIsExpired · ts) = true) :
    ∃ entry, o = some entry ∧ dataIsExpired entry ts = true := by
  cases o with
  | none => cases h
  | some entry => exact ⟨entry, rfl, h⟩

theorem septicTankResolveSet_evicts (op : SepticTankSetOperation) :
    EvictsExpired ts tank.data (septicTankResolveSet tank op ts).1.data := by
  simp only [septicTankResolveSet]
  split
  · exact EvictsExpired.refl ts _
  · split
    · split <;> exact EvictsExpired.refl ts _
    · split
      · exact evict_if_evictsExpired tank ts (any_expired ts)
      · refine evict_if_evictsExpired tank ts ?_
        intro h
        exact any_expired ts (Bool.and_eq_true_iff.mp h).2

theorem septicTankResolve_evicts (operation : SepticTankOperation) :
    EvictsExpired ts₁ tank.data (septicTankResolve tank operation ts₁ ts₂).1.data := by
  cases operation with
  | get key =>
    simp only [septicTankResolve, septicTankGet]
    split
    · exact EvictsExpired.refl ts₁ _
    · rename_i entry h
      split
      · rename_i hx
        exact evict_evictsExpired tank ts₁ h hx
      · split <;> exact EvictsExpired.refl ts₁ _
  | set op => exact septicTankResolveSet_evicts tank ts₁ op
  | del key =>
    simp only [septicTankResolve, septicTankResolveDel]
    split
    · exact EvictsExpired.refl ts₁ _
    · rename_i entry h
      split
      · rename_i hx
        exact evict_evictsExpired tank ts₁ h hx
      · exact EvictsExpired.refl ts₁ _
  | ttl key =>
    simp only [septicTankResolve, septicTankTtl]
    split
    · exact EvictsExpired.refl ts₁ _
    · split <;> exact EvictsExpired.refl ts₁ _
  | «exists» key =>
    simp only [septicTankResolve, septicTankExists]
    split
    · exact EvictsExpired.refl ts₁ _
    · rename_i entry h
      exact evict_if_evictsExpired tank ts₁ (fun hx => ⟨entry, h, hx⟩)
  | expire op =>
    simp only [septicTankResolve, septicTankResolveExpire]
    split
    · exact EvictsExpired.refl ts₁ _
    · rename_i entry h
      split
      · rename_i hx
        exact evict_evictsExpired tank ts₁ h hx
      · split <;> exact EvictsExpired.refl ts₁ _
  | incrby op =>
    simp only [septicTankResolve, septicTankResolveIncrBy_tank]
    exact EvictsExpired.refl ts₁ _

end Eviction

/-- An `EXPIRE` mutation is resolved only for a visible key. -/
theorem outcome_expire_visible {operation : SepticTankOperation} {live : Option DataEntry}
    {ts₂ : Timespec} {mutation : SepticTankExpireMutation}
    (h : (outcome operation live ts₂).resolvedMutation = some (.expire mutation)) :
    mutation.key = operation.key ∧ live.isSome = true := by
  cases operation with
  | expire op =>
    cases live with
    | none => cases h
    | some entry =>
      refine ⟨?_, rfl⟩
      simp only [outcome, expireOutcome] at h
      split at h
      · cases h
      · split at h
        · cases h
        · cases h
          rfl
  | set op =>
    simp only [outcome, setOutcome] at h
    split at h <;> cases h
  | incrby op =>
    simp only [outcome, incrByOutcome] at h
    split at h
    · cases h
    · split at h <;> cases h
  | del key =>
    simp only [outcome, delOutcome] at h
    split at h <;> cases h
  | get key => cases h
  | ttl key => cases h
  | «exists» key => cases h

theorem septicTankTtl_resolvedMutation (tank : SepticTank S) (key : DataString) (ts : Timespec) :
    (septicTankTtl tank key ts).2.resolvedMutation = none := by
  simp only [septicTankTtl]
  split
  · rfl
  · split <;> rfl

end Redic
