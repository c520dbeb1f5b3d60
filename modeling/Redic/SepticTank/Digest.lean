import Redic.SepticTank.Outcome

/-! # Applying mutations and digesting operations

The write half of the tank, the digest that joins both halves, and the transport lemma behind
lazy expiry: stores that agree on unexpired entries still agree after the same justified
mutation.
-/
namespace Redic
open KeyStore TimedMap

variable {S : Type} [KeyStore S]

def septicTankCreate : SepticTank S := { data := hashmapNew, aofEnabled := true }

def septicTankApplySet (tank : SepticTank S) (set : SepticTankSetMutation) : SepticTank S :=
  let expiresAt : OptionTime :=
    if set.expiresAt = stMutationNoExpiry then none else some set.expiresAt
  { tank with data := hashmapPut tank.data set.key (dataCreateStringEntry expiresAt set.value) }

def septicTankApplyDel (tank : SepticTank S) (key : DataString) : SepticTank S :=
  { tank with data := hashmapRemove tank.data key }

def septicTankApplyExpire (tank : SepticTank S) (expire : SepticTankExpireMutation) :
    SepticTank S :=
  match hashmapGet tank.data expire.key with
  | none => tank
  | some _ =>
    let assign (entry : DataEntry) := { entry with expiresAt := some expire.expiresAt }
    { tank with data := hashmapModify tank.data expire.key assign }

def septicTankApplyMutation (tank : SepticTank S) : SepticTankMutation → SepticTank S
  | .set mutation => septicTankApplySet tank mutation
  | .del key => septicTankApplyDel tank key
  | .expire mutation => septicTankApplyExpire tank mutation

/-- The tank after the digest, the result sent back, and the mutation fed to the potty. -/
def septicTankDigest (tank : SepticTank S) (operation : SepticTankOperation)
    (ts₁ ts₂ : Timespec) : SepticTank S × SepticTankResult × Option SepticTankMutation :=
  let (tank, result) := septicTankResolve tank operation ts₁ ts₂
  let succeeded := result.success
  let tank :=
    match succeeded, result.resolvedMutation with
    | true, some mutation => septicTankApplyMutation tank mutation
    | _, _ => tank
  (tank, result, if tank.aofEnabled && succeeded then result.resolvedMutation else none)

/-- What a mutation leaves under its key, given what it found there. -/
def SepticTankMutation.effect : SepticTankMutation → Option DataEntry → Option DataEntry
  | set mutation, _ => some (dataCreateStringEntry
      (if mutation.expiresAt = stMutationNoExpiry then none else some mutation.expiresAt)
      mutation.value)
  | del _, _ => none
  | expire mutation, old => old.map (fun entry =>
      { entry with expiresAt := some mutation.expiresAt })

section Apply
variable [LawfulKeyStore S]

theorem septicTankApplyMutation_get (tank : SepticTank S) (mutation : SepticTankMutation)
    (key : DataString) :
    hashmapGet (septicTankApplyMutation tank mutation).data key =
      if key = mutation.key then mutation.effect (hashmapGet tank.data mutation.key)
      else hashmapGet tank.data key := by
  cases mutation with
  | set mutation => exact LawfulKeyStore.get_put tank.data mutation.key _ key
  | del k => exact LawfulKeyStore.get_remove tank.data k key
  | expire mutation =>
    simp only [septicTankApplyMutation, septicTankApplyExpire, SepticTankMutation.key,
      SepticTankMutation.effect]
    cases h : hashmapGet tank.data mutation.key with
    | none =>
      by_cases hk : key = mutation.key
      · subst hk
        simp [h]
      · simp [hk]
    | some entry =>
      have hm := LawfulKeyStore.get_modify tank.data mutation.key
        (fun entry => { entry with expiresAt := some mutation.expiresAt }) key
      rw [h] at hm
      exact hm

end Apply

@[simp] theorem septicTankApplyMutation_aofEnabled (tank : SepticTank S)
    (mutation : SepticTankMutation) :
    (septicTankApplyMutation tank mutation).aofEnabled = tank.aofEnabled := by
  cases mutation with
  | set mutation => rfl
  | del key => rfl
  | expire mutation =>
    simp only [septicTankApplyMutation, septicTankApplyExpire]
    split <;> rfl

/-- An `EXPIRE` is justified where its key is visible; the other mutations always are. -/
def SepticTankMutation.Justified (mutation : SepticTankMutation) (ts : Timespec) (s : S) : Prop :=
  match mutation with
  | expire mutation => (visible ts s mutation.key).isSome = true
  | _ => True

section Transport
variable {S' : Type} [KeyStore S'] {ts ts' : Timespec} {s : S} {s' : S'}

theorem SameVisible.visible_eq (h : SameVisible ts s s') (key : DataString) :
    visible ts s key = visible ts s' key := h key

theorem SameVisible.later (h : SameVisible ts s s') (ht : dataNowMs ts ≤ dataNowMs ts') :
    SameVisible ts' s s' := AgreeAt.later h ht

theorem SameVisible.symm (h : SameVisible ts s s') : SameVisible ts s' s := AgreeAt.symm h

theorem SameVisible.trans {S'' : Type} [KeyStore S''] {s'' : S''} (h : SameVisible ts s s')
    (h' : SameVisible ts s' s'') : SameVisible ts s s'' := AgreeAt.trans h h'

theorem SepticTankMutation.Justified.congr {mutation : SepticTankMutation}
    (hj : mutation.Justified ts s) (h : SameVisible ts s s') : mutation.Justified ts s' := by
  cases mutation with
  | set mutation => trivial
  | del key => trivial
  | expire mutation =>
    simp only [Justified] at hj ⊢
    rwa [← h.visible_eq]

theorem septicTankApplyMutation_sameVisible [LawfulKeyStore S] [LawfulKeyStore S']
    {tank : SepticTank S} {tank' : SepticTank S'} {mutation : SepticTankMutation}
    (h : SameVisible ts tank.data tank'.data) (hj : mutation.Justified ts tank.data) :
    SameVisible ts (septicTankApplyMutation tank mutation).data
      (septicTankApplyMutation tank' mutation).data := by
  have effect : mutation.effect (hashmapGet tank.data mutation.key) =
      mutation.effect (hashmapGet tank'.data mutation.key) := by
    cases mutation with
    | set mutation => rfl
    | del key => rfl
    | expire mutation =>
      obtain ⟨entry, he⟩ := Option.isSome_iff_exists.mp hj
      have he' := (h.visible_eq mutation.key).symm.trans he
      simp only [SepticTankMutation.key, (visible_eq_some.mp he).1, (visible_eq_some.mp he').1]
  refine AgreeAt.update h (mutation.effect (hashmapGet tank.data mutation.key)) mutation.key
    (septicTankApplyMutation_get tank mutation) ?_
  intro key
  rw [septicTankApplyMutation_get, effect]

end Transport

section Digest
variable (tank : SepticTank S) (operation : SepticTankOperation) (ts₁ ts₂ : Timespec)

@[simp] theorem septicTankResolve_aofEnabled :
    (septicTankResolve tank operation ts₁ ts₂).1.aofEnabled = tank.aofEnabled := by
  cases operation with
  | get key =>
    simp only [septicTankResolve, septicTankGet]
    repeat' split
    all_goals rfl
  | set op =>
    simp only [septicTankResolve, septicTankResolveSet]
    repeat' split
    all_goals rfl
  | del key =>
    simp only [septicTankResolve, septicTankResolveDel]
    repeat' split
    all_goals rfl
  | ttl key =>
    simp only [septicTankResolve, septicTankTtl]
    repeat' split
    all_goals rfl
  | «exists» key =>
    simp only [septicTankResolve, septicTankExists]
    repeat' split
    all_goals rfl
  | expire op =>
    simp only [septicTankResolve, septicTankResolveExpire]
    repeat' split
    all_goals rfl
  | incrby op => rw [septicTankResolve, septicTankResolveIncrBy_tank]

theorem septicTankResolve_success {mutation : SepticTankMutation}
    (h : (septicTankResolve tank operation ts₁ ts₂).2.resolvedMutation = some mutation) :
    (septicTankResolve tank operation ts₁ ts₂).2.success = true := by
  cases operation with
  | incrby op =>
    rw [septicTankResolve_outcome tank rfl] at h ⊢
    simp only [outcome, incrByOutcome] at h ⊢
    split at h
    · cases h
    · split at h
      · cases h
      · rename_i hv hs
        simp [hs]
  | expire op =>
    rw [septicTankResolve_outcome tank rfl] at h ⊢
    simp only [outcome, expireOutcome] at h ⊢
    split
    · rfl
    · split <;> rfl
  | ttl key => rw [septicTankResolve, septicTankTtl_resolvedMutation] at h; cases h
  | get key => rw [septicTankResolve_outcome tank rfl]; rfl
  | set op => rw [septicTankResolve_outcome tank rfl]; rfl
  | del key => rw [septicTankResolve_outcome tank rfl]; rfl
  | «exists» key => rw [septicTankResolve_outcome tank rfl]; rfl

/-- A digest either applies and logs the resolved mutation or does nothing after resolving. -/
theorem septicTankDigest_cases :
    (∃ mutation,
      (septicTankResolve tank operation ts₁ ts₂).2.resolvedMutation = some mutation ∧
      septicTankDigest tank operation ts₁ ts₂ =
        (septicTankApplyMutation (septicTankResolve tank operation ts₁ ts₂).1 mutation,
          (septicTankResolve tank operation ts₁ ts₂).2,
          if tank.aofEnabled then some mutation else none)) ∨
    ((septicTankResolve tank operation ts₁ ts₂).2.resolvedMutation = none ∧
      septicTankDigest tank operation ts₁ ts₂ =
        ((septicTankResolve tank operation ts₁ ts₂).1,
          (septicTankResolve tank operation ts₁ ts₂).2, none)) := by
  cases h : (septicTankResolve tank operation ts₁ ts₂).2.resolvedMutation with
  | some mutation =>
    have hs := septicTankResolve_success tank operation ts₁ ts₂ h
    exact Or.inl ⟨mutation, rfl, by simp [septicTankDigest, hs, h]⟩
  | none =>
    refine Or.inr ⟨rfl, ?_⟩
    cases hs : (septicTankResolve tank operation ts₁ ts₂).2.success <;>
      simp [septicTankDigest, hs, h]

@[simp] theorem septicTankDigest_aofEnabled :
    (septicTankDigest tank operation ts₁ ts₂).1.aofEnabled = tank.aofEnabled := by
  rcases septicTankDigest_cases tank operation ts₁ ts₂ with ⟨mutation, _, h⟩ | ⟨_, h⟩
  · simp [h]
  · simp [h]

/-- The reply is the resolved result. -/
@[simp] theorem septicTankDigest_result :
    (septicTankDigest tank operation ts₁ ts₂).2.1 =
      (septicTankResolve tank operation ts₁ ts₂).2 := by
  rcases septicTankDigest_cases tank operation ts₁ ts₂ with ⟨mutation, _, h⟩ | ⟨_, h⟩ <;> rw [h]

variable {tank operation ts₁ ts₂}

theorem septicTankResolve_justified {mutation : SepticTankMutation}
    (h : (septicTankResolve tank operation ts₁ ts₂).2.resolvedMutation = some mutation) :
    mutation.Justified ts₁ tank.data := by
  cases mutation with
  | set mutation => trivial
  | del key => trivial
  | expire mutation =>
    cases ht : operation.testsExpiry with
    | false =>
      cases operation with
      | ttl key => rw [septicTankResolve, septicTankTtl_resolvedMutation] at h; cases h
      | _ => cases ht
    | true =>
      rw [septicTankResolve_outcome tank ht] at h
      obtain ⟨hk, hv⟩ := outcome_expire_visible h
      simpa only [SepticTankMutation.Justified, hk] using hv

end Digest

end Redic
