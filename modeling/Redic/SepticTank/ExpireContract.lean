import Mathlib.Data.Int.ConditionallyCompleteOrder
import Redic.SepticTank.SetContract

/-! # What an EXPIRE does to the store

The contract of EXPIRE over a finite map, with a missing deadline counted as infinite. The second
clock reading decides only between a deadline that is set and one that has passed already. A run
of EXPIRE GT never brings a deadline forward and a run of EXPIRE LT never puts one off.
-/
namespace Redic
open KeyStore TimedMap

/-- The instant at which an entry dies; one without a deadline never does. -/
def DataEntry.deadline (entry : DataEntry) : WithTop ℤ :=
  match entry.expiresAt with
  | none => ⊤
  | some value => value.toInt

def ExpireCondition.Holds (condition : ExpireCondition) (expiresAt : Int64) (entry : DataEntry) :
    Prop :=
  match condition with
  | .none => True
  | .nx => entry.deadline = ⊤
  | .xx => entry.deadline ≠ ⊤
  | .gt => entry.deadline < (expiresAt.toInt : WithTop ℤ)
  | .lt => (expiresAt.toInt : WithTop ℤ) < entry.deadline

theorem expireIsNoop_iff {op : SepticTankExpireOperation} {entry : DataEntry} :
    expireIsNoop op entry.expiresAt = false ↔ op.condition.Holds op.expiresAt entry := by
  unfold expireIsNoop ExpireCondition.Holds DataEntry.deadline
  cases op.condition <;> cases entry.expiresAt <;>
    simp [WithTop.coe_lt_coe, Int64.lt_iff_toInt_lt]

variable {S : Type} [KeyStore S]

def ExpireSets (tank : SepticTank S) (op : SepticTankExpireOperation) (ts : Timespec) : Prop :=
  ∃ entry, visible ts tank.data op.key = some entry ∧ op.condition.Holds op.expiresAt entry

def expireMutation (op : SepticTankExpireOperation) (ts₂ : Timespec) : SepticTankMutation :=
  if op.expiresAt ≤ dataNowMs ts₂ then .del op.key else .expire ⟨op.key, op.expiresAt⟩

def expireInput (op : SepticTankExpireOperation) (ts₁ ts₂ : Timespec) : DigestInput :=
  ⟨.expire op, ts₁, ts₂⟩

structure ExpireContract (tank : SepticTank S) (op : SepticTankExpireOperation)
    (ts₁ ts₂ : Timespec) : Prop where
  succeeds : (tank.digest (expireInput op ts₁ ts₂)).2.1.success = true ∧
    (tank.digest (expireInput op ts₁ ts₂)).2.1.error = none
  reports : ∃ isSet, (tank.digest (expireInput op ts₁ ts₂)).2.1.value = .expireResult isSet ∧
    (isSet = 1 ↔ ExpireSets tank op ts₁) ∧ (isSet = 0 ↔ ¬ ExpireSets tank op ts₁)
  sets : ∀ entry, visible ts₁ tank.data op.key = some entry →
    op.condition.Holds op.expiresAt entry →
    hashmapGet (tank.digest (expireInput op ts₁ ts₂)).1.data op.key =
      if op.expiresAt ≤ dataNowMs ts₂ then none
      else some { entry with expiresAt := some op.expiresAt }
  emits : ExpireSets tank op ts₁ →
    (tank.digest (expireInput op ts₁ ts₂)).2.1.resolvedMutation = some (expireMutation op ts₂) ∧
      (tank.digest (expireInput op ts₁ ts₂)).2.2 =
        if tank.aofEnabled then some (expireMutation op ts₂) else none
  emitsNothing : ¬ ExpireSets tank op ts₁ →
    (tank.digest (expireInput op ts₁ ts₂)).2.1.resolvedMutation = none ∧
      (tank.digest (expireInput op ts₁ ts₂)).2.2 = none
  liveKept : ¬ ExpireSets tank op ts₁ → ∀ key entry, visible ts₁ tank.data key = some entry →
    hashmapGet (tank.digest (expireInput op ts₁ ts₂)).1.data key = some entry
  otherKeys : ∀ key, key ≠ op.key →
    hashmapGet (tank.digest (expireInput op ts₁ ts₂)).1.data key = hashmapGet tank.data key

section Outcome

variable {tank : SepticTank S} {op : SepticTankExpireOperation} {ts₁ ts₂ : Timespec}

theorem expireResolve_sets (h : ExpireSets tank op ts₁) :
    (tank.resolve (expireInput op ts₁ ts₂)).2 =
      ⟨.expire, .expireResult 1, some (expireMutation op ts₂), true, none⟩ := by
  obtain ⟨entry, hlive, hholds⟩ := h
  have houtcome : (tank.resolve (expireInput op ts₁ ts₂)).2 =
      expireOutcome op (visible ts₁ tank.data op.key) ts₂ :=
    septicTankResolveExpire_outcome tank ts₁ ts₂ op
  rw [houtcome, hlive, expireOutcome]
  simp only [expireIsNoop_iff.mpr hholds, Bool.false_eq_true, if_false, expireMutation]

theorem expireResolve_not_sets (h : ¬ ExpireSets tank op ts₁) :
    (tank.resolve (expireInput op ts₁ ts₂)).2 =
      ⟨.expire, .expireResult 0, none, true, none⟩ := by
  have houtcome : (tank.resolve (expireInput op ts₁ ts₂)).2 =
      expireOutcome op (visible ts₁ tank.data op.key) ts₂ :=
    septicTankResolveExpire_outcome tank ts₁ ts₂ op
  rw [houtcome]
  cases hlive : visible ts₁ tank.data op.key with
  | none => rfl
  | some entry =>
    have hnoop : expireIsNoop op entry.expiresAt = true := by
      rw [← Bool.not_eq_false, expireIsNoop_iff]
      exact fun hholds => h ⟨entry, hlive, hholds⟩
    simp only [expireOutcome, hnoop, if_true]

@[simp] theorem expireMutation_key (op : SepticTankExpireOperation) (ts : Timespec) :
    (expireMutation op ts).key = op.key := by
  unfold expireMutation
  split <;> rfl

variable [LawfulKeyStore S]

theorem expireResolve_evicts (tank : SepticTank S) (op : SepticTankExpireOperation)
    (ts₁ ts₂ : Timespec) :
    EvictsExpired ts₁ tank.data (tank.resolve (expireInput op ts₁ ts₂)).1.data :=
  septicTankResolve_evicts tank ts₁ ts₂ (.expire op)

theorem expireDigest_sets {entry : DataEntry} (hlive : visible ts₁ tank.data op.key = some entry)
    (hholds : op.condition.Holds op.expiresAt entry) :
    hashmapGet (tank.digest (expireInput op ts₁ ts₂)).1.data op.key =
      if op.expiresAt ≤ dataNowMs ts₂ then none
      else some { entry with expiresAt := some op.expiresAt } := by
  have hkept := (expireResolve_evicts tank op ts₁ ts₂).of_view hlive
  rw [SepticTank.digest_get, expireResolve_sets ⟨entry, hlive, hholds⟩]
  simp only [expireMutation_key, if_true, hkept]
  unfold expireMutation
  split <;> rfl

theorem expireDigest_not_sets (h : ¬ ExpireSets tank op ts₁) :
    EvictsExpired ts₁ tank.data (tank.digest (expireInput op ts₁ ts₂)).1.data := by
  rw [SepticTank.digest_tank, expireResolve_not_sets h]
  exact expireResolve_evicts tank op ts₁ ts₂

theorem expireDigest_otherKeys {key : DataString} (h : key ≠ op.key) :
    hashmapGet (tank.digest (expireInput op ts₁ ts₂)).1.data key = hashmapGet tank.data key := by
  rw [SepticTank.digest_get]
  by_cases hsets : ExpireSets tank op ts₁
  · rw [expireResolve_sets hsets]
    simp only [expireMutation_key, if_neg h]
    exact tank.resolve_otherKeys (expireInput op ts₁ ts₂) h
  · rw [expireResolve_not_sets hsets]
    exact tank.resolve_otherKeys (expireInput op ts₁ ts₂) h

end Outcome

theorem expireContract [LawfulKeyStore S] (tank : SepticTank S) (op : SepticTankExpireOperation)
    (ts₁ ts₂ : Timespec) : ExpireContract tank op ts₁ ts₂ where
  succeeds := by
    rw [SepticTank.digest_result]
    by_cases hsets : ExpireSets tank op ts₁
    · rw [expireResolve_sets hsets]
      exact ⟨rfl, rfl⟩
    · rw [expireResolve_not_sets hsets]
      exact ⟨rfl, rfl⟩
  reports := by
    rw [SepticTank.digest_result]
    by_cases hsets : ExpireSets tank op ts₁
    · rw [expireResolve_sets hsets]
      exact ⟨1, rfl, by simp [hsets], by simp [hsets]⟩
    · rw [expireResolve_not_sets hsets]
      exact ⟨0, rfl, by simp [hsets], by simp [hsets]⟩
  sets _ hlive hholds := expireDigest_sets hlive hholds
  emits hsets := by
    rw [SepticTank.digest_result, SepticTank.digest_fed_eq, expireResolve_sets hsets]
    exact ⟨rfl, rfl⟩
  emitsNothing hskip := by
    rw [SepticTank.digest_result, SepticTank.digest_fed_eq, expireResolve_not_sets hskip, ite_self]
    exact ⟨rfl, rfl⟩
  liveKept hskip _ _ hlive := (expireDigest_not_sets hskip).of_view hlive
  otherKeys _ hkey := expireDigest_otherKeys hkey

section Run

structure ExpireInput where
  op : SepticTankExpireOperation
  ts₁ : Timespec
  ts₂ : Timespec

def ExpireInput.digest (tank : SepticTank S) (input : ExpireInput) : SepticTank S :=
  (tank.digest (expireInput input.op input.ts₁ input.ts₂)).1

def expireRun (tank : SepticTank S) (inputs : List ExpireInput) : SepticTank S :=
  inputs.foldl ExpireInput.digest tank

/-- The key is live at both readings of each EXPIRE of the run, with the deadline it then has. -/
def StaysLive (key : DataString) : SepticTank S → List ExpireInput → Prop
  | _, [] => True
  | tank, input :: inputs =>
    (∃ entry, hashmapGet tank.data key = some entry ∧ dataIsExpired entry input.ts₁ = false ∧
      dataIsExpired entry input.ts₂ = false) ∧ StaysLive key (input.digest tank) inputs

/-- Whatever is there was there before with the same value, and its deadline is kept to. -/
def Descends (keeps : WithTop ℤ → WithTop ℤ → Prop) (found : Option DataEntry)
    (entry' : DataEntry) : Prop :=
  ∃ entry, found = some entry ∧ entry'.value = entry.value ∧ keeps entry.deadline entry'.deadline

/-- The deadline of an EXPIRE keeps to that of every entry on which its condition holds. -/
def ExpireInput.Keeps (input : ExpireInput) (keeps : WithTop ℤ → WithTop ℤ → Prop) : Prop :=
  ∀ entry, input.op.condition.Holds input.op.expiresAt entry →
    keeps entry.deadline input.op.expiresAt.toInt

theorem ExpireInput.keeps_gt {input : ExpireInput} (h : input.op.condition = .gt) :
    input.Keeps (· ≤ ·) := by
  intro entry hholds
  rw [h] at hholds
  exact hholds.le

theorem ExpireInput.keeps_lt {input : ExpireInput} (h : input.op.condition = .lt) :
    input.Keeps (· ≥ ·) := by
  intro entry hholds
  rw [h] at hholds
  exact hholds.le

theorem dataIsExpired_iff {entry : DataEntry} {ts : Timespec} :
    dataIsExpired entry ts = true ↔ entry.deadline ≤ ((dataNowMs ts).toInt : WithTop ℤ) := by
  unfold dataIsExpired DataEntry.deadline
  cases entry.expiresAt with
  | none => simp
  | some value => simp [Int64.le_iff_toInt_le]

variable [LawfulKeyStore S] {keeps : WithTop ℤ → WithTop ℤ → Prop} {key : DataString}

theorem expireDigest_descends [IsPreorder (WithTop ℤ) keeps] {tank : SepticTank S}
    {input : ExpireInput} (hkeeps : input.Keeps keeps) {entry' : DataEntry}
    (hentry : hashmapGet (input.digest tank).data key = some entry') :
    Descends keeps (hashmapGet tank.data key) entry' := by
  by_cases hkey : key = input.op.key
  · subst hkey
    by_cases hsets : ExpireSets tank input.op input.ts₁
    · obtain ⟨entry, hlive, hholds⟩ := hsets
      rw [ExpireInput.digest, expireDigest_sets hlive hholds] at hentry
      split at hentry
      · cases hentry
      · cases hentry
        exact ⟨entry, (visible_eq_some.mp hlive).1, rfl, hkeeps entry hholds⟩
    · have hevicts : EvictsExpired input.ts₁ tank.data (input.digest tank).data :=
        expireDigest_not_sets hsets
      rcases hevicts input.op.key with hsame | ⟨hgone, -⟩
      · exact ⟨entry', hsame.symm.trans hentry, rfl, refl_of keeps _⟩
      · rw [hgone] at hentry
        cases hentry
  · rw [ExpireInput.digest, expireDigest_otherKeys hkey] at hentry
    exact ⟨entry', hentry, rfl, refl_of keeps _⟩

/-- By induction on the run: an EXPIRE creates nothing, so what is left was there all along. -/
theorem expireRun_descends [IsPreorder (WithTop ℤ) keeps] {tank : SepticTank S}
    {inputs : List ExpireInput} (hkeeps : ∀ input ∈ inputs, input.Keeps keeps)
    {entry' : DataEntry} (hentry : hashmapGet (expireRun tank inputs).data key = some entry') :
    Descends keeps (hashmapGet tank.data key) entry' := by
  induction inputs generalizing tank with
  | nil => exact ⟨entry', hentry, rfl, refl_of keeps _⟩
  | cons input inputs ih =>
    obtain ⟨hfirst, hrest⟩ := List.forall_mem_cons.mp hkeeps
    obtain ⟨next, hnext, hvalue, hdeadline⟩ := ih hrest hentry
    obtain ⟨entry, hbefore, hvalue', hdeadline'⟩ := expireDigest_descends hfirst hnext
    exact ⟨entry, hbefore, hvalue.trans hvalue', trans_of keeps hdeadline' hdeadline⟩

theorem expireDigest_live {tank : SepticTank S} {input : ExpireInput}
    (hcondition : input.op.condition = .gt) {entry : DataEntry}
    (hentry : hashmapGet tank.data key = some entry)
    (hlive₁ : dataIsExpired entry input.ts₁ = false)
    (hlive₂ : dataIsExpired entry input.ts₂ = false) :
    ∃ entry', hashmapGet (input.digest tank).data key = some entry' := by
  by_cases hkey : key = input.op.key
  · subst hkey
    have hvisible := visible_of_live hentry hlive₁
    by_cases hholds : input.op.condition.Holds input.op.expiresAt entry
    · have hfuture : ¬ input.op.expiresAt ≤ dataNowMs input.ts₂ := by
        intro hpast
        rw [Bool.eq_false_iff, Ne, dataIsExpired_iff] at hlive₂
        have hcoe := WithTop.coe_le_coe.mpr (Int64.le_iff_toInt_le.mp hpast)
        exact hlive₂ ((ExpireInput.keeps_gt hcondition entry hholds).trans hcoe)
      rw [ExpireInput.digest, expireDigest_sets hvisible hholds, if_neg hfuture]
      exact ⟨_, rfl⟩
    · have hskip : ¬ ExpireSets tank input.op input.ts₁ := by
        rintro ⟨found, hfound, hsets⟩
        cases hvisible.symm.trans hfound
        exact hholds hsets
      exact ⟨entry, (expireDigest_not_sets hskip).of_view hvisible⟩
  · rw [ExpireInput.digest, expireDigest_otherKeys hkey]
    exact ⟨entry, hentry⟩

theorem expireRun_live {tank : SepticTank S} {inputs : List ExpireInput}
    (hconditions : ∀ input ∈ inputs, input.op.condition = .gt) {entry : DataEntry}
    (hentry : hashmapGet tank.data key = some entry) (hlive : StaysLive key tank inputs) :
    ∃ entry', hashmapGet (expireRun tank inputs).data key = some entry' := by
  induction inputs generalizing tank entry with
  | nil => exact ⟨entry, hentry⟩
  | cons input inputs ih =>
    obtain ⟨hfirst, hrest⟩ := List.forall_mem_cons.mp hconditions
    obtain ⟨⟨found, hfound, hlive₁, hlive₂⟩, hlive⟩ := hlive
    obtain ⟨next, hnext⟩ := expireDigest_live hfirst hfound hlive₁ hlive₂
    exact ih hrest hnext hlive

end Run

end Redic
