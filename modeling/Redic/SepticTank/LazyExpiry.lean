import Redic.SepticTank.Digest

/-! # Lazy expiry is invisible

Two tanks that agree on their unexpired entries answer every operation alike and still agree
afterwards, whatever dead entries either of them keeps. A lazy run lets any set of dead entries
disappear before each operation; its replies are determined by the operations alone.
-/
namespace Redic
open KeyStore TimedMap

/-- One operation with the clock readings its digest makes. -/
structure DigestInput where
  operation : SepticTankOperation
  ts₁ : Timespec
  ts₂ : Timespec

def DigestInput.readings (input : DigestInput) : List Int64 :=
  [dataNowMs input.ts₁, dataNowMs input.ts₂]

variable {S S' : Type} [KeyStore S] [KeyStore S']

def SepticTank.resolve (tank : SepticTank S) (input : DigestInput) :
    SepticTank S × SepticTankResult :=
  septicTankResolve tank input.operation input.ts₁ input.ts₂

def SepticTank.digest (tank : SepticTank S) (input : DigestInput) :
    SepticTank S × SepticTankResult × Option SepticTankMutation :=
  septicTankDigest tank input.operation input.ts₁ input.ts₂

/-- The write that follows a resolve, if there is one. -/
def septicTankApplyResolved (tank : SepticTank S) : Option SepticTankMutation → SepticTank S
  | none => tank
  | some mutation => septicTankApplyMutation tank mutation

theorem SepticTank.digest_tank (tank : SepticTank S) (input : DigestInput) :
    (tank.digest input).1 =
      septicTankApplyResolved (tank.resolve input).1 (tank.resolve input).2.resolvedMutation := by
  rcases septicTankDigest_cases tank input.operation input.ts₁ input.ts₂ with
    ⟨mutation, hm, h⟩ | ⟨hm, h⟩
  · simp only [digest, resolve, h, hm, septicTankApplyResolved]
  · simp only [digest, resolve, h, hm, septicTankApplyResolved]

theorem SepticTank.digest_result (tank : SepticTank S) (input : DigestInput) :
    (tank.digest input).2.1 = (tank.resolve input).2 :=
  septicTankDigest_result tank input.operation input.ts₁ input.ts₂

/-- Runs in which expired entries may vanish before any operation. -/
inductive LazyRun : SepticTank S → List DigestInput → List SepticTankResult → Prop
  | nil (tank : SepticTank S) : LazyRun tank [] []
  | digest {tank swept : SepticTank S} {input : DigestInput} {inputs : List DigestInput}
      {replies : List SepticTankResult}
      (sweep : EvictsExpired input.ts₁ tank.data swept.data)
      (rest : LazyRun (swept.digest input).1 inputs replies) :
      LazyRun tank (input :: inputs) ((swept.digest input).2.1 :: replies)

variable [LawfulKeyStore S] [LawfulKeyStore S']

theorem SepticTank.resolve_otherKeys (tank : SepticTank S) (input : DigestInput) {key : DataString}
    (h : key ≠ input.operation.key) :
    hashmapGet (tank.resolve input).1.data key = hashmapGet tank.data key := by
  have hremove : hashmapGet (tank.evict input.operation.key).data key =
      hashmapGet tank.data key := by
    rw [SepticTank.evict, LawfulKeyStore.get_remove, if_neg h]
  rcases septicTankResolve_tank tank input.operation input.ts₁ input.ts₂ with hsame | hevict
  · exact congrArg (fun t : SepticTank S => hashmapGet t.data key) hsame
  · exact (congrArg (fun t : SepticTank S => hashmapGet t.data key) hevict).trans hremove

theorem SepticTank.resolve_sameVisible (tank : SepticTank S) (input : DigestInput) :
    SameVisible input.ts₁ tank.data (tank.resolve input).1.data :=
  (septicTankResolve_evicts tank input.ts₁ input.ts₂ input.operation).sameVisible

/-- A store that only follows the resolved mutations keeps up with the digesting tank. -/
theorem SepticTank.digest_follow {tank : SepticTank S} {shadow : SepticTank S'}
    {input : DigestInput} (h : SameVisible input.ts₁ tank.data shadow.data) :
    SameVisible input.ts₁ (tank.digest input).1.data
      (septicTankApplyResolved shadow (tank.resolve input).2.resolvedMutation).data := by
  have hr : SameVisible input.ts₁ (tank.resolve input).1.data shadow.data :=
    (tank.resolve_sameVisible input).symm.trans h
  rw [digest_tank]
  cases hm : (tank.resolve input).2.resolvedMutation with
  | none => exact hr
  | some mutation =>
    have hj : mutation.Justified input.ts₁ tank.data := septicTankResolve_justified hm
    exact septicTankApplyMutation_sameVisible hr (hj.congr (tank.resolve_sameVisible input))

section Agreement
variable {tank : SepticTank S} {tank' : SepticTank S'} {input : DigestInput} {t : Timespec}

omit [LawfulKeyStore S] [LawfulKeyStore S'] in
theorem SepticTank.resolve_result_eq (hop : input.operation.testsExpiry = true)
    (h : SameVisible input.ts₁ tank.data tank'.data) :
    (tank.resolve input).2 = (tank'.resolve input).2 := by
  simp only [resolve]
  rw [septicTankResolve_outcome tank hop, septicTankResolve_outcome tank' hop, h.visible_eq]

theorem SepticTank.digest_sameVisible (hop : input.operation.testsExpiry = true)
    (h : SameVisible input.ts₁ tank.data tank'.data)
    (hts : dataNowMs input.ts₁ ≤ dataNowMs input.ts₂) :
    SameVisible input.ts₂ (tank.digest input).1.data (tank'.digest input).1.data := by
  have hr : SameVisible input.ts₁ tank.data (tank'.resolve input).1.data :=
    h.trans (tank'.resolve_sameVisible input)
  have hd := digest_follow hr
  rw [resolve_result_eq hop h, ← digest_tank] at hd
  exact hd.later hts

theorem LazyRun.replies_eq {inputs : List DigestInput} {replies replies' : List SepticTankResult}
    (hrun : LazyRun tank inputs replies) (hrun' : LazyRun tank' inputs replies')
    (h : SameVisible t tank.data tank'.data)
    (hops : ∀ input ∈ inputs, input.operation.testsExpiry = true)
    (hclock : (dataNowMs t :: inputs.flatMap DigestInput.readings).Pairwise (· ≤ ·)) :
    replies = replies' := by
  induction hrun generalizing tank' replies' t with
  | nil tank =>
    cases hrun'
    rfl
  | @digest tank swept input inputs replies sweep rest ih =>
    cases hrun' with
    | @digest _ swept' _ _ replies' sweep' rest' =>
      have hop := hops input List.mem_cons_self
      obtain ⟨hfirst, htail⟩ := List.pairwise_cons.mp hclock
      have ht₁ : dataNowMs t ≤ dataNowMs input.ts₁ := hfirst _ (by simp [DigestInput.readings])
      simp only [List.flatMap_cons, DigestInput.readings, List.cons_append, List.nil_append] at htail
      obtain ⟨hsecond, htail⟩ := List.pairwise_cons.mp htail
      have ht₂ : dataNowMs input.ts₁ ≤ dataNowMs input.ts₂ := hsecond _ List.mem_cons_self
      have hswept : SameVisible input.ts₁ swept.data swept'.data :=
        (sweep.sameVisible.symm.trans (h.later ht₁)).trans sweep'.sameVisible
      have hreply : (swept.digest input).2.1 = (swept'.digest input).2.1 := by
        rw [SepticTank.digest_result, SepticTank.digest_result]
        exact SepticTank.resolve_result_eq hop hswept
      have hrest := ih rest' (SepticTank.digest_sameVisible hop hswept ht₂)
        (fun i hi => hops i (List.mem_cons_of_mem _ hi)) htail
      rw [hreply, hrest]

end Agreement

/-- Lazy expiry cannot be observed: not in a reply, not in the log, not in what later
operations see. -/
theorem lazyExpiry_invisible (t : Timespec) (tank : SepticTank S) (tank' : SepticTank S')
    (h : SameVisible t tank.data tank'.data) :
    (∀ input : DigestInput, input.operation.testsExpiry = true →
      dataNowMs t ≤ dataNowMs input.ts₁ → dataNowMs input.ts₁ ≤ dataNowMs input.ts₂ →
      (tank.resolve input).2 = (tank'.resolve input).2 ∧
      SameVisible input.ts₁ tank.data (tank.resolve input).1.data ∧
      SameVisible input.ts₁ tank'.data (tank'.resolve input).1.data ∧
      SameVisible input.ts₂ (tank.digest input).1.data (tank'.digest input).1.data) ∧
    (∀ (inputs : List DigestInput) (replies replies' : List SepticTankResult),
      (∀ input ∈ inputs, input.operation.testsExpiry = true) →
      (dataNowMs t :: inputs.flatMap DigestInput.readings).Pairwise (· ≤ ·) →
      LazyRun tank inputs replies → LazyRun tank' inputs replies' → replies = replies') := by
  constructor
  · intro input hop ht₁ ht₂
    have h₁ : SameVisible input.ts₁ tank.data tank'.data := h.later ht₁
    exact ⟨SepticTank.resolve_result_eq hop h₁, tank.resolve_sameVisible input,
      tank'.resolve_sameVisible input, SepticTank.digest_sameVisible hop h₁ ht₂⟩
  · intro inputs replies replies' hops hclock hrun hrun'
    exact LazyRun.replies_eq hrun hrun' h hops hclock

/-- A tank holding a key that died at second 5, asked at second 10, and the same tank after
the key was evicted. -/
theorem lazyExpiry_invisible_dead_key :
    let clock := Timespec.atSecond 10 (by decide) (by decide)
    let tank : SepticTank FiniteStore :=
      { data := Finmap.singleton [107] (dataCreateStringEntry (some 5000) [118])
        aofEnabled := true }
    (tank.resolve ⟨.incrby ⟨[107], 1⟩, clock, clock⟩).2 =
      ((tank.evict [107]).resolve ⟨.incrby ⟨[107], 1⟩, clock, clock⟩).2 := by
  intro clock tank
  have hstored : hashmapGet tank.data [107] = some (dataCreateStringEntry (some 5000) [118]) := by
    decide
  have hdead : SameVisible clock tank.data (tank.evict [107]).data :=
    (evict_evictsExpired tank clock hstored (by decide)).sameVisible
  exact ((lazyExpiry_invisible clock tank (tank.evict [107]) hdead).1 _ rfl
    (by decide) (by decide)).1

end Redic
