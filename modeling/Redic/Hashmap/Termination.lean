import Redic.Hashmap.Chain
import Redic.Hashmap.Contract

/-! # When storing a key terminates

A put that finds no place doubles the table until there is one or a request for slots is denied. It
succeeds when some order-independent condition holds for the largest table that is granted, and
only then as long as no stored key is blocked by others. A request for more slots than an `int` can
count fails, so 2^30 slots are the largest table of all.
-/
namespace Redic.Hashmap
open ProbeWindow HashmapMap

variable {V : Type} {hash : DataString → UInt64} {calloc : ℕ → Bool} {m m' : HashmapMap V}
  {key : DataString} {value : V} {fuel fuel' : ℕ} {stored : Finset DataString}
  {first largest : ℕ}

def maxTableSize : ℕ := 2 ^ 30

/-- The number of slots is an `int`, so what is beyond its range is never granted. -/
def hashmapCalloc (slots : ℕ) : Bool := decide (slots < 2 ^ 31)

/-- From a first size on, doublings are granted up to a largest table and no further. -/
structure GrantsUpTo (calloc : ℕ → Bool) (first largest : ℕ) : Prop where
  chain_le : maxChainLength ≤ first
  granted : ∀ doublings, first * 2 ^ (doublings + 1) ≤ largest →
    calloc (first * 2 ^ (doublings + 1)) = true
  denied : calloc (2 * largest) = false

/-- The tables that puts and removals lead to. A put may run out of memory at any request. -/
inductive Reachable (hash : DataString → UInt64) : HashmapMap V → Prop
  | new : Reachable hash hashmapNew
  | put {m m' : HashmapMap V} {calloc : ℕ → Bool} {fuel : ℕ} {key : DataString} {value : V}
      {status : MapStatus} (reach : Reachable hash m)
      (granted : ∀ slots, calloc slots = true → hashmapCalloc slots = true)
      (returns : hashmapPut hash calloc fuel m key value = some (m', status)) : Reachable hash m'
  | remove {m : HashmapMap V} (reach : Reachable hash m) (key : DataString) :
      Reachable hash (hashmapRemove hash m key).1

/-- The put returns with the key stored, and no allocation failed on the way. -/
def Terminates (hash : DataString → UInt64) (m : HashmapMap V) (key : DataString) (value : V) :
    Prop :=
  ∃ fuel m', hashmapPut hash hashmapCalloc fuel m key value = some (m', .ok)

/-- The key has a place at once, or the table can be doubled and the largest one has a place for
each stored key and for this one. -/
def Fits (hash : DataString → UInt64) (largest : ℕ) (m : HashmapMap V) (key : DataString) : Prop :=
  hashmapHash hash m key ≠ none ∨
    (m.tableSize < largest ∧ m.keys.card < largest / 2 ∧ Uncrowded hash largest m.keys ∧
      ¬ Blocked hash largest m.keys key)

section Fuel
variable {put put' : HashmapMap V → DataString → V → Option (HashmapMap V × MapStatus)}

theorem moveElements_mono
    (hput : ∀ m key value result, put m key value = some result → put' m key value = some result)
    {curr : List (Option (HashmapElement V))} {status : MapStatus}
    (h : moveElements put curr m = some (m', status)) :
    moveElements put' curr m = some (m', status) := by
  induction curr generalizing m with
  | nil => exact h
  | cons occupant curr ih =>
    cases occupant with
    | none => exact ih h
    | some element =>
      obtain ⟨m₁, status₁, hstep, hrest⟩ := moveElements_cons_eq_some.mp h
      refine moveElements_cons_eq_some.mpr ⟨m₁, status₁, hput _ _ _ _ hstep, ?_⟩
      exact hrest.imp_left fun hmoved => ⟨hmoved.1, ih hmoved.2⟩

theorem hashmapRehash_mono
    (hput : ∀ m key value result, put m key value = some result → put' m key value = some result)
    {status : MapStatus} (h : hashmapRehash calloc put m = some (m', status)) :
    hashmapRehash calloc put' m = some (m', status) := by
  rw [hashmapRehash_eq_some] at h ⊢
  exact h.imp_left fun hmoved => ⟨hmoved.1, moveElements_mono hput hmoved.2⟩

theorem hashmapPut_mono {result : HashmapMap V × MapStatus} (hle : fuel ≤ fuel')
    (h : hashmapPut hash calloc fuel m key value = some result) :
    hashmapPut hash calloc fuel' m key value = some result := by
  induction fuel generalizing fuel' m key value result with
  | zero => cases h
  | succ fuel ih =>
    obtain ⟨fuel', rfl⟩ := Nat.exists_eq_add_one.mpr (Nat.lt_of_lt_of_le (Nat.succ_pos fuel) hle)
    have hle' := Nat.le_of_succ_le_succ hle
    obtain ⟨m', status⟩ := result
    rcases hashmapPut_eq_some.mp h with hstored | ⟨hhash, m₁, status₁, hrehash, hnext⟩
    · exact hashmapPut_eq_some.mpr (Or.inl hstored)
    · have hrehash' := hashmapRehash_mono (fun _ _ _ _ hreturn => ih hle' hreturn) hrehash
      refine hashmapPut_eq_some.mpr (Or.inr ⟨hhash, m₁, status₁, hrehash', ?_⟩)
      exact hnext.imp_right fun hput => ⟨hput.1, ih hle' hput.2⟩

theorem hashmapPut_of_rehash {m₁ : HashmapMap V} {status : MapStatus}
    (hhash : hashmapHash hash m key = none)
    (hrehash : hashmapRehash calloc (hashmapPut hash calloc fuel) m = some (m₁, .ok))
    (hput : hashmapPut hash calloc fuel' m₁ key value = some (m', status)) :
    hashmapPut hash calloc (max fuel fuel' + 1) m key value = some (m', status) := by
  have hrehash' :=
    hashmapRehash_mono (fun _ _ _ _ => hashmapPut_mono (Nat.le_max_left fuel fuel')) hrehash
  have hput' := hashmapPut_mono (Nat.le_max_right fuel fuel') hput
  have hok : MapStatus.ok ≠ .omem := by decide
  exact hashmapPut_eq_some.mpr (Or.inr ⟨hhash, m₁, .ok, hrehash', Or.inr ⟨hok, hput'⟩⟩)

end Fuel

section Sizes

/-- The table is this many doublings away from the largest one. -/
structure LevelOf (first largest : ℕ) (m : HashmapMap V) (level : ℕ) : Prop where
  slots : m.tableSize * 2 ^ level = largest
  grown : ∃ doublings, first * 2 ^ doublings = m.tableSize

theorem levelOf_new : LevelOf initialSize maxTableSize (hashmapNew : HashmapMap V) 22 := by
  constructor <;> rw [hashmapNew, tableSize_ofCalloc]
  · rfl
  · exact ⟨0, rfl⟩

theorem levelOf_ofCalloc {below : ℕ} (h : LevelOf first largest m (below + 1))
    (released : List (HashmapElement V)) :
    LevelOf first largest (ofCalloc (2 * m.tableSize) released) below := by
  constructor <;> rw [tableSize_ofCalloc]
  · rw [← h.slots, Nat.pow_succ, Nat.mul_comm 2, Nat.mul_assoc, Nat.mul_comm 2]
  · obtain ⟨doublings, hgrown⟩ := h.grown
    exact ⟨doublings + 1, by rw [← hgrown, Nat.pow_succ, Nat.mul_comm 2, Nat.mul_assoc]⟩

theorem LevelOf.congr {level : ℕ} (h : LevelOf first largest m level)
    (hsize : m'.tableSize = m.tableSize) : LevelOf first largest m' level :=
  ⟨hsize ▸ h.slots, hsize ▸ h.grown⟩

theorem LevelOf.first_le {level : ℕ} (h : LevelOf first largest m level) :
    first ≤ m.tableSize := by
  obtain ⟨doublings, hgrown⟩ := h.grown
  exact hgrown ▸ Nat.le_mul_of_pos_right _ (Nat.two_pow_pos doublings)

theorem LevelOf.tableSize_dvd {level : ℕ} (h : LevelOf first largest m level) :
    m.tableSize ∣ largest := ⟨2 ^ level, h.slots.symm⟩

theorem LevelOf.tableSize_le {level : ℕ} (h : LevelOf first largest m level) :
    m.tableSize ≤ largest := h.slots ▸ Nat.le_mul_of_pos_right _ (Nat.two_pow_pos level)

theorem LevelOf.zero (h : LevelOf first largest m 0) : m.tableSize = largest := by
  rw [← h.slots, Nat.pow_zero, Nat.mul_one]

theorem LevelOf.above (hdenied : calloc (2 * largest) = false) {level : ℕ}
    (h : LevelOf first largest m level) (hgrant : calloc (2 * m.tableSize) = true) :
    ∃ below, level = below + 1 := by
  cases level with
  | zero =>
    rw [h.zero, hdenied] at hgrant
    cases hgrant
  | succ below => exact ⟨below, rfl⟩

theorem LevelOf.granted (hup : GrantsUpTo calloc first largest) {below : ℕ}
    (h : LevelOf first largest m (below + 1)) : calloc (2 * m.tableSize) = true := by
  obtain ⟨doublings, hgrown⟩ := h.grown
  have hslots : first * 2 ^ (doublings + 1) = 2 * m.tableSize := by
    rw [← hgrown, Nat.pow_succ, Nat.mul_comm 2, Nat.mul_assoc]
  have hle : 2 * m.tableSize ≤ largest := by
    rw [← h.slots, Nat.pow_succ, Nat.mul_comm (2 ^ below), ← Nat.mul_assoc, Nat.mul_comm 2]
    exact Nat.le_mul_of_pos_right _ (Nat.two_pow_pos below)
  rw [← hslots] at hle ⊢
  exact hup.granted doublings hle

theorem grantsUpTo_hashmapCalloc : GrantsUpTo hashmapCalloc initialSize maxTableSize where
  chain_le := by decide
  granted doublings hle := decide_eq_true (Nat.lt_of_le_of_lt hle (by decide))
  denied := by decide

/-- The table is at most this many doublings away from the largest one. -/
def Within (first largest level : ℕ) (m : HashmapMap V) : Prop :=
  ∃ below ≤ level, LevelOf first largest m below

theorem Within.mono {level level' : ℕ} (h : Within first largest level m) (hle : level ≤ level') :
    Within first largest level' m := by
  obtain ⟨below, hbelow, hlevel⟩ := h
  exact ⟨below, Nat.le_trans hbelow hle, hlevel⟩

theorem Within.congr {level : ℕ} (h : Within first largest level m)
    (hsize : m'.tableSize = m.tableSize) : Within first largest level m' := by
  obtain ⟨below, hle, hlevel⟩ := h
  exact ⟨below, hle, hlevel.congr hsize⟩

/-- Whatever a put does, the table stays a power of two times the first size, up to the largest, and
it never shrinks. -/
theorem kept_within (hdenied : calloc (2 * largest) = false) (first level : ℕ) :
    Kept calloc (Within first largest level : HashmapMap V → Prop) fun _ => True where
  store _ _ _ _ hm _ := hm.congr tableSize_store
  doubled m hm hgrant := by
    obtain ⟨above, hle, hlevel⟩ := hm
    obtain ⟨below, rfl⟩ := hlevel.above hdenied hgrant
    exact ⟨below, Nat.le_of_succ_le hle, levelOf_ofCalloc hlevel _⟩
  values _ _ _ _ := trivial

theorem Within.remove {level : ℕ} (h : Within first largest level m) (key : DataString) :
    Within first largest level (hashmapRemove hash m key).1 := by
  unfold hashmapRemove
  split
  · exact h
  · exact h.congr tableSize_clear

theorem denied_of_granted (hgranted : ∀ slots, calloc slots = true → hashmapCalloc slots = true) :
    calloc (2 * maxTableSize) = false := by
  rw [← Bool.not_eq_true]
  intro hgrant
  exact absurd (hgranted _ hgrant) (by decide)

theorem Reachable.within (h : Reachable hash m) : Within initialSize maxTableSize 22 m := by
  induction h with
  | new => exact ⟨22, Nat.le.refl, levelOf_new⟩
  | put _ hgranted hreturns ih =>
    exact (kept_within (denied_of_granted hgranted) initialSize 22).of_put ih trivial hreturns
  | remove _ key ih => exact ih.remove key

end Sizes

section Success
variable {level : ℕ}

structure Fresh (hash : DataString → UInt64) (first largest : ℕ) (stored : Finset DataString)
    (m : HashmapMap V) (level : ℕ) : Prop where
  wellFormed : m.WellFormed hash
  closed : m.Closed hash
  levelOf : LevelOf first largest m level
  keys_sub : m.keys ⊆ stored

/-- Every put of a key that is not blocked succeeds at this distance from the largest table. -/
def PutsAt (V : Type) (hash : DataString → UInt64) (calloc : ℕ → Bool) (first largest : ℕ)
    (stored : Finset DataString) (level : ℕ) : Prop :=
  ∀ (m : HashmapMap V) (key : DataString) (value : V), Fresh hash first largest stored m level →
    ¬ Blocked hash largest stored key →
    ∃ fuel m', hashmapPut hash calloc fuel m key value = some (m', .ok) ∧
      ∃ level' ≤ level, LevelOf first largest m' level'

theorem keys_upsert (h : m'.elements.Perm (upsert key value m.elements)) :
    m'.keys = insert key m.keys := by
  ext other
  rw [mem_keys, Finset.mem_insert, mem_keys]
  constructor
  · rintro ⟨element, hmem, rfl⟩
    rcases List.mem_cons.mp (h.mem_iff.mp hmem) with rfl | hmem
    · exact Or.inl rfl
    · exact Or.inr ⟨element, (List.mem_filter.mp hmem).1, rfl⟩
  · intro hother
    by_cases heq : other = key
    · exact ⟨⟨key, value⟩, h.mem_iff.mpr List.mem_cons_self, heq.symm⟩
    · obtain ⟨element, hmem, rfl⟩ := hother.resolve_left heq
      refine ⟨element, h.mem_iff.mpr (List.mem_cons_of_mem _ ?_), rfl⟩
      exact List.mem_filter.mpr ⟨hmem, decide_eq_true heq⟩

theorem Fresh.put (h : Fresh hash first largest stored m level) (hkey : key ∈ stored)
    {level' : ℕ} (hput : hashmapPut hash calloc fuel m key value = some (m', .ok))
    (hlevel : LevelOf first largest m' level') : Fresh hash first largest stored m' level' := by
  have hexact := hashmapPut_exact fuel m m' key value h.wellFormed (Or.inr (h.closed key)) hput
  refine ⟨hexact.wellFormed, hexact.closed h.closed, hlevel, ?_⟩
  rw [keys_upsert hexact.elements]
  exact Finset.insert_subset hkey h.keys_sub

/-- Moving elements with stored keys into a fresh table succeeds, whatever their order. -/
theorem moveElements_succeeds
    (hputs : ∀ below ≤ level, PutsAt V hash calloc first largest stored below)
    (huncrowded : Uncrowded hash largest stored) (curr : List (Option (HashmapElement V)))
    (hcurr : ∀ element ∈ curr.reduceOption, element.key ∈ stored) {below : ℕ}
    (hbelow : below ≤ level) (hm : Fresh hash first largest stored m below) :
    ∃ fuel m', moveElements (hashmapPut hash calloc fuel) curr m = some (m', .ok) ∧
      ∃ level' ≤ level, Fresh hash first largest stored m' level' := by
  induction curr generalizing m below with
  | nil => exact ⟨0, m, rfl, below, hbelow, hm⟩
  | cons occupant curr ih =>
    cases occupant with
    | none => exact ih hcurr hbelow hm
    | some element =>
      rw [List.reduceOption_cons_of_some, List.forall_mem_cons] at hcurr
      obtain ⟨hkey, hcurr⟩ := hcurr
      obtain ⟨fuel, m₁, hput, level₁, hle, hlevel⟩ :=
        hputs below hbelow m element.key element.data hm (huncrowded _ hkey)
      obtain ⟨fuel', m', hmove, hfresh⟩ :=
        ih hcurr (Nat.le_trans hle hbelow) (hm.put hkey hput hlevel)
      have hput' := hashmapPut_mono (Nat.le_max_left fuel fuel') hput
      have hmove' :=
        moveElements_mono (fun _ _ _ _ => hashmapPut_mono (Nat.le_max_right fuel fuel')) hmove
      refine ⟨max fuel fuel', m', ?_, hfresh⟩
      exact moveElements_cons_eq_some.mpr ⟨m₁, .ok, hput', Or.inl ⟨rfl, hmove'⟩⟩

theorem hashmapRehash_succeeds (hup : GrantsUpTo calloc first largest)
    (hputs : ∀ below ≤ level, PutsAt V hash calloc first largest stored below)
    (huncrowded : Uncrowded hash largest stored) (hm : LevelOf first largest m (level + 1))
    (hkeys : m.keys ⊆ stored) :
    ∃ fuel m', hashmapRehash calloc (hashmapPut hash calloc fuel) m = some (m', .ok) ∧
      ∃ level' ≤ level, Fresh hash first largest stored m' level' := by
  have hsize : maxChainLength ≤ 2 * m.tableSize := by
    have hchain := hup.chain_le
    have hle := hm.first_le
    omega
  have hfresh : Fresh hash first largest stored (ofCalloc (2 * m.tableSize) m.released) level := by
    refine ⟨wellFormed_ofCalloc hsize _, closed_ofCalloc _ _, levelOf_ofCalloc hm _, ?_⟩
    rw [keys, elements_ofCalloc]
    exact Finset.empty_subset _
  obtain ⟨fuel, m', hmove, hfresh'⟩ := moveElements_succeeds hputs huncrowded m.data
    (fun element hmem => hkeys (mem_keys.mpr ⟨element, hmem, rfl⟩)) Nat.le.refl hfresh
  exact ⟨fuel, m', hashmapRehash_eq_some.mpr (Or.inl ⟨hm.granted hup, hmove⟩), hfresh'⟩

/-- A fresh table has a place for a key that is not blocked, at the latest at the largest size. -/
theorem putsAt (hup : GrantsUpTo calloc first largest) (huncrowded : Uncrowded hash largest stored)
    (hcard : stored.card < largest / 2) (level : ℕ) :
    PutsAt V hash calloc first largest stored level := by
  induction level using Nat.strong_induction_on with
  | _ level ih =>
    intro m key value hm hblocked
    cases hhash : hashmapHash hash m key with
    | some index =>
      refine ⟨1, m.store index key value, ?_, level, Nat.le.refl, hm.levelOf.congr tableSize_store⟩
      exact hashmapPut_eq_some.mpr (Or.inl ⟨index, hhash, rfl, rfl⟩)
    | none =>
      cases level with
      | zero =>
        have hsize : m.tableSize = largest := hm.levelOf.zero
        have hroom : m.size < m.tableSize / 2 := by
          rw [hm.wellFormed.size_eq_card, hsize]
          exact Nat.lt_of_le_of_lt (Finset.card_le_card hm.keys_sub) hcard
        rw [hashmapHash, if_neg (Nat.not_le.mpr hroom),
          probe_eq_none (hm.wellFormed.home_lt key)] at hhash
        have hchain := hm.wellFormed.blocked_of_full hm.closed
          (Nat.lt_of_lt_of_le hroom (Nat.div_le_self _ _)) hhash
        rw [hsize] at hchain
        exact absurd (hchain.mono hm.keys_sub) hblocked
      | succ level =>
        obtain ⟨fuel, m₁, hrehash, level₁, hle, hfresh⟩ := hashmapRehash_succeeds hup
          (fun below hbelow => ih below (Nat.lt_succ_of_le hbelow)) huncrowded hm.levelOf
          hm.keys_sub
        obtain ⟨fuel', m', hput, level', hle', hlevel'⟩ :=
          ih level₁ (Nat.lt_succ_of_le hle) m₁ key value hfresh hblocked
        exact ⟨_, m', hashmapPut_of_rehash hhash hrehash hput, level', by omega, hlevel'⟩

end Success

section Failure
variable {put : HashmapMap V → DataString → V → Option (HashmapMap V × MapStatus)}

theorem moveElements_keys (hput : ExactPut hash put) {curr : List (Option (HashmapElement V))}
    (hm : m.WellFormed hash) (hclosed : m.Closed hash)
    (h : moveElements put curr m = some (m', .ok)) :
    m'.WellFormed hash ∧ m'.Closed hash ∧
      m'.keys = m.keys ∪ (curr.reduceOption.map HashmapElement.key).toFinset := by
  induction curr generalizing m with
  | nil =>
    cases h
    exact ⟨hm, hclosed, by simp⟩
  | cons occupant curr ih =>
    cases occupant with
    | none => exact ih hm hclosed h
    | some element =>
      obtain ⟨m₁, status, hstep, ⟨rfl, h⟩ | ⟨hstatus, -, rfl⟩⟩ := moveElements_cons_eq_some.mp h
      · have hexact := hput m m₁ _ _ hm (Or.inr (hclosed element.key)) hstep
        obtain ⟨hm', hclosed', hkeys⟩ := ih hexact.wellFormed (hexact.closed hclosed) h
        refine ⟨hm', hclosed', ?_⟩
        rw [hkeys, keys_upsert hexact.elements, List.reduceOption_cons_of_some, List.map_cons,
          List.toFinset_cons, Finset.insert_union, Finset.union_insert]
      · exact absurd rfl hstatus

theorem hashmapRehash_keys (hput : ExactPut hash put) (hsize : maxChainLength ≤ m.tableSize)
    (h : hashmapRehash calloc put m = some (m', .ok)) :
    m'.WellFormed hash ∧ m'.Closed hash ∧ m'.keys = m.keys := by
  obtain ⟨-, h⟩ | ⟨-, -, hstatus⟩ := hashmapRehash_eq_some.mp h
  · have hempty : (ofCalloc (2 * m.tableSize) m.released).WellFormed hash :=
      wellFormed_ofCalloc (Nat.le_trans hsize (Nat.le_mul_of_pos_left _ Nat.two_pos)) m.released
    obtain ⟨hm', hclosed', hkeys⟩ := moveElements_keys hput hempty (closed_ofCalloc _ _) h
    refine ⟨hm', hclosed', hkeys.trans ?_⟩
    rw [keys, elements_ofCalloc]
    exact Finset.empty_union _
  · cases hstatus

/-- A table in which every put of the key comes to nothing: its keys are too many for the largest
table, or a chain of them blocks the key. -/
def Stuck (hash : DataString → UInt64) (largest : ℕ) (stored : Finset DataString)
    (key : DataString) : Prop :=
  largest / 2 ≤ stored.card ∨ (key ∉ stored ∧ Blocked hash largest stored key)

theorem full_of_stuck {level : ℕ} (hm : m.WellFormed hash) (hclosed : m.Closed hash)
    (hlevel : LevelOf first largest m level) (hstuck : Stuck hash largest m.keys key) :
    hashmapHash hash m key = none := by
  rcases hstuck with hcard | ⟨hkey, hblocked⟩
  · rw [hashmapHash, if_pos]
    rw [hm.size_eq_card]
    exact Nat.le_trans (Nat.div_le_div_right hlevel.tableSize_le) hcard
  · exact hm.full_of_blocked hclosed hkey (hblocked.of_dvd hlevel.tableSize_dvd)

theorem hashmapPut_doubles (hhash : hashmapHash hash m key = none)
    (h : hashmapPut hash calloc fuel m key value = some (m', .ok)) :
    ∃ before m₁, before < fuel ∧
      hashmapRehash calloc (hashmapPut hash calloc before) m = some (m₁, .ok) ∧
      hashmapPut hash calloc before m₁ key value = some (m', .ok) := by
  cases fuel with
  | zero => cases h
  | succ fuel =>
    obtain ⟨index, hindex, -⟩ | ⟨-, m₁, status, hrehash, hnext⟩ := hashmapPut_eq_some.mp h
    · cases hhash.symm.trans hindex
    · rcases hnext with ⟨-, -, homem⟩ | ⟨hstatus, hput⟩
      · cases homem
      · obtain rfl := (hashmapRehash_status fuel hrehash).resolve_right fun hfail => hstatus hfail.1
        exact ⟨fuel, m₁, Nat.lt_succ_self fuel, hrehash, hput⟩

/-- Doubling changes nothing about it, so the put never ends with the key stored. -/
theorem hashmapPut_stuck (hup : GrantsUpTo calloc first largest) (fuel : ℕ) {level : ℕ}
    (hlevel : LevelOf first largest m level) (hhash : hashmapHash hash m key = none)
    (hstuck : Stuck hash largest m.keys key) :
    hashmapPut hash calloc fuel m key value ≠ some (m', .ok) := by
  induction fuel using Nat.strong_induction_on generalizing m level with
  | _ fuel ih =>
    intro h
    obtain ⟨before, m₁, hlt, hrehash, hput⟩ := hashmapPut_doubles hhash h
    have hsize : maxChainLength ≤ m.tableSize := Nat.le_trans hup.chain_le hlevel.first_le
    obtain ⟨hm₁, hclosed₁, hkeys⟩ := hashmapRehash_keys (hashmapPut_exact before) hsize hrehash
    have hkept : Kept calloc (Within first largest level : HashmapMap V → Prop) fun _ => True :=
      kept_within hup.denied first level
    obtain ⟨level₁, -, hlevel₁⟩ := hkept.of_rehash (fun _ _ _ _ _ => hkept.of_put)
      ⟨level, Nat.le.refl, hlevel⟩ hrehash
    rw [← hkeys] at hstuck
    exact ih before hlt hlevel₁ (full_of_stuck hm₁ hclosed₁ hlevel₁ hstuck) hstuck hput

end Failure

theorem put_of_fits (hup : GrantsUpTo calloc first largest) {level : ℕ}
    (hlevel : LevelOf first largest m level) (hfits : Fits hash largest m key) (value : V) :
    ∃ fuel m', hashmapPut hash calloc fuel m key value = some (m', .ok) := by
  by_cases hhash : hashmapHash hash m key = none
  · obtain ⟨hsize, hcard, huncrowded, hblocked⟩ := hfits.resolve_left fun hsome => hsome hhash
    cases level with
    | zero => exact absurd hlevel.zero (Nat.ne_of_lt hsize)
    | succ level =>
      have hputs := putsAt (V := V) hup huncrowded hcard
      obtain ⟨fuel, m₁, hrehash, level₁, -, hfresh⟩ := hashmapRehash_succeeds hup
        (fun below _ => hputs below) huncrowded hlevel (Finset.Subset.refl _)
      obtain ⟨fuel', m', hput, -⟩ := hputs level₁ m₁ key value hfresh hblocked
      exact ⟨_, m', hashmapPut_of_rehash hhash hrehash hput⟩
  · obtain ⟨index, hindex⟩ := Option.ne_none_iff_exists'.mp hhash
    exact ⟨1, m.store index key value, hashmapPut_eq_some.mpr (Or.inl ⟨index, hindex, rfl, rfl⟩)⟩

theorem fits_of_put (hup : GrantsUpTo calloc first largest) {level : ℕ}
    (hlevel : LevelOf first largest m level) (huncrowded : Uncrowded hash largest m.keys)
    (h : hashmapPut hash calloc fuel m key value = some (m', .ok)) : Fits hash largest m key := by
  by_cases hhash : hashmapHash hash m key = none
  · have hnot : ¬ Stuck hash largest m.keys key :=
      fun hstuck => hashmapPut_stuck hup fuel hlevel hhash hstuck h
    unfold Stuck at hnot
    rw [not_or, Nat.not_le] at hnot
    obtain ⟨before, m₁, -, hrehash, -⟩ := hashmapPut_doubles hhash h
    have hsize : m.tableSize < largest := by
      refine Nat.lt_of_le_of_ne hlevel.tableSize_le ?_
      intro hsize
      obtain ⟨hgrant, -⟩ | ⟨-, -, hstatus⟩ := hashmapRehash_eq_some.mp hrehash
      · rw [hsize, hup.denied] at hgrant
        cases hgrant
      · cases hstatus
    refine Or.inr ⟨hsize, hnot.1, huncrowded, ?_⟩
    by_cases hkey : key ∈ m.keys
    · exact huncrowded key hkey
    · exact fun hblocked => hnot.2 ⟨hkey, hblocked⟩
  · exact Or.inl hhash

theorem reachable_stored {elements : List (HashmapElement V)}
    (h : EventRun.run (storeElement hashmapKeyHash) hashmapNew elements = some m) :
    Reachable hashmapKeyHash m := by
  refine EventRun.run_preserves Reachable.new ?_ h
  intro m element m' hreach hstep
  exact hreach.put (fun _ hgrant => hgrant) (storeElement_put hstep)

/-- In every reachable table a put of a key that fits ends with the key stored, and while no
stored key is blocked by others it is the only kind of put that does. -/
theorem hashmapPut_terminates {m : HashmapMap V} (hreach : Reachable hashmapKeyHash m)
    (key : DataString) (value : V) :
    (Fits hashmapKeyHash maxTableSize m key → Terminates hashmapKeyHash m key value) ∧
      (Uncrowded hashmapKeyHash maxTableSize m.keys →
        (Terminates hashmapKeyHash m key value ↔ Fits hashmapKeyHash maxTableSize m key)) := by
  obtain ⟨level, -, hlevel⟩ := hreach.within
  have hput : Fits hashmapKeyHash maxTableSize m key → Terminates hashmapKeyHash m key value :=
    fun hfits => put_of_fits grantsUpTo_hashmapCalloc hlevel hfits value
  refine ⟨hput, ?_⟩
  intro huncrowded
  refine ⟨?_, hput⟩
  rintro ⟨fuel, m', h⟩
  exact fits_of_put grantsUpTo_hashmapCalloc hlevel huncrowded h

/-- In a table of the first size the window of the new key is full. The put doubles the table, and
while the keys are moved it doubles once more. -/
theorem hashmapPut_terminates_crowd :
    let key : DataString := [104, 116, 121]
    ∃ m : HashmapMap ℕ, Reachable hashmapKeyHash m ∧ m.tableSize = 256 ∧ m.size = 9 ∧
      hashmapHash hashmapKeyHash m key = none ∧ Terminates hashmapKeyHash m key 9 ∧
      (Terminates hashmapKeyHash m key 9 ↔ Fits hashmapKeyHash maxTableSize m key) := by
  intro key
  have hrun : (EventRun.run (storeElement hashmapKeyHash) (hashmapNew : HashmapMap ℕ)
      (crowd.zipWith HashmapElement.mk (List.range 9))).map (fun m =>
        (m.tableSize, m.size, hashmapHash hashmapKeyHash m key,
          decide (m.keys = crowd.toFinset))) = some (256, 9, none, true) := by
    decide +kernel
  obtain ⟨m, hm, hresult⟩ := Option.map_eq_some_iff.mp hrun
  simp only [Prod.mk.injEq, decide_eq_true_eq] at hresult
  obtain ⟨hsize, hcard, hhash, hkeys⟩ := hresult
  have hreach : Reachable hashmapKeyHash m := reachable_stored hm
  have huncrowded : Uncrowded hashmapKeyHash maxTableSize m.keys := by
    rw [hkeys]
    intro key hkey
    have hfew : ∀ key ∈ crowd.toFinset, ∀ extra < crowd.toFinset.card,
        (around hashmapKeyHash maxTableSize crowd.toFinset key extra).card <
          extra + maxChainLength := by
      decide +kernel
    exact not_blocked (hfew key hkey)
  have hblocked : ¬ Blocked hashmapKeyHash maxTableSize m.keys key := by
    rw [hkeys]
    exact not_blocked (by decide +kernel)
  have hfits : Fits hashmapKeyHash maxTableSize m key := by
    refine Or.inr ⟨by rw [hsize]; decide, ?_, huncrowded, hblocked⟩
    rw [hkeys]
    decide
  have hterminates := hashmapPut_terminates hreach key 9
  exact ⟨m, hreach, hsize, hcard, hhash, hterminates.1 hfits, hterminates.2 huncrowded⟩

/-- Keys that differ in the number of NUL bytes in front have one hash. -/
def alike (zeros : ℕ) : DataString := List.replicate zeros 0 ++ [97]

/-- Eight such keys fill a window for good, and the put of a ninth doubles the table until the
request for slots fails. -/
theorem hashmapPut_never_terminates : ¬ ∀ m : HashmapMap ℕ, Reachable hashmapKeyHash m →
    ∀ key value, Terminates hashmapKeyHash m key value := by
  intro h
  have hrun : (EventRun.run (storeElement hashmapKeyHash) (hashmapNew : HashmapMap ℕ)
      ((List.range 8).map fun zeros => ⟨alike zeros, zeros⟩)).map (fun m =>
        (hashmapHash hashmapKeyHash m (alike 8), m.elements.map HashmapElement.key)) =
      some (none, (List.range 8).map alike) := by
    decide +kernel
  obtain ⟨m, hm, hresult⟩ := Option.map_eq_some_iff.mp hrun
  obtain ⟨hhash, hkeys⟩ := Prod.mk.inj hresult
  have hreach : Reachable hashmapKeyHash m := reachable_stored hm
  have hmem : m.keys = ((List.range 8).map alike).toFinset := congrArg List.toFinset hkeys
  have hsame : ∀ zeros ∈ List.range 9, hashmapKeyHash (alike zeros) = hashmapKeyHash [97] := by
    decide +kernel
  have hblocked : Blocked hashmapKeyHash maxTableSize m.keys (alike 8) := by
    refine ⟨(hashmapKeyHash [97]).toNat, 0, (List.range 8).map alike, by decide, ?_, ?_, rfl, ?_⟩
    · intro other hother
      refine ⟨hmem ▸ List.mem_toFinset.mpr hother, ?_⟩
      rintro rfl
      exact absurd hother (by decide)
    · intro place hplace
      have hlt : place < 8 := by simpa using hplace
      refine ⟨0, Nat.zero_le _, ?_⟩
      rw [List.getElem_map, List.getElem_range, hsame place (List.mem_range.mpr (by omega))]
      exact Nat.ModEq.refl _
    · rw [hsame 8 (by decide)]
      exact Nat.ModEq.refl _
  obtain ⟨fuel, m', hput⟩ := h m hreach (alike 8) 8
  obtain ⟨level, -, hlevel⟩ := hreach.within
  refine hashmapPut_stuck grantsUpTo_hashmapCalloc fuel hlevel hhash (Or.inr ⟨?_, hblocked⟩) hput
  rw [hmem, List.mem_toFinset]
  decide

end Redic.Hashmap
