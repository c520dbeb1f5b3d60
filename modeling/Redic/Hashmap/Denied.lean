import Redic.Hashmap.Termination

/-! # A put without memory

A put asks for slots when it doubles the table for its own key, and when an element that is moved
into a doubled table finds no place there and doubles it once more. The first request that is
denied ends the put. Denied for its own key, it leaves the elements as they were; denied while an
element is moved, it loses that element and those behind it. Which requests come depends on the
order of the elements, but not where the largest table that is granted has room for all of them.
-/
namespace Redic.Hashmap
open ProbeWindow HashmapMap

variable {V : Type} {hash : DataString → UInt64} {calloc calloc' : ℕ → Bool} {m m' m₁ : HashmapMap V}
  {key : DataString} {value : V} {fuel fuel' : ℕ} {status : MapStatus} {first largest level : ℕ}

/-- The fuel does not matter to a put that returns. -/
theorem hashmapPut_unique {result result' : HashmapMap V × MapStatus}
    (h : hashmapPut hash calloc fuel m key value = some result)
    (h' : hashmapPut hash calloc fuel' m key value = some result') : result = result' := by
  have hmax := hashmapPut_mono (Nat.le_max_left fuel fuel') h
  have hmax' := hashmapPut_mono (Nat.le_max_right fuel fuel') h'
  exact Option.some.inj (hmax.symm.trans hmax')

theorem hashmapRehash_unique {result result' : HashmapMap V × MapStatus}
    (h : hashmapRehash calloc (hashmapPut hash calloc fuel) m = some result)
    (h' : hashmapRehash calloc (hashmapPut hash calloc fuel') m = some result') :
    result = result' := by
  have hmax := hashmapRehash_mono
    (fun _ _ _ _ => hashmapPut_mono (Nat.le_max_left fuel fuel')) h
  have hmax' := hashmapRehash_mono
    (fun _ _ _ _ => hashmapPut_mono (Nat.le_max_right fuel fuel')) h'
  exact Option.some.inj (hmax.symm.trans hmax')

section Requests

theorem kept_larger (size : ℕ) :
    Kept calloc (fun m : HashmapMap V => size ≤ m.tableSize) fun _ => True where
  store _ _ _ _ hm _ := by rwa [tableSize_store]
  doubled _ hm _ := by
    rw [tableSize_ofCalloc]
    omega
  values _ _ _ _ := trivial

theorem moveElements_congr {size : ℕ} {put' : HashmapMap V → DataString → V →
      Option (HashmapMap V × MapStatus)}
    (hput : ∀ m key value, size ≤ m.tableSize → hashmapPut hash calloc fuel m key value =
      put' m key value) (curr : List (Option (HashmapElement V))) (hm : size ≤ m.tableSize) :
    moveElements (hashmapPut hash calloc fuel) curr m = moveElements put' curr m := by
  induction curr generalizing m with
  | nil => rfl
  | cons occupant curr ih =>
    cases occupant with
    | none => exact ih hm
    | some element =>
      rw [moveElements, moveElements, ← hput m element.key element.data hm]
      cases hmoved : hashmapPut hash calloc fuel m element.key element.data with
      | none => rfl
      | some moved =>
        have hkept : Kept calloc (fun m : HashmapMap V => size ≤ m.tableSize) fun _ => True :=
          kept_larger size
        dsimp only
        rw [ih (hkept.of_put hm trivial hmoved)]

/-- A put asks for at least twice as many slots as the table has, and goes on with the table that
was granted, so it asks for no number of slots twice. -/
theorem hashmapPut_congr
    (hsame : ∀ slots, 2 * m.tableSize ≤ slots → calloc slots = calloc' slots) :
    hashmapPut hash calloc fuel m key value = hashmapPut hash calloc' fuel m key value := by
  induction fuel generalizing m key value with
  | zero => rfl
  | succ fuel ih =>
    rw [hashmapPut, hashmapPut]
    cases hashmapHash hash m key with
    | some index => rfl
    | none =>
      have hput : ∀ (m₁ : HashmapMap V) key value, m.tableSize ≤ m₁.tableSize →
          hashmapPut hash calloc fuel m₁ key value = hashmapPut hash calloc' fuel m₁ key value :=
        fun m₁ key value hle => ih fun slots hslots => hsame slots (by omega)
      have hrehash : hashmapRehash calloc (hashmapPut hash calloc fuel) m =
          hashmapRehash calloc' (hashmapPut hash calloc' fuel) m := by
        rw [hashmapRehash, hashmapRehash, hsame _ (Nat.le_refl _), moveElements_congr hput]
        rw [tableSize_ofCalloc]
        omega
      rw [← hrehash]
      cases hmoved : hashmapRehash calloc (hashmapPut hash calloc fuel) m with
      | none => rfl
      | some moved =>
        have hkept : Kept calloc (fun m' : HashmapMap V => m.tableSize ≤ m'.tableSize)
            fun _ => True := kept_larger m.tableSize
        have hsize := hkept.of_rehash (fun _ _ _ _ _ => hkept.of_put) (Nat.le_refl _) hmoved
        dsimp only
        rw [hput _ _ _ hsize]

/-- The slots of a table after as many doublings as are granted in a row, up to a number. -/
def doubledSlots (calloc : ℕ → Bool) : ℕ → ℕ → ℕ
  | 0, slots => slots
  | doublings + 1, slots =>
    if calloc (2 * slots) then doubledSlots calloc doublings (2 * slots) else slots

/-- The largest table that is granted: no `int` counts the slots of more than 22 doublings. -/
def largestTable (calloc : ℕ → Bool) (slots : ℕ) : ℕ := doubledSlots calloc 22 slots

theorem grantsUpTo_self {slots : ℕ} (hchain : maxChainLength ≤ slots)
    (hdenied : calloc (2 * slots) = false) : GrantsUpTo calloc slots slots where
  chain_le := hchain
  granted doublings hle := by
    have hpos : 0 < 2 ^ doublings := Nat.two_pow_pos doublings
    have hmore : slots * 2 ≤ slots * 2 ^ (doublings + 1) :=
      Nat.mul_le_mul_left _ (by rw [Nat.pow_succ]; omega)
    have hlength : maxChainLength = 8 := rfl
    omega
  denied := hdenied

theorem doubledSlots_grants (hdenied : calloc (2 * maxTableSize) = false) {doublings above : ℕ}
    (hle : above ≤ doublings) {slots : ℕ} (hchain : maxChainLength ≤ slots)
    (habove : slots * 2 ^ above = maxTableSize) :
    GrantsUpTo calloc slots (doubledSlots calloc doublings slots) ∧
      ∃ level, slots * 2 ^ level = doubledSlots calloc doublings slots := by
  induction doublings generalizing slots above with
  | zero =>
    obtain rfl := Nat.le_zero.mp hle
    rw [Nat.pow_zero, Nat.mul_one] at habove
    exact ⟨grantsUpTo_self hchain (habove ▸ hdenied), 0, Nat.mul_one slots⟩
  | succ doublings ih =>
    rw [doubledSlots]
    cases hgrant : calloc (2 * slots) with
    | false => exact ⟨grantsUpTo_self hchain hgrant, 0, Nat.mul_one slots⟩
    | true =>
      cases above with
      | zero =>
        rw [Nat.pow_zero, Nat.mul_one] at habove
        rw [habove, hdenied] at hgrant
        cases hgrant
      | succ above =>
        have hdoubled (doublings : ℕ) : slots * 2 ^ (doublings + 1) = 2 * slots * 2 ^ doublings := by
          rw [Nat.pow_succ, Nat.mul_comm 2, Nat.mul_assoc, Nat.mul_comm 2]
        obtain ⟨hup, level, hlevel⟩ := ih (Nat.le_of_succ_le_succ hle)
          (Nat.le_trans hchain (Nat.le_mul_of_pos_left _ Nat.two_pos)) (hdoubled above ▸ habove)
        rw [if_pos rfl]
        refine ⟨⟨hchain, ?_, hup.denied⟩, level + 1, (hdoubled level).trans hlevel⟩
        intro asked hasked
        cases asked with
        | zero => rwa [Nat.zero_add, Nat.pow_one, Nat.mul_comm]
        | succ asked =>
          rw [hdoubled] at hasked ⊢
          exact hup.granted asked hasked

theorem levelOf_largestTable (hdenied : calloc (2 * maxTableSize) = false)
    (h : Within initialSize maxTableSize 22 m) :
    GrantsUpTo calloc m.tableSize (largestTable calloc m.tableSize) ∧
      ∃ level, LevelOf m.tableSize (largestTable calloc m.tableSize) m level := by
  obtain ⟨above, hle, hlevel⟩ := h
  have hchain : maxChainLength ≤ m.tableSize := Nat.le_trans (by decide) hlevel.first_le
  obtain ⟨hup, level, hslots⟩ := doubledSlots_grants hdenied hle hchain hlevel.slots
  exact ⟨hup, level, hslots, 0, Nat.mul_one _⟩

end Requests

section Keeps

/-- The first request is denied, or the largest table has a place for each stored key. -/
def MovesFit (hash : DataString → UInt64) (largest : ℕ) (m : HashmapMap V) : Prop :=
  m.tableSize = largest ∨ (m.keys.card < largest / 2 ∧ Uncrowded hash largest m.keys)

theorem put_of_largest (hdenied : calloc (2 * m.tableSize) = false)
    (hhash : hashmapHash hash m key = none) :
    hashmapPut hash calloc 1 m key value = some (m, .omem) := by
  have hrehash : hashmapRehash calloc (hashmapPut hash calloc 0) m = some (m, .omem) :=
    hashmapRehash_eq_some.mpr (Or.inr ⟨hdenied, rfl, rfl⟩)
  exact hashmapPut_eq_some.mpr (Or.inr ⟨hhash, m, .omem, hrehash, Or.inl ⟨rfl, rfl, rfl⟩⟩)

theorem keys_perm (h : m'.elements.Perm m.elements) : m'.keys = m.keys :=
  List.toFinset_eq_of_perm _ _ (h.map _)

/-- Then a put that fails loses nothing: it fails for its own key. -/
theorem put_omem_keeps (hup : GrantsUpTo calloc first largest)
    (hlevel : LevelOf first largest m level) (hm : m.WellFormed hash)
    (hmoves : MovesFit hash largest m)
    (h : hashmapPut hash calloc fuel m key value = some (m', .omem)) :
    m'.WellFormed hash ∧ m'.elements.Perm m.elements := by
  induction fuel generalizing m level value with
  | zero => cases h
  | succ fuel ih =>
    obtain ⟨_, -, -, hstatus⟩ | ⟨hhash, m₁, status₁, hrehash, hnext⟩ := hashmapPut_eq_some.mp h
    · cases hstatus
    · by_cases hsize : m.tableSize = largest
      · cases hashmapPut_unique h (put_of_largest (hsize ▸ hup.denied) hhash)
        exact ⟨hm, List.Perm.refl _⟩
      · obtain ⟨hcard, huncrowded⟩ := hmoves.resolve_left hsize
        cases level with
        | zero => exact absurd hlevel.zero hsize
        | succ level =>
          obtain ⟨fuel', m₂, hmoved, level₁, -, hfresh⟩ := hashmapRehash_succeeds hup
            (fun below _ => putsAt hup huncrowded hcard below) huncrowded hlevel
            (Finset.Subset.refl _)
          cases hashmapRehash_unique hrehash hmoved
          obtain ⟨hstatus, -⟩ | ⟨-, hput⟩ := hnext
          · cases hstatus
          · have hre := hashmapRehash_exact (hashmapPut_exact fuel) hm hrehash
            have hkeys := keys_perm hre.elements
            obtain ⟨hm', hperm⟩ := ih hfresh.levelOf hfresh.wellFormed
              (Or.inr (hkeys ▸ ⟨hcard, huncrowded⟩)) hput
            exact ⟨hm', hperm.trans hre.elements⟩

theorem put_of_not_fits (hup : GrantsUpTo calloc first largest)
    (hlevel : LevelOf first largest m level) (hmoves : MovesFit hash largest m)
    (hfits : ¬ Fits hash largest m key) :
    hashmapPut hash calloc fuel m key value ≠ some (m', .ok) := by
  intro h
  unfold Fits at hfits
  rw [not_or, not_not] at hfits
  obtain ⟨hhash, hfits⟩ := hfits
  rcases hmoves with hsize | ⟨-, huncrowded⟩
  · cases hashmapPut_unique h (put_of_largest (hsize ▸ hup.denied) hhash)
  · exact (fits_of_put hup hlevel huncrowded h).elim (fun hsome => hsome hhash) hfits

end Keeps

section Found
variable {index : ℕ}

theorem get_store (hm : m.WellFormed hash) (h : hashmapHash hash m key = some index) :
    hashmapGet hash (m.store index key value) key = some value := by
  obtain ⟨offset, hoffset, rfl, -, hbefore⟩ := hm.hash_some h
  have hlt := hm.window_lt key offset
  have hhere : (m.store (m.window hash key offset) key value).holds key
      (m.window hash key offset) = true :=
    holds_iff.mpr ⟨⟨key, value⟩, by rw [slot_store hlt, if_pos rfl], rfl⟩
  have hhome : hashmapHashInt hash (m.store (m.window hash key offset) key value) key <
      (m.store (m.window hash key offset) key value).tableSize := by
    rw [hashmapHashInt, tableSize_store]
    exact hm.home_lt key
  have hfind : hashmapFind hash (m.store (m.window hash key offset) key value) key =
      some (m.window hash key offset) := by
    cases hprobe : hashmapFind hash (m.store (m.window hash key offset) key value) key with
    | none =>
      have hnone := (probe_eq_none hhome).mp hprobe offset hoffset
      rw [← window, window_store] at hnone
      exact Bool.noConfusion (hhere.symm.trans hnone)
    | some found =>
      obtain ⟨first, hfirst, rfl, hholds, hfails⟩ := probe_eq_some hhome hprobe
      rw [← window, window_store] at hholds ⊢
      rcases Nat.lt_trichotomy first offset with hless | rfl | hmore
      · have hne : m.window hash key first ≠ m.window hash key offset := by
          intro hsame
          exact absurd (hm.window_injective hfirst hoffset hsame) (Nat.ne_of_lt hless)
        have hpassed := (hbefore first hless).2
        obtain ⟨element, hslot, hkey⟩ := holds_iff.mp hholds
        rw [slot_store hlt, if_neg hne] at hslot
        exact Bool.noConfusion ((holds_iff.mpr ⟨element, hslot, hkey⟩).symm.trans hpassed)
      · rfl
      · have hfail := hfails offset hmore
        rw [← window, window_store] at hfail
        exact Bool.noConfusion (hhere.symm.trans hfail)
  rw [hashmapGet, hfind]
  dsimp only
  rw [slot_store hlt, if_pos rfl]
  rfl

/-- A put that succeeds is seen by the next lookup, also where it leaves the key in use twice. -/
theorem get_of_put (hm : m.WellFormed hash)
    (h : hashmapPut hash calloc fuel m key value = some (m', .ok)) :
    hashmapGet hash m' key = some value := by
  induction fuel generalizing m with
  | zero => cases h
  | succ fuel ih =>
    obtain ⟨index, hindex, rfl, -⟩ | ⟨-, m₁, status₁, hrehash, hnext⟩ := hashmapPut_eq_some.mp h
    · exact get_store hm hindex
    · rcases hnext with ⟨-, -, hstatus⟩ | ⟨hne, hput⟩
      · cases hstatus
      · obtain rfl := (hashmapRehash_status fuel hrehash).resolve_right fun hfail => hne hfail.1
        exact ih (hashmapRehash_exact (hashmapPut_exact fuel) hm hrehash).wellFormed hput

end Found

end Redic.Hashmap
