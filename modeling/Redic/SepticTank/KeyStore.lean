import Mathlib.Data.Finmap
import Redic.Data

/-! # The key store behind the septic tank

The tank reaches its entries only through the operations of `hashmap.h` and through the
entry pointer `hashmap_get` returns. A store type supplies these operations; a lawful one
behaves as a finite map from key bytes to entries.
-/
namespace Redic

/-- The operations of `hashmap.h` the tank calls, on entries. -/
class KeyStore (S : Type) where
  hashmapNew : S
  hashmapGet : S → DataString → Option DataEntry
  hashmapPut : S → DataString → DataEntry → S
  hashmapRemove : S → DataString → S
  /-- Assignment through the pointer that `hashmap_get` handed out. -/
  hashmapModify : S → DataString → (DataEntry → DataEntry) → S

/-- The contract of `hashmap.h`: a finite map. -/
class LawfulKeyStore (S : Type) [KeyStore S] : Prop where
  get_new : ∀ k, KeyStore.hashmapGet (KeyStore.hashmapNew : S) k = none
  get_put : ∀ (s : S) k e k', KeyStore.hashmapGet (KeyStore.hashmapPut s k e) k' =
    if k' = k then some e else KeyStore.hashmapGet s k'
  get_remove : ∀ (s : S) k k', KeyStore.hashmapGet (KeyStore.hashmapRemove s k) k' =
    if k' = k then none else KeyStore.hashmapGet s k'
  get_modify : ∀ (s : S) k f k', KeyStore.hashmapGet (KeyStore.hashmapModify s k f) k' =
    if k' = k then (KeyStore.hashmapGet s k).map f else KeyStore.hashmapGet s k'

attribute [simp] LawfulKeyStore.get_new LawfulKeyStore.get_put LawfulKeyStore.get_remove
  LawfulKeyStore.get_modify

/-- A store that finds an entry right after it was put. -/
class RetentiveStore (S : Type) [KeyStore S] : Prop where
  get_put_self : ∀ (s : S) k e, KeyStore.hashmapGet (KeyStore.hashmapPut s k e) k = some e

instance (S : Type) [KeyStore S] [LawfulKeyStore S] : RetentiveStore S where
  get_put_self s k e := by rw [LawfulKeyStore.get_put, if_pos rfl]

/-- A store that invents no entries. That is less than the contract: keys may be confused. -/
class ConservativeStore (S : Type) [KeyStore S] where
  entries : S → Set DataEntry
  mem_of_get : ∀ {s : S} {k e}, KeyStore.hashmapGet s k = some e → e ∈ entries s
  entries_new : entries KeyStore.hashmapNew = ∅
  entries_put : ∀ (s : S) k e, entries (KeyStore.hashmapPut s k e) ⊆ insert e (entries s)
  entries_remove : ∀ (s : S) k, entries (KeyStore.hashmapRemove s k) ⊆ entries s
  entries_modify : ∀ (s : S) k f,
    entries (KeyStore.hashmapModify s k f) ⊆ entries s ∪ f '' entries s

instance (S : Type) [KeyStore S] [LawfulKeyStore S] : ConservativeStore S where
  entries s := {e | ∃ k, KeyStore.hashmapGet s k = some e}
  mem_of_get h := ⟨_, h⟩
  entries_new := by simp
  entries_put s k e := by
    rintro found ⟨k', h⟩
    rw [LawfulKeyStore.get_put] at h
    split at h
    · cases h
      exact Set.mem_insert _ _
    · exact Set.mem_insert_of_mem _ ⟨k', h⟩
  entries_remove s k := by
    rintro found ⟨k', h⟩
    rw [LawfulKeyStore.get_remove] at h
    split at h
    · cases h
    · exact ⟨k', h⟩
  entries_modify s k f := by
    rintro found ⟨k', h⟩
    rw [LawfulKeyStore.get_modify] at h
    split at h
    · obtain ⟨e, he, rfl⟩ := Option.map_eq_some_iff.mp h
      exact Or.inr ⟨e, ⟨k, he⟩, rfl⟩
    · exact Or.inl ⟨k', h⟩

/-- Finite maps from key bytes to entries. -/
abbrev FiniteStore := Finmap (fun _ : DataString => DataEntry)

instance : KeyStore FiniteStore where
  hashmapNew := ∅
  hashmapGet s k := s.lookup k
  hashmapPut s k e := s.insert k e
  hashmapRemove s k := s.erase k
  hashmapModify s k f :=
    match s.lookup k with
    | none => s
    | some e => s.insert k (f e)

theorem finiteStore_lookup_insert (s : FiniteStore) (k : DataString) (e : DataEntry)
    (k' : DataString) : (s.insert k e).lookup k' = if k' = k then some e else s.lookup k' := by
  by_cases h : k' = k
  · subst h
    rw [if_pos rfl, Finmap.lookup_insert]
  · rw [if_neg h, Finmap.lookup_insert_of_ne _ h]

instance : LawfulKeyStore FiniteStore where
  get_new _ := Finmap.lookup_empty _
  get_put := finiteStore_lookup_insert
  get_remove s k k' := by
    change (s.erase k).lookup k' = if k' = k then none else s.lookup k'
    by_cases h : k' = k
    · subst h
      rw [if_pos rfl, Finmap.lookup_erase]
    · rw [if_neg h, Finmap.lookup_erase_ne h]
  get_modify s k f k' := by
    change (match s.lookup k with | none => s | some e => s.insert k (f e)).lookup k' =
      if k' = k then (s.lookup k).map f else s.lookup k'
    cases hk : s.lookup k with
    | none =>
      by_cases h : k' = k
      · subst h
        simpa using hk
      · simp only [if_neg h]
    | some e => exact finiteStore_lookup_insert s k (f e) k'

end Redic
