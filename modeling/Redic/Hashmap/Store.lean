import Redic.Hashmap.Termination
import Redic.SepticTank.KeyStore

/-! # The hash map as the store of the tank

Every doubling takes a table closer to the largest one, so a put returns within a bounded depth of
rehashes, with the key stored or for want of memory. The operations of the tank's store are total
on the tables that they lead to. What this store finds under a key may be a value that another
key has or had, but never one that was not put.
-/
namespace Redic.Hashmap
open HashmapMap

variable {V : Type} {hash : DataString → UInt64} {m m' : HashmapMap V} {key : DataString}
  {value : V}

/-- Assignment to the data of an element through the pointer to it. -/
def HashmapMap.modify (m : HashmapMap V) (index : ℕ) (f : V → V) : HashmapMap V :=
  let assign (element : HashmapElement V) := { element with data := f element.data }
  { m with data := m.data.modify index (Option.map assign) }

section Returns

theorem moveElements_returns {Inv : HashmapMap V → Prop}
    {put : HashmapMap V → DataString → V → Option (HashmapMap V × MapStatus)}
    (hreturns : ∀ m key value, Inv m → ∃ m' status, put m key value = some (m', status) ∧ Inv m')
    (curr : List (Option (HashmapElement V))) (hm : Inv m) :
    ∃ m' status, moveElements put curr m = some (m', status) ∧ Inv m' := by
  induction curr generalizing m with
  | nil => exact ⟨m, .ok, rfl, hm⟩
  | cons occupant curr ih =>
    cases occupant with
    | none => exact ih hm
    | some element =>
      obtain ⟨m₁, status₁, hput, hm₁⟩ := hreturns m element.key element.data hm
      by_cases hstatus : status₁ = .ok
      · obtain ⟨m', status, hmoved, hm'⟩ := ih hm₁
        refine ⟨m', status, ?_, hm'⟩
        exact moveElements_cons_eq_some.mpr ⟨m₁, status₁, hput, Or.inl ⟨hstatus, hmoved⟩⟩
      · refine ⟨m₁, status₁, ?_, hm₁⟩
        exact moveElements_cons_eq_some.mpr ⟨m₁, status₁, hput, Or.inr ⟨hstatus, rfl, rfl⟩⟩

variable {calloc : ℕ → Bool} {first largest : ℕ} (hdenied : calloc (2 * largest) = false)

include hdenied

theorem hashmapRehash_largest
    {put : HashmapMap V → DataString → V → Option (HashmapMap V × MapStatus)}
    (hm : LevelOf first largest m 0) : hashmapRehash calloc put m = some (m, .omem) :=
  hashmapRehash_eq_some.mpr (Or.inr ⟨by rw [hm.zero, hdenied], rfl, rfl⟩)

theorem hashmapRehash_returns {level : ℕ}
    {put : HashmapMap V → DataString → V → Option (HashmapMap V × MapStatus)}
    (hreturns : ∀ m key value, Within first largest level m →
      ∃ m' status, put m key value = some (m', status) ∧ Within first largest level m')
    (hm : Within first largest (level + 1) m) :
    ∃ m' status, hashmapRehash calloc put m = some (m', status) ∧
      (status = .omem ∨ Within first largest level m') := by
  obtain ⟨below, hle, hlevel⟩ := hm
  cases hgrant : calloc (2 * m.tableSize) with
  | false => exact ⟨m, .omem, hashmapRehash_eq_some.mpr (Or.inr ⟨hgrant, rfl, rfl⟩), Or.inl rfl⟩
  | true =>
    obtain ⟨below, rfl⟩ := hlevel.above hdenied hgrant
    have hempty : Within first largest level (ofCalloc (2 * m.tableSize) m.released) :=
      ⟨below, Nat.le_of_succ_le_succ hle, levelOf_ofCalloc hlevel _⟩
    obtain ⟨m', status, hmoved, hm'⟩ := moveElements_returns hreturns m.data hempty
    exact ⟨m', status, hashmapRehash_eq_some.mpr (Or.inl ⟨hgrant, hmoved⟩), Or.inr hm'⟩

/-- A put returns, whatever the keys are: it nests no deeper than the table can be doubled. -/
theorem hashmapPut_returns {level : ℕ} (hm : Within first largest level m) (key : DataString)
    (value : V) : ∃ m' status, hashmapPut hash calloc (level + 1) m key value = some (m', status) ∧
      Within first largest level m' := by
  have hkept : ∀ level, Kept calloc (Within first largest level : HashmapMap V → Prop)
      fun _ => True := kept_within hdenied first
  induction level generalizing m key value with
  | zero =>
    cases hhash : hashmapHash hash m key with
    | some index =>
      refine ⟨_, _, hashmapPut_eq_some.mpr (Or.inl ⟨index, hhash, rfl, rfl⟩), ?_⟩
      exact (hkept 0).store _ _ _ _ hm trivial
    | none =>
      obtain ⟨below, hle, hlevel⟩ := hm
      obtain rfl := Nat.le_zero.mp hle
      have hrehash : hashmapRehash calloc (hashmapPut hash calloc 0) m = some (m, .omem) :=
        hashmapRehash_largest hdenied hlevel
      refine ⟨m, .omem, hashmapPut_eq_some.mpr (Or.inr ⟨hhash, m, .omem, hrehash, ?_⟩), ?_⟩
      · exact Or.inl ⟨rfl, rfl, rfl⟩
      · exact ⟨0, hle, hlevel⟩
  | succ level ih =>
    cases hhash : hashmapHash hash m key with
    | some index =>
      refine ⟨_, _, hashmapPut_eq_some.mpr (Or.inl ⟨index, hhash, rfl, rfl⟩), ?_⟩
      exact (hkept (level + 1)).store _ _ _ _ hm trivial
    | none =>
      obtain ⟨m₁, status₁, hrehash, hwithin⟩ :=
        hashmapRehash_returns hdenied (fun _ key value hm => ih hm key value) hm
      by_cases hstatus : status₁ = .omem
      · refine ⟨m₁, .omem, hashmapPut_eq_some.mpr (Or.inr ⟨hhash, m₁, status₁, hrehash, ?_⟩), ?_⟩
        · exact Or.inl ⟨hstatus, rfl, rfl⟩
        · exact (hkept (level + 1)).of_rehash (fun _ _ _ _ _ => (hkept _).of_put) hm hrehash
      · obtain ⟨m', status, hput, hm'⟩ := ih (hwithin.resolve_left hstatus) key value
        refine ⟨m', status, hashmapPut_eq_some.mpr (Or.inr ⟨hhash, m₁, status₁, hrehash, ?_⟩), ?_⟩
        · exact Or.inr ⟨hstatus, hput⟩
        · exact hm'.mono (Nat.le_succ level)

end Returns

section Values

def HashmapMap.values (m : HashmapMap V) : Set V := {v | ∃ element ∈ m.elements, element.data = v}

theorem mem_values {v : V} :
    v ∈ m.values ↔ ∃ element, some element ∈ m.data ∧ element.data = v := by
  simp only [values, elements, Set.mem_ofPred_eq, List.reduceOption_mem_iff]

theorem values_ofCalloc (slots : ℕ) (released : List (HashmapElement V)) :
    (ofCalloc slots released).values = ∅ := by
  simp [values]

theorem values_store (index : ℕ) : (m.store index key value).values ⊆ insert value m.values := by
  intro v hv
  obtain ⟨element, hmem, rfl⟩ := mem_values.mp hv
  rcases List.mem_or_eq_of_mem_set hmem with hmem | heq
  · exact Set.mem_insert_of_mem _ (mem_values.mpr ⟨element, hmem, rfl⟩)
  · cases heq
    exact Set.mem_insert _ _

theorem values_clear (index : ℕ) : (m.clear index).values ⊆ m.values := by
  intro v hv
  obtain ⟨element, hmem, rfl⟩ := mem_values.mp hv
  rcases List.mem_or_eq_of_mem_set hmem with hmem | heq
  · exact mem_values.mpr ⟨element, hmem, rfl⟩
  · cases heq

theorem values_modify (index : ℕ) (f : V → V) :
    (m.modify index f).values ⊆ m.values ∪ f '' m.values := by
  intro v hv
  obtain ⟨element, hmem, rfl⟩ := mem_values.mp hv
  obtain ⟨other, hother⟩ := List.mem_iff_getElem?.mp hmem
  rw [HashmapMap.modify, List.getElem?_modify] at hother
  obtain ⟨occupant, hoccupant, heq⟩ := Option.map_eq_some_iff.mp hother
  have hdata := List.mem_of_getElem? hoccupant
  by_cases hindex : index = other
  · rw [if_pos hindex] at heq
    obtain ⟨before, rfl, rfl⟩ := Option.map_eq_some_iff.mp heq
    exact Or.inr ⟨before.data, mem_values.mpr ⟨before, hdata, rfl⟩, rfl⟩
  · rw [if_neg hindex] at heq
    subst heq
    exact Or.inl (mem_values.mpr ⟨element, hdata, rfl⟩)

theorem kept_values (calloc : ℕ → Bool) (values : Set V) :
    Kept calloc (fun m : HashmapMap V => m.values ⊆ values) fun v => v ∈ values where
  store m index key value hm hvalue :=
    (values_store index).trans (Set.insert_subset hvalue hm)
  doubled m _ _ := by
    rw [values_ofCalloc]
    exact Set.empty_subset _
  values m hm element hmem := hm ⟨element, hmem, rfl⟩

theorem values_put {calloc : ℕ → Bool} {fuel : ℕ} {status : MapStatus}
    (h : hashmapPut hash calloc fuel m key value = some (m', status)) :
    m'.values ⊆ insert value m.values :=
  (kept_values calloc _).of_put (Set.subset_insert _ _) (Set.mem_insert _ _) h

end Values

/-- A table that puts and removals may lead to, with the entries of the tank. -/
structure HashmapStore where
  map : HashmapMap DataEntry
  within : Within initialSize maxTableSize 22 map

namespace HashmapStore

variable (s : HashmapStore) (key : DataString) (entry : DataEntry)

theorem put_isSome :
    (hashmapPut hashmapKeyHash hashmapCalloc 23 s.map key entry).isSome = true := by
  obtain ⟨map, status, hput, -⟩ := hashmapPut_returns grantsUpTo_hashmapCalloc.denied s.within
    key entry
  rw [hput]
  rfl

/-- The put of the tank, which ignores the status. -/
def put : HashmapStore :=
  let result := (hashmapPut hashmapKeyHash hashmapCalloc 23 s.map key entry).get
    (s.put_isSome key entry)
  ⟨result.1, (kept_within grantsUpTo_hashmapCalloc.denied initialSize 22).of_put s.within trivial
    (Option.some_get _).symm⟩

theorem put_map : ∃ status, hashmapPut hashmapKeyHash hashmapCalloc 23 s.map key entry =
    some ((s.put key entry).map, status) :=
  ⟨_, (Option.some_get (s.put_isSome key entry)).symm⟩

def remove : HashmapStore where
  map := (hashmapRemove hashmapKeyHash s.map key).1
  within := s.within.remove key

def modify (f : DataEntry → DataEntry) : HashmapStore :=
  match hashmapFind hashmapKeyHash s.map key with
  | none => s
  | some index => ⟨s.map.modify index f, s.within.congr (List.length_modify ..)⟩

end HashmapStore

instance : KeyStore HashmapStore where
  hashmapNew := ⟨hashmapNew, 22, Nat.le.refl, levelOf_new⟩
  hashmapGet s key := hashmapGet hashmapKeyHash s.map key
  hashmapPut s key entry := s.put key entry
  hashmapRemove s key := s.remove key
  hashmapModify s key f := s.modify key f

instance : ConservativeStore HashmapStore where
  entries s := s.map.values
  mem_of_get {s key entry} h := by
    change hashmapGet hashmapKeyHash s.map key = some entry at h
    unfold hashmapGet at h
    split at h
    · cases h
    · rename_i index hfind
      obtain ⟨element, hslot, rfl⟩ := Option.map_eq_some_iff.mp h
      exact ⟨element, mem_elements.mpr ⟨index, hslot⟩, rfl⟩
  entries_new := values_ofCalloc _ _
  entries_put s key entry := by
    obtain ⟨status, hput⟩ := s.put_map key entry
    exact values_put hput
  entries_remove s key := by
    change (hashmapRemove hashmapKeyHash s.map key).1.values ⊆ s.map.values
    unfold hashmapRemove
    split
    · exact Set.Subset.refl _
    · exact values_clear _
  entries_modify s key f := by
    change (s.modify key f).map.values ⊆ s.map.values ∪ f '' s.map.values
    unfold HashmapStore.modify
    split
    · exact Set.subset_union_left
    · exact values_modify _ f

/-- The answers of `calloc` in a process that may be short of memory. -/
def scarceCalloc (grants : ℕ → Bool) (slots : ℕ) : Bool := hashmapCalloc slots && grants slots

theorem scarceCalloc_denied (grants : ℕ → Bool) :
    scarceCalloc grants (2 * maxTableSize) = false :=
  denied_of_granted fun _ hgrant => (Bool.and_eq_true_iff.mp hgrant).1

/-- A table of a process in which these requests for slots are granted. No request comes twice
while a key is put, so the answer may depend on the number of slots alone. -/
structure ScarceStore (grants : ℕ → Bool) where
  map : HashmapMap DataEntry
  within : Within initialSize maxTableSize 22 map

namespace ScarceStore

variable {grants : ℕ → Bool} (s : ScarceStore grants) (key : DataString) (entry : DataEntry)

theorem put_isSome :
    (hashmapPut hashmapKeyHash (scarceCalloc grants) 23 s.map key entry).isSome = true := by
  obtain ⟨map, status, hput, -⟩ := hashmapPut_returns (scarceCalloc_denied grants) s.within key
    entry
  rw [hput]
  rfl

/-- The put of the tank, which ignores the status. -/
def put : ScarceStore grants :=
  let result := (hashmapPut hashmapKeyHash (scarceCalloc grants) 23 s.map key entry).get
    (s.put_isSome key entry)
  ⟨result.1, (kept_within (scarceCalloc_denied grants) initialSize 22).of_put s.within trivial
    (Option.some_get _).symm⟩

theorem put_map : ∃ status, hashmapPut hashmapKeyHash (scarceCalloc grants) 23 s.map key entry =
    some ((s.put key entry).map, status) :=
  ⟨_, (Option.some_get (s.put_isSome key entry)).symm⟩

def remove : ScarceStore grants where
  map := (hashmapRemove hashmapKeyHash s.map key).1
  within := s.within.remove key

def modify (f : DataEntry → DataEntry) : ScarceStore grants :=
  match hashmapFind hashmapKeyHash s.map key with
  | none => s
  | some index => ⟨s.map.modify index f, s.within.congr (List.length_modify ..)⟩

end ScarceStore

instance (grants : ℕ → Bool) : KeyStore (ScarceStore grants) where
  hashmapNew := ⟨hashmapNew, 22, Nat.le.refl, levelOf_new⟩
  hashmapGet s key := hashmapGet hashmapKeyHash s.map key
  hashmapPut s key entry := s.put key entry
  hashmapRemove s key := s.remove key
  hashmapModify s key f := s.modify key f

end Redic.Hashmap
