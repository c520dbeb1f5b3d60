import Redic.Hashmap.Rehash

/-! # What a rehash keeps in any table

For the elements to survive a rehash the table need not be large enough for a window, nor closed:
a key that is moved is new to the doubled table, so it takes a free slot wherever it is put. The
doubled table may double again and again while it is filled.
-/
namespace Redic.Hashmap
open ProbeWindow HashmapMap

variable {V : Type} {hash : DataString → UInt64} {calloc : ℕ → Bool}

structure HashmapMap.Added (hash : DataString → UInt64) (m : HashmapMap V)
    (element : HashmapElement V) (m' : HashmapMap V) : Prop where
  orderly : m'.Orderly hash
  tableSize_pos : 0 < m'.tableSize
  elements : m'.elements.Perm (element :: m.elements)
  released : m'.released = m.released

structure HashmapMap.Moved (hash : DataString → UInt64) (elements : List (HashmapElement V))
    (released : List (HashmapElement V)) (m' : HashmapMap V) : Prop where
  orderly : m'.Orderly hash
  tableSize_pos : 0 < m'.tableSize
  elements : m'.elements.Perm elements
  released : m'.released = released

def AddsNew (hash : DataString → UInt64)
    (put : HashmapMap V → DataString → V → Option (HashmapMap V × MapStatus)) : Prop :=
  ∀ m m' element, m.Orderly hash → 0 < m.tableSize →
    (∀ other ∈ m.elements, other.key ≠ element.key) →
      put m element.key element.data = some (m', .ok) → m.Added hash element m'

section Store
variable {m : HashmapMap V} {element : HashmapElement V} {index : ℕ}

theorem HashmapMap.Orderly.store (hm : m.Orderly hash) (hpos : 0 < m.tableSize)
    (habsent : ∀ other ∈ m.elements, other.key ≠ element.key)
    (hhash : hashmapHash hash m element.key = some index) :
    m.Added hash element (m.store index element.key element.data) := by
  obtain ⟨offset, hoffset, hindex, -⟩ := hash_some_of_pos hpos hhash
  have hlt : index < m.tableSize := hindex ▸ position_lt (home_lt_of_pos hpos element.key) offset
  have hfree := free_of_absent hpos hhash habsent
  obtain ⟨others, hold, hnew, -⟩ := elements_slot hlt
  rw [hfree, Option.toList_none, List.nil_append] at hold
  have hperm : (m.store index element.key element.data).elements.Perm (element :: m.elements) :=
    (hnew element.key element.data).trans (hold.symm.cons _)
  refine ⟨⟨?_, ?_, ?_⟩, ?_, hperm, ?_⟩
  · rw [hperm.length_eq, List.length_cons, ← hm.size_eq]
    simp [HashmapMap.store, hfree]
  · rw [(hperm.map HashmapElement.key).nodup_iff, List.map_cons, List.nodup_cons]
    refine ⟨?_, hm.keys_nodup⟩
    intro hmem
    obtain ⟨other, hother, hkey⟩ := List.mem_map.mp hmem
    exact habsent other hother hkey
  · intro other found hslot
    rw [window_store]
    rw [slot_store hlt] at hslot
    split at hslot
    · rename_i hother
      cases hslot
      exact ⟨offset, hoffset, hother.trans hindex⟩
    · exact hm.in_window other found hslot
  · rwa [tableSize_store]
  · change m.released ++ (m.slot index).toList = m.released
    rw [hfree, Option.toList_none, List.append_nil]

end Store

section Moves
variable {put : HashmapMap V → DataString → V → Option (HashmapMap V × MapStatus)}
  {m m' : HashmapMap V}

theorem moveElements_adds (hput : AddsNew hash put) (curr : List (Option (HashmapElement V)))
    (hm : m.Orderly hash) (hpos : 0 < m.tableSize)
    (hnodup : ((m.elements ++ curr.reduceOption).map HashmapElement.key).Nodup)
    (h : moveElements put curr m = some (m', .ok)) :
    HashmapMap.Moved hash (m.elements ++ curr.reduceOption) m.released m' := by
  have hmoved := moveElements_perm (fun m => m.Orderly hash ∧ 0 < m.tableSize) ?_ curr
    ⟨hm, hpos⟩ hnodup h
  · exact ⟨hmoved.1.1, hmoved.1.2, hmoved.2.1, hmoved.2.2⟩
  · rintro m m' element ⟨hm, hpos⟩ habsent hstep
    have hadded := hput m m' element hm hpos habsent hstep
    exact ⟨⟨hadded.orderly, hadded.tableSize_pos⟩, hadded.elements, hadded.released⟩

theorem hashmapRehash_moves (hput : AddsNew hash put) (hm : m.Orderly hash)
    (hpos : 0 < m.tableSize) (h : hashmapRehash calloc put m = some (m', .ok)) :
    HashmapMap.Moved hash m.elements m.released m' := by
  obtain ⟨-, h⟩ | ⟨-, -, hstatus⟩ := hashmapRehash_eq_some.mp h
  · have hdoubled : 0 < (ofCalloc (2 * m.tableSize) m.released).tableSize := by
      rw [tableSize_ofCalloc]
      omega
    have hmoved := moveElements_adds hput m.data (orderly_ofCalloc _ m.released) hdoubled
      (by rw [elements_ofCalloc, List.nil_append]; exact hm.keys_nodup) h
    rwa [elements_ofCalloc, List.nil_append] at hmoved
  · cases hstatus

end Moves

/-- By induction on the fuel, through the rehashes that are nested in the moves of a rehash. -/
theorem hashmapPut_adds (fuel : ℕ) : AddsNew (V := V) hash (hashmapPut hash calloc fuel) := by
  induction fuel with
  | zero =>
    intro m m' element _ _ _ h
    cases h
  | succ fuel ih =>
    intro m m' element hm hpos habsent h
    obtain ⟨index, hhash, rfl, -⟩ | ⟨-, m₁, status, hrehash, hnext⟩ := hashmapPut_eq_some.mp h
    · exact hm.store hpos habsent hhash
    · rcases hnext with ⟨-, -, homem⟩ | ⟨hstatus, hput⟩
      · cases homem
      · obtain rfl := (hashmapRehash_status fuel hrehash).resolve_right fun hfail => hstatus hfail.1
        have hmoved := hashmapRehash_moves ih hm hpos hrehash
        have habsent₁ : ∀ other ∈ m₁.elements, other.key ≠ element.key :=
          fun other hother => habsent other (hmoved.elements.mem_iff.mp hother)
        have hadded := ih m₁ m' element hmoved.orderly hmoved.tableSize_pos habsent₁ hput
        exact ⟨hadded.orderly, hadded.tableSize_pos,
          hadded.elements.trans (hmoved.elements.cons element),
          hadded.released.trans hmoved.released⟩

theorem hashmapRehash_empty
    {put : HashmapMap V → DataString → V → Option (HashmapMap V × MapStatus)}
    {m m' : HashmapMap V} (hm : m.Orderly hash) (hzero : m.tableSize = 0)
    (h : hashmapRehash calloc put m = some (m', .ok)) : m' = m := by
  have hdata : m.data = [] := List.length_eq_zero_iff.mp hzero
  have hsize : m.size = 0 := by
    rw [hm.size_eq, HashmapMap.elements, hdata]
    rfl
  obtain ⟨-, h⟩ | ⟨-, -, hstatus⟩ := hashmapRehash_eq_some.mp h
  · rw [hdata, hzero] at h
    cases h
    obtain ⟨data, size, released⟩ := m
    cases hdata
    cases hsize
    rfl
  · cases hstatus

/-- A rehash that reports success leaves an orderly table with the same elements: it answers every
lookup as before, counts as many, and released nothing. -/
theorem hashmapRehash_preserves (hash : DataString → UInt64) (calloc : ℕ → Bool) (fuel : ℕ)
    {m m' : HashmapMap V} (hm : m.Orderly hash)
    (h : hashmapRehash calloc (hashmapPut hash calloc fuel) m = some (m', .ok)) :
    m'.Orderly hash ∧ m'.size = m.size ∧ m'.elements.Perm m.elements ∧
      (∀ key, hashmapGet hash m' key = hashmapGet hash m key) ∧ m'.released = m.released := by
  rcases Nat.eq_zero_or_pos m.tableSize with hzero | hpos
  · obtain rfl := hashmapRehash_empty hm hzero h
    exact ⟨hm, rfl, List.Perm.refl _, fun _ => rfl, rfl⟩
  · have hmoved := hashmapRehash_moves (hashmapPut_adds fuel) hm hpos h
    refine ⟨hmoved.orderly, ?_, hmoved.elements, ?_, hmoved.released⟩
    · rw [hmoved.orderly.size_eq, hm.size_eq]
      exact hmoved.elements.length_eq
    · intro key
      refine Option.ext ?_
      intro value
      rw [hmoved.orderly.get_eq_some hmoved.tableSize_pos, hm.get_eq_some hpos]
      exact hmoved.elements.mem_iff

/-- In the doubled table the key from the first slot is moved before the others and takes a slot of
theirs, and the last of them doubles the table once more. -/
theorem hashmapRehash_preserves_crowd :
    let calloc : ℕ → Bool := fun _ => true
    ∃ m m' : HashmapMap ℕ, m.tableSize = 256 ∧ m.slot 0 = some ⟨[97, 118, 100], 8⟩ ∧
      hashmapRehash calloc (hashmapPut hashmapKeyHash calloc 2) m = some (m', .ok) ∧
      m'.tableSize = 1024 ∧ m'.Orderly hashmapKeyHash ∧ m'.size = m.size ∧
      m'.elements.Perm m.elements ∧
      (∀ key, hashmapGet hashmapKeyHash m' key = hashmapGet hashmapKeyHash m key) ∧
      m'.released = m.released := by
  intro calloc
  have hrun : ((EventRun.run (storeElement hashmapKeyHash) hashmapNew
      (crowd.zipWith HashmapElement.mk (List.range 9))).bind fun m =>
        (hashmapRehash calloc (hashmapPut hashmapKeyHash calloc 2) m).map fun rehashed =>
          (m.tableSize, m.slot 0, rehashed.1.tableSize, rehashed.2)) =
      some (256, some ⟨[97, 118, 100], 8⟩, 1024, .ok) := by
    decide +kernel
  obtain ⟨m, hm, hrun⟩ := Option.bind_eq_some_iff.mp hrun
  obtain ⟨⟨m', status⟩, hrehash, heq⟩ := Option.map_eq_some_iff.mp hrun
  simp only [Prod.mk.injEq] at heq
  obtain ⟨hsize, hslot, hsize', rfl⟩ := heq
  have horderly := (run_storeElement hm).wellFormed.orderly
  exact ⟨m, m', hsize, hslot, hrehash, hsize',
    hashmapRehash_preserves hashmapKeyHash calloc 2 horderly hrehash⟩

end Redic.Hashmap
