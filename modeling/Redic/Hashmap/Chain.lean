import Mathlib.Data.Fintype.Pigeonhole
import Redic.Hashmap.Invariant

/-! # Chains that fill a window

A chain is a sequence of keys whose homes lie, from some slot on, no further behind than the
place of the key in the sequence. Wherever the keys of a chain are stored in a closed table, they
fill as many slots from there on as they are; and where a window is full in a closed table, a
chain fills it. So a key has no place in a closed table exactly when a chain of other keys ends
in its window, in whatever order they came.
-/
namespace Redic.Hashmap
open ProbeWindow HashmapMap

variable {V : Type} {hash : DataString → UInt64} {m : HashmapMap V} {key : DataString}
  {size start : ℕ} {stored stored' : Finset DataString} {others : List DataString}

/-- The homes of the keys, in a table of the given size, as a chain from a slot on. -/
def ChainFrom (hash : DataString → UInt64) (size start : ℕ) (others : List DataString) : Prop :=
  ∀ place, ∀ h : place < others.length, ∃ behind ≤ place,
    (hash others[place]).toNat ≡ start + behind [MOD size]

/-- Other keys among the given ones form a chain that ends in the last slot of the key's window. -/
def Blocked (hash : DataString → UInt64) (size : ℕ) (stored : Finset DataString)
    (key : DataString) : Prop :=
  ∃ (start extra : ℕ) (others : List DataString), others.Nodup ∧
    (∀ other ∈ others, other ∈ stored ∧ other ≠ key) ∧ ChainFrom hash size start others ∧
    others.length = extra + maxChainLength ∧ (hash key).toNat ≡ start + extra [MOD size]

/-- None of the keys is blocked by the others. -/
def Uncrowded (hash : DataString → UInt64) (size : ℕ) (stored : Finset DataString) : Prop :=
  ∀ key ∈ stored, ¬ Blocked hash size stored key

theorem Blocked.of_dvd {size' : ℕ} (h : Blocked hash size stored key) (hdvd : size' ∣ size) :
    Blocked hash size' stored key := by
  obtain ⟨start, extra, others, hnodup, hmem, hchain, hlen, hkey⟩ := h
  refine ⟨start, extra, others, hnodup, hmem, ?_, hlen, hkey.of_dvd hdvd⟩
  intro place hplace
  obtain ⟨behind, hbehind, hhome⟩ := hchain place hplace
  exact ⟨behind, hbehind, hhome.of_dvd hdvd⟩

theorem Blocked.mono (h : Blocked hash size stored key) (hsub : stored ⊆ stored') :
    Blocked hash size stored' key := by
  obtain ⟨start, extra, others, hnodup, hmem, hrest⟩ := h
  refine ⟨start, extra, others, hnodup, ?_, hrest⟩
  exact fun other hother => ⟨hsub (hmem other hother).1, (hmem other hother).2⟩

/-- The keys whose homes lie where those of a chain would that blocks the key. -/
def around (hash : DataString → UInt64) (size : ℕ) (stored : Finset DataString) (key : DataString)
    (extra : ℕ) : Finset DataString :=
  (stored.erase key).filter fun other =>
    ∃ behind < extra + maxChainLength,
      (hash other).toNat + extra ≡ (hash key).toNat + behind [MOD size]

theorem Blocked.exists_around (h : Blocked hash size stored key) :
    ∃ extra, extra + maxChainLength ≤ (around hash size stored key extra).card := by
  obtain ⟨start, extra, others, hnodup, hmem, hchain, hlen, hhome⟩ := h
  refine ⟨extra, ?_⟩
  rw [← hlen, ← List.toFinset_card_of_nodup hnodup]
  apply Finset.card_le_card
  intro other hother
  rw [List.mem_toFinset] at hother
  obtain ⟨hstored, hne⟩ := hmem other hother
  obtain ⟨place, hplace, rfl⟩ := List.mem_iff_getElem.mp hother
  obtain ⟨behind, hbehind, hother⟩ := hchain place hplace
  refine Finset.mem_filter.mpr ⟨Finset.mem_erase.mpr ⟨hne, hstored⟩, behind, by omega, ?_⟩
  calc (hash others[place]).toNat + extra ≡ start + behind + extra [MOD size] := hother.add_right _
    _ ≡ start + extra + behind [MOD size] := by rw [Nat.add_right_comm]
    _ ≡ (hash key).toNat + behind [MOD size] := hhome.symm.add_right _

theorem not_blocked (h : ∀ extra < stored.card,
    (around hash size stored key extra).card < extra + maxChainLength) :
    ¬ Blocked hash size stored key := by
  intro hblocked
  obtain ⟨extra, hextra⟩ := hblocked.exists_around
  have hsub : around hash size stored key extra ⊆ stored :=
    (Finset.filter_subset _ _).trans (Finset.erase_subset _ _)
  have hcard := Finset.card_le_card hsub
  have hchain : maxChainLength = 8 := rfl
  have hfew := h extra (by omega)
  omega

namespace HashmapMap

def keys (m : HashmapMap V) : Finset DataString := (m.elements.map HashmapElement.key).toFinset

theorem mem_keys : key ∈ m.keys ↔ ∃ element ∈ m.elements, element.key = key := by
  rw [keys, List.mem_toFinset, List.mem_map]

theorem window_modEq (offset : ℕ) :
    m.window hash key offset ≡ (hash key).toNat + offset [MOD m.tableSize] :=
  (Nat.mod_modEq _ _).trans ((Nat.mod_modEq _ _).add_right offset)

theorem window_eq_of_modEq {offset slot : ℕ}
    (h : (hash key).toNat + offset ≡ slot [MOD m.tableSize]) :
    m.window hash key offset = slot % m.tableSize := by
  have hwindow : m.window hash key offset % m.tableSize = m.window hash key offset := by
    rw [window, position, Nat.mod_mod]
  rw [← hwindow]
  exact (window_modEq offset).trans h

namespace WellFormed

theorem size_eq_card (hm : m.WellFormed hash) : m.size = m.keys.card := by
  rw [keys, List.toFinset_card_of_nodup hm.keys_nodup, List.length_map, hm.size_eq]

theorem stored_before (hm : m.WellFormed hash) (hclosed : m.Closed hash)
    (hkey : key ∈ m.keys) {behind free : ℕ} (hbehind : behind ≤ free)
    (hhome : (hash key).toNat ≡ start + behind [MOD m.tableSize])
    (hfree : m.slot ((start + free) % m.tableSize) = none) :
    ∃ place < free, m.holds key ((start + place) % m.tableSize) = true := by
  obtain ⟨element, hmem, rfl⟩ := mem_keys.mp hkey
  obtain ⟨offset, hoffset, hslot⟩ := hm.holds_of_mem hmem
  have hposition (offset : ℕ) : m.window hash element.key offset =
      (start + (behind + offset)) % m.tableSize := by
    apply window_eq_of_modEq
    rw [← Nat.add_assoc]
    exact hhome.add_right offset
  have hholds : m.holds element.key (m.window hash element.key offset) = true :=
    holds_iff.mpr ⟨element, hslot, rfl⟩
  refine ⟨behind + offset, ?_, hposition offset ▸ hholds⟩
  -- a key stored at the free slot or beyond it would have a free slot in front of it
  by_contra hge
  rcases Nat.lt_or_eq_of_le (Nat.not_lt.mp hge) with hlt | heq
  · have hused := hclosed element.key offset hoffset hholds (free - behind) (by omega)
    rw [hposition, Nat.add_sub_cancel' hbehind, hfree] at hused
    cases hused
  · rw [hposition, ← heq, hfree] at hslot
    cases hslot

/-- The keys of a chain fill the slots it starts with: of the first ones up to a free slot, there
would be more than slots for them. -/
theorem chain_fills (hm : m.WellFormed hash) (hclosed : m.Closed hash) (hnodup : others.Nodup)
    (hstored : ∀ other ∈ others, other ∈ m.keys)
    (hchain : ChainFrom hash m.tableSize start others) (free : ℕ) (hfree : free < others.length) :
    (m.slot ((start + free) % m.tableSize)).isSome = true := by
  by_contra hnone
  have hempty : m.slot ((start + free) % m.tableSize) = none := by simpa using hnone
  have hlt (i : Fin (free + 1)) : i.val < others.length := by omega
  have hplace (i : Fin (free + 1)) : ∃ place : Fin free,
      m.holds (others.get ⟨i, hlt i⟩) ((start + place.val) % m.tableSize) = true := by
    obtain ⟨behind, hbehind, hhome⟩ := hchain i.val (hlt i)
    have hmem := hstored _ (others.get_mem ⟨i, hlt i⟩)
    obtain ⟨place, hplace, hholds⟩ := hm.stored_before hclosed hmem
      (Nat.le_trans hbehind (Nat.lt_succ_iff.mp i.isLt)) hhome hempty
    exact ⟨⟨place, hplace⟩, hholds⟩
  choose place hholds using hplace
  obtain ⟨i, j, hne, hsame⟩ := Fintype.exists_ne_map_eq_of_card_lt place (by simp)
  apply hne
  have hkeys : others.get ⟨i, hlt i⟩ = others.get ⟨j, hlt j⟩ := by
    obtain ⟨element, hslot, hkey⟩ := holds_iff.mp (hholds i)
    obtain ⟨element', hslot', hkey'⟩ := holds_iff.mp (hholds j)
    rw [hsame, hslot'] at hslot
    cases hslot
    exact hkey.symm.trans hkey'
  have hindex := List.nodup_iff_injective_get.mp hnodup hkeys
  exact Fin.ext (Fin.mk.inj hindex)

/-- The chain of other keys leaves no slot of the window to the key. -/
theorem full_of_blocked (hm : m.WellFormed hash) (hclosed : m.Closed hash) (hkey : key ∉ m.keys)
    (h : Blocked hash m.tableSize m.keys key) : hashmapHash hash m key = none := by
  obtain ⟨start, extra, others, hnodup, hmem, hchain, hlen, hhome⟩ := h
  by_contra hsome
  obtain ⟨index, hindex⟩ := Option.ne_none_iff_exists'.mp hsome
  obtain ⟨offset, hoffset, rfl, hnone | hholds, -⟩ := hm.hash_some hindex
  · have hslot : m.window hash key offset = (start + (extra + offset)) % m.tableSize := by
      apply window_eq_of_modEq
      rw [← Nat.add_assoc]
      exact hhome.add_right offset
    have hused := hm.chain_fills hclosed hnodup (fun other hother => (hmem other hother).1) hchain
      (extra + offset) (by omega)
    rw [← hslot, hnone] at hused
    cases hused
  · obtain ⟨element, hslot, rfl⟩ := holds_iff.mp hholds
    exact hkey (mem_keys.mpr ⟨element, mem_elements.mpr ⟨_, hslot⟩, rfl⟩)

/-- Going back from a slot of a table that is not full, one meets a first free slot. -/
theorem exists_free_before (hm : m.WellFormed hash) (hroom : m.size < m.tableSize) {home : ℕ}
    (hhome : home < m.tableSize) :
    ∃ back < m.tableSize, m.slot ((home + m.tableSize - 1 - back) % m.tableSize) = none ∧
      ∀ nearer < back,
        (m.slot ((home + m.tableSize - 1 - nearer) % m.tableSize)).isSome = true := by
  have hlen : m.data.reduceOption.length < m.data.length := by
    have hsize := hm.size_eq
    rw [elements] at hsize
    exact hsize ▸ hroom
  obtain ⟨free, hfree, hget⟩ := List.mem_iff_getElem.mp (List.reduceOption_length_lt_iff.mp hlen)
  have hnone : m.slot free = none := (slot_of_lt hfree).trans hget
  have hfree' : free < m.tableSize := hfree
  have hexists : ∃ back, (m.slot ((home + m.tableSize - 1 - back) % m.tableSize)).isNone = true ∧
      back < m.tableSize := by
    by_cases hbefore : free < home
    · refine ⟨home - 1 - free, ?_, by omega⟩
      have hback : home + m.tableSize - 1 - (home - 1 - free) = free + m.tableSize := by omega
      rw [hback, Nat.add_mod_right, Nat.mod_eq_of_lt hfree', hnone]
      rfl
    · refine ⟨home + m.tableSize - 1 - free, ?_, by omega⟩
      have hback : home + m.tableSize - 1 - (home + m.tableSize - 1 - free) = free := by omega
      rw [hback, Nat.mod_eq_of_lt hfree', hnone]
      rfl
  have hfound := Nat.find_spec hexists
  refine ⟨Nat.find hexists, hfound.2, Option.isNone_iff_eq_none.mp hfound.1, ?_⟩
  intro nearer hnearer
  have hused := Nat.find_min hexists hnearer
  rw [not_and, Nat.not_lt] at hused
  by_contra hnot
  have hempty : (m.slot ((home + m.tableSize - 1 - nearer) % m.tableSize)).isNone = true := by
    simpa using hnot
  have hfar := hused hempty
  have hlt := hfound.2
  omega

/-- An element behind a free slot of a closed table has its home behind it as well. -/
theorem home_behind_free (hm : m.WellFormed hash) (hclosed : m.Closed hash) {start place : ℕ}
    {element : HashmapElement V} (hfree : m.slot (start % m.tableSize) = none)
    (hslot : m.slot ((start + 1 + place) % m.tableSize) = some element) :
    ∃ behind ≤ place, (hash element.key).toNat ≡ start + 1 + behind [MOD m.tableSize] := by
  obtain ⟨offset, hoffset, hwindow⟩ := hm.in_window _ element hslot
  have hhome : (hash element.key).toNat + offset ≡ start + 1 + place [MOD m.tableSize] := by
    have hmod : m.window hash element.key offset ≡ (hash element.key).toNat + offset
        [MOD m.tableSize] := window_modEq offset
    rw [← hwindow] at hmod
    exact hmod.symm.trans (Nat.mod_modEq _ _)
  by_cases hle : offset ≤ place
  · refine ⟨place - offset, Nat.sub_le _ _, ?_⟩
    apply Nat.ModEq.add_right_cancel' offset
    have hsum : start + 1 + (place - offset) + offset = start + 1 + place := by omega
    rw [hsum]
    exact hhome
  · -- the free slot would lie in the window in front of the element
    have hearlier : m.window hash element.key (offset - (place + 1)) = start % m.tableSize := by
      apply window_eq_of_modEq
      apply Nat.ModEq.add_right_cancel' (place + 1)
      have hsum : (hash element.key).toNat + (offset - (place + 1)) + (place + 1) =
          (hash element.key).toNat + offset := by omega
      have hsum' : start + (place + 1) = start + 1 + place := by omega
      rw [hsum, hsum']
      exact hhome
    have hholds : m.holds element.key (m.window hash element.key offset) = true :=
      holds_iff.mpr ⟨element, hwindow ▸ hslot, rfl⟩
    have hused := hclosed element.key offset hoffset hholds (offset - (place + 1)) (by omega)
    rw [hearlier, hfree] at hused
    cases hused

/-- In front of a full window the table is in use from some slot on, and what lies there is a
chain of keys that blocks the key. -/
theorem blocked_of_full (hm : m.WellFormed hash) (hclosed : m.Closed hash)
    (hroom : m.size < m.tableSize)
    (hfull : ∀ offset < maxChainLength, m.accepts key (m.window hash key offset) = false) :
    Blocked hash m.tableSize m.keys key := by
  obtain ⟨back, hback, hfree, hbefore⟩ := hm.exists_free_before hroom (hm.home_lt key)
  obtain ⟨free, hfree_eq⟩ : ∃ free, hashmapHashInt hash m key + m.tableSize - 1 - back = free :=
    ⟨_, rfl⟩
  rw [hfree_eq] at hfree
  have hhome : free + 1 + back = hashmapHashInt hash m key + m.tableSize := by
    have hlt := hm.home_lt key
    omega
  have hwindow (offset : ℕ) :
      m.window hash key offset = (free + 1 + (back + offset)) % m.tableSize := by
    rw [← Nat.add_assoc, hhome, Nat.add_right_comm, Nat.add_mod_right]
    rfl
  have hused : ∀ place < back + maxChainLength,
      ∃ element, m.slot ((free + 1 + place) % m.tableSize) = some element ∧
        element.key ≠ key := by
    intro place hplace
    have hsome : (m.slot ((free + 1 + place) % m.tableSize)).isSome = true := by
      by_cases hnear : place < back
      · have hnearer := hbefore (back - (place + 1)) (by omega)
        have hsame : hashmapHashInt hash m key + m.tableSize - 1 - (back - (place + 1)) =
            free + 1 + place := by omega
        rw [hsame] at hnearer
        exact hnearer
      · have hpass := hfull (place - back) (by omega)
        rw [hwindow, Nat.add_sub_cancel' (Nat.not_lt.mp hnear), accepts, Bool.or_eq_false_iff,
          Option.isNone_eq_false_iff] at hpass
        exact hpass.1
    obtain ⟨element, hslot⟩ := Option.isSome_iff_exists.mp hsome
    refine ⟨element, hslot, ?_⟩
    rintro rfl
    obtain ⟨offset, hoffset, hindex⟩ := hm.in_window _ element hslot
    have hpass := hfull offset hoffset
    rw [← hindex, accepts, Bool.or_eq_false_iff] at hpass
    have hholds := holds_iff.mpr ⟨element, hslot, rfl⟩
    exact Bool.noConfusion (hholds.symm.trans hpass.2)
  -- the run of slots does not come round to the free one
  have hshort : back + maxChainLength < m.tableSize := by
    by_contra hlong
    obtain ⟨element, hslot, -⟩ := hused (m.tableSize - 1) (by omega)
    have hround : free + 1 + (m.tableSize - 1) = free + m.tableSize := by omega
    rw [hround, Nat.add_mod_right, hfree] at hslot
    cases hslot
  obtain ⟨first, -⟩ := hused 0 (Nat.add_pos_right _ (by decide))
  have hne : Nonempty (HashmapElement V) := ⟨first⟩
  choose! element hslot hother using hused
  refine ⟨free + 1, back, (List.range (back + maxChainLength)).map fun place =>
    (element place).key, ?_, ?_, ?_, by simp, ?_⟩
  · apply List.Nodup.map_on
    · intro i hi j hj hkeys
      rw [List.mem_range] at hi hj
      have hsame := hm.slot_unique (holds_iff.mpr ⟨_, hslot i hi, rfl⟩)
        (holds_iff.mpr ⟨_, hslot j hj, hkeys.symm⟩)
      have hmod : free + 1 + i ≡ free + 1 + j [MOD m.tableSize] := hsame
      exact (Nat.ModEq.add_left_cancel' _ hmod).eq_of_lt_of_lt (by omega) (by omega)
    · exact List.nodup_range
  · intro other hmem
    obtain ⟨place, hplace, rfl⟩ := List.mem_map.mp hmem
    rw [List.mem_range] at hplace
    exact ⟨mem_keys.mpr ⟨_, mem_elements.mpr ⟨_, hslot place hplace⟩, rfl⟩, hother place hplace⟩
  · intro place hplace
    rw [List.length_map, List.length_range] at hplace
    rw [List.getElem_map, List.getElem_range]
    exact hm.home_behind_free hclosed hfree (hslot place hplace)
  · rw [hhome]
    have hmod : hashmapHashInt hash m key ≡ (hash key).toNat [MOD m.tableSize] := Nat.mod_modEq _ _
    exact hmod.symm.trans (Nat.ModEq.symm (Nat.add_modEq_right))

end WellFormed

end HashmapMap

end Redic.Hashmap
