import Mathlib.Data.List.GetD
import Redic.Hashmap.Hashmap

/-! # The invariant of the table

Every element in use lies within eight positions of its home, no key is in use twice, and the
size counts the elements in use. Nothing keeps a removal from leaving a free slot in front of an
element; a table without such holes is closed. Under the invariant a put of a key is exact when
no free slot lies in front of the slot that holds the key, or when the table is about to double.
-/
namespace Redic.Hashmap
open ProbeWindow

variable {V : Type}

namespace HashmapMap

def elements (m : HashmapMap V) : List (HashmapElement V) := m.data.reduceOption

/-- The position `offset` steps after the home of the key. -/
def window (hash : DataString → UInt64) (m : HashmapMap V) (key : DataString) (offset : ℕ) : ℕ :=
  position m.tableSize (hashmapHashInt hash m key) offset

structure WellFormed (hash : DataString → UInt64) (m : HashmapMap V) : Prop where
  chain_le : maxChainLength ≤ m.tableSize
  size_eq : m.size = m.elements.length
  keys_nodup : (m.elements.map HashmapElement.key).Nodup
  in_window : ∀ index element, m.slot index = some element →
    ∃ offset < maxChainLength, index = m.window hash element.key offset

/-- The part of the invariant that says nothing of how large the table is. -/
structure Orderly (hash : DataString → UInt64) (m : HashmapMap V) : Prop where
  size_eq : m.size = m.elements.length
  keys_nodup : (m.elements.map HashmapElement.key).Nodup
  in_window : ∀ index element, m.slot index = some element →
    ∃ offset < maxChainLength, index = m.window hash element.key offset

/-- No free slot lies in the key's window in front of a slot that holds the key. -/
def ClosedAt (hash : DataString → UInt64) (m : HashmapMap V) (key : DataString) : Prop :=
  ∀ offset < maxChainLength, m.holds key (m.window hash key offset) = true →
    ∀ earlier < offset, (m.slot (m.window hash key earlier)).isSome = true

def Closed (hash : DataString → UInt64) (m : HashmapMap V) : Prop := ∀ key, m.ClosedAt hash key

/-- The condition on the table under which a put of the key is exact. -/
def PutSafe (hash : DataString → UInt64) (m : HashmapMap V) (key : DataString) : Prop :=
  m.tableSize / 2 ≤ m.size ∨ m.ClosedAt hash key

def upsert (key : DataString) (value : V) (elements : List (HashmapElement V)) :
    List (HashmapElement V) :=
  ⟨key, value⟩ :: elements.filter fun element => element.key ≠ key

variable {hash : DataString → UInt64} {m : HashmapMap V} {key : DataString} {value : V}
  {index : ℕ} {element : HashmapElement V}

theorem slot_of_lt (h : index < m.tableSize) : m.slot index = m.data.get ⟨index, h⟩ :=
  List.getD_eq_getElem _ _ h

theorem lt_of_slot (h : m.slot index = some element) : index < m.tableSize := by
  by_contra hge
  rw [slot, List.getD_eq_default _ _ (Nat.not_lt.mp hge)] at h
  cases h

theorem mem_elements : element ∈ m.elements ↔ ∃ index, m.slot index = some element := by
  rw [elements, List.reduceOption_mem_iff, List.mem_iff_getElem]
  constructor
  · rintro ⟨index, hlt, hget⟩
    exact ⟨index, (slot_of_lt hlt).trans hget⟩
  · rintro ⟨index, hslot⟩
    have hlt := lt_of_slot hslot
    exact ⟨index, hlt, (slot_of_lt hlt).symm.trans hslot⟩

theorem holds_iff : m.holds key index = true ↔
    ∃ element, m.slot index = some element ∧ element.key = key := by
  unfold holds
  cases m.slot index <;> simp

theorem accepts_iff : m.accepts key index = true ↔
    m.slot index = none ∨ m.holds key index = true := by
  simp [accepts]

theorem slot_set (data : List (Option (HashmapElement V))) (size : ℕ)
    (released : List (HashmapElement V)) (occupant : Option (HashmapElement V))
    (h : index < data.length) (other : ℕ) :
    (HashmapMap.mk (data.set index occupant) size released).slot other =
      if other = index then occupant else data.getD other none := by
  rw [slot, List.getD_eq_getElem?_getD, List.getElem?_set, List.getD_eq_getElem?_getD]
  by_cases hother : index = other
  · subst hother
    simp [h]
  · simp [hother, Ne.symm hother]

theorem slot_store (h : index < m.tableSize) (other : ℕ) :
    (m.store index key value).slot other =
      if other = index then some ⟨key, value⟩ else m.slot other :=
  slot_set _ _ _ _ h other

theorem slot_clear (h : index < m.tableSize) (other : ℕ) :
    (m.clear index).slot other = if other = index then none else m.slot other :=
  slot_set _ _ _ _ h other

@[simp] theorem tableSize_store : (m.store index key value).tableSize = m.tableSize := by
  simp [store, tableSize]

@[simp] theorem tableSize_clear : (m.clear index).tableSize = m.tableSize := by
  simp [clear, tableSize]

@[simp] theorem window_store {other : DataString} :
    (m.store index key value).window hash other = m.window hash other := by
  funext offset
  simp [window, hashmapHashInt]

@[simp] theorem window_clear {other : DataString} :
    (m.clear index).window hash other = m.window hash other := by
  funext offset
  simp [window, hashmapHashInt]

theorem elements_slot (h : index < m.tableSize) : ∃ others,
    m.elements.Perm ((m.slot index).toList ++ others) ∧
      (∀ key value, (m.store index key value).elements.Perm (⟨key, value⟩ :: others)) ∧
      (m.clear index).elements.Perm others := by
  refine ⟨(m.data.eraseIdx index).reduceOption, ?_, ?_, ?_⟩
  · rw [slot_of_lt h]
    exact (reduceOption_set h none).1
  · intro key value
    exact (reduceOption_set h (some ⟨key, value⟩)).2
  · exact (reduceOption_set h none).2

theorem filter_key_ne {elements others : List (HashmapElement V)}
    (hperm : elements.Perm (element :: others))
    (hnodup : (elements.map HashmapElement.key).Nodup) :
    (elements.filter fun other => other.key ≠ element.key).Perm others := by
  have hnodup' := (hperm.map HashmapElement.key).nodup_iff.mp hnodup
  rw [List.map_cons, List.nodup_cons] at hnodup'
  have hfilter := hperm.filter fun other => other.key ≠ element.key
  have hothers : others.filter (fun other => other.key ≠ element.key) = others := by
    refine List.filter_eq_self.mpr ?_
    intro other hother
    exact decide_eq_true (fun he => hnodup'.1 (he ▸ List.mem_map_of_mem hother))
  rw [List.filter_cons_of_neg (by simp), hothers] at hfilter
  exact hfilter

theorem upsert_nodup {elements : List (HashmapElement V)}
    (h : (elements.map HashmapElement.key).Nodup) :
    ((upsert key value elements).map HashmapElement.key).Nodup := by
  rw [upsert, List.map_cons, List.nodup_cons]
  refine ⟨?_, h.sublist (List.filter_sublist.map _)⟩
  intro hmem
  obtain ⟨element, helement, hkey⟩ := List.mem_map.mp hmem
  exact of_decide_eq_true (List.mem_filter.mp helement).2 hkey

section Positive

theorem home_lt_of_pos (hpos : 0 < m.tableSize) (key : DataString) :
    hashmapHashInt hash m key < m.tableSize := Nat.mod_lt _ hpos

theorem find_some_of_pos (hpos : 0 < m.tableSize) (h : hashmapFind hash m key = some index) :
    ∃ element, m.slot index = some element ∧ element.key = key := by
  obtain ⟨offset, -, -, hholds, -⟩ := probe_eq_some (home_lt_of_pos hpos key) h
  exact holds_iff.mp hholds

theorem hash_some_of_pos (hpos : 0 < m.tableSize) (h : hashmapHash hash m key = some index) :
    ∃ offset < maxChainLength, index = m.window hash key offset ∧
      (m.slot index = none ∨ m.holds key index = true) ∧
      ∀ earlier < offset, (m.slot (m.window hash key earlier)).isSome = true ∧
        m.holds key (m.window hash key earlier) = false := by
  unfold hashmapHash at h
  split at h
  · cases h
  · obtain ⟨offset, hoffset, hindex, haccepts, hbefore⟩ := probe_eq_some (home_lt_of_pos hpos key) h
    refine ⟨offset, hoffset, hindex, accepts_iff.mp haccepts, ?_⟩
    intro earlier hearlier
    have hpass : m.accepts key (m.window hash key earlier) = false := hbefore earlier hearlier
    unfold accepts at hpass
    rw [Bool.or_eq_false_iff, Option.isNone_eq_false_iff] at hpass
    exact hpass

theorem free_of_absent (hpos : 0 < m.tableSize) (h : hashmapHash hash m key = some index)
    (habsent : ∀ element ∈ m.elements, element.key ≠ key) : m.slot index = none := by
  obtain ⟨-, -, -, hfree | hholds, -⟩ := hash_some_of_pos hpos h
  · exact hfree
  · obtain ⟨element, hslot, hkey⟩ := holds_iff.mp hholds
    exact absurd hkey (habsent element (mem_elements.mpr ⟨index, hslot⟩))

end Positive

namespace Orderly

theorem holds_of_mem (hm : m.Orderly hash) (h : element ∈ m.elements) :
    ∃ offset < maxChainLength,
      m.slot (m.window hash element.key offset) = some element := by
  obtain ⟨index, hslot⟩ := mem_elements.mp h
  obtain ⟨offset, hoffset, rfl⟩ := hm.in_window index element hslot
  exact ⟨offset, hoffset, hslot⟩

theorem find_none (hm : m.Orderly hash) (hpos : 0 < m.tableSize) :
    hashmapFind hash m key = none ↔ ∀ element ∈ m.elements, element.key ≠ key := by
  rw [hashmapFind, probe_eq_none (home_lt_of_pos hpos key)]
  constructor
  · intro h element hmem hkey
    subst hkey
    obtain ⟨offset, hoffset, hslot⟩ := hm.holds_of_mem hmem
    have hholds : m.holds element.key (m.window hash element.key offset) = true :=
      holds_iff.mpr ⟨element, hslot, rfl⟩
    exact Bool.noConfusion (hholds.symm.trans (h offset hoffset))
  · intro h offset hoffset
    refine Bool.eq_false_iff.mpr ?_
    intro hholds
    obtain ⟨element, hslot, hkey⟩ := holds_iff.mp hholds
    exact h element (mem_elements.mpr ⟨_, hslot⟩) hkey

theorem get_eq_some (hm : m.Orderly hash) (hpos : 0 < m.tableSize) :
    hashmapGet hash m key = some value ↔ ⟨key, value⟩ ∈ m.elements := by
  unfold hashmapGet
  cases hfind : hashmapFind hash m key with
  | none =>
    constructor
    · intro h
      cases h
    · intro h
      exact absurd rfl ((hm.find_none hpos).mp hfind _ h)
  | some index =>
    obtain ⟨element, hslot, hkey⟩ := find_some_of_pos hpos hfind
    have hmem : element ∈ m.elements := mem_elements.mpr ⟨index, hslot⟩
    simp only [hslot, Option.map_some, Option.some_inj]
    subst hkey
    constructor
    · rintro rfl
      exact hmem
    · intro h
      rw [List.inj_on_of_nodup_map hm.keys_nodup hmem h rfl]

theorem wellFormed (hm : m.Orderly hash) (h : maxChainLength ≤ m.tableSize) :
    m.WellFormed hash := ⟨h, hm.size_eq, hm.keys_nodup, hm.in_window⟩

end Orderly

namespace WellFormed

theorem orderly (hm : m.WellFormed hash) : m.Orderly hash :=
  ⟨hm.size_eq, hm.keys_nodup, hm.in_window⟩

theorem tableSize_pos (hm : m.WellFormed hash) : 0 < m.tableSize :=
  Nat.lt_of_lt_of_le (by decide) hm.chain_le

theorem home_lt (hm : m.WellFormed hash) (key : DataString) :
    hashmapHashInt hash m key < m.tableSize := home_lt_of_pos hm.tableSize_pos key

theorem window_lt (hm : m.WellFormed hash) (key : DataString) (offset : ℕ) :
    m.window hash key offset < m.tableSize := position_lt (hm.home_lt key) offset

theorem window_injective (hm : m.WellFormed hash) {a b : ℕ} (ha : a < maxChainLength)
    (hb : b < maxChainLength) (h : m.window hash key a = m.window hash key b) : a = b :=
  position_injective (Nat.lt_of_lt_of_le ha hm.chain_le) (Nat.lt_of_lt_of_le hb hm.chain_le) h

theorem holds_of_mem (hm : m.WellFormed hash) (h : element ∈ m.elements) :
    ∃ offset < maxChainLength,
      m.slot (m.window hash element.key offset) = some element := hm.orderly.holds_of_mem h

theorem find_none (hm : m.WellFormed hash) :
    hashmapFind hash m key = none ↔ ∀ element ∈ m.elements, element.key ≠ key :=
  hm.orderly.find_none hm.tableSize_pos

theorem find_some (hm : m.WellFormed hash) (h : hashmapFind hash m key = some index) :
    ∃ element, m.slot index = some element ∧ element.key = key :=
  find_some_of_pos hm.tableSize_pos h

theorem get_eq_some (hm : m.WellFormed hash) :
    hashmapGet hash m key = some value ↔ ⟨key, value⟩ ∈ m.elements :=
  hm.orderly.get_eq_some hm.tableSize_pos

theorem slot_unique (hm : m.WellFormed hash) {i j : ℕ}
    (hi : m.holds key i = true) (hj : m.holds key j = true) : i = j := by
  by_contra hne
  obtain ⟨element, hslot, rfl⟩ := holds_iff.mp hi
  obtain ⟨other, hother, hkey⟩ := holds_iff.mp hj
  have hlt := lt_of_slot hslot
  obtain ⟨others, hold, -, hclear⟩ := elements_slot hlt
  rw [hslot] at hold
  have hmem : other ∈ (m.clear i).elements := by
    refine mem_elements.mpr ⟨j, ?_⟩
    rw [slot_clear hlt, if_neg (Ne.symm hne), hother]
  have hfiltered := (hclear.trans (filter_key_ne hold hm.keys_nodup).symm).mem_iff.mp hmem
  exact of_decide_eq_true (List.mem_filter.mp hfiltered).2 hkey

theorem hash_some (hm : m.WellFormed hash) (h : hashmapHash hash m key = some index) :
    ∃ offset < maxChainLength, index = m.window hash key offset ∧
      (m.slot index = none ∨ m.holds key index = true) ∧
      ∀ earlier < offset, (m.slot (m.window hash key earlier)).isSome = true ∧
        m.holds key (m.window hash key earlier) = false := hash_some_of_pos hm.tableSize_pos h

/-- A free slot is only chosen for a key that is not in use. -/
theorem absent_of_free (hm : m.WellFormed hash) (h : hashmapHash hash m key = some index)
    (hclosed : m.ClosedAt hash key) (hfree : m.slot index = none) :
    ∀ element ∈ m.elements, element.key ≠ key := by
  intro element hmem hkey
  subst hkey
  obtain ⟨offset, -, rfl, -, hbefore⟩ := hm.hash_some h
  obtain ⟨stored, hstored, hslot⟩ := hm.holds_of_mem hmem
  have hholds : m.holds element.key (m.window hash element.key stored) = true :=
    holds_iff.mpr ⟨element, hslot, rfl⟩
  rcases Nat.lt_trichotomy stored offset with hlt | heq | hgt
  · have hpassed := (hbefore stored hlt).2
    exact Bool.noConfusion (hholds.symm.trans hpassed)
  · subst heq
    rw [hfree] at hslot
    cases hslot
  · have hused := hclosed stored hstored hholds offset hgt
    rw [hfree] at hused
    cases hused

theorem store_elements (hm : m.WellFormed hash) (h : hashmapHash hash m key = some index)
    (hclosed : m.ClosedAt hash key) :
    (m.store index key value).elements.Perm (upsert key value m.elements) := by
  obtain ⟨offset, -, hindex, haccepts, -⟩ := hm.hash_some h
  have hlt : index < m.tableSize := hindex ▸ hm.window_lt key offset
  obtain ⟨others, hold, hnew, -⟩ := elements_slot hlt
  refine (hnew key value).trans (List.Perm.cons _ ?_)
  cases hslot : m.slot index with
  | none =>
    have habsent := hm.absent_of_free h hclosed hslot
    have hfilter : m.elements.filter (fun element => element.key ≠ key) = m.elements :=
      List.filter_eq_self.mpr fun element hmem => decide_eq_true (habsent element hmem)
    rw [hslot] at hold
    rw [hfilter]
    exact hold.symm
  | some element =>
    rw [hslot] at hold haccepts
    have hkey : element.key = key := by
      rcases haccepts with hnone | hholds
      · cases hnone
      · obtain ⟨element', hslot', hkey⟩ := holds_iff.mp hholds
        rw [hslot] at hslot'
        cases hslot'
        exact hkey
    subst hkey
    exact (filter_key_ne hold hm.keys_nodup).symm

theorem store (hm : m.WellFormed hash) (h : hashmapHash hash m key = some index)
    (hclosed : m.ClosedAt hash key) : (m.store index key value).WellFormed hash := by
  obtain ⟨offset, hoffset, hindex, -, -⟩ := hm.hash_some h
  have hlt : index < m.tableSize := hindex ▸ hm.window_lt key offset
  have hperm : (m.store index key value).elements.Perm (upsert key value m.elements) :=
    hm.store_elements h hclosed
  obtain ⟨others, hold, hnew, -⟩ := elements_slot hlt
  constructor
  · rw [tableSize_store]
    exact hm.chain_le
  · have hlen := hold.length_eq
    rw [(hnew key value).length_eq, List.length_cons]
    rw [List.length_append, ← hm.size_eq] at hlen
    cases hslot : m.slot index <;>
      simp only [HashmapMap.store, hslot, Option.isSome, Option.toList, List.length_nil,
        List.length_cons] at hlen ⊢ <;> simp <;> omega
  · exact (hperm.map _).nodup_iff.mpr (upsert_nodup hm.keys_nodup)
  · intro other element hslot
    rw [slot_store hlt] at hslot
    split at hslot
    · rename_i hother
      cases hslot
      exact ⟨offset, hoffset, by rw [window_store, hother, hindex]⟩
    · rw [window_store]
      exact hm.in_window other element hslot

theorem store_closed (hm : m.WellFormed hash) (h : hashmapHash hash m key = some index)
    (hclosed : m.Closed hash) : (m.store index key value).Closed hash := by
  obtain ⟨offset, hoffset, hindex, -, hbefore⟩ := hm.hash_some h
  have hlt : index < m.tableSize := hindex ▸ hm.window_lt key offset
  have hused (other : ℕ) (hother : (m.slot other).isSome = true) :
      ((m.store index key value).slot other).isSome = true := by
    rw [slot_store hlt]
    split
    · rfl
    · exact hother
  intro key' stored hstored hholds earlier hearlier
  rw [window_store] at hholds ⊢
  refine hused _ ?_
  obtain ⟨element, hslot, hkey⟩ := holds_iff.mp hholds
  rw [slot_store hlt] at hslot
  split at hslot
  · rename_i hhere
    cases hslot
    subst hkey
    have hsame := hm.window_injective hstored hoffset (hhere.trans hindex)
    subst hsame
    exact (hbefore earlier hearlier).1
  · exact hclosed key' stored hstored (holds_iff.mpr ⟨element, hslot, hkey⟩) earlier hearlier

/-- A removal keeps the invariant, but not the table closed. -/
theorem remove (hm : m.WellFormed hash) (key : DataString) :
    (hashmapRemove hash m key).1.WellFormed hash ∧
      (hashmapRemove hash m key).1.elements.Perm
        (m.elements.filter fun element => element.key ≠ key) := by
  unfold hashmapRemove
  cases hfind : hashmapFind hash m key with
  | none =>
    have habsent := hm.find_none.mp hfind
    refine ⟨hm, ?_⟩
    rw [List.filter_eq_self.mpr fun element hmem => decide_eq_true (habsent element hmem)]
  | some index =>
    obtain ⟨element, hslot, hkey⟩ := hm.find_some hfind
    subst hkey
    have hlt := lt_of_slot hslot
    obtain ⟨others, hold, -, hclear⟩ := elements_slot hlt
    rw [hslot] at hold
    have hperm := hclear.trans (filter_key_ne hold hm.keys_nodup).symm
    refine ⟨⟨?_, ?_, ?_, ?_⟩, hperm⟩
    · rw [tableSize_clear]
      exact hm.chain_le
    · have hlen := hold.length_eq
      rw [Option.toList_some, List.singleton_append, List.length_cons, ← hm.size_eq] at hlen
      change m.size - 1 = _
      rw [hclear.length_eq, hlen]
      rfl
    · exact (hperm.map _).nodup_iff.mpr (hm.keys_nodup.sublist (List.filter_sublist.map _))
    · intro other element' hslot'
      rw [slot_clear hlt] at hslot'
      split at hslot'
      · cases hslot'
      · rw [window_clear]
        exact hm.in_window other element' hslot'

end WellFormed

@[simp] theorem elements_ofCalloc (slots : ℕ) (released : List (HashmapElement V)) :
    (ofCalloc slots released).elements = [] := by
  rw [List.eq_nil_iff_forall_not_mem]
  intro element hmem
  obtain hreplicate := List.reduceOption_mem_iff.mp hmem
  cases List.eq_of_mem_replicate hreplicate

theorem slot_ofCalloc (slots : ℕ) (released : List (HashmapElement V)) (index : ℕ) :
    (ofCalloc slots released).slot index = none := by
  cases hslot : (ofCalloc slots released).slot index with
  | none => rfl
  | some element =>
    have hmem := mem_elements.mpr ⟨index, hslot⟩
    rw [elements_ofCalloc] at hmem
    cases hmem

@[simp] theorem tableSize_ofCalloc (slots : ℕ) (released : List (HashmapElement V)) :
    (ofCalloc slots released).tableSize = slots := List.length_replicate

theorem orderly_ofCalloc (slots : ℕ) (released : List (HashmapElement V)) :
    (ofCalloc slots released).Orderly hash := by
  constructor
  · rw [elements_ofCalloc]
    rfl
  · rw [elements_ofCalloc]
    exact List.nodup_nil
  · intro index element hslot
    rw [slot_ofCalloc] at hslot
    cases hslot

theorem wellFormed_ofCalloc {slots : ℕ} (h : maxChainLength ≤ slots)
    (released : List (HashmapElement V)) : (ofCalloc slots released).WellFormed hash :=
  (orderly_ofCalloc slots released).wellFormed (by rwa [tableSize_ofCalloc])

theorem closed_ofCalloc (slots : ℕ) (released : List (HashmapElement V)) :
    (ofCalloc slots released).Closed hash := by
  intro key offset _ hholds
  obtain ⟨element, hslot, -⟩ := holds_iff.mp hholds
  rw [slot_ofCalloc] at hslot
  cases hslot

end HashmapMap

end Redic.Hashmap
