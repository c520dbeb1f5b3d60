import Mathlib.Data.Finmap
import Redic.Foundation.EventRun
import Redic.Hashmap.Rehash

/-! # The hash map against a finite map

The contract compares every lookup and the length with a finite map after the same calls. It
holds through a run as long as every put is safe for the table it meets. An unsafe put stores a
second element for its key, and the length is wrong at once; a later removal of the key brings
the old value back.
-/
namespace Redic.Hashmap
open ProbeWindow HashmapMap

variable {V : Type}

inductive HashmapCall (V : Type)
  | put (key : DataString) (value : V)
  | remove (key : DataString)
  deriving DecidableEq, Repr

section Runs
variable (hash : DataString → UInt64)

/-- One call with every allocation granted. The caller ignores the status. -/
def hashmapCall (fuel : ℕ) (m : HashmapMap V) : HashmapCall V → Option (HashmapMap V)
  | .put key value => (hashmapPut hash (fun _ => true) fuel m key value).map Prod.fst
  | .remove key => some (hashmapRemove hash m key).1

def hashmapRun (fuel : ℕ) (calls : List (HashmapCall V)) : Option (HashmapMap V) :=
  calls.foldlM (hashmapCall hash fuel) hashmapNew

end Runs

/-- The abstract store: a finite map from key bytes. -/
abbrev KeyMap (V : Type) := Finmap (fun _ : DataString => V)

def KeyMap.call (s : KeyMap V) : HashmapCall V → KeyMap V
  | .put key value => s.insert key value
  | .remove key => s.erase key

def finiteMapRun (calls : List (HashmapCall V)) : KeyMap V := calls.foldl KeyMap.call ∅

def HashmapContract (hash : DataString → UInt64) (m : HashmapMap V) (s : KeyMap V) : Prop :=
  (∀ key, hashmapGet hash m key = s.lookup key) ∧ hashmapLength m = s.keys.card

/-- The elements of the table are the entries of the map. -/
def Refines (m : HashmapMap V) (s : KeyMap V) : Prop :=
  ∀ key value, s.lookup key = some value ↔ ⟨key, value⟩ ∈ m.elements

variable {hash : DataString → UInt64} {m m' : HashmapMap V} {s : KeyMap V} {key : DataString}
  {value : V} {fuel : ℕ}

theorem Refines.mem_keys (h : Refines m s) :
    key ∈ s.keys ↔ key ∈ m.elements.map HashmapElement.key := by
  rw [Finmap.mem_keys, Finmap.mem_iff, List.mem_map]
  constructor
  · rintro ⟨value, hlookup⟩
    exact ⟨⟨key, value⟩, (h key value).mp hlookup, rfl⟩
  · rintro ⟨element, hmem, rfl⟩
    exact ⟨element.data, (h _ _).mpr hmem⟩

theorem Refines.card_keys (h : Refines m s) (hm : m.WellFormed hash) : s.keys.card = m.size := by
  have hkeys : s.keys = (m.elements.map HashmapElement.key).toFinset := by
    ext key
    rw [List.mem_toFinset]
    exact h.mem_keys
  rw [hkeys, List.toFinset_card_of_nodup hm.keys_nodup, List.length_map, hm.size_eq]

theorem Refines.contract (h : Refines m s) (hm : m.WellFormed hash) : HashmapContract hash m s := by
  refine ⟨?_, (h.card_keys hm).symm⟩
  intro key
  refine Option.ext ?_
  intro value
  rw [hm.get_eq_some, h]

theorem Refines.put (h : Refines m s) (hperm : m'.elements.Perm (upsert key value m.elements)) :
    Refines m' (s.insert key value) := by
  intro key' value'
  rw [hperm.mem_iff, upsert, List.mem_cons, List.mem_filter]
  by_cases hkey : key' = key
  · subst hkey
    simp [eq_comm]
  · rw [Finmap.lookup_insert_of_ne _ hkey, h]
    simp [hkey]

theorem Refines.remove (h : Refines m s)
    (hperm : m'.elements.Perm (m.elements.filter fun element => element.key ≠ key)) :
    Refines m' (s.erase key) := by
  intro key' value'
  rw [hperm.mem_iff, List.mem_filter]
  by_cases hkey : key' = key
  · subst hkey
    simp
  · rw [Finmap.lookup_erase_ne hkey, h]
    simp [hkey]

theorem hashmapNew_wellFormed : (hashmapNew : HashmapMap V).WellFormed hash :=
  wellFormed_ofCalloc (by decide) []

theorem hashmapNew_refines : Refines (hashmapNew : HashmapMap V) ∅ := by
  intro key value
  constructor
  · intro h
    rw [Finmap.lookup_empty] at h
    cases h
  · intro h
    have hnew : (hashmapNew : HashmapMap V).WellFormed fun _ => 0 := hashmapNew_wellFormed
    have hlen := hnew.size_eq
    exact absurd (List.length_pos_of_mem h) (by rw [← hlen]; exact Nat.lt_irrefl 0)

theorem hashmapCall_put (h : hashmapCall hash fuel m (.put key value) = some m') :
    hashmapPut hash (fun _ => true) fuel m key value = some (m', .ok) := by
  obtain ⟨⟨m₁, status⟩, hput, rfl⟩ := Option.map_eq_some_iff.mp h
  rcases hashmapPut_status fuel hput with rfl | ⟨-, slots, hslots⟩
  · exact hput
  · cases hslots

theorem hashmapCall_refines {call : HashmapCall V} (hm : m.WellFormed hash) (hs : Refines m s)
    (hsafe : ∀ key value, call = .put key value → m.PutSafe hash key)
    (h : hashmapCall hash fuel m call = some m') :
    m'.WellFormed hash ∧ Refines m' (s.call call) := by
  cases call with
  | put key value =>
    have hexact := hashmapPut_exact fuel m m' key value hm (hsafe key value rfl) (hashmapCall_put h)
    exact ⟨hexact.wellFormed, hs.put hexact.elements⟩
  | remove key =>
    cases h
    obtain ⟨hm', hperm⟩ := hm.remove key
    exact ⟨hm', hs.remove hperm⟩

/-- An unsafe put takes the first free slot although the key is in use behind it. -/
theorem hashmapHash_of_unsafe (hm : m.WellFormed hash) (hnot : ¬ m.PutSafe hash key) :
    ∃ index, hashmapHash hash m key = some index ∧ m.slot index = none ∧
      key ∈ m.elements.map HashmapElement.key := by
  unfold PutSafe ClosedAt at hnot
  push Not at hnot
  obtain ⟨hroom, offset, hoffset, hholds, earlier, hearlier, hfree⟩ := hnot
  have hfree' : m.slot (m.window hash key earlier) = none := by
    simpa using hfree
  have hsome : hashmapHash hash m key ≠ none := by
    rw [hashmapHash, if_neg (Nat.not_le.mpr hroom), ne_eq, probe_eq_none (hm.home_lt key)]
    intro hnone
    have hpass := hnone earlier (Nat.lt_trans hearlier hoffset)
    rw [Bool.eq_false_iff] at hpass
    exact hpass (accepts_iff.mpr (Or.inl hfree'))
  obtain ⟨index, hindex⟩ := Option.ne_none_iff_exists'.mp hsome
  obtain ⟨element, hslot, hkey⟩ := holds_iff.mp hholds
  have hmem := List.mem_map_of_mem (f := HashmapElement.key) (mem_elements.mpr ⟨_, hslot⟩)
  refine ⟨index, hindex, ?_, hkey ▸ hmem⟩
  obtain ⟨stop, hstop, rfl, hfound | hfound, hbefore⟩ := hm.hash_some hindex
  · exact hfound
  · -- the key would be in use twice, or the probe would have passed a free slot
    have hsame := hm.window_injective hstop hoffset (hm.slot_unique hfound hholds)
    subst hsame
    have hpassed := (hbefore earlier hearlier).1
    rw [hfree'] at hpassed
    cases hpassed

theorem unsafe_put_contract (hm : m.WellFormed hash) (hs : Refines m s)
    (hnot : ¬ m.PutSafe hash key) (h : hashmapCall hash fuel m (.put key value) = some m') :
    ¬ HashmapContract hash m' (s.insert key value) := by
  obtain ⟨index, hindex, hfree, hmem⟩ := hashmapHash_of_unsafe hm hnot
  have hput := hashmapCall_put h
  cases fuel with
  | zero => cases hput
  | succ fuel =>
    simp only [hashmapPut, hindex, Option.some.injEq, Prod.mk.injEq, and_true] at hput
    subst hput
    intro hcontract
    have hlength := hcontract.2
    have hkeys : (s.insert key value).keys = s.keys := by
      ext other
      rw [Finmap.mem_keys, Finmap.mem_insert, Finmap.mem_keys]
      refine or_iff_right_of_imp ?_
      rintro rfl
      exact Finmap.mem_keys.mp (hs.mem_keys.mpr hmem)
    rw [hkeys, hs.card_keys hm] at hlength
    simp [hashmapLength, store, hfree] at hlength

theorem hashmapRun_append (calls : List (HashmapCall V)) (call : HashmapCall V) :
    hashmapRun hash fuel (calls ++ [call]) =
      (hashmapRun hash fuel calls).bind fun m => hashmapCall hash fuel m call :=
  EventRun.run_append call

theorem finiteMapRun_append (calls : List (HashmapCall V)) (call : HashmapCall V) :
    finiteMapRun (calls ++ [call]) = (finiteMapRun calls).call call := by
  simp [finiteMapRun, List.foldl_append]

theorem hashmapRun_prefix {done calls : List (HashmapCall V)}
    (hreturns : (hashmapRun hash fuel calls).isSome = true) (hdone : done <+: calls) :
    ∃ m, hashmapRun hash fuel done = some m :=
  EventRun.run_done hreturns hdone

/-- A run whose puts all meet the condition ends in a table that refines the finite map. -/
theorem hashmapRun_refines {calls : List (HashmapCall V)}
    (hsafe : ∀ done key value m, done ++ [.put key value] <+: calls →
      hashmapRun hash fuel done = some m → m.PutSafe hash key)
    (h : hashmapRun hash fuel calls = some m) :
    m.WellFormed hash ∧ Refines m (finiteMapRun calls) := by
  induction calls using List.reverseRecOn generalizing m with
  | nil =>
    cases h
    exact ⟨hashmapNew_wellFormed, hashmapNew_refines⟩
  | append_singleton calls call ih =>
    rw [hashmapRun_append, Option.bind_eq_some_iff] at h
    obtain ⟨m₀, hrun, hcall⟩ := h
    obtain ⟨hm, hs⟩ := ih (fun done key value m hdone => hsafe done key value m
      (hdone.trans (List.prefix_append _ _))) hrun
    rw [finiteMapRun_append]
    refine hashmapCall_refines hm hs ?_ hcall
    rintro key value rfl
    exact hsafe calls key value m₀ List.prefix_rfl hrun

theorem hashmapRun_safe_of_contract {calls : List (HashmapCall V)}
    (hreturns : (hashmapRun hash fuel calls).isSome = true)
    (hcontract : ∀ done m, done <+: calls → hashmapRun hash fuel done = some m →
      HashmapContract hash m (finiteMapRun done)) :
    ∀ done key value m, done ++ [.put key value] <+: calls →
      hashmapRun hash fuel done = some m → m.PutSafe hash key := by
  induction calls using List.reverseRecOn with
  | nil =>
    intro done key value m hdone
    exact absurd (List.prefix_nil.mp hdone) (by simp)
  | append_singleton calls call ih =>
    have hbefore : calls <+: calls ++ [call] := List.prefix_append _ _
    obtain ⟨m₀, hm₀⟩ := hashmapRun_prefix hreturns hbefore
    have hsafe := ih (hm₀ ▸ rfl) fun done m hdone => hcontract done m (hdone.trans hbefore)
    intro done key value m hdone hrun
    rcases List.prefix_concat_iff.mp hdone with heq | hprefix
    · obtain ⟨rfl, hcall⟩ := List.append_inj' heq rfl
      cases hcall
      by_contra hnot
      obtain ⟨hm, hs⟩ := hashmapRun_refines hsafe hrun
      obtain ⟨m', hm'⟩ := hashmapRun_prefix hreturns List.prefix_rfl
      have hstep := hm'
      rw [hashmapRun_append, hrun, Option.bind_some] at hstep
      have hend := hcontract _ m' List.prefix_rfl hm'
      rw [finiteMapRun_append] at hend
      exact unsafe_put_contract hm hs hnot hstep hend
    · exact hsafe done key value m hprefix hrun

/-- Throughout a run the table answers as the finite map does exactly when every put of the run
is safe: the table is about to double, or no free slot lies in front of the key. -/
theorem hashmapRun_contract_iff (hash : DataString → UInt64) (fuel : ℕ)
    (calls : List (HashmapCall V)) (hreturns : (hashmapRun hash fuel calls).isSome = true) :
    (∀ done m, done <+: calls → hashmapRun hash fuel done = some m →
      HashmapContract hash m (finiteMapRun done)) ↔
    ∀ done key value m, done ++ [.put key value] <+: calls →
      hashmapRun hash fuel done = some m → m.PutSafe hash key := by
  constructor
  · exact hashmapRun_safe_of_contract hreturns
  · intro hsafe done m hdone hrun
    have hsafe' : ∀ done' key value m, done' ++ [.put key value] <+: done →
        hashmapRun hash fuel done' = some m → m.PutSafe hash key :=
      fun done' key value m hdone' => hsafe done' key value m (hdone'.trans hdone)
    obtain ⟨hm, hs⟩ := hashmapRun_refines hsafe' hrun
    exact hs.contract hm

/-- The equivalence for a run with two keys of one hash, a removal and a put into the hole. -/
theorem hashmapRun_contract_iff_hole :
    let calls : List (HashmapCall ℕ) :=
      [.put [97] 1, .put [0, 97] 2, .remove [97], .put [97] 3]
    (∀ done m, done <+: calls → hashmapRun hashmapKeyHash 1 done = some m →
      HashmapContract hashmapKeyHash m (finiteMapRun done)) ↔
    ∀ done key value m, done ++ [.put key value] <+: calls →
      hashmapRun hashmapKeyHash 1 done = some m → m.PutSafe hashmapKeyHash key :=
  hashmapRun_contract_iff hashmapKeyHash 1 _ (by decide +kernel)

/-- The second put of the key lands in the hole in front of it, so the old value is found after
the key was removed. -/
theorem hashmapContract_stale_value :
    ¬ ∀ (fuel : ℕ) (calls : List (HashmapCall ℕ)) (m : HashmapMap ℕ),
      hashmapRun hashmapKeyHash fuel calls = some m →
        HashmapContract hashmapKeyHash m (finiteMapRun calls) := by
  intro h
  have hrun : (hashmapRun hashmapKeyHash 1 [.put [97] 1, .put [0, 97] 2, .remove [97],
      .put [0, 97] 3, .remove [0, 97]]).map (hashmapGet hashmapKeyHash · [0, 97]) =
      some (some 2) := by decide +kernel
  obtain ⟨m, hm, hget⟩ := Option.map_eq_some_iff.mp hrun
  have hlookup := (h 1 _ m hm).1 [0, 97]
  rw [hget] at hlookup
  exact absurd hlookup (by decide)

end Redic.Hashmap
