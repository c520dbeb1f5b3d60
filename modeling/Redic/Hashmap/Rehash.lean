import Redic.Foundation.EventRun
import Redic.Hashmap.Invariant

/-! # Doubling the table

A rehash moves the elements one by one into an empty table, which is closed and stays closed
since nothing is removed on the way; a move that finds no place doubles the new table in turn.
The elements are the same afterwards and none was released.
-/
namespace Redic.Hashmap
open ProbeWindow HashmapMap

variable {V : Type} {hash : DataString → UInt64} {calloc : ℕ → Bool}

/-- What a put that reports success has done to a table under the invariant. -/
structure HashmapMap.PutExact (hash : DataString → UInt64) (m : HashmapMap V) (key : DataString)
    (value : V) (m' : HashmapMap V) : Prop where
  wellFormed : m'.WellFormed hash
  elements : m'.elements.Perm (upsert key value m.elements)
  closed : m.Closed hash → m'.Closed hash
  released : (∀ element ∈ m.elements, element.key ≠ key) → m'.released = m.released

structure HashmapMap.Rehashed (hash : DataString → UInt64) (m m' : HashmapMap V) : Prop where
  wellFormed : m'.WellFormed hash
  closed : m'.Closed hash
  elements : m'.elements.Perm m.elements
  released : m'.released = m.released

/-- A put that is exact whenever it succeeds on a table where it is safe. -/
def ExactPut (hash : DataString → UInt64)
    (put : HashmapMap V → DataString → V → Option (HashmapMap V × MapStatus)) : Prop :=
  ∀ m m' key value, m.WellFormed hash → m.PutSafe hash key →
    put m key value = some (m', .ok) → m.PutExact hash key value m'

section Keys
variable {element : HashmapElement V} {elements elements₁ rest : List (HashmapElement V)}

theorem keys_absent (hnodup : ((elements ++ element :: rest).map HashmapElement.key).Nodup) :
    ∀ other ∈ elements, other.key ≠ element.key := by
  rw [List.map_append, List.map_cons, List.nodup_middle, List.nodup_cons] at hnodup
  intro other hother hkey
  exact hnodup.1 (List.mem_append_left _ (hkey ▸ List.mem_map_of_mem hother))

theorem perm_moved (hone : elements₁.Perm (element :: elements)) :
    (elements₁ ++ rest).Perm (elements ++ element :: rest) :=
  (hone.append_right _).trans List.perm_middle.symm

end Keys

section Moves
variable {put : HashmapMap V → DataString → V → Option (HashmapMap V × MapStatus)}

/-- Elements with new keys move into a table when every put of a new key adds its element and keeps
what it relies on. -/
theorem moveElements_perm (Inv : HashmapMap V → Prop)
    (hput : ∀ m m' element, Inv m → (∀ other ∈ m.elements, other.key ≠ element.key) →
      put m element.key element.data = some (m', .ok) →
        Inv m' ∧ m'.elements.Perm (element :: m.elements) ∧ m'.released = m.released)
    (curr : List (Option (HashmapElement V))) {m m' : HashmapMap V} (hm : Inv m)
    (hnodup : ((m.elements ++ curr.reduceOption).map HashmapElement.key).Nodup)
    (h : moveElements put curr m = some (m', .ok)) :
    Inv m' ∧ m'.elements.Perm (m.elements ++ curr.reduceOption) ∧ m'.released = m.released := by
  induction curr generalizing m with
  | nil =>
    cases h
    rw [List.reduceOption_nil, List.append_nil]
    exact ⟨hm, List.Perm.refl _, rfl⟩
  | cons occupant curr ih =>
    cases occupant with
    | none => exact ih hm hnodup h
    | some element =>
      rw [List.reduceOption_cons_of_some] at hnodup ⊢
      obtain ⟨m₁, status, hstep, ⟨rfl, h⟩ | ⟨hstatus, -, rfl⟩⟩ := moveElements_cons_eq_some.mp h
      · obtain ⟨hm₁, hone, hreleased₁⟩ := hput m m₁ element hm (keys_absent hnodup) hstep
        have hmove : (m₁.elements ++ curr.reduceOption).Perm
            (m.elements ++ element :: curr.reduceOption) := perm_moved hone
        have hnodup₁ := (hmove.map HashmapElement.key).nodup_iff.mpr hnodup
        obtain ⟨hm', hperm, hreleased⟩ := ih hm₁ hnodup₁ h
        exact ⟨hm', hperm.trans hmove, hreleased.trans hreleased₁⟩
      · exact absurd rfl hstatus

theorem moveElements_exact (hput : ExactPut hash put) (curr : List (Option (HashmapElement V)))
    {m m' : HashmapMap V} (hm : m.WellFormed hash) (hclosed : m.Closed hash)
    (hnodup : ((m.elements ++ curr.reduceOption).map HashmapElement.key).Nodup)
    (h : moveElements put curr m = some (m', .ok)) :
    m'.WellFormed hash ∧ m'.Closed hash ∧ m'.elements.Perm (m.elements ++ curr.reduceOption) ∧
      m'.released = m.released := by
  have hmoved := moveElements_perm (fun m => m.WellFormed hash ∧ m.Closed hash) ?_ curr
    ⟨hm, hclosed⟩ hnodup h
  · exact ⟨hmoved.1.1, hmoved.1.2, hmoved.2⟩
  · rintro m m' element ⟨hm, hclosed⟩ habsent hstep
    have hexact := hput m m' _ _ hm (Or.inr (hclosed element.key)) hstep
    have hfilter := List.filter_eq_self.mpr fun other hother =>
      decide_eq_true (habsent other hother)
    have helements := hexact.elements
    rw [upsert, hfilter] at helements
    exact ⟨⟨hexact.wellFormed, hexact.closed hclosed⟩, helements, hexact.released habsent⟩

theorem hashmapRehash_exact (hput : ExactPut hash put) {m m' : HashmapMap V}
    (hm : m.WellFormed hash) (h : hashmapRehash calloc put m = some (m', .ok)) :
    m.Rehashed hash m' := by
  obtain ⟨-, h⟩ | ⟨-, -, hstatus⟩ := hashmapRehash_eq_some.mp h
  · have hsize : maxChainLength ≤ 2 * m.tableSize :=
      Nat.le_trans hm.chain_le (Nat.le_mul_of_pos_left _ (by decide))
    have hnodup := hm.keys_nodup
    obtain ⟨hm', hclosed', hperm, hreleased⟩ := moveElements_exact hput m.data
      (wellFormed_ofCalloc hsize m.released) (closed_ofCalloc _ _)
      (by rwa [elements_ofCalloc]) h
    rw [elements_ofCalloc] at hperm
    exact ⟨hm', hclosed', hperm, hreleased⟩
  · cases hstatus

end Moves

/-- The upsert sees only which elements there are. -/
theorem upsert_perm {elements elements' : List (HashmapElement V)}
    (h : elements.Perm elements') (key : DataString) (value : V) :
    (upsert key value elements).Perm (upsert key value elements') := (h.filter _).cons _

theorem store_exact {m : HashmapMap V} {key : DataString} {value : V} {index : ℕ}
    (hm : m.WellFormed hash) (hsafe : m.PutSafe hash key)
    (hhash : hashmapHash hash m key = some index) :
    m.PutExact hash key value (m.store index key value) := by
  have hroom : ¬ m.tableSize / 2 ≤ m.size := by
    intro hfull
    rw [hashmapHash, if_pos hfull] at hhash
    cases hhash
  have hclosed := hsafe.resolve_left hroom
  refine ⟨hm.store hhash hclosed, hm.store_elements hhash hclosed, hm.store_closed hhash, ?_⟩
  intro habsent
  have hfree := free_of_absent hm.tableSize_pos hhash habsent
  change m.released ++ (m.slot index).toList = m.released
  rw [hfree, Option.toList_none, List.append_nil]

/-- A put or a rehash fails only for memory, and only when `calloc` does. -/
def StatusSound (calloc : ℕ → Bool) (status : MapStatus) : Prop :=
  status = .ok ∨ status = .omem ∧ ∃ slots, calloc slots = false

theorem moveElements_status
    {put : HashmapMap V → DataString → V → Option (HashmapMap V × MapStatus)}
    (hput : ∀ m key value m' status, put m key value = some (m', status) →
      StatusSound calloc status) (curr : List (Option (HashmapElement V)))
    {m m' : HashmapMap V} {status : MapStatus} (h : moveElements put curr m = some (m', status)) :
    StatusSound calloc status := by
  induction curr generalizing m with
  | nil =>
    cases h
    exact Or.inl rfl
  | cons occupant curr ih =>
    cases occupant with
    | none => exact ih h
    | some element =>
      obtain ⟨m₁, status₁, hstep, ⟨-, h⟩ | ⟨-, -, rfl⟩⟩ := moveElements_cons_eq_some.mp h
      · exact ih h
      · exact hput _ _ _ _ _ hstep

theorem hashmapRehash_status_of
    {put : HashmapMap V → DataString → V → Option (HashmapMap V × MapStatus)}
    (hput : ∀ m key value m' status, put m key value = some (m', status) →
      StatusSound calloc status) {m m' : HashmapMap V} {status : MapStatus}
    (h : hashmapRehash calloc put m = some (m', status)) : StatusSound calloc status := by
  obtain ⟨-, h⟩ | ⟨hfail, -, rfl⟩ := hashmapRehash_eq_some.mp h
  · exact moveElements_status hput _ h
  · exact Or.inr ⟨rfl, _, hfail⟩

theorem hashmapPut_status (fuel : ℕ) {m m' : HashmapMap V} {key : DataString} {value : V}
    {status : MapStatus} (h : hashmapPut hash calloc fuel m key value = some (m', status)) :
    StatusSound calloc status := by
  induction fuel generalizing m m' key value status with
  | zero => cases h
  | succ fuel ih =>
    obtain ⟨_, -, -, rfl⟩ | ⟨-, m₁, status₁, hrehash, hnext⟩ := hashmapPut_eq_some.mp h
    · exact Or.inl rfl
    · rcases hnext with ⟨rfl, -, rfl⟩ | ⟨-, h⟩
      · exact hashmapRehash_status_of (fun _ _ _ _ _ => ih) hrehash
      · exact ih h

theorem hashmapRehash_status (fuel : ℕ) {m m' : HashmapMap V} {status : MapStatus}
    (h : hashmapRehash calloc (hashmapPut hash calloc fuel) m = some (m', status)) :
    StatusSound calloc status :=
  hashmapRehash_status_of (fun _ _ _ _ _ => hashmapPut_status fuel) h

theorem HashmapMap.Rehashed.put {m m₁ m' : HashmapMap V} {key : DataString} {value : V}
    (hrehash : m.Rehashed hash m₁) (hput : m₁.PutExact hash key value m') :
    m.PutExact hash key value m' := by
  refine ⟨hput.wellFormed, hput.elements.trans (upsert_perm hrehash.elements key value),
    fun _ => hput.closed hrehash.closed, ?_⟩
  intro habsent
  have habsent₁ : ∀ element ∈ m₁.elements, element.key ≠ key :=
    fun element hmem => habsent element (hrehash.elements.mem_iff.mp hmem)
  exact (hput.released habsent₁).trans hrehash.released

theorem hashmapPut_exact (fuel : ℕ) : ExactPut (V := V) hash (hashmapPut hash calloc fuel) := by
  induction fuel with
  | zero =>
    intro m m' key value _ _ h
    cases h
  | succ fuel ih =>
    intro m m' key value hm hsafe h
    obtain ⟨index, hhash, rfl, -⟩ | ⟨-, m₁, status, hrehash, hnext⟩ := hashmapPut_eq_some.mp h
    · exact store_exact hm hsafe hhash
    · rcases hnext with ⟨-, -, homem⟩ | ⟨hstatus, hput⟩
      · cases homem
      · obtain rfl := (hashmapRehash_status fuel hrehash).resolve_right fun hfail => hstatus hfail.1
        have hre := hashmapRehash_exact ih hm hrehash
        have hclosed := hre.closed key
        exact hre.put (ih m₁ m' key value hre.wellFormed (Or.inr hclosed) hput)

/-- A property of tables that neither storing a value of some kind nor doubling breaks. -/
structure Kept (calloc : ℕ → Bool) (Inv : HashmapMap V → Prop) (Kind : V → Prop) : Prop where
  store : ∀ m index key value, Inv m → Kind value → Inv (m.store index key value)
  doubled : ∀ m, Inv m → calloc (2 * m.tableSize) = true →
    Inv (ofCalloc (2 * m.tableSize) m.released)
  values : ∀ m, Inv m → ∀ element ∈ m.elements, Kind element.data

section Kept
variable {Inv : HashmapMap V → Prop} {Kind : V → Prop} {m m' : HashmapMap V} {status : MapStatus}
  {put : HashmapMap V → DataString → V → Option (HashmapMap V × MapStatus)}

theorem moveElements_keeps
    (hput : ∀ m key value m' status, Inv m → Kind value → put m key value = some (m', status) →
      Inv m')
    {curr : List (Option (HashmapElement V))}
    (hcurr : ∀ element ∈ curr.reduceOption, Kind element.data) (hm : Inv m)
    (h : moveElements put curr m = some (m', status)) : Inv m' := by
  induction curr generalizing m with
  | nil =>
    cases h
    exact hm
  | cons occupant curr ih =>
    cases occupant with
    | none => exact ih hcurr hm h
    | some element =>
      rw [List.reduceOption_cons_of_some, List.forall_mem_cons] at hcurr
      obtain ⟨m₁, status₁, hstep, hrest⟩ := moveElements_cons_eq_some.mp h
      have hmoved := hput _ _ _ _ _ hm hcurr.1 hstep
      rcases hrest with ⟨-, h⟩ | ⟨-, rfl, -⟩
      · exact ih hcurr.2 hmoved h
      · exact hmoved

theorem Kept.of_rehash (hkept : Kept calloc Inv Kind)
    (hput : ∀ m key value m' status, Inv m → Kind value → put m key value = some (m', status) →
      Inv m')
    (hm : Inv m) (h : hashmapRehash calloc put m = some (m', status)) : Inv m' := by
  rcases hashmapRehash_eq_some.mp h with ⟨hgrant, hmoved⟩ | ⟨-, rfl, -⟩
  · exact moveElements_keeps hput (hkept.values m hm) (hkept.doubled m hm hgrant) hmoved
  · exact hm

theorem Kept.of_put (hkept : Kept calloc Inv Kind) {fuel : ℕ} {key : DataString} {value : V}
    (hm : Inv m) (hvalue : Kind value)
    (h : hashmapPut hash calloc fuel m key value = some (m', status)) : Inv m' := by
  induction fuel generalizing m m' key value status with
  | zero => cases h
  | succ fuel ih =>
    rcases hashmapPut_eq_some.mp h with ⟨_, -, rfl, -⟩ | ⟨-, m₁, status₁, hrehash, hnext⟩
    · exact hkept.store _ _ _ _ hm hvalue
    · have hrehashed := hkept.of_rehash (fun _ _ _ _ _ => ih) hm hrehash
      rcases hnext with ⟨-, rfl, -⟩ | ⟨-, hput⟩
      · exact hrehashed
      · exact ih hrehashed hvalue hput

end Kept

section Elements
variable {m m' : HashmapMap V} {element : HashmapElement V}

/-- A put that stores its element at once. -/
def storeElement (hash : DataString → UInt64) (m : HashmapMap V) (element : HashmapElement V) :
    Option (HashmapMap V) :=
  (hashmapHash hash m element.key).map fun index => m.store index element.key element.data

theorem storeElement_put (h : storeElement hash m element = some m') :
    hashmapPut hash calloc 1 m element.key element.data = some (m', .ok) := by
  obtain ⟨index, hindex, rfl⟩ := Option.map_eq_some_iff.mp h
  exact hashmapPut_eq_some.mpr (Or.inl ⟨index, hindex, rfl, rfl⟩)

/-- A table that elements were only added to. -/
structure Grown (hash : DataString → UInt64) (m : HashmapMap V) : Prop where
  wellFormed : m.WellFormed hash
  closed : m.Closed hash

theorem run_storeElement {elements : List (HashmapElement V)}
    (h : EventRun.run (storeElement hash) hashmapNew elements = some m) : Grown hash m := by
  refine EventRun.run_preserves ?_ ?_ h
  · exact ⟨wellFormed_ofCalloc (by decide) [], closed_ofCalloc _ _⟩
  · rintro m element m' ⟨hm, hclosed⟩ hstep
    have hput : hashmapPut hash (fun _ => true) 1 m element.key element.data = some (m', .ok) :=
      storeElement_put hstep
    have hexact := hashmapPut_exact 1 m m' _ _ hm (Or.inr (hclosed _)) hput
    exact ⟨hexact.wellFormed, hexact.closed hclosed⟩

/-- Eight keys with home 248, in a table of 256 slots and in one of 512, and one with home 255. -/
def crowd : List DataString :=
  [[99, 106, 111], [99, 112, 117], [101, 99, 104], [101, 102, 115], [101, 116, 102],
    [102, 113, 122], [102, 117, 111], [103, 104, 113], [97, 118, 100]]

end Elements

end Redic.Hashmap
