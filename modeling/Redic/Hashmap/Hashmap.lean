import Mathlib.Data.List.ReduceOption
import Redic.Foundation.ProbeWindow
import Redic.Hashmap.Hash

/-! # The hash map

Open addressing with linear probing over eight positions. The table doubles when it is half full
or when a window holds no place for a key. The hash is a parameter, and so is the answer of
`calloc` to a request for a number of slots. The loop of `hashmap_put` and its recursion through
`hashmap_rehash` share one fuel; a run out of fuel has not returned.
-/
namespace Redic.Hashmap
open ProbeWindow

inductive MapStatus
  | missing | full | omem | ok
  deriving DecidableEq, Repr

structure HashmapElement (V : Type) where
  key : DataString
  data : V
  deriving DecidableEq, Repr

/-- `released` collects what the free functions were called on. -/
structure HashmapMap (V : Type) where
  data : List (Option (HashmapElement V))
  size : ℕ
  released : List (HashmapElement V)
  deriving DecidableEq, Repr

def initialSize : ℕ := 256
def maxChainLength : ℕ := 8

variable {V : Type}

namespace HashmapMap

def ofCalloc (slots : ℕ) (released : List (HashmapElement V)) : HashmapMap V :=
  { data := List.replicate slots none, size := 0, released := released }

def tableSize (m : HashmapMap V) : ℕ := m.data.length

def slot (m : HashmapMap V) (index : ℕ) : Option (HashmapElement V) := m.data.getD index none

def holds (m : HashmapMap V) (key : DataString) (index : ℕ) : Bool :=
  match m.slot index with
  | none => false
  | some element => decide (element.key = key)

def accepts (m : HashmapMap V) (key : DataString) (index : ℕ) : Bool :=
  (m.slot index).isNone || m.holds key index

/-- The second half of `hashmap_put`. -/
def store (m : HashmapMap V) (index : ℕ) (key : DataString) (value : V) : HashmapMap V :=
  { data := m.data.set index (some ⟨key, value⟩)
    size := if (m.slot index).isSome then m.size else m.size + 1
    released := m.released ++ (m.slot index).toList }

def clear (m : HashmapMap V) (index : ℕ) : HashmapMap V :=
  { data := m.data.set index none
    size := m.size - 1
    released := m.released ++ (m.slot index).toList }

end HashmapMap

def hashmapNew : HashmapMap V := .ofCalloc initialSize []

def hashmapLength (m : HashmapMap V) : ℕ := m.size

section Operations
variable (hash : DataString → UInt64)

def hashmapHashInt (m : HashmapMap V) (key : DataString) : ℕ := (hash key).toNat % m.tableSize

/-- The index to store the key at; nothing stands for `MAP_FULL`. -/
def hashmapHash (m : HashmapMap V) (key : DataString) : Option ℕ :=
  if m.tableSize / 2 ≤ m.size then none
  else probe (m.accepts key) m.tableSize maxChainLength (hashmapHashInt hash m key)

/-- The one search of `hashmap_get` and `hashmap_remove`. -/
def hashmapFind (m : HashmapMap V) (key : DataString) : Option ℕ :=
  probe (m.holds key) m.tableSize maxChainLength (hashmapHashInt hash m key)

def hashmapGet (m : HashmapMap V) (key : DataString) : Option V :=
  match hashmapFind hash m key with
  | none => none
  | some index => (m.slot index).map HashmapElement.data

def hashmapRemove (m : HashmapMap V) (key : DataString) : HashmapMap V × MapStatus :=
  match hashmapFind hash m key with
  | none => (m, .missing)
  | some index => (m.clear index, .ok)

/-- The loop of `hashmap_rehash` over the old slots. -/
def moveElements (put : HashmapMap V → DataString → V → Option (HashmapMap V × MapStatus)) :
    List (Option (HashmapElement V)) → HashmapMap V → Option (HashmapMap V × MapStatus)
  | [], m => some (m, .ok)
  | none :: curr, m => moveElements put curr m
  | some element :: curr, m =>
    match put m element.key element.data with
    | none => none
    | some (m, status) => if status = .ok then moveElements put curr m else some (m, status)

variable (calloc : ℕ → Bool)

def hashmapRehash (put : HashmapMap V → DataString → V → Option (HashmapMap V × MapStatus))
    (m : HashmapMap V) : Option (HashmapMap V × MapStatus) :=
  if calloc (2 * m.tableSize) then
    moveElements put m.data (.ofCalloc (2 * m.tableSize) m.released)
  else some (m, .omem)

def hashmapPut : ℕ → HashmapMap V → DataString → V → Option (HashmapMap V × MapStatus)
  | 0, _, _, _ => none
  | fuel + 1, m, key, value =>
    match hashmapHash hash m key with
    | some index => some (m.store index key value, .ok)
    | none =>
      match hashmapRehash calloc (hashmapPut fuel) m with
      | none => none
      | some (m, status) => if status = .omem then some (m, .omem) else hashmapPut fuel m key value

end Operations

section Returns
variable {hash : DataString → UInt64} {calloc : ℕ → Bool} {fuel : ℕ}
  {put : HashmapMap V → DataString → V → Option (HashmapMap V × MapStatus)}
  {m m' : HashmapMap V} {key : DataString} {value : V} {status : MapStatus}
  {element : HashmapElement V} {curr : List (Option (HashmapElement V))}

theorem moveElements_cons_eq_some : moveElements put (some element :: curr) m = some (m', status) ↔
    ∃ m₁ status₁, put m element.key element.data = some (m₁, status₁) ∧
      ((status₁ = .ok ∧ moveElements put curr m₁ = some (m', status)) ∨
        (status₁ ≠ .ok ∧ m₁ = m' ∧ status₁ = status)) := by
  rw [moveElements]
  cases hput : put m element.key element.data with
  | none => simp
  | some moved =>
    obtain ⟨m₁, status₁⟩ := moved
    by_cases hstatus : status₁ = .ok
    · simp [hstatus]
    · simp [hstatus]

theorem hashmapRehash_eq_some : hashmapRehash calloc put m = some (m', status) ↔
    (calloc (2 * m.tableSize) = true ∧
      moveElements put m.data (.ofCalloc (2 * m.tableSize) m.released) = some (m', status)) ∨
    (calloc (2 * m.tableSize) = false ∧ m = m' ∧ .omem = status) := by
  rw [hashmapRehash]
  cases hcalloc : calloc (2 * m.tableSize) with
  | true => simp
  | false => simp

theorem hashmapPut_eq_some :
    hashmapPut hash calloc (fuel + 1) m key value = some (m', status) ↔
      (∃ index, hashmapHash hash m key = some index ∧ m.store index key value = m' ∧
        .ok = status) ∨
      (hashmapHash hash m key = none ∧ ∃ m₁ status₁,
        hashmapRehash calloc (hashmapPut hash calloc fuel) m = some (m₁, status₁) ∧
          ((status₁ = .omem ∧ m₁ = m' ∧ .omem = status) ∨
            (status₁ ≠ .omem ∧
              hashmapPut hash calloc fuel m₁ key value = some (m', status)))) := by
  rw [hashmapPut]
  cases hhash : hashmapHash hash m key with
  | some index => simp
  | none =>
    cases hrehash : hashmapRehash calloc (hashmapPut hash calloc fuel) m with
    | none => simp
    | some rehashed =>
      obtain ⟨m₁, status₁⟩ := rehashed
      by_cases hstatus : status₁ = .omem
      · simp [hstatus]
      · simp [hstatus]

end Returns

end Redic.Hashmap
