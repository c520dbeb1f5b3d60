import Redic.Foundation.ByteBuffer

/-! # Copies into and out of a block

A block is a run of bytes of known length. A copy moves as many bytes as its operand has and fails
when they are not all inside the block. A copy out returns what the last copy in left there, and
copies to places that do not overlap leave one another alone.
-/
namespace Redic

@[ext]
structure ByteBlock (size : ℕ) where
  bytes : List UInt8
  length_bytes : bytes.length = size
  deriving DecidableEq, Repr

namespace ByteBlock
open ByteBuffer
variable {size count : ℕ}

def load (block : ByteBlock size) (ptr count : ℕ) : Option (ByteBlock count) :=
  if h : ptr + count ≤ size then
    some ⟨(block.bytes.drop ptr).take count, by
      rw [List.length_take, List.length_drop, block.length_bytes]
      omega⟩
  else none

def store (block : ByteBlock size) (ptr : ℕ) (run : ByteBlock count) : Option (ByteBlock size) :=
  if h : ptr + count ≤ size then
    some ⟨splice block.bytes ptr run.bytes, by
      rw [length_splice (by rwa [run.length_bytes, block.length_bytes]), block.length_bytes]⟩
  else none

theorem getElem?_splice {bytes run : List UInt8} {ptr : ℕ} (h : ptr + run.length ≤ bytes.length)
    (i : ℕ) : (splice bytes ptr run)[i]? =
      if ptr ≤ i ∧ i < ptr + run.length then run[i - ptr]? else bytes[i]? := by
  have hptr : (bytes.take ptr).length = ptr := List.length_take_of_le (by omega)
  rw [splice, List.getElem?_append, hptr, List.getElem?_append, List.getElem?_take,
    List.getElem?_drop]
  split_ifs
  · omega
  · rfl
  · rfl
  · omega
  · omega
  · congr 1
    omega

theorem load_isSome (block : ByteBlock size) {ptr count : ℕ} (h : ptr + count ≤ size) :
    ∃ run, block.load ptr count = some run := ⟨_, dif_pos h⟩

theorem store_isSome (block : ByteBlock size) {ptr : ℕ} (run : ByteBlock count)
    (h : ptr + count ≤ size) : ∃ stored, block.store ptr run = some stored := ⟨_, dif_pos h⟩

section Stored
variable {block stored : ByteBlock size} {run : ByteBlock count} {ptr : ℕ}

theorem store_eq_some (h : block.store ptr run = some stored) :
    ptr + count ≤ size ∧ stored.bytes = splice block.bytes ptr run.bytes := by
  unfold store at h
  split at h
  · rename_i hfits
    cases h
    exact ⟨hfits, rfl⟩
  · cases h

theorem getElem?_store (h : block.store ptr run = some stored) (i : ℕ) : stored.bytes[i]? =
    if ptr ≤ i ∧ i < ptr + count then run.bytes[i - ptr]? else block.bytes[i]? := by
  obtain ⟨hfits, hbytes⟩ := store_eq_some h
  rw [hbytes, getElem?_splice (by rwa [run.length_bytes, block.length_bytes]),
    run.length_bytes]

theorem load_store_same (h : block.store ptr run = some stored) :
    stored.load ptr count = some run := by
  rw [load, dif_pos (store_eq_some h).1]
  refine congrArg some (ByteBlock.ext (List.ext_getElem? fun i => ?_))
  change ((stored.bytes.drop ptr).take count)[i]? = _
  rw [List.getElem?_take, List.getElem?_drop, getElem?_store h]
  split_ifs
  · rw [Nat.add_sub_cancel_left]
  · omega
  · rw [List.getElem?_eq_none]
    rw [run.length_bytes]
    omega

theorem load_store_apart (h : block.store ptr run = some stored) {place length : ℕ}
    (hapart : place + length ≤ ptr ∨ ptr + count ≤ place) :
    stored.load place length = block.load place length := by
  unfold load
  split
  · refine congrArg some (ByteBlock.ext (List.ext_getElem? fun i => ?_))
    change ((stored.bytes.drop place).take length)[i]? = ((block.bytes.drop place).take length)[i]?
    simp only [List.getElem?_take, List.getElem?_drop, getElem?_store h]
    split_ifs
    · omega
    · rfl
    · rfl
  · rfl

end Stored

end ByteBlock

end Redic
