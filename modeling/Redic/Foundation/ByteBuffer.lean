import Mathlib.Data.List.Basic
import Mathlib.Tactic.Use

/-! # Byte buffers of a fixed size

A buffer is a block of memory whose size is a machine word. A store writes a run of bytes at an
offset and fails when the run leaves the block. Stores that continue one another are one store
of the joined runs, also where a later one covers the tail of an earlier one.
-/
namespace Redic

structure ByteBuffer (size : UInt64) where
  bytes : List UInt8
  length_bytes : bytes.length = size.toNat
  deriving DecidableEq, Repr

namespace ByteBuffer
variable {size : UInt64} {α : Type}

def zeroed (size : UInt64) : ByteBuffer size :=
  ⟨List.replicate size.toNat 0, List.length_replicate⟩

/-- The bytes from `ptr` on are replaced by the run, for as long as it lasts. -/
def splice (bytes : List UInt8) (ptr : ℕ) (run : List UInt8) : List UInt8 :=
  bytes.take ptr ++ (run ++ bytes.drop (ptr + run.length))

theorem length_splice {bytes run : List UInt8} {ptr : ℕ} (h : ptr + run.length ≤ bytes.length) :
    (splice bytes ptr run).length = bytes.length := by
  simp only [splice, List.length_append, List.length_take, List.length_drop]
  omega

theorem splice_append (front back run : List UInt8) :
    splice (front ++ back) front.length run = front ++ (run ++ back.drop run.length) := by
  rw [splice, List.take_left, ← List.drop_drop, List.drop_left]

/-- A run that starts where `run` ends covers what followed it. -/
theorem splice_splice {bytes run tail next : List UInt8} {ptr : ℕ} (hptr : ptr ≤ bytes.length)
    (h : tail.length ≤ next.length) :
    splice (splice bytes ptr (run ++ tail)) (ptr + run.length) next =
      splice bytes ptr (run ++ next) := by
  obtain ⟨front, back, rfl, rfl⟩ : ∃ front back, bytes = front ++ back ∧ front.length = ptr :=
    ⟨bytes.take ptr, bytes.drop ptr, (List.take_append_drop ptr bytes).symm,
      List.length_take_of_le hptr⟩
  have hcover : (tail ++ back.drop (run ++ tail).length).drop next.length =
      back.drop (run ++ next).length := by
    rw [List.drop_append, List.drop_eq_nil_of_le h, List.nil_append, List.drop_drop]
    congr 1
    simp only [List.length_append]
    omega
  have hsplit : front ++ ((run ++ tail) ++ back.drop (run ++ tail).length) =
      (front ++ run) ++ (tail ++ back.drop (run ++ tail).length) := by
    simp only [List.append_assoc]
  rw [splice_append, hsplit, ← List.length_append, splice_append, hcover, splice_append]
  simp only [List.append_assoc]

def store (buffer : ByteBuffer size) (ptr : ℕ) (run : List UInt8) : Option (ByteBuffer size) :=
  if h : ptr + run.length ≤ size.toNat then
    some ⟨splice buffer.bytes ptr run, by
      rw [length_splice (by rwa [buffer.length_bytes]), buffer.length_bytes]⟩
  else none

theorem store_isSome (buffer : ByteBuffer size) (ptr : ℕ) (run : List UInt8) :
    (buffer.store ptr run).isSome = true ↔ ptr + run.length ≤ size.toNat := by
  unfold store
  split <;> simp_all

theorem bytes_of_store {buffer stored : ByteBuffer size} {ptr : ℕ} {run : List UInt8}
    (h : buffer.store ptr run = some stored) : stored.bytes = splice buffer.bytes ptr run := by
  unfold store at h
  split at h
  · cases h
    rfl
  · cases h

theorem bytes_of_store_zero {buffer stored : ByteBuffer size} {run : List UInt8}
    (h : buffer.store 0 run = some stored) :
    stored.bytes = run ++ buffer.bytes.drop run.length := by
  rw [bytes_of_store h, splice, List.take_zero, List.nil_append, Nat.zero_add]

/-- A store right behind `run` makes one store with it and covers what followed it. -/
theorem store_bind_cover (buffer : ByteBuffer size) {ptr next : ℕ} {run tail more : List UInt8}
    (hnext : next = ptr + run.length) (h : tail.length ≤ more.length)
    (f : ByteBuffer size → Option α) :
    ((buffer.store ptr (run ++ tail)).bind fun stored => (stored.store next more).bind f) =
      (buffer.store ptr (run ++ more)).bind f := by
  subst hnext
  by_cases hboth : ptr + (run ++ more).length ≤ size.toNat
  · have hfirst : ptr + (run ++ tail).length ≤ size.toNat := by
      rw [List.length_append] at hboth ⊢
      omega
    have hsecond : ptr + run.length + more.length ≤ size.toNat := by
      rwa [List.length_append, ← Nat.add_assoc] at hboth
    have hptr : ptr ≤ buffer.bytes.length := by
      rw [buffer.length_bytes]
      omega
    simp only [store, dif_pos hfirst, dif_pos hboth, dif_pos hsecond, Option.bind_some,
      splice_splice hptr h]
  · have hsecond : ¬ ptr + run.length + more.length ≤ size.toNat := by
      rwa [List.length_append, ← Nat.add_assoc] at hboth
    have hnone : ∀ stored : ByteBuffer size,
        (stored.store (ptr + run.length) more).bind f = none := by
      intro stored
      rw [store, dif_neg hsecond, Option.bind_none]
    have hjoined : buffer.store ptr (run ++ more) = none := by
      rw [store, dif_neg hboth]
    simp only [hnone, hjoined, Option.bind_none]
    cases buffer.store ptr (run ++ tail) <;> rfl

theorem store_bind_store (buffer : ByteBuffer size) {ptr next : ℕ} {run more : List UInt8}
    (hnext : next = ptr + run.length) (f : ByteBuffer size → Option α) :
    ((buffer.store ptr run).bind fun stored => (stored.store next more).bind f) =
      (buffer.store ptr (run ++ more)).bind f := by
  have hcover : ((buffer.store ptr (run ++ [])).bind fun stored =>
      (stored.store next more).bind f) = (buffer.store ptr (run ++ more)).bind f :=
    buffer.store_bind_cover hnext (by simp) f
  rwa [List.append_nil] at hcover

end ByteBuffer

end Redic
