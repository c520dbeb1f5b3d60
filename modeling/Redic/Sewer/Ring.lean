import Mathlib.Data.Nat.ModEq
import Mathlib.Logic.Function.Basic

/-! # The ring buffer

The slots from the head on hold the queued elements, oldest first, and wrap at the capacity.
A slot that was never written holds no element.
-/
namespace Redic

variable {α : Type}

structure RingBuf (α : Type) where
  head : ℕ
  tail : ℕ
  len : ℕ
  cap : ℕ
  data : ℕ → Option α

def ringbufCreate (cap : ℕ) : RingBuf α where
  head := 0
  tail := 0
  len := 0
  cap := cap
  data := fun _ => none

def ringbufIsFull (buffer : RingBuf α) : Bool := decide (buffer.cap ≤ buffer.len)

def ringbufIsEmpty (buffer : RingBuf α) : Bool := decide (buffer.len = 0)

/-- Whether the element was queued, and the ring afterwards. -/
def ringbufPush (buffer : RingBuf α) (elem : α) : Bool × RingBuf α :=
  if buffer.cap ≤ buffer.len then (false, buffer)
  else
    (true, { buffer with
      data := Function.update buffer.data buffer.tail (some elem)
      len := buffer.len + 1
      tail := (buffer.tail + 1) % buffer.cap })

/-- Whether an element was taken, what the out parameter holds, and the ring afterwards. -/
def ringbufPop (buffer : RingBuf α) (out : Option α) : Bool × Option α × RingBuf α :=
  if buffer.len = 0 then (false, out, buffer)
  else
    (true, buffer.data buffer.head, { buffer with
      len := buffer.len - 1
      head := (buffer.head + 1) % buffer.cap })

/-- The ring holds this queue. -/
structure RingBuf.Holds (buffer : RingBuf α) (queue : List α) : Prop where
  len_eq : buffer.len = queue.length
  len_le : queue.length ≤ buffer.cap
  head_lt : buffer.head < buffer.cap
  tail_eq : buffer.tail = (buffer.head + queue.length) % buffer.cap
  slot : ∀ i < queue.length, buffer.data ((buffer.head + i) % buffer.cap) = queue[i]?

theorem ringbufCreate_holds {cap : ℕ} (hcap : 0 < cap) :
    (ringbufCreate cap : RingBuf α).Holds [] where
  len_eq := rfl
  len_le := Nat.zero_le _
  head_lt := hcap
  tail_eq := (Nat.zero_mod cap).symm
  slot _ h := absurd h (Nat.not_lt_zero _)

theorem ring_slot_inj {cap head i j : ℕ} (hi : i < cap) (hj : j < cap)
    (h : (head + i) % cap = (head + j) % cap) : i = j := by
  have hmod : i ≡ j [MOD cap] := Nat.ModEq.add_left_cancel' head h
  exact hmod.eq_of_lt_of_lt hi hj

namespace RingBuf.Holds
variable {buffer : RingBuf α} {queue : List α}

theorem unique {other : List α} (h : buffer.Holds queue) (h' : buffer.Holds other) :
    queue = other := by
  have hlen : queue.length = other.length := h.len_eq.symm.trans h'.len_eq
  apply List.ext_getElem?
  intro i
  by_cases hi : i < queue.length
  · rw [← h.slot i hi, h'.slot i (hlen ▸ hi)]
  · rw [List.getElem?_eq_none (Nat.not_lt.mp hi),
      List.getElem?_eq_none (hlen ▸ Nat.not_lt.mp hi)]

theorem isFull_eq (h : buffer.Holds queue) :
    ringbufIsFull buffer = decide (buffer.cap ≤ queue.length) := by
  rw [ringbufIsFull, h.len_eq]

theorem isEmpty_eq (h : buffer.Holds queue) :
    ringbufIsEmpty buffer = decide (queue.length = 0) := by
  rw [ringbufIsEmpty, h.len_eq]

theorem push_full (h : buffer.Holds queue) (hfull : buffer.cap ≤ queue.length) (elem : α) :
    ringbufPush buffer elem = (false, buffer) := by
  rw [ringbufPush, if_pos (h.len_eq ▸ hfull)]

theorem push (h : buffer.Holds queue) (hspace : queue.length < buffer.cap) (elem : α) :
    (ringbufPush buffer elem).1 = true ∧
      (ringbufPush buffer elem).2.Holds (queue ++ [elem]) ∧
      (ringbufPush buffer elem).2.cap = buffer.cap := by
  have hlt : ¬ buffer.cap ≤ buffer.len := by
    rw [h.len_eq]
    exact Nat.not_le.mpr hspace
  rw [ringbufPush, if_neg hlt]
  refine ⟨rfl, ?_, rfl⟩
  constructor
  · simp [h.len_eq]
  · rw [List.length_append, List.length_singleton]
    exact hspace
  · exact h.head_lt
  · simp only [h.tail_eq, List.length_append, List.length_singleton, Nat.mod_add_mod,
      Nat.add_assoc]
  · intro i hi
    rw [List.length_append, List.length_singleton] at hi
    change Function.update buffer.data buffer.tail (some elem) ((buffer.head + i) % buffer.cap) = _
    by_cases hold : i < queue.length
    · have hslot : (buffer.head + i) % buffer.cap ≠ buffer.tail := by
        intro heq
        rw [h.tail_eq] at heq
        exact absurd (ring_slot_inj (hold.trans hspace) hspace heq) (Nat.ne_of_lt hold)
      rw [Function.update_of_ne hslot, List.getElem?_append_left hold]
      exact h.slot i hold
    · obtain rfl : i = queue.length := by omega
      rw [h.tail_eq, Function.update_self, List.getElem?_concat_length]

theorem pop_empty (h : buffer.Holds []) (out : Option α) :
    ringbufPop buffer out = (false, out, buffer) := by
  have hlen : buffer.len = 0 := h.len_eq
  rw [ringbufPop, if_pos hlen]

theorem pop {elem : α} (h : buffer.Holds (elem :: queue)) (out : Option α) :
    (ringbufPop buffer out).1 = true ∧ (ringbufPop buffer out).2.1 = some elem ∧
      (ringbufPop buffer out).2.2.Holds queue ∧ (ringbufPop buffer out).2.2.cap = buffer.cap := by
  have hlen := h.len_eq
  rw [List.length_cons] at hlen
  have hcap : 0 < buffer.cap := Nat.zero_lt_of_lt h.head_lt
  have hle := h.len_le
  rw [List.length_cons] at hle
  rw [ringbufPop, if_neg (by omega)]
  refine ⟨rfl, ?_, ?_, rfl⟩
  · have hfirst := h.slot 0 (Nat.succ_pos _)
    rw [Nat.add_zero, Nat.mod_eq_of_lt h.head_lt] at hfirst
    exact hfirst
  · have hshift (i : ℕ) :
        ((buffer.head + 1) % buffer.cap + i) % buffer.cap = (buffer.head + (i + 1)) % buffer.cap := by
      rw [Nat.mod_add_mod, Nat.add_assoc, Nat.add_comm 1 i]
    constructor
    · simp [hlen]
    · exact Nat.le_of_succ_le hle
    · exact Nat.mod_lt _ hcap
    · rw [hshift]
      exact h.tail_eq
    · intro i hi
      have hnext := h.slot (i + 1) (Nat.succ_lt_succ hi)
      rw [List.getElem?_cons_succ] at hnext
      rw [← hnext]
      exact congrArg buffer.data (hshift i)

end RingBuf.Holds

end Redic
