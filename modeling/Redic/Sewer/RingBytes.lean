import Redic.Foundation.ByteBlock
import Redic.Foundation.EventRun
import Redic.Sewer.Ring

/-! # The ring buffer in memory

The slots are ranges of one block of bytes, and an element is copied in and out byte by byte. The
size of the block, `cap * elem_size`, does not wrap around, and `malloc` grants it. Read by slots
the block is a ring of elements, so that the ring is a bounded queue: what is popped is what was
pushed, in the order of the pushes.
-/
namespace Redic
open ByteBlock

variable {elemSize : ℕ}

structure RingBufBytes (elemSize : ℕ) where
  head : ℕ
  tail : ℕ
  len : ℕ
  cap : ℕ
  data : ByteBlock (cap * elemSize)

/-- The slots hold whatever `malloc` found in its memory. -/
def ringbufCreateBytes (cap : ℕ) (memory : ByteBlock (cap * elemSize)) : RingBufBytes elemSize where
  head := 0
  tail := 0
  len := 0
  cap := cap
  data := memory

/-- No result is a copy that leaves the slots. -/
def ringbufPushBytes (buffer : RingBufBytes elemSize) (elem : ByteBlock elemSize) :
    Option (Bool × RingBufBytes elemSize) :=
  if buffer.cap ≤ buffer.len then some (false, buffer)
  else
    (buffer.data.store (buffer.tail * elemSize) elem).map fun data =>
      (true, { buffer with
        data := data
        len := buffer.len + 1
        tail := (buffer.tail + 1) % buffer.cap })

/-- Whether an element was taken, the bytes at the out pointer, and the ring afterwards. -/
def ringbufPopBytes (buffer : RingBufBytes elemSize) (out : ByteBlock elemSize) :
    Option (Bool × ByteBlock elemSize × RingBufBytes elemSize) :=
  if buffer.len = 0 then some (false, out, buffer)
  else
    (buffer.data.load (buffer.head * elemSize) elemSize).map fun value =>
      (true, value, { buffer with
        len := buffer.len - 1
        head := (buffer.head + 1) % buffer.cap })

namespace RingBufBytes
variable {buffer : RingBufBytes elemSize} {queue : List (ByteBlock elemSize)}

/-- The ring of elements that the slots make up. -/
def ring (buffer : RingBufBytes elemSize) : RingBuf (ByteBlock elemSize) where
  head := buffer.head
  tail := buffer.tail
  len := buffer.len
  cap := buffer.cap
  data slot := buffer.data.load (slot * elemSize) elemSize

theorem slot_fits {slot cap : ℕ} (h : slot < cap) : slot * elemSize + elemSize ≤ cap * elemSize := by
  rw [← Nat.succ_mul]
  exact Nat.mul_le_mul_right elemSize h

theorem load_store_slot {cap slot other : ℕ} {data stored : ByteBlock (cap * elemSize)}
    {elem : ByteBlock elemSize} (h : data.store (slot * elemSize) elem = some stored) :
    stored.load (other * elemSize) elemSize =
      Function.update (fun i => data.load (i * elemSize) elemSize) slot (some elem) other := by
  by_cases hsame : other = slot
  · rw [hsame, Function.update_self]
    exact load_store_same h
  · rw [Function.update_of_ne hsame]
    refine load_store_apart h ?_
    -- a slot ends where the next one begins
    rcases Nat.lt_or_gt_of_ne hsame with hbefore | hbehind
    · exact Or.inl (slot_fits hbefore)
    · exact Or.inr (slot_fits hbehind)

theorem push_ring (h : buffer.tail < buffer.cap) (elem : ByteBlock elemSize) :
    (ringbufPushBytes buffer elem).map (Prod.map id ring) = some (ringbufPush buffer.ring elem) := by
  by_cases hfull : buffer.cap ≤ buffer.len
  · have hring : ringbufPush buffer.ring elem = (false, buffer.ring) := if_pos hfull
    rw [ringbufPushBytes, if_pos hfull, hring]
    rfl
  · obtain ⟨stored, hstored⟩ := buffer.data.store_isSome elem (slot_fits h)
    have hslots : (fun slot => stored.load (slot * elemSize) elemSize) =
        Function.update buffer.ring.data buffer.ring.tail (some elem) :=
      funext fun _ => load_store_slot hstored
    have hring : ringbufPush buffer.ring elem = (true, { buffer.ring with
        data := fun slot => stored.load (slot * elemSize) elemSize
        len := buffer.len + 1
        tail := (buffer.tail + 1) % buffer.cap }) := by
      rw [hslots]
      exact if_neg hfull
    rw [ringbufPushBytes, if_neg hfull, hstored, hring]
    rfl

theorem pop_ring (h : buffer.head < buffer.cap) (out : ByteBlock elemSize) :
    (ringbufPopBytes buffer out).map (Prod.map id (Prod.map some ring)) =
      some (ringbufPop buffer.ring (some out)) := by
  by_cases hempty : buffer.len = 0
  · have hring : ringbufPop buffer.ring (some out) = (false, some out, buffer.ring) := if_pos hempty
    rw [ringbufPopBytes, if_pos hempty, hring]
    rfl
  · obtain ⟨value, hvalue⟩ := buffer.data.load_isSome (slot_fits h)
    have hring : ringbufPop buffer.ring (some out) = (true, some value, { buffer.ring with
        len := buffer.len - 1
        head := (buffer.head + 1) % buffer.cap }) := by
      rw [← hvalue]
      exact if_neg hempty
    rw [ringbufPopBytes, if_neg hempty, hvalue, hring]
    rfl

section Holds
variable {elem : ByteBlock elemSize}

theorem tail_lt (h : buffer.ring.Holds queue) : buffer.tail < buffer.cap := by
  rw [show buffer.tail = (buffer.head + queue.length) % buffer.cap from h.tail_eq]
  exact Nat.mod_lt _ (Nat.zero_lt_of_lt h.head_lt)

theorem push_full (h : buffer.ring.Holds queue) (hfull : buffer.cap ≤ queue.length)
    (elem : ByteBlock elemSize) : ringbufPushBytes buffer elem = some (false, buffer) := by
  have hlen : buffer.len = queue.length := h.len_eq
  rw [ringbufPushBytes, if_pos (hlen ▸ hfull)]

theorem push (h : buffer.ring.Holds queue) (hspace : queue.length < buffer.cap)
    (elem : ByteBlock elemSize) : ∃ after, ringbufPushBytes buffer elem = some (true, after) ∧
      after.ring.Holds (queue ++ [elem]) ∧ after.cap = buffer.cap := by
  obtain ⟨⟨success, after⟩, hpush, hring⟩ := Option.map_eq_some_iff.mp (push_ring (tail_lt h) elem)
  obtain ⟨hsuccess, hholds, hcap⟩ := h.push hspace elem
  rw [← hring] at hsuccess hholds hcap
  obtain rfl : success = true := hsuccess
  exact ⟨after, hpush, hholds, hcap⟩

theorem pop_empty (h : buffer.ring.Holds []) (out : ByteBlock elemSize) :
    ringbufPopBytes buffer out = some (false, out, buffer) := by
  have hlen : buffer.len = 0 := h.len_eq
  rw [ringbufPopBytes, if_pos hlen]

theorem pop (h : buffer.ring.Holds (elem :: queue)) (out : ByteBlock elemSize) :
    ∃ after, ringbufPopBytes buffer out = some (true, elem, after) ∧
      after.ring.Holds queue ∧ after.cap = buffer.cap := by
  obtain ⟨⟨success, value, after⟩, hpop, hring⟩ :=
    Option.map_eq_some_iff.mp (pop_ring h.head_lt out)
  obtain ⟨hsuccess, hvalue, hholds, hcap⟩ := h.pop (some out)
  rw [← hring] at hsuccess hvalue hholds hcap
  obtain rfl : success = true := hsuccess
  obtain rfl : value = elem := Option.some.inj hvalue
  exact ⟨after, hpop, hholds, hcap⟩

end Holds

end RingBufBytes

inductive RingCall (elemSize : ℕ)
  | push (elem : ByteBlock elemSize)
  | pop (out : ByteBlock elemSize)
  deriving DecidableEq, Repr

/-- The ring, the elements it took and the elements it gave back, in the order of the calls. -/
structure RingHistory (elemSize : ℕ) where
  buffer : RingBufBytes elemSize
  pushed : List (ByteBlock elemSize)
  popped : List (ByteBlock elemSize)

def RingHistory.call (history : RingHistory elemSize) :
    RingCall elemSize → Option (RingHistory elemSize)
  | .push elem =>
    (ringbufPushBytes history.buffer elem).map fun (success, buffer) =>
      { history with
        buffer := buffer
        pushed := if success then history.pushed ++ [elem] else history.pushed }
  | .pop out =>
    (ringbufPopBytes history.buffer out).map fun (success, value, buffer) =>
      { history with
        buffer := buffer
        popped := if success then history.popped ++ [value] else history.popped }

def ringbufRun (cap : ℕ) (memory : ByteBlock (cap * elemSize)) (calls : List (RingCall elemSize)) :
    Option (RingHistory elemSize) :=
  EventRun.run RingHistory.call ⟨ringbufCreateBytes cap memory, [], []⟩ calls

/-- What is left of the pushed elements when the popped ones are taken off the front. -/
structure RingHistory.Queues (cap : ℕ) (history : RingHistory elemSize)
    (queue : List (ByteBlock elemSize)) : Prop where
  cap_eq : history.buffer.cap = cap
  holds : history.buffer.ring.Holds queue
  pushed_eq : history.pushed = history.popped ++ queue

namespace RingHistory.Queues
variable {cap : ℕ} {history : RingHistory elemSize} {queue : List (ByteBlock elemSize)}

theorem push (h : history.Queues cap queue) (elem : ByteBlock elemSize) :
    ∃ after queue', history.call (.push elem) = some after ∧ after.Queues cap queue' := by
  by_cases hspace : queue.length < history.buffer.cap
  · obtain ⟨buffer, hpush, hholds, hcap⟩ := RingBufBytes.push h.holds hspace elem
    refine ⟨_, queue ++ [elem], by rw [call, hpush, Option.map_some], hcap.trans h.cap_eq, hholds, ?_⟩
    change history.pushed ++ [elem] = history.popped ++ (queue ++ [elem])
    rw [h.pushed_eq, List.append_assoc]
  · have hpush := RingBufBytes.push_full h.holds (Nat.not_lt.mp hspace) elem
    have hcall : history.call (.push elem) = some history := by
      rw [call, hpush]
      rfl
    exact ⟨history, queue, hcall, h⟩

theorem pop (h : history.Queues cap queue) (out : ByteBlock elemSize) :
    ∃ after queue', history.call (.pop out) = some after ∧ after.Queues cap queue' := by
  cases queue with
  | nil =>
    have hpop := RingBufBytes.pop_empty h.holds out
    have hcall : history.call (.pop out) = some history := by
      rw [call, hpop]
      rfl
    exact ⟨history, [], hcall, h⟩
  | cons elem queue =>
    obtain ⟨buffer, hpop, hholds, hcap⟩ := RingBufBytes.pop h.holds out
    refine ⟨_, queue, by rw [call, hpop, Option.map_some], hcap.trans h.cap_eq, hholds, ?_⟩
    change history.pushed = (history.popped ++ [elem]) ++ queue
    rw [h.pushed_eq, List.append_assoc, List.singleton_append]

end RingHistory.Queues

/-- No call copies outside the slots, and the elements leave in the order they came. -/
theorem ringbufRun_queues {cap : ℕ} (hcap : 0 < cap) (memory : ByteBlock (cap * elemSize))
    (calls : List (RingCall elemSize)) :
    ∃ history queue, ringbufRun cap memory calls = some history ∧ history.Queues cap queue := by
  induction calls using List.reverseRecOn with
  | nil => exact ⟨_, [], rfl, rfl, ⟨rfl, Nat.zero_le _, hcap, (Nat.zero_mod cap).symm,
      fun _ h => absurd h (Nat.not_lt_zero _)⟩, rfl⟩
  | append_singleton calls call ih =>
    obtain ⟨history, queue, hrun, hqueues⟩ := ih
    rw [ringbufRun] at hrun
    rw [ringbufRun, EventRun.run_append, hrun, Option.bind_some]
    cases call with
    | push elem => exact hqueues.push elem
    | pop out => exact hqueues.pop out

/-- The ring is a bounded queue: what each call does to a ring with these elements, and where its
indices stand. -/
structure RingBufBytes.BoundedFifo (buffer : RingBufBytes elemSize)
    (queue : List (ByteBlock elemSize)) : Prop where
  len_eq : buffer.len = queue.length
  tail_eq : buffer.tail = (buffer.head + buffer.len) % buffer.cap
  head_lt : buffer.head < buffer.cap
  tail_lt : buffer.tail < buffer.cap
  push : ∀ elem, ∃ success after, ringbufPushBytes buffer elem = some (success, after) ∧
    (success = true ↔ queue.length < buffer.cap) ∧ (success = false → after = buffer)
  pop : ∀ out, ∃ success value after, ringbufPopBytes buffer out = some (success, value, after) ∧
    (success = true ↔ 0 < queue.length) ∧ (success = true → queue.head? = some value) ∧
    (success = false → value = out ∧ after = buffer)

theorem RingBufBytes.boundedFifo {buffer : RingBufBytes elemSize}
    {queue : List (ByteBlock elemSize)} (h : buffer.ring.Holds queue) :
    buffer.BoundedFifo queue where
  len_eq := h.len_eq
  tail_eq := by
    rw [show buffer.len = queue.length from h.len_eq]
    exact h.tail_eq
  head_lt := h.head_lt
  tail_lt := RingBufBytes.tail_lt h
  push elem := by
    by_cases hspace : queue.length < buffer.cap
    · obtain ⟨after, hpush, -⟩ := RingBufBytes.push h hspace elem
      exact ⟨true, after, hpush, by simp [hspace], nofun⟩
    · have hpush := RingBufBytes.push_full h (Nat.not_lt.mp hspace) elem
      exact ⟨false, buffer, hpush, by simp [hspace], fun _ => rfl⟩
  pop out := by
    cases queue with
    | nil => exact ⟨false, out, buffer, RingBufBytes.pop_empty h out, by simp, nofun,
        fun _ => ⟨rfl, rfl⟩⟩
    | cons elem queue =>
      obtain ⟨after, hpop, -⟩ := RingBufBytes.pop h out
      exact ⟨true, elem, after, hpop, by simp, fun _ => rfl, nofun⟩

/-- After any calls the elements taken are those given back followed by those queued, in order and
byte for byte, and the ring is a bounded queue of the latter. -/
theorem ringbufRun_fifo {cap : ℕ} (hcap : 0 < cap) (memory : ByteBlock (cap * elemSize))
    (calls : List (RingCall elemSize)) :
    ∃ history queue, ringbufRun cap memory calls = some history ∧
      history.pushed = history.popped ++ queue ∧ history.buffer.cap = cap ∧
      history.buffer.BoundedFifo queue := by
  obtain ⟨history, queue, hrun, hqueues⟩ := ringbufRun_queues hcap memory calls
  exact ⟨history, queue, hrun, hqueues.pushed_eq, hqueues.cap_eq,
    RingBufBytes.boundedFifo hqueues.holds⟩

/-- Three elements of one byte through two slots. -/
theorem ringbufRun_fifo_wraps : 0 < 2 ∧ ∃ history queue,
    ringbufRun 2 (⟨[0, 0], rfl⟩ : ByteBlock (2 * 1))
      [.push ⟨[7], rfl⟩, .push ⟨[8], rfl⟩, .pop ⟨[0], rfl⟩, .push ⟨[9], rfl⟩] = some history ∧
    history.pushed = history.popped ++ queue ∧ history.buffer.cap = 2 ∧
    history.buffer.BoundedFifo queue :=
  ⟨by decide, ringbufRun_fifo (by decide) _ _⟩

end Redic
