import Redic.Foundation.BufferedFile
import Redic.Potty.Pipeline
import Redic.Potty.Serializer

/-! # One flush

A flush opens the file for appending, writes the records of the job, syncs and closes. The sync
comes before the stream is flushed, so it reaches only the bytes the buffer has spilled by then;
closing hands the rest to the cache.
-/
namespace Redic
open BufferedFile

/-- The file and the buffer size of its streams are parameters. -/
def performFlush (size : ℕ) (disk : Disk UInt8) (job : FlushJob) : Disk UInt8 :=
  let aof := fopenAppend disk
  let aof := job.foldl (pottySerializeMutation (fwrite size)) aof
  let aof := fsync aof
  fclose aof

/-- A power failure after the flush loses nothing of the file, the records of the job included. -/
def FlushDurable (size : ℕ) (disk : Disk UInt8) (job : FlushJob) : Prop :=
  (performFlush size disk job).powerFailure.stable =
    disk.stable ++ disk.cache ++ serializedLog job

theorem fwrite_writesBytes (size : ℕ) : WritesBytes (fwrite (β := UInt8) size) where
  nil _ := rfl
  append _ _ _ := List.foldl_append

/-- What a flush leaves: the spilled bytes are stable, the others are in the cache. -/
theorem performFlush_eq (size : ℕ) (disk : Disk UInt8) (job : FlushJob) :
    performFlush size disk job =
      ⟨disk.stable ++ (disk.cache ++
          (serializedLog job).take (spilled size (serializedLog job).length)),
        (serializedLog job).drop (spilled size (serializedLog job).length)⟩ := by
  unfold performFlush
  dsimp only
  rw [serializeAll_eq (fwrite_writesBytes size), ← serializedLog_eq, fwrite_fopenAppend]
  rfl

/-- A finished flush is durable exactly when its bytes fill the stream's buffer a whole number of
times, or the stream has none. A C library that keeps a full buffer syncs one buffer less. -/
theorem performFlush_durable_iff (size : ℕ) (disk : Disk UInt8) (job : FlushJob) :
    FlushDurable size disk job ↔ size = 0 ∨ size ∣ (serializedLog job).length := by
  have hsize : (size = 0 ∨ size ∣ (serializedLog job).length) ↔
      max 1 size ∣ (serializedLog job).length := by
    rcases Nat.eq_zero_or_pos size with rfl | hpos
    · simp
    · rw [Nat.max_eq_right hpos]
      exact or_iff_right (Nat.ne_of_gt hpos)
  rw [hsize, ← spilled_eq_self]
  unfold FlushDurable Disk.powerFailure
  rw [performFlush_eq]
  dsimp only
  rw [← List.append_assoc, List.append_cancel_left_eq]
  constructor
  · intro htake
    have hlen := congrArg List.length htake
    rw [List.length_take_of_le (spilled_le ..)] at hlen
    exact hlen
  · intro hall
    rw [hall, List.take_length]

/-- A short job stays in the buffer over the sync and is lost. -/
theorem performFlush_not_durable :
    ¬ ∀ (size : ℕ) (disk : Disk UInt8) (job : FlushJob), FlushDurable size disk job := by
  intro h
  have hdel := h 4096 ⟨[], []⟩ [.del [97]]
  exact absurd hdel (by unfold FlushDurable; decide)

end Redic
