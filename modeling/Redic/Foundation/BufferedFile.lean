import Mathlib.Data.List.Induction
import Mathlib.Tactic.Use

/-! # A buffered file over a cache and stable storage

A stream keeps written bytes in a buffer of its own and spills them to the cache of the operating
system when the buffer is full; a buffer of size zero spills every byte. That a buffer is spilled
by the byte that fills it is a choice of this model: a C library may keep a full buffer until the
next byte. A sync moves the cache to stable storage, and only what is stable survives a power
failure.
-/
namespace Redic.BufferedFile

structure Disk (β : Type) where
  stable : List β
  cache : List β
  deriving DecidableEq, Repr

structure Stream (β : Type) where
  disk : Disk β
  buffer : List β
  deriving DecidableEq, Repr

variable {β : Type}

def Disk.powerFailure (disk : Disk β) : Disk β := ⟨disk.stable, []⟩

def fopenAppend (disk : Disk β) : Stream β := ⟨disk, []⟩

def spill (file : Stream β) : Stream β :=
  ⟨{ file.disk with cache := file.disk.cache ++ file.buffer }, []⟩

def putByte (size : ℕ) (file : Stream β) (byte : β) : Stream β :=
  let file := { file with buffer := file.buffer ++ [byte] }
  if size ≤ file.buffer.length then spill file else file

def fwrite (size : ℕ) (file : Stream β) (bytes : List β) : Stream β :=
  bytes.foldl (putByte size) file

/-- The cache reaches stable storage, the stream's own buffer does not. -/
def fsync (file : Stream β) : Stream β :=
  { file with disk := ⟨file.disk.stable ++ file.disk.cache, []⟩ }

def fclose (file : Stream β) : Disk β := (spill file).disk

/-- Everything that was written to the file or is on its way there. -/
def Stream.contents (file : Stream β) : List β :=
  file.disk.stable ++ (file.disk.cache ++ file.buffer)

theorem putByte_keeps (size : ℕ) (file : Stream β) (byte : β) :
    (putByte size file byte).contents = file.contents ++ [byte] ∧
      (putByte size file byte).disk.stable = file.disk.stable ∧
      file.disk.cache <+: (putByte size file byte).disk.cache := by
  unfold putByte
  dsimp only
  split
  · simp [spill, Stream.contents]
  · simp [Stream.contents]

/-- Writing appends to the contents. It leaves what is stable alone and only adds to the cache. -/
theorem fwrite_keeps (size : ℕ) (file : Stream β) (bytes : List β) :
    (fwrite size file bytes).contents = file.contents ++ bytes ∧
      (fwrite size file bytes).disk.stable = file.disk.stable ∧
      file.disk.cache <+: (fwrite size file bytes).disk.cache := by
  induction bytes generalizing file with
  | nil => simp [fwrite]
  | cons byte bytes ih =>
    obtain ⟨hcontents, hstable, hcache⟩ := putByte_keeps size file byte
    obtain ⟨hcontents', hstable', hcache'⟩ := ih (putByte size file byte)
    rw [fwrite, List.foldl_cons]
    refine ⟨?_, hstable'.trans hstable, hcache.trans hcache'⟩
    exact hcontents'.trans (by rw [hcontents, List.append_assoc, List.singleton_append])

/-- How many of the bytes written to a fresh stream have left its buffer. -/
def spilled (size count : ℕ) : ℕ := count - count % max 1 size

theorem spilled_le (size count : ℕ) : spilled size count ≤ count := Nat.sub_le _ _

theorem spilled_eq_self (size count : ℕ) : spilled size count = count ↔ max 1 size ∣ count := by
  unfold spilled
  have hle := Nat.mod_le count (max 1 size)
  rw [Nat.dvd_iff_mod_eq_zero]
  omega

theorem spilled_succ (size count : ℕ) : spilled size (count + 1) =
    if size ≤ count - spilled size count + 1 then count + 1 else spilled size count := by
  unfold spilled
  generalize hn : max 1 size = n
  have hpos : 0 < n := by omega
  have hlt := Nat.mod_lt count hpos
  have hle := Nat.mod_le count n
  have hsucc : (count + 1) % n = if count % n + 1 = n then 0 else count % n + 1 := by
    split
    · rename_i hfull
      rw [← Nat.mod_add_mod, hfull, Nat.mod_self]
    · rename_i hroom
      rw [← Nat.mod_add_mod]
      exact Nat.mod_eq_of_lt (by omega)
  rw [hsucc]
  split <;> split <;> omega

theorem fwrite_fopenAppend (size : ℕ) (disk : Disk β) (bytes : List β) :
    fwrite size (fopenAppend disk) bytes =
      ⟨⟨disk.stable, disk.cache ++ bytes.take (spilled size bytes.length)⟩,
        bytes.drop (spilled size bytes.length)⟩ := by
  induction bytes using List.reverseRecOn with
  | nil => simp [fwrite, fopenAppend]
  | append_singleton bytes byte ih =>
    have hle := spilled_le size bytes.length
    have hbuffer : (bytes.drop (spilled size bytes.length) ++ [byte]).length =
        bytes.length - spilled size bytes.length + 1 := by simp
    rw [fwrite, List.foldl_append, List.foldl_cons, List.foldl_nil]
    change putByte size (fwrite size (fopenAppend disk) bytes) byte = _
    rw [ih, List.length_append, List.length_singleton, spilled_succ]
    unfold putByte
    dsimp only
    rw [hbuffer]
    split
    · have hall : (bytes ++ [byte]).length = bytes.length + 1 := by simp
      rw [← hall, List.take_length, List.drop_length]
      unfold spill
      dsimp only
      rw [List.append_assoc, ← List.append_assoc (bytes.take _), List.take_append_drop]
    · rw [List.take_append_of_le_length hle, List.drop_append_of_le_length hle]

end Redic.BufferedFile
