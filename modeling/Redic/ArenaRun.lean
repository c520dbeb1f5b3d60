import Mathlib.Data.List.Induction
import Redic.Arena

/-! # Runs of an arena

Requests and resets arrive in any order. A block created for one request is searched for all later
ones, and an overflow block claims less than was asked from `malloc` for it. What keeps the live
regions apart is that all of them lie below the bump pointers, where no allocation goes.
-/
namespace Redic

inductive ArenaCall
  | alloc (size : ℕ)
  | reset
  deriving DecidableEq, Repr

/-- The arena, and the regions returned since the last reset or the creation, latest first. -/
structure ArenaHistory where
  arena : Arena
  live : List Region
  deriving DecidableEq, Repr

def ArenaHistory.call (history : ArenaHistory) : ArenaCall → ArenaHistory
  | .alloc size =>
    let (arena, region) := arenaAlloc history.arena size
    ⟨arena, region :: history.live⟩
  | .reset => ⟨arenaReset history.arena, []⟩

def arenaRun (calls : List ArenaCall) : ArenaHistory :=
  calls.foldl ArenaHistory.call ⟨arenaCreate, []⟩

def ArenaCall.request (sizes : List ℕ) : ArenaCall → List ℕ
  | .alloc size => size :: sizes
  | .reset => []

/-- The sizes requested since the last reset, latest first. -/
def requested (calls : List ArenaCall) : List ℕ := calls.foldl ArenaCall.request []

structure ArenaBlock.Sound (block : ArenaBlock) : Prop where
  current_le : block.current ≤ block.size
  size_le : block.size ≤ block.capacity

/-- The region lies inside the bytes asked from `malloc` for its block. -/
def Region.Inside (region : Region) (arena : Arena) : Prop :=
  ∃ block, arena[region.block]? = some block ∧ region.offset + region.size ≤ block.capacity

structure ArenaHistory.Sound (history : ArenaHistory) : Prop where
  blocks : ∀ block ∈ history.arena, block.Sound
  below : ∀ region ∈ history.live, region.Below history.arena
  disjoint : history.live.Pairwise Region.Disjoint

theorem Region.Below.inside {region : Region} {arena : Arena} (h : region.Below arena)
    (hblocks : ∀ block ∈ arena, block.Sound) : region.Inside arena := by
  obtain ⟨block, hblock, hle⟩ := h
  have hsound := hblocks block (List.mem_of_getElem? hblock)
  exact ⟨block, hblock, Nat.le_trans hle (Nat.le_trans hsound.current_le hsound.size_le)⟩

theorem arenaAlloc_blocks {arena : Arena} (h : ∀ block ∈ arena, block.Sound) (size : ℕ) :
    ∀ block ∈ (arenaAlloc arena size).1, block.Sound := by
  induction arena with
  | nil =>
    intro block hmem
    obtain rfl := List.mem_singleton.mp hmem
    exact ⟨Nat.le_refl _, Nat.le_max_left _ _⟩
  | cons first next ih =>
    obtain ⟨hfirst, hnext⟩ := List.forall_mem_cons.mp h
    rw [arenaAlloc]
    split
    · rename_i hroom
      have hle := hfirst.current_le
      refine List.forall_mem_cons.mpr ⟨⟨?_, hfirst.size_le⟩, hnext⟩
      change first.current + size ≤ first.size
      omega
    · exact List.forall_mem_cons.mpr ⟨hfirst, ih hnext⟩

theorem arenaReset_blocks {arena : Arena} (h : ∀ block ∈ arena, block.Sound) :
    ∀ block ∈ arenaReset arena, block.Sound := by
  intro block hmem
  obtain ⟨before, hbefore, rfl⟩ := List.mem_map.mp hmem
  exact ⟨Nat.zero_le _, (h before hbefore).size_le⟩

namespace ArenaHistory.Sound
variable {history : ArenaHistory}

theorem create : ArenaHistory.Sound ⟨arenaCreate, []⟩ where
  blocks block hmem := by
    obtain rfl := List.mem_singleton.mp hmem
    exact ⟨Nat.zero_le _, Nat.le_refl _⟩
  below _ hmem := absurd hmem List.not_mem_nil
  disjoint := List.Pairwise.nil

theorem alloc (h : history.Sound) (size : ℕ) : (history.call (.alloc size)).Sound where
  blocks := arenaAlloc_blocks h.blocks size
  below := by
    refine List.forall_mem_cons.mpr ⟨arenaAlloc_below history.arena size, ?_⟩
    intro region hmem
    exact (h.below region hmem).alloc size
  disjoint := by
    refine List.pairwise_cons.mpr ⟨?_, h.disjoint⟩
    intro region hmem
    exact ((h.below region hmem).disjoint size).symm

theorem reset (h : history.Sound) : (history.call .reset).Sound where
  blocks := arenaReset_blocks h.blocks
  below _ hmem := absurd hmem List.not_mem_nil
  disjoint := List.Pairwise.nil

theorem call (h : history.Sound) (call : ArenaCall) : (history.call call).Sound := by
  cases call with
  | alloc size => exact h.alloc size
  | reset => exact h.reset

end ArenaHistory.Sound

theorem arenaRun_append (calls : List ArenaCall) (call : ArenaCall) :
    arenaRun (calls ++ [call]) = (arenaRun calls).call call := by
  rw [arenaRun, List.foldl_append]
  rfl

theorem arenaRun_sound (calls : List ArenaCall) : (arenaRun calls).Sound := by
  induction calls using List.reverseRecOn with
  | nil => exact .create
  | append_singleton calls call ih =>
    rw [arenaRun_append]
    exact ih.call call

theorem arenaRun_sizes (calls : List ArenaCall) :
    (arenaRun calls).live.map Region.size = requested calls := by
  induction calls using List.reverseRecOn with
  | nil => rfl
  | append_singleton calls call ih =>
    rw [arenaRun_append, requested, List.foldl_append]
    cases call with
    | alloc size =>
      change (arenaAlloc _ size).2.size :: (arenaRun calls).live.map Region.size = _
      rw [arenaAlloc_size, ih]
      rfl
    | reset => rfl

/-- After any calls the live regions are as large as requested, share no byte and lie inside the
memory of their blocks, and no bump pointer is past the size of its block. -/
theorem arenaRun_regions (calls : List ArenaCall) :
    (arenaRun calls).live.map Region.size = requested calls ∧
      (arenaRun calls).live.Pairwise Region.Disjoint ∧
      (∀ region ∈ (arenaRun calls).live, region.Inside (arenaRun calls).arena) ∧
      ∀ block ∈ (arenaRun calls).arena,
        block.current ≤ block.size ∧ block.size ≤ block.capacity := by
  have h := arenaRun_sound calls
  refine ⟨arenaRun_sizes calls, h.disjoint, ?_, ?_⟩
  · intro region hmem
    exact (h.below region hmem).inside h.blocks
  · intro block hmem
    exact ⟨(h.blocks block hmem).current_le, (h.blocks block hmem).size_le⟩

end Redic
