import Mathlib.Data.List.Basic
import Mathlib.Tactic.Use

/-! # Arenas

An arena is a chain of blocks with a bump pointer each. An allocation takes the first block with
room and appends a block when none has; a reset only rewinds the pointers. The memory of an
arena keeps, for each region, the object last written there: a write drops every object it
overlaps, whatever the pointers say.
-/
namespace Redic

/-- One `Arena` node. `capacity` is what was asked from `malloc`, `size` what the node claims. -/
structure ArenaBlock where
  size : ℕ
  current : ℕ
  capacity : ℕ
  deriving DecidableEq, Repr

abbrev Arena := List ArenaBlock

/-- The bytes one allocation returns. -/
structure Region where
  block : ℕ
  offset : ℕ
  size : ℕ
  deriving DecidableEq, Repr

def arenaPageSize : ℕ := 4096

def arenaCreate : Arena := [⟨arenaPageSize, 0, arenaPageSize⟩]

/-- The end of the chain stands for `arena->next == NULL`. -/
def arenaAlloc : Arena → ℕ → Arena × Region
  | [], size => ([⟨size, size, max size arenaPageSize⟩], ⟨0, 0, size⟩)
  | block :: next, size =>
    if size ≤ block.size - block.current then
      ({ block with current := block.current + size } :: next, ⟨0, block.current, size⟩)
    else
      let (next, region) := arenaAlloc next size
      (block :: next, { region with block := region.block + 1 })

def arenaReset (arena : Arena) : Arena := arena.map fun block => { block with current := 0 }

namespace Region

/-- The regions share no byte. -/
def Disjoint (a b : Region) : Prop :=
  a.block ≠ b.block ∨ a.offset + a.size ≤ b.offset ∨ b.offset + b.size ≤ a.offset
  deriving Decidable

theorem Disjoint.symm {a b : Region} (h : a.Disjoint b) : b.Disjoint a := by
  rcases h with hblock | hbefore | hafter
  · exact Or.inl hblock.symm
  · exact Or.inr (Or.inr hbefore)
  · exact Or.inr (Or.inl hafter)

/-- The region lies below the bump pointer of its block. -/
def Below (region : Region) (arena : Arena) : Prop :=
  ∃ block, arena[region.block]? = some block ∧ region.offset + region.size ≤ block.current

end Region

theorem arenaAlloc_size (arena : Arena) (size : ℕ) : (arenaAlloc arena size).2.size = size := by
  induction arena with
  | nil => rfl
  | cons block next ih =>
    rw [arenaAlloc]
    split
    · rfl
    · exact ih

theorem arenaAlloc_below (arena : Arena) (size : ℕ) :
    (arenaAlloc arena size).2.Below (arenaAlloc arena size).1 := by
  induction arena with
  | nil => exact ⟨_, rfl, Nat.le_of_eq (Nat.zero_add size)⟩
  | cons block next ih =>
    rw [arenaAlloc]
    split
    · exact ⟨_, rfl, Nat.le_refl _⟩
    · exact ih

theorem Region.Below.kept {region : Region} {arena : Arena} (h : region.Below arena) (size : ℕ) :
    region.Below (arenaAlloc arena size).1 ∧ region.Disjoint (arenaAlloc arena size).2 := by
  obtain ⟨index, offset, extent⟩ := region
  obtain ⟨block, hblock, hle⟩ := h
  dsimp only at hblock hle
  induction arena generalizing index with
  | nil => cases hblock
  | cons first next ih =>
    rw [arenaAlloc]
    cases index with
    | zero =>
      cases hblock
      split
      · exact ⟨⟨_, rfl, Nat.le_trans hle (Nat.le_add_right _ _)⟩, Or.inr (Or.inl hle)⟩
      · exact ⟨⟨_, rfl, hle⟩, Or.inl (Nat.succ_ne_zero _).symm⟩
    | succ index =>
      split
      · exact ⟨⟨block, hblock, hle⟩, Or.inl (Nat.succ_ne_zero _)⟩
      · obtain ⟨hbelow, hdisjoint⟩ := ih index hblock
        refine ⟨hbelow, ?_⟩
        rcases hdisjoint with hne | hlt
        · exact Or.inl fun he => hne (Nat.succ.inj he)
        · exact Or.inr hlt

theorem Region.Below.alloc {region : Region} {arena : Arena} (h : region.Below arena)
    (size : ℕ) : region.Below (arenaAlloc arena size).1 := (h.kept size).1

theorem Region.Below.disjoint {region : Region} {arena : Arena} (h : region.Below arena)
    (size : ℕ) : region.Disjoint (arenaAlloc arena size).2 := (h.kept size).2

/-- The objects in the bytes of an arena. -/
abbrev ArenaMemory (O : Type) := List (Region × O)

namespace ArenaMemory
variable {O : Type} {memory : ArenaMemory O} {region kept : Region}

def read (memory : ArenaMemory O) (region : Region) : Option O := memory.lookup region

/-- The objects that do not touch the region survive. -/
def overwrite (memory : ArenaMemory O) (region : Region) : ArenaMemory O :=
  memory.filter fun cell => decide (cell.1.Disjoint region)

def write (memory : ArenaMemory O) (region : Region) (object : O) : ArenaMemory O :=
  (region, object) :: memory.overwrite region

theorem read_overwrite (h : kept.Disjoint region) :
    (memory.overwrite region).read kept = memory.read kept := by
  unfold read overwrite
  induction memory with
  | nil => rfl
  | cons cell memory ih =>
    obtain ⟨place, object⟩ := cell
    by_cases hplace : kept = place
    · subst hplace
      rw [List.filter_cons_of_pos (by simpa using h), List.lookup_cons_self, List.lookup_cons_self]
    · have hne : (kept == place) = false := beq_eq_false_iff_ne.mpr hplace
      rw [List.lookup_cons, hne, ← ih]
      by_cases hdisjoint : place.Disjoint region
      · rw [List.filter_cons_of_pos (by simpa using hdisjoint), List.lookup_cons, hne]
      · rw [List.filter_cons_of_neg (by simpa using hdisjoint)]

theorem read_write_same (object : O) : (memory.write region object).read region = some object :=
  List.lookup_cons_self

theorem read_write (hsize : 0 < kept.size) (h : kept.Disjoint region) (object : O) :
    (memory.write region object).read kept = memory.read kept := by
  have hne : (kept == region) = false := by
    refine beq_eq_false_iff_ne.mpr ?_
    rintro rfl
    rcases h with hblock | hbefore | hafter
    · exact hblock rfl
    · omega
    · omega
  rw [write, read, List.lookup_cons, hne]
  exact read_overwrite h

end ArenaMemory

end Redic
