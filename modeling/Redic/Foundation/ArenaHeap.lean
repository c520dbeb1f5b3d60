import Mathlib.Data.List.Perm.Basic
import Mathlib.Data.Option.Basic
import Mathlib.Logic.Function.Basic

/-! # Arenas with owners

A heap maps the addresses of the arenas that are alive to the cells in them. An arena is created
empty, grows by one cell at a time and is destroyed with all its cells, and its address may be
handed out again. When every owner has an arena of its own, what one of them does leaves the
cells of the others as they are.
-/
namespace Redic.ArenaHeap

variable {α : Type}

abbrev Heap (α : Type) := ℕ → Option (List α)

structure Pointer where
  arena : ℕ
  index : ℕ
  deriving DecidableEq, Repr

/-- An arena and the cells in it that its owner still needs. -/
structure Block where
  arena : ℕ
  cells : List Pointer
  deriving DecidableEq, Repr

def create (heap : Heap α) (arena : ℕ) : Option (Heap α) :=
  match heap arena with
  | none => some (Function.update heap arena (some []))
  | some _ => none

def alloc (heap : Heap α) (arena : ℕ) (cell : α) : Option (Heap α × Pointer) :=
  (heap arena).map fun cells =>
    (Function.update heap arena (some (cells ++ [cell])), ⟨arena, cells.length⟩)

def load (heap : Heap α) (pointer : Pointer) : Option α :=
  (heap pointer.arena).bind fun cells => cells[pointer.index]?

def destroy (heap : Heap α) (arena : ℕ) : Option (Heap α) :=
  (heap arena).map fun _ => Function.update heap arena none

def values (heap : Heap α) (pointers : List Pointer) : List α := pointers.filterMap (load heap)

/-- The pointers of the blocks lead to the same cells. -/
def Agree (heap heap' : Heap α) (blocks : List Block) : Prop :=
  ∀ block ∈ blocks, ∀ pointer ∈ block.cells, load heap' pointer = load heap pointer

/-- Every block has an arena of its own and points into it, and no other arena is alive. -/
structure Owned (heap : Heap α) (blocks : List Block) : Prop where
  nodup : (blocks.map Block.arena).Nodup
  alive : ∀ arena, (heap arena).isSome = true ↔ arena ∈ blocks.map Block.arena
  valid : ∀ block ∈ blocks, ∀ pointer ∈ block.cells,
    pointer.arena = block.arena ∧ (load heap pointer).isSome = true

variable {heap heap' : Heap α} {blocks blocks' : List Block} {arena : ℕ} {cells : List Pointer}

theorem load_update_of_ne {pointer : Pointer} {contents : Option (List α)}
    (h : pointer.arena ≠ arena) :
    load (Function.update heap arena contents) pointer = load heap pointer := by
  rw [load, load, Function.update_of_ne h]

theorem values_congr {pointers : List Pointer}
    (h : ∀ pointer ∈ pointers, load heap' pointer = load heap pointer) :
    values heap' pointers = values heap pointers :=
  List.filterMap_congr h

theorem values_append (pointers others : List Pointer) :
    values heap (pointers ++ others) = values heap pointers ++ values heap others :=
  List.filterMap_append ..

theorem values_cons {pointer : Pointer} {value : α} (h : load heap pointer = some value)
    (pointers : List Pointer) :
    values heap (pointer :: pointers) = value :: values heap pointers := by
  rw [values, List.filterMap_cons_some h]
  rfl

theorem length_values {pointers : List Pointer}
    (h : ∀ pointer ∈ pointers, (load heap pointer).isSome = true) :
    (values heap pointers).length = pointers.length := by
  induction pointers with
  | nil => rfl
  | cons pointer pointers ih =>
    obtain ⟨hfirst, hrest⟩ := List.forall_mem_cons.mp h
    obtain ⟨value, hvalue⟩ := Option.isSome_iff_exists.mp hfirst
    rw [values_cons hvalue, List.length_cons, List.length_cons, ih hrest]

theorem owned_empty : Owned (fun _ => none : Heap α) [] where
  nodup := List.nodup_nil
  alive arena := by simp
  valid block h := absurd h List.not_mem_nil

theorem Owned.perm (h : Owned heap blocks) (hperm : blocks.Perm blocks') : Owned heap blocks' where
  nodup := (hperm.map Block.arena).nodup_iff.mp h.nodup
  alive arena := (h.alive arena).trans (hperm.map Block.arena).mem_iff
  valid block hblock := h.valid block (hperm.mem_iff.mpr hblock)

theorem Agree.mono (h : Agree heap heap' blocks) (hsub : blocks' ⊆ blocks) :
    Agree heap heap' blocks' :=
  fun block hblock => h block (hsub hblock)

theorem Agree.trans {heap'' : Heap α} (h : Agree heap heap' blocks) (h' : Agree heap' heap'' blocks) :
    Agree heap heap'' blocks := by
  intro block hblock pointer hpointer
  rw [h' block hblock pointer hpointer, h block hblock pointer hpointer]

theorem Owned.agree_update (h : Owned heap (⟨arena, cells⟩ :: blocks))
    (contents : Option (List α)) : Agree heap (Function.update heap arena contents) blocks := by
  intro block hblock pointer hpointer
  obtain ⟨hinto, -⟩ := h.valid block (List.mem_cons_of_mem _ hblock) pointer hpointer
  refine load_update_of_ne ?_
  rintro rfl
  have hnodup := List.nodup_cons.mp h.nodup
  exact hnodup.1 (List.mem_map.mpr ⟨block, hblock, hinto.symm⟩)

theorem create_eq_some : create heap arena = some heap' ↔
    heap arena = none ∧ heap' = Function.update heap arena (some []) := by
  unfold create
  cases heap arena <;> simp [eq_comm]

theorem Owned.create (h : Owned heap blocks) (hcreate : create heap arena = some heap') :
    Owned heap' (⟨arena, []⟩ :: blocks) ∧ Agree heap heap' blocks := by
  obtain ⟨hfree, rfl⟩ := create_eq_some.mp hcreate
  have hfresh : arena ∉ blocks.map Block.arena := by
    rw [← h.alive arena, hfree]
    exact Bool.false_ne_true
  have hagree : Agree heap (Function.update heap arena (some [])) blocks := by
    intro block hblock pointer hpointer
    obtain ⟨hinto, -⟩ := h.valid block hblock pointer hpointer
    refine load_update_of_ne ?_
    rintro rfl
    exact hfresh (List.mem_map.mpr ⟨block, hblock, hinto.symm⟩)
  refine ⟨⟨List.nodup_cons.mpr ⟨hfresh, h.nodup⟩, ?_, ?_⟩, hagree⟩
  · intro other
    rw [List.map_cons, List.mem_cons, ← h.alive other]
    by_cases heq : other = arena
    · simp [heq]
    · simp [heq]
  · intro block hblock pointer hpointer
    rcases List.mem_cons.mp hblock with rfl | hblock
    · cases hpointer
    · rw [hagree block hblock pointer hpointer]
      exact h.valid block hblock pointer hpointer

/-- An allocation in an owned arena goes through, and nothing that is pointed at moves. -/
theorem Owned.alloc (h : Owned heap (⟨arena, cells⟩ :: blocks)) (cell : α) :
    ∃ heap' pointer, alloc heap arena cell = some (heap', pointer) ∧
      Owned heap' (⟨arena, cells ++ [pointer]⟩ :: blocks) ∧
      load heap' pointer = some cell ∧ Agree heap heap' (⟨arena, cells⟩ :: blocks) := by
  obtain ⟨contents, hcontents⟩ := Option.isSome_iff_exists.mp
    ((h.alive arena).mpr List.mem_cons_self)
  let grown := Function.update heap arena (some (contents ++ [cell]))
  have hgrown : grown arena = some (contents ++ [cell]) := Function.update_self ..
  have hcell : load grown ⟨arena, contents.length⟩ = some cell := by
    simp [load, hgrown]
  have hagree : Agree heap grown (⟨arena, cells⟩ :: blocks) := by
    intro block hblock pointer hpointer
    rcases List.mem_cons.mp hblock with rfl | hblock
    · -- an old cell is before the new one
      obtain ⟨hinto, hsome⟩ := h.valid _ List.mem_cons_self pointer hpointer
      obtain ⟨value, hvalue⟩ := Option.isSome_iff_exists.mp hsome
      simp only at hinto
      rw [load, hinto, hcontents, Option.bind_some] at hvalue
      have hlt := (List.getElem?_eq_some_iff.mp hvalue).1
      rw [load, load, hinto, hgrown, hcontents, Option.bind_some, Option.bind_some,
        List.getElem?_append_left hlt]
    · exact h.agree_update _ block hblock pointer hpointer
  refine ⟨grown, ⟨arena, contents.length⟩, by rw [ArenaHeap.alloc, hcontents]; rfl,
    ⟨h.nodup, ?_, ?_⟩, hcell, hagree⟩
  · intro other
    rw [List.map_cons, List.mem_cons]
    have halive := h.alive other
    rw [List.map_cons, List.mem_cons] at halive
    by_cases heq : other = arena
    · simp [heq, hgrown]
    · rw [show grown other = heap other from Function.update_of_ne heq _ _]
      exact halive
  · intro block hblock pointer hpointer
    rcases List.mem_cons.mp hblock with rfl | hblock
    · rcases List.mem_append.mp hpointer with hpointer | hpointer
      · rw [hagree _ List.mem_cons_self pointer hpointer]
        exact h.valid _ List.mem_cons_self pointer hpointer
      · rw [List.mem_singleton.mp hpointer, hcell]
        exact ⟨rfl, rfl⟩
    · rw [hagree _ (List.mem_cons_of_mem _ hblock) pointer hpointer]
      exact h.valid _ (List.mem_cons_of_mem _ hblock) pointer hpointer

/-- The owner of an arena can destroy it, and nobody else notices. -/
theorem Owned.destroy (h : Owned heap (⟨arena, cells⟩ :: blocks)) :
    ∃ heap', destroy heap arena = some heap' ∧ Owned heap' blocks ∧ Agree heap heap' blocks := by
  obtain ⟨contents, hcontents⟩ := Option.isSome_iff_exists.mp
    ((h.alive arena).mpr List.mem_cons_self)
  obtain ⟨hfresh, hnodup⟩ := List.nodup_cons.mp h.nodup
  have hagree := h.agree_update none
  refine ⟨_, by rw [ArenaHeap.destroy, hcontents]; rfl, ⟨hnodup, ?_, ?_⟩, hagree⟩
  · intro other
    have halive := h.alive other
    rw [List.map_cons, List.mem_cons] at halive
    by_cases heq : other = arena
    · subst heq
      simpa using hfresh
    · rw [Function.update_of_ne heq, halive, or_iff_right heq]
  · intro block hblock pointer hpointer
    rw [hagree block hblock pointer hpointer]
    exact h.valid block (List.mem_cons_of_mem _ hblock) pointer hpointer

theorem Owned.forget {pointer : Pointer} (h : Owned heap (⟨arena, pointer :: cells⟩ :: blocks)) :
    (∃ value, load heap pointer = some value) ∧ Owned heap (⟨arena, cells⟩ :: blocks) := by
  refine ⟨Option.isSome_iff_exists.mp (h.valid _ List.mem_cons_self _ List.mem_cons_self).2,
    h.nodup, h.alive, ?_⟩
  intro block hblock other hother
  rcases List.mem_cons.mp hblock with rfl | hblock
  · exact h.valid _ List.mem_cons_self other (List.mem_cons_of_mem _ hother)
  · exact h.valid block (List.mem_cons_of_mem _ hblock) other hother

end Redic.ArenaHeap
