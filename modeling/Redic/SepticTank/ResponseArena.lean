import Redic.Arena
import Redic.SepticTank.Resolve

/-! # What the tank keeps in a client's arena

The result of an operation, the copy made for the reply, the resolved mutation and the response
message are all allocated from the response arena of the operation, which belongs to the client.
The key and the value of the operation itself lie in the arena of the request message; only the
text of an incremented counter is a value in the response arena.
-/
namespace Redic

/-- Sizes on a 64-bit target. -/
def sizeofSepticTankResult : ℕ := 40
def sizeofSepticTankMutation : ℕ := 32
def sizeofSewerMessage : ℕ := 32
def offsetofIsConsumed : ℕ := 16

/-- Pointers into the arena are regions. `data` stands for whatever the client put there. -/
inductive ArenaObject
  | result (resolvedMutation : Option Region)
  | text (str : DataString)
  | mutation (mutation : SepticTankMutation) (arenaValue : Option Region)
  | message (value : Region) (isConsumed : Bool)
  | data
  deriving DecidableEq, Repr

/-- The arena of a client with the bytes in it. -/
structure ClientArena where
  blocks : Arena
  memory : ArenaMemory ArenaObject
  deriving DecidableEq, Repr

def SepticTankMutation.withValue (value : DataString) : SepticTankMutation → SepticTankMutation
  | set mutation => .set { mutation with value := value }
  | del key => .del key
  | expire mutation => .expire mutation

namespace ClientArena

def create : ClientArena := ⟨arenaCreate, []⟩

def alloc (a : ClientArena) (size : ℕ) (object : ArenaObject) : ClientArena × Region :=
  let (blocks, region) := arenaAlloc a.blocks size
  (⟨blocks, a.memory.write region object⟩, region)

def assign (a : ClientArena) (region : Region) (object : ArenaObject) : ClientArena :=
  { a with memory := a.memory.write region object }

def allocData (a : ClientArena) (sizes : List ℕ) : ClientArena :=
  sizes.foldl (fun a size => (a.alloc size .data).1) a

def dataRegions : Arena → List ℕ → List Region
  | _, [] => []
  | blocks, size :: sizes =>
    (arenaAlloc blocks size).2 :: dataRegions (arenaAlloc blocks size).1 sizes

def reset (a : ClientArena) : ClientArena := { a with blocks := arenaReset a.blocks }

/-- `arena_destroy`: the bytes are given back. -/
def destroy (a : ClientArena) : ClientArena := { a with memory := [] }

def allocText (a : ClientArena) : Option DataString → ClientArena × Option Region
  | none => (a, none)
  | some str =>
    let (a, region) := a.alloc (sizeofDataString + str.length) (.text str)
    (a, some region)

/-- `response_message->is_consumed = true`. Without the message there, one foreign byte changes. -/
def markConsumed (a : ClientArena) (response : Region) : ClientArena :=
  match a.memory.read response with
  | some (.message value _) => a.assign response (.message value true)
  | _ =>
    let flag : Region := ⟨response.block, response.offset + offsetofIsConsumed, 1⟩
    { a with memory := a.memory.overwrite flag }

end ClientArena

/-- The one string a resolve function allocates: the old or read value it copies for the reply,
or the new text of a counter. -/
def resolveText (result : SepticTankResult) : Option DataString :=
  match result.value, result.resolvedMutation with
  | .setResult oldValue, _ => oldValue
  | .getResult value, _ => value
  | .incrbyResult _, some (.set mutation) => some mutation.value
  | _, _ => none

/-- The pointer in the mutation's value field, when it leads into the arena. -/
def arenaValue (result : SepticTankResult) (text : Option Region) : Option Region :=
  match result.value with
  | .incrbyResult _ => text
  | _ => none

/-- `result->resolved_mutation` gets a new mutation. -/
def ClientArena.linkMutation (a : ClientArena) (result : Region) (mutation : SepticTankMutation)
    (value : Option Region) : ClientArena :=
  let resolved := a.alloc sizeofSepticTankMutation (.mutation mutation value)
  resolved.1.assign result (.result (some resolved.2))

def resolveAllocs (a : ClientArena) (result : SepticTankResult) : ClientArena × Region :=
  let first := a.alloc sizeofSepticTankResult (.result none)
  let text := first.1.allocText (resolveText result)
  match result.resolvedMutation with
  | none => (text.1, first.2)
  | some mutation => (text.1.linkMutation first.2 mutation (arenaValue result text.2), first.2)

/-- Reading a mutation through its pointer; nothing when the bytes hold something else. -/
def readMutation (memory : ArenaMemory ArenaObject) (region : Region) :
    Option SepticTankMutation :=
  match memory.read region with
  | some (.mutation mutation none) => some mutation
  | some (.mutation mutation (some value)) =>
    match memory.read value with
    | some (.text str) => some (mutation.withValue str)
    | _ => none
  | _ => none

def resolvedPointer (memory : ArenaMemory ArenaObject) (region : Region) :
    Option (Option Region) :=
  match memory.read region with
  | some (.result resolved) => some resolved
  | _ => none

def readResolved (memory : ArenaMemory ArenaObject) (region : Region) :
    Option (Option SepticTankMutation) :=
  match resolvedPointer memory region with
  | none => none
  | some none => some none
  | some (some resolved) => (readMutation memory resolved).map some

def valuePointer (memory : ArenaMemory ArenaObject) (region : Region) : List Region :=
  match memory.read region with
  | some (.mutation _ (some value)) => [value]
  | _ => []

/-- The regions the read of a resolved mutation passes through. -/
def footprint (memory : ArenaMemory ArenaObject) (region : Region) : List Region :=
  match resolvedPointer memory region with
  | some (some resolved) => region :: resolved :: valuePointer memory resolved
  | _ => [region]

theorem mem_footprint_self (memory : ArenaMemory ArenaObject) (region : Region) :
    region ∈ footprint memory region := by
  unfold footprint
  split <;> exact List.mem_cons_self

theorem readMutation_congr {memory memory' : ArenaMemory ArenaObject} {region : Region}
    (hself : memory'.read region = memory.read region)
    (hvalue : ∀ value ∈ valuePointer memory region, memory'.read value = memory.read value) :
    readMutation memory' region = readMutation memory region ∧
      valuePointer memory' region = valuePointer memory region := by
  unfold readMutation valuePointer at *
  rw [hself]
  split
  · exact ⟨rfl, rfl⟩
  · rename_i mutation value hread
    rw [hread] at hvalue
    rw [hvalue value (List.mem_singleton_self value)]
    exact ⟨rfl, rfl⟩
  · exact ⟨rfl, rfl⟩

theorem readResolved_congr {memory memory' : ArenaMemory ArenaObject} {region : Region}
    (h : ∀ kept ∈ footprint memory region, memory'.read kept = memory.read kept) :
    readResolved memory' region = readResolved memory region ∧
      footprint memory' region = footprint memory region := by
  have hself := h region (mem_footprint_self memory region)
  have hpointer : resolvedPointer memory' region = resolvedPointer memory region := by
    unfold resolvedPointer
    rw [hself]
  unfold readResolved footprint at *
  rw [hpointer]
  cases hresolved : resolvedPointer memory region with
  | none => exact ⟨rfl, rfl⟩
  | some resolved =>
    cases resolved with
    | none => exact ⟨rfl, rfl⟩
    | some resolved =>
      rw [hresolved] at h
      obtain ⟨hmutation, hvalue⟩ := readMutation_congr (h resolved (by simp))
        fun value hmem => h value (by simp [hmem])
      dsimp only
      rw [hmutation, hvalue]
      exact ⟨rfl, rfl⟩

namespace ClientArena
variable {a : ClientArena} {size : ℕ} {object : ArenaObject} {region kept : Region}

theorem alloc_read_same : (a.alloc size object).1.memory.read (a.alloc size object).2 =
    some object := ArenaMemory.read_write_same object

theorem alloc_read (hsize : 0 < kept.size) (h : kept.Disjoint (arenaAlloc a.blocks size).2) :
    (a.alloc size object).1.memory.read kept = a.memory.read kept :=
  ArenaMemory.read_write hsize h object

theorem alloc_read_below (hsize : 0 < kept.size) (h : kept.Below a.blocks) :
    (a.alloc size object).1.memory.read kept = a.memory.read kept :=
  alloc_read hsize (h.disjoint size)

theorem alloc_below : (a.alloc size object).2.Below (a.alloc size object).1.blocks :=
  arenaAlloc_below a.blocks size

theorem below_alloc (h : kept.Below a.blocks) : kept.Below (a.alloc size object).1.blocks :=
  h.alloc size

theorem alloc_size : (a.alloc size object).2.size = size := arenaAlloc_size a.blocks size

theorem assign_read_same : (a.assign region object).memory.read region = some object :=
  ArenaMemory.read_write_same object

theorem assign_read (hsize : 0 < kept.size) (h : kept.Disjoint region) :
    (a.assign region object).memory.read kept = a.memory.read kept :=
  ArenaMemory.read_write hsize h object

theorem dataRegions_disjoint {blocks : Arena} (h : kept.Below blocks) (sizes : List ℕ) :
    ∀ region ∈ dataRegions blocks sizes, kept.Disjoint region := by
  induction sizes generalizing blocks with
  | nil =>
    intro region hmem
    cases hmem
  | cons size sizes ih =>
    intro region hmem
    rcases List.mem_cons.mp hmem with rfl | hmem
    · exact h.disjoint size
    · exact ih (h.alloc size) region hmem

end ClientArena

/-- The resolved mutation can be read through the result. -/
structure ClientArena.Keeps (a : ClientArena) (result : Region)
    (mutation : Option SepticTankMutation) : Prop where
  read : readResolved a.memory result = some mutation
  sized : ∀ kept ∈ footprint a.memory result, 0 < kept.size

/-- Nothing the read passes through lies above a bump pointer. -/
def ClientArena.KeepsBelow (a : ClientArena) (result : Region) : Prop :=
  ∀ kept ∈ footprint a.memory result, kept.Below a.blocks

namespace ClientArena.Keeps
variable {a a' : ClientArena} {result response : Region} {mutation : Option SepticTankMutation}

theorem congr (h : a.Keeps result mutation)
    (hread : ∀ kept ∈ footprint a.memory result, a'.memory.read kept = a.memory.read kept) :
    a'.Keeps result mutation ∧ footprint a'.memory result = footprint a.memory result := by
  obtain ⟨hresolved, hfootprint⟩ := readResolved_congr hread
  exact ⟨⟨hresolved.trans h.read, hfootprint ▸ h.sized⟩, hfootprint⟩

theorem alloc (h : a.Keeps result mutation) {n : ℕ} {o : ArenaObject}
    (hdisjoint : ∀ kept ∈ footprint a.memory result,
      kept.Disjoint (arenaAlloc a.blocks n).2) :
    (a.alloc n o).1.Keeps result mutation ∧
      footprint (a.alloc n o).1.memory result = footprint a.memory result :=
  h.congr fun kept hkept => alloc_read (h.sized kept hkept) (hdisjoint kept hkept)

theorem allocData (h : a.Keeps result mutation) (sizes : List ℕ)
    (hdisjoint : ∀ region ∈ dataRegions a.blocks sizes,
      ∀ kept ∈ footprint a.memory result, kept.Disjoint region) :
    (a.allocData sizes).Keeps result mutation ∧
      footprint (a.allocData sizes).memory result = footprint a.memory result := by
  induction sizes generalizing a with
  | nil => exact ⟨h, rfl⟩
  | cons size sizes ih =>
    obtain ⟨halloc, hfootprint⟩ := h.alloc (n := size) (o := .data)
      (hdisjoint _ List.mem_cons_self)
    have hrest := ih halloc fun region hmem => by
      rw [hfootprint]
      exact hdisjoint region (List.mem_cons_of_mem _ hmem)
    exact ⟨hrest.1, hrest.2.trans hfootprint⟩

theorem markConsumed (h : a.Keeps result mutation) (hsize : response.size = sizeofSewerMessage)
    (hdisjoint : ∀ kept ∈ footprint a.memory result, kept.Disjoint response) :
    (a.markConsumed response).Keeps result mutation ∧
      footprint (a.markConsumed response).memory result = footprint a.memory result := by
  refine h.congr ?_
  intro kept hkept
  unfold ClientArena.markConsumed
  split
  · exact assign_read (h.sized kept hkept) (hdisjoint kept hkept)
  · refine ArenaMemory.read_overwrite ?_
    rcases hdisjoint kept hkept with hblock | hbefore | hafter
    · exact Or.inl hblock
    · refine Or.inr (Or.inl ?_)
      exact Nat.le_trans hbefore (Nat.le_add_right _ _)
    · refine Or.inr (Or.inr ?_)
      simp only [hsize, sizeofSewerMessage, offsetofIsConsumed] at hafter ⊢
      omega

theorem respond (h : a.Keeps result mutation) (hbelow : a.KeepsBelow result)
    (object : ArenaObject) : (a.alloc sizeofSewerMessage object).1.Keeps result mutation ∧
      (a.alloc sizeofSewerMessage object).1.KeepsBelow result ∧
      ∀ kept ∈ footprint (a.alloc sizeofSewerMessage object).1.memory result,
        kept.Disjoint (a.alloc sizeofSewerMessage object).2 := by
  have hdisjoint : ∀ kept ∈ footprint a.memory result,
      kept.Disjoint (arenaAlloc a.blocks sizeofSewerMessage).2 :=
    fun kept hkept => (hbelow kept hkept).disjoint _
  obtain ⟨hkeeps, hfootprint⟩ := h.alloc (o := object) hdisjoint
  refine ⟨hkeeps, ?_, ?_⟩
  · unfold KeepsBelow
    rw [hfootprint]
    exact fun kept hkept => (hbelow kept hkept).alloc _
  · rw [hfootprint]
    exact hdisjoint

end ClientArena.Keeps

@[simp] theorem ClientArena.markConsumed_blocks (a : ClientArena) (response : Region) :
    (a.markConsumed response).blocks = a.blocks := by
  unfold markConsumed
  split <;> rfl

section ResolveAllocs
open ClientArena
variable {a : ClientArena} {kept : Region}

theorem allocText_keeps (text : Option DataString) (hsize : 0 < kept.size)
    (h : kept.Below a.blocks) :
    (a.allocText text).1.memory.read kept = a.memory.read kept ∧
      kept.Below (a.allocText text).1.blocks := by
  cases text with
  | none => exact ⟨rfl, h⟩
  | some str => exact ⟨alloc_read_below hsize h, below_alloc h⟩

theorem allocText_some {text : Option DataString} {place : Region}
    (hplace : (a.allocText text).2 = some place) : ∃ str, text = some str ∧ 0 < place.size ∧
      (a.allocText text).1.memory.read place = some (.text str) ∧
      place.Below (a.allocText text).1.blocks ∧
      ∀ kept : Region, kept.Below a.blocks → kept.Disjoint place := by
  cases text with
  | none => cases hplace
  | some str =>
    cases hplace
    refine ⟨str, rfl, ?_, alloc_read_same, alloc_below, fun kept h => h.disjoint _⟩
    rw [arenaAlloc_size]
    exact Nat.lt_of_lt_of_le (by decide) (Nat.le_add_right sizeofDataString _)

/-- The text a mutation points to is the value of the mutation. -/
theorem withValue_resolveText {result : SepticTankResult} {mutation : SepticTankMutation}
    {text : Option Region} {place : Region} {str : DataString}
    (hmutation : result.resolvedMutation = some mutation)
    (hvalue : arenaValue result text = some place) (htext : resolveText result = some str) :
    mutation.withValue str = mutation := by
  unfold arenaValue at hvalue
  unfold resolveText at htext
  rw [hmutation] at htext
  split at hvalue
  · rename_i hincrby
    rw [hincrby] at htext
    cases mutation with
    | set mutation =>
      cases htext
      rfl
    | del key => cases htext
    | expire mutation => cases htext
  · cases hvalue

theorem linkMutation_keeps {result : Region} {mutation : SepticTankMutation}
    {value : Option Region} (hsize : 0 < result.size) (hbelow : result.Below a.blocks)
    (hvalue : ∀ place, value = some place → ∃ str, 0 < place.size ∧
      a.memory.read place = some (.text str) ∧ place.Below a.blocks ∧ result.Disjoint place ∧
      mutation.withValue str = mutation) :
    (a.linkMutation result mutation value).Keeps result (some mutation) ∧
      (a.linkMutation result mutation value).KeepsBelow result := by
  have hnew := hbelow.disjoint sizeofSepticTankMutation
  have hnewSize : 0 < (arenaAlloc a.blocks sizeofSepticTankMutation).2.size := by
    rw [arenaAlloc_size]
    decide
  have hresult : (a.linkMutation result mutation value).memory.read result =
      some (.result (some (arenaAlloc a.blocks sizeofSepticTankMutation).2)) := assign_read_same
  have hresolved : (a.linkMutation result mutation value).memory.read
      (arenaAlloc a.blocks sizeofSepticTankMutation).2 = some (.mutation mutation value) :=
    (assign_read hnewSize hnew.symm).trans alloc_read_same
  have hpointer : resolvedPointer (a.linkMutation result mutation value).memory result =
      some (some (arenaAlloc a.blocks sizeofSepticTankMutation).2) := by
    simp only [resolvedPointer, hresult]
  have hresultBelow : result.Below (a.linkMutation result mutation value).blocks :=
    hbelow.alloc sizeofSepticTankMutation
  have hresolvedBelow : (arenaAlloc a.blocks sizeofSepticTankMutation).2.Below
      (a.linkMutation result mutation value).blocks := arenaAlloc_below _ _
  cases value with
  | none =>
    have hfootprint : footprint (a.linkMutation result mutation none).memory result =
        [result, (arenaAlloc a.blocks sizeofSepticTankMutation).2] := by
      simp only [footprint, hpointer, valuePointer, hresolved]
    refine ⟨⟨?_, ?_⟩, ?_⟩
    · simp only [readResolved, hpointer, readMutation, hresolved, Option.map_some]
    · rw [hfootprint]
      simp [hsize, hnewSize]
    · unfold ClientArena.KeepsBelow
      rw [hfootprint]
      simp [hresultBelow, hresolvedBelow]
  | some place =>
    obtain ⟨str, hplaceSize, htext, hplaceBelow, hdisjoint, hsame⟩ := hvalue place rfl
    have hplace : (a.linkMutation result mutation (some place)).memory.read place =
        some (.text str) :=
      (assign_read hplaceSize hdisjoint.symm).trans
        ((alloc_read_below hplaceSize hplaceBelow).trans htext)
    have hfootprint : footprint (a.linkMutation result mutation (some place)).memory result =
        [result, (arenaAlloc a.blocks sizeofSepticTankMutation).2, place] := by
      simp only [footprint, hpointer, valuePointer, hresolved]
    have hplaceBelow' : place.Below (a.linkMutation result mutation (some place)).blocks :=
      hplaceBelow.alloc sizeofSepticTankMutation
    refine ⟨⟨?_, ?_⟩, ?_⟩
    · simp only [readResolved, hpointer, readMutation, hresolved, hplace, hsame, Option.map_some]
    · rw [hfootprint]
      simp [hsize, hnewSize, hplaceSize]
    · unfold ClientArena.KeepsBelow
      rw [hfootprint]
      simp [hresultBelow, hresolvedBelow, hplaceBelow']

/-- After the allocations of a resolve function its mutation can be read through the result. -/
theorem resolveAllocs_keeps (a : ClientArena) (result : SepticTankResult) :
    (resolveAllocs a result).1.Keeps (resolveAllocs a result).2 result.resolvedMutation ∧
      (resolveAllocs a result).1.KeepsBelow (resolveAllocs a result).2 := by
  have hbelow : (a.alloc sizeofSepticTankResult (.result none)).2.Below
      (a.alloc sizeofSepticTankResult (.result none)).1.blocks := alloc_below
  have hsize : 0 < (a.alloc sizeofSepticTankResult (.result none)).2.size := by
    rw [alloc_size]
    decide
  obtain ⟨hread, hbelow'⟩ := allocText_keeps (resolveText result) hsize hbelow
  rw [alloc_read_same] at hread
  unfold resolveAllocs
  cases hmutation : result.resolvedMutation with
  | none =>
    refine ⟨⟨?_, ?_⟩, ?_⟩
    · simp only [readResolved, resolvedPointer, hread]
    · simp only [footprint, resolvedPointer, hread, List.mem_singleton, forall_eq]
      exact hsize
    · simp only [ClientArena.KeepsBelow, footprint, resolvedPointer, hread, List.mem_singleton,
        forall_eq]
      exact hbelow'
  | some mutation =>
    refine linkMutation_keeps hsize hbelow' ?_
    intro place hplace
    have htext : ((a.alloc sizeofSepticTankResult (.result none)).1.allocText
        (resolveText result)).2 = some place := by
      unfold arenaValue at hplace
      split at hplace
      · exact hplace
      · cases hplace
    obtain ⟨str, hstr, hplaceSize, hplaceRead, hplaceBelow, hdisjoint⟩ := allocText_some htext
    have hsame := withValue_resolveText hmutation hplace hstr
    exact ⟨str, hplaceSize, hplaceRead, hplaceBelow, hdisjoint _ hbelow, hsame⟩

end ResolveAllocs

end Redic
