import Mathlib.Data.List.Induction
import Mathlib.Logic.Function.Basic

/-! # Hector, the vector

A hector stands for a list as long as it stays inside its storage. Its two weak spots are a
storage of no slots, which doubling does not make larger, and a splice in the middle, which moves
more slots than there are elements behind the gap. Slots are counted, not bytes, and a storage
that exists is never so large that its size wraps.
-/
namespace Redic

variable {α : Type}

/-- An empty slot has not been written since the storage was allocated. -/
structure Hector (α : Type) where
  capacity : ℕ
  length : ℕ
  mem : ℕ → Option α
  arena : Bool

def hectorCreate (arena : Bool) (initSize : ℕ) : Hector α := ⟨initSize, 0, fun _ => none, arena⟩

/-- An arena copies the elements, `realloc` the slots that fit. -/
def hectorResize (hec : Hector α) (newCapacity : ℕ) : Hector α :=
  let kept := if hec.arena then hec.length else min hec.capacity newCapacity
  { hec with capacity := newCapacity, mem := fun i => if i < kept then hec.mem i else none }

def hectorGrow (hec : Hector α) : Hector α :=
  if hec.capacity = hec.length then hectorResize hec (hec.capacity * 2) else hec

def hectorPush (hec : Hector α) (item : α) : Hector α :=
  let hec := hectorGrow hec
  { hec with mem := Function.update hec.mem hec.length (some item), length := hec.length + 1 }

def tryShrink (hec : Hector α) : Hector α :=
  if hec.length < hec.capacity / 3 then hectorResize hec (hec.capacity / 2) else hec

def memmove (mem : ℕ → Option α) (dst src count : ℕ) : ℕ → Option α :=
  fun i => if dst ≤ i ∧ i < dst + count then mem (src + (i - dst)) else mem i

def hectorSplice (hec : Hector α) (n count : ℕ) : Hector α :=
  if hec.capacity < n + count ∨ count = 0 then hec
  else
    let mem :=
      if n ≠ hec.length - count then memmove hec.mem n (n + count) (hec.length - n + count)
      else hec.mem
    tryShrink { hec with mem := mem, length := hec.length - count }

def hectorGet (hec : Hector α) (n : ℕ) : Option α :=
  if hec.length ≤ n then none else hec.mem n

inductive HectorOp (α : Type)
  | push (item : α)
  | get (n : ℕ)
  | splice (n count : ℕ)

def Hector.step (hec : Hector α) : HectorOp α → Hector α
  | .push item => hectorPush hec item
  | .get _ => hec
  | .splice n count => hectorSplice hec n count

/-- The slots that a push writes, and those that the `memmove` of a splice reads and writes. -/
def Hector.touched (hec : Hector α) : HectorOp α → List ℕ
  | .push _ => [(hectorGrow hec).length]
  | .get _ => []
  | .splice n count =>
    if hec.capacity < n + count ∨ count = 0 ∨ n = hec.length - count then []
    else List.range' (n + count) (hec.length - n + count) ++
      List.range' n (hec.length - n + count)

def Hector.capacityDuring (hec : Hector α) : HectorOp α → ℕ
  | .push _ => (hectorGrow hec).capacity
  | _ => hec.capacity

def hectorRun (hec : Hector α) (ops : List (HectorOp α)) : Hector α := ops.foldl Hector.step hec

/-- What the operations do to the list that the hector stands for. -/
def listStep (l : List α) : HectorOp α → List α
  | .push item => l ++ [item]
  | .get _ => l
  | .splice n count => l.take n ++ l.drop (n + count)

def listRun (ops : List (HectorOp α)) : List α := ops.foldl listStep []

/-- The hector holds the elements of the list, and they fit. -/
structure Represents (hec : Hector α) (l : List α) : Prop where
  length : hec.length = l.length
  slot : ∀ i, i < l.length → hec.mem i = l[i]?
  fits : hec.length ≤ hec.capacity

/-- An operation on a list: a splice takes out elements that are there. -/
def HectorOp.Valid (l : List α) : HectorOp α → Prop
  | .splice n count => n + count ≤ l.length
  | _ => True

/-- What is asked of one operation. -/
structure Behaves (hec : Hector α) (l : List α) (op : HectorOp α) : Prop where
  contents : Represents (hec.step op) (listStep l op)
  get : ∀ n, hectorGet hec n = l[n]?
  inBounds : ∀ slot ∈ hec.touched op, slot < hec.capacityDuring op

/-- There is a slot to double, and a splice in the middle has as much room behind the elements as
it takes out twice. -/
def HectorOp.Guarded (hec : Hector α) : HectorOp α → Prop
  | .push _ => 0 < hec.capacity
  | .get _ => True
  | .splice n count => count = 0 ∨ n + count = hec.length ∨ hec.length + 2 * count ≤ hec.capacity

section Steps

variable {hec : Hector α} {l : List α}

theorem represents_create (arena : Bool) (initSize : ℕ) :
    Represents (hectorCreate arena initSize : Hector α) [] :=
  ⟨rfl, fun _ h => absurd h (Nat.not_lt_zero _), Nat.zero_le _⟩

theorem Represents.resize (h : Represents hec l) {newCapacity : ℕ}
    (hfits : hec.length ≤ newCapacity) : Represents (hectorResize hec newCapacity) l where
  length := h.length
  slot := by
    intro i hi
    have hlength := h.length
    have hold := h.fits
    have hkept : i < if hec.arena then hec.length else min hec.capacity newCapacity := by
      split <;> omega
    change (if i < _ then hec.mem i else none) = _
    rw [if_pos hkept, h.slot i hi]
  fits := hfits

theorem Represents.shrink (h : Represents hec l) : Represents (tryShrink hec) l := by
  unfold tryShrink
  split
  · exact h.resize (by omega)
  · exact h

theorem Represents.grow (h : Represents hec l) : Represents (hectorGrow hec) l := by
  unfold hectorGrow
  split
  · have hfits := h.fits
    exact h.resize (by omega)
  · exact h

theorem Represents.get (h : Represents hec l) (n : ℕ) : hectorGet hec n = l[n]? := by
  unfold hectorGet
  rw [h.length]
  split
  · rename_i hn
    exact (List.getElem?_eq_none hn).symm
  · rename_i hn
    exact h.slot n (Nat.lt_of_not_le hn)

theorem Represents.grow_lt (h : Represents hec l) :
    (hectorGrow hec).length < (hectorGrow hec).capacity ↔ 0 < hec.capacity := by
  have hfits := h.fits
  unfold hectorGrow
  split
  · change hec.length < hec.capacity * 2 ↔ _
    omega
  · omega

theorem Represents.push (h : Represents hec l) (item : α) (hcapacity : 0 < hec.capacity) :
    Represents (hectorPush hec item) (l ++ [item]) := by
  have hgrow := h.grow
  have hroom := h.grow_lt.mpr hcapacity
  have hlength := hgrow.length
  constructor
  · change (hectorGrow hec).length + 1 = _
    rw [hlength, List.length_append, List.length_singleton]
  · intro i hi
    change Function.update (hectorGrow hec).mem (hectorGrow hec).length (some item) i = _
    rw [List.length_append, List.length_singleton] at hi
    rw [Function.update_apply, hlength]
    split
    · rename_i he
      rw [he, List.getElem?_append_right (Nat.le_refl _), Nat.sub_self]
      rfl
    · rename_i hne
      have hlt : i < l.length := by omega
      rw [List.getElem?_append_left hlt, hgrow.slot i hlt]
  · exact hroom

/-- The elements behind the gap move to its start; what is moved too much lands behind them. -/
theorem memmove_gap (mem : ℕ → Option α) {length n count i : ℕ} (hvalid : n + count ≤ length)
    (hi : i < length - count) :
    (if n ≠ length - count then memmove mem n (n + count) (length - n + count) else mem) i =
      if i < n then mem i else mem (i + count) := by
  by_cases hlow : i < n
  · have hbelow : ¬ (n ≤ i ∧ i < n + (length - n + count)) := by omega
    rw [if_pos hlow]
    split
    · rw [memmove, if_neg hbelow]
    · rfl
  · have hmoved : n ≤ i ∧ i < n + (length - n + count) := by omega
    have hfrom : n + count + (i - n) = i + count := by omega
    rw [if_neg hlow, if_pos (by omega), memmove, if_pos hmoved, hfrom]

theorem Represents.splice (h : Represents hec l) {n count : ℕ} (hvalid : n + count ≤ l.length) :
    Represents (hectorSplice hec n count) (l.take n ++ l.drop (n + count)) := by
  have hlength := h.length
  have hfits := h.fits
  have hnew : (l.take n ++ l.drop (n + count)).length = l.length - count := by
    rw [List.length_append, List.length_take, List.length_drop]
    omega
  unfold hectorSplice
  split
  · rename_i hskip
    obtain rfl : count = 0 := by omega
    rw [Nat.add_zero, List.take_append_drop]
    exact h
  · apply Represents.shrink
    constructor
    · rw [hnew, ← hlength]
    · intro i hi
      rw [hnew] at hi
      have hshift : (l.take n ++ l.drop (n + count))[i]? =
          if i < n then l[i]? else l[i + count]? := by
        split
        · rename_i hn
          rw [List.getElem?_append_left (by rw [List.length_take]; omega),
            List.getElem?_take_of_lt hn]
        · rename_i hn
          rw [List.getElem?_append_right (by rw [List.length_take]; omega), List.getElem?_drop,
            List.length_take]
          congr 1
          omega
      rw [hshift]
      refine (memmove_gap hec.mem (hlength ▸ hvalid) (hlength ▸ hi)).trans ?_
      split
      · exact h.slot i (by omega)
      · exact h.slot (i + count) (by omega)
    · change hec.length - count ≤ hec.capacity
      omega

theorem Represents.behaves_iff (h : Represents hec l) {op : HectorOp α} (hvalid : op.Valid l) :
    Behaves hec l op ↔ HectorOp.Guarded hec op := by
  have hlength := h.length
  have hfits := h.fits
  cases op with
  | push item =>
    constructor
    · intro hbehaves
      have hroom : (hectorGrow hec).length < (hectorGrow hec).capacity :=
        hbehaves.inBounds _ List.mem_cons_self
      exact h.grow_lt.mp hroom
    · intro hcapacity
      exact ⟨h.push item hcapacity, h.get, List.forall_mem_singleton.mpr (h.grow_lt.mpr hcapacity)⟩
  | get n =>
    constructor
    · exact fun _ => trivial
    · exact fun _ => ⟨h, h.get, fun _ hmem => absurd hmem List.not_mem_nil⟩
  | splice n count =>
    have hvalid : n + count ≤ l.length := hvalid
    constructor
    · intro hbehaves
      by_contra hguard
      simp only [HectorOp.Guarded, not_or] at hguard
      -- the last slot that is read
      have hread : hec.length + 2 * count - 1 ∈ hec.touched (.splice n count) := by
        rw [Hector.touched, if_neg (by omega), List.mem_append, List.mem_range'_1]
        left
        omega
      have hbound : hec.length + 2 * count - 1 < hec.capacity := hbehaves.inBounds _ hread
      omega
    · intro hguard
      refine ⟨h.splice hvalid, h.get, ?_⟩
      intro slot hslot
      rw [Hector.touched] at hslot
      split at hslot
      · cases hslot
      · rename_i hmoves
        simp only [HectorOp.Guarded] at hguard
        rw [List.mem_append, List.mem_range'_1, List.mem_range'_1] at hslot
        change slot < hec.capacity
        omega

end Steps

section Runs

variable {hec : Hector α} {ops : List (HectorOp α)}

def EachStep (ops : List (HectorOp α)) (P : List (HectorOp α) → HectorOp α → Prop) : Prop :=
  ∀ done op, done ++ [op] <+: ops → P done op

theorem EachStep.represents (hstart : Represents hec [])
    (h : EachStep ops fun done op => Represents (hectorRun hec done) (listRun done) →
      Represents ((hectorRun hec done).step op) (listStep (listRun done) op)) :
    ∀ done, done <+: ops → Represents (hectorRun hec done) (listRun done) := by
  intro done
  induction done using List.reverseRecOn with
  | nil => exact fun _ => hstart
  | append_singleton done op ih =>
    intro hprefix
    have hbefore := ih ((List.prefix_append done [op]).trans hprefix)
    have hstep := h done op hprefix hbefore
    simpa only [hectorRun, listRun, List.foldl_append, List.foldl_cons, List.foldl_nil] using hstep

/-- A run on a hector of any initial size is one on the list, with every slot inside the storage,
exactly when each of its operations is guarded. -/
theorem hectorRun_behaves_iff (arena : Bool) (initSize : ℕ) (ops : List (HectorOp α))
    (hvalid : EachStep ops fun done op => op.Valid (listRun done)) :
    (EachStep ops fun done op =>
      Behaves (hectorRun (hectorCreate arena initSize) done) (listRun done) op) ↔
    EachStep ops fun done op =>
      HectorOp.Guarded (hectorRun (hectorCreate arena initSize) done) op := by
  have hstart : Represents (hectorCreate arena initSize : Hector α) [] :=
    represents_create arena initSize
  constructor
  · intro hbehaves done op hprefix
    have hrepresents := EachStep.represents hstart
      (fun done op hprefix _ => (hbehaves done op hprefix).contents) done
      ((List.prefix_append done [op]).trans hprefix)
    exact (hrepresents.behaves_iff (hvalid done op hprefix)).mp (hbehaves done op hprefix)
  · intro hguarded done op hprefix
    have hrepresents := EachStep.represents hstart
      (fun done op hprefix hr =>
        ((hr.behaves_iff (hvalid done op hprefix)).mpr (hguarded done op hprefix)).contents) done
      ((List.prefix_append done [op]).trans hprefix)
    exact (hrepresents.behaves_iff (hvalid done op hprefix)).mpr (hguarded done op hprefix)

theorem eachStep_of_take {P : List (HectorOp α) → HectorOp α → Prop}
    (h : ∀ i, ∀ hlt : i < ops.length, P (ops.take i) ops[i]) : EachStep ops P := by
  rintro done op ⟨rest, rfl⟩
  have hstep := h done.length (by simp)
  simpa using hstep

end Runs

instance (l : List α) : (op : HectorOp α) → Decidable (op.Valid l)
  | .push _ => .isTrue trivial
  | .get _ => .isTrue trivial
  | .splice n count => inferInstanceAs (Decidable (n + count ≤ l.length))

instance (hec : Hector α) : (op : HectorOp α) → Decidable (op.Guarded hec)
  | .push _ => inferInstanceAs (Decidable (0 < hec.capacity))
  | .get _ => .isTrue trivial
  | .splice n count => inferInstanceAs
      (Decidable (count = 0 ∨ n + count = hec.length ∨ hec.length + 2 * count ≤ hec.capacity))

/-- Nine elements double the storage twice; one splice moves the last four over a gap, and another
moves them to the front, where the storage is halved. -/
theorem hectorRun_behaves_iff_moves :
    let ops : List (HectorOp ℕ) := [.push 1, .push 2, .push 3, .push 4, .push 5, .push 6, .push 7,
      .push 8, .push 9, .splice 2 3, .splice 0 2, .push 10, .get 4]
    (hectorRun (hectorCreate false 4) (ops.take 9)).capacity = 16 ∧
      (hectorRun (hectorCreate false 4) ops).capacity = 8 ∧ listRun ops = [6, 7, 8, 9, 10] ∧
      EachStep ops fun done op =>
        Behaves (hectorRun (hectorCreate false 4) done) (listRun done) op := by
  intro ops
  have hvalid : EachStep ops fun done op => op.Valid (listRun done) :=
    eachStep_of_take (by decide)
  have hguarded : EachStep ops fun done op =>
      HectorOp.Guarded (hectorRun (hectorCreate false 4) done) op := eachStep_of_take (by decide)
  exact ⟨by decide, by decide, by decide,
    (hectorRun_behaves_iff false 4 ops hvalid).mpr hguarded⟩

/-- The flush jobs of a potty whose flusher has kept up five times: the storage has shrunk from
thirty slots to one. Two jobs queue up, and taking out the first reads two slots behind the
storage. -/
theorem hectorRun_overruns :
    let jobs : List (HectorOp ℕ) := [.push 1, .splice 0 1, .push 2, .splice 0 1, .push 3,
      .splice 0 1, .push 4, .splice 0 1, .push 5, .splice 0 1, .push 6, .push 7]
    (hectorRun (hectorCreate false 30) jobs).capacity = 2 ∧
      3 ∈ (hectorRun (hectorCreate false 30) jobs).touched (.splice 0 1) ∧
      ¬ EachStep (jobs ++ [.splice 0 1]) fun done op =>
        Behaves (hectorRun (hectorCreate false 30) done) (listRun done) op := by
  intro jobs
  have hcapacity : (hectorRun (hectorCreate false 30) jobs).capacity = 2 := by decide
  have htouched : 3 ∈ (hectorRun (hectorCreate false 30) jobs).touched (.splice 0 1) := by decide
  refine ⟨hcapacity, htouched, ?_⟩
  intro hbehaves
  have hbound := (hbehaves jobs (.splice 0 1) (List.prefix_refl _)).inBounds 3 htouched
  change 3 < (hectorRun (hectorCreate false 30) jobs).capacity at hbound
  omega

end Redic
