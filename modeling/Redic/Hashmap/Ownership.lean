import Mathlib.Data.List.Perm.Subperm
import Redic.Foundation.EventRun
import Redic.Hashmap.Contract

/-! # Who frees an element

A map that took an element has it in the table or has freed it. Nothing is freed twice, also when
one key is in use twice or an allocation fails, and what was taken is freed in the end unless a
put ran out of memory.
-/
namespace Redic.Hashmap
open EventRun HashmapMap

variable {V : Type}

/-- What the free functions are called on from the creation of the map to its end. -/
def hashmapFree (m : HashmapMap V) : List (HashmapElement V) := m.released ++ m.elements

variable {hash : DataString → UInt64} {calloc : ℕ → Bool} {m m' : HashmapMap V} {key : DataString}
  {value : V} {index : ℕ} {status : MapStatus} {added : List (HashmapElement V)}

/-- The map has what it had and all that was added, or after a failure at most what it had and
some of what was to be moved. -/
structure Takes (m : HashmapMap V) (added moved : List (HashmapElement V)) (m' : HashmapMap V)
    (status : MapStatus) : Prop where
  tableSize_pos : 0 < m'.tableSize
  exactly : status = .ok → (hashmapFree m').Perm (added ++ hashmapFree m)
  atMost : status ≠ .ok → (hashmapFree m').Subperm (moved ++ hashmapFree m)

theorem hashmapFree_ofCalloc (slots : ℕ) (released : List (HashmapElement V)) :
    hashmapFree (ofCalloc slots released) = released := by
  simp [hashmapFree, elements, ofCalloc, List.reduceOption]

theorem hashmapFree_store (h : index < m.tableSize) (key : DataString) (value : V) :
    (hashmapFree (m.store index key value)).Perm (⟨key, value⟩ :: hashmapFree m) := by
  obtain ⟨others, helements, hstore, -⟩ := elements_slot h
  have hreleased : (m.store index key value).released = m.released ++ (m.slot index).toList := rfl
  unfold hashmapFree
  rw [hreleased, List.append_assoc]
  refine (((hstore key value).append_left _).trans List.perm_middle).append_left _ |>.trans ?_
  exact List.perm_middle.trans ((helements.symm.append_left _).cons _)

theorem hashmapFree_clear (h : index < m.tableSize) :
    (hashmapFree (m.clear index)).Perm (hashmapFree m) := by
  obtain ⟨others, helements, -, hclear⟩ := elements_slot h
  have hreleased : (m.clear index).released = m.released ++ (m.slot index).toList := rfl
  unfold hashmapFree
  rw [hreleased, List.append_assoc]
  exact ((hclear.append_left _).trans helements.symm).append_left _

/-- A put takes its element or leaves it to the caller. -/
def TakesOne (put : HashmapMap V → DataString → V → Option (HashmapMap V × MapStatus)) : Prop :=
  ∀ m key value m' status, 0 < m.tableSize → put m key value = some (m', status) →
    Takes m [⟨key, value⟩] [] m' status

theorem moveElements_takes
    {put : HashmapMap V → DataString → V → Option (HashmapMap V × MapStatus)}
    (hput : TakesOne put) {curr : List (Option (HashmapElement V))} (hpos : 0 < m.tableSize)
    (h : moveElements put curr m = some (m', status)) :
    Takes m curr.reduceOption curr.reduceOption m' status := by
  induction curr generalizing m with
  | nil =>
    cases h
    exact ⟨hpos, fun _ => List.Perm.refl _, fun hfail => absurd rfl hfail⟩
  | cons occupant curr ih =>
    cases occupant with
    | none => exact ih hpos h
    | some element =>
      rw [List.reduceOption_cons_of_some]
      obtain ⟨m₁, status₁, hstep, ⟨rfl, h⟩ | ⟨hfail, rfl, rfl⟩⟩ := moveElements_cons_eq_some.mp h
      · have htakes := hput _ _ _ _ _ hpos hstep
        have hrest := ih htakes.tableSize_pos h
        have hperm : (curr.reduceOption ++ hashmapFree m₁).Perm
            (element :: curr.reduceOption ++ hashmapFree m) :=
          ((htakes.exactly rfl).append_left _).trans List.perm_middle
        exact ⟨hrest.tableSize_pos, fun hok => (hrest.exactly hok).trans hperm,
          fun hfail => (hrest.atMost hfail).trans hperm.subperm⟩
      · -- the elements behind the refused one stay out of the table
        have htakes := hput _ _ _ _ _ hpos hstep
        refine ⟨htakes.tableSize_pos, fun hok => absurd hok hfail, fun _ => ?_⟩
        exact (htakes.atMost hfail).trans (List.sublist_append_right _ _).subperm

theorem hashmapRehash_takes
    {put : HashmapMap V → DataString → V → Option (HashmapMap V × MapStatus)}
    (hput : TakesOne put) (hpos : 0 < m.tableSize)
    (h : hashmapRehash calloc put m = some (m', status)) : Takes m [] [] m' status := by
  obtain ⟨-, hmove⟩ | ⟨-, rfl, rfl⟩ := hashmapRehash_eq_some.mp h
  · have hnew : 0 < (ofCalloc (2 * m.tableSize) m.released : HashmapMap V).tableSize := by
      simp [ofCalloc, tableSize] at hpos ⊢
      exact hpos
    have htakes := moveElements_takes hput hnew hmove
    have hperm : (m.data.reduceOption ++
        hashmapFree (ofCalloc (2 * m.tableSize) m.released)).Perm (hashmapFree m) := by
      rw [hashmapFree_ofCalloc]
      exact List.perm_append_comm
    exact ⟨htakes.tableSize_pos, fun hok => (htakes.exactly hok).trans hperm,
      fun hfail => (htakes.atMost hfail).trans hperm.subperm⟩
  · exact ⟨hpos, fun _ => List.Perm.refl _, fun _ => List.Subperm.refl _⟩

theorem hashmapPut_takes (fuel : ℕ) : TakesOne (V := V) (hashmapPut hash calloc fuel) := by
  induction fuel with
  | zero =>
    intro m key value m' status _ h
    cases h
  | succ fuel ih =>
    intro m key value m' status hpos h
    obtain ⟨index, hhash, rfl, rfl⟩ | ⟨-, m₁, status₁, hrehash, hnext⟩ := hashmapPut_eq_some.mp h
    · obtain ⟨offset, -, rfl, -⟩ := hash_some_of_pos hpos hhash
      have hlt : m.window hash key offset < m.tableSize :=
        ProbeWindow.position_lt (home_lt_of_pos hpos key) offset
      refine ⟨?_, fun _ => hashmapFree_store hlt key value, fun hfail => absurd rfl hfail⟩
      rw [tableSize_store]
      exact hpos
    · have hrehashed := hashmapRehash_takes ih hpos hrehash
      rcases hnext with ⟨rfl, rfl, rfl⟩ | ⟨hmemory, hput⟩
      · exact ⟨hrehashed.tableSize_pos, nofun, fun _ => hrehashed.atMost nofun⟩
      · have hok : status₁ = .ok :=
          (hashmapRehash_status fuel hrehash).resolve_right fun hsound => hmemory hsound.1
        have hsame := hrehashed.exactly hok
        have htakes := ih _ _ _ _ _ hrehashed.tableSize_pos hput
        exact ⟨htakes.tableSize_pos, fun hok => (htakes.exactly hok).trans (hsame.append_left _),
          fun hfail => (htakes.atMost hfail).trans hsame.subperm⟩

theorem hashmapRemove_takes (hpos : 0 < m.tableSize) (key : DataString) :
    0 < (hashmapRemove hash m key).1.tableSize ∧
      (hashmapFree (hashmapRemove hash m key).1).Perm (hashmapFree m) := by
  unfold hashmapRemove
  cases hfind : hashmapFind hash m key with
  | none => exact ⟨hpos, List.Perm.refl _⟩
  | some index =>
    obtain ⟨element, hslot, -⟩ := find_some_of_pos hpos hfind
    refine ⟨?_, hashmapFree_clear (lt_of_slot hslot)⟩
    rw [tableSize_clear]
    exact hpos

/-- A map with its caller: what it was given with success, and what it refused. -/
structure Ownership (V : Type) where
  map : HashmapMap V
  taken : List (HashmapElement V)
  refused : List (HashmapElement V)
  deriving DecidableEq, Repr

/-- A call, with the allocations that are granted during it. -/
structure OwnershipCall (V : Type) where
  calloc : ℕ → Bool
  call : HashmapCall V

def Ownership.start : Ownership V := ⟨hashmapNew, [], []⟩

def ownershipStep (hash : DataString → UInt64) (fuel : ℕ) (s : Ownership V)
    (call : OwnershipCall V) : Option (Ownership V) :=
  match call.call with
  | .put key value =>
    match hashmapPut hash call.calloc fuel s.map key value with
    | none => none
    | some (map, .ok) => some ⟨map, s.taken ++ [⟨key, value⟩], s.refused⟩
    | some (map, _) => some ⟨map, s.taken, s.refused ++ [⟨key, value⟩]⟩
  | .remove key => some { s with map := (hashmapRemove hash s.map key).1 }

structure Ownership.Inv (s : Ownership V) : Prop where
  tableSize_pos : 0 < s.map.tableSize
  atMost : (hashmapFree s.map).Subperm s.taken
  exactly : s.refused = [] → (hashmapFree s.map).Perm s.taken

theorem Ownership.start_inv : (start : Ownership V).Inv := by
  have hfree : hashmapFree (hashmapNew : HashmapMap V) = [] := hashmapFree_ofCalloc initialSize []
  have hsize : (hashmapNew : HashmapMap V).tableSize = initialSize := List.length_replicate
  refine ⟨?_, ?_, fun _ => ?_⟩
  · rw [start, hsize]
    exact Nat.zero_lt_succ _
  · rw [start, hfree]
  · rw [start, hfree]

theorem Ownership.Inv.step {fuel : ℕ} {s s' : Ownership V} {call : OwnershipCall V} (h : s.Inv)
    (hstep : ownershipStep hash fuel s call = some s') : s'.Inv := by
  unfold ownershipStep at hstep
  split at hstep
  · rename_i key value hcall
    have hput : ∀ map status, hashmapPut hash call.calloc fuel s.map key value = some (map, status) →
        Takes s.map [⟨key, value⟩] [] map status :=
      fun map status => hashmapPut_takes fuel s.map key value map status h.tableSize_pos
    split at hstep
    · cases hstep
    · rename_i map hmap
      cases hstep
      have htakes := hput _ _ hmap
      have hperm : (hashmapFree map).Perm (hashmapFree s.map ++ [⟨key, value⟩]) :=
        (htakes.exactly rfl).trans List.perm_append_comm
      exact ⟨htakes.tableSize_pos, hperm.subperm.trans (h.atMost.append (List.Subperm.refl _)),
        fun hnone => hperm.trans ((h.exactly hnone).append_right _)⟩
    · rename_i map status hfail hmap
      cases hstep
      have htakes := hput _ _ hmap
      refine ⟨htakes.tableSize_pos, (htakes.atMost ?_).trans h.atMost, fun hnone => ?_⟩
      · rintro rfl
        exact hfail rfl
      · exact absurd hnone (List.append_ne_nil_of_right_ne_nil _ (List.cons_ne_nil _ _))
  · cases hstep
    obtain ⟨hpos, hperm⟩ := hashmapRemove_takes h.tableSize_pos _
    exact ⟨hpos, hperm.subperm.trans h.atMost, fun hnone => hperm.trans (h.exactly hnone)⟩

/-- Whatever the hash and whatever allocations fail, an element is freed at most once, by an
overwrite, a removal or the end of the map. Without a refused put each is freed exactly once. -/
theorem hashmapRun_freesOnce (hash : DataString → UInt64) (fuel : ℕ)
    (calls : List (OwnershipCall V)) (s : Ownership V)
    (hrun : run (ownershipStep hash fuel) Ownership.start calls = some s) :
    (hashmapFree s.map).Subperm s.taken ∧
      (s.refused = [] → (hashmapFree s.map).Perm s.taken) := by
  have hinv : s.Inv :=
    run_preserves Ownership.start_inv (fun _ _ _ hs hstep => hs.step hstep) hrun
  exact ⟨hinv.atMost, hinv.exactly⟩

/-- A removal opens a hole in front of a key, which is then stored twice. -/
theorem hashmapRun_freesOnce_twice :
    let granted : HashmapCall ℕ → OwnershipCall ℕ := fun call => ⟨fun _ => true, call⟩
    let calls := [granted (.put [97] 1), granted (.put [98] 2), granted (.remove [97]),
      granted (.put [98] 3)]
    ∃ s, run (ownershipStep (fun _ => 0) 1) Ownership.start calls = some s ∧
      s.map.elements = [⟨[98], 3⟩, ⟨[98], 2⟩] ∧ (hashmapFree s.map).Subperm s.taken ∧
      (s.refused = [] → (hashmapFree s.map).Perm s.taken) := by
  intro granted calls
  have hrun : (run (ownershipStep (fun _ => 0) 1) Ownership.start calls).map
      (fun s => s.map.elements) = some [⟨[98], 3⟩, ⟨[98], 2⟩] := by decide +kernel
  obtain ⟨s, hs, helements⟩ := Option.map_eq_some_iff.mp hrun
  exact ⟨s, hs, helements, hashmapRun_freesOnce _ 1 calls s hs⟩

end Redic.Hashmap
