import Redic.Potty.Thread

/-! # The potty keeps its memory

In every state that a potty reaches, each message, each job and the waste have an arena of their
own and no other arena is alive. So a step finds alive what it touches, and the potty does step for
step what the pipeline does with the mutations themselves.
-/
namespace Redic
open ArenaHeap EventRun

namespace Potty
variable {s s' : Potty} {cap : ℕ}

theorem forget_congr {heap : Heap SepticTankMutation} (h : Agree s.heap heap s.blocks) :
    { s with heap := heap }.forget = s.forget := by
  have hblock : ∀ block ∈ s.blocks, values heap block.cells = values s.heap block.cells :=
    fun block hblock => values_congr (h block hblock)
  have hsewer : values heap (s.sewer.map PottyMessage.value) =
      values s.heap (s.sewer.map PottyMessage.value) := by
    refine values_congr fun pointer hpointer => ?_
    obtain ⟨message, hmessage, rfl⟩ := List.mem_map.mp hpointer
    refine h message.block ?_ _ List.mem_cons_self
    exact List.mem_append_right _ (List.mem_cons_of_mem _ (List.mem_map_of_mem hmessage))
  have hwaste : values heap s.waste = values s.heap s.waste :=
    hblock ⟨s.arena, s.waste⟩ (List.mem_append_right _ List.mem_cons_self)
  have hjobs : (s.flushJobs.map fun job => values heap job.waste) =
      s.flushJobs.map fun job => values s.heap job.waste := by
    refine List.map_congr_left fun job hjob => hblock job.block ?_
    exact List.mem_append_left _ (List.mem_append_right _ (List.mem_map_of_mem hjob))
  have hdrains : s.flushers.map (Flusher.forget heap) = s.flushers.map (Flusher.forget s.heap) := by
    refine List.map_congr_left fun flusher hflusher => ?_
    cases flusher with
    | looping => rfl
    | flushing job unwritten =>
      refine congrArg DrainPhase.flushing (hblock ⟨job.arena, unwritten⟩ ?_)
      refine List.mem_append_left _ (List.mem_append_left _ ?_)
      exact List.mem_flatMap.mpr ⟨_, hflusher, List.mem_singleton_self _⟩
  simp only [forget, hsewer, hwaste, hjobs, hdrains]

theorem blocks_flusher {flusher : ℕ} {phase : Flusher} (hphase : s.flushers[flusher]? = some phase)
    (next : Flusher) : ∃ others, s.blocks.Perm (phase.blocks ++ others) ∧
      { s with flushers := s.flushers.set flusher next }.blocks.Perm (next.blocks ++ others) ∧
      { s with flushers := s.flushers.eraseIdx flusher }.blocks.Perm others := by
  obtain ⟨hlt, hget⟩ := List.getElem?_eq_some_iff.mp hphase
  let rest := (s.flushers.take flusher ++ s.flushers.drop (flusher + 1)).flatMap Flusher.blocks
  have hsplit : s.flushers = s.flushers.take flusher ++ phase :: s.flushers.drop (flusher + 1) := by
    rw [← hget, List.getElem_cons_drop, List.take_append_drop]
  refine ⟨rest ++ s.flushJobs.map QueuedFlush.block ++
    ⟨s.arena, s.waste⟩ :: s.sewer.map PottyMessage.block, ?_, ?_, ?_⟩
  · unfold blocks rest
    rw [← List.append_assoc, ← List.append_assoc]
    refine List.Perm.append_right _ (List.Perm.append_right _ ?_)
    conv_lhs => rw [hsplit]
    rw [← List.flatMap_cons]
    exact List.perm_middle.flatMap_right _
  · unfold blocks rest
    rw [← List.append_assoc, ← List.append_assoc]
    refine List.Perm.append_right _ (List.Perm.append_right _ ?_)
    simp only [List.set_eq_take_append_cons_drop, if_pos hlt]
    rw [← List.flatMap_cons]
    exact List.perm_middle.flatMap_right _
  · unfold blocks rest
    simp only [List.eraseIdx_eq_take_drop_succ]
    exact List.Perm.refl _

theorem blocks_message {message : PottyMessage} {sewer : List PottyMessage}
    (hsewer : s.sewer = message :: sewer) :
    s.blocks.Perm (message.block :: { s with sewer := sewer }.blocks) := by
  unfold blocks
  rw [hsewer, List.map_cons]
  refine (List.Perm.append_left _ (List.Perm.swap ..)).trans ?_
  exact List.perm_middle

/-- The other owners, when the waste is taken out. -/
def others (s : Potty) : List Block :=
  s.flushers.flatMap Flusher.blocks ++ s.flushJobs.map QueuedFlush.block ++
    s.sewer.map PottyMessage.block

theorem blocks_waste (s : Potty) : s.blocks.Perm (⟨s.arena, s.waste⟩ :: s.others) :=
  List.perm_middle

/-- Where the potty goes on, it owns its memory and the pipeline goes on alike, and where it does
not, neither does the pipeline. -/
def Simulates (cap : ℕ) (s : Potty) (event : PottyEvent) : Prop :=
  match s.step cap event with
  | some s' => Owned s'.heap s'.blocks ∧
      pipelineStep cap s.forget (s.forgetEvent event) = some s'.forget
  | none => pipelineStep cap s.forget (s.forgetEvent event) = none

theorem simulates_some {event : PottyEvent} (next : Potty) (hstep : s.step cap event = some next)
    (howned : Owned next.heap next.blocks)
    (hpipeline : pipelineStep cap s.forget (s.forgetEvent event) = some next.forget) :
    Simulates cap s event := by
  rw [Simulates, hstep]
  exact ⟨howned, hpipeline⟩

theorem simulates_none {event : PottyEvent} (hstep : s.step cap event = none)
    (hpipeline : pipelineStep cap s.forget (s.forgetEvent event) = none) :
    Simulates cap s event := by
  rw [Simulates, hstep]
  exact hpipeline

theorem length_sewer (h : Owned s.heap s.blocks) : s.forget.sewer.length = s.sewer.length := by
  refine (length_values fun pointer hpointer => ?_).trans (List.length_map _)
  obtain ⟨message, hmessage, rfl⟩ := List.mem_map.mp hpointer
  refine (h.valid message.block ?_ _ List.mem_cons_self).2
  exact List.mem_append_right _ (List.mem_cons_of_mem _ (List.mem_map_of_mem hmessage))

theorem length_waste (h : Owned s.heap s.blocks) : s.forget.waste.length = s.waste.length :=
  length_values fun pointer hpointer =>
    (h.valid ⟨s.arena, s.waste⟩ (List.mem_append_right _ List.mem_cons_self) pointer hpointer).2

theorem feed_simulates (h : Owned s.heap s.blocks) (mutation : SepticTankMutation) (address : ℕ)
    (hfresh : s.heap address = none) : Simulates cap s (.feed mutation address) := by
  have hlen := length_sewer h
  by_cases hspace : s.sewer.length < cap
  · have hcreate := create_eq_some.mpr ⟨hfresh, rfl⟩
    obtain ⟨hcreated, hagree⟩ := h.create hcreate
    obtain ⟨heap, clone, halloc, howned, hload, hagree'⟩ := hcreated.alloc mutation
    have hsame := forget_congr (hagree.trans (hagree'.mono (List.subset_cons_self _ _)))
    simp only [forget, Pipeline.mk.injEq] at hsame
    obtain ⟨hsewer, -, hwaste, hjobs, -, hdrains, -⟩ := hsame
    refine simulates_some { s with
      heap := heap
      sewer := s.sewer ++ [⟨clone, address⟩]
      fed := s.fed ++ [mutation] } ?_ ?_ ?_
    · simp only [step, feed, if_pos hspace, hcreate, halloc, Option.bind_eq_bind, Option.bind_some]
    · have hblocks : ({ s with
          heap := heap
          sewer := s.sewer ++ [⟨clone, address⟩]
          fed := s.fed ++ [mutation] } : Potty).blocks = s.blocks ++ [⟨address, [clone]⟩] := by
        simp [blocks, PottyMessage.block]
      rw [hblocks]
      exact howned.perm (List.perm_append_singleton _ _).symm
    · simp only [forgetEvent, pipelineStep, hlen, if_pos hspace]
      simp only [forget, List.map_append, List.map_cons, List.map_nil, values_append, hsewer,
        hwaste, hjobs, hdrains, values_cons hload]
      rfl
  · refine simulates_none ?_ ?_
    · simp only [step, feed, if_neg hspace]
    · simp only [forgetEvent, pipelineStep, hlen, if_neg hspace]

/-- The potty takes a clone of its own and destroys the message. -/
theorem consume_simulates (h : Owned s.heap s.blocks) : Simulates cap s .consume := by
  cases hpump : s.pump with
  | deciding =>
    refine simulates_none ?_ ?_
    · simp only [step, consume, hpump]
    · simp only [forgetEvent, pipelineStep, forget, hpump]
  | polling =>
    cases hsewer : s.sewer with
    | nil =>
      refine simulates_none ?_ ?_
      · simp only [step, consume, hpump, hsewer]
      · simp only [forgetEvent, pipelineStep, forget, hpump, hsewer]
        rfl
    | cons message sewer =>
      let s₁ : Potty := { s with sewer := sewer }
      have hwaste : s₁.blocks.Perm (⟨s.arena, s.waste⟩ :: s₁.others) := blocks_waste s₁
      have howned := h.perm (blocks_message hsewer)
      obtain ⟨mutation, hload⟩ := howned.forget.1
      obtain ⟨heap, clone, halloc, hcloned, hclone, hagree⟩ :=
        (howned.perm ((hwaste.cons _).trans (List.Perm.swap ..))).alloc mutation
      obtain ⟨heap', hdestroy, howned', hagree'⟩ :=
        (hcloned.perm (List.Perm.swap ..)).destroy
      -- the waste as it was is a part of what it is now
      have hkept : Agree s.heap heap' s₁.blocks := by
        intro block hblock pointer hpointer
        rcases List.mem_cons.mp (hwaste.mem_iff.mp hblock) with rfl | hother
        · rw [hagree' _ List.mem_cons_self pointer (List.mem_append_left _ hpointer)]
          exact hagree _ List.mem_cons_self pointer hpointer
        · rw [hagree' _ (List.mem_cons_of_mem _ hother) pointer hpointer]
          exact hagree _ (List.mem_cons_of_mem _ (List.mem_cons_of_mem _ hother)) pointer hpointer
      have hclone' : load heap' clone = some mutation := by
        rw [hagree' _ List.mem_cons_self clone (List.mem_append_right _ (List.mem_singleton_self _)),
          hclone]
      have hsame := forget_congr hkept
      simp only [s₁, forget, Pipeline.mk.injEq] at hsame
      obtain ⟨hmessages, -, hcells, hjobs, -, hdrains, -⟩ := hsame
      refine simulates_some { s₁ with
        heap := heap'
        waste := s.waste ++ [clone]
        pump := .deciding } ?_ ?_ ?_
      · simp only [step, consume, hpump, hsewer, hload, pottyPoop, halloc, hdestroy,
          Option.bind_eq_bind, Option.bind_some]
        rfl
      · exact howned'.perm (blocks_waste { s₁ with waste := s.waste ++ [clone] }).symm
      · simp only [forgetEvent, pipelineStep, forget, hpump, hsewer, List.map_cons,
          values_cons hload]
        simp only [s₁, hmessages, values_append, hcells, values_cons hclone', hjobs, hdrains]
        rfl

theorem timeout_simulates (h : Owned s.heap s.blocks) : Simulates cap s .timeout := by
  cases hpump : s.pump with
  | deciding =>
    refine simulates_none ?_ ?_
    · simp only [step, hpump]
    · simp only [forgetEvent, pipelineStep, forget, hpump]
  | polling =>
    refine simulates_some { s with pump := .deciding } ?_ h ?_
    · simp only [step, hpump]
    · simp only [forgetEvent, pipelineStep, forget, hpump]

theorem shouldFlush_forget (h : Owned s.heap s.blocks) (nowMs : UInt64) :
    s.forget.shouldFlush (s.overdue nowMs) = s.shouldFlush nowMs := by
  rw [Pipeline.shouldFlush, shouldFlush, length_waste h]
  by_cases hfull : flushItemsThreshold ≤ s.waste.length
  · simp only [hfull, decide_true, Bool.true_or, if_true]
  · simp only [hfull, decide_false, Bool.false_or, if_false]

theorem pottyFlush_forget (h : Owned s.heap s.blocks) (now : UInt64) {address : ℕ}
    (hfresh : s.waste ≠ [] → s.heap address = none) : ∃ s', s.pottyFlush now address = some s' ∧
      Owned s'.heap s'.blocks ∧ s'.forget = s.forget.pottyFlush := by
  have hlen := length_waste h
  unfold pottyFlush Pipeline.pottyFlush
  by_cases hwaste : s.waste = []
  · have hempty : s.forget.waste = [] := by
      simp [forget, hwaste, values]
    rw [if_pos hwaste, if_pos hempty]
    exact ⟨_, rfl, h, rfl⟩
  · have hcells : ¬ s.forget.waste = [] := by
      rw [← List.length_eq_zero_iff, hlen, List.length_eq_zero_iff]
      exact hwaste
    have hcreate := create_eq_some.mpr ⟨hfresh hwaste, rfl⟩
    rw [if_neg hwaste, if_neg hcells, hcreate]
    obtain ⟨howned, hagree⟩ := h.create hcreate
    have hsame := forget_congr hagree
    simp only [forget, Pipeline.mk.injEq] at hsame
    obtain ⟨hsewer, -, hcells, hjobs, -, hdrains, -⟩ := hsame
    refine ⟨_, rfl, ?_, ?_⟩
    · have hflushers : (if s.flusherRunning then s.flushers
          else s.flushers ++ [.looping]).flatMap Flusher.blocks =
            s.flushers.flatMap Flusher.blocks := by
        split
        · rfl
        · simp [Flusher.blocks]
      have hblocks : s.blocks = (s.flushers.flatMap Flusher.blocks ++
          (s.flushJobs.map QueuedFlush.block ++ [⟨s.arena, s.waste⟩])) ++
            s.sewer.map PottyMessage.block := by
        simp [blocks]
      rw [hblocks] at howned
      refine howned.perm ?_
      simp only [blocks, hflushers, List.map_append, List.map_cons, List.map_nil]
      exact List.perm_middle.symm
    · have hflushers : (if s.flusherRunning then s.flushers
          else s.flushers ++ [.looping]).map (Flusher.forget (Function.update s.heap address (some []))) =
            if s.flusherRunning then s.flushers.map (Flusher.forget s.heap)
            else s.flushers.map (Flusher.forget s.heap) ++ [.looping] := by
        split
        · exact hdrains
        · rw [List.map_append, hdrains]
          rfl
      simp only [forget, List.map_append, List.map_cons, List.map_nil, hsewer, hcells, hjobs,
        hflushers]
      rfl

theorem pottyFlush_pump (p : Pipeline) (phase : PumpPhase) :
    { p with pump := phase }.pottyFlush = { p.pottyFlush with pump := phase } := by
  by_cases hwaste : p.waste = [] <;>
    simp only [Pipeline.pottyFlush, hwaste, if_true, if_false]

theorem decide_simulates (h : Owned s.heap s.blocks) (nowMs now : UInt64) (address : ℕ)
    (hfresh : s.Fresh (.decide nowMs now address)) : Simulates cap s (.decide nowMs now address) := by
  cases hpump : s.pump with
  | polling =>
    refine simulates_none ?_ ?_
    · simp only [step, decide, hpump]
    · simp only [forgetEvent, pipelineStep, forget, hpump]
  | deciding =>
    have hshould := shouldFlush_forget h nowMs
    cases hflush : s.shouldFlush nowMs with
    | false =>
      refine simulates_some { s with pump := .polling, looked := nowMs } ?_ h ?_
      · simp only [step, decide, hpump, hflush, Bool.false_eq_true, if_false]
      · simp only [forgetEvent, pipelineStep, hshould, hflush, Bool.false_eq_true, if_false]
        simp only [forget, hpump]
    | true =>
      let s₁ : Potty := { s with pump := .polling }
      obtain ⟨s', hstep, howned, hforget⟩ :=
        pottyFlush_forget (s := s₁) h now (hfresh hflush)
      refine simulates_some s' ?_ howned ?_
      · simp only [step, decide, hpump, hflush, if_true]
        exact hstep
      · have hafter : s₁.forget.pottyFlush = { s.forget.pottyFlush with pump := .polling } :=
          pottyFlush_pump s.forget .polling
        rw [hforget, hafter]
        simp only [forgetEvent, pipelineStep, hshould, hflush, if_true]
        simp only [forget, hpump]

theorem forget_flusher (s : Potty) (flusher : ℕ) : s.forget.drains[flusher]? =
    s.flushers[flusher]?.map (Flusher.forget s.heap) :=
  List.getElem?_map ..

theorem grab_simulates (h : Owned s.heap s.blocks) (flusher : ℕ) :
    Simulates cap s (.grab flusher) := by
  have hdrain := forget_flusher s flusher
  cases hphase : s.flushers[flusher]? with
  | none =>
    refine simulates_none ?_ ?_
    · simp only [step, grab, hphase]
    · rw [hphase] at hdrain
      simp only [forgetEvent, pipelineStep, hdrain, Option.map_none]
  | some phase =>
    rw [hphase] at hdrain
    cases phase with
    | flushing job unwritten =>
      refine simulates_none ?_ ?_
      · simp only [step, grab, hphase]
      · simp only [forgetEvent, pipelineStep, hdrain, Option.map_some, Flusher.forget]
    | looping =>
      cases hjobs : s.flushJobs with
      | nil =>
        obtain ⟨others, hperm, -, hperm'⟩ := blocks_flusher hphase .looping
        refine simulates_some { s with
          flusherRunning := false
          flushers := s.flushers.eraseIdx flusher } ?_ ((h.perm hperm).perm hperm'.symm) ?_
        · simp only [step, grab, hphase, hjobs]
        · simp only [forgetEvent, pipelineStep, hdrain, Option.map_some, Flusher.forget,
            Pipeline.grabJob]
          simp only [forget, hjobs, List.map_nil, List.eraseIdx_map]
      | cons job flushJobs =>
        let s₁ : Potty := { s with flushJobs := flushJobs }
        obtain ⟨others, hperm, hperm', -⟩ :=
          blocks_flusher (s := s₁) hphase (.flushing job job.waste)
        have hjob : s.blocks.Perm (job.block :: s₁.blocks) := by
          unfold blocks
          rw [hjobs, List.map_cons]
          refine (List.Perm.append_right _ List.perm_middle).trans ?_
          exact List.Perm.refl _
        refine simulates_some { s₁ with
          flushers := s.flushers.set flusher (.flushing job job.waste) } ?_ ?_ ?_
        · simp only [step, grab, hphase, hjobs]
          rfl
        · exact (h.perm (hjob.trans (hperm.cons _))).perm hperm'.symm
        · simp only [forgetEvent, pipelineStep, hdrain, Option.map_some, Flusher.forget,
            Pipeline.grabJob]
          simp only [s₁, forget, hjobs, List.map_cons, List.map_set, Flusher.forget]

theorem write_simulates (h : Owned s.heap s.blocks) (flusher : ℕ) :
    Simulates cap s (.write flusher) := by
  have hdrain := forget_flusher s flusher
  cases hphase : s.flushers[flusher]? with
  | none =>
    refine simulates_none ?_ ?_
    · simp only [step, write, hphase]
    · rw [hphase] at hdrain
      simp only [forgetEvent, pipelineStep, hdrain, Option.map_none]
  | some phase =>
    rw [hphase] at hdrain
    cases phase with
    | looping =>
      refine simulates_none ?_ ?_
      · simp only [step, write, hphase]
      · simp only [forgetEvent, pipelineStep, hdrain, Option.map_some, Flusher.forget]
    | flushing job unwritten =>
      cases unwritten with
      | nil =>
        refine simulates_none ?_ ?_
        · simp only [step, write, hphase]
        · simp only [forgetEvent, pipelineStep, hdrain, Option.map_some, Flusher.forget]
          rfl
      | cons pointer unwritten =>
        obtain ⟨others, hperm, hperm', -⟩ := blocks_flusher hphase (.flushing job unwritten)
        obtain ⟨⟨mutation, hload⟩, howned⟩ := (h.perm hperm).forget
        refine simulates_some { s with
          flushers := s.flushers.set flusher (.flushing job unwritten)
          file := s.file ++ [mutation] } ?_ (howned.perm hperm'.symm) ?_
        · simp only [step, write, hphase, hload, Option.bind_eq_bind, Option.bind_some]
        · simp only [forgetEvent, pipelineStep, hdrain, Option.map_some, Flusher.forget,
            values_cons hload]
          simp only [forget, List.map_set, Flusher.forget]

theorem finish_simulates (h : Owned s.heap s.blocks) (flusher : ℕ) :
    Simulates cap s (.finish flusher) := by
  have hdrain := forget_flusher s flusher
  cases hphase : s.flushers[flusher]? with
  | none =>
    refine simulates_none ?_ ?_
    · simp only [step, finish, hphase]
    · rw [hphase] at hdrain
      simp only [forgetEvent, pipelineStep, hdrain, Option.map_none]
  | some phase =>
    rw [hphase] at hdrain
    obtain ⟨others, hperm, hperm', -⟩ := blocks_flusher hphase .looping
    cases phase with
    | looping =>
      refine simulates_none ?_ ?_
      · simp only [step, finish, hphase]
      · simp only [forgetEvent, pipelineStep, hdrain, Option.map_some, Flusher.forget]
    | flushing job unwritten =>
      cases unwritten with
      | cons pointer unwritten =>
        obtain ⟨⟨mutation, hload⟩, -⟩ := (h.perm hperm).forget
        refine simulates_none ?_ ?_
        · simp only [step, finish, hphase]
        · simp only [forgetEvent, pipelineStep, hdrain, Option.map_some, Flusher.forget,
            values_cons hload]
      | nil =>
        obtain ⟨heap, hdestroy, howned, hagree⟩ := (h.perm hperm).destroy
        let s₁ : Potty := { s with flushers := s.flushers.set flusher .looping }
        have hkept : Agree s₁.heap heap s₁.blocks := hagree.mono hperm'.subset
        refine simulates_some { s₁ with heap := heap } ?_ (howned.perm hperm'.symm) ?_
        · simp only [step, finish, hphase, hdestroy, Option.bind_eq_bind, Option.bind_some]
          rfl
        · rw [forget_congr hkept]
          simp only [forgetEvent, pipelineStep, hdrain, Option.map_some, Flusher.forget]
          simp only [s₁, forget, List.map_set, Flusher.forget]
          rfl

theorem step_simulates (h : Owned s.heap s.blocks) {event : PottyEvent} (hfresh : s.Fresh event) :
    Simulates cap s event := by
  cases event with
  | feed mutation address => exact feed_simulates h mutation address hfresh
  | consume => exact consume_simulates h
  | timeout => exact timeout_simulates h
  | decide nowMs now address => exact decide_simulates h nowMs now address hfresh
  | grab flusher => exact grab_simulates h flusher
  | write flusher => exact write_simulates h flusher
  | finish flusher => exact finish_simulates h flusher

theorem fresh_of_step {event : PottyEvent} (hstep : s.step cap event = some s') : s.Fresh event := by
  cases event with
  | feed mutation address =>
    simp only [step, feed] at hstep
    split at hstep
    · obtain ⟨heap, hcreate, -⟩ := Option.bind_eq_some_iff.mp hstep
      exact (create_eq_some.mp hcreate).1
    · cases hstep
  | decide nowMs now address =>
    intro hflush hwaste
    simp only [step, decide] at hstep
    split at hstep
    · rw [if_pos hflush, pottyFlush, if_neg hwaste] at hstep
      obtain ⟨heap, hcreate, -⟩ := Option.bind_eq_some_iff.mp hstep
      exact (create_eq_some.mp hcreate).1
    · cases hstep
  | _ => trivial

theorem step_owned (h : Owned s.heap s.blocks) {event : PottyEvent}
    (hstep : s.step cap event = some s') : Owned s'.heap s'.blocks ∧
      pipelineStep cap s.forget (s.forgetEvent event) = some s'.forget := by
  have hsimulates : Simulates cap s event := step_simulates h (fresh_of_step hstep)
  rw [Simulates, hstep] at hsimulates
  exact hsimulates

/-- The potty owns its memory, and the pipeline gets to where it is. -/
structure Inv (cap : ℕ) (s : Potty) : Prop where
  owned : Owned s.heap s.blocks
  refines : ∃ steps, run (pipelineStep cap) pottyCreate steps = some s.forget

theorem launch_inv (cap address : ℕ) (now : UInt64) : (launch address now).Inv cap where
  owned := (owned_empty.create (create_eq_some.mpr ⟨rfl, rfl⟩)).1
  refines := ⟨[], rfl⟩

theorem Inv.step (h : s.Inv cap) {event : PottyEvent} (hstep : s.step cap event = some s') :
    s'.Inv cap := by
  obtain ⟨howned, hpipeline⟩ := step_owned h.owned hstep
  obtain ⟨steps, hsteps⟩ := h.refines
  refine ⟨howned, steps ++ [s.forgetEvent event], ?_⟩
  rw [run_append, hsteps]
  exact hpipeline

/-- No batch is larger than the waste may get, none is empty, and when the thread last looked at
the clock and flushed nothing, the last flush was a second ago at most. -/
structure Punctual (s : Potty) : Prop where
  waste : s.waste.length ≤ flushItemsThreshold
  polling : s.pump = .polling → s.waste.length < flushItemsThreshold
  queued : ∀ job ∈ s.flushJobs, 0 < job.waste.length ∧ job.waste.length ≤ flushItemsThreshold
  looked : s.looked.toNat ≤ s.lastFlushTs.toNat + 1000

theorem launch_punctual (address : ℕ) (now : UInt64) : (launch address now).Punctual where
  waste := Nat.zero_le _
  polling _ := Nat.zero_lt_succ _
  queued _ hjob := absurd hjob List.not_mem_nil
  looked := Nat.le_add_right _ _

/-- The sum wraps around only to a smaller one. -/
theorem le_of_not_overdue {nowMs : UInt64} (h : s.overdue nowMs = false) :
    nowMs.toNat ≤ s.lastFlushTs.toNat + 1000 := by
  have hle : nowMs ≤ s.lastFlushTs + flushTimeout := by
    simpa [overdue] using h
  have hnat := UInt64.le_iff_toNat_le.mp hle
  rw [UInt64.toNat_add] at hnat
  refine hnat.trans ((Nat.mod_le _ _).trans ?_)
  rfl

theorem pottyFlush_punctual (hwaste : s.waste.length ≤ flushItemsThreshold)
    (hqueued : ∀ job ∈ s.flushJobs, 0 < job.waste.length ∧ job.waste.length ≤ flushItemsThreshold)
    {now : UInt64} {address : ℕ} (hflush : s.pottyFlush now address = some s') : s'.Punctual := by
  unfold pottyFlush at hflush
  split at hflush
  · rename_i hempty
    cases hflush
    refine ⟨hwaste, fun _ => ?_, hqueued, Nat.le_add_right _ _⟩
    simp [hempty, flushItemsThreshold]
  · rename_i hcells
    obtain ⟨heap, -, heq⟩ := Option.bind_eq_some_iff.mp hflush
    cases heq
    refine ⟨Nat.zero_le _, fun _ => Nat.zero_lt_succ _, ?_, Nat.le_add_right _ _⟩
    intro job hjob
    rcases List.mem_append.mp hjob with hjob | hjob
    · exact hqueued job hjob
    · rw [List.mem_singleton.mp hjob]
      exact ⟨List.length_pos_iff.mpr hcells, hwaste⟩

theorem Punctual.step (h : s.Punctual) {event : PottyEvent} (hstep : s.step cap event = some s') :
    s'.Punctual := by
  cases event with
  | feed mutation address =>
    simp only [Potty.step, feed] at hstep
    split at hstep
    · obtain ⟨heap, -, hstep⟩ := Option.bind_eq_some_iff.mp hstep
      obtain ⟨⟨heap', clone⟩, -, heq⟩ := Option.bind_eq_some_iff.mp hstep
      cases heq
      exact ⟨h.waste, h.polling, h.queued, h.looked⟩
    · cases hstep
  | consume =>
    simp only [Potty.step, consume] at hstep
    split at hstep
    · rename_i message sewer hpump hsewer
      obtain ⟨mutation, -, hstep⟩ := Option.bind_eq_some_iff.mp hstep
      obtain ⟨pooped, hpoop, hstep⟩ := Option.bind_eq_some_iff.mp hstep
      obtain ⟨heap, -, heq⟩ := Option.bind_eq_some_iff.mp hstep
      obtain ⟨⟨heap', clone⟩, -, hpooped⟩ := Option.bind_eq_some_iff.mp hpoop
      cases hpooped
      cases heq
      refine ⟨?_, nofun, h.queued, h.looked⟩
      have hroom := h.polling hpump
      rw [List.length_append]
      exact hroom
    · cases hstep
  | timeout =>
    simp only [Potty.step] at hstep
    split at hstep
    · cases hstep
      exact ⟨h.waste, nofun, h.queued, h.looked⟩
    · cases hstep
  | decide nowMs now address =>
    simp only [Potty.step, decide] at hstep
    split at hstep
    · split at hstep
      · exact pottyFlush_punctual (s := { s with pump := .polling }) h.waste h.queued hstep
      · rename_i hflush
        cases hstep
        rw [Bool.not_eq_true, shouldFlush] at hflush
        split at hflush
        · cases hflush
        · rename_i hroom
          exact ⟨h.waste, fun _ => Nat.not_le.mp hroom, h.queued, le_of_not_overdue hflush⟩
    · cases hstep
  | grab flusher =>
    simp only [Potty.step, grab] at hstep
    split at hstep
    · cases hstep
      exact ⟨h.waste, h.polling, h.queued, h.looked⟩
    · rename_i job flushJobs hphase hjobs
      cases hstep
      refine ⟨h.waste, h.polling, fun job hjob => h.queued job ?_, h.looked⟩
      rw [hjobs]
      exact List.mem_cons_of_mem _ hjob
    · cases hstep
  | write flusher =>
    simp only [Potty.step, write] at hstep
    split at hstep
    · obtain ⟨mutation, -, heq⟩ := Option.bind_eq_some_iff.mp hstep
      cases heq
      exact ⟨h.waste, h.polling, h.queued, h.looked⟩
    · cases hstep
  | finish flusher =>
    simp only [Potty.step, finish] at hstep
    split at hstep
    · obtain ⟨heap, -, heq⟩ := Option.bind_eq_some_iff.mp hstep
      cases heq
      exact ⟨h.waste, h.polling, h.queued, h.looked⟩
    · cases hstep

end Potty

/-- However the threads take turns and whatever addresses are used again, a potty owns exactly the
arenas that are alive, has gone through a run of the pipeline, and goes on exactly where the
pipeline does: nothing it touches was freed, and no arena is left behind. -/
theorem pottyRun_refines (cap address : ℕ) (now : UInt64) (events : List PottyEvent) (s : Potty)
    (hrun : run (Potty.step cap) (Potty.launch address now) events = some s) :
    Owned s.heap s.blocks ∧
      (∃ steps, run (pipelineStep cap) pottyCreate steps = some s.forget) ∧
      ∀ event, s.Fresh event → (s.step cap event).map Potty.forget =
        pipelineStep cap s.forget (s.forgetEvent event) := by
  have hinv : s.Inv cap :=
    run_preserves (Potty.launch_inv cap address now) (fun _ _ _ hs hstep => hs.step hstep) hrun
  refine ⟨hinv.owned, hinv.refines, fun event hfresh => ?_⟩
  have hsimulates : Potty.Simulates cap s event := Potty.step_simulates hinv.owned hfresh
  unfold Potty.Simulates at hsimulates
  cases hstep : s.step cap event with
  | none =>
    rw [hstep] at hsimulates
    exact hsimulates.symm
  | some s' =>
    rw [hstep] at hsimulates
    exact hsimulates.2.symm

/-- A message is consumed and flushed at once, written and freed, and its address is used again. -/
theorem pottyRun_refines_reuse :
    let m₁ : SepticTankMutation := .set ⟨[97], [49], -1⟩
    let events : List PottyEvent := [.feed m₁ 1, .consume, .decide 2000 2000 1, .grab 0, .write 0,
      .finish 0, .feed (.del [97]) 0]
    ∃ s, run (Potty.step 100) (Potty.launch 0 0) events = some s ∧ Owned s.heap s.blocks ∧
      (∃ steps, run (pipelineStep 100) pottyCreate steps = some s.forget) ∧
      s.forget.file = [m₁] ∧ s.blocks.map Block.arena = [1, 0] := by
  intro m₁ events
  have hrun : (run (Potty.step 100) (Potty.launch 0 0) events).map
      (fun s => (s.file, s.blocks.map Block.arena)) = some ([m₁], [1, 0]) := by decide +kernel
  obtain ⟨s, hs, hfields⟩ := Option.map_eq_some_iff.mp hrun
  obtain ⟨howned, hsteps, -⟩ := pottyRun_refines 100 0 0 events s hs
  exact ⟨s, hs, howned, hsteps, congrArg Prod.fst hfields, congrArg Prod.snd hfields⟩

/-- The waste never needs more than the slots it is created with, every queued job has something to
write and no more than that, and nothing is left unflushed at a look at the clock when the last
flush was more than a second ago. -/
theorem pottyRun_punctual (cap address : ℕ) (now : UInt64) (events : List PottyEvent) (s : Potty)
    (hrun : run (Potty.step cap) (Potty.launch address now) events = some s) :
    s.waste.length ≤ 500 ∧ (∀ job ∈ s.flushJobs, 0 < job.waste.length ∧ job.waste.length ≤ 500) ∧
      s.looked.toNat ≤ s.lastFlushTs.toNat + 1000 := by
  have hpunctual : s.Punctual :=
    run_preserves (Potty.launch_punctual address now) (fun _ _ _ hs hstep => hs.step hstep) hrun
  exact ⟨hpunctual.waste, hpunctual.queued, hpunctual.looked⟩

/-- The thread looks at the clock in time and later finds that the second has passed. -/
theorem pottyRun_punctual_late :
    let events : List PottyEvent := [.feed (.del [97]) 1, .consume, .decide 1000 1000 1, .timeout,
      .decide 1001 1002 1]
    ∃ s, run (Potty.step 100) (Potty.launch 0 0) events = some s ∧
      s.flushJobs.map QueuedFlush.ts = [1002] ∧ s.waste.length ≤ 500 ∧
      s.looked.toNat ≤ s.lastFlushTs.toNat + 1000 := by
  intro events
  have hrun : (run (Potty.step 100) (Potty.launch 0 0) events).map
      (fun s => s.flushJobs.map QueuedFlush.ts) = some [1002] := by decide +kernel
  obtain ⟨s, hs, hts⟩ := Option.map_eq_some_iff.mp hrun
  obtain ⟨hwaste, -, hlooked⟩ := pottyRun_punctual 100 0 0 events s hs
  exact ⟨s, hs, hts, hwaste, hlooked⟩

end Redic
