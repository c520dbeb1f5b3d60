import Mathlib.Data.Finset.Card
import Redic.Sewer.Ring

/-! # Sewers

A sewer is a ring under a mutex, with the threads that wait until there is space and those that
wait until there are items. A step of a thread is one pass through the critical section: it
finishes, or it finds the sewer full or empty and joins the waiting threads. A waiting thread has
no step until a signal or a spurious wake-up takes it out again, and then it tests the ring anew.
-/
namespace Redic

variable {α Thread : Type}

structure Sewer (α Thread : Type) where
  buffer : RingBuf α
  hasSpace : Finset Thread
  hasItems : Finset Thread

/-- How a pass through the critical section ends. -/
inductive Pass (β : Type)
  | waits
  | done (out : β)

def sewerCreate (cap : ℕ) : Sewer α Thread := ⟨ringbufCreate cap, ∅, ∅⟩

section Steps
variable [DecidableEq Thread]

/-- A signal unblocks one of the waiting threads, and nobody when none waits. -/
def pthreadCondSignal (waiting : Finset Thread) (woken : Option Thread) :
    Option (Finset Thread) :=
  match woken with
  | none => if waiting = ∅ then some ∅ else none
  | some thread => if thread ∈ waiting then some (waiting.erase thread) else none

def sewerSend (sewer : Sewer α Thread) (thread : Thread) (message : α) (woken : Option Thread) :
    Option (Pass Unit × Sewer α Thread) :=
  if thread ∈ sewer.hasSpace then none
  else if ringbufIsFull sewer.buffer then
    some (.waits, { sewer with hasSpace := insert thread sewer.hasSpace })
  else
    (pthreadCondSignal sewer.hasItems woken).map fun hasItems =>
      (.done (), { sewer with
        buffer := (ringbufPush sewer.buffer message).2
        hasItems := hasItems })

/-- What follows the wait in both kinds of consuming. -/
def sewerTake (sewer : Sewer α Thread) (woken : Option Thread) :
    Option (Option α × Sewer α Thread) :=
  (pthreadCondSignal sewer.hasSpace woken).map fun hasSpace =>
    ((ringbufPop sewer.buffer none).2.1, { sewer with
      buffer := (ringbufPop sewer.buffer none).2.2
      hasSpace := hasSpace })

def sewerConsume (sewer : Sewer α Thread) (thread : Thread) (woken : Option Thread) :
    Option (Pass (Option α) × Sewer α Thread) :=
  if thread ∈ sewer.hasItems then none
  else if ringbufIsEmpty sewer.buffer then
    some (.waits, { sewer with hasItems := insert thread sewer.hasItems })
  else (sewerTake sewer woken).map fun taken => (.done taken.1, taken.2)

/-- The wait ends at the timeout at the latest, so the thread always has a step. -/
def sewerTimedConsume (sewer : Sewer α Thread) (woken : Option Thread) :
    Option (Option α × Sewer α Thread) :=
  if ringbufIsEmpty sewer.buffer then some (none, sewer) else sewerTake sewer woken

/-- A wait may end without a signal. -/
def Sewer.spuriousWake (sewer : Sewer α Thread) (thread : Thread) : Sewer α Thread :=
  { sewer with
    hasSpace := sewer.hasSpace.erase thread
    hasItems := sewer.hasItems.erase thread }

end Steps

/-- The sewer holds a queue that one thread consumes, which waits only while there is nothing. -/
structure Sewer.Serves (sewer : Sewer α Thread) (consumer : Thread) (cap : ℕ) (queue : List α) :
    Prop where
  holds : sewer.buffer.Holds queue
  cap_eq : sewer.buffer.cap = cap
  consumer_waits : ∀ thread ∈ sewer.hasItems, thread = consumer ∧ queue = []

/-- Only senders wait for space, and while any of them does, enough others that are not waiting
are on their way to fill the free slots. -/
structure Sewer.Roomy (sewer : Sewer α Thread) (cap : ℕ) (queue : List α)
    (sends : Thread → Prop) : Prop where
  waiting_sends : ∀ thread ∈ sewer.hasSpace, sends thread
  room : sewer.hasSpace.Nonempty → ∃ awake : Finset Thread,
    (∀ thread ∈ awake, sends thread ∧ thread ∉ sewer.hasSpace) ∧ cap ≤ queue.length + awake.card

theorem sewerCreate_serves {cap : ℕ} (hcap : 0 < cap) (consumer : Thread) :
    (sewerCreate cap : Sewer α Thread).Serves consumer cap [] where
  holds := ringbufCreate_holds hcap
  cap_eq := rfl
  consumer_waits _ h := absurd h (Finset.notMem_empty _)

theorem sewerCreate_roomy (cap : ℕ) (queue : List α) (sends : Thread → Prop) :
    (sewerCreate cap : Sewer α Thread).Roomy cap queue sends where
  waiting_sends _ h := absurd h (Finset.notMem_empty _)
  room h := absurd h Finset.not_nonempty_empty

section Steps
variable [DecidableEq Thread] {sewer sewer' : Sewer α Thread} {consumer thread : Thread}
  {cap : ℕ} {queue : List α} {message : α} {woken : Option Thread}

theorem pthreadCondSignal_cases {waiting rest : Finset Thread}
    (h : pthreadCondSignal waiting woken = some rest) :
    (waiting = ∅ ∧ rest = ∅) ∨ ∃ thread ∈ waiting, rest = waiting.erase thread := by
  unfold pthreadCondSignal at h
  cases woken with
  | none =>
    dsimp only at h
    by_cases hw : waiting = ∅
    · rw [if_pos hw] at h
      exact Or.inl ⟨hw, (Option.some.inj h).symm⟩
    · rw [if_neg hw] at h
      cases h
  | some thread =>
    dsimp only at h
    by_cases hw : thread ∈ waiting
    · rw [if_pos hw] at h
      exact Or.inr ⟨thread, hw, (Option.some.inj h).symm⟩
    · rw [if_neg hw] at h
      cases h

theorem pthreadCondSignal_enabled (waiting : Finset Thread) :
    ∃ woken rest, pthreadCondSignal waiting woken = some rest := by
  by_cases hw : waiting = ∅
  · exact ⟨none, ∅, if_pos hw⟩
  · obtain ⟨thread, hthread⟩ := Finset.nonempty_iff_ne_empty.mpr hw
    exact ⟨some thread, waiting.erase thread, if_pos hthread⟩

theorem pthreadCondSignal_empty {rest : Finset Thread}
    (h : pthreadCondSignal ∅ woken = some rest) : rest = ∅ := by
  rcases pthreadCondSignal_cases h with ⟨-, rfl⟩ | ⟨thread, hthread, -⟩
  · rfl
  · exact absurd hthread (Finset.notMem_empty thread)

theorem pthreadCondSignal_single {waiting rest : Finset Thread}
    (h : pthreadCondSignal waiting woken = some rest) (hsingle : ∀ t ∈ waiting, t = consumer) :
    rest = ∅ := by
  rcases pthreadCondSignal_cases h with ⟨-, rfl⟩ | ⟨thread, hthread, rfl⟩
  · rfl
  · apply Finset.eq_empty_of_forall_notMem
    intro t ht
    obtain ⟨hne, ht⟩ := Finset.mem_erase.mp ht
    exact hne ((hsingle t ht).trans (hsingle thread hthread).symm)

theorem Sewer.Serves.send (hs : sewer.Serves consumer cap queue) {pass : Pass Unit}
    (h : sewerSend sewer thread message woken = some (pass, sewer')) :
    thread ∉ sewer.hasSpace ∧
      ((pass = .waits ∧ cap ≤ queue.length ∧ sewer'.Serves consumer cap queue ∧
          sewer'.hasSpace = insert thread sewer.hasSpace) ∨
        (pass = .done () ∧ queue.length < cap ∧
          sewer'.Serves consumer cap (queue ++ [message]) ∧
          sewer'.hasSpace = sewer.hasSpace)) := by
  unfold sewerSend at h
  by_cases hwait : thread ∈ sewer.hasSpace
  · rw [if_pos hwait] at h
    cases h
  rw [if_neg hwait, hs.holds.isFull_eq, hs.cap_eq] at h
  refine ⟨hwait, ?_⟩
  by_cases hfull : cap ≤ queue.length
  · rw [if_pos (decide_eq_true hfull)] at h
    cases h
    exact Or.inl ⟨rfl, hfull, ⟨hs.holds, hs.cap_eq, hs.consumer_waits⟩, rfl⟩
  · rw [if_neg (by simpa using hfull)] at h
    obtain ⟨hasItems, hsignal, heq⟩ := Option.map_eq_some_iff.mp h
    cases heq
    have hspace : queue.length < sewer.buffer.cap := hs.cap_eq ▸ Nat.not_le.mp hfull
    obtain ⟨-, hpush, hcap⟩ := hs.holds.push hspace message
    have hnobody := pthreadCondSignal_single hsignal fun t ht => (hs.consumer_waits t ht).1
    refine Or.inr ⟨rfl, Nat.not_le.mp hfull, ⟨hpush, hcap.trans hs.cap_eq, ?_⟩, rfl⟩
    intro t ht
    exact absurd (hnobody ▸ ht) (Finset.notMem_empty t)

theorem Sewer.Serves.send_waits (hs : sewer.Serves consumer cap queue)
    (h : sewerSend sewer thread message woken = some (.waits, sewer')) :
    cap ≤ queue.length ∧ sewer'.Serves consumer cap queue ∧
      sewer'.hasSpace = insert thread sewer.hasSpace := by
  rcases (hs.send h).2 with ⟨-, hwaits⟩ | ⟨hpass, -⟩
  · exact hwaits
  · cases hpass

theorem Sewer.Serves.send_done (hs : sewer.Serves consumer cap queue)
    (h : sewerSend sewer thread message woken = some (.done (), sewer')) :
    thread ∉ sewer.hasSpace ∧ sewer'.Serves consumer cap (queue ++ [message]) ∧
      sewer'.hasSpace = sewer.hasSpace := by
  obtain ⟨hawake, ⟨hpass, -⟩ | ⟨-, -, hdone⟩⟩ := hs.send h
  · cases hpass
  · exact ⟨hawake, hdone⟩

theorem Sewer.Serves.take (hs : sewer.Serves consumer cap queue) {out : Option α}
    (hne : queue ≠ []) (h : sewerTake sewer woken = some (out, sewer')) :
    ∃ elem rest, queue = elem :: rest ∧ out = some elem ∧ sewer'.Serves consumer cap rest ∧
      pthreadCondSignal sewer.hasSpace woken = some sewer'.hasSpace := by
  obtain ⟨elem, rest, rfl⟩ := List.exists_cons_of_ne_nil hne
  obtain ⟨hasSpace, hsignal, heq⟩ := Option.map_eq_some_iff.mp h
  cases heq
  obtain ⟨-, hout, hpop, hcap⟩ := hs.holds.pop none
  refine ⟨elem, rest, rfl, hout, ⟨hpop, hcap.trans hs.cap_eq, ?_⟩, hsignal⟩
  intro t ht
  exact absurd (hs.consumer_waits t ht).2 hne

theorem Sewer.Serves.consume (hs : sewer.Serves consumer cap queue) {pass : Pass (Option α)}
    (h : sewerConsume sewer consumer woken = some (pass, sewer')) :
    (pass = .waits ∧ queue = [] ∧ sewer'.Serves consumer cap [] ∧
        sewer'.hasSpace = sewer.hasSpace) ∨
      ∃ elem rest, queue = elem :: rest ∧ pass = .done (some elem) ∧
        sewer'.Serves consumer cap rest ∧
        pthreadCondSignal sewer.hasSpace woken = some sewer'.hasSpace := by
  unfold sewerConsume at h
  by_cases hwait : consumer ∈ sewer.hasItems
  · rw [if_pos hwait] at h
    cases h
  have hfree : sewer.hasItems = ∅ := by
    apply Finset.eq_empty_of_forall_notMem
    intro t ht
    exact hwait ((hs.consumer_waits t ht).1 ▸ ht)
  rw [if_neg hwait, hs.holds.isEmpty_eq] at h
  by_cases hempty : queue.length = 0
  · obtain rfl := List.eq_nil_of_length_eq_zero hempty
    rw [if_pos (decide_eq_true hempty)] at h
    cases h
    refine Or.inl ⟨rfl, rfl, ⟨hs.holds, hs.cap_eq, ?_⟩, rfl⟩
    intro t ht
    rw [hfree] at ht
    exact ⟨Finset.mem_singleton.mp ht, rfl⟩
  · rw [if_neg (by simpa using hempty)] at h
    obtain ⟨⟨out, taken⟩, htake, heq⟩ := Option.map_eq_some_iff.mp h
    cases heq
    have hne : queue ≠ [] := fun hnil => hempty (hnil ▸ rfl)
    obtain ⟨elem, rest, hq, rfl, hserves, hsignal⟩ := hs.take hne htake
    exact Or.inr ⟨elem, rest, hq, rfl, hserves, hsignal⟩

theorem Sewer.Serves.consume_waits (hs : sewer.Serves consumer cap queue)
    (h : sewerConsume sewer consumer woken = some (.waits, sewer')) :
    queue = [] ∧ sewer'.Serves consumer cap [] ∧ sewer'.hasSpace = sewer.hasSpace := by
  rcases hs.consume h with ⟨-, hwaits⟩ | ⟨_, _, _, hpass, _⟩
  · exact hwaits
  · cases hpass

theorem Sewer.Serves.consume_done {elem : α} (hs : sewer.Serves consumer cap queue)
    (h : sewerConsume sewer consumer woken = some (.done (some elem), sewer')) :
    ∃ rest, queue = elem :: rest ∧ sewer'.Serves consumer cap rest ∧
      pthreadCondSignal sewer.hasSpace woken = some sewer'.hasSpace := by
  rcases hs.consume h with ⟨hpass, -⟩ | ⟨elem', rest, hqueue, hpass, hdone⟩
  · cases hpass
  · cases hpass
    exact ⟨rest, hqueue, hdone⟩

theorem Sewer.Serves.spuriousWake (hs : sewer.Serves consumer cap queue) (thread : Thread) :
    (sewer.spuriousWake thread).Serves consumer cap queue where
  holds := hs.holds
  cap_eq := hs.cap_eq
  consumer_waits t ht := hs.consumer_waits t (Finset.mem_of_mem_erase ht)

section Roomy
variable {sends sends' : Thread → Prop} {queue' : List α}

omit [DecidableEq Thread] in
theorem Sewer.Roomy.congr (hr : sewer.Roomy cap queue sends)
    (hspace : sewer'.hasSpace = sewer.hasSpace) (hsends : ∀ t, sends t → sends' t) :
    sewer'.Roomy cap queue sends' where
  waiting_sends t ht := hsends t (hr.waiting_sends t (hspace ▸ ht))
  room h := by
    rw [hspace] at h ⊢
    obtain ⟨awake, hawake, hcap⟩ := hr.room h
    exact ⟨awake, fun t ht => ⟨hsends t (hawake t ht).1, (hawake t ht).2⟩, hcap⟩

theorem Sewer.Roomy.wait (hr : sewer.Roomy cap queue sends) (hthread : sends thread)
    (hfull : cap ≤ queue.length) (hspace : sewer'.hasSpace = insert thread sewer.hasSpace) :
    sewer'.Roomy cap queue sends where
  waiting_sends t ht := by
    rw [hspace] at ht
    rcases Finset.mem_insert.mp ht with rfl | ht
    · exact hthread
    · exact hr.waiting_sends t ht
  room _ := ⟨∅, fun t ht => absurd ht (Finset.notMem_empty t), hfull⟩

theorem Sewer.Roomy.push (hr : sewer.Roomy cap queue sends) (hawake : thread ∉ sewer.hasSpace)
    (hspace : sewer'.hasSpace = sewer.hasSpace) (hlen : queue'.length = queue.length + 1)
    (hsends : ∀ t, sends t → t ≠ thread → sends' t) : sewer'.Roomy cap queue' sends' where
  waiting_sends t ht := by
    rw [hspace] at ht
    exact hsends t (hr.waiting_sends t ht) fun heq => hawake (heq ▸ ht)
  room h := by
    rw [hspace] at h ⊢
    obtain ⟨awake, hmem, hcap⟩ := hr.room h
    refine ⟨awake.erase thread, ?_, ?_⟩
    · intro t ht
      obtain ⟨hne, ht⟩ := Finset.mem_erase.mp ht
      exact ⟨hsends t (hmem t ht).1 hne, (hmem t ht).2⟩
    · have hcard : awake.card - 1 ≤ (awake.erase thread).card := Finset.pred_card_le_card_erase
      omega

/-- A message that leaves frees a slot and wakes a waiting sender for it. -/
theorem Sewer.Roomy.pop (hr : sewer.Roomy cap queue sends)
    (hsignal : pthreadCondSignal sewer.hasSpace woken = some sewer'.hasSpace)
    (hlen : queue.length = queue'.length + 1) : sewer'.Roomy cap queue' sends := by
  rcases pthreadCondSignal_cases hsignal with ⟨-, hnone⟩ | ⟨thread, hthread, hrest⟩
  · constructor
    · intro t ht
      exact absurd (hnone ▸ ht) (Finset.notMem_empty t)
    · intro h
      exact absurd (hnone ▸ h) Finset.not_nonempty_empty
  · constructor
    · intro t ht
      rw [hrest] at ht
      exact hr.waiting_sends t (Finset.mem_of_mem_erase ht)
    · intro _
      obtain ⟨awake, hmem, hcap⟩ := hr.room ⟨thread, hthread⟩
      have hnew : thread ∉ awake := fun h => (hmem thread h).2 hthread
      refine ⟨insert thread awake, ?_, ?_⟩
      · intro t ht
        rw [hrest]
        rcases Finset.mem_insert.mp ht with rfl | ht
        · exact ⟨hr.waiting_sends t hthread, Finset.notMem_erase t _⟩
        · exact ⟨(hmem t ht).1, fun h => (hmem t ht).2 (Finset.mem_of_mem_erase h)⟩
      · rw [Finset.card_insert_of_notMem hnew]
        omega

theorem Sewer.Roomy.spuriousWake (hr : sewer.Roomy cap queue sends) (thread : Thread) :
    (sewer.spuriousWake thread).Roomy cap queue sends where
  waiting_sends t ht := hr.waiting_sends t (Finset.mem_of_mem_erase ht)
  room h := by
    obtain ⟨awake, hmem, hcap⟩ := hr.room (h.mono (Finset.erase_subset _ _))
    exact ⟨awake, fun t ht => ⟨(hmem t ht).1, fun hw => (hmem t ht).2
      (Finset.mem_of_mem_erase hw)⟩, hcap⟩

/-- With space left, somebody who waits for it means that somebody else can take it. -/
theorem Sewer.Roomy.exists_awake (hr : sewer.Roomy cap queue sends) (hspace : queue.length < cap)
    (hthread : sends thread) : ∃ t, sends t ∧ t ∉ sewer.hasSpace := by
  by_cases hwait : thread ∈ sewer.hasSpace
  · obtain ⟨awake, hmem, hcap⟩ := hr.room ⟨thread, hwait⟩
    have hpos : 0 < awake.card := by omega
    obtain ⟨t, ht⟩ := Finset.card_pos.mp hpos
    exact ⟨t, hmem t ht⟩
  · exact ⟨thread, hthread, hwait⟩

end Roomy

theorem Sewer.Serves.send_enabled (hs : sewer.Serves consumer cap queue)
    (hspace : queue.length < cap) (hawake : thread ∉ sewer.hasSpace) (message : α) :
    ∃ woken sewer', sewerSend sewer thread message woken = some (.done (), sewer') := by
  obtain ⟨woken, hasItems, hsignal⟩ := pthreadCondSignal_enabled sewer.hasItems
  refine ⟨woken, { sewer with
    buffer := (ringbufPush sewer.buffer message).2, hasItems := hasItems }, ?_⟩
  unfold sewerSend
  rw [if_neg hawake, hs.holds.isFull_eq, hs.cap_eq, if_neg (by simpa using hspace), hsignal]
  rfl

theorem sewerTake_enabled (sewer : Sewer α Thread) :
    ∃ woken out sewer', sewerTake sewer woken = some (out, sewer') := by
  obtain ⟨woken, hasSpace, hsignal⟩ := pthreadCondSignal_enabled sewer.hasSpace
  refine ⟨woken, (ringbufPop sewer.buffer none).2.1, { sewer with
    buffer := (ringbufPop sewer.buffer none).2.2, hasSpace := hasSpace }, ?_⟩
  rw [sewerTake, hsignal]
  rfl

theorem Sewer.Serves.consume_enabled {elem : α} (hs : sewer.Serves consumer cap (elem :: queue)) :
    ∃ woken sewer', sewerConsume sewer consumer woken = some (.done (some elem), sewer') := by
  obtain ⟨woken, out, sewer', htake⟩ := sewerTake_enabled sewer
  refine ⟨woken, sewer', ?_⟩
  have hfree : consumer ∉ sewer.hasItems := fun h => by cases (hs.consumer_waits consumer h).2
  have hstep : sewerConsume sewer consumer woken = some (.done out, sewer') := by
    rw [sewerConsume, if_neg hfree, hs.holds.isEmpty_eq, if_neg (by simp), htake]
    rfl
  rcases hs.consume hstep with ⟨h, -⟩ | ⟨elem', rest, hq, h, -⟩
  · cases h
  · cases hq
    rw [hstep, h]

end Steps

end Redic
