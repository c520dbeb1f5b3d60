import Redic.Foundation.RecordStream

/-! # The language of a record reader

A reader recognizes a set of encodings when whatever it returns was encoded at the front of the
stream and whatever it stops at is the beginning of some encoding. Recognition composes along
sequential reads. A reader of all records takes them off the stream one by one and leaves the
tail in which it stops.
-/
namespace Redic.RecordStream

variable {α β γ ε : Type}

structure Recognizes (torn : ε) (read : Reader α β ε) (encodes : α → List β → Prop) : Prop where
  sound : ∀ stream item rest, read stream = .ok (item, rest) →
    ∃ encoded, encodes item encoded ∧ stream = encoded ++ rest
  stops : ∀ stream stop, read stream = .error stop →
    stop = torn ∧ ∃ item encoded, encodes item encoded ∧ stream <+: encoded ∧ stream ≠ encoded

section Recognizes
variable {torn : ε} {read : Reader α β ε} {encodes : α → List β → Prop}

theorem recognizes_pure (item : α) : Recognizes (β := β) torn (Reader.pure item)
    fun found encoded => found = item ∧ encoded = [] where
  sound stream found rest h := by
    cases h
    exact ⟨[], ⟨rfl, rfl⟩, rfl⟩
  stops stream stop h := by cases h

/-- Two reads in a row recognize an encoding followed by one that may depend on its item. -/
theorem Recognizes.andThen {next : α → Reader γ β ε} {follows : α → γ → List β → Prop}
    (h : Recognizes torn read encodes) (hnext : ∀ a, Recognizes torn (next a) (follows a))
    (hsome : ∀ a, ∃ c encoded, follows a c encoded) : Recognizes torn (read.andThen next)
      fun c encoded =>
        ∃ a front back, encodes a front ∧ follows a c back ∧ encoded = front ++ back where
  sound stream c rest hread := by
    cases hfirst : read stream with
    | error stop => simp [Reader.andThen, hfirst] at hread
    | ok first =>
      obtain ⟨a, middle⟩ := first
      simp only [Reader.andThen, hfirst] at hread
      obtain ⟨front, hfront, rfl⟩ := h.sound stream a middle hfirst
      obtain ⟨back, hback, rfl⟩ := (hnext a).sound middle c rest hread
      exact ⟨front ++ back, ⟨a, front, back, hfront, hback, rfl⟩, by simp⟩
  stops stream stop hread := by
    cases hfirst : read stream with
    | error reason =>
      simp only [Reader.andThen, hfirst] at hread
      cases hread
      obtain ⟨htorn, a, front, hfront, hcut, hne⟩ := h.stops stream stop hfirst
      obtain ⟨c, back, hback⟩ := hsome a
      refine ⟨htorn, c, front ++ back, ⟨a, front, back, hfront, hback, rfl⟩, ?_, ?_⟩
      · exact hcut.trans (List.prefix_append front back)
      · -- an encoding that ends inside its first part would have to be all of it
        rintro rfl
        exact hne (hcut.eq_of_length_le (by simp))
    | ok first =>
      obtain ⟨a, middle⟩ := first
      simp only [Reader.andThen, hfirst] at hread
      obtain ⟨front, hfront, rfl⟩ := h.sound stream a middle hfirst
      obtain ⟨htorn, c, back, hback, hcut, hne⟩ := (hnext a).stops middle stop hread
      refine ⟨htorn, c, front ++ back, ⟨a, front, back, hfront, hback, rfl⟩, ?_, ?_⟩
      · exact (List.prefix_append_right_inj front).mpr hcut
      · simpa using hne

theorem Recognizes.map (h : Recognizes torn read encodes) (f : α → γ) :
    Recognizes torn (read.map f) fun c encoded => ∃ a, f a = c ∧ encodes a encoded where
  sound stream c rest hread := by
    cases hfirst : read stream with
    | error stop => simp [Reader.map, Reader.andThen, hfirst] at hread
    | ok first =>
      simp only [Reader.map, Reader.andThen, hfirst, Reader.pure] at hread
      cases hread
      obtain ⟨encoded, hencoded, hstream⟩ := h.sound stream first.1 first.2 hfirst
      exact ⟨encoded, ⟨first.1, rfl, hencoded⟩, hstream⟩
  stops stream stop hread := by
    cases hfirst : read stream with
    | error reason =>
      simp only [Reader.map, Reader.andThen, hfirst] at hread
      cases hread
      obtain ⟨htorn, a, encoded, hencoded, hcut⟩ := h.stops stream stop hfirst
      exact ⟨htorn, f a, encoded, ⟨a, rfl, hencoded⟩, hcut⟩
    | ok first => simp [Reader.map, Reader.andThen, hfirst, Reader.pure] at hread

theorem Recognizes.mono {encodes' : α → List β → Prop} (h : Recognizes torn read encodes)
    (himp : ∀ a encoded, encodes a encoded → encodes' a encoded) :
    Recognizes torn read encodes' where
  sound stream item rest hread := by
    obtain ⟨encoded, hencoded, hstream⟩ := h.sound stream item rest hread
    exact ⟨encoded, himp item encoded hencoded, hstream⟩
  stops stream stop hread := by
    obtain ⟨htorn, a, encoded, hencoded, hcut⟩ := h.stops stream stop hread
    exact ⟨htorn, a, encoded, himp a encoded hencoded, hcut⟩

end Recognizes

/-- A reader that does what another one does unless it is refused something. -/
structure Refuses (stop : ε) (read full : Reader α β ε) (refused : List β → Prop) : Prop where
  refuses : ∀ stream, refused stream → read stream = .error stop
  grants : ∀ stream, ¬ refused stream → read stream = full stream

section Refuses
variable {stop : ε} {read full : Reader α β ε} {refused : List β → Prop}

theorem refuses_never (stop : ε) (read : Reader α β ε) : Refuses stop read read fun _ => False where
  refuses _ h := h.elim
  grants _ _ := rfl

/-- What comes second is refused where the first read leaves it. -/
theorem Refuses.andThen {next nextFull : α → Reader γ β ε} {later : α → List β → Prop}
    (h : Refuses stop read full refused)
    (hnext : ∀ a, Refuses stop (next a) (nextFull a) (later a)) :
    Refuses stop (read.andThen next) (full.andThen nextFull) fun stream =>
      refused stream ∨ ∃ a rest, full stream = .ok (a, rest) ∧ later a rest where
  refuses stream hrefused := by
    by_cases hfirst : refused stream
    · rw [Reader.andThen, h.refuses stream hfirst]
    · obtain ⟨a, rest, hread, hlater⟩ := hrefused.resolve_left hfirst
      rw [Reader.andThen, h.grants stream hfirst, hread]
      exact (hnext a).refuses rest hlater
  grants stream hgranted := by
    obtain ⟨hfirst, hlater⟩ := not_or.mp hgranted
    rw [Reader.andThen, Reader.andThen, h.grants stream hfirst]
    cases hread : full stream with
    | error reason => rfl
    | ok first =>
      exact (hnext first.1).grants first.2 fun hrefused => hlater ⟨_, _, hread, hrefused⟩

theorem Refuses.map (h : Refuses stop read full refused) (f : α → γ) :
    Refuses stop (read.map f) (full.map f) refused := by
  have hmap := h.andThen fun a => refuses_never stop ((Reader.pure (f a) : Reader γ β ε))
  refine ⟨fun stream hrefused => hmap.refuses stream (Or.inl hrefused), ?_⟩
  intro stream hgranted
  refine hmap.grants stream ?_
  rintro (hrefused | ⟨-, -, -, hnever⟩)
  · exact hgranted hrefused
  · exact hnever

theorem Refuses.congr {refused' : List β → Prop} (h : Refuses stop read full refused)
    (hiff : ∀ stream, refused stream ↔ refused' stream) : Refuses stop read full refused' where
  refuses stream hrefused := h.refuses stream ((hiff stream).mpr hrefused)
  grants stream hgranted := h.grants stream fun hrefused => hgranted ((hiff stream).mp hrefused)

end Refuses

/-- Reading the items one after another leaves the tail. -/
inductive Takes (read : Reader α β ε) : List α → List β → List β → Prop
  | nil (tail : List β) : Takes read [] tail tail
  | cons {item : α} {items : List α} {stream rest tail : List β}
    (hfirst : read stream = .ok (item, rest)) (hrest : Takes read items rest tail) :
    Takes read (item :: items) stream tail

/-- With fuel for every element a reader that takes some off with every item is read to its stop. -/
theorem readAll_iff_takes {read : Reader α β ε}
    (hread : ∀ stream item rest, read stream = .ok (item, rest) → rest.length < stream.length)
    {fuel : ℕ} {stream : List β} (hfuel : stream.length < fuel) {items : List α} {stop : ε} :
    readAll read fuel stream = (items, some stop) ↔
      ∃ tail, Takes read items stream tail ∧ read tail = .error stop := by
  induction fuel generalizing stream items with
  | zero => exact absurd hfuel (Nat.not_lt_zero _)
  | succ fuel ih =>
    rw [readAll]
    cases hfirst : read stream with
    | error reason =>
      constructor
      · intro h
        cases h
        exact ⟨stream, .nil stream, hfirst⟩
      · rintro ⟨tail, htakes, hstop⟩
        cases htakes with
        | nil =>
          rw [hfirst] at hstop
          cases hstop
          rfl
        | cons hfirst' =>
          rw [hfirst] at hfirst'
          cases hfirst'
    | ok first =>
      obtain ⟨item, rest⟩ := first
      have hshorter := hread stream item rest hfirst
      have hfuel' : rest.length < fuel := by omega
      have hrest := fun items => @ih rest hfuel' items
      constructor
      · intro h
        obtain ⟨rfl, hstop⟩ := Prod.mk.inj h
        obtain ⟨tail, htakes, htail⟩ := (hrest _).mp (Prod.ext rfl hstop)
        exact ⟨tail, .cons hfirst htakes, htail⟩
      · rintro ⟨tail, htakes, hstop⟩
        cases htakes with
        | nil =>
          rw [hfirst] at hstop
          cases hstop
        | cons hfirst' htakes =>
          rw [hfirst] at hfirst'
          cases hfirst'
          have htaken := (hrest _).mpr ⟨tail, htakes, hstop⟩
          simp only [htaken]

/-- A reader that takes something off the stream with every item comes to a stop. -/
theorem readAll_stops {read : Reader α β ε}
    (hread : ∀ stream item rest, read stream = .ok (item, rest) → rest.length < stream.length)
    {fuel : ℕ} {stream : List β} (hfuel : stream.length < fuel) :
    ∃ items stop, readAll read fuel stream = (items, some stop) := by
  induction fuel generalizing stream with
  | zero => exact absurd hfuel (Nat.not_lt_zero _)
  | succ fuel ih =>
    rw [readAll]
    cases hfirst : read stream with
    | error stop => exact ⟨[], stop, rfl⟩
    | ok first =>
      obtain ⟨item, rest⟩ := first
      have hshorter := hread stream item rest hfirst
      have hless : rest.length < fuel := by omega
      obtain ⟨items, stop, hrest⟩ := ih hless
      exact ⟨item :: items, stop, by simp [hrest]⟩

namespace Codec
variable (c : Codec α β ε)

/-- Encodings are self-delimiting, so a log is the beginning of another one record by record. -/
theorem prefix_of_flatMap {items others : List α} (hitems : ∀ item ∈ items, c.valid item)
    (hothers : ∀ item ∈ others, c.valid item)
    (h : items.flatMap c.encode <+: others.flatMap c.encode) : items <+: others := by
  induction items generalizing others with
  | nil => exact List.nil_prefix
  | cons item items ih =>
    obtain ⟨hitem, hmore⟩ := List.forall_mem_cons.mp hitems
    obtain ⟨tail, htail⟩ := h
    rw [List.flatMap_cons, List.append_assoc] at htail
    cases others with
    | nil =>
      rw [List.flatMap_nil, List.append_eq_nil_iff] at htail
      exact absurd htail.1 (c.encode_ne_nil hitem)
    | cons other others =>
      obtain ⟨hother, hothers⟩ := List.forall_mem_cons.mp hothers
      rw [List.flatMap_cons] at htail
      have hread := c.read_encode item hitem (items.flatMap c.encode ++ tail)
      rw [htail, c.read_encode other hother] at hread
      obtain ⟨rfl, hrest⟩ := Prod.mk.inj (Except.ok.inj hread)
      exact List.cons_prefix_cons.mpr ⟨rfl, ih hmore hothers ⟨tail, hrest.symm⟩⟩

end Codec

end Redic.RecordStream
