import Mathlib.Data.List.Basic
import Mathlib.Tactic.Use

/-! # Reading self-delimiting records from a torn stream

A reader takes one item off the front of a stream or stops with a reason. A reader delivers an
item from an encoding when it returns the item from the whole encoding, whatever follows, and
stops as torn on every proper prefix. Delivery composes along sequential reads. A record codec
reads back, from any prefix of a concatenation of records, exactly the records that lie inside
the prefix, and then stops at the end or inside a record.
-/
namespace Redic.RecordStream

variable {α β γ ε : Type}

theorem prefix_append_cases {p xs ys : List β} (h : p <+: xs ++ ys) :
    (p <+: xs ∧ p ≠ xs) ∨ ∃ q, p = xs ++ q ∧ q <+: ys := by
  rcases List.prefix_or_prefix_of_prefix h (List.prefix_append xs ys) with hp | hp
  · by_cases he : p = xs
    · subst he
      exact Or.inr ⟨[], by simp, List.nil_prefix⟩
    · exact Or.inl ⟨hp, he⟩
  · obtain ⟨q, rfl⟩ := hp
    exact Or.inr ⟨q, rfl, (List.prefix_append_right_inj xs).mp h⟩

/-- A reader of one item: the item and the rest of the stream, or a reason to stop. -/
abbrev Reader (α β ε : Type) := List β → Except ε (α × List β)

namespace Reader

def pure (item : α) : Reader α β ε := fun stream => .ok (item, stream)

/-- Read an item and go on with a reader that may depend on it. -/
def andThen (read : Reader α β ε) (next : α → Reader γ β ε) : Reader γ β ε := fun stream =>
  match read stream with
  | .error stop => .error stop
  | .ok (item, rest) => next item rest

def map (read : Reader α β ε) (f : α → γ) : Reader γ β ε := read.andThen fun item => pure (f item)

end Reader

def Delivers (torn : ε) (read : Reader α β ε) (encoded : List β) (item : α) : Prop :=
  (∀ rest, read (encoded ++ rest) = .ok (item, rest)) ∧
  ∀ p, p <+: encoded → p ≠ encoded → read p = .error torn

section Delivers
variable {torn : ε} {read : Reader α β ε} {xs ys : List β} {a : α} {c : γ}

theorem delivers_pure (item : α) : Delivers (β := β) torn (Reader.pure item) [] item := by
  refine ⟨fun _ => rfl, ?_⟩
  intro p hp hne
  exact absurd (List.prefix_nil.mp hp) hne

/-- Two reads in a row deliver two encodings in a row. -/
theorem Delivers.andThen {k : α → Reader γ β ε} (h : Delivers torn read xs a)
    (hn : Delivers torn (k a) ys c) : Delivers torn (read.andThen k) (xs ++ ys) c := by
  constructor
  · intro rest
    rw [Reader.andThen, List.append_assoc, h.1]
    exact hn.1 rest
  · intro p hp hne
    rcases prefix_append_cases hp with ⟨hx, hxne⟩ | ⟨q, rfl, hq⟩
    · rw [Reader.andThen, h.2 p hx hxne]
    · have hqne : q ≠ ys := fun he => hne (by rw [he])
      rw [Reader.andThen, h.1 q]
      exact hn.2 q hq hqne

theorem Delivers.map {f : α → γ} (h : Delivers torn read xs a) (hf : f a = c) :
    Delivers torn (read.map f) xs c := by
  subst hf
  have hdone := h.andThen (k := fun item => Reader.pure (f item)) (delivers_pure (f a))
  rwa [List.append_nil] at hdone

end Delivers

/-- Encoder and reader of one kind of record. An empty stream is a clean end. -/
structure Codec (α β ε : Type) where
  encode : α → List β
  read : Reader α β ε
  atEnd : ε
  torn : ε
  valid : α → Prop
  read_nil : read [] = .error atEnd
  read_encode : ∀ a, valid a → ∀ rest, read (encode a ++ rest) = .ok (a, rest)
  read_torn : ∀ a, valid a → ∀ p, p <+: encode a → p ≠ encode a → p ≠ [] → read p = .error torn

/-- Read records until the reader stops. The fuel bounds the number of records. -/
def readAll (read : Reader α β ε) : ℕ → List β → List α × Option ε
  | 0, _ => ([], none)
  | fuel + 1, stream =>
    match read stream with
    | .error stop => ([], some stop)
    | .ok (item, rest) => (item :: (readAll read fuel rest).1, (readAll read fuel rest).2)

namespace Codec
variable (c : Codec α β ε)

theorem encode_ne_nil {a : α} (ha : c.valid a) : c.encode a ≠ [] := by
  intro h
  have hr := c.read_encode a ha []
  rw [h, List.nil_append, c.read_nil] at hr
  cases hr

theorem readAll_encode {a : α} (ha : c.valid a) (fuel : ℕ) (rest : List β) :
    readAll c.read (fuel + 1) (c.encode a ++ rest) =
      (a :: (readAll c.read fuel rest).1, (readAll c.read fuel rest).2) := by
  rw [readAll, c.read_encode a ha]

theorem readAll_torn {a : α} (ha : c.valid a) {p : List β} (hp : p <+: c.encode a)
    (hne : p ≠ c.encode a) (fuel : ℕ) [Decidable (p = [])] :
    readAll c.read (fuel + 1) p = ([], some (if p = [] then c.atEnd else c.torn)) := by
  split
  · rename_i h
    subst h
    rw [readAll, c.read_nil]
  · rename_i h
    rw [readAll, c.read_torn a ha p hp hne h]

/-- What is read from a prefix of a stream of records: the records that lie inside the prefix,
then a clean end on a record boundary and a torn one elsewhere. -/
theorem readAll_prefix [DecidableEq β] (records : List α) (hvalid : ∀ a ∈ records, c.valid a)
    {p : List β} (hp : p <+: records.flatMap c.encode) :
    ∃ n, n ≤ records.length ∧ (records.take n).flatMap c.encode <+: p ∧
      (n < records.length → ¬ (records.take (n + 1)).flatMap c.encode <+: p) ∧
      ∀ fuel, p.length < fuel → readAll c.read fuel p = (records.take n,
        some (if p = (records.take n).flatMap c.encode then c.atEnd else c.torn)) := by
  induction records generalizing p with
  | nil =>
    obtain rfl : p = [] := List.prefix_nil.mp hp
    refine ⟨0, Nat.le_refl _, List.nil_prefix, fun h => absurd h (Nat.lt_irrefl 0), ?_⟩
    intro fuel hfuel
    obtain ⟨fuel, rfl⟩ := Nat.exists_eq_succ_of_ne_zero (Nat.ne_of_gt hfuel)
    rw [readAll, c.read_nil]
    rfl
  | cons a records ih =>
    have ha := hvalid a List.mem_cons_self
    rw [List.flatMap_cons] at hp
    rcases prefix_append_cases hp with ⟨hx, hne⟩ | ⟨q, rfl, hq⟩
    · refine ⟨0, Nat.zero_le _, List.nil_prefix, ?_, ?_⟩
      · intro _ hcover
        rw [Nat.zero_add, List.take_succ_cons, List.take_zero, List.flatMap_singleton] at hcover
        exact hne (hx.eq_of_length_le hcover.length_le)
      · intro fuel hfuel
        obtain ⟨fuel, rfl⟩ := Nat.exists_eq_succ_of_ne_zero (Nat.ne_zero_of_lt hfuel)
        exact c.readAll_torn ha hx hne fuel
    · obtain ⟨n, hn, hin, hout, hread⟩ := ih (fun b hb => hvalid b (List.mem_cons_of_mem _ hb)) hq
      refine ⟨n + 1, Nat.succ_le_succ hn, ?_, ?_, ?_⟩
      · rw [List.take_succ_cons, List.flatMap_cons]
        exact (List.prefix_append_right_inj _).mpr hin
      · intro hlt hcover
        rw [List.take_succ_cons, List.flatMap_cons] at hcover
        exact hout (Nat.lt_of_succ_lt_succ hlt) ((List.prefix_append_right_inj _).mp hcover)
      · intro fuel hfuel
        obtain ⟨fuel, rfl⟩ := Nat.exists_eq_succ_of_ne_zero (Nat.ne_zero_of_lt hfuel)
        have hpos := List.length_pos_iff.mpr (c.encode_ne_nil ha)
        rw [List.length_append] at hfuel
        rw [c.readAll_encode ha, hread fuel (by omega)]
        simp only [List.take_succ_cons, List.flatMap_cons, List.append_cancel_left_eq]

end Codec

end Redic.RecordStream
