import Redic.Resp.Parser

/-! # What the bytes of a message settle

A message is settled when its bytes hold a complete value, or reach a byte at which they cannot
be one. The grammar says so about the bytes alone; a message that is merely cut short has no
outcome in it. Outcomes do not change when bytes follow, and they are what the parser returns.
-/
namespace Redic
open DecimalText

/-- A value and how many bytes it takes, or the failure and the offset it is found at. -/
inductive FrameOutcome (α : Type)
  | complete (value : α) (length : ℕ)
  | broken (code : RESPParseResultCode) (offset : ℕ)

namespace FrameOutcome
variable {α β : Type}

def map (f : α → β) : FrameOutcome α → FrameOutcome β
  | complete value length => complete (f value) length
  | broken code offset => broken code offset

/-- The outcome seen from `n` bytes further to the left. -/
def shift (n : ℕ) : FrameOutcome α → FrameOutcome α
  | complete value length => complete value (n + length)
  | broken code offset => broken code (n + offset)

/-- A value and the line end behind it, which may be broken at its first or second byte. -/
def closed (value : α) : Option ℕ → FrameOutcome α
  | none => complete value 2
  | some offset => broken .unexpectedToken offset

/-- What the parser returns for the outcome at a position. -/
def result (outcome : FrameOutcome α) (pos : ℕ) : Except RESPStop (α × ℕ) :=
  match outcome with
  | complete value length => .ok (value, pos + length)
  | broken code offset => .error (.failure ⟨code, pos + offset⟩)

theorem map_shift (f : α → β) (n : ℕ) (outcome : FrameOutcome α) :
    (outcome.shift n).map f = (outcome.map f).shift n := by
  cases outcome <;> rfl

theorem complete_of_map_shift {f : α → β} {n length : ℕ} {outcome : FrameOutcome α} {value : β}
    (h : (outcome.map f).shift n = complete value length) :
    ∃ part size, outcome = complete part size ∧ value = f part ∧ length = n + size := by
  cases outcome with
  | complete part size =>
    cases h
    exact ⟨part, size, rfl, rfl, rfl⟩
  | broken code offset => cases h

theorem map_closed (f : α → β) (value : α) (ending : Option ℕ) :
    (closed value ending).map f = closed (f value) ending := by
  cases ending <;> rfl

/-- A complete value takes at least `low` and at most `high` bytes. -/
def Within (low high : ℕ) : FrameOutcome α → Prop
  | complete _ length => low ≤ length ∧ length ≤ high
  | broken _ _ => True

theorem Within.mono {outcome : FrameOutcome α} {low high low' high' : ℕ}
    (h : outcome.Within low high) (hlow : low' ≤ low) (hhigh : high ≤ high') :
    outcome.Within low' high' := by
  cases outcome with
  | complete value length => exact ⟨Nat.le_trans hlow h.1, Nat.le_trans h.2 hhigh⟩
  | broken code offset => trivial

theorem Within.shift {outcome : FrameOutcome α} {low high : ℕ} (h : outcome.Within low high)
    (n : ℕ) : (outcome.shift n).Within (n + low) (n + high) := by
  cases outcome with
  | complete value length => exact ⟨Nat.add_le_add_left h.1 n, Nat.add_le_add_left h.2 n⟩
  | broken code offset => trivial

theorem Within.map {outcome : FrameOutcome α} {low high : ℕ} (h : outcome.Within low high)
    (f : α → β) : (outcome.map f).Within low high := by
  cases outcome with
  | complete value length => exact h
  | broken code offset => trivial

theorem result_shift (outcome : FrameOutcome α) (n pos : ℕ) :
    (outcome.shift n).result pos = outcome.result (pos + n) := by
  cases outcome <;> simp only [shift, result, Nat.add_assoc]

theorem complete_of_result {outcome : FrameOutcome α} {pos after : ℕ} {value : α}
    (h : outcome.result pos = .ok (value, after)) :
    ∃ length, outcome = complete value length ∧ after = pos + length := by
  cases outcome with
  | complete found length =>
    cases h
    exact ⟨length, rfl, rfl⟩
  | broken code offset => cases h

theorem result_map (f : α → β) (outcome : FrameOutcome α) (pos : ℕ) :
    (outcome.map f).result pos = (outcome.result pos).map (Prod.map f id) := by
  cases outcome <;> rfl

theorem result_ne_fault (outcome : FrameOutcome α) (pos : ℕ) :
    outcome.result pos ≠ .error .fault := by
  cases outcome <;> simp [result]

end FrameOutcome

open FrameOutcome

/-- The bytes settle whether a line end stands here, and which of its bytes is wrong. -/
inductive LineEnd : List UInt8 → Option ℕ → Prop
  | crlf (rest) : LineEnd (cr :: lf :: rest) none
  | notCr {c} (rest) (h : c ≠ cr) : LineEnd (c :: rest) (some 0)
  | notLf {c} (rest) (h : c ≠ lf) : LineEnd (cr :: c :: rest) (some 1)

/-- A number and its line end, behind the marker. -/
inductive NumberLine {α : Type} (read : List UInt8 → Parsed α) :
    List UInt8 → FrameOutcome α → Prop
  | mk {text : List UInt8} {ending : Option ℕ} (hends : Ends text)
    (hline : LineEnd (text.drop (read text).endPos) ending) :
    NumberLine read text ((closed (read text).value ending).shift (read text).endPos)

mutual
inductive Frame : List UInt8 → FrameOutcome RESPValue → Prop
  | unknown {c} (rest) (h : ∀ kind : RESPValueKind, c ≠ kind.marker) :
    Frame (c :: rest) (broken .unknownDataTypeMarker 0)
  | simpleString {text rest ending} (htext : ∀ c ∈ text, isText c = true)
    (hstop : ∃ c ∈ rest.head?, isText c = false) (hline : LineEnd rest ending) :
    Frame (RESPValueKind.simpleString.marker :: (text ++ rest))
      ((closed (.simpleString text) ending).shift (1 + text.length))
  | simpleError {text rest ending} (htext : ∀ c ∈ text, isText c = true)
    (hstop : ∃ c ∈ rest.head?, isText c = false) (hline : LineEnd rest ending) :
    Frame (RESPValueKind.simpleError.marker :: (text ++ rest))
      ((closed (.simpleError text) ending).shift (1 + text.length))
  | integer {text outcome} (hnumber : NumberLine strtoll text outcome) :
    Frame (RESPValueKind.integer.marker :: text) ((outcome.map .integer).shift 1)
  | bulkStringHeader {text code offset}
    (hnumber : NumberLine strtoull text (broken code offset)) :
    Frame (RESPValueKind.bulkString.marker :: text) (broken code (1 + offset))
  | bulkString {text length skip data rest ending}
    (hnumber : NumberLine strtoull text (complete length skip))
    (htext : text.drop skip = data ++ rest) (hlength : data.length = length.toNat)
    (hline : LineEnd rest ending) :
    Frame (RESPValueKind.bulkString.marker :: text)
      ((closed (.bulkString data) ending).shift (1 + skip + data.length))
  | null {rest ending} (hline : LineEnd rest ending) :
    Frame (RESPValueKind.null.marker :: rest) ((closed .null ending).shift 1)
  | arrayHeader {text code offset} (hnumber : NumberLine strtoull text (broken code offset)) :
    Frame (RESPValueKind.array.marker :: text) (broken code (1 + offset))
  | array {text length skip outcome} (hnumber : NumberLine strtoull text (complete length skip))
    (helements : Elements length.toNat (text.drop skip) outcome) :
    Frame (RESPValueKind.array.marker :: text) ((outcome.map .array).shift (1 + skip))

inductive Elements : ℕ → List UInt8 → FrameOutcome (List RESPValue) → Prop
  | nil (text) : Elements 0 text (complete [] 0)
  | broken {n text code offset} (hvalue : Frame text (broken code offset)) :
    Elements (n + 1) text (broken code offset)
  | cons {n text value length outcome} (hvalue : Frame text (complete value length))
    (hvalues : Elements n (text.drop length) outcome) :
    Elements (n + 1) text ((outcome.map (value :: ·)).shift length)
end

theorem LineEnd.ne_nil {text : List UInt8} {ending : Option ℕ} (h : LineEnd text ending) :
    text ≠ [] := by
  cases h <;> simp

theorem LineEnd.append {text : List UInt8} {ending : Option ℕ} (h : LineEnd text ending)
    (more : List UInt8) : LineEnd (text ++ more) ending := by
  cases h with
  | crlf rest => exact .crlf (rest ++ more)
  | notCr rest h => exact .notCr (rest ++ more) h
  | notLf rest h => exact .notLf (rest ++ more) h

theorem NumberLine.append {α : Type} {read : List UInt8 → Parsed α} (hread : StopsAtEnd read)
    {text : List UInt8} {outcome : FrameOutcome α} (h : NumberLine read text outcome)
    (more : List UInt8) : NumberLine read (text ++ more) outcome := by
  obtain ⟨hends, hline⟩ := h
  have hdrop : (text ++ more).drop (read (text ++ more)).endPos =
      text.drop (read text).endPos ++ more := by
    rw [hread.read_append hends, List.drop_append_of_le_length (hread.endPos_lt hends).le]
  have hmk := NumberLine.mk (hends.append more) (by rw [hdrop]; exact hline.append more)
  rwa [hread.read_append hends] at hmk

theorem LineEnd.within {α : Type} {text : List UInt8} {ending : Option ℕ}
    (h : LineEnd text ending) (value : α) :
    (closed value ending).Within 2 text.length := by
  cases h with
  | crlf rest => exact ⟨Nat.le_refl 2, by simp⟩
  | notCr rest h => trivial
  | notLf rest h => trivial

theorem NumberLine.within {α : Type} {read : List UInt8 → Parsed α} (hread : StopsAtEnd read)
    {text : List UInt8} {outcome : FrameOutcome α} (h : NumberLine read text outcome) :
    outcome.Within 2 text.length := by
  obtain ⟨hends, hline⟩ := h
  have hlt := hread.endPos_lt hends
  have hshift := (hline.within (read text).value).shift (read text).endPos
  rw [List.length_drop] at hshift
  exact hshift.mono (by omega) (by omega)

mutual
theorem Frame.within {text : List UInt8} {outcome : FrameOutcome RESPValue} :
    Frame text outcome → outcome.Within 1 text.length
  | .unknown _ _ => trivial
  | .simpleString _ _ hline => by
    refine ((hline.within _).shift _).mono (by omega) ?_
    rw [List.length_cons, List.length_append]
    omega
  | .simpleError _ _ hline => by
    refine ((hline.within _).shift _).mono (by omega) ?_
    rw [List.length_cons, List.length_append]
    omega
  | .integer hnumber => by
    refine (((hnumber.within strtoll_stopsAtEnd).map _).shift 1).mono (by omega) ?_
    rw [List.length_cons, Nat.add_comm]
  | .bulkStringHeader _ => trivial
  | .bulkString hnumber htext _ hline => by
    have hskip := (hnumber.within strtoull_stopsAtEnd).2
    have hrest := congrArg List.length htext
    rw [List.length_drop, List.length_append] at hrest
    refine ((hline.within _).shift _).mono (by omega) ?_
    rw [List.length_cons]
    omega
  | .null hline => by
    refine ((hline.within _).shift 1).mono (by omega) ?_
    rw [List.length_cons, Nat.add_comm]
  | .arrayHeader _ => trivial
  | .array hnumber helements => by
    have hskip := (hnumber.within strtoull_stopsAtEnd).2
    have hwithin := Elements.within helements
    rw [List.length_drop] at hwithin
    refine ((hwithin.map _).shift _).mono (by omega) ?_
    rw [List.length_cons]
    omega

theorem Elements.within {n : ℕ} {text : List UInt8} {outcome : FrameOutcome (List RESPValue)} :
    Elements n text outcome → outcome.Within 0 text.length
  | .nil _ => ⟨Nat.le_refl 0, Nat.zero_le _⟩
  | .broken _ => trivial
  | .cons hvalue hvalues => by
    have hlength := (Frame.within hvalue).2
    have hwithin := Elements.within hvalues
    rw [List.length_drop] at hwithin
    exact ((hwithin.map _).shift _).mono (Nat.zero_le _) (by omega)
end

mutual
/-- Bytes that follow do not change what is settled. -/
theorem Frame.append {text : List UInt8} {outcome : FrameOutcome RESPValue} (more : List UInt8) :
    Frame text outcome → Frame (text ++ more) outcome
  | .unknown rest h => .unknown (rest ++ more) h
  | .simpleString htext hstop hline => by
    rw [List.cons_append, List.append_assoc]
    refine .simpleString htext ?_ (hline.append more)
    rwa [List.head?_append_of_ne_nil _ hline.ne_nil]
  | .simpleError htext hstop hline => by
    rw [List.cons_append, List.append_assoc]
    refine .simpleError htext ?_ (hline.append more)
    rwa [List.head?_append_of_ne_nil _ hline.ne_nil]
  | .integer hnumber => .integer (hnumber.append strtoll_stopsAtEnd more)
  | .bulkStringHeader hnumber => .bulkStringHeader (hnumber.append strtoull_stopsAtEnd more)
  | .bulkString hnumber htext hlength hline => by
    have hskip := (hnumber.within strtoull_stopsAtEnd).2
    rw [List.cons_append]
    refine .bulkString (hnumber.append strtoull_stopsAtEnd more) ?_ hlength (hline.append more)
    rw [List.drop_append_of_le_length hskip, htext, List.append_assoc]
  | .null hline => .null (hline.append more)
  | .arrayHeader hnumber => .arrayHeader (hnumber.append strtoull_stopsAtEnd more)
  | .array hnumber helements => by
    have hskip := (hnumber.within strtoull_stopsAtEnd).2
    have happend := Elements.append more helements
    rw [List.cons_append]
    refine .array (hnumber.append strtoull_stopsAtEnd more) ?_
    rwa [List.drop_append_of_le_length hskip]

theorem Elements.append {n : ℕ} {text : List UInt8} {outcome : FrameOutcome (List RESPValue)}
    (more : List UInt8) : Elements n text outcome → Elements n (text ++ more) outcome
  | .nil text => .nil (text ++ more)
  | .broken hvalue => .broken (Frame.append more hvalue)
  | .cons hvalue hvalues => by
    have hlength := hvalue.within.2
    have happend := Elements.append more hvalues
    refine .cons (Frame.append more hvalue) ?_
    rwa [List.drop_append_of_le_length hlength]
end

end Redic
