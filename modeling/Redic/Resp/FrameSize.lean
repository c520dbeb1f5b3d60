import Redic.Resp.Frame
import Redic.Resp.Serializer

/-! # How long the strings of a message can be

A message of a given length holds a bulk string that is shorter by the framing around it. The
reply with the same string needs one byte more than its wire form, and less framing.
-/
namespace Redic
open DecimalText FrameOutcome

theorem closed_complete {α : Type} {value found : α} {ending : Option ℕ} {n length : ℕ}
    (h : (closed value ending).shift n = complete found length) :
    found = value ∧ length = n + 2 := by
  cases ending with
  | none =>
    cases h
    exact ⟨rfl, rfl⟩
  | some offset => cases h

theorem NumberLine.complete_length {text : List UInt8} {outcome : FrameOutcome UInt64}
    (h : NumberLine strtoull text outcome) {number : UInt64} {skip : ℕ}
    (houtcome : outcome = complete number skip) :
    number = (strtoull text).value ∧ skip = (strtoull text).endPos + 2 := by
  cases h with
  | mk hends hline => exact closed_complete houtcome

theorem Frame.bulkString_length {text : List UInt8} {outcome : FrameOutcome RESPValue}
    {string : List UInt8} {length : ℕ} (h : Frame text outcome)
    (houtcome : outcome = complete (.bulkString string) length) (hsmall : text.length < 2 ^ 63) :
    (RESPValue.bulkString string).wire.length ≤ length + 1 := by
  cases h with
  | unknown rest hmarker => cases houtcome
  | simpleString htext hstop hline => cases (closed_complete houtcome).1
  | simpleError htext hstop hline => cases (closed_complete houtcome).1
  | @integer text outcome hnumber => cases outcome <;> cases houtcome
  | bulkStringHeader hnumber => cases houtcome
  | @bulkString text size skip found rest ending hnumber htext hlength hline =>
    obtain ⟨hvalue, rfl⟩ := closed_complete houtcome
    cases hvalue
    obtain ⟨rfl, rfl⟩ := hnumber.complete_length rfl
    have hrest := congrArg List.length htext
    simp only [List.length_drop, List.length_append, List.length_cons] at hrest hsmall
    have hdigits : (natText string.length).length ≤ (strtoull text).endPos + 1 := by
      rcases Nat.eq_zero_or_pos string.length with hzero | hpos
      · rw [hzero]
        exact Nat.le_add_left _ _
      · have hread := natText_le_strtoull hlength.symm hpos (by omega)
        omega
    simp only [RESPValue.wire, crlf, List.length_cons, List.length_append, List.length_nil]
    omega
  | null hline => cases (closed_complete houtcome).1
  | arrayHeader hnumber => cases houtcome
  | @array text size skip outcome hnumber helements => cases outcome <;> cases houtcome

theorem Elements.mem_frame {n : ℕ} {text : List UInt8} {outcome : FrameOutcome (List RESPValue)}
    {values : List RESPValue} {length : ℕ} (h : Elements n text outcome)
    (houtcome : outcome = complete values length) {value : RESPValue} (hmem : value ∈ values) :
    ∃ rest size, Frame rest (complete value size) ∧ rest.length ≤ text.length ∧ size ≤ length := by
  induction n generalizing text outcome values length with
  | zero =>
    cases h
    cases houtcome
    cases hmem
  | succ n ih =>
    cases h with
    | broken hvalue => cases houtcome
    | @cons _ _ first size outcome hvalue hvalues =>
      obtain ⟨others, rest, rfl, rfl, rfl⟩ := complete_of_map_shift houtcome
      rcases List.mem_cons.mp hmem with rfl | hmem
      · exact ⟨text, size, hvalue, Nat.le_refl _, Nat.le_add_right _ _⟩
      · obtain ⟨tail, found, hframe, htail, hfound⟩ := ih hvalues rfl hmem
        rw [List.length_drop] at htail
        exact ⟨tail, found, hframe, by omega, by omega⟩

theorem Frame.array_string_length {text : List UInt8} {outcome : FrameOutcome RESPValue}
    {values : List RESPValue} {length : ℕ} (h : Frame text outcome)
    (houtcome : outcome = complete (.array values) length) (hsmall : text.length < 2 ^ 63)
    {string : List UInt8} (hmem : .bulkString string ∈ values) :
    (RESPValue.bulkString string).wire.length + 3 ≤ length := by
  cases h with
  | unknown rest hmarker => cases houtcome
  | simpleString htext hstop hline => cases (closed_complete houtcome).1
  | simpleError htext hstop hline => cases (closed_complete houtcome).1
  | @integer text outcome hnumber => cases outcome <;> cases houtcome
  | bulkStringHeader hnumber => cases houtcome
  | bulkString hnumber htext hlength hline => cases (closed_complete houtcome).1
  | null hline => cases (closed_complete houtcome).1
  | arrayHeader hnumber => cases houtcome
  | @array text size skip outcome hnumber helements =>
    obtain ⟨found, rest, rfl, hvalues, rfl⟩ := complete_of_map_shift houtcome
    cases hvalues
    obtain ⟨tail, n, hframe, htail, hn⟩ := helements.mem_frame rfl hmem
    rw [List.length_cons] at hsmall
    rw [List.length_drop] at htail
    have hstring := hframe.bulkString_length rfl (by omega)
    obtain ⟨rfl, rfl⟩ := hnumber.complete_length rfl
    have hdigits : 0 < (strtoull text).endPos := by
      apply strtoull_endPos_pos
      intro hzero
      rw [hzero] at helements
      cases helements
      cases hmem
    omega

end Redic
