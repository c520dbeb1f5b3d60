import Redic.Resp.Settle

/-! # The markers a parse comes to

Which markers of a message are looked at, as a relation on its bytes alone: the first one, and
those of the elements of an array as long as every element before them is complete. What a marker
announces need not be complete or even well formed.
-/
namespace Redic
open DecimalText FrameOutcome

mutual
/-- Parsing a value that starts here comes to a marker of the kind with these bytes behind it. -/
inductive Reaches : List UInt8 → RESPValueKind → List UInt8 → Prop
  | here (kind : RESPValueKind) (text) : Reaches (kind.marker :: text) kind text
  | element {text length skip kind behind}
    (hnumber : NumberLine strtoull text (complete length skip))
    (helement : ReachesElement length.toNat (text.drop skip) kind behind) :
    Reaches (RESPValueKind.array.marker :: text) kind behind

inductive ReachesElement : ℕ → List UInt8 → RESPValueKind → List UInt8 → Prop
  | head {n text kind behind} (hvalue : Reaches text kind behind) :
    ReachesElement (n + 1) text kind behind
  | tail {n text value length kind behind} (hvalue : Frame text (complete value length))
    (hvalues : ReachesElement n (text.drop length) kind behind) :
    ReachesElement (n + 1) text kind behind
end

theorem RESPValueKind.marker_injective : Function.Injective RESPValueKind.marker := by
  intro kind kind' h
  cases kind <;> cases kind' <;> first | rfl | cases h

mutual
theorem Reaches.length_lt {text behind : List UInt8} {kind : RESPValueKind} :
    Reaches text kind behind → behind.length < text.length
  | .here _ _ => Nat.lt_succ_self _
  | .element _ helement => by
    have hlength := helement.length_lt
    rw [List.length_drop] at hlength
    rw [List.length_cons]
    omega

theorem ReachesElement.length_lt {n : ℕ} {text behind : List UInt8} {kind : RESPValueKind} :
    ReachesElement n text kind behind → behind.length < text.length
  | .head hvalue => hvalue.length_lt
  | .tail _ hvalues => by
    have hlength := hvalues.length_lt
    rw [List.length_drop] at hlength
    omega
end

variable {α : Type} {input text : List UInt8} {pos : ℕ}

theorem parseNumber_ok {read : List UInt8 → Parsed α} {kind : RESPValueKind} {value : α}
    {cursor : Cursor} (hdrop : input.drop pos = kind.marker :: text)
    (h : parseNumber input read kind pos = .ok (value, cursor)) :
    ∃ skip, NumberLine read text (complete value skip) ∧ cursor.pos = pos + 1 + skip := by
  rcases parseNumber_fault_or_numberLine read hdrop with hfault | ⟨outcome, hnumber⟩
  · rw [hfault] at h
    cases h
  · rw [parseNumber_of_numberLine hdrop hnumber] at h
    cases outcome with
    | broken code offset => cases h
    | complete found skip =>
      cases h
      exact ⟨skip, hnumber, rfl⟩

theorem parseValue_ok {fuel after : ℕ} {value : RESPValue} (hfuel : (input.drop pos).length ≤ fuel)
    (h : parseValue input (fuel + 1) pos = .ok (value, after)) :
    ∃ length, Frame (input.drop pos) (complete value length) ∧ after = pos + length := by
  rcases (faultOrElements input fuel).frame pos hfuel with hfault | ⟨outcome, hframe⟩
  · rw [hfault] at h
    cases h
  · rw [hframe.parse_eq rfl hfuel] at h
    obtain ⟨length, rfl, rfl⟩ := FrameOutcome.complete_of_result h
    exact ⟨length, hframe, rfl⟩

end Redic
