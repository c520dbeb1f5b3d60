import Redic.Resp.Grammar
import Redic.Resp.Sizes

/-! # What the parser accepts beside the grammar

A complete value is an encoding of the grammar exactly when every number that the parser comes to
is one of the grammar. `strtoull` and `strtoll` take more than that: white space in front, signs,
numbers out of range, and no digits at all. An array header makes the parser ask for the storage of
as many elements as it declares, and a process that is refused it ends.
-/
namespace Redic
open DecimalText FrameOutcome

/-- The input begins with a well-formed encoding of the value. -/
def BeginsWith (input : List UInt8) (value : RESPValue) : Prop :=
  ∃ text rest, input = text ++ rest ∧ Encodes text value

/-- The number behind a marker is one of the grammar, and the first byte of a line end follows. -/
def PlainNumber (behind : List UInt8) : RESPValueKind → Prop
  | .integer => ∃ (text rest : List UInt8) (value : Int64), behind = text ++ cr :: rest ∧
      DecimalInteger text value.toInt
  | .bulkString => ∃ ds rest n, behind = ds ++ cr :: rest ∧ LengthText ds n
  | .array => ∃ ds rest n, behind = ds ++ cr :: rest ∧ LengthText ds n
  | _ => True

section Lines

variable {α : Type} {read : List UInt8 → Parsed α} {value found : α} {text rest : List UInt8}

theorem lineEnd_of_complete {ending : Option ℕ} {n length : ℕ} (h : LineEnd rest ending)
    (hcomplete : (closed value ending).shift n = complete found length) :
    found = value ∧ length = n + 2 ∧ ∃ more, rest = crlf ++ more := by
  cases h with
  | crlf more =>
    cases hcomplete
    exact ⟨rfl, rfl, more, rfl⟩
  | notCr more h => cases hcomplete
  | notLf more h => cases hcomplete

theorem NumberLine.complete_of_read {skip : ℕ} {erange : Bool}
    (h : NumberLine read (text ++ cr :: rest) (complete found skip))
    (hread : read (text ++ cr :: rest) = ⟨value, text.length, erange⟩) :
    found = value ∧ skip = text.length + 2 ∧ ∃ more, cr :: rest = crlf ++ more := by
  generalize houtcome : complete found skip = outcome at h
  obtain ⟨hends, hline⟩ := h
  rw [hread] at houtcome hline
  rw [List.drop_left] at hline
  exact lineEnd_of_complete hline houtcome.symm

end Lines

/-- Every number that the parser comes to is one of the grammar. -/
def AllPlainNumbers (input : List UInt8) : Prop :=
  ∀ kind behind, Reaches input kind behind → PlainNumber behind kind

def AllPlainElements (n : ℕ) (input : List UInt8) : Prop :=
  ∀ kind behind, ReachesElement n input kind behind → PlainNumber behind kind

section Lengths

variable {text rest : List UInt8} {length : UInt64} {skip : ℕ}

theorem NumberLine.lengthText (h : NumberLine strtoull text (complete length skip))
    (hplain : ∃ ds rest n, text = ds ++ cr :: rest ∧ LengthText ds n) :
    ∃ ds more, text = ds ++ (crlf ++ more) ∧ LengthText ds length.toNat ∧ skip = ds.length + 2 := by
  obtain ⟨ds, rest, n, rfl, hlength⟩ := hplain
  obtain ⟨rfl, rfl, more, hmore⟩ := h.complete_of_read (hlength.strtoull rest)
  exact ⟨ds, more, by rw [hmore], by rwa [hlength.toNat], rfl⟩

theorem NumberLine.decimalInteger {value : Int64}
    (h : NumberLine strtoll text (complete value skip))
    (hplain : ∃ (number rest : List UInt8) (v : Int64), text = number ++ cr :: rest ∧
      DecimalInteger number v.toInt) :
    ∃ number more, text = number ++ (crlf ++ more) ∧ DecimalInteger number value.toInt ∧
      skip = number.length + 2 := by
  obtain ⟨number, rest, v, rfl, hnumber⟩ := hplain
  obtain ⟨rfl, rfl, more, hmore⟩ := h.complete_of_read (strtoll_integer hnumber rest)
  exact ⟨number, more, by rw [hmore], hnumber, rfl⟩

end Lengths

mutual
theorem Frame.encodes {input : List UInt8} {outcome : FrameOutcome RESPValue} :
    Frame input outcome → ∀ {value : RESPValue} {n : ℕ}, outcome = complete value n →
      AllPlainNumbers input →
        ∃ text rest, input = text ++ rest ∧ Encodes text value ∧ text.length = n
  | .unknown _ _, _, _, houtcome, _ => by cases houtcome
  | @Frame.simpleString text rest ending htext hstop hline, _, _, houtcome, _ => by
    obtain ⟨rfl, rfl, more, rfl⟩ := lineEnd_of_complete hline houtcome
    refine ⟨_, more, ?_, .simpleString htext, ?_⟩
    · rw [List.cons_append, List.append_assoc]
    · simp only [crlf, List.length_cons, List.length_append, List.length_nil]
      omega
  | @Frame.simpleError text rest ending htext hstop hline, _, _, houtcome, _ => by
    obtain ⟨rfl, rfl, more, rfl⟩ := lineEnd_of_complete hline houtcome
    refine ⟨_, more, ?_, .simpleError htext, ?_⟩
    · rw [List.cons_append, List.append_assoc]
    · simp only [crlf, List.length_cons, List.length_append, List.length_nil]
      omega
  | .integer hnumber, _, _, houtcome, hplain => by
    obtain ⟨found, skip, rfl, rfl, rfl⟩ := complete_of_map_shift houtcome
    obtain ⟨number, more, rfl, hinteger, rfl⟩ := hnumber.decimalInteger (hplain _ _ (.here _ _))
    refine ⟨_, more, ?_, .integer hinteger, ?_⟩
    · rw [List.cons_append, List.append_assoc]
    · simp only [crlf, List.length_cons, List.length_append, List.length_nil]
      omega
  | .bulkStringHeader _, _, _, houtcome, _ => by cases houtcome
  | .bulkString hnumber htext hlength hline, _, _, houtcome, hplain => by
    obtain ⟨rfl, rfl, more, rfl⟩ := lineEnd_of_complete hline houtcome
    obtain ⟨ds, behind, rfl, hds, rfl⟩ := hnumber.lengthText (hplain _ _ (.here _ _))
    rw [drop_numberLine] at htext
    subst htext
    rw [← hlength] at hds
    refine ⟨_, more, ?_, .bulkString hds, ?_⟩
    · simp only [List.cons_append, List.append_assoc]
    · simp only [crlf, List.length_cons, List.length_append, List.length_nil]
      omega
  | .null hline, _, _, houtcome, _ => by
    obtain ⟨rfl, rfl, more, rfl⟩ := lineEnd_of_complete hline houtcome
    exact ⟨_, more, rfl, .null, rfl⟩
  | .arrayHeader _, _, _, houtcome, _ => by cases houtcome
  | @Frame.array text length skip outcome hnumber helements, _, _, houtcome, hplain => by
    obtain ⟨values, size, hcomplete, rfl, rfl⟩ := complete_of_map_shift houtcome
    have hrest : AllPlainElements length.toNat (text.drop skip) :=
      fun kind behind hreach => hplain kind behind (.element hnumber hreach)
    obtain ⟨elements, more, hbehind, hvalues, hcount, hsize⟩ := helements.encodes hcomplete hrest
    obtain ⟨ds, behind, rfl, hds, rfl⟩ := hnumber.lengthText (hplain _ _ (.here _ _))
    rw [drop_numberLine] at hbehind
    subst hbehind
    rw [← hcount] at hds
    refine ⟨_, more, ?_, .array hds hvalues, ?_⟩
    · simp only [List.cons_append, List.append_assoc]
    · simp only [crlf, List.length_cons, List.length_append, List.length_nil]
      omega

theorem Elements.encodes {count : ℕ} {input : List UInt8}
    {outcome : FrameOutcome (List RESPValue)} :
    Elements count input outcome → ∀ {values : List RESPValue} {n : ℕ},
      outcome = complete values n → AllPlainElements count input →
        ∃ text rest, input = text ++ rest ∧ EncodesAll text values ∧ values.length = count ∧
          text.length = n
  | .nil _, _, _, houtcome, _ => by
    cases houtcome
    exact ⟨[], input, rfl, .nil, rfl, rfl⟩
  | .broken _, _, _, houtcome, _ => by cases houtcome
  | @Elements.cons count _ value length outcome hvalue hvalues, _, _, houtcome, hplain => by
    obtain ⟨others, size, hcomplete, rfl, rfl⟩ := complete_of_map_shift houtcome
    have hrest : AllPlainElements count (input.drop length) :=
      fun kind behind hreach => hplain kind behind (.tail hvalue hreach)
    obtain ⟨elements, more, hmore, hothers, hcount, hsize⟩ := hvalues.encodes hcomplete hrest
    obtain ⟨text, rest, rfl, hencodes, rfl⟩ := hvalue.encodes rfl
      (fun kind behind hreach => hplain kind behind (.head hreach))
    rw [List.drop_left] at hmore
    subst hmore
    refine ⟨text ++ elements, more, ?_, .cons hencodes hothers, ?_, ?_⟩
    · rw [List.append_assoc]
    · rw [List.length_cons, hcount]
    · rw [List.length_append, hsize]
end

theorem Reaches.cases_cons {c : UInt8} {text behind : List UInt8} {kind : RESPValueKind}
    (h : Reaches (c :: text) kind behind) : c = kind.marker ∧ behind = text ∨
      c = RESPValueKind.array.marker ∧ ∃ length skip,
        NumberLine strtoull text (complete length skip) ∧
          ReachesElement length.toNat (text.drop skip) kind behind := by
  cases h with
  | here kind text => exact Or.inl ⟨rfl, rfl⟩
  | element hnumber helement => exact Or.inr ⟨rfl, _, _, hnumber, helement⟩

/-- Behind a marker that is not one of an array nothing more is come to. -/
theorem Reaches.eq_of_marker {found kind : RESPValueKind} {text behind : List UInt8}
    (h : Reaches (found.marker :: text) kind behind) (hfound : found ≠ .array) :
    kind = found ∧ behind = text := by
  rcases h.cases_cons with ⟨hmarker, rfl⟩ | ⟨hmarker, -⟩
  · exact ⟨(RESPValueKind.marker_injective hmarker).symm, rfl⟩
  · exact absurd (RESPValueKind.marker_injective hmarker) hfound

mutual
theorem Encodes.plain {text : List UInt8} {value : RESPValue} (rest : List UInt8) :
    Encodes text value → AllPlainNumbers (text ++ rest)
  | .simpleString _ => by
    intro kind behind hreach
    obtain ⟨rfl, rfl⟩ := hreach.eq_of_marker (by decide)
    trivial
  | .simpleError _ => by
    intro kind behind hreach
    obtain ⟨rfl, rfl⟩ := hreach.eq_of_marker (by decide)
    trivial
  | @Encodes.integer number value hnumber => by
    intro kind behind hreach
    obtain ⟨rfl, rfl⟩ := hreach.eq_of_marker (by decide)
    exact ⟨number, lf :: rest, value, List.append_assoc _ _ _, hnumber⟩
  | .null => by
    intro kind behind hreach
    obtain ⟨rfl, rfl⟩ := hreach.eq_of_marker (by decide)
    trivial
  | @Encodes.bulkString ds data hlength => by
    intro kind behind hreach
    obtain ⟨rfl, rfl⟩ := hreach.eq_of_marker (by decide)
    exact ⟨ds, lf :: (data ++ crlf ++ rest), data.length, by simp [crlf], hlength⟩
  | @Encodes.array ds elements values hlength helements => by
    intro kind behind hreach
    rw [List.cons_append, List.append_assoc, List.append_assoc] at hreach
    rcases hreach.cases_cons with ⟨hmarker, rfl⟩ | ⟨-, length, skip, hnumber, helement⟩
    · obtain rfl := RESPValueKind.marker_injective hmarker
      exact ⟨ds, lf :: (elements ++ rest), values.length, rfl, hlength⟩
    · obtain ⟨rfl, rfl, -⟩ :=
        NumberLine.complete_of_read hnumber (hlength.strtoull (lf :: (elements ++ rest)))
      rw [drop_numberLine, hlength.toNat] at helement
      exact helements.plain rest kind behind helement

theorem EncodesAll.plain {text : List UInt8} {values : List RESPValue} (rest : List UInt8) :
    EncodesAll text values → AllPlainElements values.length (text ++ rest)
  | .nil => by
    intro kind behind hreach
    cases hreach
  | @EncodesAll.cons text elements value values hvalue hvalues => by
    intro kind behind hreach
    rw [List.append_assoc] at hreach
    cases hreach with
    | head hfirst => exact hvalue.plain (elements ++ rest) kind behind hfirst
    | @tail _ _ found length _ _ hframe hrest =>
      obtain ⟨-, rfl⟩ := hframe.complete_unique (hvalue.frame (elements ++ rest))
      rw [List.drop_left] at hrest
      exact hvalues.plain rest kind behind hrest
end

/-- What is broken does not carry the code of a success. -/
def FrameOutcome.Fails {α : Type} : FrameOutcome α → Prop
  | complete _ _ => True
  | broken code _ => code ≠ .success

section Fails

variable {α β : Type}

theorem FrameOutcome.Fails.shift {outcome : FrameOutcome α} (h : outcome.Fails) (n : ℕ) :
    (outcome.shift n).Fails := by
  cases outcome <;> exact h

theorem FrameOutcome.Fails.map {outcome : FrameOutcome α} (h : outcome.Fails) (f : α → β) :
    (outcome.map f).Fails := by
  cases outcome <;> exact h

theorem closed_fails (value : α) (ending : Option ℕ) : (closed value ending).Fails := by
  cases ending with
  | none => trivial
  | some offset => exact RESPParseResultCode.noConfusion

theorem NumberLine.fails {read : List UInt8 → Parsed α} {text : List UInt8}
    {outcome : FrameOutcome α} (h : NumberLine read text outcome) : outcome.Fails := by
  obtain ⟨hends, hline⟩ := h
  exact (closed_fails _ _).shift _

end Fails

mutual
theorem Frame.fails {text : List UInt8} {outcome : FrameOutcome RESPValue} :
    Frame text outcome → outcome.Fails
  | .unknown _ _ => RESPParseResultCode.noConfusion
  | .simpleString _ _ _ => (closed_fails _ _).shift _
  | .simpleError _ _ _ => (closed_fails _ _).shift _
  | .integer hnumber => (hnumber.fails.map _).shift _
  | .bulkStringHeader hnumber => hnumber.fails
  | .bulkString _ _ _ _ => (closed_fails _ _).shift _
  | .null _ => (closed_fails _ _).shift _
  | .arrayHeader hnumber => hnumber.fails
  | .array _ helements => (helements.fails.map _).shift _

theorem Elements.fails {n : ℕ} {text : List UInt8} {outcome : FrameOutcome (List RESPValue)} :
    Elements n text outcome → outcome.Fails
  | .nil _ => trivial
  | .broken hvalue => hvalue.fails
  | .cons _ hvalues => (hvalues.fails.map _).shift _
end

/-- The arena gets what it is asked for. -/
def ParseEvent.Granted (malloc : ℕ → Bool) : ParseEvent → Prop
  | .alloc _ size => malloc size.toNat = true
  | _ => True

instance (malloc : ℕ → Bool) : DecidablePred (ParseEvent.Granted malloc)
  | .alloc _ size => inferInstanceAs (Decidable (malloc size.toNat = true))
  | .bulkStringEnd _ _ => .isTrue trivial
  | .push _ _ => .isTrue trivial

/-- `resp_parse_input` where memory may be refused: `arena_alloc` then writes through the null
pointer. -/
def respParseAllocated (malloc : ℕ → Bool) (input : List UInt8) :
    Except RESPStop (RESPValue × ℕ) :=
  if ∀ event ∈ respParseTrace input, event.Granted malloc then respParseInput input
  else .error .fault

/-- The parser accepts the encodings of the grammar, with their values, and reports a failure for
every other input. -/
def AcceptsGrammar (malloc : ℕ → Bool) (input : List UInt8) : Prop :=
  (∀ value, (∃ length, respParseAllocated malloc input = .ok (value, length)) ↔
      BeginsWith input value) ∧
    ((¬ ∃ value, BeginsWith input value) → ∃ result,
      respParseAllocated malloc input = .error (.failure result) ∧ result.code ≠ .success)

/-- Every request that a marker of the input makes is granted. -/
def RequestsGranted (malloc : ℕ → Bool) (input : List UInt8) : Prop :=
  ∀ kind behind meant size, Reaches input kind behind →
    Requests behind (.alloc meant size) kind → malloc size.toNat = true

theorem trace_granted_iff {malloc : ℕ → Bool} {input : List UInt8} :
    (∀ event ∈ respParseTrace input, event.Granted malloc) ↔ RequestsGranted malloc input := by
  constructor
  · intro h kind behind meant size hreach hrequest
    exact h _ (alloc_mem_trace_iff.mpr ⟨kind, behind, hreach, hrequest⟩)
  · intro h event hevent
    cases event with
    | alloc meant size =>
      obtain ⟨kind, behind, hreach, hrequest⟩ := alloc_mem_trace_iff.mp hevent
      exact h kind behind meant size hreach hrequest
    | bulkStringEnd before after => trivial
    | push offset storage => trivial

theorem respParseAllocated_of_denied {malloc : ℕ → Bool} {input : List UInt8}
    (h : ¬ RequestsGranted malloc input) : respParseAllocated malloc input = .error .fault :=
  if_neg fun hgranted => h (trace_granted_iff.mp hgranted)

/-- A denied request ends the process, with neither a value nor a failure. -/
theorem AcceptsGrammar.granted {malloc : ℕ → Bool} {input : List UInt8}
    (h : AcceptsGrammar malloc input) : RequestsGranted malloc input := by
  by_contra hdenied
  have hfault := respParseAllocated_of_denied hdenied
  by_cases hbegins : ∃ value, BeginsWith input value
  · obtain ⟨value, hvalue⟩ := hbegins
    obtain ⟨length, hparse⟩ := (h.1 value).mpr hvalue
    cases hfault.symm.trans hparse
  · obtain ⟨result, hparse, -⟩ := h.2 hbegins
    cases hfault.symm.trans hparse

theorem BeginsWith.frame {input : List UInt8} {value : RESPValue} (h : BeginsWith input value) :
    ∃ length, Frame input (complete value length) := by
  obtain ⟨text, rest, rfl, hencodes⟩ := h
  exact ⟨text.length, hencodes.frame rest⟩

theorem BeginsWith.plain {input : List UInt8} {value : RESPValue} (h : BeginsWith input value) :
    AllPlainNumbers input := by
  obtain ⟨text, rest, rfl, hencodes⟩ := h
  exact hencodes.plain rest

end Redic
