import Redic.Resp.Frame

/-! # The parser returns what the bytes settle

For each function of the parser one equation says what is left of it once the bytes in front of
its last line end are known. From these, a settled message makes the parser return its outcome,
and a parse that never reads outside the memory was of a settled message.
-/
namespace Redic
open DecimalText FrameOutcome

variable {input rest : List UInt8} {pos : ℕ}

theorem ok_bind {α β : Type} (a : α) (f : α → Except RESPStop β) : (Except.ok a >>= f) = f a := rfl

theorem bind_fault_or {α β : Type} {x : Except RESPStop α} {f : α → Except RESPStop β}
    {p q : Prop} (h : x = .error .fault ∨ p)
    (hnext : p → (x >>= f) = .error .fault ∨ q) : (x >>= f) = .error .fault ∨ q := by
  rcases h with rfl | h
  · exact Or.inl rfl
  · exact hnext h

theorem map_fault_or {α β : Type} {x : Except RESPStop α} {p : Prop} (f : α → β)
    (h : x = .error .fault ∨ p) : x.map f = .error .fault ∨ p := by
  rcases h with rfl | h
  · exact Or.inl rfl
  · exact Or.inr h

theorem drop_succ_of_drop {c : UInt8} (h : input.drop pos = c :: rest) :
    input.drop (pos + 1) = rest := by
  rw [← List.drop_drop, h]
  rfl

theorem getElem?_of_drop (text : List UInt8) (h : input.drop pos = text) :
    input[pos]? = text.head? := by
  rw [← h, List.head?_drop]

theorem lt_length_of_drop {c : UInt8} (h : input.drop pos = c :: rest) : pos < input.length := by
  have hlength := congrArg List.length h
  rw [List.length_drop, List.length_cons] at hlength
  omega

theorem consumeToken_same {token : UInt8} (h : input.drop pos = token :: rest) :
    consumeToken input token ⟨pos, pos⟩ = .ok ⟨pos + 1, pos + 1⟩ := by
  simp only [consumeToken, getElem?_of_drop _ h, List.head?_cons, if_true]

theorem consumeToken_other {token c : UInt8} (h : input.drop pos = c :: rest) (hne : c ≠ token) :
    consumeToken input token ⟨pos, pos⟩ = .error (.failure ⟨.unexpectedToken, pos⟩) := by
  simp only [consumeToken, getElem?_of_drop _ h, List.head?_cons, if_neg hne]

theorem consumeToken_end (token : UInt8) (h : input.drop pos = []) :
    consumeToken input token ⟨pos, pos⟩ = .error .fault := by
  simp only [consumeToken, getElem?_of_drop _ h, List.head?_nil]

theorem consumeCrlf_of_lineEnd {ending : Option ℕ} (h : LineEnd (input.drop pos) ending) :
    consumeCrlf input ⟨pos, pos⟩ =
      ((closed () ending).result pos).map fun r => ⟨r.2, r.2⟩ := by
  generalize hdrop : input.drop pos = text at h
  unfold consumeCrlf
  cases h with
  | crlf rest =>
    rw [consumeToken_same hdrop]
    exact consumeToken_same (drop_succ_of_drop hdrop)
  | notCr rest h =>
    rw [consumeToken_other hdrop h]
    rfl
  | notLf rest h =>
    rw [consumeToken_same hdrop]
    exact consumeToken_other (drop_succ_of_drop hdrop) h

theorem consumeCrlf_fault_or_lineEnd (input : List UInt8) (pos : ℕ) :
    consumeCrlf input ⟨pos, pos⟩ = .error .fault ∨ ∃ ending, LineEnd (input.drop pos) ending := by
  unfold consumeCrlf
  cases hdrop : input.drop pos with
  | nil =>
    rw [consumeToken_end cr hdrop]
    exact Or.inl rfl
  | cons c rest =>
    by_cases hc : c = cr
    · subst hc
      rw [consumeToken_same hdrop]
      have hnext := drop_succ_of_drop hdrop
      cases rest with
      | nil => exact Or.inl (consumeToken_end lf hnext)
      | cons d rest =>
        by_cases hd : d = lf
        · subst hd
          exact Or.inr ⟨none, .crlf rest⟩
        · exact Or.inr ⟨some 1, .notLf rest hd⟩
    · exact Or.inr ⟨some 0, .notCr rest hc⟩

theorem closed_result {α : Type} {ending : Option ℕ} (h : LineEnd (input.drop pos) ending)
    (value : α) :
    (consumeCrlf input ⟨pos, pos⟩ >>= fun cursor => Except.ok (value, cursor.pos)) =
      (closed value ending).result pos := by
  rw [consumeCrlf_of_lineEnd h]
  cases ending <;> rfl

theorem memcpy_of_drop {data : List UInt8} (h : input.drop pos = data ++ rest)
    (hpos : pos ≤ input.length) : memcpy input pos data.length = .ok data := by
  have hlength := congrArg List.length h
  rw [List.length_drop, List.length_append] at hlength
  rw [memcpy, if_pos (by omega), h, List.take_left]

theorem memcpy_fault_or_drop (length : ℕ) (hpos : pos ≤ input.length) :
    memcpy input pos length = .error .fault ∨
      ∃ data rest, input.drop pos = data ++ rest ∧ data.length = length := by
  by_cases hle : pos + length ≤ input.length
  · refine Or.inr ⟨(input.drop pos).take length, (input.drop pos).drop length,
      (List.take_append_drop length _).symm, ?_⟩
    rw [List.length_take, List.length_drop]
    omega
  · exact Or.inl (if_neg hle)

theorem scanLine_of_drop {text : List UInt8} (h : input.drop pos = text ++ rest)
    (htext : ∀ c ∈ text, isText c = true) (hstop : ∃ c ∈ rest.head?, isText c = false) :
    scanLine input pos = .ok text.length := by
  obtain ⟨c, hc, hstop⟩ := hstop
  cases rest with
  | nil => simp at hc
  | cons d rest =>
    obtain rfl : d = c := by simpa using hc
    have htake : (input.drop pos).takeWhile isText = text := by
      rw [h, List.takeWhile_append_of_pos htext, List.takeWhile_cons_of_neg (by simp [hstop]),
        List.append_nil]
    rw [scanLine, htake, h, if_pos (by simp)]

theorem scanLine_fault_or_split (input : List UInt8) (pos : ℕ) :
    scanLine input pos = .error .fault ∨ ∃ text rest, input.drop pos = text ++ rest ∧
      (∀ c ∈ text, isText c = true) ∧ ∃ c ∈ rest.head?, isText c = false := by
  by_cases hlt : ((input.drop pos).takeWhile isText).length < (input.drop pos).length
  · refine Or.inr ⟨(input.drop pos).takeWhile isText, (input.drop pos).dropWhile isText,
      List.takeWhile_append_dropWhile.symm, List.all_eq_true.mp List.all_takeWhile, ?_⟩
    have hne : (input.drop pos).dropWhile isText ≠ [] := by
      intro he
      have hsplit := congrArg List.length (List.takeWhile_append_dropWhile
        (p := isText) (l := input.drop pos))
      rw [he, List.append_nil] at hsplit
      omega
    refine ⟨((input.drop pos).dropWhile isText).head hne, List.head?_eq_some_head hne, ?_⟩
    exact List.head_dropWhile_not isText hne
  · exact Or.inl (if_neg hlt)

theorem parseLine_of_marker {kind : RESPValueKind} {text : List UInt8}
    (h : input.drop pos = kind.marker :: text) :
    parseLine input kind pos = (scanLine input (pos + 1) >>= fun strLen =>
      memcpy input (pos + 1) strLen >>= fun value =>
        consumeCrlf input ⟨pos + 1 + strLen, pos + 1 + strLen⟩ >>= fun cursor =>
          Except.ok (value, cursor.pos)) := by
  rw [parseLine, consumeToken_same h]
  rfl

theorem parseLine_of_drop {kind : RESPValueKind} {text : List UInt8}
    (h : input.drop pos = kind.marker :: (text ++ rest))
    (htext : ∀ c ∈ text, isText c = true) (hstop : ∃ c ∈ rest.head?, isText c = false) :
    parseLine input kind pos =
      (consumeCrlf input ⟨pos + 1 + text.length, pos + 1 + text.length⟩ >>= fun cursor =>
        Except.ok (text, cursor.pos)) := by
  have hbody := drop_succ_of_drop h
  have hscan := scanLine_of_drop hbody htext hstop
  have hcopy := memcpy_of_drop hbody (lt_length_of_drop h)
  rw [parseLine_of_marker h, hscan, ok_bind, hcopy, ok_bind]

theorem drop_add_of_drop {text : List UInt8} (h : input.drop pos = text ++ rest) :
    input.drop (pos + text.length) = rest := by
  rw [← List.drop_drop, h, List.drop_left]

theorem parseLine_of_lineEnd {kind : RESPValueKind} {text : List UInt8} {ending : Option ℕ}
    (h : input.drop pos = kind.marker :: (text ++ rest))
    (htext : ∀ c ∈ text, isText c = true) (hstop : ∃ c ∈ rest.head?, isText c = false)
    (hline : LineEnd rest ending) :
    parseLine input kind pos = ((closed text ending).shift (1 + text.length)).result pos := by
  rw [parseLine_of_drop h htext hstop, closed_result, result_shift, Nat.add_assoc]
  rwa [drop_add_of_drop (drop_succ_of_drop h)]

theorem parseLine_fault_or_split {kind : RESPValueKind} {text : List UInt8}
    (h : input.drop pos = kind.marker :: text) :
    parseLine input kind pos = .error .fault ∨ ∃ line rest ending, text = line ++ rest ∧
      (∀ c ∈ line, isText c = true) ∧ (∃ c ∈ rest.head?, isText c = false) ∧
        LineEnd rest ending := by
  have hbody := drop_succ_of_drop h
  rcases scanLine_fault_or_split input (pos + 1) with hfault | ⟨line, rest, hdrop, htext, hstop⟩
  · left
    rw [parseLine_of_marker h, hfault]
    rfl
  · obtain rfl := hbody.symm.trans hdrop
    rw [parseLine_of_drop h htext hstop]
    refine bind_fault_or (consumeCrlf_fault_or_lineEnd input (pos + 1 + line.length)) ?_
    rintro ⟨ending, hline⟩
    rw [drop_add_of_drop hdrop] at hline
    exact Or.inr ⟨line, rest, ending, rfl, htext, hstop, hline⟩

section Number
variable {α : Type} {read : List UInt8 → Parsed α} {kind : RESPValueKind} {text : List UInt8}

theorem parseNumber_of_marker (h : input.drop pos = kind.marker :: text) :
    parseNumber input read kind pos = if Ends text then
      (consumeCrlf input ⟨pos + 1 + (read text).endPos, pos + 1 + (read text).endPos⟩ >>=
        fun cursor => Except.ok ((read text).value, cursor))
    else .error .fault := by
  have hbody := drop_succ_of_drop h
  rw [parseNumber, consumeToken_same h]
  subst hbody
  rfl

theorem parseNumber_of_numberLine {outcome : FrameOutcome α}
    (h : input.drop pos = kind.marker :: text) (hnumber : NumberLine read text outcome) :
    parseNumber input read kind pos =
      (outcome.result (pos + 1)).map fun r => (r.1, ⟨r.2, r.2⟩) := by
  obtain ⟨hends, hline⟩ := hnumber
  rename_i ending
  rw [← drop_succ_of_drop h, List.drop_drop, drop_succ_of_drop h] at hline
  rw [parseNumber_of_marker h, if_pos hends, consumeCrlf_of_lineEnd hline, result_shift]
  cases ending <;> rfl

theorem parseNumber_of_complete {value : α} {skip : ℕ} (h : input.drop pos = kind.marker :: text)
    (hnumber : NumberLine read text (complete value skip)) :
    parseNumber input read kind pos = .ok (value, ⟨pos + 1 + skip, pos + 1 + skip⟩) :=
  parseNumber_of_numberLine h hnumber

theorem parseNumber_fault_or_numberLine (read : List UInt8 → Parsed α)
    (h : input.drop pos = kind.marker :: text) :
    parseNumber input read kind pos = .error .fault ∨
      ∃ outcome, NumberLine read text outcome := by
  rw [parseNumber_of_marker h]
  by_cases hends : Ends text
  · rw [if_pos hends]
    refine bind_fault_or (consumeCrlf_fault_or_lineEnd input (pos + 1 + (read text).endPos)) ?_
    rintro ⟨ending, hline⟩
    rw [← List.drop_drop, drop_succ_of_drop h] at hline
    exact Or.inr ⟨_, .mk hends hline⟩
  · exact Or.inl (if_neg hends)

end Number

theorem parseInteger_of_numberLine {text : List UInt8} {outcome : FrameOutcome Int64}
    (h : input.drop pos = RESPValueKind.integer.marker :: text)
    (hnumber : NumberLine strtoll text outcome) :
    parseInteger input pos = (outcome.shift 1).result pos := by
  rw [parseInteger, parseNumber_of_numberLine h hnumber, result_shift]
  cases outcome <;> rfl

theorem parseBulkString_of_broken {text : List UInt8} {code : RESPParseResultCode} {offset : ℕ}
    (h : input.drop pos = RESPValueKind.bulkString.marker :: text)
    (hnumber : NumberLine strtoull text (broken code offset)) :
    parseBulkString input pos = .error (.failure ⟨code, pos + (1 + offset)⟩) := by
  rw [parseBulkString, parseNumber_of_numberLine h hnumber, ← Nat.add_assoc]
  rfl

theorem parseBulkString_of_data {text data : List UInt8} {length : UInt64} {skip : ℕ}
    (h : input.drop pos = RESPValueKind.bulkString.marker :: text)
    (hnumber : NumberLine strtoull text (complete length skip))
    (htext : text.drop skip = data ++ rest) (hlength : data.length = length.toNat) :
    input.drop (pos + 1 + skip + data.length) = rest ∧
      memcpy input (pos + 1 + skip) length.toNat = .ok data := by
  have hdata : input.drop (pos + 1 + skip) = data ++ rest := by
    rw [← List.drop_drop, drop_succ_of_drop h, htext]
  have hpos : pos + 1 + skip ≤ input.length := by
    have hskip := (hnumber.within strtoull_stopsAtEnd).2
    have hbody := congrArg List.length h
    rw [List.length_drop, List.length_cons] at hbody
    omega
  exact ⟨drop_add_of_drop hdata, hlength ▸ memcpy_of_drop hdata hpos⟩

theorem parseBulkString_of_lineEnd {text data : List UInt8} {length : UInt64} {skip : ℕ}
    {ending : Option ℕ} (h : input.drop pos = RESPValueKind.bulkString.marker :: text)
    (hnumber : NumberLine strtoull text (complete length skip))
    (htext : text.drop skip = data ++ rest) (hlength : data.length = length.toNat)
    (hline : LineEnd rest ending) :
    parseBulkString input pos =
      ((closed data ending).shift (1 + skip + data.length)).result pos := by
  obtain ⟨hrest, hcopy⟩ := parseBulkString_of_data h hnumber htext hlength
  rw [parseBulkString, parseNumber_of_complete h hnumber, ok_bind]
  dsimp only
  rw [hcopy, ok_bind, ← hlength, closed_result (by rwa [hrest]), result_shift, Nat.add_assoc pos,
    Nat.add_assoc pos]

theorem parseNull_of_lineEnd {ending : Option ℕ}
    (h : input.drop pos = RESPValueKind.null.marker :: rest) (hline : LineEnd rest ending) :
    ((parseNull input pos).map fun pos => (RESPValue.null, pos)) =
      ((closed .null ending).shift 1).result pos := by
  rw [← drop_succ_of_drop h] at hline
  rw [parseNull, consumeToken_same h, ok_bind, consumeCrlf_of_lineEnd hline, result_shift]
  cases ending <;> rfl

theorem parseArray_of_broken {text : List UInt8} {code : RESPParseResultCode} {offset : ℕ}
    (loop : ℕ → ℕ → Except RESPStop (List RESPValue × ℕ))
    (h : input.drop pos = RESPValueKind.array.marker :: text)
    (hnumber : NumberLine strtoull text (broken code offset)) :
    parseArray input loop pos = .error (.failure ⟨code, pos + (1 + offset)⟩) := by
  rw [parseArray, parseNumber_of_numberLine h hnumber, ← Nat.add_assoc]
  rfl

theorem parseArray_of_complete {text : List UInt8} {length : UInt64} {skip : ℕ}
    (loop : ℕ → ℕ → Except RESPStop (List RESPValue × ℕ))
    (h : input.drop pos = RESPValueKind.array.marker :: text)
    (hnumber : NumberLine strtoull text (complete length skip)) :
    parseArray input loop pos = loop length.toNat (pos + 1 + skip) := by
  rw [parseArray, parseNumber_of_numberLine h hnumber]
  rfl

theorem parseValue_of_marker (kind : RESPValueKind) {text : List UInt8} (fuel : ℕ)
    (h : input.drop pos = kind.marker :: text) :
    parseValue input (fuel + 1) pos = match kind with
      | .integer => (parseInteger input pos).map (Prod.map .integer id)
      | .simpleString => (parseSimpleString input pos).map (Prod.map .simpleString id)
      | .simpleError => (parseSimpleError input pos).map (Prod.map .simpleError id)
      | .bulkString => (parseBulkString input pos).map (Prod.map .bulkString id)
      | .null => (parseNull input pos).map fun pos => (.null, pos)
      | .array => (parseArray input (fun length pos => parseElements input fuel length pos)
          pos).map (Prod.map .array id) := by
  rw [parseValue, getElem?_of_drop _ h, List.head?_cons]
  cases kind <;> rfl

theorem parseValue_unknown {c : UInt8} (fuel : ℕ) (h : input.drop pos = c :: rest)
    (hc : ∀ kind : RESPValueKind, c ≠ kind.marker) :
    parseValue input (fuel + 1) pos = .error (.failure ⟨.unknownDataTypeMarker, pos⟩) := by
  rw [parseValue, getElem?_of_drop _ h, List.head?_cons]
  simp only [hc, if_false]

mutual
/-- The parser returns the outcome the bytes settle. -/
theorem Frame.parse_eq {text : List UInt8} {outcome : FrameOutcome RESPValue} {pos fuel : ℕ}
    (hdrop : input.drop pos = text) (hfuel : text.length ≤ fuel) :
    Frame text outcome → parseValue input (fuel + 1) pos = outcome.result pos
  | .unknown rest hc => parseValue_unknown fuel hdrop hc
  | .simpleString htext hstop hline => by
    rw [parseValue_of_marker .simpleString fuel hdrop, ← map_closed RESPValue.simpleString,
      ← map_shift, result_map, ← parseLine_of_lineEnd hdrop htext hstop hline]
    rfl
  | .simpleError htext hstop hline => by
    rw [parseValue_of_marker .simpleError fuel hdrop, ← map_closed RESPValue.simpleError,
      ← map_shift, result_map, ← parseLine_of_lineEnd hdrop htext hstop hline]
    rfl
  | .integer hnumber => by
    rw [parseValue_of_marker .integer fuel hdrop, ← map_shift, result_map,
      ← parseInteger_of_numberLine hdrop hnumber]
  | .bulkStringHeader hnumber => by
    rw [parseValue_of_marker .bulkString fuel hdrop]
    dsimp only
    rw [parseBulkString_of_broken hdrop hnumber]
    rfl
  | .bulkString hnumber htext hlength hline => by
    rw [parseValue_of_marker .bulkString fuel hdrop, ← map_closed RESPValue.bulkString,
      ← map_shift, result_map, ← parseBulkString_of_lineEnd hdrop hnumber htext hlength hline]
  | .null hline => by
    rw [parseValue_of_marker .null fuel hdrop]
    exact parseNull_of_lineEnd hdrop hline
  | .arrayHeader hnumber => by
    rw [parseValue_of_marker .array fuel hdrop]
    dsimp only
    rw [parseArray_of_broken _ hdrop hnumber]
    rfl
  | @Frame.array body length skip outcome hnumber helements => by
    obtain ⟨hlow, hhigh⟩ := hnumber.within strtoull_stopsAtEnd
    have hloop : parseElements input fuel length.toNat (pos + 1 + skip) =
        outcome.result (pos + 1 + skip) := by
      refine helements.parse_eq (by rw [← List.drop_drop, drop_succ_of_drop hdrop]) ?_
      rw [List.length_cons] at hfuel
      rw [List.length_drop]
      omega
    rw [parseValue_of_marker .array fuel hdrop]
    dsimp only
    rw [parseArray_of_complete _ hdrop hnumber, hloop, ← map_shift, result_map, result_shift,
      ← Nat.add_assoc]

theorem Elements.parse_eq {n : ℕ} {text : List UInt8} {outcome : FrameOutcome (List RESPValue)}
    {pos fuel : ℕ} (hdrop : input.drop pos = text) (hfuel : text.length + 2 ≤ fuel) :
    Elements n text outcome → parseElements input fuel n pos = outcome.result pos
  | .nil _ => by
    cases fuel <;> rfl
  | .broken hvalue => by
    obtain ⟨fuel, rfl⟩ : ∃ k, fuel = k + 2 := ⟨fuel - 2, by omega⟩
    have hvalue := hvalue.parse_eq hdrop (Nat.le_of_add_le_add_right hfuel)
    rw [parseElements, hvalue]
    rfl
  | @Elements.cons n _ value length outcome hvalue hvalues => by
    obtain ⟨fuel, rfl⟩ : ∃ k, fuel = k + 2 := ⟨fuel - 2, by omega⟩
    obtain ⟨hlow, hhigh⟩ := hvalue.within
    have hvalue := hvalue.parse_eq hdrop (Nat.le_of_add_le_add_right hfuel)
    have hloop : parseElements input (fuel + 1) n (pos + length) =
        outcome.result (pos + length) := by
      refine hvalues.parse_eq (by rw [← List.drop_drop, hdrop]) ?_
      rw [List.length_drop]
      omega
    rw [parseElements, hvalue, result_shift, result_map, ← hloop]
    rfl
end

theorem respParseInput_of_frame {outcome : FrameOutcome RESPValue} (h : Frame input outcome) :
    respParseInput input = outcome.result 0 :=
  h.parse_eq List.drop_zero (Nat.le_refl _)

/-- The parse reads outside the memory unless the bytes settle an outcome. -/
def FaultOrElements (input : List UInt8) (fuel : ℕ) : Prop :=
  ∀ n pos, (input.drop pos).length + 2 ≤ fuel →
    parseElements input fuel n pos = .error .fault ∨
      ∃ outcome, Elements n (input.drop pos) outcome

def FaultOrFrame (input : List UInt8) (fuel : ℕ) : Prop :=
  ∀ pos, (input.drop pos).length ≤ fuel →
    parseValue input (fuel + 1) pos = .error .fault ∨ ∃ outcome, Frame (input.drop pos) outcome

theorem parseLine_fault_or_frame {kind : RESPValueKind} {text : List UInt8}
    (h : input.drop pos = kind.marker :: text)
    (hframe : ∀ {line rest ending}, (∀ c ∈ line, isText c = true) →
      (∃ c ∈ rest.head?, isText c = false) → LineEnd rest ending →
      ∃ outcome, Frame (kind.marker :: (line ++ rest)) outcome) :
    parseLine input kind pos = .error .fault ∨
      ∃ outcome, Frame (kind.marker :: text) outcome := by
  rcases parseLine_fault_or_split h with hfault | ⟨line, rest, ending, rfl, htext, hstop, hline⟩
  · exact Or.inl hfault
  · exact Or.inr (hframe htext hstop hline)

theorem parseBulkString_fault_or_frame {text : List UInt8}
    (h : input.drop pos = RESPValueKind.bulkString.marker :: text) :
    parseBulkString input pos = .error .fault ∨
      ∃ outcome, Frame (RESPValueKind.bulkString.marker :: text) outcome := by
  refine bind_fault_or (parseNumber_fault_or_numberLine strtoull h) ?_
  rintro ⟨outcome, hnumber⟩
  cases outcome with
  | broken code offset => exact Or.inr ⟨_, .bulkStringHeader hnumber⟩
  | complete length skip =>
    have hskip := (hnumber.within strtoull_stopsAtEnd).2
    have hpos : pos + 1 + skip ≤ input.length := by
      have hbody := congrArg List.length h
      rw [List.length_drop, List.length_cons] at hbody
      omega
    rw [parseNumber_of_complete h hnumber, ok_bind]
    refine bind_fault_or (memcpy_fault_or_drop length.toNat hpos) ?_
    rintro ⟨data, rest, hdata, hlength⟩
    rw [← List.drop_drop, drop_succ_of_drop h] at hdata
    obtain ⟨hrest, hcopy⟩ := parseBulkString_of_data h hnumber hdata hlength
    rw [hcopy, ok_bind, ← hlength]
    refine bind_fault_or
      (consumeCrlf_fault_or_lineEnd input (pos + 1 + skip + data.length)) ?_
    rintro ⟨ending, hline⟩
    rw [hrest] at hline
    exact Or.inr ⟨_, .bulkString hnumber hdata hlength hline⟩

theorem parseNull_fault_or_frame {text : List UInt8}
    (h : input.drop pos = RESPValueKind.null.marker :: text) :
    parseNull input pos = .error .fault ∨
      ∃ outcome, Frame (RESPValueKind.null.marker :: text) outcome := by
  rw [parseNull, consumeToken_same h, ok_bind]
  refine bind_fault_or (consumeCrlf_fault_or_lineEnd input (pos + 1)) ?_
  rintro ⟨ending, hline⟩
  rw [drop_succ_of_drop h] at hline
  exact Or.inr ⟨_, .null hline⟩

theorem parseInteger_fault_or_frame {text : List UInt8}
    (h : input.drop pos = RESPValueKind.integer.marker :: text) :
    parseInteger input pos = .error .fault ∨
      ∃ outcome, Frame (RESPValueKind.integer.marker :: text) outcome := by
  refine bind_fault_or (parseNumber_fault_or_numberLine strtoll h) ?_
  rintro ⟨outcome, hnumber⟩
  exact Or.inr ⟨_, .integer hnumber⟩

theorem FaultOrElements.parseArray {fuel : ℕ} (helements : FaultOrElements input fuel)
    {text : List UInt8} (h : input.drop pos = RESPValueKind.array.marker :: text)
    (hfuel : text.length + 1 ≤ fuel) :
    parseArray input (fun length pos => parseElements input fuel length pos) pos =
        .error .fault ∨
      ∃ outcome, Frame (RESPValueKind.array.marker :: text) outcome := by
  refine bind_fault_or (parseNumber_fault_or_numberLine strtoull h) ?_
  rintro ⟨outcome, hnumber⟩
  cases outcome with
  | broken code offset => exact Or.inr ⟨_, .arrayHeader hnumber⟩
  | complete length skip =>
    obtain ⟨hlow, hhigh⟩ := hnumber.within strtoull_stopsAtEnd
    have hbody : input.drop (pos + 1 + skip) = text.drop skip := by
      rw [← List.drop_drop, drop_succ_of_drop h]
    have hloop := helements length.toNat (pos + 1 + skip) (by
      rw [hbody, List.length_drop]
      omega)
    rw [parseNumber_of_complete h hnumber, ok_bind]
    refine hloop.imp id ?_
    rintro ⟨outcome, hloop⟩
    rw [hbody] at hloop
    exact ⟨_, .array hnumber hloop⟩

theorem FaultOrElements.frame {fuel : ℕ} (helements : FaultOrElements input fuel) :
    FaultOrFrame input fuel := by
  intro pos hfuel
  cases hdrop : input.drop pos with
  | nil =>
    rw [parseValue, getElem?_of_drop _ hdrop]
    exact Or.inl rfl
  | cons c text =>
    rw [hdrop, List.length_cons] at hfuel
    by_cases hkind : ∃ kind : RESPValueKind, c = kind.marker
    · obtain ⟨kind, rfl⟩ := hkind
      rw [parseValue_of_marker kind fuel hdrop]
      cases kind with
      | integer => exact map_fault_or _ (parseInteger_fault_or_frame hdrop)
      | simpleString =>
        refine map_fault_or _ (parseLine_fault_or_frame hdrop ?_)
        exact fun htext hstop hline => ⟨_, .simpleString htext hstop hline⟩
      | simpleError =>
        refine map_fault_or _ (parseLine_fault_or_frame hdrop ?_)
        exact fun htext hstop hline => ⟨_, .simpleError htext hstop hline⟩
      | bulkString => exact map_fault_or _ (parseBulkString_fault_or_frame hdrop)
      | null => exact map_fault_or _ (parseNull_fault_or_frame hdrop)
      | array => exact map_fault_or _ (helements.parseArray hdrop hfuel)
    · exact Or.inr ⟨_, .unknown text fun kind hc => hkind ⟨kind, hc⟩⟩

/-- By induction on the fuel: the head is a frame or a fault, and so is the rest behind it. -/
theorem faultOrElements (input : List UInt8) (fuel : ℕ) : FaultOrElements input fuel := by
  induction fuel using Nat.strong_induction_on with
  | _ fuel ih =>
    intro n pos hfuel
    obtain ⟨fuel, rfl⟩ : ∃ k, fuel = k + 2 := ⟨fuel - 2, by omega⟩
    cases n with
    | zero => exact Or.inr ⟨_, .nil _⟩
    | succ n =>
      have hframe := (ih fuel (by omega)).frame pos (Nat.le_of_add_le_add_right hfuel)
      rw [parseElements]
      refine bind_fault_or hframe ?_
      rintro ⟨outcome, hvalue⟩
      cases outcome with
      | broken code offset => exact Or.inr ⟨_, .broken hvalue⟩
      | complete value length =>
        obtain ⟨hlow, hhigh⟩ := hvalue.within
        have hloop := ih (fuel + 1) (by omega) n (pos + length) (by
          rw [← List.drop_drop, List.length_drop]
          omega)
        have hparse : parseValue input (fuel + 1) pos = .ok (value, pos + length) :=
          hvalue.parse_eq rfl (Nat.le_of_add_le_add_right hfuel)
        rw [hparse, ok_bind]
        refine bind_fault_or hloop ?_
        rintro ⟨outcome, hvalues⟩
        rw [← List.drop_drop] at hvalues
        exact Or.inr ⟨_, .cons hvalue hvalues⟩

/-- A parse that stays inside the memory was of a settled message. -/
theorem respParseInput_fault_or_frame (input : List UInt8) :
    respParseInput input = .error .fault ∨ ∃ outcome, Frame input outcome :=
  (faultOrElements input input.length).frame 0 (Nat.le_refl _)

theorem respParseInput_ne_fault_iff (input : List UInt8) :
    respParseInput input ≠ .error .fault ↔ ∃ outcome, Frame input outcome := by
  constructor
  · exact (respParseInput_fault_or_frame input).resolve_left
  · rintro ⟨outcome, h⟩
    rw [respParseInput_of_frame h]
    exact result_ne_fault outcome 0

end Redic
