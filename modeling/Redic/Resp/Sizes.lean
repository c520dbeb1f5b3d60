import Redic.Hector
import Redic.Resp.Reached

/-! # Sizes that come off the wire

What the parser does with the lengths it reads: the sizes it asks the arena for, where it stands
behind a bulk string, and the places it writes array elements to, all in 64-bit arithmetic. The
control flow is that of the parser. A size wraps exactly when a header says so: a bulk string of
the largest length, or an array of `2 ^ 60` elements or more.
-/
namespace Redic
open DecimalText FrameOutcome

/-- What is done with a size. The arena is asked for an amount that stands for an exact one. -/
inductive ParseEvent
  | alloc (meant : ℕ) (size : UInt64)
  | bulkStringEnd (before after : UInt64)
  | push (offset storage : UInt64)
  deriving DecidableEq, Repr

def sizeofRESPValue : UInt64 := 16

def stringAlloc (length : UInt64) : ParseEvent := .alloc (length.toNat + 1) (length + 1)

/-- The storage of a hector of array elements. -/
def storageAlloc (capacity : ℕ) : ParseEvent :=
  .alloc (16 * capacity) (sizeofRESPValue * UInt64.ofNat capacity)

/-- `hector_push` may resize before it writes. -/
def pushEvents (hec : Hector RESPValue) : List ParseEvent :=
  (if hec.capacity = hec.length then [storageAlloc (hec.capacity * 2)] else []) ++
    [.push (UInt64.ofNat (hectorGrow hec).length * sizeofRESPValue)
      (UInt64.ofNat (hectorGrow hec).capacity * sizeofRESPValue)]

variable (input : List UInt8)

def traceLine (kind : RESPValueKind) (pos : ℕ) : List ParseEvent :=
  match consumeToken input kind.marker ⟨pos, pos⟩ >>= fun cursor => scanLine input cursor.ptr with
  | .ok strLen => [stringAlloc (UInt64.ofNat strLen)]
  | .error _ => []

def traceBulkString (pos : ℕ) : List ParseEvent :=
  match parseNumber input strtoull .bulkString pos with
  | .ok (length, _) =>
    stringAlloc length ::
      match parseBulkString input pos with
      | .ok (_, after) => [.bulkStringEnd (UInt64.ofNat pos) (UInt64.ofNat after)]
      | .error _ => []
  | .error _ => []

def traceArray (traceElements : ℕ → Hector RESPValue → ℕ → List ParseEvent) (pos : ℕ) :
    List ParseEvent :=
  match parseNumber input strtoull .array pos with
  | .ok (length, cursor) =>
    storageAlloc length.toNat ::
      traceElements length.toNat (hectorCreate true length.toNat) cursor.pos
  | .error _ => []

mutual
def traceValue : ℕ → ℕ → List ParseEvent
  | 0, _ => []
  | fuel + 1, pos =>
    match input[pos]? with
    | none => []
    | some c =>
      if c = RESPValueKind.simpleString.marker then traceLine input .simpleString pos
      else if c = RESPValueKind.simpleError.marker then traceLine input .simpleError pos
      else if c = RESPValueKind.bulkString.marker then traceBulkString input pos
      else if c = RESPValueKind.array.marker then
        traceArray input (fun length hec pos => traceElements fuel length hec pos) pos
      else []

/-- The loop of `parse_array`: an element is pushed once it is parsed. -/
def traceElements : ℕ → ℕ → Hector RESPValue → ℕ → List ParseEvent
  | _, 0, _, _ => []
  | 0, _ + 1, _, _ => []
  | fuel + 1, length + 1, hec, pos =>
    traceValue fuel pos ++
      match parseValue input fuel pos with
      | .ok (value, pos) =>
        pushEvents hec ++ traceElements fuel length (hectorPush hec value) pos
      | .error _ => []
end

def respParseTrace : List ParseEvent := traceValue input (input.length + 1) 0

/-- The size is the one that is meant, the position moves on, and the write of an element stays
inside the storage. -/
def ParseEvent.Exact : ParseEvent → Prop
  | .alloc meant size => size.toNat = meant
  | .bulkStringEnd before after => before < after
  | .push offset storage => offset.toNat + 16 ≤ storage.toNat

instance : DecidablePred ParseEvent.Exact
  | .alloc _ _ => inferInstanceAs (Decidable (_ = _))
  | .bulkStringEnd _ _ => inferInstanceAs (Decidable (_ < _))
  | .push _ _ => inferInstanceAs (Decidable (_ ≤ _))

def SizesExact : Prop := ∀ event ∈ respParseTrace input, event.Exact

/-- A declared length that no size computed from it wraps on. -/
def RESPValueKind.Fits (length : UInt64) : RESPValueKind → Prop
  | .bulkString => length.toNat < 2 ^ 64 - 1
  | .array => length.toNat < 2 ^ 60
  | _ => True

/-- The room for a line, once its end is found. -/
def LineRequests (behind : List UInt8) (event : ParseEvent) : Prop :=
  ∃ line rest, behind = line ++ rest ∧ (∀ c ∈ line, isText c = true) ∧
    (∃ c ∈ rest.head?, isText c = false) ∧ event = stringAlloc (UInt64.ofNat line.length)

/-- What a marker with these bytes behind it makes the parser ask the arena for. -/
def Requests (behind : List UInt8) (event : ParseEvent) : RESPValueKind → Prop
  | .simpleString => LineRequests behind event
  | .simpleError => LineRequests behind event
  | .bulkString => ∃ length skip, NumberLine strtoull behind (complete length skip) ∧
    event = stringAlloc length
  | .array => ∃ length skip, NumberLine strtoull behind (complete length skip) ∧
    event = storageAlloc length.toNat
  | _ => False

theorem stringAlloc_exact_iff {length : UInt64} :
    (stringAlloc length).Exact ↔ length.toNat < 2 ^ 64 - 1 := by
  have hlt := length.toNat_lt
  simp only [stringAlloc, ParseEvent.Exact, UInt64.toNat_add, UInt64.toNat_one]
  omega

theorem storageAlloc_exact_iff {capacity : ℕ} :
    (storageAlloc capacity).Exact ↔ capacity < 2 ^ 60 := by
  simp only [storageAlloc, ParseEvent.Exact, sizeofRESPValue, UInt64.toNat_mul,
    UInt64.toNat_ofNat', UInt64.reduceToNat, Nat.mul_mod_mod]
  omega

variable {input} {text : List UInt8} {pos : ℕ}

theorem traceValue_of_marker (kind : RESPValueKind) (fuel : ℕ)
    (h : input.drop pos = kind.marker :: text) :
    traceValue input (fuel + 1) pos = match kind with
      | .simpleString => traceLine input .simpleString pos
      | .simpleError => traceLine input .simpleError pos
      | .bulkString => traceBulkString input pos
      | .array =>
        traceArray input (fun length hec pos => traceElements input fuel length hec pos) pos
      | _ => [] := by
  rw [traceValue, getElem?_of_drop _ h, List.head?_cons]
  cases kind <;> rfl

theorem mem_traceLine_iff {kind : RESPValueKind} {event : ParseEvent}
    (h : input.drop pos = kind.marker :: text) :
    event ∈ traceLine input kind pos ↔ LineRequests text event := by
  rw [traceLine, consumeToken_same h, ok_bind]
  constructor
  · intro hevent
    rcases scanLine_fault_or_split input (pos + 1) with hfault | ⟨line, rest, hline, htext, hstop⟩
    · rw [hfault] at hevent
      cases hevent
    · rw [scanLine_of_drop hline htext hstop, List.mem_singleton] at hevent
      exact ⟨line, rest, (drop_succ_of_drop h).symm.trans hline, htext, hstop, hevent⟩
  · rintro ⟨line, rest, rfl, htext, hstop, rfl⟩
    rw [scanLine_of_drop (drop_succ_of_drop h) htext hstop]
    exact List.mem_singleton_self _

theorem traceBulkString_of_complete {length : UInt64} {skip : ℕ}
    (h : input.drop pos = RESPValueKind.bulkString.marker :: text)
    (hnumber : NumberLine strtoull text (complete length skip)) :
    stringAlloc length ∈ traceBulkString input pos := by
  rw [traceBulkString, parseNumber_of_complete h hnumber]
  exact List.mem_cons_self

theorem traceArray_of_complete {length : UInt64} {skip : ℕ}
    (loop : ℕ → Hector RESPValue → ℕ → List ParseEvent)
    (h : input.drop pos = RESPValueKind.array.marker :: text)
    (hnumber : NumberLine strtoull text (complete length skip)) :
    traceArray input loop pos = storageAlloc length.toNat ::
      loop length.toNat (hectorCreate true length.toNat) (pos + 1 + skip) := by
  rw [traceArray, parseNumber_of_complete h hnumber]

section Reached

variable {kind : RESPValueKind} {behind : List UInt8} {event : ParseEvent}

theorem traceValue_of_requests (fuel : ℕ) (hdrop : input.drop pos = kind.marker :: behind)
    (hrequest : Requests behind event kind) : event ∈ traceValue input (fuel + 1) pos := by
  rw [traceValue_of_marker kind fuel hdrop]
  cases kind with
  | simpleString => exact (mem_traceLine_iff hdrop).mpr hrequest
  | simpleError => exact (mem_traceLine_iff hdrop).mpr hrequest
  | bulkString =>
    obtain ⟨length, skip, hnumber, rfl⟩ := hrequest
    exact traceBulkString_of_complete hdrop hnumber
  | array =>
    obtain ⟨length, skip, hnumber, rfl⟩ := hrequest
    dsimp only
    rw [traceArray_of_complete _ hdrop hnumber]
    exact List.mem_cons_self
  | integer => cases hrequest
  | null => cases hrequest

mutual
theorem Reaches.mem_trace {text : List UInt8} {pos fuel : ℕ} (hdrop : input.drop pos = text)
    (hfuel : text.length ≤ fuel) (hrequest : Requests behind event kind) :
    Reaches text kind behind → event ∈ traceValue input (fuel + 1) pos
  | .here _ _ => traceValue_of_requests fuel hdrop hrequest
  | @Reaches.element body count size _ _ hnumber helement => by
    obtain ⟨hlow, hhigh⟩ := hnumber.within strtoull_stopsAtEnd
    rw [traceValue_of_marker .array fuel hdrop]
    dsimp only
    rw [traceArray_of_complete _ hdrop hnumber]
    refine List.mem_cons_of_mem _ (helement.mem_trace ?_ ?_ hrequest _)
    · rw [← List.drop_drop, drop_succ_of_drop hdrop]
    · rw [List.length_cons] at hfuel
      rw [List.length_drop]
      omega

theorem ReachesElement.mem_trace {n : ℕ} {text : List UInt8} {pos fuel : ℕ}
    (hdrop : input.drop pos = text) (hfuel : text.length + 2 ≤ fuel)
    (hrequest : Requests behind event kind) (hec : Hector RESPValue) :
    ReachesElement n text kind behind → event ∈ traceElements input fuel n hec pos
  | .head hvalue => by
    obtain ⟨fuel, rfl⟩ : ∃ k, fuel = k + 2 := ⟨fuel - 2, by omega⟩
    have hmem := hvalue.mem_trace hdrop (Nat.le_of_add_le_add_right hfuel) hrequest
    rw [traceElements]
    exact List.mem_append_left _ hmem
  | @ReachesElement.tail n _ value size _ _ hvalue hvalues => by
    obtain ⟨fuel, rfl⟩ : ∃ k, fuel = k + 2 := ⟨fuel - 2, by omega⟩
    obtain ⟨hlow, hhigh⟩ := hvalue.within
    have hparse : parseValue input (fuel + 1) pos = .ok (value, pos + size) :=
      hvalue.parse_eq hdrop (Nat.le_of_add_le_add_right hfuel)
    have hmem : event ∈ traceElements input (fuel + 1) n (hectorPush hec value) (pos + size) := by
      refine hvalues.mem_trace ?_ ?_ hrequest _
      · rw [← List.drop_drop, hdrop]
      · rw [List.length_drop]
        omega
    rw [traceElements, hparse]
    exact List.mem_append_right _ (List.mem_append_right _ hmem)
end

end Reached

/-- A push of a loop over the elements finds a slot. -/
def PushedWithRoom (capacity : ℕ) (event : ParseEvent) : Prop :=
  ∃ hec : Hector RESPValue, hec.capacity = capacity ∧ hec.length < hec.capacity ∧
    event ∈ pushEvents hec

/-- Where an event of the trace comes from: a marker that is come to, a bulk string that moves the
position on inside the input, or the array that an element is pushed to. -/
inductive Explained (size : ℕ) (reach : RESPValueKind → List UInt8 → Prop) : ParseEvent → Prop
  | request {kind behind event} (hreach : reach kind behind)
    (hrequest : Requests behind event kind) : Explained size reach event
  | moved {before after} (hlt : before < after) (hle : after ≤ size) :
    Explained size reach (.bulkStringEnd (UInt64.ofNat before) (UInt64.ofNat after))
  | pushed {behind length skip event} (hreach : reach .array behind)
    (hnumber : NumberLine strtoull behind (complete length skip))
    (hpush : PushedWithRoom length.toNat event) : Explained size reach event

theorem Explained.mono {size : ℕ} {reach reach' : RESPValueKind → List UInt8 → Prop}
    {event : ParseEvent} (h : Explained size reach event)
    (hreach : ∀ kind behind, reach kind behind → reach' kind behind) :
    Explained size reach' event := by
  cases h with
  | request hfirst hrequest => exact .request (hreach _ _ hfirst) hrequest
  | moved hlt hle => exact .moved hlt hle
  | pushed hfirst hnumber hpush => exact .pushed (hreach _ _ hfirst) hnumber hpush

section Explanation

variable {fuel : ℕ} {event : ParseEvent}

theorem pushEvents_room {hec : Hector RESPValue} (hroom : hec.length < hec.capacity) :
    pushEvents hec = [.push (UInt64.ofNat hec.length * sizeofRESPValue)
      (UInt64.ofNat hec.capacity * sizeofRESPValue)] := by
  have hne : hec.capacity ≠ hec.length := Nat.ne_of_gt hroom
  rw [pushEvents, if_neg hne, hectorGrow, if_neg hne]
  rfl

theorem hectorPush_room {hec : Hector RESPValue} (hroom : hec.length < hec.capacity)
    (value : RESPValue) : (hectorPush hec value).length = hec.length + 1 ∧
      (hectorPush hec value).capacity = hec.capacity := by
  have hgrow : hectorGrow hec = hec := if_neg (Nat.ne_of_gt hroom)
  unfold hectorPush
  rw [hgrow]
  exact ⟨rfl, rfl⟩

theorem parseBulkString_advances {data : List UInt8} {after : ℕ}
    (hdrop : input.drop pos = RESPValueKind.bulkString.marker :: text)
    (h : parseBulkString input pos = .ok (data, after)) : pos < after ∧ after ≤ input.length := by
  have hparse : parseValue input ((input.drop pos).length + 1) pos =
      .ok (.bulkString data, after) := by
    rw [parseValue_of_marker .bulkString _ hdrop]
    dsimp only
    rw [h]
    rfl
  obtain ⟨length, hframe, rfl⟩ := parseValue_ok (Nat.le_refl _) hparse
  obtain ⟨hlow, hhigh⟩ := hframe.within
  rw [List.length_drop] at hhigh
  omega

theorem traceBulkString_explained
    (hdrop : input.drop pos = RESPValueKind.bulkString.marker :: text)
    (h : event ∈ traceBulkString input pos) :
    Explained input.length (Reaches (RESPValueKind.bulkString.marker :: text)) event := by
  rw [traceBulkString] at h
  split at h
  · rename_i length cursor hnumber
    obtain ⟨skip, hline, -⟩ := parseNumber_ok hdrop hnumber
    rcases List.mem_cons.mp h with rfl | h
    · exact .request (.here .bulkString _) ⟨length, skip, hline, rfl⟩
    · split at h
      · rename_i data after hparse
        obtain ⟨hlt, hle⟩ := parseBulkString_advances hdrop hparse
        rw [List.mem_singleton] at h
        subst h
        exact .moved hlt hle
      · cases h
  · cases h

/-- The loop of an array starts with as many free slots as there are elements, and keeps it so. -/
def ElementsExplained (input : List UInt8) (fuel : ℕ) : Prop :=
  ∀ n pos, ∀ hec : Hector RESPValue, (input.drop pos).length + 2 ≤ fuel →
    hec.length + n = hec.capacity → ∀ event ∈ traceElements input fuel n hec pos,
      Explained input.length (ReachesElement n (input.drop pos)) event ∨
        PushedWithRoom hec.capacity event

def ValueExplained (input : List UInt8) (fuel : ℕ) : Prop :=
  ∀ pos, (input.drop pos).length ≤ fuel → ∀ event ∈ traceValue input (fuel + 1) pos,
    Explained input.length (Reaches (input.drop pos)) event

theorem ElementsExplained.array (helements : ElementsExplained input fuel)
    (hdrop : input.drop pos = RESPValueKind.array.marker :: text)
    (hfuel : text.length + 1 ≤ fuel)
    (h : event ∈ traceArray input
      (fun length hec pos => traceElements input fuel length hec pos) pos) :
    Explained input.length (Reaches (RESPValueKind.array.marker :: text)) event := by
  rw [traceArray] at h
  split at h
  · rename_i length cursor hnumber
    obtain ⟨skip, hline, hpos⟩ := parseNumber_ok hdrop hnumber
    obtain ⟨hlow, hhigh⟩ := hline.within strtoull_stopsAtEnd
    have hbody : input.drop cursor.pos = text.drop skip := by
      rw [hpos, ← List.drop_drop, drop_succ_of_drop hdrop]
    rcases List.mem_cons.mp h with rfl | h
    · exact .request (.here .array _) ⟨length, skip, hline, rfl⟩
    · have hloop := helements length.toNat cursor.pos (hectorCreate true length.toNat)
        (by rw [hbody, List.length_drop]; omega) (Nat.zero_add _) event h
      rw [hbody] at hloop
      rcases hloop with hvalue | hpush
      · exact hvalue.mono fun kind behind hreach => .element hline hreach
      · exact .pushed (.here .array _) hline hpush
  · cases h

theorem ElementsExplained.value (helements : ElementsExplained input fuel) :
    ValueExplained input fuel := by
  intro pos hfuel event hevent
  cases hdrop : input.drop pos with
  | nil =>
    rw [traceValue, getElem?_of_drop _ hdrop] at hevent
    cases hevent
  | cons c text =>
    rw [hdrop, List.length_cons] at hfuel
    by_cases hkind : ∃ kind : RESPValueKind, c = kind.marker
    · obtain ⟨kind, rfl⟩ := hkind
      rw [traceValue_of_marker kind fuel hdrop] at hevent
      cases kind with
      | simpleString => exact .request (.here .simpleString _) ((mem_traceLine_iff hdrop).mp hevent)
      | simpleError => exact .request (.here .simpleError _) ((mem_traceLine_iff hdrop).mp hevent)
      | bulkString => exact traceBulkString_explained hdrop hevent
      | array => exact helements.array hdrop hfuel hevent
      | integer => cases hevent
      | null => cases hevent
    · rw [traceValue, getElem?_of_drop _ hdrop, List.head?_cons] at hevent
      have hother : ∀ kind : RESPValueKind, c ≠ kind.marker := fun kind hc => hkind ⟨kind, hc⟩
      simp [hother] at hevent

/-- By induction on the fuel: an element leaves one free slot less and one element less. -/
theorem elementsExplained (fuel : ℕ) : ElementsExplained input fuel := by
  induction fuel using Nat.strong_induction_on with
  | _ fuel ih =>
    intro n pos hec hfuel hslots event hevent
    obtain ⟨fuel, rfl⟩ : ∃ k, fuel = k + 2 := ⟨fuel - 2, by omega⟩
    cases n with
    | zero =>
      rw [traceElements] at hevent
      cases hevent
    | succ n =>
      have hroom : hec.length < hec.capacity := by omega
      rw [traceElements] at hevent
      rcases List.mem_append.mp hevent with hvalue | hrest
      · have hfirst := (ih fuel (by omega)).value pos (Nat.le_of_add_le_add_right hfuel) event hvalue
        exact Or.inl (hfirst.mono fun kind behind hreach => .head hreach)
      · split at hrest
        · rename_i value after hparse
          obtain ⟨length, hframe, rfl⟩ :=
            parseValue_ok (Nat.le_of_add_le_add_right hfuel) hparse
          obtain ⟨hlow, hhigh⟩ := hframe.within
          obtain ⟨hpushed, hkept⟩ := hectorPush_room hroom value
          rcases List.mem_append.mp hrest with hpush | hrest
          · exact Or.inr ⟨hec, rfl, hroom, hpush⟩
          · have hloop := ih (fuel + 1) (by omega) n (pos + length) (hectorPush hec value)
              (by rw [← List.drop_drop, List.length_drop]; omega) (by omega) event hrest
            rw [hkept, ← List.drop_drop] at hloop
            exact hloop.imp_left fun hvalues =>
              hvalues.mono fun kind behind hreach => .tail hframe hreach
        · cases hrest

theorem respParseTrace_explained (h : event ∈ respParseTrace input) :
    Explained input.length (Reaches input) event :=
  (elementsExplained input.length).value 0 (Nat.le_refl _) event h

theorem alloc_mem_trace_iff {meant : ℕ} {size : UInt64} :
    .alloc meant size ∈ respParseTrace input ↔
      ∃ kind behind, Reaches input kind behind ∧ Requests behind (.alloc meant size) kind := by
  constructor
  · intro h
    cases respParseTrace_explained h with
    | request hreach hrequest => exact ⟨_, _, hreach, hrequest⟩
    | pushed hreach hnumber hpush =>
      obtain ⟨hec, -, hroom, hevent⟩ := hpush
      rw [pushEvents_room hroom, List.mem_singleton] at hevent
      cases hevent
  · rintro ⟨kind, behind, hreach, hrequest⟩
    exact hreach.mem_trace List.drop_zero (Nat.le_refl _) hrequest

end Explanation

section Exact

theorem LineRequests.exact {behind : List UInt8} {kind : RESPValueKind} {event : ParseEvent}
    (haddressable : input.length < 2 ^ 64) (hreach : Reaches input kind behind)
    (h : LineRequests behind event) : event.Exact := by
  obtain ⟨line, rest, rfl, -, -, rfl⟩ := h
  have hlength := hreach.length_lt
  rw [List.length_append] at hlength
  rw [stringAlloc_exact_iff, UInt64.toNat_ofNat', Nat.mod_eq_of_lt (by omega)]
  omega

theorem PushedWithRoom.exact {capacity : ℕ} {event : ParseEvent}
    (h : PushedWithRoom capacity event) (hsmall : capacity < 2 ^ 60) : event.Exact := by
  obtain ⟨hec, rfl, hroom, hevent⟩ := h
  rw [pushEvents_room hroom, List.mem_singleton] at hevent
  subst hevent
  simp only [ParseEvent.Exact, sizeofRESPValue, UInt64.toNat_mul, UInt64.toNat_ofNat',
    UInt64.reduceToNat]
  omega

theorem Explained.exact (haddressable : input.length < 2 ^ 64) {event : ParseEvent}
    (h : Explained input.length (Reaches input) event)
    (hfit : ∀ kind behind length skip, Reaches input kind behind →
      NumberLine strtoull behind (complete length skip) → kind.Fits length) : event.Exact := by
  cases h with
  | @request kind behind _ hreach hrequest =>
    cases kind with
    | simpleString => exact LineRequests.exact haddressable hreach hrequest
    | simpleError => exact LineRequests.exact haddressable hreach hrequest
    | bulkString =>
      obtain ⟨length, skip, hnumber, rfl⟩ := hrequest
      exact stringAlloc_exact_iff.mpr (hfit _ _ _ _ hreach hnumber)
    | array =>
      obtain ⟨length, skip, hnumber, rfl⟩ := hrequest
      exact storageAlloc_exact_iff.mpr (hfit _ _ _ _ hreach hnumber)
    | integer => cases hrequest
    | null => cases hrequest
  | moved hlt hle =>
    rw [ParseEvent.Exact, UInt64.lt_iff_toNat_lt, UInt64.toNat_ofNat', UInt64.toNat_ofNat',
      Nat.mod_eq_of_lt (by omega), Nat.mod_eq_of_lt (by omega)]
    exact hlt
  | pushed hreach hnumber hpush => exact hpush.exact (hfit _ _ _ _ hreach hnumber)

end Exact

/-- No size wraps exactly when every header that the parser comes to and accepts fits. The input
lies in memory, which 64 bits address. -/
theorem sizesExact_iff (input : List UInt8) (haddressable : input.length < 2 ^ 64) :
    SizesExact input ↔ ∀ kind behind length skip, Reaches input kind behind →
      NumberLine strtoull behind (complete length skip) → kind.Fits length := by
  constructor
  · intro hexact kind behind length skip hreach hnumber
    have hmem {event : ParseEvent} (hrequest : Requests behind event kind) : event.Exact :=
      hexact event (hreach.mem_trace List.drop_zero (Nat.le_refl _) hrequest)
    cases kind with
    | bulkString => exact stringAlloc_exact_iff.mp (hmem ⟨length, skip, hnumber, rfl⟩)
    | array => exact storageAlloc_exact_iff.mp (hmem ⟨length, skip, hnumber, rfl⟩)
    | _ => trivial
  · intro hfit event hevent
    exact (respParseTrace_explained hevent).exact haddressable hfit

/-- A ping, which is an array of one bulk string. -/
theorem sizesExact_iff_ping :
    let ping : List UInt8 := [42, 49, 13, 10, 36, 52, 13, 10, 112, 105, 110, 103, 13, 10]
    SizesExact ping ↔ ∀ kind behind length skip, Reaches ping kind behind →
      NumberLine strtoull behind (complete length skip) → kind.Fits length :=
  sizesExact_iff _ (by decide)

/-- For a bulk string of length minus one the arena is asked for no bytes, and an array of
`2 ^ 60 + 1` elements gets the storage of one, so that its second element is written behind it. -/
theorem sizesExact_wraps :
    let nullString : List UInt8 := [36, 45, 49, 13, 10]
    let longArray : List UInt8 := [42, 49, 49, 53, 50, 57, 50, 49, 53, 48, 52, 54, 48, 54, 56, 52,
      54, 57, 55, 55, 13, 10, 58, 49, 13, 10, 58, 50, 13, 10]
    .alloc (2 ^ 64) 0 ∈ respParseTrace nullString ∧ ¬ SizesExact nullString ∧
      .push 16 16 ∈ respParseTrace longArray ∧ ¬ SizesExact longArray := by
  intro nullString longArray
  have halloc : .alloc (2 ^ 64) 0 ∈ respParseTrace nullString := by decide +kernel
  have hpush : .push 16 16 ∈ respParseTrace longArray := by decide +kernel
  refine ⟨halloc, fun hexact => ?_, hpush, fun hexact => ?_⟩
  · exact absurd (hexact _ halloc) (by decide)
  · exact absurd (hexact _ hpush) (by decide)

end Redic
