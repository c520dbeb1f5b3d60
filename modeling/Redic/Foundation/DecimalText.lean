import Mathlib.Data.List.TakeWhile
import Mathlib.Data.Nat.Digits.Lemmas
import Mathlib.Tactic.Ring

/-! # Decimal text in the C library

Base-10 printing of integers and the two readers `strtoll` and `strtoull`, following the C
standard in the C locale: leading white space, one optional sign, then the longest run of
digits; no digits means nothing is consumed; values out of range saturate and raise `ERANGE`.
Text is a list of bytes and an end of the list stops the reader like any other non-digit.
-/
namespace Redic.DecimalText

/-- `isspace` in the C locale: blank and the bytes `\t \n \v \f \r`. -/
def isSpace (c : UInt8) : Bool := c == 32 || (9 ≤ c && c ≤ 13)

def isDigit (c : UInt8) : Bool := 48 ≤ c && c ≤ 57

def digitValue (c : UInt8) : ℕ := c.toNat - 48

def readDigits (ds : List UInt8) : ℕ := ds.foldl (fun n c => 10 * n + digitValue c) 0

/-- The optional sign, and what follows it. -/
def splitSign : List UInt8 → Bool × List UInt8
  | 45 :: rest => (true, rest)
  | 43 :: rest => (false, rest)
  | text => (false, text)

/-- What a reader finds at the start of a text: the sign, the digits and the number of bytes
of white space, sign and digits together. -/
structure Numeral where
  negative : Bool
  digits : List UInt8
  span : ℕ
  deriving DecidableEq, Repr

def scan (text : List UInt8) : Numeral :=
  let body := (splitSign (text.dropWhile isSpace)).2
  let digits := body.takeWhile isDigit
  { negative := (splitSign (text.dropWhile isSpace)).1
    digits := digits
    span := text.length - body.length + digits.length }

/-- Result of a reader: the value, the number of bytes before `endptr`, and `ERANGE`. -/
structure Parsed (α : Type) where
  value : α
  endPos : ℕ
  erange : Bool
  deriving DecidableEq, Repr

def strtoll (text : List UInt8) : Parsed Int64 :=
  let n := scan text
  let v : ℤ := if n.negative then -(readDigits n.digits : ℤ) else readDigits n.digits
  if n.digits = [] then ⟨0, 0, false⟩
  else if v < -2 ^ 63 then ⟨Int64.minValue, n.span, true⟩
  else if 2 ^ 63 ≤ v then ⟨Int64.maxValue, n.span, true⟩
  else ⟨Int64.ofInt v, n.span, false⟩

/-- A minus sign negates in the unsigned type. -/
def strtoull (text : List UInt8) : Parsed UInt64 :=
  let n := scan text
  if n.digits = [] then ⟨0, 0, false⟩
  else if 2 ^ 64 ≤ readDigits n.digits then ⟨UInt64.ofNat (2 ^ 64 - 1), n.span, true⟩
  else if n.negative then ⟨-UInt64.ofNat (readDigits n.digits), n.span, false⟩
  else ⟨UInt64.ofNat (readDigits n.digits), n.span, false⟩

def natText (n : ℕ) : List UInt8 :=
  if n = 0 then [48] else (Nat.digits 10 n).reverse.map (fun d => UInt8.ofNat (48 + d))

/-- Decimal form of an integer, as `printf` writes it with `PRId64`. -/
def intText (v : ℤ) : List UInt8 := if v < 0 then 45 :: natText v.natAbs else natText v.natAbs

/-- A text does not continue a run of digits. -/
def StopsDigits (rest : List UInt8) : Prop := ∀ c ∈ rest.head?, isDigit c = false

theorem digitValue_ofNat {d : ℕ} (h : d < 10) : digitValue (UInt8.ofNat (48 + d)) = d := by
  simp only [digitValue, UInt8.toNat_ofNat']
  omega

theorem isDigit_iff {c : UInt8} : isDigit c = true ↔ 48 ≤ c ∧ c ≤ 57 := by
  simp only [isDigit, Bool.and_eq_true, decide_eq_true_eq]

theorem isDigit_ofNat {d : ℕ} (h : d < 10) : isDigit (UInt8.ofNat (48 + d)) = true := by
  simp only [isDigit_iff, UInt8.le_iff_toNat_le, UInt8.toNat_ofNat', UInt8.reduceToNat]
  omega

theorem digitValue_lt {c : UInt8} (h : isDigit c = true) : digitValue c < 10 := by
  simp only [isDigit_iff, UInt8.le_iff_toNat_le, UInt8.reduceToNat] at h
  unfold digitValue
  omega

theorem readDigits_append_singleton (ds : List UInt8) (c : UInt8) :
    readDigits (ds ++ [c]) = 10 * readDigits ds + digitValue c := by
  simp [readDigits, List.foldl_append]

theorem readDigits_reverse_map (l : List ℕ) (h : ∀ d ∈ l, d < 10) :
    readDigits (l.reverse.map (fun d => UInt8.ofNat (48 + d))) = Nat.ofDigits 10 l := by
  induction l with
  | nil => rfl
  | cons d l ih =>
    have hl := ih (fun e he => h e (List.mem_cons_of_mem _ he))
    rw [List.reverse_cons, List.map_append, List.map_singleton, readDigits_append_singleton, hl,
      digitValue_ofNat (h d List.mem_cons_self), Nat.ofDigits_cons]
    ring

/-- Printing and reading digits are inverse. -/
@[simp] theorem readDigits_natText (n : ℕ) : readDigits (natText n) = n := by
  unfold natText
  split
  · rename_i h
    subst h
    decide
  · rw [readDigits_reverse_map _ (fun d hd => Nat.digits_lt_base (by decide) hd),
      Nat.ofDigits_digits]

theorem isDigit_of_mem_natText {n : ℕ} {c : UInt8} (h : c ∈ natText n) : isDigit c = true := by
  unfold natText at h
  split at h
  · rw [List.mem_singleton] at h
    subst h
    decide
  · obtain ⟨d, hd, rfl⟩ := List.mem_map.mp h
    exact isDigit_ofNat (Nat.digits_lt_base (by decide) (List.mem_reverse.mp hd))

@[simp] theorem natText_ne_nil (n : ℕ) : natText n ≠ [] := by
  unfold natText
  split
  · simp
  · rename_i h
    simpa [Nat.digits_eq_nil_iff_eq_zero] using h

theorem natText_length_le {n k : ℕ} (hk : 0 < k) (h : n < 10 ^ k) : (natText n).length ≤ k := by
  unfold natText
  split
  · exact hk
  · simpa using (Nat.digits_length_le_iff (by decide) n).mpr h

theorem takeWhile_digits {ds rest : List UInt8} (hd : ∀ c ∈ ds, isDigit c = true)
    (hr : StopsDigits rest) : (ds ++ rest).takeWhile isDigit = ds := by
  rw [List.takeWhile_append_of_pos hd]
  cases rest with
  | nil => simp
  | cons c rest => simp [hr c (by simp)]

theorem not_space_of_digit {c : UInt8} (h : isDigit c = true) : isSpace c = false := by
  unfold isDigit at h
  unfold isSpace
  grind

theorem splitSign_digit {c : UInt8} (h : isDigit c = true) (rest : List UInt8) :
    splitSign (c :: rest) = (false, c :: rest) := by
  unfold splitSign
  split
  · simp_all [isDigit]
  · simp_all [isDigit]
  · rfl

theorem scan_digits {ds rest : List UInt8} (hne : ds ≠ []) (hd : ∀ c ∈ ds, isDigit c = true)
    (hr : StopsDigits rest) : scan (ds ++ rest) = ⟨false, ds, ds.length⟩ := by
  cases ds with
  | nil => exact absurd rfl hne
  | cons c cs =>
    have hc := hd c List.mem_cons_self
    have ht := takeWhile_digits hd hr
    have hs : ((c :: cs) ++ rest).dropWhile isSpace = (c :: cs) ++ rest := by
      simp [not_space_of_digit hc]
    unfold scan
    rw [hs, List.cons_append, splitSign_digit hc, ← List.cons_append]
    simp only [ht, Nat.sub_self, Nat.zero_add]

theorem scan_minus_digits {ds rest : List UInt8} (hd : ∀ c ∈ ds, isDigit c = true)
    (hr : StopsDigits rest) : scan (45 :: (ds ++ rest)) = ⟨true, ds, ds.length + 1⟩ := by
  have ht := takeWhile_digits hd hr
  have hs : (45 :: (ds ++ rest)).dropWhile isSpace = 45 :: (ds ++ rest) := by
    simp [isSpace]
  unfold scan
  rw [hs]
  simp only [splitSign, ht, List.length_cons, List.length_append, Numeral.mk.injEq, true_and]
  omega

theorem scan_natText (n : ℕ) {rest : List UInt8} (hr : StopsDigits rest) :
    scan (natText n ++ rest) = ⟨false, natText n, (natText n).length⟩ :=
  scan_digits (natText_ne_nil n) (fun _ h => isDigit_of_mem_natText h) hr

theorem scan_intText (v : ℤ) {rest : List UInt8} (hr : StopsDigits rest) :
    scan (intText v ++ rest) = ⟨decide (v < 0), natText v.natAbs, (intText v).length⟩ := by
  unfold intText
  split
  · rename_i h
    rw [List.cons_append, scan_minus_digits (fun _ h => isDigit_of_mem_natText h) hr]
    simp [h]
  · rename_i h
    rw [scan_natText _ hr]
    simp [h]

/-- `strtoll` reads back every 64-bit integer that was printed. -/
theorem strtoll_intText (v : Int64) {rest : List UInt8} (hr : StopsDigits rest) :
    strtoll (intText v.toInt ++ rest) = ⟨v, (intText v.toInt).length, false⟩ := by
  have hlo := v.le_toInt
  have hhi := v.toInt_lt
  have hv : (if decide (v.toInt < 0) = true then -(v.toInt.natAbs : ℤ) else v.toInt.natAbs) =
      v.toInt := by
    simp only [decide_eq_true_eq]
    split <;> omega
  simp only [strtoll, scan_intText _ hr, natText_ne_nil, if_false, readDigits_natText, hv]
  rw [if_neg (by omega), if_neg (by omega), Int64.ofInt_toInt]

theorem intText_ne_nil (v : ℤ) : intText v ≠ [] := by
  unfold intText
  split <;> simp

/-- The decimal form of a 64-bit integer has at most 20 bytes. -/
theorem intText_length_le (v : Int64) : (intText v.toInt).length ≤ 20 := by
  have hlo := v.le_toInt
  have hhi := v.toInt_lt
  have h : (natText v.toInt.natAbs).length ≤ 19 := natText_length_le (by decide) (by omega)
  unfold intText
  split
  · rw [List.length_cons]
    omega
  · omega

/-- A byte of the text stops the scan, so that nothing behind the text is looked at. -/
def Ends (text : List UInt8) : Prop := (scan text).span < text.length

instance (text : List UInt8) : Decidable (Ends text) := inferInstanceAs (Decidable (_ < _))

theorem splitSign_length_le (text : List UInt8) : (splitSign text).2.length ≤ text.length := by
  unfold splitSign
  split <;> simp

theorem splitSign_append {text : List UInt8} (h : (splitSign text).2 ≠ []) (more : List UInt8) :
    splitSign (text ++ more) = ((splitSign text).1, (splitSign text).2 ++ more) := by
  unfold splitSign at h ⊢
  cases text with
  | nil => exact absurd rfl h
  | cons c text =>
    rw [List.cons_append]
    split <;> simp_all

theorem Ends.scan_append {text : List UInt8} (h : Ends text) (more : List UInt8) :
    scan (text ++ more) = scan text := by
  have hspace : (text.dropWhile isSpace).length ≤ text.length :=
    (List.dropWhile_sublist _).length_le
  have hsign := splitSign_length_le (text.dropWhile isSpace)
  have hlt : ((splitSign (text.dropWhile isSpace)).2.takeWhile isDigit).length <
      (splitSign (text.dropWhile isSpace)).2.length := by
    simp only [Ends, scan] at h
    omega
  have hbody : (splitSign (text.dropWhile isSpace)).2 ≠ [] := by
    intro he
    simp [he] at hlt
  have hrest : text.dropWhile isSpace ≠ [] := by
    intro he
    simp [he, splitSign] at hbody
  have hdrop : (text ++ more).dropWhile isSpace = text.dropWhile isSpace ++ more := by
    rw [List.dropWhile_append, if_neg (by simpa using hrest)]
  have htake : ((splitSign (text.dropWhile isSpace)).2 ++ more).takeWhile isDigit =
      (splitSign (text.dropWhile isSpace)).2.takeWhile isDigit := by
    rw [List.takeWhile_append, if_neg (Nat.ne_of_lt hlt)]
  unfold scan
  rw [hdrop, splitSign_append hbody]
  simp only [htake, List.length_append, Numeral.mk.injEq, true_and]
  omega

theorem Ends.append {text : List UInt8} (h : Ends text) (more : List UInt8) :
    Ends (text ++ more) := by
  have hlt : (scan text).span < text.length := h
  rw [Ends, h.scan_append, List.length_append]
  omega

/-- The reader looks at no byte behind the one that ends the scan. -/
structure StopsAtEnd {α : Type} (read : List UInt8 → Parsed α) : Prop where
  read_append : ∀ {text}, Ends text → ∀ more, read (text ++ more) = read text
  endPos_le : ∀ text, (read text).endPos ≤ (scan text).span

theorem strtoll_stopsAtEnd : StopsAtEnd strtoll where
  read_append := by
    intro text h more
    simp only [strtoll, h.scan_append]
  endPos_le := by
    intro text
    simp only [strtoll]
    split_ifs <;> simp

theorem strtoull_stopsAtEnd : StopsAtEnd strtoull where
  read_append := by
    intro text h more
    simp only [strtoull, h.scan_append]
  endPos_le := by
    intro text
    simp only [strtoull]
    split_ifs <;> simp

theorem StopsAtEnd.endPos_lt {α : Type} {read : List UInt8 → Parsed α} (hread : StopsAtEnd read)
    {text : List UInt8} (h : Ends text) : (read text).endPos < text.length :=
  Nat.lt_of_le_of_lt (hread.endPos_le text) h

/-- The integer that a text denotes: white space, an optional sign and digits, and no more. -/
def numeralValue (text : List UInt8) : Option ℤ :=
  let n := scan text
  if n.digits = [] ∨ n.span ≠ text.length then none
  else some (if n.negative then -(readDigits n.digits : ℤ) else readDigits n.digits)

theorem numeralValue_eq {text : List UInt8} {v : ℤ} (h : numeralValue text = some v) :
    (scan text).digits ≠ [] ∧ (scan text).span = text.length ∧
      (if (scan text).negative then -(readDigits (scan text).digits : ℤ)
        else readDigits (scan text).digits) = v := by
  simp only [numeralValue] at h
  split at h
  · cases h
  · rename_i hparts
    obtain ⟨hdigits, hspan⟩ := not_or.mp hparts
    exact ⟨hdigits, not_not.mp hspan, Option.some.inj h⟩

/-- A byte that is no digit, put behind a numeral, ends the scan right there. -/
theorem scan_numeral {text : List UInt8} {v : ℤ} (h : numeralValue text = some v) {c : UInt8}
    (hc : isDigit c = false) (rest : List UInt8) : scan (text ++ c :: rest) = scan text := by
  obtain ⟨hdigits, hspan, -⟩ := numeralValue_eq h
  simp only [scan] at hdigits hspan
  have hspace : (text.dropWhile isSpace).length ≤ text.length :=
    (List.dropWhile_sublist _).length_le
  have hsign := splitSign_length_le (text.dropWhile isSpace)
  have hbody : (splitSign (text.dropWhile isSpace)).2 ≠ [] := by
    intro he
    simp [he] at hdigits
  have hrest : text.dropWhile isSpace ≠ [] := by
    intro he
    simp [he, splitSign] at hbody
  -- the digits reach the end of the text
  have hall : (splitSign (text.dropWhile isSpace)).2.takeWhile isDigit =
      (splitSign (text.dropWhile isSpace)).2 := by
    apply (List.takeWhile_prefix isDigit).eq_of_length
    omega
  have hstop : StopsDigits (c :: rest) := by simpa [StopsDigits] using hc
  have htake : ((splitSign (text.dropWhile isSpace)).2 ++ c :: rest).takeWhile isDigit =
      (splitSign (text.dropWhile isSpace)).2 := by
    apply takeWhile_digits _ hstop
    intro d hd
    rw [← hall] at hd
    exact List.all_eq_true.mp List.all_takeWhile d hd
  have hdrop : (text ++ c :: rest).dropWhile isSpace =
      text.dropWhile isSpace ++ c :: rest := by
    rw [List.dropWhile_append, if_neg (by simpa using hrest)]
  unfold scan
  rw [hdrop, splitSign_append hbody]
  simp only [htake, hall, List.length_append, Numeral.mk.injEq, true_and]
  omega

/-- The reader saturates outside the 64-bit range and is exact inside. -/
theorem strtoll_numeral {text : List UInt8} {v : ℤ} (h : numeralValue text = some v) {c : UInt8}
    (hc : isDigit c = false) (rest : List UInt8) :
    strtoll (text ++ c :: rest) =
      if v < -2 ^ 63 then ⟨Int64.minValue, text.length, true⟩
      else if 2 ^ 63 ≤ v then ⟨Int64.maxValue, text.length, true⟩
      else ⟨Int64.ofInt v, text.length, false⟩ := by
  have hscan := scan_numeral h hc rest
  obtain ⟨hdigits, hspan, rfl⟩ := numeralValue_eq h
  simp only [strtoll, hscan, hdigits, hspan, if_false]

theorem readDigits_lt {ds : List UInt8} (h : ∀ c ∈ ds, isDigit c = true) :
    readDigits ds < 10 ^ ds.length := by
  induction ds using List.reverseRecOn with
  | nil => decide
  | append_singleton ds c ih =>
    have hds := ih fun c hc => h c (List.mem_append_left _ hc)
    have hc : isDigit c = true := h c (by simp)
    have hvalue := digitValue_lt hc
    rw [readDigits_append_singleton, List.length_append, List.length_singleton, Nat.pow_succ]
    omega

theorem scan_digits_length (text : List UInt8) :
    (scan text).digits.length ≤ (scan text).span ∧ ∀ c ∈ (scan text).digits, isDigit c = true :=
  ⟨Nat.le_add_left _ _, fun _ hc => List.mem_takeWhile_imp hc⟩

theorem strtoull_endPos_pos {text : List UInt8} (h : (strtoull text).value ≠ 0) :
    0 < (strtoull text).endPos := by
  have hspan := (scan_digits_length text).1
  unfold strtoull at h ⊢
  by_cases hdigits : (scan text).digits = []
  · simp [hdigits] at h
  · have hne := List.length_pos_iff.mpr hdigits
    simp only [hdigits, if_false]
    split
    · exact Nat.lt_of_lt_of_le hne hspan
    · split <;> exact Nat.lt_of_lt_of_le hne hspan

/-- A reader consumes at least the digits of the number it returns. Small numbers that a minus
sign makes out of large ones take more. -/
theorem natText_le_strtoull {text : List UInt8} {n : ℕ} (h : (strtoull text).value.toNat = n)
    (hpos : 0 < n) (hsmall : n < 2 ^ 63) : (natText n).length ≤ (strtoull text).endPos := by
  obtain ⟨hspan, hall⟩ := scan_digits_length text
  have hlt := readDigits_lt hall
  simp only [strtoull] at h ⊢
  split at h
  · simp at h
    omega
  · rename_i hdigits
    have hne : 0 < (scan text).digits.length := List.length_pos_iff.mpr hdigits
    rw [if_neg hdigits]
    split at h
    · simp at h
      omega
    · rename_i hfits
      rw [if_neg hfits]
      split at h
      · rename_i hnegative
        have hwrap : 10 ^ 18 < readDigits (scan text).digits := by
          simp only [UInt64.toNat_neg, UInt64.toNat_ofNat', UInt64.size] at h
          omega
        have hlong : 18 < (scan text).digits.length :=
          (Nat.pow_lt_pow_iff_right (by decide)).mp (Nat.lt_trans hwrap hlt)
        have hshort : (natText n).length ≤ 19 := natText_length_le (by decide) (by omega)
        rw [if_pos hnegative]
        exact Nat.le_trans hshort (Nat.le_trans hlong hspan)
      · rename_i hnegative
        have hvalue : readDigits (scan text).digits = n := by
          simp only [UInt64.toNat_ofNat'] at h
          omega
        have hread := natText_length_le hne hlt
        rw [hvalue] at hread
        rw [if_neg hnegative]
        exact Nat.le_trans hread hspan

end Redic.DecimalText
