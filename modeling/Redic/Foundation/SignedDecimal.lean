import Redic.Foundation.DecimalText

/-! # Signed decimal numbers as a grammar

What a decimal number is, apart from any reader: an optional sign and one or more digits. The
scan of the C library splits every text into white space, a sign, digits and the rest, so that it
finds the numbers of the grammar behind any amount of white space.
-/
namespace Redic.DecimalText

structure IsDigits (ds : List UInt8) : Prop where
  ne_nil : ds ≠ []
  digit : ∀ c ∈ ds, isDigit c = true

inductive IsSign : Bool → List UInt8 → Prop
  | none : IsSign false []
  | plus : IsSign false [43]
  | minus : IsSign true [45]

/-- The integer that digits behind a sign denote. -/
def signed (negative : Bool) (ds : List UInt8) : ℤ :=
  if negative then -(readDigits ds : ℤ) else readDigits ds

/-- The text is an optional sign and one or more digits, and it denotes the integer. -/
def DecimalInteger (text : List UInt8) (v : ℤ) : Prop :=
  ∃ negative sign ds, IsSign negative sign ∧ IsDigits ds ∧ text = sign ++ ds ∧
    v = signed negative ds

def Blank (text : List UInt8) : Prop := ∀ c ∈ text, isSpace c = true

/-- The parts of a scanned text: white space, sign, digits and what is left. -/
structure ScanParts (text blanks sign ds rest : List UInt8) (negative : Bool) : Prop where
  split : text = blanks ++ (sign ++ (ds ++ rest))
  blank : Blank blanks
  isSign : IsSign negative sign
  digit : ∀ c ∈ ds, isDigit c = true
  stops : StopsDigits rest
  scan_eq : scan text = ⟨negative, ds, blanks.length + sign.length + ds.length⟩

theorem splitSign_parts (text : List UInt8) :
    ∃ sign, IsSign (splitSign text).1 sign ∧ text = sign ++ (splitSign text).2 := by
  unfold splitSign
  split
  · exact ⟨[45], .minus, rfl⟩
  · exact ⟨[43], .plus, rfl⟩
  · exact ⟨[], .none, rfl⟩

theorem stopsDigits_dropWhile (text : List UInt8) : StopsDigits (text.dropWhile isDigit) := by
  intro c hc
  have h := List.head?_dropWhile_not isDigit text
  rw [Option.mem_def.mp hc] at h
  exact h

theorem scan_parts (text : List UInt8) :
    ∃ blanks sign ds rest negative, ScanParts text blanks sign ds rest negative := by
  obtain ⟨sign, hsign, hsplit⟩ := splitSign_parts (text.dropWhile isSpace)
  have hdigits := (List.takeWhile_append_dropWhile (p := isDigit)
    (l := (splitSign (text.dropWhile isSpace)).2)).symm
  have hblanks := (List.takeWhile_append_dropWhile (p := isSpace) (l := text)).symm
  have hall : text = text.takeWhile isSpace ++ (sign ++
      ((splitSign (text.dropWhile isSpace)).2.takeWhile isDigit ++
        (splitSign (text.dropWhile isSpace)).2.dropWhile isDigit)) := by
    rw [← hdigits, ← hsplit, ← hblanks]
  refine ⟨_, sign, _, _, _, hall, fun c hc => List.mem_takeWhile_imp hc, hsign,
    fun c hc => List.mem_takeWhile_imp hc, stopsDigits_dropWhile _, ?_⟩
  have hlength := congrArg List.length hblanks
  have hbody := congrArg List.length hsplit
  rw [List.length_append] at hlength hbody
  simp only [scan, Numeral.mk.injEq, true_and]
  omega

section Compose

variable {blanks sign ds rest : List UInt8} {negative : Bool}

theorem IsSign.splitSign_append (h : IsSign negative sign) (hds : IsDigits ds)
    (rest : List UInt8) : splitSign (sign ++ (ds ++ rest)) = (negative, ds ++ rest) := by
  cases h with
  | none =>
    obtain ⟨c, cs, rfl⟩ := List.exists_cons_of_ne_nil hds.ne_nil
    exact splitSign_digit (hds.digit c List.mem_cons_self) (cs ++ rest)
  | plus => rfl
  | minus => rfl

theorem dropWhile_blanks (hblank : Blank blanks) (hsign : IsSign negative sign)
    (hds : IsDigits ds) (rest : List UInt8) :
    (blanks ++ (sign ++ (ds ++ rest))).dropWhile isSpace = sign ++ (ds ++ rest) := by
  rw [List.dropWhile_append_of_pos hblank]
  obtain ⟨c, cs, rfl⟩ := List.exists_cons_of_ne_nil hds.ne_nil
  cases hsign with
  | none =>
    have hc := not_space_of_digit (hds.digit c List.mem_cons_self)
    exact List.dropWhile_cons_of_neg (by simp [hc])
  | plus => exact List.dropWhile_cons_of_neg (by decide)
  | minus => exact List.dropWhile_cons_of_neg (by decide)

/-- A number behind white space is scanned whole. -/
theorem scan_of_parts (hblank : Blank blanks) (hsign : IsSign negative sign) (hds : IsDigits ds)
    (hrest : StopsDigits rest) :
    scan (blanks ++ (sign ++ (ds ++ rest))) =
      ⟨negative, ds, blanks.length + sign.length + ds.length⟩ := by
  simp only [scan, dropWhile_blanks hblank hsign hds, hsign.splitSign_append hds,
    takeWhile_digits hds.digit hrest, List.length_append, Numeral.mk.injEq, true_and]
  omega

end Compose

/-- A text denotes an integer to the C library when it is white space and a number. -/
theorem numeralValue_iff {text : List UInt8} {v : ℤ} : numeralValue text = some v ↔
    ∃ blanks number, Blank blanks ∧ DecimalInteger number v ∧ text = blanks ++ number := by
  constructor
  · intro h
    obtain ⟨hdigits, hspan, hvalue⟩ := numeralValue_eq h
    obtain ⟨blanks, sign, ds, rest, negative, hparts⟩ := scan_parts text
    have hlength := congrArg List.length hparts.split
    simp only [hparts.scan_eq, List.length_append] at hdigits hspan hvalue hlength
    have hnil : rest = [] := List.length_eq_zero_iff.mp (by omega)
    subst hnil
    refine ⟨blanks, sign ++ ds, hparts.blank,
      ⟨negative, sign, ds, hparts.isSign, ⟨hdigits, hparts.digit⟩, rfl, hvalue.symm⟩, ?_⟩
    simpa using hparts.split
  · rintro ⟨blanks, number, hblank, ⟨negative, sign, ds, hsign, hds, rfl, rfl⟩, rfl⟩
    have hstop : StopsDigits [] := fun c hc => by cases hc
    have hscan := scan_of_parts hblank hsign hds hstop
    rw [List.append_nil] at hscan
    have hspan : blanks.length + sign.length + ds.length =
        (blanks ++ (sign ++ ds)).length := by
      simp only [List.length_append, Nat.add_assoc]
    simp only [numeralValue, hscan, hspan, hds.ne_nil, ne_eq, not_true_eq_false, or_self, if_false,
      signed]

theorem blank_nil : Blank [] := fun c hc => by cases hc

theorem DecimalInteger.numeralValue_eq {text : List UInt8} {v : ℤ} (h : DecimalInteger text v) :
    numeralValue text = some v :=
  numeralValue_iff.mpr ⟨[], text, blank_nil, h, rfl⟩

theorem DecimalInteger.unique {text : List UInt8} {v w : ℤ} (h : DecimalInteger text v)
    (h' : DecimalInteger text w) : v = w :=
  Option.some.inj (h.numeralValue_eq.symm.trans h'.numeralValue_eq)

theorem IsDigits.decimalInteger {ds : List UInt8} (h : IsDigits ds) :
    DecimalInteger ds (readDigits ds) :=
  ⟨false, [], ds, .none, h, rfl, rfl⟩

theorem DecimalInteger.ends {text : List UInt8} {v : ℤ} (h : DecimalInteger text v) {c : UInt8}
    (hc : isDigit c = false) (rest : List UInt8) : Ends (text ++ c :: rest) := by
  obtain ⟨-, hspan, -⟩ := DecimalText.numeralValue_eq h.numeralValue_eq
  rw [Ends, scan_numeral h.numeralValue_eq hc, hspan, List.length_append, List.length_cons]
  exact Nat.lt_add_of_pos_right (Nat.succ_pos _)

/-- Digits below `2 ^ 64` are read as they stand. -/
theorem strtoull_digits {ds : List UInt8} (h : IsDigits ds) (hfits : readDigits ds < 2 ^ 64)
    {c : UInt8} (hc : isDigit c = false) (rest : List UInt8) :
    strtoull (ds ++ c :: rest) = ⟨UInt64.ofNat (readDigits ds), ds.length, false⟩ := by
  have hstop : StopsDigits (c :: rest) := by simpa [StopsDigits] using hc
  simp only [strtoull, scan_digits h.ne_nil h.digit hstop, h.ne_nil, if_false,
    Nat.not_le.mpr hfits, Bool.false_eq_true]

theorem DecimalInteger.head_not_space {text : List UInt8} {v : ℤ} (h : DecimalInteger text v) :
    ∀ c ∈ text.head?, isSpace c = false := by
  obtain ⟨negative, sign, ds, hsign, hds, rfl, -⟩ := h
  cases hsign with
  | none =>
    intro c hc
    exact not_space_of_digit (hds.digit c (List.mem_of_mem_head? hc))
  | plus =>
    intro c hc
    cases hc
    decide
  | minus =>
    intro c hc
    cases hc
    decide

/-- A text whose reading ends where the text does is white space and a number. -/
theorem strtoll_whole {text : List UInt8} (hne : text ≠ []) {c : UInt8}
    (h : (strtoll (text ++ [c])).endPos = text.length) :
    ∃ v, numeralValue text = some v := by
  obtain ⟨blanks, sign, ds, rest, negative, hparts⟩ := scan_parts (text ++ [c])
  have hpos := List.length_pos_iff.mpr hne
  simp only [strtoll, hparts.scan_eq] at h
  have hds : ds ≠ [] := by
    rintro rfl
    rw [if_pos rfl] at h
    change 0 = text.length at h
    omega
  have hspan : blanks.length + sign.length + ds.length = text.length := by
    rw [if_neg hds] at h
    split_ifs at h <;> exact h
  have hsplit : text ++ [c] = (blanks ++ (sign ++ ds)) ++ rest := by
    rw [hparts.split]
    simp only [List.append_assoc]
  have htext : text = blanks ++ (sign ++ ds) := by
    refine List.append_inj_left hsplit ?_
    simp only [List.length_append]
    omega
  exact ⟨signed negative ds, numeralValue_iff.mpr ⟨blanks, sign ++ ds, hparts.blank,
    ⟨negative, sign, ds, hparts.isSign, ⟨hds, hparts.digit⟩, rfl, rfl⟩, htext⟩⟩

end Redic.DecimalText
