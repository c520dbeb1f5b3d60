import Redic.Command.Definition
import Redic.Foundation.SwapForward

/-! # Command line options

Each definition in turn is looked for among the arguments that no definition before it took, and
what it takes is swapped to the front of the array. The arguments that stood before it are thereby
rotated, not shifted: the ones left over are again an array, and that array decides the rest.
-/
namespace Redic
open DecimalText SwapForward

inductive CLIOptionType
  | bool | string | integer | float
  deriving DecidableEq, Repr

/-- A missing shorthand is a null pointer. -/
structure CLIOptionDefinition where
  name : List UInt8
  shorthand : Option (List UInt8)
  type : CLIOptionType
  isOptional : Bool
  deriving DecidableEq, Repr

inductive CLIValue
  | bool (value : Bool)
  | string (str : List UInt8)
  | integer (num : Int64)
  deriving DecidableEq, Repr

/-- The value of an optional one is an `Option`, and only that can be absent. -/
structure CLIOption where
  isOptional : Bool
  value : Option CLIValue
  deriving DecidableEq, Repr

/-- `strtol` reads what `strtoll` reads: a `long` has 64 bits. -/
def parseLong (str : List UInt8) : Option Int64 :=
  let parsed := strtoll (str ++ [0])
  if parsed.endPos = 0 then none else some parsed.value

def cliIsLong (definition : CLIOptionDefinition) (arg : List UInt8) : Bool :=
  arg.take 2 == cstr "--" && definition.name == arg.drop 2

/-- Behind the last byte of an argument stands a NUL, which is no dash. -/
def cliIsShort (definition : CLIOptionDefinition) (arg : List UInt8) : Bool :=
  match definition.shorthand with
  | none => false
  | some shorthand => arg[0]? == some 45 && arg[1]? != some 45 && shorthand == arg.drop 1

def cliIsMatch (definition : CLIOptionDefinition) (arg : List UInt8) : Bool :=
  cliIsLong definition arg || cliIsShort definition arg

/-- The value and the number of arguments it was read from, flag included. -/
def cliReadValue (type : CLIOptionType) (next : Option (List UInt8)) :
    Except ServerStop (Option (CLIValue × ℕ)) :=
  match type with
  | .bool => .ok (some (.bool true, 1))
  | .integer =>
    match next with
    | none => .ok none
    | some rawValue => .ok ((parseLong rawValue).map fun integer => (.integer integer, 2))
  | .string =>
    match next with
    | none => .ok none
    | some rawValue => .ok (some (.string rawValue, 2))
  | .float => .error .unimplemented

/-- The option of one definition, the array after the swaps, and the next free index. -/
def cliParseOpt (definition : CLIOptionDefinition) (iargs : List (List UInt8)) (optIdx : ℕ) :
    Except ServerStop (Option (CLIOption × List (List UInt8) × ℕ)) :=
  match (iargs.drop optIdx).findIdx? (cliIsMatch definition) with
  | none =>
    .ok (if definition.isOptional then some (⟨true, none⟩, iargs, optIdx) else none)
  | some offset =>
    let matchedIdx := optIdx + offset
    match cliReadValue definition.type iargs[matchedIdx + 1]? with
    | .error stop => .error stop
    | .ok none => .ok none
    | .ok (some (value, consumedArgs)) =>
      .ok (some (⟨definition.isOptional, some value⟩,
        moveForward iargs matchedIdx optIdx consumedArgs, optIdx + consumedArgs))

def cliParseFrom : List CLIOptionDefinition → List (List UInt8) → ℕ →
    Except ServerStop (Option (List CLIOption))
  | [], _, _ => .ok (some [])
  | definition :: optDefs, iargs, optIdx =>
    match cliParseOpt definition iargs optIdx with
    | .error stop => .error stop
    | .ok none => .ok none
    | .ok (some (option, iargs, optIdx)) =>
      (cliParseFrom optDefs iargs optIdx).map (Option.map (option :: ·))

def cliParseOpts (optDefs : List CLIOptionDefinition) (iargs : List (List UInt8)) :
    Except ServerStop (Option (List CLIOption)) := cliParseFrom optDefs iargs 0

def cliOptionDefinitions : List CLIOptionDefinition :=
  [⟨cstr "port", some (cstr "p"), .integer, true⟩,
   ⟨cstr "replicaof", some (cstr "r"), .string, true⟩]

section Spelling
variable {definition other : CLIOptionDefinition} {arg : List UInt8}

/-- The two ways to write an option. A shorthand that starts with a dash cannot be written. -/
inductive CLIOptionDefinition.Spells (definition : CLIOptionDefinition) : List UInt8 → Prop
  | long : Spells definition (cstr "--" ++ definition.name)
  | short {shorthand : List UInt8} : definition.shorthand = some shorthand →
      shorthand[0]? ≠ some 45 → Spells definition (cstr "-" ++ shorthand)

theorem cstr_dash : cstr "-" = [45] := by decide +kernel

theorem cstr_dashes : cstr "--" = [45, 45] := by decide +kernel

theorem cliIsLong_iff :
    cliIsLong definition arg = true ↔ arg = cstr "--" ++ definition.name := by
  rw [cliIsLong, Bool.and_eq_true, beq_iff_eq, beq_iff_eq]
  constructor
  · rintro ⟨htake, hname⟩
    rw [hname, ← htake, List.take_append_drop]
  · rintro rfl
    rw [cstr_dashes]
    exact ⟨rfl, rfl⟩

theorem cliIsShort_iff : cliIsShort definition arg = true ↔ ∃ shorthand,
    definition.shorthand = some shorthand ∧ shorthand[0]? ≠ some 45 ∧
      arg = cstr "-" ++ shorthand := by
  unfold cliIsShort
  cases definition.shorthand with
  | none => simp
  | some shorthand =>
    simp only [Bool.and_eq_true, beq_iff_eq, bne_iff_ne, cstr_dash]
    constructor
    · rintro ⟨⟨hfirst, hsecond⟩, rfl⟩
      obtain ⟨rest, rfl⟩ : ∃ rest, arg = 45 :: rest := by
        cases arg with
        | nil => cases hfirst
        | cons c rest => exact ⟨rest, by rw [Option.some.inj hfirst]⟩
      exact ⟨rest, rfl, hsecond, rfl⟩
    · rintro ⟨_, hshorthand, hdash, rfl⟩
      obtain rfl := Option.some.inj hshorthand
      exact ⟨⟨rfl, hdash⟩, rfl⟩

theorem cliIsMatch_iff : cliIsMatch definition arg = true ↔ definition.Spells arg := by
  rw [cliIsMatch, Bool.or_eq_true, cliIsLong_iff, cliIsShort_iff]
  constructor
  · rintro (rfl | ⟨shorthand, hshorthand, hdash, rfl⟩)
    · exact .long
    · exact .short hshorthand hdash
  · rintro (_ | ⟨hshorthand, hdash⟩)
    · exact Or.inl rfl
    · exact Or.inr ⟨_, hshorthand, hdash, rfl⟩

/-- The definitions share neither their name nor their shorthand. -/
structure CLIOptionDefinition.Apart (definition other : CLIOptionDefinition) : Prop where
  name_ne : definition.name ≠ other.name
  shorthand_ne : ∀ shorthand, definition.shorthand = some shorthand →
    other.shorthand ≠ some shorthand

instance : DecidableRel CLIOptionDefinition.Apart := fun definition other =>
  decidable_of_iff (definition.name ≠ other.name ∧
      (definition.shorthand = none ∨ definition.shorthand ≠ other.shorthand)) <| by
    constructor
    · rintro ⟨hname, hshorthand⟩
      refine ⟨hname, fun shorthand hself hother => ?_⟩
      rcases hshorthand with hnone | hne
      · cases hself.symm.trans hnone
      · exact hne (hself.trans hother.symm)
    · rintro ⟨hname, hshorthand⟩
      refine ⟨hname, ?_⟩
      cases hself : definition.shorthand with
      | none => exact Or.inl rfl
      | some shorthand => exact Or.inr (hshorthand shorthand hself).symm

theorem CLIOptionDefinition.Apart.not_spells (h : definition.Apart other)
    (hspells : definition.Spells arg) : ¬ other.Spells arg := by
  intro hother
  cases hspells with
  | long =>
    generalize htext : cstr "--" ++ definition.name = text at hother
    cases hother with
    | long => exact h.name_ne (List.append_cancel_left htext)
    | short _ hdash =>
      rw [cstr_dashes, cstr_dash] at htext
      obtain rfl := (List.cons.inj htext).2
      exact hdash rfl
  | @short shorthand hshorthand hdash =>
    generalize htext : cstr "-" ++ shorthand = text at hother
    cases hother with
    | long =>
      rw [cstr_dashes, cstr_dash] at htext
      obtain rfl := (List.cons.inj htext).2
      exact hdash rfl
    | short hshorthand' _ =>
      obtain rfl := List.append_cancel_left htext
      exact h.shorthand_ne _ hshorthand hshorthand'

end Spelling

/-- The option of one definition, read from the arguments not taken yet, what it takes of them
and what it leaves. -/
def cliTakeOpt (definition : CLIOptionDefinition) (words : List (List UInt8)) :
    Except ServerStop (Option (CLIOption × List (List UInt8) × List (List UInt8))) :=
  match words.findIdx? (cliIsMatch definition) with
  | none => .ok (if definition.isOptional then some (⟨true, none⟩, [], words) else none)
  | some idx =>
    (cliReadValue definition.type words[idx + 1]?).map (Option.map fun (value, consumedArgs) =>
      (⟨definition.isOptional, some value⟩, (words.drop idx).take consumedArgs,
        (words.take idx).rotate consumedArgs ++ (words.drop idx).drop consumedArgs))

def cliTakeOpts : List CLIOptionDefinition → List (List UInt8) →
    Except ServerStop (Option (List CLIOption))
  | [], _ => .ok (some [])
  | definition :: optDefs, words =>
    match cliTakeOpt definition words with
    | .error stop => .error stop
    | .ok none => .ok none
    | .ok (some (option, _, left)) => (cliTakeOpts optDefs left).map (Option.map (option :: ·))

section Refine
variable {definition : CLIOptionDefinition} {done words front rest : List (List UInt8)}
  {flag : List UInt8}

theorem cliReadValue_consumed {type : CLIOptionType} {next : Option (List UInt8)} {value : CLIValue}
    {consumedArgs : ℕ} (h : cliReadValue type next = .ok (some (value, consumedArgs))) :
    consumedArgs = 1 ∨ consumedArgs = 2 ∧ next ≠ none := by
  cases type with
  | bool =>
    cases h
    exact Or.inl rfl
  | string =>
    cases next with
    | none => cases h
    | some rawValue =>
      cases h
      exact Or.inr ⟨rfl, Option.some_ne_none _⟩
  | integer =>
    cases next with
    | none => cases h
    | some rawValue =>
      obtain ⟨_, _, hread⟩ := Option.map_eq_some_iff.mp (Except.ok.inj h)
      exact Or.inr ⟨(congrArg Prod.snd hread).symm, Option.some_ne_none _⟩
  | float => cases h

theorem findIdx?_first (hfront : ∀ word ∈ front, cliIsMatch definition word = false)
    (hflag : cliIsMatch definition flag = true) :
    (front ++ flag :: rest).findIdx? (cliIsMatch definition) = some front.length := by
  rw [List.findIdx?_append, List.findIdx?_eq_none_iff.mpr hfront, List.findIdx?_cons, if_pos hflag]
  simp

theorem getElem?_next : (front ++ flag :: rest)[front.length + 1]? = rest.head? := by
  simp [List.getElem?_append_right, List.head?_eq_getElem?]

/-- The first argument that is the option decides what the definition takes. -/
theorem cliTakeOpt_found (hfront : ∀ word ∈ front, cliIsMatch definition word = false)
    (hflag : cliIsMatch definition flag = true) :
    cliTakeOpt definition (front ++ flag :: rest) =
      (cliReadValue definition.type rest.head?).map (Option.map fun read =>
        (⟨definition.isOptional, some read.1⟩, (flag :: rest).take read.2,
          front.rotate read.2 ++ (flag :: rest).drop read.2)) := by
  simp only [cliTakeOpt, findIdx?_first hfront hflag, getElem?_next, List.take_left,
    List.drop_left]

theorem cliTakeOpt_absent (h : ∀ word ∈ words, cliIsMatch definition word = false) :
    cliTakeOpt definition words =
      .ok (if definition.isOptional then some (⟨true, none⟩, [], words) else none) := by
  rw [cliTakeOpt, List.findIdx?_eq_none_iff.mpr h]

theorem words_cases (definition : CLIOptionDefinition) (words : List (List UInt8)) :
    (∀ word ∈ words, cliIsMatch definition word = false) ∨ ∃ front flag rest,
      words = front ++ flag :: rest ∧ (∀ word ∈ front, cliIsMatch definition word = false) ∧
        cliIsMatch definition flag = true := by
  cases h : words.find? (cliIsMatch definition) with
  | none =>
    refine Or.inl fun word hword => ?_
    simpa using List.find?_eq_none.mp h word hword
  | some flag =>
    obtain ⟨hflag, front, rest, hwords, hfront⟩ := List.find?_eq_some_iff_append.mp h
    exact Or.inr ⟨front, flag, rest, hwords, fun word hword => by simpa using hfront word hword,
      hflag⟩

/-- The swaps put what is taken behind what was taken before, and rotate what they pass. -/
theorem cliParseOpt_eq_take (definition : CLIOptionDefinition) (done words : List (List UInt8)) :
    cliParseOpt definition (done ++ words) done.length =
      (cliTakeOpt definition words).map (Option.map fun (option, taken, left) =>
        (option, (done ++ taken) ++ left, (done ++ taken).length)) := by
  rcases words_cases definition words with hnone | ⟨front, flag, rest, rfl, hfront, hflag⟩
  · rw [cliTakeOpt_absent hnone, cliParseOpt, List.drop_left, List.findIdx?_eq_none_iff.mpr hnone]
    cases definition.isOptional <;> simp [Except.map]
  · have hnext : (done ++ (front ++ flag :: rest))[done.length + front.length + 1]? =
        rest.head? := by
      rw [← List.append_assoc, ← List.length_append, getElem?_next]
    rw [cliTakeOpt_found hfront hflag, cliParseOpt, List.drop_left, findIdx?_first hfront hflag]
    dsimp only
    rw [hnext]
    cases hread : cliReadValue definition.type rest.head? with
    | error stop => rfl
    | ok read =>
      cases read with
      | none => rfl
      | some read =>
        obtain ⟨value, consumedArgs⟩ := read
        have hlength : ((flag :: rest).take consumedArgs).length = consumedArgs := by
          apply List.length_take_of_le
          rcases cliReadValue_consumed hread with rfl | ⟨rfl, hsome⟩
          · simp
          · cases rest with
            | nil => exact absurd rfl hsome
            | cons => simp
        have hmove := moveForward_eq_rotate done front ((flag :: rest).take consumedArgs)
          ((flag :: rest).drop consumedArgs)
        rw [List.take_append_drop, hlength] at hmove
        simp only [Except.map, Option.map_some, hmove, List.length_append, hlength,
          List.append_assoc]

theorem cliParseFrom_eq_take (optDefs : List CLIOptionDefinition)
    (done words : List (List UInt8)) :
    cliParseFrom optDefs (done ++ words) done.length = cliTakeOpts optDefs words := by
  induction optDefs generalizing done words with
  | nil => rfl
  | cons definition optDefs ih =>
    rw [cliParseFrom, cliTakeOpts, cliParseOpt_eq_take]
    cases cliTakeOpt definition words with
    | error stop => rfl
    | ok step =>
      cases step with
      | none => rfl
      | some step =>
        obtain ⟨option, taken, left⟩ := step
        simp only [Except.map, Option.map_some, ih]

theorem cliParseOpts_eq_take (optDefs : List CLIOptionDefinition) (iargs : List (List UInt8)) :
    cliParseOpts optDefs iargs = cliTakeOpts optDefs iargs := cliParseFrom_eq_take optDefs [] iargs

end Refine

end Redic
