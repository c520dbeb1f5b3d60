import Mathlib.Data.List.Basic
import Redic.Command.SetArguments

/-! # Well-formed SET commands

A SET asks for a condition, for the old value and for an expiration, or leaves them out. The
clauses that say so may stand in any order and in any letter case behind the key and the value.
-/
namespace Redic
open DecimalText InputArgArray

inductive SetCondition
  | nx | xx
  deriving DecidableEq, Repr

inductive SetExpiration
  | ex (n : Int64)
  | px (n : Int64)
  | exat (n : Int64)
  | pxat (n : Int64)
  | keepttl
  deriving DecidableEq, Repr

structure SetCommand where
  key : DataString
  value : DataString
  condition : Option SetCondition
  get : Bool
  expiration : Option SetExpiration
  deriving DecidableEq, Repr

def SetCondition.token : SetCondition → SetToken
  | nx => .nx
  | xx => .xx

def SetExpiration.token : SetExpiration → SetToken
  | ex _ => .ex
  | px _ => .px
  | exat _ => .exat
  | pxat _ => .pxat
  | keepttl => .keepttl

def SetExpiration.number : SetExpiration → Option Int64
  | ex n => some n
  | px n => some n
  | exat n => some n
  | pxat n => some n
  | keepttl => none

/-- A clause as it is written: the token in some letter case, and its operand. -/
structure SetClause where
  token : SetToken
  word : List UInt8
  operand : Option (List UInt8)
  spelled : strEqCi word (cstr token.word) = true
  operand_isSome : operand.isSome = token.takesOperand

namespace SetClause

def words (clause : SetClause) : List (List UInt8) := clause.word :: clause.operand.toList

def content (clause : SetClause) : SetToken × Option (List UInt8) := (clause.token, clause.operand)

def fills (slot : SetSlot) (clause : SetClause) : Bool := clause.token.slot = slot

end SetClause

/-- The clauses of a command, with the numbers in decimal. -/
def SetCommand.clauses (command : SetCommand) : List (SetToken × Option (List UInt8)) :=
  (command.condition.map fun condition => (condition.token, none)).toList ++
    (if command.get then [(.get, none)] else []) ++
    (command.expiration.map fun expiration =>
      (expiration.token, expiration.number.map dataStringFromInt64)).toList

/-- An option that is present: the name of the definition that matched, and the value. -/
def CommandArg.matched (arg : CommandArg) : Option (String × CommandArgValue) :=
  match arg.value with
  | .option (some value) => some (arg.definition.name, value)
  | _ => none

def setConditionOf : Option (String × CommandArgValue) → Option SetCondition
  | none => none
  | some (name, _) => if name = "nx" then some .nx else if name = "xx" then some .xx else none

def setExpirationOf : Option (String × CommandArgValue) → Option SetExpiration
  | some (name, .integer n) =>
    if name = "seconds" then some (.ex n)
    else if name = "milliseconds" then some (.px n)
    else if name = "unix-time-seconds" then some (.exat n)
    else if name = "unix-time-milliseconds" then some (.pxat n)
    else none
  | some (name, _) => if name = "keepttl" then some .keepttl else none
  | none => none

def setCommandOf : List CommandArg → Option SetCommand
  | [key, value, condition, get, expiration] =>
    match key.value, value.value with
    | .string key, .string value => some
      { key := key
        value := value
        condition := setConditionOf condition.matched
        get := get.matched.isSome
        expiration := setExpirationOf expiration.matched }
    | _, _ => none
  | _ => none

def SetClause.matched (clause : SetClause) : Option (String × CommandArgValue) :=
  (clause.token.readValue clause.operand).map fun value => (clause.token.argDef.name, value)

def slotMatched (slot : SetSlot) (clauses : List SetClause) : Option (String × CommandArgValue) :=
  (clauses.find? (SetClause.fills slot)).bind SetClause.matched

def commandOfClauses (key value : DataString) (clauses : List SetClause) : SetCommand where
  key := key
  value := value
  condition := setConditionOf (slotMatched .condition clauses)
  get := (slotMatched .get clauses).isSome
  expiration := setExpirationOf (slotMatched .expiration clauses)

variable {iaa : InputArgArray} {clauses : List SetClause} {slot : SetSlot}

/-- The free arguments are the words of the clauses, and no operand is a token. -/
structure Spells (iaa : InputArgArray) (clauses : List SetClause) : Prop where
  whole : iaa.Whole
  texts : iaa.unresolved.map iaa.text = clauses.flatMap SetClause.words
  plain : ∀ clause ∈ clauses, ∀ text ∈ clause.operand, ∀ token : SetToken,
    strEqCi text (cstr token.word) = false

theorem word_token {token : SetToken} {text : List UInt8}
    (hplain : ∀ clause ∈ clauses, ∀ text ∈ clause.operand, ∀ token : SetToken,
      strEqCi text (cstr token.word) = false)
    (htext : text ∈ clauses.flatMap SetClause.words)
    (hspelled : strEqCi text (cstr token.word) = true) :
    ∃ clause ∈ clauses, clause.token = token := by
  obtain ⟨clause, hclause, hword⟩ := List.mem_flatMap.mp htext
  refine ⟨clause, hclause, ?_⟩
  rcases List.mem_cons.mp hword with rfl | hoperand
  · exact SetToken.word_injective clause.spelled hspelled
  · rw [hplain clause hclause text (Option.mem_toList.mp hoperand) token] at hspelled
    cases hspelled

theorem Spells.notSpelled {token : SetToken} (h : Spells iaa clauses)
    (hnone : ∀ clause ∈ clauses, clause.token ≠ token) : NotSpelled iaa token.word := by
  intro i hi
  by_contra hspelled
  have hmem : iaa.text i ∈ clauses.flatMap SetClause.words := by
    rw [← h.texts]
    exact List.mem_map_of_mem hi
  obtain ⟨clause, hclause, htoken⟩ := word_token h.plain hmem (by simpa using hspelled)
  exact hnone clause hclause htoken

theorem Spells.noToken (h : Spells iaa clauses)
    (hnone : ∀ clause ∈ clauses, clause.token.slot ≠ slot) : NoToken iaa slot.tokens := by
  intro token htoken
  apply h.notSpelled
  rintro clause hclause rfl
  exact hnone clause hclause (SetSlot.mem_tokens.mp htoken)

theorem map_eq_toList {f : ℕ → List UInt8} {positions : List ℕ} {operand : Option (List UInt8)}
    (h : positions.map f = operand.toList) :
    ∃ position : Option ℕ, positions = position.toList ∧ position.map f = operand := by
  cases operand with
  | none => exact ⟨none, List.map_eq_nil_iff.mp h, rfl⟩
  | some text =>
    obtain ⟨i, rfl, hi⟩ := List.map_eq_singleton_iff.mp h
    exact ⟨some i, rfl, congrArg some hi⟩

theorem Spells.fills {clause : SetClause} {before after : List SetClause}
    (h : Spells iaa (before ++ clause :: after)) (hslot : clause.token.slot = slot)
    (hothers : ∀ other ∈ before ++ after, other.token.slot ≠ slot) :
    ∃ left idx operand right, FillsSlot iaa slot clause.token left idx operand right ∧
      operand.map iaa.text = clause.operand ∧
      (left ++ right).map iaa.text = (before ++ after).flatMap SetClause.words := by
  have htexts := h.texts
  rw [List.flatMap_append, List.flatMap_cons, List.map_eq_append_iff] at htexts
  obtain ⟨left, tail, hsplit, hleft, htail⟩ := htexts
  rw [SetClause.words, List.cons_append, List.map_eq_cons_iff] at htail
  obtain ⟨idx, tail, rfl, hword, htail⟩ := htail
  obtain ⟨operands, right, rfl, hoperands, hright⟩ := List.map_eq_append_iff.mp htail
  obtain ⟨operand, rfl, hoperand⟩ := map_eq_toList hoperands
  obtain ⟨skipped, rest, htokens⟩ := List.append_of_mem (SetSlot.mem_tokens.mpr hslot)
  refine ⟨left, idx, operand, right, ⟨⟨skipped, rest, htokens, ?_⟩, ?_, ?_⟩, hoperand, ?_⟩
  · intro token htoken
    have hnodup : slot.tokens.Nodup := by cases slot <;> decide
    rw [htokens, List.nodup_middle, List.nodup_cons] at hnodup
    have hfill : token.slot = slot := by
      rw [← SetSlot.mem_tokens, htokens]
      exact List.mem_append_left _ htoken
    apply h.notSpelled
    intro other hother htok
    rcases List.mem_append.mp hother with hmem | hmem
    · exact hothers other (List.mem_append_left _ hmem) (by rw [htok, hfill])
    · rcases List.mem_cons.mp hmem with rfl | hmem
      · exact hnodup.1 (htok ▸ List.mem_append_left _ htoken)
      · exact hothers other (List.mem_append_right _ hmem) (by rw [htok, hfill])
  · refine ⟨hsplit, ?_, hword ▸ clause.spelled⟩
    intro i hi
    by_contra hspelled
    have hplain : ∀ other ∈ before, ∀ text ∈ other.operand, ∀ token : SetToken,
        strEqCi text (cstr token.word) = false :=
      fun other hother => h.plain other (List.mem_append_left _ hother)
    obtain ⟨other, hother, htok⟩ := word_token hplain (hleft ▸ List.mem_map_of_mem hi)
      (by simpa using hspelled)
    exact hothers other (List.mem_append_left _ hother) (htok ▸ hslot)
  · have hsome := congrArg Option.isSome hoperand
    rw [Option.isSome_map] at hsome
    rw [hsome, clause.operand_isSome]
  · rw [List.map_append, hleft, hright, List.flatMap_append]

def OneEach (clauses : List SetClause) : Prop :=
  ∀ slot, (clauses.filter (SetClause.fills slot)).length ≤ 1

theorem OneEach.sublist {some : List SetClause} (h : OneEach clauses)
    (hsub : some.Sublist clauses) : OneEach some :=
  fun slot => (hsub.filter _).length_le.trans (h slot)

theorem OneEach.split {clause : SetClause} (hone : OneEach clauses)
    (hfind : clauses.find? (SetClause.fills slot) = some clause) :
    ∃ before after, clauses = before ++ clause :: after ∧ clause.fills slot = true ∧
      ∀ other ∈ before ++ after, other.fills slot = false := by
  obtain ⟨hfills, before, after, rfl, hbefore⟩ := List.find?_eq_some_iff_append.mp hfind
  refine ⟨before, after, rfl, hfills, ?_⟩
  have hlen := hone slot
  rw [List.filter_append, List.filter_cons_of_pos hfills, List.length_append,
    List.length_cons] at hlen
  have hafter : after.filter (SetClause.fills slot) = [] := List.length_eq_zero_iff.mp (by omega)
  intro other hother
  rcases List.mem_append.mp hother with hmem | hmem
  · simpa using hbefore other hmem
  · simpa using List.filter_eq_nil_iff.mp hafter other hmem

/-- Parsing a slot takes the clause of the slot, wherever it stands. -/
theorem Spells.parseSlot (h : Spells iaa clauses) (hone : OneEach clauses)
    (hread : ∀ clause ∈ clauses, (clause.token.readValue clause.operand).isSome = true)
    (slot : SetSlot) :
    ∃ arg iaa', parseCommandArgument slot.argDef iaa = .ok (.ok arg, iaa') ∧
      arg.matched = slotMatched slot clauses ∧
      Spells iaa' (clauses.filter fun clause => !clause.fills slot) := by
  cases hfind : clauses.find? (SetClause.fills slot) with
  | none =>
    have hnone := List.find?_eq_none.mp hfind
    have hkeep : (clauses.filter fun clause => !clause.fills slot) = clauses := by
      apply List.filter_eq_self.mpr
      intro clause hclause
      simpa using hnone clause hclause
    have hopen : NoToken iaa slot.tokens := by
      apply h.noToken
      intro clause hclause
      simpa [SetClause.fills] using hnone clause hclause
    refine ⟨slot.argDef.absent, iaa, parseSlot_absent hopen, ?_, ?_⟩
    · rw [slotMatched, hfind]
      rfl
    · rw [hkeep]
      exact h
  | some clause =>
    obtain ⟨before, after, rfl, hfills, hothers⟩ := hone.split hfind
    have hslot : clause.token.slot = slot := by simpa [SetClause.fills] using hfills
    obtain ⟨left, idx, operand, right, hfill, hoperand, htexts⟩ :=
      h.fills hslot fun other hother => by simpa [SetClause.fills] using hothers other hother
    obtain ⟨value, hvalue⟩ := Option.isSome_iff_exists.mp (hread clause (by simp))
    obtain ⟨iaa', hparse, hleaves⟩ := hfill.parse h.whole (by rw [hoperand]; exact hvalue)
    have hkeep : ((before ++ clause :: after).filter fun other => !other.fills slot) =
        before ++ after := by
      rw [List.filter_append, List.filter_cons_of_neg (by simp [hfills]), ← List.filter_append]
      apply List.filter_eq_self.mpr
      intro other hother
      simp [hothers other hother]
    refine ⟨_, iaa', hparse, ?_, ?_⟩
    · rw [slotMatched, hfind, Option.bind_some, SetClause.matched, hvalue]
      rfl
    · rw [hkeep]
      refine ⟨hleaves.whole, ?_, ?_⟩
      · rw [hleaves.unresolved, hleaves.text, htexts]
      · intro other hother
        apply h.plain
        rcases List.mem_append.mp hother with hmem | hmem
        · exact List.mem_append_left _ hmem
        · exact List.mem_append_right _ (List.mem_cons_of_mem _ hmem)

def behindValue (key value : DataString) (words : List (List UInt8)) : InputArgArray :=
  ((iaaCreate (key :: value :: words)).resolve 0).resolve 1

theorem behindValue_whole (key value : DataString) (words : List (List UInt8)) :
    (behindValue key value words).Whole :=
  ((whole_create _).resolve 0).resolve 1

theorem create_unresolved (key value : DataString) (words : List (List UInt8)) :
    (iaaCreate (key :: value :: words)).unresolved = 0 :: 1 :: List.range' 2 words.length := by
  rw [unresolved_create, List.length_cons, List.length_cons, List.range'_succ, List.range'_succ]

theorem behindValue_unresolved (key value : DataString) (words : List (List UInt8)) :
    (behindValue key value words).unresolved = List.range' 2 words.length :=
  unresolved_resolve_head (unresolved_resolve_head (create_unresolved key value words))

theorem behindValue_texts (key value : DataString) (words : List (List UInt8)) :
    (behindValue key value words).unresolved.map (behindValue key value words).text = words := by
  rw [behindValue_unresolved]
  apply List.ext_getElem
  · simp
  · intro i hi hi'
    have hget : (key :: value :: words)[2 + i]? = some words[i] := by
      rw [Nat.add_comm, List.getElem?_cons_succ, List.getElem?_cons_succ,
        List.getElem?_eq_getElem hi']
    simp [behindValue, InputArgArray.resolve, InputArgArray.text, iaaCreate, List.getD, hget]

def keyArg (key : DataString) : CommandArg :=
  ⟨commandArg "key" .string false none, .string key, [], [0]⟩

def valueArg (value : DataString) : CommandArg :=
  ⟨commandArg "value" .string false none, .string value, [], [1]⟩

theorem parseKeyValue (key value : DataString) (words : List (List UInt8)) :
    parseCommandArgument (commandArg "key" .string false none)
        (iaaCreate (key :: value :: words)) =
      .ok (.ok (keyArg key), (iaaCreate (key :: value :: words)).resolve 0) ∧
    parseCommandArgument (commandArg "value" .string false none)
        ((iaaCreate (key :: value :: words)).resolve 0) =
      .ok (.ok (valueArg value), behindValue key value words) := by
  have hcreate := create_unresolved key value words
  exact ⟨parseCommandArgument_plain rfl (by decide) hcreate,
    parseCommandArgument_plain rfl (by decide) (unresolved_resolve_head hcreate)⟩

theorem slotMatched_filter {other : SetSlot} (hne : slot ≠ other) (clauses : List SetClause) :
    slotMatched slot (clauses.filter fun clause => !clause.fills other) =
      slotMatched slot clauses := by
  have hfills : (fun clause : SetClause => !clause.fills other && clause.fills slot) =
      SetClause.fills slot := by
    funext clause
    by_cases h : clause.token.slot = slot
    · simp [SetClause.fills, h, hne]
    · simp [SetClause.fills, h]
  rw [slotMatched, slotMatched, List.find?_filter]
  simp only [Bool.decide_and, Bool.decide_eq_true, hfills]

theorem parseSet_clauses {key value : DataString}
    (hplain : ∀ clause ∈ clauses, ∀ text ∈ clause.operand, ∀ token : SetToken,
      strEqCi text (cstr token.word) = false)
    (hone : OneEach clauses)
    (hread : ∀ clause ∈ clauses, (clause.token.readValue clause.operand).isSome = true) :
    ∃ args, parseCommandArguments setArgDefs
        (key :: value :: clauses.flatMap SetClause.words) = .ok (.ok args) ∧
      setCommandOf args = some (commandOfClauses key value clauses) := by
  obtain ⟨hkey, hvalue⟩ := parseKeyValue key value (clauses.flatMap SetClause.words)
  have hstart : Spells (behindValue key value (clauses.flatMap SetClause.words)) clauses :=
    ⟨behindValue_whole .., behindValue_texts .., hplain⟩
  obtain ⟨condition, iaa₁, hcondition, hmatched₁, hspells₁⟩ := hstart.parseSlot hone hread .condition
  have hone₁ := hone.sublist (List.filter_sublist (p := fun clause => !clause.fills .condition))
  obtain ⟨get, iaa₂, hget, hmatched₂, hspells₂⟩ := hspells₁.parseSlot hone₁
    (fun clause hclause => hread clause (List.mem_of_mem_filter hclause)) .get
  obtain ⟨expiration, iaa₃, hexpiration, hmatched₃, hspells₃⟩ := hspells₂.parseSlot
    (hone₁.sublist List.filter_sublist)
    (fun clause hclause => hread clause
      (List.mem_of_mem_filter (List.mem_of_mem_filter hclause))) .expiration
  refine ⟨[keyArg key, valueArg value, condition, get, expiration], ?_, ?_⟩
  · rw [parseCommandArguments_ok]
    refine ⟨iaa₃, ?_, ?_⟩
    · rw [setArgDefs_eq, parseDefinitions_cons hkey, parseDefinitions_cons hvalue,
        parseDefinitions_cons hcondition, parseDefinitions_cons hget,
        parseDefinitions_cons hexpiration, parseDefinitions]
      rfl
    · have hnil : (((clauses.filter fun clause => !clause.fills .condition).filter
          fun clause => !clause.fills .get).filter fun clause => !clause.fills .expiration) = [] := by
        apply List.filter_eq_nil_iff.mpr
        intro clause hclause
        have hget := (List.mem_filter.mp hclause).2
        have hcondition := (List.mem_filter.mp (List.mem_filter.mp hclause).1).2
        revert hget hcondition
        simp only [SetClause.fills]
        cases clause.token.slot <;> decide
      have htexts := hspells₃.texts
      rw [hnil] at htexts
      exact List.map_eq_nil_iff.mp htexts
  · rw [slotMatched_filter (by decide)] at hmatched₂
    rw [slotMatched_filter (by decide), slotMatched_filter (by decide)] at hmatched₃
    simp only [setCommandOf, keyArg, valueArg, hmatched₁, hmatched₂, hmatched₃, commandOfClauses]

theorem asciiLower_lt_of_intText {v : ℤ} {c : UInt8} (h : c ∈ intText v) : asciiLower c < 97 := by
  have hle : c ≤ 57 := by
    unfold intText at h
    split at h
    · rcases List.mem_cons.mp h with rfl | h
      · decide
      · exact (isDigit_iff.mp (isDigit_of_mem_natText h)).2
    · exact (isDigit_iff.mp (isDigit_of_mem_natText h)).2
  have hupper : ¬ 65 ≤ c := fun h => absurd (UInt8.le_trans h hle) (by decide)
  simp only [asciiLower, hupper, decide_false, Bool.false_and]
  exact UInt8.lt_of_le_of_lt hle (by decide)

/-- No number in decimal is a token: a token starts with a letter. -/
theorem dataStringFromInt64_not_token (n : Int64) (token : SetToken) :
    strEqCi (dataStringFromInt64 n) (cstr token.word) = false := by
  rw [strEqCi, beq_eq_false_iff_ne]
  intro he
  have hword : ∀ c ∈ ((cstr token.word).map asciiLower).head?, 97 ≤ c := by
    cases token <;> decide +kernel
  have htext : ∀ c ∈ ((dataStringFromInt64 n).map asciiLower).head?, c < 97 := by
    intro c hc
    rw [List.head?_map, Option.mem_map] at hc
    obtain ⟨d, hd, rfl⟩ := hc
    exact asciiLower_lt_of_intText (List.mem_of_mem_head? hd)
  cases hn : dataStringFromInt64 n with
  | nil => exact intText_ne_nil _ hn
  | cons c text =>
    rw [hn] at htext he
    have hlt := htext (asciiLower c) rfl
    have hle := hword (asciiLower c) (by rw [← he]; rfl)
    exact absurd hlt (UInt8.not_lt.mpr hle)

theorem readValue_number (token : SetToken) (n : Int64) (h : token.takesOperand = true) :
    token.readValue (some (dataStringFromInt64 n)) = some (.integer n) := by
  have hstop : StopsDigits [0] := by
    intro c hc
    cases hc
    rfl
  have htext : strtoll (dataStringFromInt64 n ++ [0]) =
      ⟨n, (dataStringFromInt64 n).length, false⟩ := strtoll_intText n hstop
  cases token with
  | ex => simp [SetToken.readValue, SetToken.argDef, readOperand, commandArg,
      CommandArgDefinition.type, parseInt64_dataStringFromInt64]
  | px => simp [SetToken.readValue, SetToken.argDef, readOperand, commandArg,
      CommandArgDefinition.type, parseInt64_dataStringFromInt64]
  | exat => simp [SetToken.readValue, SetToken.argDef, readOperand, commandArg,
      CommandArgDefinition.type, htext]
  | pxat => simp [SetToken.readValue, SetToken.argDef, readOperand, commandArg,
      CommandArgDefinition.type, htext]
  | nx => cases h
  | xx => cases h
  | get => cases h
  | keepttl => cases h

/-- What a clause makes of its slot, given by its content. -/
def contentMatched (content : SetToken × Option (List UInt8)) : Option (String × CommandArgValue) :=
  (content.1.readValue content.2).map fun value => (content.1.argDef.name, value)

namespace SetCommand

variable (command : SetCommand)

/-- The clauses of a command that fill a slot: at most one. -/
def slotClauses (slot : SetSlot) : List (SetToken × Option (List UInt8)) :=
  command.clauses.filter fun content => content.1.slot = slot

theorem slotClauses_condition : command.slotClauses .condition =
    (command.condition.map fun condition => (condition.token, none)).toList := by
  obtain ⟨key, value, condition, get, expiration⟩ := command
  rcases condition with _ | _ | _ <;> cases get <;>
    rcases expiration with _ | _ | _ | _ | _ | _ <;> rfl

theorem slotClauses_get :
    command.slotClauses .get = if command.get then [(.get, none)] else [] := by
  obtain ⟨key, value, condition, get, expiration⟩ := command
  rcases condition with _ | _ | _ <;> cases get <;>
    rcases expiration with _ | _ | _ | _ | _ | _ <;> rfl

theorem slotClauses_expiration : command.slotClauses .expiration =
    (command.expiration.map fun expiration =>
      (expiration.token, expiration.number.map dataStringFromInt64)).toList := by
  obtain ⟨key, value, condition, get, expiration⟩ := command
  rcases condition with _ | _ | _ <;> cases get <;>
    rcases expiration with _ | _ | _ | _ | _ | _ <;> rfl

theorem slotClauses_length (slot : SetSlot) : (command.slotClauses slot).length ≤ 1 := by
  cases slot with
  | condition =>
    rw [slotClauses_condition]
    cases command.condition <;> simp
  | get =>
    rw [slotClauses_get]
    split <;> simp
  | expiration =>
    rw [slotClauses_expiration]
    cases command.expiration <;> simp

theorem operand_of_mem {token : SetToken} {operand : Option (List UInt8)}
    (h : (token, operand) ∈ command.clauses) :
    operand = none ∨ ∃ n, operand = some (dataStringFromInt64 n) ∧ token.takesOperand = true := by
  simp only [clauses, List.mem_append, Option.mem_toList, Option.map_eq_some_iff] at h
  rcases h with (⟨condition, -, he⟩ | hget) | ⟨expiration, -, he⟩
  · cases he
    exact Or.inl rfl
  · split at hget
    · simp only [List.mem_singleton, Prod.mk.injEq] at hget
      exact Or.inl hget.2
    · cases hget
  · cases he
    cases expiration with
    | keepttl => exact Or.inl rfl
    | ex n => exact Or.inr ⟨n, rfl, rfl⟩
    | px n => exact Or.inr ⟨n, rfl, rfl⟩
    | exat n => exact Or.inr ⟨n, rfl, rfl⟩
    | pxat n => exact Or.inr ⟨n, rfl, rfl⟩

end SetCommand

/-- Clauses in any order fill the slots as the clauses of the command do. -/
theorem slotMatched_of_perm {command : SetCommand}
    (h : (clauses.map SetClause.content).Perm command.clauses) (slot : SetSlot) :
    (clauses.filter (SetClause.fills slot)).map SetClause.content = command.slotClauses slot ∧
      slotMatched slot clauses = (command.slotClauses slot).head?.bind contentMatched := by
  have hfilter := h.filter fun content => decide (content.1.slot = slot)
  rw [List.filter_map] at hfilter
  have heq : (clauses.filter (SetClause.fills slot)).map SetClause.content =
      command.slotClauses slot := by
    have hlen := command.slotClauses_length slot
    have hfilter' : ((clauses.filter (SetClause.fills slot)).map SetClause.content).Perm
      (command.slotClauses slot) := hfilter
    cases hslot : command.slotClauses slot with
    | nil =>
      rw [hslot] at hfilter'
      exact hfilter'.eq_nil
    | cons content rest =>
      rw [hslot] at hlen hfilter'
      have hrest : rest = [] := List.length_eq_zero_iff.mp (by simpa using hlen)
      rw [hrest] at hfilter' ⊢
      exact List.perm_singleton.mp hfilter'
  refine ⟨heq, ?_⟩
  rw [← heq, List.head?_map, List.head?_filter, slotMatched, Option.bind_map]
  rfl

theorem setExpirationOf_content (expiration : Option SetExpiration) :
    setExpirationOf ((expiration.map fun expiration =>
      (expiration.token, expiration.number.map dataStringFromInt64)).toList.head?.bind
        contentMatched) = expiration := by
  have hnumber : ∀ (token : SetToken) (n : Int64), token.takesOperand = true →
      contentMatched (token, some (dataStringFromInt64 n)) =
        some (token.argDef.name, .integer n) := by
    intro token n h
    rw [contentMatched, readValue_number token n h]
    rfl
  rcases expiration with _ | n | n | n | n | _
  · rfl
  · exact congrArg setExpirationOf (hnumber .ex n rfl)
  · exact congrArg setExpirationOf (hnumber .px n rfl)
  · exact congrArg setExpirationOf (hnumber .exat n rfl)
  · exact congrArg setExpirationOf (hnumber .pxat n rfl)
  · rfl

/-- A well-formed SET is accepted in every order and letter case of its clauses, and the parsed
arguments stand for the same command. -/
theorem setArguments_complete (command : SetCommand) (clauses : List SetClause)
    (h : (clauses.map SetClause.content).Perm command.clauses) :
    ∃ args, parseCommandArguments setArgDefs
        (command.key :: command.value :: clauses.flatMap SetClause.words) = .ok (.ok args) ∧
      setCommandOf args = some command := by
  have hmem : ∀ clause ∈ clauses, clause.operand = none ∨
      ∃ n, clause.operand = some (dataStringFromInt64 n) ∧ clause.token.takesOperand = true :=
    fun clause hclause => command.operand_of_mem (h.subset (List.mem_map_of_mem hclause))
  have hplain : ∀ clause ∈ clauses, ∀ text ∈ clause.operand, ∀ token : SetToken,
      strEqCi text (cstr token.word) = false := by
    intro clause hclause text htext token
    rcases hmem clause hclause with hnone | ⟨n, hn, -⟩
    · rw [hnone] at htext
      cases htext
    · rw [hn] at htext
      cases htext
      exact dataStringFromInt64_not_token n token
  have hread : ∀ clause ∈ clauses, (clause.token.readValue clause.operand).isSome = true := by
    intro clause hclause
    rcases hmem clause hclause with hnone | ⟨n, hn, htoken⟩
    · rw [hnone]
      rfl
    · rw [hn, readValue_number _ _ htoken]
      rfl
  have hone : OneEach clauses := by
    intro slot
    have hlen := command.slotClauses_length slot
    rwa [← (slotMatched_of_perm h slot).1, List.length_map] at hlen
  obtain ⟨args, hparse, hview⟩ := parseSet_clauses hplain hone hread
  refine ⟨args, hparse, ?_⟩
  rw [hview, commandOfClauses, (slotMatched_of_perm h .condition).2, (slotMatched_of_perm h .get).2,
    (slotMatched_of_perm h .expiration).2, command.slotClauses_condition, command.slotClauses_get,
    command.slotClauses_expiration]
  have hcondition : ∀ condition : Option SetCondition, setConditionOf
      ((condition.map fun condition => (condition.token, none)).toList.head?.bind contentMatched) =
        condition := by
    intro condition
    rcases condition with _ | _ | _ <;> rfl
  have hget : (((if command.get then [(SetToken.get, none)] else []).head?.bind
      contentMatched).isSome) = command.get := by
    cases command.get <;> rfl
  rw [hcondition, hget, setExpirationOf_content]

/-- `SET NX XX pX 5 get nX`: the key and the value spell tokens, and the clauses stand in reverse. -/
theorem setArguments_complete_reversed :
    let command : SetCommand := ⟨cstr "NX", cstr "XX", some .nx, true, some (.px 5)⟩
    let clauses : List SetClause :=
      [⟨.px, cstr "pX", some (cstr "5"), by decide +kernel, rfl⟩,
        ⟨.get, cstr "get", none, by decide +kernel, rfl⟩,
        ⟨.nx, cstr "nX", none, by decide +kernel, rfl⟩]
    ∃ args, parseCommandArguments setArgDefs
        (command.key :: command.value :: clauses.flatMap SetClause.words) = .ok (.ok args) ∧
      setCommandOf args = some command := by
  intro command clauses
  exact setArguments_complete command clauses (by decide +kernel)

end Redic
