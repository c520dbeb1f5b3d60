import Redic.Command.ArgWindow

/-! # The arguments of SET

Behind the key and the value stand option clauses: a token, and for four of the tokens an operand.
The parser fills three slots, one after the other, and for each it looks through all free
arguments for the tokens of the slot, in the order of the definitions.
-/
namespace Redic
open DecimalText InputArgArray

def setArgDefs : List CommandArgDefinition :=
  [commandArg "key" .string false none,
    commandArg "value" .string false none,
    commandArgOneOf "condition" true
      [commandArg "nx" .pureToken false (some "NX"),
        commandArg "xx" .pureToken false (some "XX")],
    commandArg "get" .pureToken true (some "GET"),
    commandArgOneOf "expiration" true
      [commandArg "seconds" .integer false (some "EX"),
        commandArg "milliseconds" .integer false (some "PX"),
        commandArg "unix-time-seconds" .unixTime false (some "EXAT"),
        commandArg "unix-time-milliseconds" .unixTime false (some "PXAT"),
        commandArg "keepttl" .pureToken false (some "KEEPTTL")]]

inductive SetToken
  | nx | xx | get | ex | px | exat | pxat | keepttl
  deriving DecidableEq, Repr

inductive SetSlot
  | condition | get | expiration
  deriving DecidableEq, Repr

namespace SetToken

def word : SetToken → String
  | nx => "NX"
  | xx => "XX"
  | get => "GET"
  | ex => "EX"
  | px => "PX"
  | exat => "EXAT"
  | pxat => "PXAT"
  | keepttl => "KEEPTTL"

def slot : SetToken → SetSlot
  | nx | xx => .condition
  | get => .get
  | ex | px | exat | pxat | keepttl => .expiration

def argDef : SetToken → CommandArgDefinition
  | nx => commandArg "nx" .pureToken false (some "NX")
  | xx => commandArg "xx" .pureToken false (some "XX")
  | get => commandArg "get" .pureToken true (some "GET")
  | ex => commandArg "seconds" .integer false (some "EX")
  | px => commandArg "milliseconds" .integer false (some "PX")
  | exat => commandArg "unix-time-seconds" .unixTime false (some "EXAT")
  | pxat => commandArg "unix-time-milliseconds" .unixTime false (some "PXAT")
  | keepttl => commandArg "keepttl" .pureToken false (some "KEEPTTL")

def takesOperand : SetToken → Bool
  | ex | px | exat | pxat => true
  | _ => false

def readValue (token : SetToken) (operand : Option (List UInt8)) : Option CommandArgValue :=
  match operand with
  | none => some .token
  | some text => readOperand token.argDef.type text

theorem argDef_token (token : SetToken) : token.argDef.token = some token.word := by
  cases token <;> rfl

theorem argDef_pure {token : SetToken} (h : token.takesOperand = false) :
    token.argDef.type = .pureToken := by
  cases token <;> first | rfl | cases h

theorem argDef_operand {token : SetToken} (h : token.takesOperand = true) :
    token.argDef.type.TakesOperand ∧ token.argDef.isOptional = false := by
  cases token <;> first | exact ⟨by decide, rfl⟩ | cases h

theorem word_injective {token other : SetToken} {text : List UInt8}
    (h : strEqCi text (cstr token.word) = true) (hother : strEqCi text (cstr other.word) = true) :
    token = other := by
  have hwords : ∀ t u : SetToken, t ≠ u →
      (cstr t.word).map asciiLower ≠ (cstr u.word).map asciiLower := by
    intro t u
    cases t <;> cases u <;> decide +kernel
  by_contra hne
  have hfalse := strEqCi_other h (hwords token other hne)
  rw [hother] at hfalse
  cases hfalse

end SetToken

namespace SetSlot

def tokens : SetSlot → List SetToken
  | condition => [.nx, .xx]
  | get => [.get]
  | expiration => [.ex, .px, .exat, .pxat, .keepttl]

def argDef : SetSlot → CommandArgDefinition
  | condition => commandArgOneOf "condition" true (condition.tokens.map SetToken.argDef)
  | get => SetToken.get.argDef
  | expiration => commandArgOneOf "expiration" true (expiration.tokens.map SetToken.argDef)

theorem mem_tokens {slot : SetSlot} {token : SetToken} :
    token ∈ slot.tokens ↔ token.slot = slot := by
  cases slot <;> cases token <;> decide

end SetSlot

theorem setArgDefs_eq : setArgDefs = [commandArg "key" .string false none,
    commandArg "value" .string false none, SetSlot.condition.argDef, SetSlot.get.argDef,
    SetSlot.expiration.argDef] := rfl

variable {iaa : InputArgArray} {slot : SetSlot} {token : SetToken}
  {skipped rest : List SetToken} {before after : List ℕ} {idx : ℕ}

def NoToken (iaa : InputArgArray) (tokens : List SetToken) : Prop :=
  ∀ token ∈ tokens, NotSpelled iaa token.word

theorem noToken_or_first (iaa : InputArgArray) (tokens : List SetToken) :
    NoToken iaa tokens ∨ ∃ skipped token rest before idx after,
      tokens = skipped ++ token :: rest ∧ NoToken iaa skipped ∧
        FirstSpelled iaa token.word before idx after := by
  induction tokens with
  | nil => exact Or.inl fun _ h => absurd h List.not_mem_nil
  | cons token tokens ih =>
    rcases notSpelled_or_firstSpelled iaa token.word with hnot | ⟨before, idx, after, hfirst⟩
    · rcases ih with hnone | ⟨skipped, t, rest, before, idx, after, rfl, hskipped, hfirst⟩
      · exact Or.inl (List.forall_mem_cons.mpr ⟨hnot, hnone⟩)
      · exact Or.inr ⟨token :: skipped, t, rest, before, idx, after, rfl,
          List.forall_mem_cons.mpr ⟨hnot, hskipped⟩, hfirst⟩
    · exact Or.inr ⟨[], token, tokens, before, idx, after, rfl,
        fun _ h => absurd h List.not_mem_nil, hfirst⟩

theorem SetSlot.announced (slot : SetSlot) (hslot : slot ≠ .get) {token : SetToken}
    (h : token ∈ slot.tokens) : Announced token.argDef token.word := by
  refine ⟨token.argDef_token, ?_⟩
  rw [SetSlot.mem_tokens] at h
  cases token <;> first | rfl | exact absurd h.symm hslot

theorem NoToken.noneSpelled {tokens : List SetToken} (h : NoToken iaa tokens) (hslot : slot ≠ .get)
    (htokens : ∀ token ∈ tokens, token ∈ slot.tokens) :
    NoneSpelled iaa (tokens.map SetToken.argDef) := by
  intro argDef hmem
  obtain ⟨token, htoken, rfl⟩ := List.mem_map.mp hmem
  exact ⟨token.word, slot.announced hslot (htokens token htoken), h token htoken⟩

theorem SetSlot.argDef_oneOf (hslot : slot ≠ .get) :
    ∃ name, slot.argDef = commandArgOneOf name true (slot.tokens.map SetToken.argDef) := by
  cases slot with
  | get => exact absurd rfl hslot
  | condition => exact ⟨"condition", rfl⟩
  | expiration => exact ⟨"expiration", rfl⟩

theorem SetSlot.ne_get_of_operand (htoken : token ∈ slot.tokens)
    (hoperand : token.takesOperand = true) : slot ≠ .get := by
  rw [SetSlot.mem_tokens] at htoken
  subst htoken
  cases token <;> first | decide | cases hoperand

theorem parseSlot_absent (h : NoToken iaa slot.tokens) :
    parseCommandArgument slot.argDef iaa = .ok (.ok slot.argDef.absent, iaa) := by
  by_cases hslot : slot = .get
  · subst hslot
    exact parseCommandArgument_notSpelled rfl (h .get List.mem_cons_self)
  · obtain ⟨name, heq⟩ := SetSlot.argDef_oneOf hslot
    have hnone := parseAlternatives_none (h.noneSpelled hslot fun _ ht => ht)
    rw [heq, parseCommandArgument_oneOf, hnone]
    rfl

/-- A slot of alternatives is filled by the first of its tokens that is spelled. -/
theorem parseSlot_first {parsed : Except CommandArgParseResult CommandArg} {iaa' : InputArgArray}
    (hslot : slot ≠ .get) (htokens : slot.tokens = skipped ++ token :: rest)
    (hskipped : NoToken iaa skipped)
    (hparse : parseCommandArgument token.argDef iaa = .ok (parsed, iaa'))
    (hcode : parsed ≠ .error .tokenMismatch) :
    parseCommandArgument slot.argDef iaa =
      .ok (parsed.map fun arg => { arg with value := .option (some arg.value) }, iaa') := by
  obtain ⟨name, heq⟩ := SetSlot.argDef_oneOf hslot
  have hnone := hskipped.noneSpelled hslot fun t ht => by
    rw [htokens]
    exact List.mem_append_left _ ht
  rw [heq, parseCommandArgument_oneOf, htokens, List.map_append, parseAlternatives_append hnone,
    List.map_cons, parseAlternatives_cons hparse hcode]
  exact congrArg Except.ok (parseOneOf_optional rfl hcode)

theorem parseSlot_pure (htokens : slot.tokens = skipped ++ token :: rest)
    (hskipped : NoToken iaa skipped) (hpure : token.takesOperand = false)
    (h : FirstSpelled iaa token.word before idx after) :
    parseCommandArgument slot.argDef iaa =
      .ok (.ok ⟨token.argDef, .option (some .token), [idx], []⟩, iaa.resolve idx) := by
  have hparse := parseCommandArgument_pureToken token.argDef_token (SetToken.argDef_pure hpure) h
  by_cases hslot : slot = .get
  · subst hslot
    have htoken : token ∈ SetSlot.get.tokens := by simp [htokens]
    rw [SetSlot.tokens, List.mem_singleton] at htoken
    subst htoken
    exact hparse
  · have hrequired := (slot.announced hslot (by simp [htokens]) : Announced token.argDef _).required
    rw [parseSlot_first hslot htokens hskipped hparse (by simp), CommandArgDefinition.wrap,
      hrequired]
    rfl

theorem parseSlot_operand {operand : ℕ} (hwhole : iaa.Whole)
    (htokens : slot.tokens = skipped ++ token :: rest) (hskipped : NoToken iaa skipped)
    (hoperand : token.takesOperand = true)
    (h : FirstSpelled iaa token.word before idx (operand :: after)) :
    parseCommandArgument slot.argDef iaa =
      .ok (match readOperand token.argDef.type (iaa.text operand) with
        | none => .error .typeMismatch
        | some value => .ok ⟨token.argDef, .option (some value), [idx], [operand]⟩,
        (iaa.resolve idx).resolve operand) := by
  obtain ⟨htype, hrequired⟩ := SetToken.argDef_operand hoperand
  have hslot : slot ≠ .get := SetSlot.ne_get_of_operand (by simp [htokens]) hoperand
  have hparse := parseCommandArgument_operand hwhole token.argDef_token htype h
  cases hread : readOperand token.argDef.type (iaa.text operand) with
  | none =>
    simp only [hread] at hparse
    rw [parseSlot_first hslot htokens hskipped hparse (by simp)]
    rfl
  | some value =>
    simp only [hread] at hparse
    rw [parseSlot_first hslot htokens hskipped hparse (by simp), CommandArgDefinition.wrap,
      hrequired]
    rfl

theorem parseSlot_noOperand (hwhole : iaa.Whole)
    (htokens : slot.tokens = skipped ++ token :: rest) (hskipped : NoToken iaa skipped)
    (hoperand : token.takesOperand = true) (h : FirstSpelled iaa token.word before idx []) :
    parseCommandArgument slot.argDef iaa = .ok (.error .tooFewArgs, iaa.resolve idx) := by
  obtain ⟨htype, hrequired⟩ := SetToken.argDef_operand hoperand
  have hslot : slot ≠ .get := SetSlot.ne_get_of_operand (by simp [htokens]) hoperand
  have hparse := parseCommandArgument_noOperand hwhole token.argDef_token htype hrequired h
  rw [parseSlot_first hslot htokens hskipped hparse (by simp)]
  rfl

/-- What is left of the free arguments when an argument is parsed. -/
structure Leaves (iaa iaa' : InputArgArray) (rest : List ℕ) : Prop where
  whole : iaa'.Whole
  args : iaa'.args = iaa.args
  unresolved : iaa'.unresolved = rest

theorem Leaves.text {iaa' : InputArgArray} {left : List ℕ} (h : Leaves iaa iaa' left) :
    iaa'.text = iaa.text := by
  funext i
  rw [InputArgArray.text, InputArgArray.text, h.args]

/-- The token that fills a slot, its position, and the position of its operand. -/
structure FillsSlot (iaa : InputArgArray) (slot : SetSlot) (token : SetToken) (before : List ℕ)
    (idx : ℕ) (operand : Option ℕ) (after : List ℕ) : Prop where
  tokens : ∃ skipped rest, slot.tokens = skipped ++ token :: rest ∧ NoToken iaa skipped
  first : FirstSpelled iaa token.word before idx (operand.toList ++ after)
  operand_isSome : operand.isSome = token.takesOperand

theorem FillsSlot.token_slot {operand : Option ℕ}
    (h : FillsSlot iaa slot token before idx operand after) : token.slot = slot := by
  obtain ⟨skipped, rest, htokens, -⟩ := h.tokens
  rw [← SetSlot.mem_tokens, htokens]
  exact List.mem_append_right _ List.mem_cons_self

theorem FillsSlot.parse {operand : Option ℕ} {value : CommandArgValue} (hwhole : iaa.Whole)
    (h : FillsSlot iaa slot token before idx operand after)
    (hread : token.readValue (operand.map iaa.text) = some value) :
    ∃ iaa', parseCommandArgument slot.argDef iaa =
        .ok (.ok ⟨token.argDef, .option (some value), [idx], operand.toList⟩, iaa') ∧
      Leaves iaa iaa' (before ++ after) := by
  obtain ⟨skipped, rest, htokens, hskipped⟩ := h.tokens
  have hsplit := unresolved_resolve_split h.first.split
  cases operand with
  | none =>
    cases hread
    exact ⟨_, parseSlot_pure htokens hskipped h.operand_isSome.symm h.first,
      hwhole.resolve idx, rfl, hsplit⟩
  | some operand =>
    have hparse := parseSlot_operand hwhole htokens hskipped h.operand_isSome.symm h.first
    simp only [Option.map_some, SetToken.readValue] at hread
    rw [hread] at hparse
    exact ⟨_, hparse, (hwhole.resolve idx).resolve operand, rfl, unresolved_resolve_split hsplit⟩

theorem parseSlot_ok {arg : CommandArg} {iaa' : InputArgArray} (hwhole : iaa.Whole)
    (h : parseCommandArgument slot.argDef iaa = .ok (.ok arg, iaa')) :
    NoToken iaa slot.tokens ∧ arg = slot.argDef.absent ∧ Leaves iaa iaa' iaa.unresolved ∨
      ∃ token before idx operand after value, FillsSlot iaa slot token before idx operand after ∧
        token.readValue (operand.map iaa.text) = some value ∧
        arg = ⟨token.argDef, .option (some value), [idx], operand.toList⟩ ∧
        Leaves iaa iaa' (before ++ after) := by
  rcases noToken_or_first iaa slot.tokens with
    hnone | ⟨skipped, token, rest, before, idx, after, htokens, hskipped, hfirst⟩
  · rw [parseSlot_absent hnone] at h
    cases h
    exact Or.inl ⟨hnone, rfl, hwhole, rfl, rfl⟩
  · right
    cases hoperand : token.takesOperand with
    | false =>
      have hfills : FillsSlot iaa slot token before idx none after :=
        ⟨⟨skipped, rest, htokens, hskipped⟩, hfirst, hoperand.symm⟩
      obtain ⟨left, hparse, hleaves⟩ := hfills.parse hwhole rfl
      rw [hparse] at h
      cases h
      exact ⟨token, before, idx, none, after, .token, hfills, rfl, rfl, hleaves⟩
    | true =>
      cases after with
      | nil =>
        rw [parseSlot_noOperand hwhole htokens hskipped hoperand hfirst] at h
        cases h
      | cons operand after =>
        have hfills : FillsSlot iaa slot token before idx (some operand) after :=
          ⟨⟨skipped, rest, htokens, hskipped⟩, hfirst, hoperand.symm⟩
        cases hread : readOperand token.argDef.type (iaa.text operand) with
        | none =>
          rw [parseSlot_operand hwhole htokens hskipped hoperand hfirst, hread] at h
          cases h
        | some value =>
          obtain ⟨left, hparse, hleaves⟩ := hfills.parse hwhole hread
          rw [hparse] at h
          cases h
          exact ⟨token, before, idx, some operand, after, value, hfills, hread, rfl, hleaves⟩

end Redic
