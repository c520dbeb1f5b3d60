import Redic.Command.ArgParser

/-! # What parsing one argument does to the free arguments

The free arguments of the whole window are a list of positions. A token takes the first of them
that spells it, and its value is the next one that is still free. Everything the parser does with
a definition is stated about that list.
-/
namespace Redic
namespace InputArgArray

variable {iaa : InputArgArray}

/-- The window of the outermost level covers all arguments. -/
structure Whole (iaa : InputArgArray) : Prop where
  start : iaa.start = 0
  «end» : iaa.end = iaa.args.length

theorem Whole.resolve (h : iaa.Whole) (idx : ℕ) : (iaa.resolve idx).Whole := ⟨h.start, h.end⟩

theorem whole_create (args : List (List UInt8)) : (iaaCreate args).Whole := ⟨rfl, rfl⟩

theorem unresolved_create (args : List (List UInt8)) :
    (iaaCreate args).unresolved = List.range' 0 args.length := by
  simp [unresolved, iaaCreate]

theorem nodup_unresolved (iaa : InputArgArray) : iaa.unresolved.Nodup :=
  List.Nodup.filter _ List.nodup_range'

theorem sorted_unresolved (iaa : InputArgArray) : iaa.unresolved.Pairwise (· < ·) :=
  List.Pairwise.filter _ List.pairwise_lt_range'

theorem Whole.mem_unresolved (h : iaa.Whole) {idx : ℕ} :
    idx ∈ iaa.unresolved ↔ idx < iaa.args.length ∧ iaa.resolvedArgs idx = false := by
  simp [unresolved, h.start, h.end, List.mem_range'_1]

theorem unresolved_resolve (iaa : InputArgArray) (idx : ℕ) :
    (iaa.resolve idx).unresolved = iaa.unresolved.filter (· ≠ idx) := by
  unfold unresolved
  rw [List.filter_filter]
  apply List.filter_congr
  intro i _
  by_cases hi : i = idx
  · simp [resolve, hi]
  · simp [resolve, hi]

theorem unresolved_resolve_split {before after : List ℕ} {idx : ℕ}
    (h : iaa.unresolved = before ++ idx :: after) :
    (iaa.resolve idx).unresolved = before ++ after := by
  have hnodup := nodup_unresolved iaa
  rw [h, List.nodup_middle, List.nodup_cons] at hnodup
  have hne : ∀ i ∈ before ++ after, i ≠ idx := by
    intro i hi he
    exact hnodup.1 (he ▸ hi)
  rw [unresolved_resolve, h, List.filter_append, List.filter_cons_of_neg (by simp),
    ← List.filter_append, List.filter_eq_self.mpr (by simpa using hne)]

theorem unresolved_resolve_head {rest : List ℕ} {idx : ℕ} (h : iaa.unresolved = idx :: rest) :
    (iaa.resolve idx).unresolved = rest := by
  have hsplit : iaa.unresolved = [] ++ idx :: rest := h
  exact unresolved_resolve_split hsplit

theorem Whole.peek_shrinked (h : iaa.Whole) (index : ℕ) :
    iaaPeekArgIndex (iaaCloneShrinkedWindowAtIndex iaa index) 0 = iaa.unresolved[index]? := by
  change (unresolved (iaaCloneShrinkedWindowAtIndex iaa index))[0]? = _
  have hpeek : iaaPeekArgIndex iaa index = iaa.unresolved[index]? := rfl
  rw [iaaCloneShrinkedWindowAtIndex, hpeek]
  cases hidx : iaa.unresolved[index]? with
  | none => simp [unresolved, h.end]
  | some idx =>
    obtain ⟨hlt, hfree⟩ := h.mem_unresolved.mp (List.mem_of_getElem? hidx)
    obtain ⟨n, hn⟩ : ∃ n, iaa.args.length - idx = n + 1 := ⟨iaa.args.length - idx - 1, by omega⟩
    simp [unresolved, hn, List.range'_succ, hfree]

end InputArgArray

open InputArgArray

structure FirstSpelled (iaa : InputArgArray) (token : String) (before : List ℕ) (idx : ℕ)
    (after : List ℕ) : Prop where
  split : iaa.unresolved = before ++ idx :: after
  first : ∀ i ∈ before, strEqCi (iaa.text i) (cstr token) = false
  spelled : strEqCi (iaa.text idx) (cstr token) = true

def NotSpelled (iaa : InputArgArray) (token : String) : Prop :=
  ∀ i ∈ iaa.unresolved, strEqCi (iaa.text i) (cstr token) = false

theorem notSpelled_or_firstSpelled (iaa : InputArgArray) (token : String) :
    NotSpelled iaa token ∨ ∃ before idx after, FirstSpelled iaa token before idx after := by
  cases h : iaa.unresolved.find? fun i => strEqCi (iaa.text i) (cstr token) with
  | none =>
    left
    intro i hi
    simpa using List.find?_eq_none.mp h i hi
  | some idx =>
    right
    obtain ⟨hspelled, before, after, hsplit, hfirst⟩ := List.find?_eq_some_iff_append.mp h
    exact ⟨before, idx, after, hsplit, fun i hi => by simpa using hfirst i hi, hspelled⟩

variable {argDef : CommandArgDefinition} {token : String} {iaa : InputArgArray}
  {parse : InputArgArray → ArgParse} {before after : List ℕ} {idx : ℕ}

theorem parseToken_notSpelled (htoken : argDef.token = some token) (h : NotSpelled iaa token) :
    parseToken argDef parse iaa =
      .ok (if argDef.isOptional then .ok argDef.absent else .error .tokenMismatch, iaa) := by
  have hfind : (iaa.unresolved.findIdx? fun i => strEqCi (iaa.text i) (cstr token)) = none :=
    List.findIdx?_eq_none_iff.mpr h
  simp only [parseToken, htoken, hfind]

theorem FirstSpelled.findIdx? (h : FirstSpelled iaa token before idx after) :
    (iaa.unresolved.findIdx? fun i => strEqCi (iaa.text i) (cstr token)) =
      some before.length := by
  rw [h.split, List.findIdx?_append, List.findIdx?_eq_none_iff.mpr h.first, List.findIdx?_cons,
    h.spelled]
  simp

theorem FirstSpelled.peek (h : FirstSpelled iaa token before idx after) :
    iaaPeekArgIndex iaa before.length = some idx := by
  simp [iaaPeekArgIndex, h.split]

theorem parseToken_firstSpelled (htoken : argDef.token = some token)
    (h : FirstSpelled iaa token before idx after) :
    parseToken argDef parse iaa =
      (parse (iaaCloneShrinkedWindowAtIndex (iaa.resolve idx) before.length)).map
        fun (result, shrinked) =>
          (result.map fun arg => { arg with tokenPositions := idx :: arg.tokenPositions },
            { iaa.resolve idx with resolvedArgs := shrinked.resolvedArgs }) := by
  have hconsume : iaaConsumeArg iaa before.length = iaa.resolve idx := by
    simp only [iaaConsumeArg, h.peek]
  simp only [parseToken, htoken, h.findIdx?, hconsume, h.peek, Option.toList_some,
    List.singleton_append]

def CommandArgType.TakesOperand (type : CommandArgType) : Prop :=
  type ≠ .oneOf ∧ type ≠ .pureToken
  deriving Decidable

theorem parseArgument_operand {alternatives : InputArgArray → ArgParse}
    (htype : argDef.type.TakesOperand) :
    parseArgument argDef alternatives iaa = .ok (parseOperand argDef iaa) := by
  unfold parseArgument
  split
  · exact absurd ‹_› htype.1
  · exact absurd ‹_› htype.2
  · rfl

theorem parseArgument_pureToken {alternatives : InputArgArray → ArgParse}
    (htype : argDef.type = .pureToken) : parseArgument argDef alternatives iaa =
      .ok (.ok ⟨argDef, argDef.wrap .token, [], []⟩, iaa) := by
  simp only [parseArgument, htype]

theorem parseCommandArgument_eq (argDef : CommandArgDefinition) :
    ∃ alternatives, ∀ iaa, parseCommandArgument argDef iaa =
      parseToken argDef (parseArgument argDef alternatives) iaa := by
  cases argDef with
  | mk name type isOptional token extra =>
    refine ⟨parseExtra extra, ?_⟩
    intro iaa
    rw [parseCommandArgument]

theorem parseCommandArgument_notSpelled (htoken : argDef.token = some token)
    (h : NotSpelled iaa token) : parseCommandArgument argDef iaa =
      .ok (if argDef.isOptional then .ok argDef.absent else .error .tokenMismatch, iaa) := by
  obtain ⟨alternatives, heq⟩ := parseCommandArgument_eq argDef
  rw [heq, parseToken_notSpelled htoken h]

theorem parseCommandArgument_pureToken (htoken : argDef.token = some token)
    (htype : argDef.type = .pureToken) (h : FirstSpelled iaa token before idx after) :
    parseCommandArgument argDef iaa =
      .ok (.ok ⟨argDef, argDef.wrap .token, [idx], []⟩, iaa.resolve idx) := by
  obtain ⟨alternatives, heq⟩ := parseCommandArgument_eq argDef
  rw [heq, parseToken_firstSpelled htoken h, parseArgument_pureToken htype]
  rfl

theorem FirstSpelled.peek_shrinked (hwhole : iaa.Whole)
    (h : FirstSpelled iaa token before idx after) :
    iaaPeekArgIndex (iaaCloneShrinkedWindowAtIndex (iaa.resolve idx) before.length) 0 =
      after.head? := by
  rw [(hwhole.resolve idx).peek_shrinked, unresolved_resolve_split h.split,
    List.getElem?_append_right (Nat.le_refl _), Nat.sub_self, List.head?_eq_getElem?]

theorem parseCommandArgument_noOperand (hwhole : iaa.Whole) (htoken : argDef.token = some token)
    (htype : argDef.type.TakesOperand) (hrequired : argDef.isOptional = false)
    (h : FirstSpelled iaa token before idx []) :
    parseCommandArgument argDef iaa = .ok (.error .tooFewArgs, iaa.resolve idx) := by
  obtain ⟨alternatives, heq⟩ := parseCommandArgument_eq argDef
  have hpeek := h.peek_shrinked hwhole
  rw [heq, parseToken_firstSpelled htoken h, parseArgument_operand htype, parseOperand, hpeek]
  simp only [List.head?_nil, hrequired]
  rfl

theorem parseCommandArgument_operand {operand : ℕ} (hwhole : iaa.Whole)
    (htoken : argDef.token = some token) (htype : argDef.type.TakesOperand)
    (h : FirstSpelled iaa token before idx (operand :: after)) :
    parseCommandArgument argDef iaa =
      .ok (match readOperand argDef.type (iaa.text operand) with
        | none => .error .typeMismatch
        | some value => .ok ⟨argDef, argDef.wrap value, [idx], [operand]⟩,
        (iaa.resolve idx).resolve operand) := by
  obtain ⟨alternatives, heq⟩ := parseCommandArgument_eq argDef
  have hpeek := h.peek_shrinked hwhole
  rw [heq, parseToken_firstSpelled htoken h, parseArgument_operand htype, parseOperand, hpeek,
    iaaConsumeArg, hpeek]
  simp only [List.head?_cons]
  have htext : (iaaCloneShrinkedWindowAtIndex (iaa.resolve idx) before.length).text operand =
      iaa.text operand := rfl
  rw [htext]
  cases readOperand argDef.type (iaa.text operand) with
  | none => rfl
  | some value => rfl

theorem parseCommandArgument_plain {rest : List ℕ} (htoken : argDef.token = none)
    (htype : argDef.type.TakesOperand) (h : iaa.unresolved = idx :: rest) :
    parseCommandArgument argDef iaa =
      .ok (match readOperand argDef.type (iaa.text idx) with
        | none => .error .typeMismatch
        | some value => .ok ⟨argDef, argDef.wrap value, [], [idx]⟩, iaa.resolve idx) := by
  obtain ⟨alternatives, heq⟩ := parseCommandArgument_eq argDef
  have hpeek : iaaPeekArgIndex iaa 0 = some idx := by simp [iaaPeekArgIndex, h]
  rw [heq, parseToken, htoken]
  simp only []
  rw [parseArgument_operand htype, parseOperand, hpeek]
  simp only [iaaConsumeArg, hpeek]
  cases readOperand argDef.type (iaa.text idx) with
  | none => rfl
  | some value => rfl

theorem parseCommandArgument_missing (htoken : argDef.token = none)
    (htype : argDef.type.TakesOperand) (hrequired : argDef.isOptional = false)
    (h : iaa.unresolved = []) :
    parseCommandArgument argDef iaa = .ok (.error .tooFewArgs, iaa) := by
  obtain ⟨alternatives, heq⟩ := parseCommandArgument_eq argDef
  have hpeek : iaaPeekArgIndex iaa 0 = none := by simp [iaaPeekArgIndex, h]
  rw [heq, parseToken, htoken]
  simp only []
  rw [parseArgument_operand htype, parseOperand, hpeek]
  simp only [hrequired]
  rfl

theorem parseCommandArgument_plain_ok {arg : CommandArg} {iaa' : InputArgArray}
    (htoken : argDef.token = none) (htype : argDef.type.TakesOperand)
    (hrequired : argDef.isOptional = false)
    (h : parseCommandArgument argDef iaa = .ok (.ok arg, iaa')) :
    ∃ idx rest value, iaa.unresolved = idx :: rest ∧
      readOperand argDef.type (iaa.text idx) = some value ∧
      arg = ⟨argDef, value, [], [idx]⟩ ∧ iaa' = iaa.resolve idx := by
  cases hfree : iaa.unresolved with
  | nil =>
    rw [parseCommandArgument_missing htoken htype hrequired hfree] at h
    cases h
  | cons idx rest =>
    rw [parseCommandArgument_plain htoken htype hfree] at h
    cases hread : readOperand argDef.type (iaa.text idx) with
    | none =>
      rw [hread] at h
      cases h
    | some value =>
      rw [hread] at h
      cases h
      refine ⟨idx, rest, value, rfl, hread, ?_, rfl⟩
      simp [CommandArgDefinition.wrap, hrequired]

/-- An alternative that only its token announces. -/
structure Announced (argDef : CommandArgDefinition) (token : String) : Prop where
  token : argDef.token = some token
  required : argDef.isOptional = false

def NoneSpelled (iaa : InputArgArray) (argDefs : List CommandArgDefinition) : Prop :=
  ∀ argDef ∈ argDefs, ∃ token, Announced argDef token ∧ NotSpelled iaa token

/-- Alternatives that are not announced are passed over. -/
theorem parseAlternatives_append {skipped : List CommandArgDefinition}
    (h : NoneSpelled iaa skipped) (argDefs : List CommandArgDefinition) :
    parseAlternatives (skipped ++ argDefs) iaa = parseAlternatives argDefs iaa := by
  induction skipped with
  | nil => rfl
  | cons argDef skipped ih =>
    obtain ⟨token, hannounced, hnot⟩ := h argDef List.mem_cons_self
    have hrest := ih fun d hd => h d (List.mem_cons_of_mem _ hd)
    rw [List.cons_append, parseAlternatives, parseCommandArgument_notSpelled hannounced.token hnot,
      hannounced.required]
    exact hrest

theorem parseAlternatives_none {argDefs : List CommandArgDefinition}
    (h : NoneSpelled iaa argDefs) :
    parseAlternatives argDefs iaa = .ok (.error .tokenMismatch, iaa) := by
  have happend := parseAlternatives_append h []
  rw [List.append_nil] at happend
  rw [happend, parseAlternatives]

/-- Whatever an alternative comes to, once it is announced, the search stops there. -/
theorem parseAlternatives_cons {parsed : Except CommandArgParseResult CommandArg}
    {iaa' : InputArgArray} (h : parseCommandArgument argDef iaa = .ok (parsed, iaa'))
    (hcode : parsed ≠ .error .tokenMismatch) (argDefs : List CommandArgDefinition) :
    parseAlternatives (argDef :: argDefs) iaa = .ok (parsed, iaa') := by
  rw [parseAlternatives, h]
  cases parsed with
  | ok arg => rfl
  | error code => cases code <;> first | rfl | exact absurd rfl hcode

theorem parseOneOf_optional {parsed : Except CommandArgParseResult CommandArg}
    (hoptional : argDef.isOptional = true) (hcode : parsed ≠ .error .tokenMismatch) :
    parseOneOf argDef (parsed, iaa) =
      (parsed.map fun arg => { arg with value := .option (some arg.value) }, iaa) := by
  cases parsed with
  | ok arg => simp only [parseOneOf, CommandArgDefinition.wrap, hoptional, if_true, Except.map]
  | error code => cases code <;> first | rfl | exact absurd rfl hcode

theorem parseCommandArgument_oneOf (name : String) (isOptional : Bool)
    (argDefs : List CommandArgDefinition) (iaa : InputArgArray) :
    parseCommandArgument (commandArgOneOf name isOptional argDefs) iaa =
      (parseAlternatives argDefs iaa).map (parseOneOf (commandArgOneOf name isOptional argDefs)) := by
  rw [commandArgOneOf, parseCommandArgument, parseToken, CommandArgDefinition.token]
  simp only []
  rw [parseArgument, CommandArgDefinition.type]
  simp only []
  rw [parseExtra]

theorem parseDefinitions_cons {arg : CommandArg} {iaa' : InputArgArray}
    (h : parseCommandArgument argDef iaa = .ok (.ok arg, iaa'))
    (argDefs : List CommandArgDefinition) :
    parseDefinitions (argDef :: argDefs) iaa =
      (parseDefinitions argDefs iaa').map fun (result, iaa) => (result.map (arg :: ·), iaa) := by
  rw [parseDefinitions, h]

theorem parseDefinitions_cons_ok {argDefs : List CommandArgDefinition} {args : List CommandArg}
    {iaa' : InputArgArray} :
    parseDefinitions (argDef :: argDefs) iaa = .ok (.ok args, iaa') ↔
      ∃ arg left rest, parseCommandArgument argDef iaa = .ok (.ok arg, left) ∧
        parseDefinitions argDefs left = .ok (.ok rest, iaa') ∧ args = arg :: rest := by
  constructor
  · intro h
    rw [parseDefinitions] at h
    split at h
    · cases h
    · cases h
    · rename_i arg left harg
      cases hrest : parseDefinitions argDefs left with
      | error stop =>
        rw [hrest] at h
        cases h
      | ok parsed =>
        obtain ⟨result, last⟩ := parsed
        rw [hrest] at h
        cases result with
        | error code => cases h
        | ok rest =>
          cases h
          exact ⟨arg, left, rest, harg, hrest, rfl⟩
  · rintro ⟨arg, left, rest, harg, hrest, rfl⟩
    rw [parseDefinitions_cons harg, hrest]
    rfl

theorem parseCommandArguments_ok {argDefs : List CommandArgDefinition}
    {inputArgs : List (List UInt8)} {args : List CommandArg} :
    parseCommandArguments argDefs inputArgs = .ok (.ok args) ↔
      ∃ left, parseDefinitions argDefs (iaaCreate inputArgs) = .ok (.ok args, left) ∧
        left.unresolved = [] := by
  rw [parseCommandArguments]
  cases parseDefinitions argDefs (iaaCreate inputArgs) with
  | error stop => simp [Except.map]
  | ok parsed =>
    obtain ⟨result, left⟩ := parsed
    cases result with
    | error code => simp [Except.map]
    | ok parsedArgs =>
      cases hleft : left.unresolved with
      | nil => simp [Except.map, iaaPeekArgIndex, hleft]
      | cons i rest => simp [Except.map, iaaPeekArgIndex, hleft]

end Redic
