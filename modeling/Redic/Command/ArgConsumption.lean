import Redic.Command.ArgShape
import Redic.Command.SetArguments

/-! # Every argument is used exactly once

A definition takes free positions of its window and marks them, as its token or as its operand,
and an alternative that does not find its token marks nothing. So the positions of all parsed
arguments together are the positions of the command, each of them once.
-/
namespace Redic
open InputArgArray

/-- The definition itself, or one of its alternatives at any depth. -/
inductive CommandArgDefinition.Offers : CommandArgDefinition → CommandArgDefinition → Prop
  | own (argDef : CommandArgDefinition) : Offers argDef argDef
  | alternative {name : String} {isOptional : Bool} {token : Option String}
    {argDefs : List CommandArgDefinition} {other definition : CommandArgDefinition}
    (hmem : other ∈ argDefs) (h : Offers other definition) :
    Offers (.mk name .oneOf isOptional token (.argArr argDefs)) definition

/-- The input arguments an argument was made of. -/
def CommandArg.positions (arg : CommandArg) : List ℕ := arg.tokenPositions ++ arg.operandPositions

/-- The slot of a definition holds an argument of its own: each token position spells the token of
the definition or of an alternative, and an operand can be read as the definition met in the end. -/
structure FillsDefinition (args : List (List UInt8)) (argDef : CommandArgDefinition)
    (arg : CommandArg) : Prop where
  definition : argDef.Offers arg.definition
  tokens : ∀ i ∈ arg.tokenPositions, ∃ text other token, args[i]? = some text ∧
    argDef.Offers other ∧ other.token = some token ∧ strEqCi text (cstr token) = true
  operands : ∀ i ∈ arg.operandPositions, ∃ text, args[i]? = some text ∧
    (readOperand arg.definition.type text).isSome = true

/-- The flags that are new are those of the positions, each of them free before. -/
structure Consumes (iaa iaa' : InputArgArray) (positions : List ℕ) : Prop where
  args : iaa'.args = iaa.args
  start : iaa'.start = iaa.start
  «end» : iaa'.end = iaa.end
  nodup : positions.Nodup
  free : ∀ i ∈ positions, i < iaa.args.length ∧ iaa.resolvedArgs i = false
  flags : ∀ i, iaa'.resolvedArgs i = true ↔ iaa.resolvedArgs i = true ∨ i ∈ positions

def InputArgArray.Bounded (iaa : InputArgArray) : Prop := iaa.end ≤ iaa.args.length

section Consumption

variable {iaa iaa' iaa'' : InputArgArray} {positions positions' : List ℕ} {idx : ℕ}

theorem Consumes.refl (iaa : InputArgArray) : Consumes iaa iaa [] :=
  ⟨rfl, rfl, rfl, List.nodup_nil, by simp, by simp⟩

theorem Consumes.bounded (h : Consumes iaa iaa' positions) (hbounded : iaa.Bounded) :
    iaa'.Bounded := by
  rw [Bounded, h.args, h.end]
  exact hbounded

theorem Consumes.trans (h : Consumes iaa iaa' positions) (h' : Consumes iaa' iaa'' positions') :
    Consumes iaa iaa'' (positions ++ positions') where
  args := h'.args.trans h.args
  start := h'.start.trans h.start
  «end» := h'.end.trans h.end
  nodup := by
    refine List.nodup_append'.mpr ⟨h.nodup, h'.nodup, ?_⟩
    intro i hi hi'
    have hset : iaa'.resolvedArgs i = true := (h.flags i).mpr (Or.inr hi)
    rw [(h'.free i hi').2] at hset
    cases hset
  free := by
    intro i hi
    rcases List.mem_append.mp hi with hi | hi
    · exact h.free i hi
    · obtain ⟨hlt, hfree⟩ := h'.free i hi
      rw [h.args] at hlt
      refine ⟨hlt, ?_⟩
      by_contra hset
      have hkept := (h.flags i).mpr (Or.inl (by simpa using hset))
      rw [hfree] at hkept
      cases hkept
  flags := by
    intro i
    rw [h'.flags, h.flags, List.mem_append, or_assoc]

theorem mem_unresolved {i : ℕ} : i ∈ iaa.unresolved ↔
    (iaa.start ≤ i ∧ i < iaa.end) ∧ iaa.resolvedArgs i = false := by
  rw [unresolved, List.mem_filter, List.mem_range'_1]
  simp only [Bool.not_eq_true', and_congr_left_iff]
  intro _
  omega

theorem consumes_resolve (hbounded : iaa.Bounded) (h : idx ∈ iaa.unresolved) :
    Consumes iaa (iaa.resolve idx) [idx] where
  args := rfl
  start := rfl
  «end» := rfl
  nodup := List.nodup_singleton idx
  free := by
    obtain ⟨⟨-, hlt⟩, hfree⟩ := mem_unresolved.mp h
    exact List.forall_mem_singleton.mpr ⟨Nat.lt_of_lt_of_le hlt hbounded, hfree⟩
  flags := by
    intro i
    change Function.update iaa.resolvedArgs idx true i = true ↔ _
    rw [Function.update_apply, List.mem_singleton]
    split <;> simp_all

theorem bounded_shrinked (hbounded : iaa.Bounded) (index : ℕ) :
    (iaaCloneShrinkedWindowAtIndex iaa index).Bounded := by
  have hstart : (iaaPeekArgIndex iaa index).getD iaa.end ≤ iaa.args.length := by
    cases hpeek : iaaPeekArgIndex iaa index with
    | none => exact hbounded
    | some i =>
      have hmem := (mem_unresolved.mp (List.mem_of_getElem? hpeek)).1.2
      exact Nat.le_of_lt (Nat.lt_of_lt_of_le hmem hbounded)
  have htake := (List.takeWhile_sublist (fun i => !iaa.resolvedArgs i)
    (l := List.range' ((iaaPeekArgIndex iaa index).getD iaa.end)
      (iaa.args.length - (iaaPeekArgIndex iaa index).getD iaa.end))).length_le
  rw [List.length_range'] at htake
  change (iaaPeekArgIndex iaa index).getD iaa.end + _ ≤ iaa.args.length
  omega

theorem Consumes.shrinked {index : ℕ}
    (h : Consumes (iaaCloneShrinkedWindowAtIndex iaa index) iaa' positions) :
    Consumes iaa { iaa with resolvedArgs := iaa'.resolvedArgs } positions :=
  ⟨rfl, rfl, rfl, h.nodup, h.free, h.flags⟩

end Consumption

theorem map_eq_ok {ε α β : Type} {x : Except ε α} {f : α → β} {b : β} :
    x.map f = .ok b ↔ ∃ a, x = .ok a ∧ f a = b := by
  cases x with
  | error e => simp [Except.map]
  | ok a => simp [Except.map]

section Mismatch

variable {argDef : CommandArgDefinition} {iaa iaa' : InputArgArray} {code : CommandArgParseResult}

theorem parseOperand_ne_tokenMismatch (h : parseOperand argDef iaa = (.error code, iaa')) :
    code ≠ .tokenMismatch := by
  unfold parseOperand at h
  split at h
  · split at h <;> cases h
    decide
  · split at h <;> cases h
    decide

theorem parseOneOf_ne_tokenMismatch
    {found : Except CommandArgParseResult CommandArg × InputArgArray}
    (h : parseOneOf argDef found = (.error code, iaa')) : code ≠ .tokenMismatch := by
  unfold parseOneOf at h
  split at h
  · cases h
  · split at h <;> cases h
    decide
  · rename_i hcode
    cases h
    exact hcode

theorem parseArgument_ne_tokenMismatch {alternatives : InputArgArray → ArgParse}
    (h : parseArgument argDef alternatives iaa = .ok (.error code, iaa')) :
    code ≠ .tokenMismatch := by
  unfold parseArgument at h
  split at h
  · cases halternatives : alternatives iaa with
    | error stop =>
      rw [halternatives] at h
      cases h
    | ok found =>
      rw [halternatives] at h
      exact parseOneOf_ne_tokenMismatch (Except.ok.inj h)
  · cases h
  · exact parseOperand_ne_tokenMismatch (Except.ok.inj h)

/-- A token mismatch is reported by the search for the token alone, which marks nothing. -/
theorem parseCommandArgument_tokenMismatch
    (h : parseCommandArgument argDef iaa = .ok (.error .tokenMismatch, iaa')) : iaa' = iaa := by
  obtain ⟨alternatives, heq⟩ := parseCommandArgument_eq argDef
  rw [heq] at h
  cases htoken : argDef.token with
  | none =>
    simp only [parseToken, htoken] at h
    exact absurd rfl (parseArgument_ne_tokenMismatch h)
  | some token =>
    rcases notSpelled_or_firstSpelled iaa token with hnot | ⟨before, idx, after, hfirst⟩
    · rw [parseToken_notSpelled htoken hnot] at h
      exact (congrArg Prod.snd (Except.ok.inj h)).symm
    · rw [parseToken_firstSpelled htoken hfirst] at h
      obtain ⟨⟨result, left⟩, hparse, hresult⟩ := map_eq_ok.mp h
      cases result with
      | ok arg => cases hresult
      | error code =>
        cases hresult
        exact absurd rfl (parseArgument_ne_tokenMismatch hparse)

theorem parseAlternatives_skip {argDefs : List CommandArgDefinition}
    (h : parseCommandArgument argDef iaa = .ok (.error .tokenMismatch, iaa')) :
    parseAlternatives (argDef :: argDefs) iaa = parseAlternatives argDefs iaa := by
  obtain rfl := parseCommandArgument_tokenMismatch h
  rw [parseAlternatives, h]

/-- The alternatives come to what the first one comes to, or pass it over. -/
theorem parseAlternatives_cons_cases {argDefs : List CommandArgDefinition}
    {result : Except CommandArgParseResult CommandArg}
    (h : parseAlternatives (argDef :: argDefs) iaa = .ok (result, iaa')) :
    parseAlternatives argDefs iaa = .ok (result, iaa') ∨
      parseCommandArgument argDef iaa = .ok (result, iaa') ∧ result ≠ .error .tokenMismatch := by
  cases hparse : parseCommandArgument argDef iaa with
  | error stop =>
    rw [parseAlternatives, hparse] at h
    cases h
  | ok first =>
    obtain ⟨found, left⟩ := first
    by_cases hcode : found = .error .tokenMismatch
    · subst hcode
      rw [parseAlternatives_skip hparse] at h
      exact Or.inl h
    · rw [parseAlternatives_cons hparse hcode] at h
      cases h
      exact Or.inr ⟨rfl, hcode⟩

theorem parseAlternatives_tokenMismatch {argDefs : List CommandArgDefinition}
    (h : parseAlternatives argDefs iaa = .ok (.error .tokenMismatch, iaa')) : iaa' = iaa := by
  induction argDefs with
  | nil =>
    cases h
    rfl
  | cons argDef argDefs ih =>
    rcases parseAlternatives_cons_cases h with hrest | ⟨-, hcode⟩
    · exact ih hrest
    · exact absurd rfl hcode

end Mismatch

/-- What is parsed marks the positions of its argument, and fills the slot. -/
def Accounts (iaa : InputArgArray) (parse : ArgParse) (P : CommandArg → Prop) : Prop :=
  ∀ arg iaa', parse = .ok (.ok arg, iaa') → Consumes iaa iaa' arg.positions ∧ P arg

section Parse

variable {iaa : InputArgArray} {argDef : CommandArgDefinition}

theorem fillsDefinition_absent (args : List (List UInt8)) (argDef : CommandArgDefinition) :
    FillsDefinition args argDef argDef.absent :=
  ⟨.own argDef, fun _ h => absurd h List.not_mem_nil, fun _ h => absurd h List.not_mem_nil⟩

theorem text_eq {i : ℕ} (h : i < iaa.args.length) : iaa.args[i]? = some (iaa.text i) := by
  rw [text, List.getD_eq_getElem?_getD, List.getElem?_eq_getElem h, Option.getD_some]

theorem parseOperand_accounts (argDef : CommandArgDefinition) (hbounded : iaa.Bounded) :
    Accounts iaa (.ok (parseOperand argDef iaa)) (FillsDefinition iaa.args argDef) := by
  intro arg iaa' h
  simp only [Except.ok.injEq, parseOperand] at h
  cases hpeek : iaaPeekArgIndex iaa 0 with
  | none =>
    simp only [hpeek] at h
    split at h <;> cases h
    exact ⟨Consumes.refl iaa, fillsDefinition_absent _ _⟩
  | some idx =>
    simp only [hpeek, iaaConsumeArg] at h
    have hmem : idx ∈ iaa.unresolved := List.mem_of_getElem? hpeek
    have hconsumes := consumes_resolve hbounded hmem
    split at h
    · cases h
    · rename_i value hread
      cases h
      refine ⟨hconsumes, .own argDef, fun _ h => absurd h List.not_mem_nil, ?_⟩
      refine List.forall_mem_singleton.mpr ⟨iaa.text idx, ?_, by rw [hread]; rfl⟩
      exact text_eq (hconsumes.free idx List.mem_cons_self).1

theorem parseToken_accounts {parse : InputArgArray → ArgParse} (hbounded : iaa.Bounded)
    (h : ∀ start : InputArgArray, start.Bounded → start.args = iaa.args →
      Accounts start (parse start) (FillsDefinition iaa.args argDef)) :
    Accounts iaa (parseToken argDef parse iaa) (FillsDefinition iaa.args argDef) := by
  intro arg iaa' hparse
  cases htoken : argDef.token with
  | none =>
    simp only [parseToken, htoken] at hparse
    exact h iaa hbounded rfl arg iaa' hparse
  | some token =>
    rcases notSpelled_or_firstSpelled iaa token with hnot | ⟨before, idx, after, hfirst⟩
    · rw [parseToken_notSpelled htoken hnot] at hparse
      have hresult := Except.ok.inj hparse
      split at hresult <;> cases hresult
      exact ⟨Consumes.refl iaa, fillsDefinition_absent _ _⟩
    · rw [parseToken_firstSpelled htoken hfirst] at hparse
      obtain ⟨⟨result, left⟩, hinner, hresult⟩ := map_eq_ok.mp hparse
      cases result with
      | error code => cases hresult
      | ok found =>
        cases hresult
        have hmem : idx ∈ iaa.unresolved := by simp [hfirst.split]
        have htaken := consumes_resolve hbounded hmem
        obtain ⟨hconsumes, hfills⟩ := h _ (bounded_shrinked (htaken.bounded hbounded) _) rfl _ _
          hinner
        refine ⟨htaken.trans hconsumes.shrinked, hfills.definition, ?_, hfills.operands⟩
        refine List.forall_mem_cons.mpr ⟨?_, hfills.tokens⟩
        exact ⟨iaa.text idx, argDef, token, text_eq (htaken.free idx List.mem_cons_self).1,
          .own argDef, htoken, hfirst.spelled⟩

mutual
theorem parseCommandArgument_accounts (argDef : CommandArgDefinition) (iaa : InputArgArray)
    (hbounded : iaa.Bounded) :
    Accounts iaa (parseCommandArgument argDef iaa) (FillsDefinition iaa.args argDef) := by
  cases argDef with
  | mk name type isOptional token extra =>
    unfold parseCommandArgument
    refine parseToken_accounts hbounded ?_
    intro start hstart hargs
    rw [← hargs]
    cases type with
    | oneOf => exact parseExtra_accounts name isOptional token extra start hstart
    | pureToken =>
      intro arg iaa' h
      cases h
      exact ⟨Consumes.refl start, .own _, fun _ h => absurd h List.not_mem_nil,
        fun _ h => absurd h List.not_mem_nil⟩
    | _ => exact parseOperand_accounts _ hstart

theorem parseExtra_accounts (name : String) (isOptional : Bool) (token : Option String)
    (extra : CommandArgDefinitionExtra) (iaa : InputArgArray) (hbounded : iaa.Bounded) :
    let argDef := CommandArgDefinition.mk name .oneOf isOptional token extra
    Accounts iaa ((parseExtra extra iaa).map (parseOneOf argDef))
      (FillsDefinition iaa.args argDef) := by
  intro argDef arg iaa' h
  cases extra with
  | descr description => cases h
  | argArr argDefs =>
    rw [parseExtra] at h
    obtain ⟨⟨result, left⟩, hparse, hresult⟩ := map_eq_ok.mp h
    cases result with
    | ok found =>
      obtain ⟨hconsumes, other, hmem, hfills⟩ :=
        parseAlternatives_accounts argDefs iaa hbounded found left hparse
      cases hresult
      refine ⟨hconsumes, .alternative hmem hfills.definition, ?_, hfills.operands⟩
      intro i hi
      obtain ⟨text, definition, word, htext, hoffers, hword, hspelled⟩ := hfills.tokens i hi
      exact ⟨text, definition, word, htext, .alternative hmem hoffers, hword, hspelled⟩
    | error code =>
      cases code with
      | tokenMismatch =>
        simp only [parseOneOf] at hresult
        obtain rfl := parseAlternatives_tokenMismatch hparse
        split at hresult <;> cases hresult
        exact ⟨Consumes.refl _, fillsDefinition_absent _ _⟩
      | _ => cases hresult

theorem parseAlternatives_accounts (argDefs : List CommandArgDefinition) (iaa : InputArgArray)
    (hbounded : iaa.Bounded) : Accounts iaa (parseAlternatives argDefs iaa)
      fun arg => ∃ other ∈ argDefs, FillsDefinition iaa.args other arg := by
  intro arg iaa' h
  cases argDefs with
  | nil => cases h
  | cons argDef argDefs =>
    rcases parseAlternatives_cons_cases h with hrest | ⟨hfirst, -⟩
    · obtain ⟨hconsumes, other, hmem, hfills⟩ :=
        parseAlternatives_accounts argDefs iaa hbounded arg iaa' hrest
      exact ⟨hconsumes, other, List.mem_cons_of_mem _ hmem, hfills⟩
    · obtain ⟨hconsumes, hfills⟩ :=
        parseCommandArgument_accounts argDef iaa hbounded arg iaa' hfirst
      exact ⟨hconsumes, argDef, List.mem_cons_self, hfills⟩
end

theorem parseDefinitions_accounts {argDefs : List CommandArgDefinition} {args : List CommandArg}
    {iaa iaa' : InputArgArray} (hbounded : iaa.Bounded)
    (h : parseDefinitions argDefs iaa = .ok (.ok args, iaa')) :
    Consumes iaa iaa' (args.flatMap CommandArg.positions) ∧
      List.Forall₂ (FillsDefinition iaa.args) argDefs args := by
  induction argDefs generalizing iaa args with
  | nil =>
    cases h
    exact ⟨Consumes.refl _, .nil⟩
  | cons argDef argDefs ih =>
    obtain ⟨arg, left, rest, harg, hrest, rfl⟩ := parseDefinitions_cons_ok.mp h
    obtain ⟨hfirst, hfills⟩ := parseCommandArgument_accounts argDef iaa hbounded arg left harg
    obtain ⟨hothers, hall⟩ := ih (hfirst.bounded hbounded) hrest
    rw [hfirst.args] at hall
    exact ⟨hfirst.trans hothers, .cons hfills hall⟩

end Parse

/-- A command that parses uses every argument exactly once, as a token or as an operand of the
definition of some slot; an alternative that misses its token leaves the same free arguments to
the next one; and each slot holds an argument of its own definition or of an alternative. -/
theorem parseCommandArguments_usesOnce (argDefs : List CommandArgDefinition) :
    (∀ (inputArgs : List (List UInt8)) (args : List CommandArg),
      parseCommandArguments argDefs inputArgs = .ok (.ok args) →
      (args.flatMap CommandArg.positions).Perm (List.range inputArgs.length) ∧
        List.Forall₂ (FillsDefinition inputArgs) argDefs args) ∧
    (∀ (iaa iaa' : InputArgArray) (arg : CommandArg), iaa.Bounded → ∀ argDef,
      parseCommandArgument argDef iaa = .ok (.ok arg, iaa') → Consumes iaa iaa' arg.positions) ∧
    (∀ (iaa iaa' : InputArgArray) (argDef : CommandArgDefinition),
      parseCommandArgument argDef iaa = .ok (.error .tokenMismatch, iaa') → iaa' = iaa ∧
        parseAlternatives (argDef :: argDefs) iaa = parseAlternatives argDefs iaa) := by
  refine ⟨?_, ?_, ?_⟩
  · intro inputArgs args h
    obtain ⟨left, hparse, hnone⟩ := parseCommandArguments_ok.mp h
    have hbounded : (iaaCreate inputArgs).Bounded := Nat.le_refl _
    obtain ⟨hconsumes, hfills⟩ := parseDefinitions_accounts hbounded hparse
    refine ⟨(List.perm_ext_iff_of_nodup hconsumes.nodup List.nodup_range).mpr ?_, hfills⟩
    intro i
    rw [List.mem_range]
    constructor
    · intro hi
      exact (hconsumes.free i hi).1
    · intro hlt
      by_contra hi
      -- a position that nobody took is still free in the end
      have hfree : left.resolvedArgs i = false := by
        rw [Bool.eq_false_iff, Ne, hconsumes.flags]
        rintro (hset | htaken)
        · cases hset
        · exact hi htaken
      have hwindow : left.start ≤ i ∧ i < left.end := by
        rw [hconsumes.start, hconsumes.end]
        exact ⟨Nat.zero_le i, hlt⟩
      have hmem := mem_unresolved.mpr ⟨hwindow, hfree⟩
      rw [hnone] at hmem
      cases hmem
  · intro iaa iaa' arg hbounded argDef h
    exact (parseCommandArgument_accounts argDef iaa hbounded arg iaa' h).1
  · intro iaa iaa' argDef h
    exact ⟨parseCommandArgument_tokenMismatch h, parseAlternatives_skip h⟩

/-- A SET whose clauses come in the reverse order. The parse of the expiration passes over the
alternative of `EX` and takes that of `PX`. -/
theorem parseCommandArguments_usesOnce_reversed :
    let inputArgs := [cstr "k", cstr "v", cstr "px", cstr "10", cstr "GET", cstr "XX"]
    let iaa := iaaCreate inputArgs
    let seconds := commandArg "seconds" .integer false (some "EX")
    let milliseconds := commandArg "milliseconds" .integer false (some "PX")
    ∃ args arg iaa',
      parseCommandArguments setArgDefs inputArgs = .ok (.ok args) ∧
      args.map CommandArg.positions = [[0], [1], [5], [4], [2, 3]] ∧
      (args.flatMap CommandArg.positions).Perm (List.range 6) ∧
      List.Forall₂ (FillsDefinition inputArgs) setArgDefs args ∧
      parseCommandArgument milliseconds iaa = .ok (.ok arg, iaa') ∧ arg.positions = [2, 3] ∧
      Consumes iaa iaa' arg.positions ∧
      parseAlternatives [seconds, milliseconds] iaa = parseAlternatives [milliseconds] iaa := by
  intro inputArgs iaa seconds milliseconds
  have hparse : ((parseCommandArguments setArgDefs inputArgs).toOption.bind Except.toOption).map
      (List.map CommandArg.positions) = some [[0], [1], [5], [4], [2, 3]] := by
    decide +kernel
  have htaken : ((parseCommandArgument milliseconds iaa).toOption.bind fun parsed =>
      parsed.1.toOption.map fun arg => (arg, parsed.2)).map (fun taken => taken.1.positions) =
        some [2, 3] := by
    decide +kernel
  have hmissed : NotSpelled iaa "EX" := by
    unfold NotSpelled
    decide +kernel
  obtain ⟨args, hargs, hpositions⟩ := Option.map_eq_some_iff.mp hparse
  obtain ⟨result, hresult, hargs⟩ := Option.bind_eq_some_iff.mp hargs
  obtain rfl := eq_ok_of_toOption hargs
  obtain ⟨⟨arg, left⟩, harg, hpositions'⟩ := Option.map_eq_some_iff.mp htaken
  obtain ⟨⟨result, iaa'⟩, hresult', harg⟩ := Option.bind_eq_some_iff.mp harg
  obtain ⟨found, hfound, heq⟩ := Option.map_eq_some_iff.mp harg
  obtain rfl := eq_ok_of_toOption hfound
  cases heq
  have hargs := eq_ok_of_toOption hresult
  have harg := eq_ok_of_toOption hresult'
  obtain ⟨hperm, hfills⟩ := (parseCommandArguments_usesOnce setArgDefs).1 inputArgs args hargs
  have hconsumes := (parseCommandArguments_usesOnce setArgDefs).2.1 iaa iaa' arg (Nat.le_refl _)
    milliseconds harg
  have hskip := ((parseCommandArguments_usesOnce [milliseconds]).2.2 iaa iaa seconds
    (parseCommandArgument_notSpelled rfl hmissed)).2
  exact ⟨args, arg, iaa', hargs, hpositions, hperm, hfills, harg, hpositions', hconsumes, hskip⟩

end Redic
