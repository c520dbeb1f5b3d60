import Redic.Command.ArgWindow

/-! # The shape of parsed arguments

The parser gives every definition a value of the definition's type, read from one of the
arguments, and wraps it when the definition is optional. It ends the process only at a definition
that has to choose and holds no alternatives.
-/
namespace Redic
open InputArgArray

/-- A value that a definition of the type reads; an argument that is not there is empty. -/
inductive Reading (args : List (List UInt8)) : CommandArgType → CommandArgValue → Prop
  | operand {type : CommandArgType} {text : List UInt8} {value : CommandArgValue}
    (hmem : text ∈ [] :: args) (h : readOperand type text = some value) : Reading args type value
  | token : Reading args .pureToken .token

/-- What a definition comes to: the definition that is met in the end, and the value. -/
inductive Produced (args : List (List UInt8)) :
    CommandArgDefinition → CommandArgDefinition → CommandArgValue → Prop
  | absent {argDef : CommandArgDefinition} (h : argDef.isOptional = true) :
    Produced args argDef argDef (.option none)
  | reads {argDef : CommandArgDefinition} {value : CommandArgValue}
    (h : Reading args argDef.type value) : Produced args argDef argDef (argDef.wrap value)
  | alternative {name : String} {isOptional : Bool} {token : Option String}
    {argDefs : List CommandArgDefinition} {other definition : CommandArgDefinition}
    {value : CommandArgValue} (hmem : other ∈ argDefs) (h : Produced args other definition value) :
    Produced args (.mk name .oneOf isOptional token (.argArr argDefs)) definition
      (CommandArgDefinition.wrap (.mk name .oneOf isOptional token (.argArr argDefs)) value)

theorem Produced.pureToken {args : List (List UInt8)} {name : String} {isOptional : Bool}
    {token : Option String} {definition : CommandArgDefinition} {value : CommandArgValue}
    (h : Produced args (commandArg name .pureToken isOptional token) definition value) :
    definition = commandArg name .pureToken isOptional token := by
  cases h with
  | absent hoptional => rfl
  | reads hreading => rfl

mutual
/-- Where there is a choice, there are alternatives. -/
def CommandArgDefinition.Sound : CommandArgDefinition → Prop
  | .mk _ type _ _ extra => type = .oneOf → extra.Sound

def CommandArgDefinitionExtra.Sound : CommandArgDefinitionExtra → Prop
  | .argArr argDefs => AllSound argDefs
  | .descr _ => False

def AllSound : List CommandArgDefinition → Prop
  | [] => True
  | argDef :: argDefs => argDef.Sound ∧ AllSound argDefs
end

/-- The parser returns, keeps the arguments, and has produced what it returns. -/
structure Parses (iaa : InputArgArray) (parse : ArgParse)
    (P : CommandArgDefinition → CommandArgValue → Prop) : Prop where
  returns : ∃ result iaa', parse = .ok (result, iaa') ∧ iaa'.args = iaa.args ∧
    ∀ arg, result = .ok arg → P arg.definition arg.value

variable {iaa : InputArgArray} {argDef : CommandArgDefinition}
  {P : CommandArgDefinition → CommandArgValue → Prop}

theorem Parses.intro {parse : ArgParse} {arg : CommandArg} {iaa' : InputArgArray}
    (hparse : parse = .ok (.ok arg, iaa')) (hargs : iaa'.args = iaa.args)
    (harg : P arg.definition arg.value) : Parses iaa parse P := by
  refine ⟨_, _, hparse, hargs, ?_⟩
  intro found hfound
  cases hfound
  exact harg

theorem Parses.failed {parse : ArgParse} {code : CommandArgParseResult} {iaa' : InputArgArray}
    (hparse : parse = .ok (.error code, iaa')) (hargs : iaa'.args = iaa.args) :
    Parses iaa parse P := by
  refine ⟨_, _, hparse, hargs, ?_⟩
  intro found hfound
  cases hfound

theorem text_mem (iaa : InputArgArray) (idx : ℕ) : iaa.text idx ∈ [] :: iaa.args := by
  rw [InputArgArray.text, List.getD_eq_getElem?_getD]
  cases hidx : iaa.args[idx]? with
  | none => exact List.mem_cons_self
  | some text => exact List.mem_cons_of_mem _ (List.mem_of_getElem? hidx)

theorem consumeArg_args (iaa : InputArgArray) (index : ℕ) :
    (iaaConsumeArg iaa index).args = iaa.args := by
  unfold iaaConsumeArg
  split <;> rfl

theorem parseOperand_parses (argDef : CommandArgDefinition) (iaa : InputArgArray) :
    Parses iaa (.ok (parseOperand argDef iaa)) (Produced iaa.args argDef) := by
  unfold parseOperand
  split
  · split
    · rename_i hoptional
      exact .intro rfl rfl (.absent hoptional)
    · exact .failed rfl rfl
  · split
    · exact .failed rfl (consumeArg_args iaa 0)
    · rename_i hread
      exact .intro rfl (consumeArg_args iaa 0) (.reads (.operand (text_mem iaa _) hread))

theorem parseToken_parses {parse : InputArgArray → ArgParse}
    (h : ∀ start, start.args = iaa.args → Parses start (parse start) P)
    (habsent : argDef.isOptional = true → P argDef (.option none)) :
    Parses iaa (parseToken argDef parse iaa) P := by
  unfold parseToken
  split
  · exact h iaa rfl
  · split
    · split
      · rename_i hoptional
        exact .intro rfl rfl (habsent hoptional)
      · exact .failed rfl rfl
    · rename_i i _
      have hargs := consumeArg_args iaa i
      obtain ⟨result, left, hparse, -, hproduced⟩ :=
        (h (iaaCloneShrinkedWindowAtIndex (iaaConsumeArg iaa i) i) hargs).returns
      cases result with
      | error code => exact .failed (congrArg (Except.map _) hparse) hargs
      | ok arg => exact .intro (congrArg (Except.map _) hparse) hargs (hproduced arg rfl)

mutual
theorem parseCommandArgument_parses (argDef : CommandArgDefinition) (hsound : argDef.Sound)
    (iaa : InputArgArray) :
    Parses iaa (parseCommandArgument argDef iaa) (Produced iaa.args argDef) := by
  cases argDef with
  | mk name type isOptional token extra =>
    unfold parseCommandArgument
    refine parseToken_parses ?_ .absent
    intro start hstart
    rw [← hstart]
    cases type with
    | oneOf => exact parseExtra_parses name isOptional token extra (hsound rfl) start
    | pureToken => exact .intro rfl rfl (.reads .token)
    | _ => exact parseOperand_parses _ start

theorem parseExtra_parses (name : String) (isOptional : Bool) (token : Option String)
    (extra : CommandArgDefinitionExtra) (hsound : extra.Sound) (iaa : InputArgArray) :
    let argDef := CommandArgDefinition.mk name .oneOf isOptional token extra
    Parses iaa ((parseExtra extra iaa).map (parseOneOf argDef)) (Produced iaa.args argDef) := by
  intro argDef
  cases extra with
  | descr description => cases hsound
  | argArr argDefs =>
    obtain ⟨result, left, hparse, hargs, hproduced⟩ :=
      (parseAlternatives_parses argDefs hsound iaa).returns
    have heq : (parseExtra (.argArr argDefs) iaa).map (parseOneOf argDef) =
        .ok (parseOneOf argDef (result, left)) := by
      rw [parseExtra, hparse]
      rfl
    rw [heq]
    cases result with
    | ok arg =>
      obtain ⟨other, hmem, hother⟩ := hproduced arg rfl
      exact .intro rfl hargs (.alternative hmem hother)
    | error code =>
      cases code with
      | tokenMismatch =>
        simp only [parseOneOf]
        split
        · rename_i hoptional
          exact .intro rfl hargs (.absent hoptional)
        · exact .failed rfl hargs
      | _ => exact .failed rfl hargs

theorem parseAlternatives_parses (argDefs : List CommandArgDefinition) (hsound : AllSound argDefs)
    (iaa : InputArgArray) : Parses iaa (parseAlternatives argDefs iaa)
      fun definition value => ∃ other ∈ argDefs, Produced iaa.args other definition value := by
  cases argDefs with
  | nil =>
    unfold parseAlternatives
    exact .failed rfl rfl
  | cons argDef argDefs =>
    obtain ⟨result, left, hparse, hargs, hproduced⟩ :=
      (parseCommandArgument_parses argDef hsound.1 iaa).returns
    unfold parseAlternatives
    rw [hparse]
    cases result with
    | ok arg => exact .intro rfl hargs ⟨argDef, List.mem_cons_self, hproduced arg rfl⟩
    | error code =>
      cases code with
      | tokenMismatch =>
        obtain ⟨result, last, hparse, hlast, hfound⟩ :=
          (parseAlternatives_parses argDefs hsound.2 left).returns
        refine ⟨result, last, hparse, hlast.trans hargs, ?_⟩
        intro arg harg
        obtain ⟨other, hmem, hother⟩ := hfound arg harg
        exact ⟨other, List.mem_cons_of_mem _ hmem, hargs ▸ hother⟩
      | _ => exact .failed rfl hargs
end

theorem parseDefinitions_produced {argDefs : List CommandArgDefinition} (hsound : AllSound argDefs)
    (iaa : InputArgArray) : ∃ result iaa', parseDefinitions argDefs iaa = .ok (result, iaa') ∧
      ∀ args, result = .ok args →
        List.Forall₂ (fun argDef arg => Produced iaa.args argDef arg.definition arg.value)
          argDefs args := by
  induction argDefs generalizing iaa with
  | nil =>
    refine ⟨_, _, rfl, ?_⟩
    intro args hargs
    cases hargs
    exact .nil
  | cons argDef argDefs ih =>
    obtain ⟨result, left, hparse, hleft, hproduced⟩ :=
      (parseCommandArgument_parses argDef hsound.1 iaa).returns
    unfold parseDefinitions
    rw [hparse]
    cases result with
    | error code =>
      refine ⟨_, _, rfl, ?_⟩
      intro args hargs
      cases hargs
    | ok arg =>
      obtain ⟨rest, last, hrest, hall⟩ := ih hsound.2 left
      refine ⟨_, _, congrArg (Except.map _) hrest, ?_⟩
      intro args hargs
      cases rest with
      | error code => cases hargs
      | ok args =>
        cases hargs
        have hothers := hall args rfl
        rw [hleft] at hothers
        exact .cons (hproduced arg rfl) hothers

theorem parseCommandArguments_returns {argDefs : List CommandArgDefinition}
    (hsound : AllSound argDefs) (inputArgs : List (List UInt8)) :
    ∃ result, parseCommandArguments argDefs inputArgs = .ok result := by
  obtain ⟨result, left, hparse, -⟩ := parseDefinitions_produced hsound (iaaCreate inputArgs)
  exact ⟨_, congrArg (Except.map _) hparse⟩

theorem parseCommandArguments_produced {argDefs : List CommandArgDefinition}
    {inputArgs : List (List UInt8)} {args : List CommandArg} (hsound : AllSound argDefs)
    (h : parseCommandArguments argDefs inputArgs = .ok (.ok args)) :
    List.Forall₂ (fun argDef arg => Produced inputArgs argDef arg.definition arg.value)
      argDefs args := by
  obtain ⟨left, hparse, -⟩ := parseCommandArguments_ok.mp h
  obtain ⟨result, left', hparse', hproduced⟩ :=
    parseDefinitions_produced hsound (iaaCreate inputArgs)
  cases hparse.symm.trans hparse'
  exact hproduced args rfl

end Redic
