import Mathlib.Logic.Function.Basic
import Redic.Command.Definition

/-! # Parsing the arguments of a command

The parser keeps a window on the input arguments and marks those it has taken. A token is looked
for among all arguments of the window that are still free; what belongs to the token is read in a
smaller window behind it. Definitions nest through their alternatives, and so do the windows.
-/
namespace Redic
open DecimalText

/-- `resolved_args` is an array of flags, one for each argument. -/
structure InputArgArray where
  args : List (List UInt8)
  resolvedArgs : ℕ → Bool
  start : ℕ
  «end» : ℕ

def iaaCreate (args : List (List UInt8)) : InputArgArray where
  args := args
  resolvedArgs := fun _ => false
  start := 0
  «end» := args.length

namespace InputArgArray

def unresolved (iaa : InputArgArray) : List ℕ :=
  (List.range' iaa.start (iaa.end - iaa.start)).filter fun i => !iaa.resolvedArgs i

def text (iaa : InputArgArray) (idx : ℕ) : List UInt8 := iaa.args.getD idx []

def resolve (iaa : InputArgArray) (idx : ℕ) : InputArgArray :=
  { iaa with resolvedArgs := Function.update iaa.resolvedArgs idx true }

end InputArgArray

def iaaPeekArgIndex (iaa : InputArgArray) (index : ℕ) : Option ℕ := iaa.unresolved[index]?

def iaaConsumeArg (iaa : InputArgArray) (index : ℕ) : InputArgArray :=
  match iaaPeekArgIndex iaa index with
  | none => iaa
  | some idx => iaa.resolve idx

/-- The window from the argument at the index up to the next one that is taken. -/
def iaaCloneShrinkedWindowAtIndex (iaa : InputArgArray) (index : ℕ) : InputArgArray :=
  let start := (iaaPeekArgIndex iaa index).getD iaa.end
  let rest := List.range' start (iaa.args.length - start)
  { iaa with start := start, «end» := start + (rest.takeWhile fun i => !iaa.resolvedArgs i).length }

/-- The result for one definition, and the flags it leaves. -/
abbrev ArgParse := Except ServerStop (Except CommandArgParseResult CommandArg × InputArgArray)

def CommandArgDefinition.wrap (argDef : CommandArgDefinition) (value : CommandArgValue) :
    CommandArgValue :=
  if argDef.isOptional then .option (some value) else value

def CommandArgDefinition.absent (argDef : CommandArgDefinition) : CommandArg :=
  ⟨argDef, .option none, [], []⟩

/-- The number of a `UNIX_TIME` is taken without a check; the argument ends in a NUL. -/
def readOperand (type : CommandArgType) (text : List UInt8) : Option CommandArgValue :=
  match type with
  | .string => some (.string text)
  | .key => some (.string text)
  | .integer => (parseInt64 text).map .integer
  | .double => some (.double text)
  | .unixTime => some (.integer (strtoll (text ++ [0])).value)
  | .oneOf => none
  | .pureToken => none

/-- The cases of the `switch` that take the next argument and read it. -/
def parseOperand (argDef : CommandArgDefinition) (iaa : InputArgArray) :
    Except CommandArgParseResult CommandArg × InputArgArray :=
  match iaaPeekArgIndex iaa 0 with
  | none => if argDef.isOptional then (.ok argDef.absent, iaa) else (.error .tooFewArgs, iaa)
  | some idx =>
    match readOperand argDef.type (iaa.text idx) with
    | none => (.error .typeMismatch, iaaConsumeArg iaa 0)
    | some value => (.ok ⟨argDef, argDef.wrap value, [], [idx]⟩, iaaConsumeArg iaa 0)

/-- The end of the loop over the alternatives. -/
def parseOneOf (argDef : CommandArgDefinition) :
    Except CommandArgParseResult CommandArg × InputArgArray →
      Except CommandArgParseResult CommandArg × InputArgArray
  | (.ok arg, iaa) => (.ok { arg with value := argDef.wrap arg.value }, iaa)
  | (.error .tokenMismatch, iaa) =>
    if argDef.isOptional then (.ok argDef.absent, iaa) else (.error .typeMismatch, iaa)
  | (.error code, iaa) => (.error code, iaa)

def parseArgument (argDef : CommandArgDefinition) (parseAlternatives : InputArgArray → ArgParse)
    (iaa : InputArgArray) : ArgParse :=
  match argDef.type with
  | .oneOf => (parseAlternatives iaa).map (parseOneOf argDef)
  | .pureToken => .ok (.ok ⟨argDef, argDef.wrap .token, [], []⟩, iaa)
  | _ => .ok (parseOperand argDef iaa)

/-- Looks for the token and parses the argument in the window behind it. -/
def parseToken (argDef : CommandArgDefinition) (parse : InputArgArray → ArgParse)
    (iaa : InputArgArray) : ArgParse :=
  match argDef.token with
  | none => parse iaa
  | some token =>
    match iaa.unresolved.findIdx? fun idx => strEqCi (iaa.text idx) (cstr token) with
    | none => .ok (if argDef.isOptional then .ok argDef.absent else .error .tokenMismatch, iaa)
    | some i =>
      let position := (iaaPeekArgIndex iaa i).toList
      let iaa := iaaConsumeArg iaa i
      (parse (iaaCloneShrinkedWindowAtIndex iaa i)).map fun (result, shrinked) =>
        (result.map fun arg => { arg with tokenPositions := position ++ arg.tokenPositions },
          { iaa with resolvedArgs := shrinked.resolvedArgs })

mutual
def parseCommandArgument : CommandArgDefinition → InputArgArray → ArgParse
  | .mk name type isOptional token extra, iaa =>
    let argDef := .mk name type isOptional token extra
    parseToken argDef (parseArgument argDef (parseExtra extra)) iaa

def parseExtra : CommandArgDefinitionExtra → InputArgArray → ArgParse
  | .argArr argDefs, iaa => parseAlternatives argDefs iaa
  | .descr _, _ => .error .panic

/-- A token mismatch moves on to the next alternative. -/
def parseAlternatives : List CommandArgDefinition → InputArgArray → ArgParse
  | [], iaa => .ok (.error .tokenMismatch, iaa)
  | argDef :: argDefs, iaa =>
    match parseCommandArgument argDef iaa with
    | .error stop => .error stop
    | .ok (.error .tokenMismatch, iaa) => parseAlternatives argDefs iaa
    | .ok result => .ok result
end

/-- The loop over the definitions, up to the first that fails. -/
def parseDefinitions : List CommandArgDefinition → InputArgArray →
    Except ServerStop (Except CommandArgParseResult (List CommandArg) × InputArgArray)
  | [], iaa => .ok (.ok [], iaa)
  | argDef :: argDefs, iaa =>
    match parseCommandArgument argDef iaa with
    | .error stop => .error stop
    | .ok (.error code, iaa) => .ok (.error code, iaa)
    | .ok (.ok arg, iaa) =>
      (parseDefinitions argDefs iaa).map fun (result, iaa) => (result.map (arg :: ·), iaa)

def parseCommandArguments (argDefinitions : List CommandArgDefinition)
    (inputArgs : List (List UInt8)) :
    Except ServerStop (Except CommandArgParseResult (List CommandArg)) :=
  (parseDefinitions argDefinitions (iaaCreate inputArgs)).map fun (result, iaa) =>
    match result with
    | .error code => .error code
    | .ok args => if (iaaPeekArgIndex iaa 0).isSome then .error .tooManyArgs else .ok args

end Redic
