import Redic.Data
import Redic.Resp.Value

/-! # Definitions of command arguments

A command lists the arguments it takes. An argument may be announced by a token, may be optional,
and may be one of several alternatives, which are definitions again.
-/
namespace Redic

def cstr (literal : String) : List UInt8 := literal.toUTF8.toList

/-- The macros that end the process, a use of memory that C leaves undefined, and a signal that
nothing handles. -/
inductive ServerStop
  | unimplemented | unreachable | panic | fault | sigpipe
  deriving DecidableEq, Repr

theorem eq_ok_of_toOption {ε α : Type} {x : Except ε α} {a : α} (h : x.toOption = some a) :
    x = .ok a := by
  cases x with
  | error e => cases h
  | ok found =>
    cases h
    rfl

inductive CommandArgType
  | string | integer | double | unixTime | key | oneOf | pureToken
  deriving DecidableEq, Repr

mutual
/-- A missing token is a null pointer. -/
inductive CommandArgDefinition
  | mk (name : String) (type : CommandArgType) (isOptional : Bool) (token : Option String)
    (extra : CommandArgDefinitionExtra)

inductive CommandArgDefinitionExtra
  | argArr (argDefs : List CommandArgDefinition)
  | descr (description : String)
end

namespace CommandArgDefinition

def name : CommandArgDefinition → String
  | mk name _ _ _ _ => name

def type : CommandArgDefinition → CommandArgType
  | mk _ type _ _ _ => type

def isOptional : CommandArgDefinition → Bool
  | mk _ _ isOptional _ _ => isOptional

def token : CommandArgDefinition → Option String
  | mk _ _ _ token _ => token

end CommandArgDefinition

/-- `COMMAND_ARG` leaves `extra` zeroed, which is an empty array. -/
def commandArg (name : String) (type : CommandArgType) (isOptional : Bool)
    (token : Option String) : CommandArgDefinition :=
  .mk name type isOptional token (.argArr [])

def commandArgOneOf (name : String) (isOptional : Bool) (argDefs : List CommandArgDefinition) :
    CommandArgDefinition :=
  .mk name .oneOf isOptional none (.argArr argDefs)

/-- What the value pointer of an argument points to. The number behind `strtod` is kept as the
text it is read from; `int64_t` and `long long` are the same 64 bits. -/
inductive CommandArgValue
  | string (str : DataString)
  | integer (num : Int64)
  | double (text : List UInt8)
  | token
  | option (value : Option CommandArgValue)
  deriving Repr

/-- A parsed argument. The positions of the input arguments it was made of are not in the source:
its tokens, and the arguments that were read as values. -/
structure CommandArg where
  definition : CommandArgDefinition
  value : CommandArgValue
  tokenPositions : List ℕ
  operandPositions : List ℕ

/-- Every result but `CMD_ARGS_PARSE_SUCCESS`. -/
inductive CommandArgParseResult
  | tooFewArgs | tooManyArgs | tokenMismatch | typeMismatch
  deriving DecidableEq, Repr

def asciiLower (c : UInt8) : UInt8 := if 65 ≤ c && c ≤ 90 then c + 32 else c

/-- Both texts have the same length and the same letters in lower case. -/
def strEqCi (a b : List UInt8) : Bool := a.map asciiLower == b.map asciiLower

theorem strEqCi_iff {a b : List UInt8} :
    strEqCi a b = true ↔ a.map asciiLower = b.map asciiLower := by
  rw [strEqCi, beq_iff_eq]

theorem strEqCi_other {text word other : List UInt8} (h : strEqCi text word = true)
    (hne : word.map asciiLower ≠ other.map asciiLower) : strEqCi text other = false := by
  rw [strEqCi, beq_eq_false_iff_ne]
  intro hother
  exact hne ((strEqCi_iff.mp h).symm.trans hother)

end Redic
