import Mathlib.Data.List.Basic
import Mathlib.Tactic.Use

/-! # RESP values

The tree of values that requests and replies are made of, with the byte that marks each kind on
the wire. A C string is the list of the bytes in its memory up to the closing NUL, which is not
part of the list; a bulk string carries its length, which is the length of the list.
-/
namespace Redic

inductive RESPValueKind
  | simpleString
  | bulkString
  | array
  | null
  | integer
  | simpleError
  deriving DecidableEq, Repr

def RESPValueKind.marker : RESPValueKind → UInt8
  | .simpleString => 43
  | .bulkString => 36
  | .array => 42
  | .null => 95
  | .integer => 58
  | .simpleError => 45

inductive RESPValue
  | simpleString (string : List UInt8)
  | simpleError (message : List UInt8)
  | bulkString (data : List UInt8)
  | integer (value : Int64)
  | null
  | array (array : List RESPValue)
  deriving Repr

def cr : UInt8 := 13

def lf : UInt8 := 10

def strlen (string : List UInt8) : ℕ := (string.takeWhile (· ≠ 0)).length

/-- The text of a simple string or error: one line of a C string. -/
def IsLine (text : List UInt8) : Prop := ∀ c ∈ text, c ≠ cr ∧ c ≠ lf ∧ c ≠ 0
  deriving Decidable

mutual
/-- Every simple string and error in the tree is a line. -/
def RESPValue.Plain : RESPValue → Prop
  | .simpleString string => IsLine string
  | .simpleError message => IsLine message
  | .bulkString _ => True
  | .integer _ => True
  | .null => True
  | .array array => AllPlain array

def AllPlain : List RESPValue → Prop
  | [] => True
  | value :: values => value.Plain ∧ AllPlain values
end

end Redic
