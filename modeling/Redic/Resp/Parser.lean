import Redic.Foundation.DecimalText
import Redic.Resp.Value

/-! # Reading a value out of memory

The parser gets the address of the first byte and no length. The input is the list of bytes from
that address to the end of the accessible memory; a read behind its end is a fault. Every
function moves a pointer and a position side by side and stores the position back only when it
succeeds. The recursion over nested arrays carries fuel.
-/
namespace Redic
open DecimalText

inductive RESPParseResultCode
  | success
  | unknownDataTypeMarker
  | unexpectedToken
  | emptyInput
  | memoryAllocFailed
  deriving DecidableEq, Repr

structure RESPParseResult where
  code : RESPParseResultCode
  pos : ℕ
  deriving DecidableEq, Repr

/-- Why there is no value: the failure that is returned, a read outside the memory, or fuel. -/
inductive RESPStop
  | failure (result : RESPParseResult)
  | fault
  | outOfFuel
  deriving DecidableEq, Repr

structure Cursor where
  ptr : ℕ
  pos : ℕ
  deriving DecidableEq, Repr

variable (input : List UInt8)

def consumeToken (token : UInt8) (cursor : Cursor) : Except RESPStop Cursor :=
  match input[cursor.ptr]? with
  | none => .error .fault
  | some c =>
    if c = token then .ok ⟨cursor.ptr + 1, cursor.pos + 1⟩
    else .error (.failure ⟨.unexpectedToken, cursor.pos⟩)

def consumeCrlf (cursor : Cursor) : Except RESPStop Cursor := do
  let cursor ← consumeToken input cr cursor
  consumeToken input lf cursor

def memcpy (pos length : ℕ) : Except RESPStop (List UInt8) :=
  if pos + length ≤ input.length then .ok ((input.drop pos).take length) else .error .fault

def isText (c : UInt8) : Bool := c ≠ cr && c ≠ lf

/-- The number of bytes before the next CR or LF. -/
def scanLine (ptr : ℕ) : Except RESPStop ℕ :=
  if ((input.drop ptr).takeWhile isText).length < (input.drop ptr).length then
    .ok ((input.drop ptr).takeWhile isText).length
  else .error .fault

/-- The body that simple strings and simple errors share. -/
def parseLine (kind : RESPValueKind) (pos : ℕ) : Except RESPStop (List UInt8 × ℕ) := do
  let cursor ← consumeToken input kind.marker ⟨pos, pos⟩
  let strLen ← scanLine input cursor.ptr
  let value ← memcpy input cursor.pos strLen
  let cursor ← consumeCrlf input ⟨cursor.ptr + strLen, cursor.pos + strLen⟩
  .ok (value, cursor.pos)

def parseSimpleString (pos : ℕ) : Except RESPStop (List UInt8 × ℕ) :=
  parseLine input .simpleString pos

def parseSimpleError (pos : ℕ) : Except RESPStop (List UInt8 × ℕ) :=
  parseLine input .simpleError pos

/-- The line of a marker and a number with which integers, bulk strings and arrays begin. -/
def parseNumber {α : Type} (read : List UInt8 → Parsed α) (kind : RESPValueKind) (pos : ℕ) :
    Except RESPStop (α × Cursor) := do
  let cursor ← consumeToken input kind.marker ⟨pos, pos⟩
  let text := input.drop cursor.ptr
  if Ends text then
    let number := read text
    let cursor ← consumeCrlf input ⟨cursor.ptr + number.endPos, cursor.pos + number.endPos⟩
    .ok (number.value, cursor)
  else .error .fault

def parseBulkString (pos : ℕ) : Except RESPStop (List UInt8 × ℕ) := do
  let (length, cursor) ← parseNumber input strtoull .bulkString pos
  let value ← memcpy input cursor.pos length.toNat
  let cursor ← consumeCrlf input ⟨cursor.ptr + length.toNat, cursor.pos + length.toNat⟩
  .ok (value, cursor.pos)

def parseInteger (pos : ℕ) : Except RESPStop (Int64 × ℕ) := do
  let (value, cursor) ← parseNumber input strtoll .integer pos
  .ok (value, cursor.pos)

def parseNull (pos : ℕ) : Except RESPStop ℕ := do
  let cursor ← consumeToken input RESPValueKind.null.marker ⟨pos, pos⟩
  let cursor ← consumeCrlf input cursor
  .ok cursor.pos

/-- The header, then the loop over the elements. The arena is taken to grant what `hector_create` asks
it for in between, sixteen bytes for each declared element, as it is for the strings. -/
def parseArray (parseElements : ℕ → ℕ → Except RESPStop (List RESPValue × ℕ)) (pos : ℕ) :
    Except RESPStop (List RESPValue × ℕ) := do
  let (length, cursor) ← parseNumber input strtoull .array pos
  parseElements length.toNat cursor.pos

mutual
/-- `resp_parse_value`: the value and the new position of the parser. -/
def parseValue : ℕ → ℕ → Except RESPStop (RESPValue × ℕ)
  | 0, _ => .error .outOfFuel
  | fuel + 1, pos =>
    match input[pos]? with
    | none => .error .fault
    | some c =>
      if c = RESPValueKind.integer.marker then
        (parseInteger input pos).map (Prod.map .integer id)
      else if c = RESPValueKind.simpleString.marker then
        (parseSimpleString input pos).map (Prod.map .simpleString id)
      else if c = RESPValueKind.simpleError.marker then
        (parseSimpleError input pos).map (Prod.map .simpleError id)
      else if c = RESPValueKind.bulkString.marker then
        (parseBulkString input pos).map (Prod.map .bulkString id)
      else if c = RESPValueKind.null.marker then
        (parseNull input pos).map fun pos => (.null, pos)
      else if c = RESPValueKind.array.marker then
        (parseArray input (fun length pos => parseElements fuel length pos) pos).map
          (Prod.map .array id)
      else .error (.failure ⟨.unknownDataTypeMarker, pos⟩)

def parseElements : ℕ → ℕ → ℕ → Except RESPStop (List RESPValue × ℕ)
  | _, 0, pos => .ok ([], pos)
  | 0, _ + 1, _ => .error .outOfFuel
  | fuel + 1, length + 1, pos => do
    let (value, pos) ← parseValue fuel pos
    let (values, pos) ← parseElements fuel length pos
    .ok (value :: values, pos)
end

/-- The value and the position behind it, with fuel for every input. -/
def respParseInput : Except RESPStop (RESPValue × ℕ) :=
  parseValue input (input.length + 1) 0

end Redic
