import Redic.Command.SetArguments
import Redic.SepticTank.Replay

/-! # The command handlers

Each handler turns parsed arguments into one operation for the tank and the tank's result into a
reply. An argument or a result that is read as something it is not is a use of memory that C
leaves undefined; the branches that end the process are kept as such.
-/
namespace Redic.Command
open KeyStore

variable {S : Type} [KeyStore S]

/-- What the handlers use of the server: the tank behind its sewer, with the mutations fed to the
potty, and whether there is a master. -/
structure Server (S : Type) where
  tank : LoggedTank S
  maybeMaster : Bool

/-- The clock readings of one command: the handler's, and the two of the digest. -/
structure CommandClock where
  now : Timespec
  ts₁ : Timespec
  ts₂ : Timespec

def septicTankFeed (server : Server S) (operation : SepticTankOperation) (clock : CommandClock) :
    Server S × SepticTankResult :=
  let input : DigestInput := ⟨operation, clock.ts₁, clock.ts₂⟩
  ({ server with tank := server.tank.step (.digest input) }, (server.tank.tank.digest input).2.1)

/-- A handler may end the process. -/
abbrev Handler (S : Type) := Server S → CommandClock → List CommandArg →
  Except ServerStop (Server S × RESPValue)

structure CommandDefinition (S : Type) where
  name : String
  argDefs : List CommandArgDefinition
  processor : Handler S

def createSimpleError (message : String) : RESPValue := .simpleError (cstr message)

def createSimpleString (string : String) : RESPValue := .simpleString (cstr string)

section Arguments

def argAt (args : List CommandArg) (i : ℕ) : Except ServerStop CommandArg :=
  match args[i]? with
  | some arg => .ok arg
  | none => .error .fault

def asString : CommandArgValue → Except ServerStop DataString
  | .string str => .ok str
  | _ => .error .fault

def asInt64 : CommandArgValue → Except ServerStop Int64
  | .integer num => .ok num
  | _ => .error .fault

def asOption : CommandArgValue → Except ServerStop (Option CommandArgValue)
  | .option value => .ok value
  | _ => .error .fault

def stringArg (args : List CommandArg) (i : ℕ) : Except ServerStop DataString := do
  let arg ← argAt args i
  asString arg.value

def int64Arg (args : List CommandArg) (i : ℕ) : Except ServerStop Int64 := do
  let arg ← argAt args i
  asInt64 arg.value

end Arguments

section Results

def setOldValue : SepticTankResultValue → Except ServerStop (Option DataString)
  | .setResult oldValue => .ok oldValue
  | _ => .error .fault

def getValue : SepticTankResultValue → Except ServerStop (Option DataString)
  | .getResult value => .ok value
  | _ => .error .fault

def numDeleted : SepticTankResultValue → Except ServerStop UInt32
  | .delResult numDeleted => .ok numDeleted
  | _ => .error .fault

def ttlS : SepticTankResultValue → Except ServerStop Int64
  | .ttlResult ttlS => .ok ttlS
  | _ => .error .fault

def existsCount : SepticTankResultValue → Except ServerStop Int64
  | .existsResult existsCount => .ok existsCount
  | _ => .error .fault

def isSet : SepticTankResultValue → Except ServerStop Int64
  | .expireResult isSet => .ok isSet
  | _ => .error .fault

def incrbyValue : SepticTankResultValue → Except ServerStop Int64
  | .incrbyResult value => .ok value
  | _ => .error .fault

def failureReply (result : SepticTankResult) : RESPValue :=
  match result.error with
  | some error => createSimpleError error
  | none => .null

end Results

def processPing : Handler S := fun server _ args => do
  let messageArg ← argAt args 0
  let option ← asOption messageArg.value
  match option with
  | some value => do
    let message ← asString value
    pure (server, .bulkString message)
  | none => pure (server, createSimpleString "PONG")

/-- The text is sent with its closing NUL. -/
def processInfo : Handler S := fun server _ _ =>
  let info :=
    if !server.maybeMaster then
      "# Replication\nrole:master\nconnected_slaves:0\nmaster_replid:15\nmaster_repl_offset:0"
    else
      "# Replication\nrole:replica\nconnected_slaves:0\nmaster_replid:15\nmaster_repl_offset:0"
  .ok (server, .bulkString (cstr info ++ [0]))

def processGet : Handler S := fun server clock args => do
  let key ← stringArg args 0
  let (server, result) := septicTankFeed server (.get key) clock
  let value ← getValue result.value
  match value with
  | none => pure (server, .null)
  | some string => pure (server, .bulkString string)

def processDel : Handler S := fun server clock args => do
  let key ← stringArg args 0
  let (server, result) := septicTankFeed server (.del key) clock
  if !result.success && result.error.isSome then
    pure (server, failureReply result)
  else do
    let n ← numDeleted result.value
    pure (server, .integer n.toUInt64.toInt64)

def processExists : Handler S := fun server clock args => do
  let key ← stringArg args 0
  let (server, result) := septicTankFeed server (.exists key) clock
  let n ← existsCount result.value
  pure (server, .integer n)

def processTtl : Handler S := fun server clock args => do
  let key ← stringArg args 0
  let (server, result) := septicTankFeed server (.ttl key) clock
  if !result.success then
    pure (server, failureReply result)
  else do
    let n ← ttlS result.value
    pure (server, .integer n)

/-- The operation behind `INCR`, `DECR`, `INCRBY` and `DECRBY`. -/
def processIncrementBy (server : Server S) (clock : CommandClock) (key : DataString)
    (delta : Int64) : Except ServerStop (Server S × RESPValue) := do
  let (server, result) := septicTankFeed server (.incrby ⟨key, delta⟩) clock
  if !result.success then
    pure (server, failureReply result)
  else do
    let n ← incrbyValue result.value
    pure (server, .integer n)

def processIncr : Handler S := fun server clock args => do
  let key ← stringArg args 0
  processIncrementBy server clock key 1

def processDecr : Handler S := fun server clock args => do
  let key ← stringArg args 0
  processIncrementBy server clock key (-1)

def processIncrby : Handler S := fun server clock args => do
  let key ← stringArg args 0
  let increment ← int64Arg args 1
  processIncrementBy server clock key increment

def processDecrby : Handler S := fun server clock args => do
  let key ← stringArg args 0
  let decrement ← int64Arg args 1
  processIncrementBy server clock key (-decrement)

def resolveExpireCondition (condition : CommandArg) : Except ServerStop ExpireCondition := do
  let option ← asOption condition.value
  if option.isNone then pure .none
  else
    let name := condition.definition.name
    if name = "nx" then pure .nx
    else if name = "xx" then pure .xx
    else if name = "gt" then pure .gt
    else if name = "lt" then pure .lt
    else .error .unreachable

def expireOperation (args : List CommandArg) (now : Timespec) :
    Except ServerStop SepticTankExpireOperation := do
  let key ← stringArg args 0
  let seconds ← int64Arg args 1
  let conditionArg ← argAt args 2
  let condition ← resolveExpireCondition conditionArg
  pure ⟨key, dataNowMs now + seconds * 1000, condition⟩

def processExpire : Handler S := fun server clock args => do
  let operation ← expireOperation args clock.now
  let (server, result) := septicTankFeed server (.expire operation) clock
  if !result.success then
    pure (server, failureReply result)
  else do
    let n ← isSet result.value
    pure (server, .integer n)

def getExpireTime (arg : CommandArg) (now : Timespec) :
    Except ServerStop SepticTankExpiration := do
  let option ← asOption arg.value
  match option with
  | none => pure ⟨.noExpire, 0⟩
  | some value =>
    let nowMs := dataNowMs now
    let name := arg.definition.name
    if name = "seconds" then do
      let s ← asInt64 value
      pure ⟨.unixTs, nowMs + s * 1000⟩
    else if name = "milliseconds" then do
      let ms ← asInt64 value
      pure ⟨.unixTs, nowMs + ms⟩
    else if name = "unix-time-seconds" then do
      let unixS ← asInt64 value
      pure ⟨.unixTs, unixS * 1000⟩
    else if name = "unix-time-milliseconds" then do
      let unixMs ← asInt64 value
      pure ⟨.unixTs, unixMs⟩
    else if name = "keepttl" then pure ⟨.keepOld, 0⟩
    else .error .unreachable

def setOperation (args : List CommandArg) (now : Timespec) :
    Except ServerStop SepticTankSetOperation := do
  let key ← stringArg args 0
  let value ← stringArg args 1
  let condition ← argAt args 2
  let conditionOption ← asOption condition.value
  let isConditionOn := conditionOption.isSome
  let getArg ← argAt args 3
  let getOption ← asOption getArg.value
  let expiration ← argAt args 4
  let expiryTime ← getExpireTime expiration now
  pure
    { key := key
      value := value
      nx := isConditionOn && condition.definition.name == "nx"
      xx := isConditionOn && condition.definition.name == "xx"
      get := getOption.isSome
      expiration := expiryTime }

def processSet : Handler S := fun server clock args => do
  let operation ← setOperation args clock.now
  let (server, result) := septicTankFeed server (.set operation) clock
  if !result.success then
    pure (server, failureReply result)
  else if operation.get then do
    let oldValue ← setOldValue result.value
    match oldValue with
    | some string => pure (server, .bulkString string)
    | none => pure (server, .null)
  else if result.resolvedMutation.isSome then
    pure (server, createSimpleString "OK")
  else
    pure (server, .null)

section Definitions

def keyArgDef : CommandArgDefinition := commandArg "key" .string false none

def pingCommand : CommandDefinition S :=
  ⟨"PING", [commandArg "message" .string true none], processPing⟩

def setCommand : CommandDefinition S := ⟨"SET", setArgDefs, processSet⟩

def getCommand : CommandDefinition S := ⟨"GET", [keyArgDef], processGet⟩

def delCommand : CommandDefinition S := ⟨"DEL", [keyArgDef], processDel⟩

def infoCommand : CommandDefinition S := ⟨"INFO", [], processInfo⟩

def ttlCommand : CommandDefinition S := ⟨"TTL", [keyArgDef], processTtl⟩

def existsCommand : CommandDefinition S := ⟨"EXISTS", [keyArgDef], processExists⟩

def expireArgDefs : List CommandArgDefinition :=
  [keyArgDef, commandArg "seconds" .integer false none,
    commandArgOneOf "condition" true
      [commandArg "nx" .pureToken false (some "NX"),
        commandArg "xx" .pureToken false (some "XX"),
        commandArg "gt" .pureToken false (some "GT"),
        commandArg "lt" .pureToken false (some "LT")]]

def expireCommand : CommandDefinition S := ⟨"EXPIRE", expireArgDefs, processExpire⟩

def incrCommand : CommandDefinition S := ⟨"INCR", [keyArgDef], processIncr⟩

def decrCommand : CommandDefinition S := ⟨"DECR", [keyArgDef], processDecr⟩

def incrbyCommand : CommandDefinition S :=
  ⟨"INCRBY", [keyArgDef, commandArg "increment" .integer false none], processIncrby⟩

def decrbyCommand : CommandDefinition S :=
  ⟨"DECRBY", [keyArgDef, commandArg "decrement" .integer false none], processDecrby⟩

/-- The table that a command's name is looked up in. -/
def commands : List (CommandDefinition S) :=
  [pingCommand, setCommand, getCommand, delCommand, infoCommand, ttlCommand, existsCommand,
    expireCommand, incrCommand, decrCommand, incrbyCommand, decrbyCommand]

end Definitions

def processCommandHelper (server : Server S) (clock : CommandClock) (command : List UInt8)
    (args : List (List UInt8)) : Except ServerStop (Server S × RESPValue) :=
  match commands.find? fun commandDef : CommandDefinition S =>
    strEqCi command (cstr commandDef.name) with
  | none => .ok (server, createSimpleError "UNKNOWN COMMAND")
  | some commandDef =>
    match parseCommandArguments commandDef.argDefs args with
    | .error stop => .error stop
    | .ok (.error _) => .ok (server, createSimpleError "Invalid command arguments")
    | .ok (.ok parsedArgs) => commandDef.processor server clock parsedArgs

section Lookup
open InputArgArray

theorem commands_names_distinct : (commands : List (CommandDefinition S)).Pairwise
    fun commandDef other => strEqCi (cstr commandDef.name) (cstr other.name) = false := by
  have hnames : (["PING", "SET", "GET", "DEL", "INFO", "TTL", "EXISTS", "EXPIRE", "INCR", "DECR",
      "INCRBY", "DECRBY"] : List String).Pairwise
      fun name other => strEqCi (cstr name) (cstr other) = false := by
    decide +kernel
  have hmap : (commands : List (CommandDefinition S)).map CommandDefinition.name = _ := rfl
  rw [← List.pairwise_map (f := CommandDefinition.name)
    (R := fun name other => strEqCi (cstr name) (cstr other) = false), hmap]
  exact hnames

theorem commands_find {commandDef : CommandDefinition S} (hmem : commandDef ∈ commands) :
    (commands.find? fun other => strEqCi (cstr commandDef.name) (cstr other.name)) =
      some commandDef := by
  obtain ⟨before, after, hsplit⟩ := List.append_of_mem hmem
  rw [List.find?_eq_some_iff_append]
  refine ⟨by rw [strEqCi_iff], before, after, hsplit, ?_⟩
  intro other hother
  have hdistinct : (commands : List (CommandDefinition S)).Pairwise _ := commands_names_distinct
  rw [hsplit, List.pairwise_append] at hdistinct
  have hne := hdistinct.2.2 other hother commandDef List.mem_cons_self
  rw [Bool.not_eq_true', strEqCi, Bool.beq_comm]
  exact hne

/-- A command under its own name is handed to its handler. -/
theorem processCommandHelper_of_mem {commandDef : CommandDefinition S} {server : Server S}
    {clock : CommandClock} {args : List (List UInt8)} {parsed : List CommandArg}
    (hmem : commandDef ∈ commands)
    (hparse : parseCommandArguments commandDef.argDefs args = .ok (.ok parsed)) :
    processCommandHelper server clock (cstr commandDef.name) args =
      commandDef.processor server clock parsed := by
  unfold processCommandHelper
  rw [commands_find hmem]
  simp only [hparse]

/-- The words a key and a number leave to the other definitions. -/
def keyNumberLeft (key text : DataString) (words : List (List UInt8)) : InputArgArray :=
  ((iaaCreate (key :: text :: words)).resolve 0).resolve 1

theorem unresolved_keyNumberLeft (key text : DataString) (words : List (List UInt8)) :
    (keyNumberLeft key text words).unresolved = List.range' 2 words.length := by
  have hfree : (iaaCreate (key :: text :: words)).unresolved =
      0 :: 1 :: List.range' 2 words.length := unresolved_create _
  exact unresolved_resolve_head (unresolved_resolve_head hfree)

theorem parse_keyNumber (name : String) {key text : DataString} {words : List (List UInt8)}
    {number : Int64} {argDefs : List CommandArgDefinition} {parsed : List CommandArg}
    {last : InputArgArray} (hnumber : parseInt64 text = some number)
    (hrest : parseDefinitions argDefs (keyNumberLeft key text words) = .ok (.ok parsed, last))
    (hlast : last.unresolved = []) :
    parseCommandArguments (keyArgDef :: commandArg name .integer false none :: argDefs)
        (key :: text :: words) =
      .ok (.ok (⟨keyArgDef, .string key, [], [0]⟩ ::
        ⟨commandArg name .integer false none, .integer number, [], [1]⟩ :: parsed)) := by
  have hread : readOperand .integer text = some (.integer number) := by
    rw [readOperand, hnumber]
    rfl
  have hfree : (iaaCreate (key :: text :: words)).unresolved =
      0 :: 1 :: List.range' 2 words.length := unresolved_create _
  have hnext := unresolved_resolve_head hfree
  have htext : ((iaaCreate (key :: text :: words)).resolve 0).text 1 = text := rfl
  have hkey : parseCommandArgument keyArgDef (iaaCreate (key :: text :: words)) =
      .ok (.ok ⟨keyArgDef, .string key, [], [0]⟩, (iaaCreate (key :: text :: words)).resolve 0) :=
    parseCommandArgument_plain rfl (by decide) hfree
  have hsecond : parseCommandArgument (commandArg name .integer false none)
        ((iaaCreate (key :: text :: words)).resolve 0) =
      .ok (.ok ⟨commandArg name .integer false none, .integer number, [], [1]⟩,
        keyNumberLeft key text words) := by
    have htype : (commandArg name .integer false none).type.TakesOperand :=
      (by decide : CommandArgType.integer.TakesOperand)
    rw [parseCommandArgument_plain rfl htype hnext, htext]
    simp only [CommandArgDefinition.type, commandArg, hread]
    rfl
  rw [parseCommandArguments_ok]
  refine ⟨last, ?_, hlast⟩
  exact parseDefinitions_cons_ok.mpr ⟨_, _, _, hkey,
    parseDefinitions_cons_ok.mpr ⟨_, _, _, hsecond, hrest, rfl⟩, rfl⟩

end Lookup

end Redic.Command
