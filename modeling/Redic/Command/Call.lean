import Redic.Command.Handlers

/-! # The handlers around their call of the tank

A thread that executes a command waits for the tank in the middle of it. So each handler is here
once more in two halves, what it feeds and what it makes of the result, and the two halves put
together are the handler.
-/
namespace Redic.Command

variable {S : Type} [KeyStore S]

/-- A handler that has come to `septic_tank_feed`, or that answers without the tank. -/
inductive HandlerCall
  | answer (reply : Bool → RESPValue)
  | feed (operation : SepticTankOperation) (reply : SepticTankResult → Except ServerStop RESPValue)

def HandlerCall.execute (call : HandlerCall) (server : Server S) (clock : CommandClock) :
    Except ServerStop (Server S × RESPValue) :=
  match call with
  | answer reply => .ok (server, reply server.maybeMaster)
  | feed operation reply =>
    let (server, result) := septicTankFeed server operation clock
    (reply result).map fun responseValue => (server, responseValue)

theorem HandlerCall.execute_feed {operation : SepticTankOperation}
    {reply : SepticTankResult → Except ServerStop RESPValue} {server server' : Server S}
    {clock : CommandClock} {responseValue : RESPValue}
    (h : (HandlerCall.feed operation reply).execute server clock = .ok (server', responseValue)) :
    server' = (septicTankFeed server operation clock).1 ∧
      reply (septicTankFeed server operation clock).2 = .ok responseValue := by
  simp only [HandlerCall.execute] at h
  cases hreply : reply (septicTankFeed server operation clock).2 with
  | error stop =>
    rw [hreply] at h
    cases h
  | ok value =>
    rw [hreply] at h
    cases h
    exact ⟨rfl, rfl⟩

section Replies

def stringReply (string : Option DataString) : RESPValue := string.elim .null .bulkString

def replyGet (result : SepticTankResult) : Except ServerStop RESPValue := do
  let value ← getValue result.value
  pure (stringReply value)

def replyDel (result : SepticTankResult) : Except ServerStop RESPValue :=
  if !result.success && result.error.isSome then pure (failureReply result)
  else do
    let n ← numDeleted result.value
    pure (.integer n.toUInt64.toInt64)

def replyExists (result : SepticTankResult) : Except ServerStop RESPValue := do
  let n ← existsCount result.value
  pure (.integer n)

def checkedReply (value : SepticTankResultValue → Except ServerStop Int64)
    (result : SepticTankResult) : Except ServerStop RESPValue :=
  if !result.success then pure (failureReply result)
  else do
    let n ← value result.value
    pure (.integer n)

def replySet (operation : SepticTankSetOperation) (result : SepticTankResult) :
    Except ServerStop RESPValue :=
  if !result.success then pure (failureReply result)
  else if operation.get then do
    let oldValue ← setOldValue result.value
    pure (stringReply oldValue)
  else if result.resolvedMutation.isSome then pure (createSimpleString "OK")
  else pure .null

end Replies

section Calls

def callPing (args : List CommandArg) : Except ServerStop HandlerCall := do
  let messageArg ← argAt args 0
  let option ← asOption messageArg.value
  match option with
  | some value => do
    let message ← asString value
    pure (.answer fun _ => .bulkString message)
  | none => pure (.answer fun _ => createSimpleString "PONG")

def callInfo : Except ServerStop HandlerCall :=
  .ok (.answer fun maybeMaster => .bulkString (cstr (if !maybeMaster then
      "# Replication\nrole:master\nconnected_slaves:0\nmaster_replid:15\nmaster_repl_offset:0"
    else "# Replication\nrole:replica\nconnected_slaves:0\nmaster_replid:15\nmaster_repl_offset:0")
      ++ [0]))

def callKey (operation : DataString → SepticTankOperation)
    (reply : SepticTankResult → Except ServerStop RESPValue) (args : List CommandArg) :
    Except ServerStop HandlerCall := do
  let key ← stringArg args 0
  pure (.feed (operation key) reply)

/-- `INCRBY` and `DECRBY`, by what they make of their number. -/
def callNumber (delta : Int64 → Int64) (args : List CommandArg) :
    Except ServerStop HandlerCall := do
  let key ← stringArg args 0
  let number ← int64Arg args 1
  pure (.feed (.incrby ⟨key, delta number⟩) (checkedReply incrbyValue))

def callExpire (now : Timespec) (args : List CommandArg) : Except ServerStop HandlerCall := do
  let operation ← expireOperation args now
  pure (.feed (.expire operation) (checkedReply isSet))

def callSet (now : Timespec) (args : List CommandArg) : Except ServerStop HandlerCall := do
  let operation ← setOperation args now
  pure (.feed (.set operation) (replySet operation))

end Calls

structure CommandCall where
  name : String
  argDefs : List CommandArgDefinition
  call : Timespec → List CommandArg → Except ServerStop HandlerCall

def commandCalls : List CommandCall :=
  [⟨"PING", [commandArg "message" .string true none], fun _ => callPing⟩,
    ⟨"SET", setArgDefs, callSet⟩,
    ⟨"GET", [keyArgDef], fun _ => callKey .get replyGet⟩,
    ⟨"DEL", [keyArgDef], fun _ => callKey .del replyDel⟩,
    ⟨"INFO", [], fun _ _ => callInfo⟩,
    ⟨"TTL", [keyArgDef], fun _ => callKey .ttl (checkedReply ttlS)⟩,
    ⟨"EXISTS", [keyArgDef], fun _ => callKey .exists replyExists⟩,
    ⟨"EXPIRE", expireArgDefs, callExpire⟩,
    ⟨"INCR", [keyArgDef], fun _ => callKey (.incrby ⟨·, 1⟩) (checkedReply incrbyValue)⟩,
    ⟨"DECR", [keyArgDef], fun _ => callKey (.incrby ⟨·, -1⟩) (checkedReply incrbyValue)⟩,
    ⟨"INCRBY", [keyArgDef, commandArg "increment" .integer false none],
      fun _ => callNumber fun increment => increment⟩,
    ⟨"DECRBY", [keyArgDef, commandArg "decrement" .integer false none],
      fun _ => callNumber fun decrement => -decrement⟩]

/-- `process_command_helper` as far as a thread gets without the tank. -/
def commandCall (now : Timespec) (command : List UInt8) (args : List (List UInt8)) :
    Except ServerStop HandlerCall :=
  match commandCalls.find? fun commandDef => strEqCi command (cstr commandDef.name) with
  | none => .ok (.answer fun _ => createSimpleError "UNKNOWN COMMAND")
  | some commandDef =>
    match parseCommandArguments commandDef.argDefs args with
    | .error stop => .error stop
    | .ok (.error _) => .ok (.answer fun _ => createSimpleError "Invalid command arguments")
    | .ok (.ok parsedArgs) => commandDef.call now parsedArgs

/-- The call and what follows it are the whole handler. -/
def Splits (call : Timespec → List CommandArg → Except ServerStop HandlerCall)
    (processor : Handler S) : Prop :=
  ∀ server clock args,
    processor server clock args = call clock.now args >>= fun call => call.execute server clock

section Splits

theorem processPing_splits : Splits (fun _ => callPing) (processPing : Handler S) := by
  intro server clock args
  simp only [processPing, callPing, bind, Except.bind]
  cases argAt args 0 with
  | error stop => rfl
  | ok messageArg =>
    dsimp only
    cases asOption messageArg.value with
    | error stop => rfl
    | ok option =>
      cases option with
      | none => rfl
      | some value =>
        dsimp only
        cases asString value <;> rfl

theorem processInfo_splits : Splits (fun _ _ => callInfo) (processInfo : Handler S) := by
  intro server clock args
  rfl

theorem callKey_splits {processor : Handler S} {operation : DataString → SepticTankOperation}
    {reply : SepticTankResult → Except ServerStop RESPValue}
    (h : ∀ server clock args, processor server clock args =
      stringArg args 0 >>= fun key =>
        (HandlerCall.feed (operation key) reply).execute server clock) :
    Splits (fun _ => callKey operation reply) processor := by
  intro server clock args
  rw [h]
  simp only [callKey, bind, Except.bind]
  cases stringArg args 0 <;> rfl

theorem processGet_splits : Splits (fun _ => callKey .get replyGet) (processGet : Handler S) := by
  apply callKey_splits
  intro server clock args
  refine bind_congr fun key => ?_
  simp only [HandlerCall.execute, replyGet, bind, Except.bind]
  cases getValue (septicTankFeed server (.get key) clock).2.value with
  | error stop => rfl
  | ok value => cases value <;> rfl

theorem processDel_splits : Splits (fun _ => callKey .del replyDel) (processDel : Handler S) := by
  apply callKey_splits
  intro server clock args
  refine bind_congr fun key => ?_
  simp only [HandlerCall.execute, replyDel, bind, Except.bind]
  split
  · rfl
  · cases numDeleted (septicTankFeed server (.del key) clock).2.value <;> rfl

theorem processExists_splits :
    Splits (fun _ => callKey .exists replyExists) (processExists : Handler S) := by
  apply callKey_splits
  intro server clock args
  refine bind_congr fun key => ?_
  simp only [HandlerCall.execute, replyExists, bind, Except.bind]
  cases existsCount (septicTankFeed server (.exists key) clock).2.value <;> rfl

theorem processTtl_splits :
    Splits (fun _ => callKey .ttl (checkedReply ttlS)) (processTtl : Handler S) := by
  apply callKey_splits
  intro server clock args
  refine bind_congr fun key => ?_
  simp only [HandlerCall.execute, checkedReply, bind, Except.bind]
  split
  · rfl
  · cases ttlS (septicTankFeed server (.ttl key) clock).2.value <;> rfl

theorem processIncrementBy_eq (server : Server S) (clock : CommandClock) (key : DataString)
    (delta : Int64) : processIncrementBy server clock key delta =
      (HandlerCall.feed (.incrby ⟨key, delta⟩) (checkedReply incrbyValue)).execute server clock := by
  simp only [processIncrementBy, HandlerCall.execute, checkedReply, bind, Except.bind]
  split
  · rfl
  · cases incrbyValue (septicTankFeed server (.incrby ⟨key, delta⟩) clock).2.value <;> rfl

theorem processIncr_splits : Splits
    (fun _ => callKey (.incrby ⟨·, 1⟩) (checkedReply incrbyValue)) (processIncr : Handler S) := by
  apply callKey_splits
  intro server clock args
  exact bind_congr fun key => processIncrementBy_eq server clock key 1

theorem processDecr_splits : Splits
    (fun _ => callKey (.incrby ⟨·, -1⟩) (checkedReply incrbyValue)) (processDecr : Handler S) := by
  apply callKey_splits
  intro server clock args
  exact bind_congr fun key => processIncrementBy_eq server clock key (-1)

theorem callNumber_splits {processor : Handler S} {delta : Int64 → Int64}
    (h : ∀ server clock args, processor server clock args =
      stringArg args 0 >>= fun key => int64Arg args 1 >>= fun number =>
        processIncrementBy server clock key (delta number)) :
    Splits (fun _ => callNumber delta) processor := by
  intro server clock args
  rw [h]
  simp only [callNumber, bind, Except.bind]
  cases stringArg args 0 with
  | error stop => rfl
  | ok key =>
    dsimp only
    cases int64Arg args 1 with
    | error stop => rfl
    | ok number => exact processIncrementBy_eq server clock key (delta number)

theorem processIncrby_splits :
    Splits (fun _ => callNumber fun increment => increment) (processIncrby : Handler S) :=
  callNumber_splits fun _ _ _ => rfl

theorem processDecrby_splits :
    Splits (fun _ => callNumber fun decrement => -decrement) (processDecrby : Handler S) :=
  callNumber_splits fun _ _ _ => rfl

theorem processExpire_splits : Splits callExpire (processExpire : Handler S) := by
  intro server clock args
  simp only [processExpire, callExpire, bind, Except.bind]
  cases expireOperation args clock.now with
  | error stop => rfl
  | ok operation =>
    simp only [HandlerCall.execute, checkedReply, pure, Except.pure]
    split
    · rfl
    · cases isSet (septicTankFeed server (.expire operation) clock).2.value <;> rfl

theorem processSet_splits : Splits callSet (processSet : Handler S) := by
  intro server clock args
  simp only [processSet, callSet, bind, Except.bind]
  cases setOperation args clock.now with
  | error stop => rfl
  | ok operation =>
    simp only [HandlerCall.execute, replySet, bind, Except.bind, pure, Except.pure]
    split
    · rfl
    · split
      · cases setOldValue (septicTankFeed server (.set operation) clock).2.value with
        | error stop => rfl
        | ok oldValue => cases oldValue <;> rfl
      · split <;> rfl

end Splits

structure CommandCall.Of (commandCall : CommandCall) (commandDef : CommandDefinition S) : Prop where
  name : commandCall.name = commandDef.name
  argDefs : commandCall.argDefs = commandDef.argDefs
  splits : Splits commandCall.call commandDef.processor

theorem commandCalls_of :
    List.Forall₂ CommandCall.Of commandCalls (commands : List (CommandDefinition S)) := by
  simp only [commandCalls, commands, List.forall₂_cons, List.Forall₂.nil, and_true]
  exact ⟨⟨rfl, rfl, processPing_splits⟩, ⟨rfl, rfl, processSet_splits⟩,
    ⟨rfl, rfl, processGet_splits⟩, ⟨rfl, rfl, processDel_splits⟩, ⟨rfl, rfl, processInfo_splits⟩,
    ⟨rfl, rfl, processTtl_splits⟩, ⟨rfl, rfl, processExists_splits⟩,
    ⟨rfl, rfl, processExpire_splits⟩, ⟨rfl, rfl, processIncr_splits⟩,
    ⟨rfl, rfl, processDecr_splits⟩, ⟨rfl, rfl, processIncrby_splits⟩,
    ⟨rfl, rfl, processDecrby_splits⟩⟩

theorem find_of {calls : List CommandCall} {defs : List (CommandDefinition S)}
    (h : List.Forall₂ CommandCall.Of calls defs) (command : List UInt8) :
    Option.Rel CommandCall.Of
      (calls.find? fun commandDef => strEqCi command (cstr commandDef.name))
      (defs.find? fun commandDef => strEqCi command (cstr commandDef.name)) := by
  induction h with
  | nil => exact .none
  | cons hof _ ih =>
    rw [List.find?_cons, List.find?_cons, hof.name]
    split
    · exact .some hof
    · exact ih

theorem processCommandHelper_eq (server : Server S) (clock : CommandClock) (command : List UInt8)
    (args : List (List UInt8)) : processCommandHelper server clock command args =
      commandCall clock.now command args >>= fun call => call.execute server clock := by
  have hfind := find_of (S := S) commandCalls_of command
  unfold processCommandHelper commandCall
  cases hcall : commandCalls.find? fun commandDef => strEqCi command (cstr commandDef.name) with
  | none =>
    rw [hcall] at hfind
    cases hdef : commands.find? fun commandDef : CommandDefinition S =>
        strEqCi command (cstr commandDef.name) with
    | none => rfl
    | some commandDef =>
      rw [hdef] at hfind
      cases hfind
  | some call =>
    rw [hcall] at hfind
    cases hdef : commands.find? fun commandDef : CommandDefinition S =>
        strEqCi command (cstr commandDef.name) with
    | none =>
      rw [hdef] at hfind
      cases hfind
    | some commandDef =>
      rw [hdef] at hfind
      cases hfind with
      | some hof =>
        simp only [hof.argDefs]
        cases parseCommandArguments commandDef.argDefs args with
        | error stop => rfl
        | ok result =>
          cases result with
          | error code => rfl
          | ok parsed => exact hof.splits server clock parsed

end Redic.Command
