import Redic.Command.ArgShape
import Redic.Command.SetHandler
import Redic.Resp.Serializer

/-! # What a command does

Every command that parses is answered. No handler takes a branch that ends the process, and what
a reply repeats to a client is an argument of the command or a string that the tank returns.
-/
namespace Redic.Command

variable {S : Type} [KeyStore S]

/-- A reply whose size no client controls. -/
def Short (reply : RESPValue) : Prop := reply.wire.length ≤ 128
  deriving Decidable

def operationStrings : SepticTankOperation → List DataString
  | .set op => [op.key, op.value]
  | operation => [operation.key]

def resultString : SepticTankResultValue → Option DataString
  | .setResult oldValue => oldValue
  | .getResult value => value
  | _ => none

/-- The server and the reply after a command: the tank is left alone, or one operation is fed. -/
inductive Serves (server : Server S) (clock : CommandClock) (args : List (List UInt8)) :
    Server S → RESPValue → Prop
  | quiet {reply : RESPValue} (h : Short reply) : Serves server clock args server reply
  | echo {message : DataString} (hmem : message ∈ [] :: args) :
    Serves server clock args server (.bulkString message)
  | feeds {operation : SepticTankOperation} {reply : RESPValue}
    (hstrings : ∀ string ∈ operationStrings operation, string ∈ [] :: args)
    (hreply : Short reply ∨ ∃ string, reply = .bulkString string ∧
      resultString (septicTankFeed server operation clock).2.value = some string) :
    Serves server clock args (septicTankFeed server operation clock).1 reply

def Answers (argDefs : List CommandArgDefinition) (processor : Handler S) : Prop :=
  ∀ server clock args parsed, parseCommandArguments argDefs args = .ok (.ok parsed) →
    List.Forall₂ (fun argDef arg => Produced args argDef arg.definition arg.value)
      argDefs parsed →
    ∃ server' reply, processor server clock parsed = .ok (server', reply) ∧
      Serves server clock args server' reply

section Short

theorem short_integer (n : Int64) : Short (.integer n) := by
  have h := DecimalText.intText_length_le n
  simp only [Short, RESPValue.wire, crlf, List.length_cons, List.length_append, List.length_nil]
  omega

theorem short_null : Short .null := by
  decide

theorem strlen_take_le {text : List UInt8} {n : ℕ} (h : text.length ≤ n) :
    (text.take (strlen text)).length ≤ n :=
  Nat.le_trans (List.length_take_le _ _) (Nat.le_trans (strlen_le text) h)

theorem short_simpleError {message : String} (h : (cstr message).length ≤ 100) :
    Short (createSimpleError message) := by
  have hstrlen := strlen_take_le h
  simp only [Short, createSimpleError, RESPValue.wire, crlf, List.length_cons,
    List.length_append, List.length_nil]
  omega

theorem short_simpleString {string : String} (h : (cstr string).length ≤ 100) :
    Short (createSimpleString string) := by
  have hstrlen := strlen_take_le h
  simp only [Short, createSimpleString, RESPValue.wire, crlf, List.length_cons,
    List.length_append, List.length_nil]
  omega

theorem outcome_error {operation : SepticTankOperation} {live : Option DataEntry}
    {ts : Timespec} {error : String} (h : (outcome operation live ts).error = some error) :
    (cstr error).length ≤ 100 := by
  cases operation with
  | incrby op =>
    simp only [outcome, incrByOutcome] at h
    split at h
    · cases h
      decide +kernel
    · split at h
      · cases h
        decide +kernel
      · cases h
  | expire op =>
    simp only [outcome, expireOutcome] at h
    split at h
    · cases h
    · split at h <;> cases h
  | _ => cases h

end Short

section Feed

variable (server : Server S) (clock : CommandClock)

theorem feed_result (operation : SepticTankOperation) (h : operation.testsExpiry = true) :
    (septicTankFeed server operation clock).2 =
      outcome operation (visible clock.ts₁ server.tank.tank.data operation.key) clock.ts₂ := by
  rw [← septicTankResolve_outcome server.tank.tank h clock.ts₁ clock.ts₂]
  exact SepticTank.digest_result server.tank.tank ⟨operation, clock.ts₁, clock.ts₂⟩

theorem short_failureReply (operation : SepticTankOperation) (h : operation.testsExpiry = true) :
    Short (failureReply (septicTankFeed server operation clock).2) := by
  unfold failureReply
  split
  · rename_i error herror
    rw [feed_result server clock operation h] at herror
    exact short_simpleError (outcome_error herror)
  · exact short_null

end Feed

section Arguments

variable {argDefs : List CommandArgDefinition} {parsed : List CommandArg}
  {args : List (List UInt8)} {argDef : CommandArgDefinition}

theorem argAt_produced (h : List.Forall₂
      (fun argDef arg => Produced args argDef arg.definition arg.value) argDefs parsed)
    (i : ℕ) (hi : argDefs[i]? = some argDef) :
    ∃ arg, argAt parsed i = .ok arg ∧ Produced args argDef arg.definition arg.value := by
  induction h generalizing i with
  | nil => cases hi
  | cons hfirst hrest ih =>
    cases i with
    | zero =>
      cases hi
      exact ⟨_, rfl, hfirst⟩
    | succ i => exact ih i hi

theorem argAt_operand {name : String} {type : CommandArgType}
    (htype : type = .string ∨ type = .integer) (h : List.Forall₂
      (fun argDef arg => Produced args argDef arg.definition arg.value) argDefs parsed)
    (i : ℕ) (hi : argDefs[i]? = some (commandArg name type false none)) :
    ∃ arg, argAt parsed i = .ok arg ∧
      ∃ text ∈ [] :: args, readOperand type text = some arg.value := by
  obtain ⟨⟨definition, value, tokens, operands⟩, harg, hproduced⟩ := argAt_produced h i hi
  cases hproduced with
  | absent hoptional => cases hoptional
  | reads hreading =>
    cases hreading with
    | operand hmem hread => exact ⟨_, harg, _, hmem, hread⟩
    | token => simp at htype
  | alternative hmem hother => simp at htype

theorem stringArg_produced {name : String} (h : List.Forall₂
      (fun argDef arg => Produced args argDef arg.definition arg.value) argDefs parsed)
    (i : ℕ) (hi : argDefs[i]? = some (commandArg name .string false none)) :
    ∃ text ∈ [] :: args, stringArg parsed i = .ok text := by
  obtain ⟨⟨definition, value, tokens, operands⟩, harg, text, hmem, hread⟩ :=
    argAt_operand (by decide) h i hi
  cases hread
  exact ⟨text, hmem, by rw [stringArg, harg]; rfl⟩

theorem int64Arg_produced {name : String} (h : List.Forall₂
      (fun argDef arg => Produced args argDef arg.definition arg.value) argDefs parsed)
    (i : ℕ) (hi : argDefs[i]? = some (commandArg name .integer false none)) :
    ∃ n, int64Arg parsed i = .ok n := by
  obtain ⟨⟨definition, value, tokens, operands⟩, harg, text, -, hread⟩ :=
    argAt_operand (by decide) h i hi
  obtain ⟨n, -, rfl⟩ := Option.map_eq_some_iff.mp hread
  exact ⟨n, by rw [int64Arg, harg]; rfl⟩

end Arguments

section Handlers

variable {server : Server S} {clock : CommandClock} {args : List (List UInt8)}
  {operation : SepticTankOperation}

theorem keyOnly {key : DataString} (hmem : key ∈ [] :: args)
    (h : operationStrings operation = [key]) :
    ∀ string ∈ operationStrings operation, string ∈ [] :: args := by
  simpa [h] using hmem

theorem serves_short {key : DataString} {reply : RESPValue} (hmem : key ∈ [] :: args)
    (h : operationStrings operation = [key]) (hreply : Short reply) :
    Serves server clock args (septicTankFeed server operation clock).1 reply :=
  .feeds (keyOnly hmem h) (Or.inl hreply)

theorem processPing_answers :
    Answers [commandArg "message" .string true none] (processPing : Handler S) := by
  intro server clock args parsed _ hproduced
  obtain ⟨⟨definition, value, tokens, operands⟩, harg, hmessage⟩ := argAt_produced hproduced 0 rfl
  simp only [processPing, harg]
  cases hmessage with
  | absent hoptional => exact ⟨_, _, rfl, .quiet (short_simpleString (by decide +kernel))⟩
  | reads hreading =>
    cases hreading with
    | operand hmem hread =>
      cases hread
      exact ⟨_, _, rfl, .echo hmem⟩

theorem processInfo_answers : Answers [] (processInfo : Handler S) := by
  intro server clock args parsed _ _
  refine ⟨_, _, rfl, .quiet ?_⟩
  split <;> decide +kernel

theorem processGet_answers : Answers [keyArgDef] (processGet : Handler S) := by
  intro server clock args parsed _ hproduced
  obtain ⟨key, hmem, hkey⟩ := stringArg_produced hproduced 0 rfl
  have hresult := feed_result server clock (.get key) rfl
  simp only [processGet, hkey, bind, Except.bind, hresult, outcome, getOutcome,
    SepticTankOperation.key]
  cases hlive : visible clock.ts₁ server.tank.tank.data key with
  | none => exact ⟨_, _, rfl, serves_short hmem rfl short_null⟩
  | some entry =>
    refine ⟨_, _, rfl, .feeds (keyOnly hmem rfl) (Or.inr ⟨entry.value, rfl, ?_⟩)⟩
    simp [hresult, outcome, getOutcome, SepticTankOperation.key, hlive, resultString]

theorem processDel_answers : Answers [keyArgDef] (processDel : Handler S) := by
  intro server clock args parsed _ hproduced
  obtain ⟨key, hmem, hkey⟩ := stringArg_produced hproduced 0 rfl
  simp only [processDel, hkey, bind, Except.bind, feed_result server clock (.del key) rfl]
  exact ⟨_, _, rfl, serves_short hmem rfl (short_integer _)⟩

theorem processExists_answers : Answers [keyArgDef] (processExists : Handler S) := by
  intro server clock args parsed _ hproduced
  obtain ⟨key, hmem, hkey⟩ := stringArg_produced hproduced 0 rfl
  simp only [processExists, hkey, bind, Except.bind, feed_result server clock (.exists key) rfl]
  exact ⟨_, _, rfl, serves_short hmem rfl (short_integer _)⟩

theorem feed_ttl (server : Server S) (clock : CommandClock) (key : DataString) :
    ∃ ttl, (septicTankFeed server (.ttl key) clock).2 = ⟨.get, .ttlResult ttl, none, true, none⟩ := by
  have hresult : (septicTankFeed server (.ttl key) clock).2 =
      (septicTankTtl server.tank.tank key clock.ts₁).2 :=
    SepticTank.digest_result server.tank.tank ⟨.ttl key, clock.ts₁, clock.ts₂⟩
  rw [hresult, septicTankTtl]
  split
  · exact ⟨_, rfl⟩
  · split <;> exact ⟨_, rfl⟩

theorem processTtl_answers : Answers [keyArgDef] (processTtl : Handler S) := by
  intro server clock args parsed _ hproduced
  obtain ⟨key, hmem, hkey⟩ := stringArg_produced hproduced 0 rfl
  obtain ⟨ttl, hresult⟩ := feed_ttl server clock key
  simp only [processTtl, hkey, bind, Except.bind, hresult]
  exact ⟨_, _, rfl, serves_short hmem rfl (short_integer _)⟩

theorem processIncrementBy_answers {key : DataString} (hmem : key ∈ [] :: args) (delta : Int64) :
    ∃ server' reply, processIncrementBy server clock key delta = .ok (server', reply) ∧
      Serves server clock args server' reply := by
  have hresult := feed_result server clock (.incrby ⟨key, delta⟩) rfl
  have hfailure := short_failureReply server clock (.incrby ⟨key, delta⟩) rfl
  rw [hresult] at hfailure
  simp only [processIncrementBy, hresult]
  generalize houtcome : outcome _ _ _ = result at hfailure
  simp only [outcome, incrByOutcome] at houtcome
  split at houtcome
  · subst houtcome
    exact ⟨_, _, rfl, serves_short hmem rfl hfailure⟩
  · split at houtcome
    · subst houtcome
      exact ⟨_, _, rfl, serves_short hmem rfl hfailure⟩
    · subst houtcome
      exact ⟨_, _, rfl, serves_short hmem rfl (short_integer _)⟩

theorem processIncr_answers : Answers [keyArgDef] (processIncr : Handler S) := by
  intro server clock args parsed _ hproduced
  obtain ⟨key, hmem, hkey⟩ := stringArg_produced hproduced 0 rfl
  simp only [processIncr, hkey]
  exact processIncrementBy_answers hmem 1

theorem processDecr_answers : Answers [keyArgDef] (processDecr : Handler S) := by
  intro server clock args parsed _ hproduced
  obtain ⟨key, hmem, hkey⟩ := stringArg_produced hproduced 0 rfl
  simp only [processDecr, hkey]
  exact processIncrementBy_answers hmem (-1)

theorem processIncrby_answers :
    Answers [keyArgDef, commandArg "increment" .integer false none]
      (processIncrby : Handler S) := by
  intro server clock args parsed _ hproduced
  obtain ⟨key, hmem, hkey⟩ := stringArg_produced hproduced 0 rfl
  obtain ⟨increment, hincrement⟩ := int64Arg_produced hproduced 1 rfl
  simp only [processIncrby, hkey, hincrement]
  exact processIncrementBy_answers hmem increment

theorem processDecrby_answers :
    Answers [keyArgDef, commandArg "decrement" .integer false none]
      (processDecrby : Handler S) := by
  intro server clock args parsed _ hproduced
  obtain ⟨key, hmem, hkey⟩ := stringArg_produced hproduced 0 rfl
  obtain ⟨decrement, hdecrement⟩ := int64Arg_produced hproduced 1 rfl
  simp only [processDecrby, hkey, hdecrement]
  exact processIncrementBy_answers hmem (-decrement)

theorem resolveExpireCondition_produced {arg : CommandArg}
    (h : Produced args (commandArgOneOf "condition" true
      [commandArg "nx" .pureToken false (some "NX"), commandArg "xx" .pureToken false (some "XX"),
        commandArg "gt" .pureToken false (some "GT"),
        commandArg "lt" .pureToken false (some "LT")]) arg.definition arg.value) :
    ∃ condition, resolveExpireCondition arg = .ok condition := by
  obtain ⟨definition, value, tokens, operands⟩ := arg
  cases h with
  | absent hoptional => exact ⟨_, rfl⟩
  | reads hreading =>
    cases hreading with
    | operand hmem hread => cases hread
  | alternative hmem hother =>
    simp only [List.mem_cons, List.not_mem_nil, or_false] at hmem
    rcases hmem with rfl | rfl | rfl | rfl
    all_goals
      cases hother.pureToken
      exact ⟨_, rfl⟩

theorem processExpire_answers : Answers expireArgDefs (processExpire : Handler S) := by
  intro server clock args parsed _ hproduced
  obtain ⟨key, hmem, hkey⟩ := stringArg_produced hproduced 0 rfl
  obtain ⟨seconds, hseconds⟩ := int64Arg_produced hproduced 1 rfl
  obtain ⟨conditionArg, harg, hcondition⟩ := argAt_produced hproduced 2 rfl
  obtain ⟨condition, hresolve⟩ := resolveExpireCondition_produced hcondition
  obtain ⟨operation, hoperation, hop⟩ : ∃ operation,
      expireOperation parsed clock.now = .ok operation ∧ operation.key = key := by
    refine ⟨⟨key, dataNowMs clock.now + seconds * 1000, condition⟩, ?_, rfl⟩
    simp only [expireOperation, hkey, hseconds, harg, hresolve, bind, Except.bind]
    rfl
  have hresult := feed_result server clock (.expire operation) rfl
  have hstrings : operationStrings (.expire operation) = [key] := by rw [← hop]; rfl
  simp only [processExpire, hoperation, bind, Except.bind, hresult]
  generalize houtcome : outcome _ _ _ = result
  simp only [outcome, expireOutcome] at houtcome
  split at houtcome
  · subst houtcome
    exact ⟨_, _, rfl, serves_short hmem hstrings (short_integer _)⟩
  · split at houtcome
    · subst houtcome
      exact ⟨_, _, rfl, serves_short hmem hstrings (short_integer _)⟩
    · subst houtcome
      exact ⟨_, _, rfl, serves_short hmem hstrings (short_integer _)⟩

theorem setOperation_strings {parsed : List CommandArg} {now : Timespec}
    {operation : SepticTankSetOperation} (h : setOperation parsed now = .ok operation) :
    stringArg parsed 0 = .ok operation.key ∧ stringArg parsed 1 = .ok operation.value := by
  simp only [setOperation, bind_eq_ok] at h
  obtain ⟨key, hkey, value, hvalue, _, -, _, -, _, -, _, -, _, -, _, -, h⟩ := h
  cases h
  exact ⟨hkey, hvalue⟩

theorem processSet_answers : Answers setArgDefs (processSet : Handler S) := by
  intro server clock args parsed hparse hproduced
  obtain ⟨operation, hoperation⟩ : ∃ operation, setOperation parsed clock.now = .ok operation := by
    obtain ⟨command, -, hcommand⟩ := setOperation_eq hparse
    exact ⟨_, hcommand⟩
  obtain ⟨hkey, hvalue⟩ := setOperation_strings hoperation
  obtain ⟨key, hmemKey, hkey'⟩ := stringArg_produced hproduced 0 rfl
  obtain ⟨value, hmemValue, hvalue'⟩ := stringArg_produced hproduced 1 rfl
  cases hkey.symm.trans hkey'
  cases hvalue.symm.trans hvalue'
  have hstrings : ∀ string ∈ operationStrings (.set operation), string ∈ [] :: args := by
    exact List.forall_mem_cons.mpr ⟨hmemKey, List.forall_mem_singleton.mpr hmemValue⟩
  obtain ⟨old, mutation, hresult⟩ : ∃ old mutation,
      (septicTankFeed server (.set operation) clock).2 =
        ⟨.set, .setResult old, mutation, true, none⟩ :=
    ⟨_, _, feed_result server clock (.set operation) rfl⟩
  simp only [processSet, hoperation, bind, Except.bind, hresult]
  cases operation.get with
  | true =>
    cases old with
    | none => exact ⟨_, _, rfl, .feeds hstrings (Or.inl short_null)⟩
    | some string => exact ⟨_, _, rfl, .feeds hstrings (Or.inr ⟨string, rfl, by rw [hresult]; rfl⟩)⟩
  | false =>
    cases mutation with
    | none => exact ⟨_, _, rfl, .feeds hstrings (Or.inl short_null)⟩
    | some mutation =>
      exact ⟨_, _, rfl, .feeds hstrings (Or.inl (short_simpleString (by decide +kernel)))⟩

end Handlers

theorem sound_commandArg {name : String} {type : CommandArgType} {isOptional : Bool}
    {token : Option String} (h : type ≠ .oneOf) : (commandArg name type isOptional token).Sound :=
  fun htype => absurd htype h

theorem commands_answer : ∀ commandDef ∈ (commands : List (CommandDefinition S)),
    AllSound commandDef.argDefs ∧ Answers commandDef.argDefs commandDef.processor := by
  have hkey : keyArgDef.Sound := sound_commandArg (by decide)
  have htoken : ∀ (name : String) (token : Option String),
      (commandArg name .pureToken false token).Sound := fun _ _ => sound_commandArg (by decide)
  have hnumber : ∀ name : String, (commandArg name .integer false none).Sound :=
    fun _ => sound_commandArg (by decide)
  simp only [commands, List.forall_mem_cons, List.not_mem_nil, false_imp_iff, implies_true, and_true]
  refine ⟨⟨⟨sound_commandArg (by decide), trivial⟩, processPing_answers⟩, ⟨?_, processSet_answers⟩,
    ⟨⟨hkey, trivial⟩, processGet_answers⟩, ⟨⟨hkey, trivial⟩, processDel_answers⟩,
    ⟨trivial, processInfo_answers⟩, ⟨⟨hkey, trivial⟩, processTtl_answers⟩,
    ⟨⟨hkey, trivial⟩, processExists_answers⟩, ⟨?_, processExpire_answers⟩,
    ⟨⟨hkey, trivial⟩, processIncr_answers⟩, ⟨⟨hkey, trivial⟩, processDecr_answers⟩,
    ⟨⟨hkey, hnumber _, trivial⟩, processIncrby_answers⟩,
    ⟨⟨hkey, hnumber _, trivial⟩, processDecrby_answers⟩⟩
  · exact ⟨sound_commandArg (by decide), sound_commandArg (by decide),
      fun _ => ⟨htoken _ _, htoken _ _, trivial⟩, sound_commandArg (by decide),
      fun _ => ⟨sound_commandArg (by decide), sound_commandArg (by decide),
        sound_commandArg (by decide), sound_commandArg (by decide), htoken _ _, trivial⟩, trivial⟩
  · exact ⟨hkey, hnumber _, fun _ => ⟨htoken _ _, htoken _ _, htoken _ _, htoken _ _, trivial⟩,
      trivial⟩

/-- Every command with its arguments is answered. -/
theorem processCommandHelper_serves (server : Server S) (clock : CommandClock)
    (command : List UInt8) (args : List (List UInt8)) :
    ∃ server' reply, processCommandHelper server clock command args = .ok (server', reply) ∧
      Serves server clock args server' reply := by
  unfold processCommandHelper
  split
  · exact ⟨_, _, rfl, .quiet (short_simpleError (by decide +kernel))⟩
  · rename_i commandDef hfind
    obtain ⟨hsound, hanswers⟩ := commands_answer commandDef (List.mem_of_find?_eq_some hfind)
    obtain ⟨result, hparse⟩ := parseCommandArguments_returns hsound args
    rw [hparse]
    cases result with
    | error code => exact ⟨_, _, rfl, .quiet (short_simpleError (by decide +kernel))⟩
    | ok parsed =>
      exact hanswers server clock args parsed hparse (parseCommandArguments_produced hsound hparse)

end Redic.Command
