import Redic.Command.Call
import Redic.Command.Effect

/-! # What a command asks of the tank

The words of a command and the handler's clock reading fix a plan before the tank is asked: an
answer of the server's own, or one operation and what each result of it is answered with. So a
command is as atomic as one operation, and servers that differ in their tanks only go separate
ways only where their tanks do.
-/
namespace Redic.Command

variable {S : Type} [KeyStore S]

inductive CommandPlan
  | answer (reply : Bool → RESPValue)
  | feed (operation : SepticTankOperation) (reply : SepticTankResult → RESPValue)

namespace CommandPlan

def execute (plan : CommandPlan) (server : Server S) (clock : CommandClock) :
    Server S × RESPValue :=
  match plan with
  | answer reply => (server, reply server.maybeMaster)
  | feed operation reply =>
    let (server, result) := septicTankFeed server operation clock
    (server, reply result)

/-- The operation carries arguments of the command only. -/
def Carries (plan : CommandPlan) (args : List (List UInt8)) : Prop :=
  match plan with
  | answer _ => True
  | feed operation _ => ∀ string ∈ operationStrings operation, string ∈ [] :: args

def testsExpiry : CommandPlan → Bool
  | answer _ => true
  | feed operation _ => operation.testsExpiry

end CommandPlan

/-- What a call comes to when its reply never stops. -/
def HandlerCall.plan : HandlerCall → CommandPlan
  | answer reply => .answer reply
  | feed operation reply => .feed operation fun result => (reply result).toOption.getD .null

theorem HandlerCall.execute_plan {call : HandlerCall} {server server' : Server S}
    {clock : CommandClock} {reply : RESPValue}
    (h : call.execute server clock = .ok (server', reply)) :
    call.plan.execute server clock = (server', reply) := by
  cases call with
  | answer answer =>
    cases h
    rfl
  | feed operation answer =>
    obtain ⟨rfl, hanswer⟩ := HandlerCall.execute_feed h
    simp only [HandlerCall.plan, CommandPlan.execute, hanswer, Except.toOption, Option.getD_some]

/-- From arguments that parse, a call carries strings of theirs, and but for a `TTL` the operation
tests for expiry. -/
def Plans (argDefs : List CommandArgDefinition)
    (call : Timespec → List CommandArg → Except ServerStop HandlerCall) (tests : Bool) : Prop :=
  ∀ now args parsed found,
    List.Forall₂ (fun argDef arg => Produced args argDef arg.definition arg.value)
      argDefs parsed → call now parsed = .ok found →
    found.plan.Carries args ∧ (tests = true → found.plan.testsExpiry = true)

section Calls

theorem callPing_plans {argDefs : List CommandArgDefinition} {tests : Bool} :
    Plans argDefs (fun _ => callPing) tests := by
  intro now args parsed found _ hcall
  obtain ⟨messageArg, -, hcall⟩ := bind_eq_ok.mp hcall
  obtain ⟨option, -, hcall⟩ := bind_eq_ok.mp hcall
  cases option with
  | none =>
    cases hcall
    exact ⟨trivial, fun _ => rfl⟩
  | some value =>
    obtain ⟨message, -, hcall⟩ := bind_eq_ok.mp hcall
    cases hcall
    exact ⟨trivial, fun _ => rfl⟩

theorem callInfo_plans {argDefs : List CommandArgDefinition} {tests : Bool} :
    Plans argDefs (fun _ _ => callInfo) tests := by
  intro now args parsed found _ hcall
  cases hcall
  exact ⟨trivial, fun _ => rfl⟩

theorem callKey_plans {operation : DataString → SepticTankOperation} {tests : Bool}
    {reply : SepticTankResult → Except ServerStop RESPValue}
    (hstrings : ∀ key, operationStrings (operation key) = [key])
    (htests : ∀ key, tests = true → (operation key).testsExpiry = true) :
    Plans [keyArgDef] (fun _ => callKey operation reply) tests := by
  intro now args parsed found hproduced hcall
  obtain ⟨key, hmem, hkey⟩ := stringArg_produced hproduced 0 rfl
  obtain ⟨key', hkey', hcall⟩ := bind_eq_ok.mp hcall
  cases hkey.symm.trans hkey'
  cases hcall
  exact ⟨keyOnly hmem (hstrings key), htests key⟩

theorem callNumber_plans {name : String} {delta : Int64 → Int64} {tests : Bool} :
    Plans [keyArgDef, commandArg name .integer false none] (fun _ => callNumber delta) tests := by
  intro now args parsed found hproduced hcall
  obtain ⟨key, hmem, hkey⟩ := stringArg_produced hproduced 0 rfl
  obtain ⟨key', hkey', hcall⟩ := bind_eq_ok.mp hcall
  obtain ⟨number, -, hcall⟩ := bind_eq_ok.mp hcall
  cases hkey.symm.trans hkey'
  cases hcall
  exact ⟨keyOnly hmem rfl, fun _ => rfl⟩

theorem callExpire_plans {tests : Bool} : Plans expireArgDefs callExpire tests := by
  intro now args parsed found hproduced hcall
  obtain ⟨key, hmem, hkey⟩ := stringArg_produced hproduced 0 rfl
  obtain ⟨operation, hoperation, hcall⟩ := bind_eq_ok.mp hcall
  simp only [expireOperation, bind_eq_ok] at hoperation
  obtain ⟨key', hkey', _, -, _, -, _, -, hoperation⟩ := hoperation
  cases hkey.symm.trans hkey'
  cases hoperation
  cases hcall
  exact ⟨keyOnly hmem rfl, fun _ => rfl⟩

theorem callSet_plans {tests : Bool} : Plans setArgDefs callSet tests := by
  intro now args parsed found hproduced hcall
  obtain ⟨key, hmemKey, hkey⟩ := stringArg_produced hproduced 0 rfl
  obtain ⟨value, hmemValue, hvalue⟩ := stringArg_produced hproduced 1 rfl
  obtain ⟨operation, hoperation, hcall⟩ := bind_eq_ok.mp hcall
  obtain ⟨hkey', hvalue'⟩ := setOperation_strings hoperation
  cases hkey.symm.trans hkey'
  cases hvalue.symm.trans hvalue'
  cases hcall
  exact ⟨List.forall_mem_cons.mpr ⟨hmemKey, List.forall_mem_singleton.mpr hmemValue⟩, fun _ => rfl⟩

end Calls

theorem commandCalls_plan : ∀ commandDef ∈ commandCalls,
    Plans commandDef.argDefs commandDef.call (commandDef.name != "TTL") := by
  simp only [commandCalls, List.forall_mem_cons, List.not_mem_nil, false_imp_iff, implies_true,
    and_true]
  exact ⟨callPing_plans, callSet_plans, callKey_plans (fun _ => rfl) fun _ _ => rfl,
    callKey_plans (fun _ => rfl) fun _ _ => rfl, callInfo_plans,
    callKey_plans (fun _ => rfl) (fun _ htests => absurd htests (by decide)),
    callKey_plans (fun _ => rfl) fun _ _ => rfl, callExpire_plans,
    callKey_plans (fun _ => rfl) fun _ _ => rfl, callKey_plans (fun _ => rfl) fun _ _ => rfl,
    callNumber_plans, callNumber_plans⟩

theorem commandCalls_sound : ∀ commandDef ∈ commandCalls, AllSound commandDef.argDefs := by
  intro commandDef hmem
  have hof : List.Forall₂ CommandCall.Of commandCalls
      (commands : List (CommandDefinition FiniteStore)) := commandCalls_of
  obtain ⟨i, hi, rfl⟩ := List.getElem_of_mem hmem
  have hdef := (List.forall₂_iff_get.mp hof).2 i hi (hof.length_eq ▸ hi)
  have hargDefs : commandCalls[i].argDefs = _ := hdef.argDefs
  rw [hargDefs]
  exact (commands_answer _ (List.get_mem _ _)).1

/-- What a thread gets to without the tank carries the words of the command. -/
theorem commandCall_plans {now : Timespec} {command : List UInt8} {args : List (List UInt8)}
    {call : HandlerCall} (h : commandCall now command args = .ok call) :
    call.plan.Carries args ∧
      (strEqCi command (cstr "TTL") = false → call.plan.testsExpiry = true) := by
  unfold commandCall at h
  split at h
  · cases h
    exact ⟨trivial, fun _ => rfl⟩
  · rename_i commandDef hfind
    have hmem := List.mem_of_find?_eq_some hfind
    split at h
    · cases h
    · cases h
      exact ⟨trivial, fun _ => rfl⟩
    · rename_i parsed hparse
      have hproduced := parseCommandArguments_produced (commandCalls_sound commandDef hmem) hparse
      obtain ⟨hcarries, htests⟩ := commandCalls_plan commandDef hmem now args parsed call hproduced h
      refine ⟨hcarries, fun hname => htests ?_⟩
      have hfound := List.find?_some hfind
      rw [bne_iff_ne]
      intro httl
      rw [httl, hname] at hfound
      cases hfound

/-- Nothing stops a command before its call, and after it nothing but the tank is waited for. -/
theorem processCommandHelper_calls (server : Server S) (clock : CommandClock)
    (command : List UInt8) (args : List (List UInt8)) :
    ∃ call server' reply, commandCall clock.now command args = .ok call ∧
      call.execute server clock = .ok (server', reply) ∧
      processCommandHelper server clock command args = .ok (server', reply) := by
  obtain ⟨server', reply, hreply, -⟩ := processCommandHelper_serves server clock command args
  have hcall := hreply
  rw [processCommandHelper_eq, bind_eq_ok] at hcall
  obtain ⟨call, hcall, hexecute⟩ := hcall
  exact ⟨call, server', reply, hcall, hexecute, hreply⟩

theorem processCommandHelper_plans (now : Timespec) (command : List UInt8)
    (args : List (List UInt8)) : ∃ plan : CommandPlan, plan.Carries args ∧
      (strEqCi command (cstr "TTL") = false → plan.testsExpiry = true) ∧
      ∀ (server : Server S) (clock : CommandClock), clock.now = now →
        processCommandHelper server clock command args = .ok (plan.execute server clock) := by
  obtain ⟨call, -, -, hcall, -⟩ := processCommandHelper_calls
    (⟨⟨septicTankCreate, []⟩, false⟩ : Server S) ⟨now, now, now⟩ command args
  obtain ⟨hcarries, htests⟩ := commandCall_plans hcall
  refine ⟨call.plan, hcarries, htests, ?_⟩
  rintro server clock rfl
  obtain ⟨call', server', reply, hcall', hexecute, hreply⟩ :=
    processCommandHelper_calls server clock command args
  cases hcall.symm.trans hcall'
  rw [hreply, HandlerCall.execute_plan hexecute]

end Redic.Command
