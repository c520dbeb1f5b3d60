import Redic.Command.Handlers
import Redic.Command.SetAdjacency

/-! # The operation of a SET

Parsed arguments have the shape that the handler reads: none of its branches that end the process
is taken, and the operation is the one of the command that the arguments stand for.
-/
namespace Redic
open Command

def setDeadline (now : Timespec) : Option SetExpiration → SepticTankExpiration
  | none => ⟨.noExpire, 0⟩
  | some (.ex s) => ⟨.unixTs, dataNowMs now + s * 1000⟩
  | some (.px ms) => ⟨.unixTs, dataNowMs now + ms⟩
  | some (.exat unixS) => ⟨.unixTs, unixS * 1000⟩
  | some (.pxat unixMs) => ⟨.unixTs, unixMs⟩
  | some .keepttl => ⟨.keepOld, 0⟩

def SetCommand.operation (command : SetCommand) (now : Timespec) : SepticTankSetOperation where
  key := command.key
  value := command.value
  nx := command.condition == some .nx
  xx := command.condition == some .xx
  get := command.get
  expiration := setDeadline now command.expiration

/-- What a slot of SET comes to: nothing, a token, or a token with a number. -/
inductive SlotValue (slot : SetSlot) (arg : CommandArg) : Prop
  | absent (h : arg.value = .option none)
  | token (token : SetToken) (hslot : token.slot = slot) (hpure : token.takesOperand = false)
    (hdefinition : arg.definition = token.argDef) (h : arg.value = .option (some .token))
  | number (token : SetToken) (n : Int64) (hslot : token.slot = slot)
    (hoperand : token.takesOperand = true) (hdefinition : arg.definition = token.argDef)
    (h : arg.value = .option (some (.integer n)))

theorem readValue_integer {token : SetToken} {text : List UInt8} {value : CommandArgValue}
    (hoperand : token.takesOperand = true) (h : token.readValue (some text) = some value) :
    ∃ n, value = .integer n := by
  cases token with
  | ex =>
    obtain ⟨n, -, rfl⟩ := Option.map_eq_some_iff.mp h
    exact ⟨n, rfl⟩
  | px =>
    obtain ⟨n, -, rfl⟩ := Option.map_eq_some_iff.mp h
    exact ⟨n, rfl⟩
  | exat => exact ⟨_, (Option.some.inj h).symm⟩
  | pxat => exact ⟨_, (Option.some.inj h).symm⟩
  | nx => cases hoperand
  | xx => cases hoperand
  | get => cases hoperand
  | keepttl => cases hoperand

variable {iaa iaa' : InputArgArray} {slot : SetSlot} {arg : CommandArg}

theorem slotValue_of_parse (hwhole : iaa.Whole)
    (hparse : parseCommandArgument slot.argDef iaa = .ok (.ok arg, iaa')) : SlotValue slot arg := by
  rcases parseSlot_ok hwhole hparse with ⟨-, rfl, -⟩ |
    ⟨token, before, idx, operand, after, value, hfills, hread, rfl, -⟩
  · exact .absent rfl
  · have hslot := hfills.token_slot
    have hsome := hfills.operand_isSome
    cases operand with
    | none =>
      cases hread
      exact .token token hslot hsome.symm rfl rfl
    | some operand =>
      obtain ⟨n, rfl⟩ := readValue_integer hsome.symm hread
      exact .number token n hslot hsome.symm rfl rfl

variable {now : Timespec}

/-- `get_expire_time` knows every definition that can fill the slot. -/
theorem getExpireTime_eq (h : SlotValue .expiration arg) :
    getExpireTime arg now = .ok (setDeadline now (setExpirationOf arg.matched)) := by
  obtain ⟨definition, value, tokens, operands⟩ := arg
  cases h with
  | absent h =>
    cases h
    rfl
  | token token hslot hpure hdefinition h =>
    cases h
    cases hdefinition
    cases token <;> first | rfl | exact absurd hslot (by decide) | exact absurd hpure (by decide)
  | number token n hslot hoperand hdefinition h =>
    cases h
    cases hdefinition
    cases token <;> first | rfl | exact absurd hslot (by decide) | exact absurd hoperand (by decide)

theorem condition_eq (h : SlotValue .condition arg) :
    ∃ option, arg.value = .option option ∧
      (option.isSome && arg.definition.name == "nx") =
        (setConditionOf arg.matched == some .nx) ∧
      (option.isSome && arg.definition.name == "xx") =
        (setConditionOf arg.matched == some .xx) := by
  obtain ⟨definition, value, tokens, operands⟩ := arg
  cases h with
  | absent h =>
    cases h
    exact ⟨none, rfl, rfl, rfl⟩
  | token token hslot hpure hdefinition h =>
    cases h
    cases hdefinition
    refine ⟨_, rfl, ?_⟩
    cases token <;> exact ⟨rfl, rfl⟩
  | number token n hslot hoperand hdefinition h =>
    cases token <;> first | exact absurd hslot (by decide) | exact absurd hoperand (by decide)

theorem get_eq (h : SlotValue .get arg) :
    ∃ option, arg.value = .option option ∧ option.isSome = arg.matched.isSome := by
  obtain ⟨definition, value, tokens, operands⟩ := arg
  cases h with
  | absent h =>
    cases h
    exact ⟨none, rfl, rfl⟩
  | token token hslot hpure hdefinition h =>
    cases h
    exact ⟨_, rfl, rfl⟩
  | number token n hslot hoperand hdefinition h =>
    cases token <;> first | exact absurd hslot (by decide) | exact absurd hoperand (by decide)

theorem setOperation_eq {args : List (List UInt8)} {parsed : List CommandArg}
    (h : parseCommandArguments setArgDefs args = .ok (.ok parsed)) :
    ∃ command, setCommandOf parsed = some command ∧
      setOperation parsed now = .ok (command.operation now) := by
  obtain ⟨key, value, words, condition, get, expiration, iaa₁, iaa₂, iaa₃, rfl, rfl, hslots⟩ :=
    parseSet_ok h
  have hwhole := behindValue_whole key value words
  obtain ⟨hfirst₁, -⟩ := takesFirst (by decide) hwhole hslots.condition
  obtain ⟨hfirst₂, -⟩ := takesFirst (by decide) hfirst₁.whole hslots.get
  obtain ⟨conditionOption, hcondition, hnx, hxx⟩ :=
    condition_eq (slotValue_of_parse hwhole hslots.condition)
  obtain ⟨getOption, hget, hisSome⟩ := get_eq (slotValue_of_parse hfirst₁.whole hslots.get)
  have hexpire : getExpireTime expiration now =
      .ok (setDeadline now (setExpirationOf expiration.matched)) :=
    getExpireTime_eq (slotValue_of_parse hfirst₂.whole hslots.expiration)
  refine ⟨_, rfl, ?_⟩
  simp only [SetCommand.operation, ← hnx, ← hxx, ← hisSome]
  simp [setOperation, stringArg, argAt, asString, asOption, keyArg, valueArg, hcondition, hget,
    hexpire, bind, Except.bind, pure, Except.pure]

theorem bind_eq_ok {ε α β : Type} {x : Except ε α} {f : α → Except ε β} {b : β} :
    x >>= f = .ok b ↔ ∃ a, x = .ok a ∧ f a = .ok b := by
  cases x with
  | error e => simp [bind, Except.bind]
  | ok a => simp [bind, Except.bind]

theorem setOperation_expiration {key value condition get expiration : CommandArg}
    {operation : SepticTankSetOperation}
    (h : setOperation [key, value, condition, get, expiration] now = .ok operation) :
    getExpireTime expiration now = .ok operation.expiration := by
  simp only [setOperation, bind_eq_ok] at h
  obtain ⟨_, -, _, -, _, -, _, -, _, -, _, -, last, hlast, deadline, hdeadline, h⟩ := h
  cases hlast
  cases h
  exact hdeadline

end Redic
