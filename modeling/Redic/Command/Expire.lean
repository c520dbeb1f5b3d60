import Redic.Command.Effect
import Redic.SepticTank.ExpireContract

/-! # EXPIRE from the words of the client to its reply

The condition is the one that the last word spells, and the reply says whether the deadline was
set.
-/
namespace Redic.Command
open KeyStore InputArgArray

def expireConditionWord : ExpireCondition → Option String
  | .none => none
  | .nx => some "NX"
  | .xx => some "XX"
  | .gt => some "GT"
  | .lt => some "LT"

def expireWords (key text : DataString) (condition : ExpireCondition) : List (List UInt8) :=
  key :: text :: ((expireConditionWord condition).map cstr).toList

def expireConditionDefs : List CommandArgDefinition :=
  [commandArg "nx" .pureToken false (some "NX"), commandArg "xx" .pureToken false (some "XX"),
    commandArg "gt" .pureToken false (some "GT"), commandArg "lt" .pureToken false (some "LT")]

def expireConditionDef : CommandArgDefinition :=
  commandArgOneOf "condition" true expireConditionDefs

def expireConditionArg : ExpireCondition → CommandArg
  | .none => expireConditionDef.absent
  | .nx => ⟨commandArg "nx" .pureToken false (some "NX"), .option (some .token), [2], []⟩
  | .xx => ⟨commandArg "xx" .pureToken false (some "XX"), .option (some .token), [2], []⟩
  | .gt => ⟨commandArg "gt" .pureToken false (some "GT"), .option (some .token), [2], []⟩
  | .lt => ⟨commandArg "lt" .pureToken false (some "LT"), .option (some .token), [2], []⟩

/-- No text spells both the token and the one that announces the definition. -/
def Unlike (token : String) (other : CommandArgDefinition) : Prop :=
  ∃ word, Announced other word ∧ strEqCi (cstr token) (cstr word) = false

variable {iaa : InputArgArray}

theorem parse_lastWord {name : String} {skipped rest : List CommandArgDefinition}
    {argDef : CommandArgDefinition} {token : String} {idx : ℕ} (hfree : iaa.unresolved = [idx])
    (htext : iaa.text idx = cstr token) (hannounced : Announced argDef token)
    (hpure : argDef.type = .pureToken)
    (hskipped : ∀ other ∈ skipped, Unlike token other) :
    parseCommandArgument (commandArgOneOf name true (skipped ++ argDef :: rest)) iaa =
      .ok (.ok ⟨argDef, .option (some .token), [idx], []⟩, iaa.resolve idx) := by
  have hfirst : FirstSpelled iaa token [] idx [] :=
    ⟨hfree, fun _ h => absurd h List.not_mem_nil, by rw [htext, strEqCi_iff]⟩
  have hnone : NoneSpelled iaa skipped := by
    intro other hother
    obtain ⟨word, hword, hne⟩ := hskipped other hother
    refine ⟨word, hword, ?_⟩
    intro i hi
    rw [hfree, List.mem_singleton] at hi
    rw [hi, htext, hne]
  have hparse := parseCommandArgument_pureToken hannounced.token hpure hfirst
  rw [parseCommandArgument_oneOf, parseAlternatives_append hnone,
    parseAlternatives_cons hparse (by simp)]
  simp only [CommandArgDefinition.wrap, hannounced.required]
  rfl

theorem parse_expireCondition {condition : ExpireCondition}
    (hfree : iaa.unresolved = ((expireConditionWord condition).map fun _ => 2).toList)
    (htext : ∀ word, expireConditionWord condition = some word → iaa.text 2 = cstr word) :
    ∃ iaa', parseCommandArgument expireConditionDef iaa =
      .ok (.ok (expireConditionArg condition), iaa') ∧ iaa'.unresolved = [] := by
  have hannounced : ∀ name token : String,
      Announced (commandArg name .pureToken false (some token)) token := fun _ _ => ⟨rfl, rfl⟩
  -- the word spells none of the tokens that come before its own
  have hother : ∀ name word token : String, strEqCi (cstr token) (cstr word) = false →
      Unlike token (commandArg name .pureToken false (some word)) :=
    fun _ word _ h => ⟨word, hannounced _ _, h⟩
  cases condition with
  | none =>
    have hnone : NoneSpelled iaa expireConditionDefs := by
      intro other hother
      simp only [expireConditionDefs, List.mem_cons, List.not_mem_nil, or_false] at hother
      have hnot : ∀ token, NotSpelled iaa token := by
        intro token i hi
        rw [hfree] at hi
        cases hi
      rcases hother with rfl | rfl | rfl | rfl
      all_goals exact ⟨_, hannounced _ _, hnot _⟩
    refine ⟨iaa, ?_, hfree⟩
    rw [expireConditionDef, parseCommandArgument_oneOf, parseAlternatives_none hnone]
    rfl
  | nx =>
    refine ⟨iaa.resolve 2, ?_, unresolved_resolve_head hfree⟩
    exact parse_lastWord hfree (htext _ rfl) (hannounced _ _) rfl
      (fun _ h => absurd h List.not_mem_nil)
  | xx =>
    refine ⟨iaa.resolve 2, ?_, unresolved_resolve_head hfree⟩
    have hskipped := List.forall_mem_singleton.mpr (hother "nx" "NX" "XX" (by decide +kernel))
    exact parse_lastWord hfree (htext _ rfl) (hannounced _ _) rfl hskipped
  | gt =>
    refine ⟨iaa.resolve 2, ?_, unresolved_resolve_head hfree⟩
    have hskipped := List.forall_mem_cons.mpr ⟨hother "nx" "NX" "GT" (by decide +kernel),
      List.forall_mem_singleton.mpr (hother "xx" "XX" "GT" (by decide +kernel))⟩
    exact parse_lastWord hfree (htext _ rfl) (hannounced _ _) rfl hskipped
  | lt =>
    refine ⟨iaa.resolve 2, ?_, unresolved_resolve_head hfree⟩
    have hskipped := List.forall_mem_cons.mpr ⟨hother "nx" "NX" "LT" (by decide +kernel),
      List.forall_mem_cons.mpr ⟨hother "xx" "XX" "LT" (by decide +kernel),
        List.forall_mem_singleton.mpr (hother "gt" "GT" "LT" (by decide +kernel))⟩⟩
    exact parse_lastWord hfree (htext _ rfl) (hannounced _ _) rfl hskipped

/-- The words of an EXPIRE are parsed into its key, its seconds and its condition. -/
theorem parse_expireWords {key text : DataString} {seconds : Int64} {condition : ExpireCondition}
    (h : parseInt64 text = some seconds) :
    parseCommandArguments expireArgDefs (expireWords key text condition) =
      .ok (.ok [⟨keyArgDef, .string key, [], [0]⟩,
        ⟨commandArg "seconds" .integer false none, .integer seconds, [], [1]⟩,
        expireConditionArg condition]) := by
  let words := ((expireConditionWord condition).map cstr).toList
  have hfree : (keyNumberLeft key text words).unresolved =
      ((expireConditionWord condition).map fun _ => 2).toList := by
    rw [unresolved_keyNumberLeft]
    cases condition <;> rfl
  have htext : ∀ word, expireConditionWord condition = some word →
      (keyNumberLeft key text words).text 2 = cstr word := by
    intro word hword
    simp only [words, hword]
    rfl
  obtain ⟨last, hcondition, hlast⟩ := parse_expireCondition hfree htext
  have hrest : parseDefinitions [expireConditionDef] (keyNumberLeft key text words) =
      .ok (.ok [expireConditionArg condition], last) :=
    parseDefinitions_cons_ok.mpr ⟨_, _, _, hcondition, rfl, rfl⟩
  exact parse_keyNumber "seconds" h hrest hlast

variable {S : Type} [KeyStore S]

def expire (server : Server S) (clock : CommandClock) (key text : DataString)
    (condition : ExpireCondition) : Except ServerStop (Server S × RESPValue) :=
  processCommandHelper server clock (cstr "EXPIRE") (expireWords key text condition)

/-- The seconds count from the handler's own clock reading. -/
def expireOperationOf (clock : CommandClock) (key : DataString) (seconds : Int64)
    (condition : ExpireCondition) : SepticTankExpireOperation :=
  ⟨key, dataNowMs clock.now + seconds * 1000, condition⟩

theorem resolveExpireCondition_arg (condition : ExpireCondition) :
    resolveExpireCondition (expireConditionArg condition) = .ok condition := by
  cases condition <;> rfl

/-- An EXPIRE is digested as one operation, and its reply is what that operation reports. -/
theorem expire_eq {server : Server S} {clock : CommandClock} {key text : DataString}
    {seconds : Int64} {condition : ExpireCondition} {n : Int64}
    (h : parseInt64 text = some seconds)
    (hreport : (septicTankFeed server
      (.expire (expireOperationOf clock key seconds condition)) clock).2.value = .expireResult n)
    (hsuccess : (septicTankFeed server
      (.expire (expireOperationOf clock key seconds condition)) clock).2.success = true) :
    expire server clock key text condition = .ok ((septicTankFeed server
      (.expire (expireOperationOf clock key seconds condition)) clock).1, .integer n) := by
  have hmem : (expireCommand : CommandDefinition S) ∈ commands := by simp [commands]
  have hoperation : expireOperation [⟨keyArgDef, .string key, [], [0]⟩,
      ⟨commandArg "seconds" .integer false none, .integer seconds, [], [1]⟩,
      expireConditionArg condition] clock.now =
      .ok (expireOperationOf clock key seconds condition) := by
    simp only [expireOperation, stringArg, int64Arg, argAt, List.getElem?_cons_zero,
      List.getElem?_cons_succ, asString, asInt64, bind, Except.bind, resolveExpireCondition_arg]
    rfl
  refine (processCommandHelper_of_mem hmem (parse_expireWords h)).trans ?_
  simp only [expireCommand, processExpire, hoperation, bind, Except.bind, hsuccess, hreport,
    Bool.not_true, Bool.false_eq_true, if_false]
  rfl

/-- EXPIRE does to a finite map what its condition asks for and reports it to the client; a run of
EXPIRE GT never brings a deadline forward and loses no live key, and a run of EXPIRE LT never puts
a deadline off. -/
theorem expire_endToEnd [LawfulKeyStore S] :
    (∀ (tank : SepticTank S) (op : SepticTankExpireOperation) (ts₁ ts₂ : Timespec),
      ExpireContract tank op ts₁ ts₂) ∧
    (∀ (server : Server S) (clock : CommandClock) (key text : DataString) (seconds : Int64)
      (condition : ExpireCondition), parseInt64 text = some seconds →
      let op := expireOperationOf clock key seconds condition
      ∃ n, expire server clock key text condition =
          .ok ((septicTankFeed server (.expire op) clock).1, .integer n) ∧
        (n = 1 ↔ ExpireSets server.tank.tank op clock.ts₁) ∧
        (n = 0 ↔ ¬ ExpireSets server.tank.tank op clock.ts₁)) ∧
    (∀ (tank : SepticTank S) (inputs : List ExpireInput),
      (∀ input ∈ inputs, input.op.condition = .gt) → ∀ key,
        (∀ entry', hashmapGet (expireRun tank inputs).data key = some entry' →
          Descends (· ≤ ·) (hashmapGet tank.data key) entry') ∧
        ∀ entry, hashmapGet tank.data key = some entry → StaysLive key tank inputs →
          ∃ entry', hashmapGet (expireRun tank inputs).data key = some entry') ∧
    (∀ (tank : SepticTank S) (inputs : List ExpireInput),
      (∀ input ∈ inputs, input.op.condition = .lt) → ∀ key entry',
        hashmapGet (expireRun tank inputs).data key = some entry' →
          Descends (· ≥ ·) (hashmapGet tank.data key) entry') := by
  refine ⟨expireContract, ?_, ?_, ?_⟩
  · intro server clock key text seconds condition htext op
    have hcontract := expireContract server.tank.tank op clock.ts₁ clock.ts₂
    obtain ⟨n, hreport, hone, hzero⟩ := hcontract.reports
    exact ⟨n, expire_eq htext hreport hcontract.succeeds.1, hone, hzero⟩
  · intro tank inputs hconditions key
    constructor
    · intro entry' hentry
      have hkeeps : ∀ input ∈ inputs, input.Keeps (· ≤ ·) :=
        fun input hmem => ExpireInput.keeps_gt (hconditions input hmem)
      exact expireRun_descends hkeeps hentry
    · intro entry hentry hlive
      exact expireRun_live hconditions hentry hlive
  · intro tank inputs hconditions key entry' hentry
    have hkeeps : ∀ input ∈ inputs, input.Keeps (· ≥ ·) :=
      fun input hmem => ExpireInput.keeps_lt (hconditions input hmem)
    exact expireRun_descends hkeeps hentry

/-- Two EXPIRE GT on a key with four seconds left: one puts its deadline off, the other comes when
the first deadline has passed and is too early for the new one. -/
theorem expire_endToEnd_gt :
    let at₁ := Timespec.atSecond 1 (by decide) (by decide)
    let at₆ := Timespec.atSecond 6 (by decide) (by decide)
    let tank : SepticTank FiniteStore :=
      { data := Finmap.singleton [107] (dataCreateStringEntry (some 5000) [118])
        aofEnabled := true }
    let inputs : List ExpireInput :=
      [⟨⟨[107], 9000, .gt⟩, at₁, at₁⟩, ⟨⟨[107], 7000, .gt⟩, at₆, at₆⟩]
    ∃ entry', hashmapGet (expireRun tank inputs).data [107] = some entry' ∧
      Descends (· ≤ ·) (hashmapGet tank.data [107]) entry' := by
  intro at₁ at₆ tank inputs
  have hentry : hashmapGet tank.data [107] = some (dataCreateStringEntry (some 5000) [118]) := by
    decide
  have hlive : StaysLive [107] tank inputs :=
    ⟨⟨_, hentry, by decide, by decide⟩,
      ⟨dataCreateStringEntry (some 9000) [118], by decide +kernel, by decide, by decide⟩, trivial⟩
  obtain ⟨hdescends, hstays⟩ := expire_endToEnd.2.2.1 tank inputs (by decide) [107]
  obtain ⟨entry', hfound⟩ := hstays _ hentry hlive
  exact ⟨entry', hfound, hdescends entry' hfound⟩

end Redic.Command
