import Redic.Command.SetHandler
import Redic.Foundation.Int64Range
import Redic.ParseInt64

/-! # Deadlines

Four clauses of SET and the seconds of EXPIRE become an absolute deadline in milliseconds. No
handler checks the range of the number, so the arithmetic is exact for some numbers only.
-/
namespace Redic
open Command DecimalText Int64Range

inductive DeadlineKind
  | ex | px | exat | pxat | expire
  deriving DecidableEq, Repr

namespace DeadlineKind

def setToken : DeadlineKind → Option SetToken
  | ex => some .ex
  | px => some .px
  | exat => some .exat
  | pxat => some .pxat
  | expire => none

def argType : DeadlineKind → CommandArgType
  | ex | px | expire => .integer
  | exat | pxat => .unixTime

def compute (nowMs number : Int64) : DeadlineKind → Int64
  | ex => nowMs + number * 1000
  | px => nowMs + number
  | exat => number * 1000
  | pxat => number
  | expire => nowMs + number * 1000

def exact (nowMs number : ℤ) : DeadlineKind → ℤ
  | ex => nowMs + 1000 * number
  | px => nowMs + number
  | exat => 1000 * number
  | pxat => number
  | expire => nowMs + 1000 * number

def intermediates (nowMs number : ℤ) : DeadlineKind → List ℤ
  | ex => [1000 * number, nowMs + 1000 * number]
  | px => [nowMs + number]
  | exat => [1000 * number]
  | pxat => []
  | expire => [1000 * number, nowMs + 1000 * number]

def InBounds (nowMs number : ℤ) : DeadlineKind → Prop
  | ex => -9223372036854775 ≤ number ∧ number ≤ (9223372036854775807 - nowMs) / 1000
  | px => number ≤ 9223372036854775807 - nowMs
  | exat => -9223372036854775 ≤ number ∧ number ≤ 9223372036854775
  | pxat => -9223372036854775808 ≤ number ∧ number ≤ 9223372036854775807
  | expire => -9223372036854775 ≤ number ∧ number ≤ (9223372036854775807 - nowMs) / 1000

end DeadlineKind

/-- A command is accepted and the deadline in its operation is computed from the text. -/
inductive PlacesDeadline (now : Timespec) (args : List (List UInt8)) :
    DeadlineKind → List UInt8 → Int64 → Prop
  | set {kind : DeadlineKind} {token : SetToken} {parsed : List CommandArg} {arg : CommandArg}
      {position : ℕ} {operation : SepticTankSetOperation}
      (hkind : kind.setToken = some token)
      (hparse : parseCommandArguments setArgDefs args = .ok (.ok parsed))
      (harg : parsed[4]? = some arg) (htoken : arg.definition.token = some token.word)
      (hposition : arg.operandPositions = [position])
      (hoperation : setOperation parsed now = .ok operation) :
      PlacesDeadline now args kind (args.getD position []) operation.expiration.ts
  | expire {parsed : List CommandArg} {arg : CommandArg} {position : ℕ}
      {operation : SepticTankExpireOperation}
      (hparse : parseCommandArguments expireArgDefs args = .ok (.ok parsed))
      (harg : parsed[1]? = some arg) (hposition : arg.operandPositions = [position])
      (hoperation : expireOperation parsed now = .ok operation) :
      PlacesDeadline now args .expire (args.getD position []) operation.expiresAt

section Reading

variable {text : List UInt8} {n : ℤ} {number : Int64}

/-- A number outside the 64-bit range is rejected by EX, PX and EXPIRE. -/
theorem read_integer (hnumeral : numeralValue text = some n)
    (h : readOperand .integer text = some (.integer number)) : number.toInt = n := by
  obtain ⟨value, hvalue, heq⟩ := Option.map_eq_some_iff.mp h
  cases heq
  have hread := (parseInt64_eq_some.mp hvalue).2
  rw [hnumeral] at hread
  exact (Option.some.inj hread).symm

/-- EXAT and PXAT take the nearest number they can hold. -/
theorem read_unixTime (hnumeral : numeralValue text = some n)
    (h : readOperand .unixTime text = some (.integer number)) :
    number.toInt = max (-2 ^ 63) (min (2 ^ 63 - 1) n) := by
  cases h
  rw [strtoll_numeral hnumeral (show isDigit 0 = false by decide)]
  split
  · change Int64.minValue.toInt = _
    rw [Int64.toInt_minValue]
    omega
  · split
    · change Int64.maxValue.toInt = _
      rw [Int64.toInt_maxValue]
      omega
    · change (Int64.ofInt n).toInt = _
      rw [toInt_ofInt_iff.mpr ⟨by omega, by omega⟩]
      omega

end Reading

section Placed

variable {now : Timespec} {args : List (List UInt8)} {kind : DeadlineKind} {token : SetToken}
  {text : List UInt8} {deadline : Int64}

theorem setToken_operand (hkind : kind.setToken = some token) :
    token.takesOperand = true ∧ token.argDef.type = kind.argType := by
  cases kind <;> cases hkind <;> exact ⟨rfl, rfl⟩

theorem getExpireTime_number (hkind : kind.setToken = some token) (number : Int64)
    (tokens operands : List ℕ) :
    getExpireTime ⟨token.argDef, .option (some (.integer number)), tokens, operands⟩ now =
      .ok ⟨.unixTs, kind.compute (dataNowMs now) number⟩ := by
  cases kind <;> cases hkind <;> rfl

theorem PlacesDeadline.number (h : PlacesDeadline now args kind text deadline) :
    ∃ number, readOperand kind.argType text = some (.integer number) ∧
      deadline = kind.compute (dataNowMs now) number := by
  cases h with
  | @set kind token parsed arg position operation hkind hparse harg htoken hposition hoperation =>
    obtain ⟨key, value, words, condition, get, expiration, iaa₁, iaa₂, iaa₃, rfl, rfl, hslots⟩ :=
      parseSet_ok hparse
    cases harg
    have hwhole := behindValue_whole key value words
    obtain ⟨hfirst₁, -⟩ := takesFirst (by decide) hwhole hslots.condition
    obtain ⟨hfirst₂, -⟩ := takesFirst (by decide) hfirst₁.whole hslots.get
    have htext : iaa₂.text = (behindValue key value words).text :=
      hfirst₂.text.trans hfirst₁.text
    rcases parseSlot_ok hfirst₂.whole hslots.expiration with ⟨-, rfl, -⟩ |
      ⟨other, before, idx, operand, after, read, hfills, hread, rfl, -⟩
    · cases hposition
    · obtain rfl : token = other := by
        rw [SetToken.argDef_token] at htoken
        cases token <;> cases other <;> first | rfl | exact absurd htoken (by decide)
      obtain ⟨position, rfl⟩ : ∃ idx, operand = some idx := by
        cases operand with
        | none => cases hposition
        | some idx => exact ⟨idx, rfl⟩
      cases hposition
      obtain ⟨number, rfl⟩ := readValue_integer hfills.operand_isSome.symm hread
      have hdeadline := setOperation_expiration hoperation
      rw [getExpireTime_number hkind] at hdeadline
      refine ⟨number, ?_, (congrArg SepticTankExpiration.ts (Except.ok.inj hdeadline)).symm⟩
      rw [Option.map_some, htext, SetToken.readValue, (setToken_operand hkind).2] at hread
      exact hread
  | @expire parsed arg position operation hparse harg hposition hoperation =>
    obtain ⟨left, hdefinitions, -⟩ := parseCommandArguments_ok.mp hparse
    obtain ⟨key, iaa₁, rest₁, hkey, hrest₁, rfl⟩ := parseDefinitions_cons_ok.mp hdefinitions
    obtain ⟨seconds, iaa₂, rest₂, hseconds, hrest₂, rfl⟩ := parseDefinitions_cons_ok.mp hrest₁
    obtain ⟨first, others, keyText, -, -, -, rfl⟩ :=
      parseCommandArgument_plain_ok rfl (by decide) rfl hkey
    obtain ⟨idx, behind, read, -, hread, rfl, -⟩ :=
      parseCommandArgument_plain_ok rfl (by decide) rfl hseconds
    cases harg
    cases hposition
    simp only [expireOperation, bind_eq_ok] at hoperation
    obtain ⟨_, -, number, hnumber, _, -, _, -, hdone⟩ := hoperation
    obtain ⟨value, -, rfl⟩ := Option.map_eq_some_iff.mp hread
    cases hnumber
    cases hdone
    exact ⟨number, hread, rfl⟩

end Placed

section Arithmetic

variable {nowMs number : Int64} {n : ℤ} {kind : DeadlineKind}

/-- The computed deadline is exact when nothing on the way to it leaves the 64-bit range. -/
theorem compute_exact (hnumber : number.toInt = n)
    (h : ∀ i ∈ kind.intermediates nowMs.toInt n, InInt64 i) :
    (kind.compute nowMs number).toInt = kind.exact nowMs.toInt n := by
  subst hnumber
  have hthousand : (1000 : Int64).toInt = 1000 := rfl
  have hmul (hfits : InInt64 (1000 * number.toInt)) :
      (number * 1000).toInt = 1000 * number.toInt := by
    rw [Int.mul_comm, ← hthousand] at hfits ⊢
    exact toInt_mul_iff.mpr hfits
  cases kind with
  | ex | expire =>
    simp only [DeadlineKind.intermediates, List.mem_cons, List.not_mem_nil, or_false,
      forall_eq_or_imp, forall_eq] at h
    rw [DeadlineKind.compute, DeadlineKind.exact, ← hmul h.1]
    apply toInt_add_iff.mpr
    rw [hmul h.1]
    exact h.2
  | px => exact toInt_add_iff.mpr (h _ List.mem_cons_self)
  | exat => exact hmul (h _ List.mem_cons_self)
  | pxat => rfl

theorem inBounds_iff (hnow : 0 ≤ nowMs.toInt) (hn : InInt64 n) :
    (∀ i ∈ kind.intermediates nowMs.toInt n, InInt64 i) ↔ kind.InBounds nowMs.toInt n := by
  cases kind <;>
    simp only [DeadlineKind.intermediates, DeadlineKind.InBounds, List.mem_cons,
      List.not_mem_nil, or_false, forall_eq_or_imp, forall_eq, false_imp_iff, implies_true,
      true_iff, InInt64] at hn ⊢ <;>
    omega

end Arithmetic

def placesAt (now : Timespec) (args : List (List UInt8)) (token : SetToken) (position : ℕ)
    (deadline : Int64) : Bool :=
  (acceptedSet args).any fun parsed =>
    match parsed[4]?, setOperation parsed now with
    | some arg, .ok operation =>
      arg.definition.token == some token.word && arg.operandPositions == [position] &&
        operation.expiration.ts == deadline
    | _, _ => false

theorem placesDeadline_of_placesAt {now : Timespec} {args : List (List UInt8)}
    {kind : DeadlineKind} {token : SetToken} {position : ℕ} {deadline : Int64}
    (hkind : kind.setToken = some token) (h : placesAt now args token position deadline = true) :
    PlacesDeadline now args kind (args.getD position []) deadline := by
  cases hparsed : acceptedSet args with
  | none => simp [placesAt, hparsed] at h
  | some parsed =>
    rw [placesAt, hparsed, Option.any_some] at h
    split at h
    · rename_i arg operation harg hoperation
      obtain ⟨⟨htoken, hposition⟩, hdeadline⟩ := by
        simpa only [Bool.and_eq_true, beq_iff_eq] using h
      rw [← hdeadline]
      exact .set hkind (acceptedSet_eq hparsed) harg htoken hposition hoperation
    · cases h

/-- The deadline in the operation is exact, with all that leads to it in range, for the numbers
within the bounds and for no others. -/
theorem deadline_exact_iff {now : Timespec} {args : List (List UInt8)} {kind : DeadlineKind}
    {text : List UInt8} {n : ℤ} {deadline : Int64} (hnow : 0 ≤ (dataNowMs now).toInt)
    (hnumeral : numeralValue text = some n) (h : PlacesDeadline now args kind text deadline) :
    (deadline.toInt = kind.exact (dataNowMs now).toInt n ∧
      ∀ i ∈ kind.intermediates (dataNowMs now).toInt n, InInt64 i) ↔
      kind.InBounds (dataNowMs now).toInt n := by
  obtain ⟨number, hread, rfl⟩ := h.number
  by_cases hn : InInt64 n
  · have hnumber : number.toInt = n := by
      cases htype : kind.argType with
      | integer => exact read_integer hnumeral (htype ▸ hread)
      | unixTime =>
        rw [read_unixTime hnumeral (htype ▸ hread)]
        obtain ⟨hlo, hhi⟩ := hn
        omega
      | _ => cases kind <;> cases htype
    rw [← inBounds_iff hnow hn]
    exact ⟨fun hexact => hexact.2, fun hfits => ⟨compute_exact hnumber hfits, hfits⟩⟩
  · -- EXAT and PXAT take such a number, at the nearest end of the range
    have hlo := number.le_toInt
    have hhi := number.toInt_lt
    unfold InInt64 at hn
    cases kind with
    | ex | px | expire => exact absurd (read_integer hnumeral hread ▸ inInt64_toInt number) hn
    | exat =>
      simp only [DeadlineKind.intermediates, DeadlineKind.InBounds, List.mem_singleton, forall_eq,
        InInt64]
      omega
    | pxat =>
      simp only [DeadlineKind.compute, DeadlineKind.exact, DeadlineKind.InBounds]
      omega

/-- The equivalence for `SET k v PX 250` at second 1. -/
theorem deadline_exact_iff_px :
    let now := Timespec.atSecond 1 (by decide) (by decide)
    (1250 : Int64).toInt = DeadlineKind.px.exact (dataNowMs now).toInt 250 ∧
      (∀ i ∈ DeadlineKind.px.intermediates (dataNowMs now).toInt 250, InInt64 i) ↔
      DeadlineKind.px.InBounds (dataNowMs now).toInt 250 := by
  intro now
  have hplaces : PlacesDeadline now [cstr "k", cstr "v", cstr "PX", cstr "250"] .px
      (cstr "250") 1250 :=
    placesDeadline_of_placesAt rfl (show placesAt now _ .px 3 1250 = true by decide +kernel)
  exact deadline_exact_iff (by decide) (by decide +kernel) hplaces

/-- `SET k v EX 9223372036854775807` at second 1 has the deadline 0: the key is dead at once. -/
theorem deadline_wraps :
    ¬ ∀ now args kind text n deadline, 0 ≤ (dataNowMs now).toInt →
      (dataNowMs now).toInt < 2 ^ 62 → numeralValue text = some n →
      PlacesDeadline now args kind text deadline →
      deadline.toInt = kind.exact (dataNowMs now).toInt n ∧
        ∀ i ∈ kind.intermediates (dataNowMs now).toInt n, InInt64 i := by
  intro h
  let now := Timespec.atSecond 1 (by decide) (by decide)
  let args := [cstr "k", cstr "v", cstr "EX", cstr "9223372036854775807"]
  have hplaces : PlacesDeadline now args .ex (args.getD 3 []) 0 :=
    placesDeadline_of_placesAt rfl (show placesAt now args .ex 3 0 = true by decide +kernel)
  obtain ⟨hexact, -⟩ := h now args .ex _ 9223372036854775807 0 (by decide) (by decide)
    (by decide +kernel) hplaces
  exact absurd hexact (by decide)

end Redic
