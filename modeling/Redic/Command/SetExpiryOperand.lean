import Redic.ParseInt64
import Redic.Command.SetAdjacency

/-! # One expiration clause, with any operand

`EX` and `PX` check their operand, `EXAT` and `PXAT` take whatever `strtoll` makes of it. Before
the operand is read, the slots look for their own tokens, and the operand may spell one of them.
-/
namespace Redic
open DecimalText InputArgArray Int64Range

namespace SetToken

def earlier (token : SetToken) : List SetToken :=
  SetSlot.condition.tokens ++ SetSlot.get.tokens ++
    SetSlot.expiration.tokens.takeWhile fun other => other != token

/-- `SET key value TOKEN operand`. -/
def clauseWords (token : SetToken) (key value operand : DataString) : List (List UInt8) :=
  [key, value, cstr token.word, operand]

theorem slot_of_operand {token : SetToken} (h : token.takesOperand = true) :
    token.slot = .expiration := by
  cases token <;> first | rfl | cases h

theorem spells_word (token : SetToken) : strEqCi (cstr token.word) (cstr token.word) = true :=
  strEqCi_iff.mpr rfl

theorem not_spells_other {token other : SetToken} (h : other ≠ token) :
    strEqCi (cstr token.word) (cstr other.word) = false := by
  rw [Bool.eq_false_iff]
  intro hspelled
  exact h (word_injective hspelled token.spells_word)

end SetToken

section Lone

variable {iaa iaa' : InputArgArray} {slot : SetSlot} {token : SetToken} {arg : CommandArg}
  {i j : ℕ}

/-- The token stands first among the free arguments, with one more behind it or none. -/
structure Clause (iaa : InputArgArray) (token : SetToken) (i : ℕ) (rest : List ℕ) : Prop where
  whole : iaa.Whole
  free : iaa.unresolved = i :: rest
  word : iaa.text i = cstr token.word
  operand : token.takesOperand = true

theorem Clause.token_eq {rest : List ℕ} (h : Clause iaa token i rest) {other : SetToken}
    (hspelled : strEqCi (iaa.text i) (cstr other.word) = true) : other = token := by
  rw [h.word] at hspelled
  exact SetToken.word_injective hspelled token.spells_word

theorem Clause.leaves {rest rest' : List ℕ} (h : Clause iaa token i rest)
    (hleaves : Leaves iaa iaa' (i :: rest')) : Clause iaa' token i rest' :=
  ⟨hleaves.whole, hleaves.unresolved, by rw [hleaves.text, h.word], h.operand⟩

theorem Clause.lone (h : Clause iaa token i []) :
    parseCommandArgument SetSlot.expiration.argDef iaa ≠ .ok (.ok arg, iaa') := by
  intro hparse
  have hmem : token ∈ SetSlot.expiration.tokens :=
    SetSlot.mem_tokens.mpr (SetToken.slot_of_operand h.operand)
  rcases parseSlot_ok h.whole hparse with ⟨hnone, -, -⟩ |
    ⟨other, before, idx, operand, after, value, hfills, -, -, -⟩
  · have hnot := hnone token hmem i (by rw [h.free]; exact List.mem_cons_self)
    rw [h.word, token.spells_word] at hnot
    cases hnot
  · have hsplit := hfills.first.split
    rw [h.free] at hsplit
    have hlength := congrArg List.length hsplit
    simp only [List.length_append, List.length_cons, List.length_nil] at hlength
    have hbefore : before = [] := List.length_eq_zero_iff.mp (by omega)
    have hoperand : operand = none := by
      rw [← Option.toList_eq_nil_iff, ← List.length_eq_zero_iff]
      omega
    subst hbefore hoperand
    cases hsplit
    have htoken := h.token_eq hfills.first.spelled
    have hsome := hfills.operand_isSome
    rw [htoken, h.operand] at hsome
    cases hsome

/-- The slots in front of the expiration pass the token over, and take what is behind it if it
spells one of theirs. -/
theorem Clause.passes {rest : List ℕ} (h : Clause iaa token i rest) (hslot : slot ≠ .expiration)
    (hrest : rest.length ≤ 1)
    (hparse : parseCommandArgument slot.argDef iaa = .ok (.ok arg, iaa')) :
    Leaves iaa iaa' (i :: rest) ∧ arg = slot.argDef.absent ∧ NoToken iaa slot.tokens ∨
      Clause iaa' token i [] ∧ ¬ NoToken iaa slot.tokens := by
  rcases parseSlot_ok h.whole hparse with ⟨hnone, harg, hleaves⟩ |
    ⟨other, before, idx, operand, after, value, hfills, -, -, hleaves⟩
  · rw [h.free] at hleaves
    exact Or.inl ⟨hleaves, harg, hnone⟩
  · right
    have hsplit := hfills.first.split
    rw [h.free] at hsplit
    have hne : other ≠ token := by
      intro heq
      have hother := hfills.token_slot
      rw [heq, SetToken.slot_of_operand h.operand] at hother
      exact hslot hother.symm
    cases before with
    | nil =>
      cases hsplit
      exact absurd (h.token_eq hfills.first.spelled) hne
    | cons b before =>
      rw [List.cons_append, List.cons.injEq] at hsplit
      obtain ⟨rfl, hrest'⟩ := hsplit
      rw [hrest'] at hrest
      simp only [List.length_append, List.length_cons] at hrest
      have hbefore : before = [] := List.length_eq_zero_iff.mp (by omega)
      have hafter : after = [] := List.length_eq_zero_iff.mp (by omega)
      subst hbefore hafter
      refine ⟨h.leaves hleaves, ?_⟩
      intro hnone
      have hmem : other ∈ slot.tokens := SetSlot.mem_tokens.mpr hfills.token_slot
      have hfree : idx ∈ iaa.unresolved := by simp [hfills.first.split]
      have hnot := hnone other hmem idx hfree
      rw [hfills.first.spelled] at hnot
      cases hnot

theorem takeWhile_subset {skipped rest : List SetToken} (token : SetToken) :
    ∀ other ∈ (skipped ++ token :: rest).takeWhile fun other => other != token,
      other ∈ skipped := by
  induction skipped with
  | nil =>
    intro other hother
    simp at hother
  | cons first skipped ih =>
    intro other hother
    rw [List.cons_append, List.takeWhile_cons] at hother
    split at hother
    · rcases List.mem_cons.mp hother with rfl | hmem
      · exact List.mem_cons_self
      · exact List.mem_cons_of_mem _ (ih other hmem)
    · cases hother

theorem Clause.expiration (h : Clause iaa token i [j])
    (hparse : parseCommandArgument SetSlot.expiration.argDef iaa = .ok (.ok arg, iaa'))
    (hfinished : iaa'.unresolved = []) :
    NoToken iaa (SetSlot.expiration.tokens.takeWhile fun other => other != token) ∧
      ∃ value, readOperand token.argDef.type (iaa.text j) = some value ∧
        arg = ⟨token.argDef, .option (some value), [i], [j]⟩ := by
  have hmem : token ∈ SetSlot.expiration.tokens :=
    SetSlot.mem_tokens.mpr (SetToken.slot_of_operand h.operand)
  rcases parseSlot_ok h.whole hparse with ⟨hnone, -, -⟩ |
    ⟨other, before, idx, operand, after, value, hfills, hread, rfl, hleaves⟩
  · have hnot := hnone token hmem i (by rw [h.free]; exact List.mem_cons_self)
    rw [h.word, token.spells_word] at hnot
    cases hnot
  · rw [hleaves.unresolved, List.append_eq_nil_iff] at hfinished
    obtain ⟨rfl, rfl⟩ := hfinished
    have hsplit := hfills.first.split
    rw [h.free, List.nil_append, List.append_nil, List.cons.injEq] at hsplit
    obtain ⟨rfl, hoperand⟩ := hsplit
    obtain rfl := h.token_eq hfills.first.spelled
    obtain rfl : operand = some j := by
      rw [Option.toList_eq_singleton_iff.mp hoperand.symm]
    obtain ⟨skipped, rest, htokens, hskipped⟩ := hfills.tokens
    refine ⟨?_, value, hread, rfl⟩
    intro t ht
    rw [htokens] at ht
    exact hskipped t (takeWhile_subset other t ht)

theorem Clause.noToken {tokens : List SetToken} (h : Clause iaa token i [j])
    (hother : ∀ other ∈ tokens, other ≠ token)
    (hoperand : ∀ other ∈ tokens, strEqCi (iaa.text j) (cstr other.word) = false) :
    NoToken iaa tokens := by
  intro other hmem k hk
  rw [h.free, List.mem_cons, List.mem_singleton] at hk
  rcases hk with rfl | rfl
  · rw [h.word]
    exact SetToken.not_spells_other (hother other hmem)
  · exact hoperand other hmem

theorem Clause.parse {value : CommandArgValue} (h : Clause iaa token i [j])
    (hoperand : ∀ other ∈ SetSlot.expiration.tokens.takeWhile fun other => other != token,
      strEqCi (iaa.text j) (cstr other.word) = false)
    (hread : readOperand token.argDef.type (iaa.text j) = some value) :
    ∃ iaa', parseCommandArgument SetSlot.expiration.argDef iaa =
        .ok (.ok ⟨token.argDef, .option (some value), [i], [j]⟩, iaa') ∧
      iaa'.unresolved = [] := by
  have hskipped : NoToken iaa (SetSlot.expiration.tokens.takeWhile fun other => other != token) :=
    h.noToken (fun other hmem => by simpa using List.mem_takeWhile_imp hmem) hoperand
  have htokens : ∃ rest, SetSlot.expiration.tokens =
      (SetSlot.expiration.tokens.takeWhile fun other => other != token) ++ token :: rest := by
    have hoperandToken := h.operand
    cases token <;> first | exact ⟨_, rfl⟩ | cases hoperandToken
  obtain ⟨rest, htokens⟩ := htokens
  have hfirst : FirstSpelled iaa token.word [] i [j] :=
    ⟨h.free, fun _ hmem => absurd hmem List.not_mem_nil, by rw [h.word, token.spells_word]⟩
  have hfills : FillsSlot iaa SetSlot.expiration token [] i (some j) [] :=
    ⟨⟨_, rest, htokens, hskipped⟩, hfirst, h.operand.symm⟩
  obtain ⟨iaa', hparse, hleaves⟩ := hfills.parse h.whole hread
  exact ⟨iaa', hparse, hleaves.unresolved⟩

end Lone

section Clause

variable {key value operand : DataString} {token : SetToken}

theorem clause_behindValue (key value operand : DataString) (h : token.takesOperand = true) :
    Clause (behindValue key value [cstr token.word, operand]) token 2 [3] :=
  ⟨behindValue_whole _ _ _, behindValue_unresolved _ _ _, rfl, h⟩

def clauseArgs (token : SetToken) (key value : DataString) (number : CommandArgValue) :
    List CommandArg :=
  [keyArg key, valueArg value, SetSlot.condition.argDef.absent, SetSlot.get.argDef.absent,
    ⟨token.argDef, .option (some number), [2], [3]⟩]

theorem parseSet_clause_iff (h : token.takesOperand = true) {parsed : List CommandArg} :
    parseCommandArguments setArgDefs (token.clauseWords key value operand) =
        .ok (.ok parsed) ↔
      (∀ other ∈ token.earlier, strEqCi operand (cstr other.word) = false) ∧
        ∃ number, readOperand token.argDef.type operand = some number ∧
          parsed = clauseArgs token key value number := by
  have hclause := clause_behindValue key value operand h
  have htext : (behindValue key value [cstr token.word, operand]).text 3 = operand := rfl
  have hslot : ∀ slot : SetSlot, slot ≠ .expiration → ∀ other ∈ slot.tokens, other ≠ token := by
    intro slot hslot other hmem heq
    rw [SetSlot.mem_tokens, heq, SetToken.slot_of_operand h] at hmem
    exact hslot hmem.symm
  constructor
  · intro hparse
    obtain ⟨key', value', words, condition, get, expiration, iaa₁, iaa₂, iaa₃, hwords, rfl,
      hslots⟩ := parseSet_ok hparse
    cases hwords
    rcases hclause.passes (by decide) (Nat.le_refl 1) hslots.condition with
      ⟨hleaves₁, rfl, hnone₁⟩ | ⟨hlone, -⟩
    · have hclause₁ := hclause.leaves hleaves₁
      rcases hclause₁.passes (by decide) (Nat.le_refl 1) hslots.get with
        ⟨hleaves₂, rfl, hnone₂⟩ | ⟨hlone, -⟩
      · have hclause₂ := hclause₁.leaves hleaves₂
        obtain ⟨hnone₃, number, hread, rfl⟩ := hclause₂.expiration hslots.expiration hslots.finished
        rw [hleaves₂.text, hleaves₁.text, htext] at hread
        refine ⟨?_, number, hread, rfl⟩
        intro other hother
        rw [SetToken.earlier, List.mem_append, List.mem_append] at hother
        have hspelled : ∀ {iaa : InputArgArray} {tokens : List SetToken}, Clause iaa token 2 [3] →
            iaa.text = (behindValue key value [cstr token.word, operand]).text →
            NoToken iaa tokens → other ∈ tokens → strEqCi operand (cstr other.word) = false := by
          intro iaa tokens hcl heq hnone hmem
          have hnot := hnone other hmem 3 (by rw [hcl.free]; simp)
          rwa [heq, htext] at hnot
        rcases hother with (hother | hother) | hother
        · exact hspelled hclause rfl hnone₁ hother
        · exact hspelled hclause₁ hleaves₁.text hnone₂ hother
        · exact hspelled hclause₂ (hleaves₂.text.trans hleaves₁.text) hnone₃ hother
      · exact absurd hslots.expiration hlone.lone
    · rcases hlone.passes (by decide) (Nat.zero_le 1) hslots.get with ⟨hleaves, -, -⟩ | ⟨hlone', -⟩
      · exact absurd hslots.expiration (hlone.leaves hleaves).lone
      · exact absurd hslots.expiration hlone'.lone
  · rintro ⟨hoperand, number, hread, rfl⟩
    have hearlier : ∀ tokens : List SetToken, (∀ other ∈ tokens, other ∈ token.earlier) →
        ∀ other ∈ tokens, strEqCi ((behindValue key value [cstr token.word, operand]).text 3)
          (cstr other.word) = false :=
      fun tokens hsub other hmem => hoperand other (hsub other hmem)
    have hcondition := parseSlot_absent (hclause.noToken (hslot .condition (by decide))
      (hearlier _ fun other hmem => by simp [SetToken.earlier, hmem]))
    have hget := parseSlot_absent (hclause.noToken (hslot .get (by decide))
      (hearlier _ fun other hmem => by simp [SetToken.earlier, hmem]))
    obtain ⟨last, hexpiration, hlast⟩ := hclause.parse
      (hearlier _ fun other hmem => by simp [SetToken.earlier, hmem]) hread
    exact ParsedSlots.parse ⟨hcondition, hget, hexpiration, hlast⟩

end Clause

/-- A number that is at most 20 bytes long and fits 64 bits; white space may stand in front. -/
def NumberOperand (operand : DataString) : Prop :=
  operand.length ≤ 20 ∧ ∃ n : Int64, numeralValue operand = some n.toInt

theorem numberOperand_iff {operand : DataString} :
    NumberOperand operand ↔ ∃ n, parseInt64 operand = some n := by
  constructor
  · rintro ⟨hlength, n, hn⟩
    exact ⟨n, parseInt64_eq_some.mpr ⟨hlength, hn⟩⟩
  · rintro ⟨n, hn⟩
    obtain ⟨hlength, hvalue⟩ := parseInt64_eq_some.mp hn
    exact ⟨hlength, n, hvalue⟩

theorem numeral_not_token {operand : DataString} {v : ℤ} (h : numeralValue operand = some v)
    (token : SetToken) : strEqCi operand (cstr token.word) = false := by
  obtain ⟨blanks, number, -, ⟨negative, sign, ds, -, hds, rfl, -⟩, rfl⟩ := numeralValue_iff.mp h
  obtain ⟨c, cs, rfl⟩ := List.exists_cons_of_ne_nil hds.ne_nil
  have hdigit := hds.digit c List.mem_cons_self
  have hletters : ∀ t : SetToken, ∀ b ∈ (cstr t.word).map asciiLower, isDigit b = false := by
    intro t
    cases t <;> decide +kernel
  have hlower : asciiLower c = c := by
    have hupper : ¬ 65 ≤ c := by
      rw [isDigit_iff] at hdigit
      intro hle
      exact absurd (UInt8.le_trans hle hdigit.2) (by decide)
    simp [asciiLower, hupper]
  rw [Bool.eq_false_iff]
  intro hspelled
  have hmem : c ∈ (blanks ++ (sign ++ c :: cs)).map asciiLower :=
    List.mem_map.mpr ⟨c, by simp, hlower⟩
  rw [strEqCi_iff.mp hspelled] at hmem
  rw [hletters token c hmem] at hdigit
  cases hdigit

/-- The two ways to give an expiry in a unit of time. -/
inductive ExpiryUnit
  | seconds | milliseconds
  deriving DecidableEq, Repr

def ExpiryUnit.relative : ExpiryUnit → SetToken
  | seconds => .ex
  | milliseconds => .px

def ExpiryUnit.absolute : ExpiryUnit → SetToken
  | seconds => .exat
  | milliseconds => .pxat

/-- The words are a SET that is accepted with the number as its expiry. -/
def CarriesExpiry (words : List (List UInt8)) (n : Int64) : Prop :=
  ∃ parsed arg, parseCommandArguments setArgDefs words = .ok (.ok parsed) ∧
    parsed[4]? = some arg ∧ arg.value = .option (some (.integer n))

def AcceptedSet (words : List (List UInt8)) : Prop :=
  ∃ parsed, parseCommandArguments setArgDefs words = .ok (.ok parsed)

/-- The absolute and the relative clause accept the same operands, and carry the same number. -/
structure ValidatedAlike (unit : ExpiryUnit) (key value operand : DataString) : Prop where
  accepted : AcceptedSet (unit.absolute.clauseWords key value operand) ↔
    AcceptedSet (unit.relative.clauseWords key value operand)
  number : ∀ n, CarriesExpiry (unit.absolute.clauseWords key value operand) n ↔
    CarriesExpiry (unit.relative.clauseWords key value operand) n

section Accepted

variable {key value operand : DataString} {token : SetToken} {unit : ExpiryUnit} {n : Int64}

theorem acceptedSet_iff (h : token.takesOperand = true) :
    AcceptedSet (token.clauseWords key value operand) ↔
      (∀ other ∈ token.earlier, strEqCi operand (cstr other.word) = false) ∧
        (readOperand token.argDef.type operand).isSome = true := by
  simp only [AcceptedSet, parseSet_clause_iff h]
  constructor
  · rintro ⟨parsed, hearlier, number, hread, -⟩
    exact ⟨hearlier, by rw [hread]; rfl⟩
  · rintro ⟨hearlier, hread⟩
    obtain ⟨number, hread⟩ := Option.isSome_iff_exists.mp hread
    exact ⟨_, hearlier, number, hread, rfl⟩

theorem carriesExpiry_iff (h : token.takesOperand = true) :
    CarriesExpiry (token.clauseWords key value operand) n ↔
      (∀ other ∈ token.earlier, strEqCi operand (cstr other.word) = false) ∧
        readOperand token.argDef.type operand = some (.integer n) := by
  simp only [CarriesExpiry, parseSet_clause_iff h]
  constructor
  · rintro ⟨parsed, arg, ⟨hearlier, number, hread, rfl⟩, harg, hvalue⟩
    cases harg
    cases hvalue
    exact ⟨hearlier, hread⟩
  · rintro ⟨hearlier, hread⟩
    exact ⟨_, _, ⟨hearlier, _, hread, rfl⟩, rfl, rfl⟩

/-- The relative clause accepts numbers and nothing else. -/
theorem accepted_relative_iff : AcceptedSet (unit.relative.clauseWords key value operand) ↔
    NumberOperand operand := by
  have htakes : unit.relative.takesOperand = true := by cases unit <;> rfl
  have htype : unit.relative.argDef.type = .integer := by cases unit <;> rfl
  rw [acceptedSet_iff htakes, htype, numberOperand_iff, readOperand, Option.isSome_map,
    Option.isSome_iff_exists, and_iff_right_iff_imp]
  rintro ⟨n, hn⟩ other -
  exact numeral_not_token (parseInt64_eq_some.mp hn).2 other

/-- The absolute clause accepts whatever spells no earlier token. -/
theorem accepted_absolute_iff : AcceptedSet (unit.absolute.clauseWords key value operand) ↔
    ∀ other ∈ unit.absolute.earlier, strEqCi operand (cstr other.word) = false := by
  have htakes : unit.absolute.takesOperand = true := by cases unit <;> rfl
  have htype : unit.absolute.argDef.type = .unixTime := by cases unit <;> rfl
  rw [acceptedSet_iff htakes, htype, readOperand]
  simp

end Accepted

/-- `EXAT` and `PXAT` are validated like `EX` and `PX` on numbers, and on the words that are taken
for another token of the command; every other operand they accept although `EX` and `PX` do not. -/
theorem validatedAlike_iff (unit : ExpiryUnit) (key value operand : DataString) :
    ValidatedAlike unit key value operand ↔
      NumberOperand operand ∨
        ∃ other ∈ unit.absolute.earlier, strEqCi operand (cstr other.word) = true := by
  constructor
  · intro h
    by_cases hnumber : NumberOperand operand
    · exact Or.inl hnumber
    · right
      by_contra hnone
      have habsolute : ∀ other ∈ unit.absolute.earlier,
          strEqCi operand (cstr other.word) = false := by
        intro other hmem
        rw [Bool.eq_false_iff]
        exact fun hspelled => hnone ⟨other, hmem, hspelled⟩
      exact hnumber (accepted_relative_iff.mp (h.accepted.mp (accepted_absolute_iff.mpr habsolute)))
  · have htakes₁ : unit.absolute.takesOperand = true := by cases unit <;> rfl
    have htakes₂ : unit.relative.takesOperand = true := by cases unit <;> rfl
    have htype₁ : unit.absolute.argDef.type = .unixTime := by cases unit <;> rfl
    have htype₂ : unit.relative.argDef.type = .integer := by cases unit <;> rfl
    rintro (hnumber | ⟨other, hmem, hspelled⟩)
    · obtain ⟨hlength, m, hm⟩ := hnumber
      have hfree : ∀ other : SetToken, strEqCi operand (cstr other.word) = false :=
        numeral_not_token hm
      have hread := strtoll_fits hm (inInt64_toInt m) (show isDigit 0 = false by decide) []
      have hparse := parseInt64_eq_some.mpr ⟨hlength, hm⟩
      constructor
      · rw [accepted_relative_iff, accepted_absolute_iff]
        exact ⟨fun _ => ⟨hlength, m, hm⟩, fun _ other _ => hfree other⟩
      · intro n
        rw [carriesExpiry_iff htakes₁, carriesExpiry_iff htakes₂, htype₁, htype₂, readOperand,
          readOperand, hparse, hread, Int64.ofInt_toInt]
        simp [hfree]
    · have hrejected : ¬ AcceptedSet (unit.absolute.clauseWords key value operand) := by
        rw [accepted_absolute_iff]
        intro hnone
        rw [hnone other hmem] at hspelled
        cases hspelled
      have hrejected' : ¬ AcceptedSet (unit.relative.clauseWords key value operand) := by
        rw [accepted_relative_iff]
        rintro ⟨-, m, hm⟩
        rw [numeral_not_token hm other] at hspelled
        cases hspelled
      constructor
      · exact iff_of_false hrejected hrejected'
      · intro n
        refine iff_of_false ?_ ?_
        · rintro ⟨parsed, arg, hparse, -⟩
          exact hrejected ⟨parsed, hparse⟩
        · rintro ⟨parsed, arg, hparse, -⟩
          exact hrejected' ⟨parsed, hparse⟩

/-- `SET k v EXAT abc` is accepted and carries zero, `SET k v EX abc` is not accepted. -/
theorem validatedAlike_letters :
    CarriesExpiry (SetToken.exat.clauseWords (cstr "k") (cstr "v") (cstr "abc")) 0 ∧
      ¬ AcceptedSet (SetToken.ex.clauseWords (cstr "k") (cstr "v") (cstr "abc")) ∧
      ¬ ValidatedAlike .seconds (cstr "k") (cstr "v") (cstr "abc") := by
  have hearlier : ∀ other ∈ SetToken.exat.earlier,
      strEqCi (cstr "abc") (cstr other.word) = false := by
    decide +kernel
  have hzero : (strtoll (cstr "abc" ++ [0])).value = 0 := by decide +kernel
  have hcarries : CarriesExpiry
      (SetToken.exat.clauseWords (cstr "k") (cstr "v") (cstr "abc")) 0 :=
    (carriesExpiry_iff rfl).mpr ⟨hearlier, by rw [← hzero]; rfl⟩
  have hrejected : ¬ AcceptedSet (SetToken.ex.clauseWords (cstr "k") (cstr "v") (cstr "abc")) := by
    have hread : (readOperand .integer (cstr "abc")).isSome = false := by decide +kernel
    rw [acceptedSet_iff rfl]
    rintro ⟨-, hsome⟩
    exact absurd hsome (Bool.eq_false_iff.mp hread)
  refine ⟨hcarries, hrejected, ?_⟩
  intro h
  obtain ⟨parsed, arg, hparse, -⟩ := hcarries
  exact hrejected (h.accepted.mp ⟨parsed, hparse⟩)

end Redic
