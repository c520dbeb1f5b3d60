import Redic.Command.Effect
import Redic.SepticTank.Counter

/-! # Decrements

`DECRBY` negates its argument and adds. Over the integers that is the subtraction it is named
after, but the lowest 64-bit integer is its own negative.
-/
namespace Redic.Command
open KeyStore Int64Range

variable {S : Type} [KeyStore S]

/-- `DECRBY` with a key and an argument as the client sends them. -/
def decrby (server : Server S) (clock : CommandClock) (key text : DataString) :
    Except ServerStop (Server S × RESPValue) :=
  processCommandHelper server clock (cstr "DECRBY") [key, text]

def incrby (server : Server S) (clock : CommandClock) (key text : DataString) :
    Except ServerStop (Server S × RESPValue) :=
  processCommandHelper server clock (cstr "INCRBY") [key, text]

theorem decrby_eq {server : Server S} {clock : CommandClock} {key text : DataString} {d : Int64}
    (h : parseInt64 text = some d) :
    decrby server clock key text = processIncrementBy server clock key (-d) := by
  have hmem : (decrbyCommand : CommandDefinition S) ∈ commands := by simp [commands]
  exact processCommandHelper_of_mem hmem (parse_keyNumber "decrement" h rfl rfl)

theorem incrby_eq {server : Server S} {clock : CommandClock} {key text : DataString} {n : Int64}
    (h : parseInt64 text = some n) :
    incrby server clock key text = processIncrementBy server clock key n := by
  have hmem : (incrbyCommand : CommandDefinition S) ∈ commands := by simp [commands]
  exact processCommandHelper_of_mem hmem (parse_keyNumber "increment" h rfl rfl)

/-- What a handler learns of a counter does not depend on the second clock reading. -/
theorem septicTankFeed_incrby (server : Server S) (clock : CommandClock)
    (op : SepticTankIncrByOperation) : septicTankFeed server (.incrby op) clock =
      ({ server with tank :=
          ⟨(incrByDigest server.tank.tank (op, clock.ts₁)).1, server.tank.log ++
            (incrByDigest server.tank.tank (op, clock.ts₁)).2.2.toList⟩ },
        (incrByDigest server.tank.tank (op, clock.ts₁)).2.1) := rfl

section Counter

variable {server : Server S} {clock : CommandClock} {key : DataString} {delta : Int64} {v : ℤ}

theorem processIncrementBy_fits
    (hv : counterValue clock.ts₁ server.tank.tank.data key = some v)
    (hfits : InInt64 (v + delta.toInt)) :
    ∃ server' n, n.toInt = v + delta.toInt ∧
      processIncrementBy server clock key delta = .ok (server', .integer n) := by
  have hsum : InInt64 (v + (SepticTankIncrByOperation.mk key delta).delta.toInt) := hfits
  obtain ⟨n, hn, houtcome⟩ := incrByOutcome_of_fits hv hsum
  have hresult := feed_result server clock (.incrby ⟨key, delta⟩) rfl
  simp only [outcome, SepticTankOperation.key, houtcome] at hresult
  refine ⟨(septicTankFeed server (.incrby ⟨key, delta⟩) clock).1, n, hn, ?_⟩
  simp only [processIncrementBy, hresult]
  rfl

theorem processIncrementBy_not_fits
    (hv : counterValue clock.ts₁ server.tank.tank.data key = some v)
    (hfits : ¬ InInt64 (v + delta.toInt)) :
    ∃ message, processIncrementBy server clock key delta =
      .ok (server, createSimpleError message) := by
  have hnone : ¬ ∃ n, counterValue clock.ts₁ server.tank.tank.data
      (SepticTankIncrByOperation.mk key delta).key = some n ∧
      InInt64 (n + (SepticTankIncrByOperation.mk key delta).delta.toInt) := by
    rintro ⟨n, hn, hsum⟩
    cases hv.symm.trans hn
    exact hfits hsum
  obtain ⟨hsuccess, herror, htank, hfed⟩ := incrByDigest_of_not_fits hnone
  obtain ⟨message, hmessage⟩ := Option.isSome_iff_exists.mp herror
  refine ⟨message, ?_⟩
  rw [processIncrementBy, septicTankFeed_incrby]
  simp only [htank, hfed, Option.toList_none, List.append_nil, hsuccess, Bool.not_false, if_true,
    failureReply, hmessage]
  rfl

end Counter

/-- `DECRBY` subtracts exactly or refuses, and is the `INCRBY` of the opposite number. -/
structure SubtractsExactly (server : Server S) (clock : CommandClock) (key text : DataString)
    (v : ℤ) (d : Int64) : Prop where
  reply : InInt64 (v - d.toInt) → ∃ server' n, n.toInt = v - d.toInt ∧
    decrby server clock key text = .ok (server', .integer n)
  refuses : ¬ InInt64 (v - d.toInt) → ∃ message,
    decrby server clock key text = .ok (server, createSimpleError message)
  opposite : ∀ text' n, parseInt64 text' = some n → n.toInt = -d.toInt →
    decrby server clock key text = incrby server clock key text'

theorem counterValue_inInt64 {ts : Timespec} {s : S} {key : DataString} {v : ℤ}
    (h : counterValue ts s key = some v) : InInt64 v := by
  unfold counterValue at h
  cases hlive : visible ts s key with
  | none =>
    rw [hlive] at h
    cases h
    decide
  | some entry =>
    rw [hlive] at h
    obtain ⟨n, -, rfl⟩ := Option.map_eq_some_iff.mp h
    exact inInt64_toInt n

theorem neg_minValue : -Int64.minValue = Int64.minValue := by decide

theorem toInt_neg {d : Int64} (h : d ≠ Int64.minValue) : (-d).toInt = -d.toInt := by
  have hne : d.toInt ≠ Int64.minValue.toInt := fun heq => h (Int64.toInt_inj.mp heq)
  have hmin : Int64.minValue.toInt = -2 ^ 63 := rfl
  obtain ⟨hlo, hhi⟩ := inInt64_toInt d
  rw [Int64.toInt_neg, bmod_eq_self_iff]
  constructor <;> omega

/-- `DECRBY` is exact on every counter except for the lowest decrement, where it never is. -/
theorem decrby_subtractsExactly_iff {server : Server S} {clock : CommandClock}
    {key text : DataString} {v : ℤ} {d : Int64} (hd : parseInt64 text = some d)
    (hv : counterValue clock.ts₁ server.tank.tank.data key = some v) :
    SubtractsExactly server clock key text v d ↔ d ≠ Int64.minValue := by
  constructor
  · rintro hexact rfl
    have hmin : Int64.minValue.toInt = -2 ^ 63 := rfl
    have heq : decrby server clock key text =
        processIncrementBy server clock key Int64.minValue := by rw [decrby_eq hd, neg_minValue]
    obtain ⟨hlo, hhi⟩ := counterValue_inInt64 hv
    -- where the difference is in range the sum is not, and the other way round
    by_cases hneg : v < 0
    · obtain ⟨server', n, -, hreply⟩ := hexact.reply (by constructor <;> omega)
      have hsum : ¬ InInt64 (v + Int64.minValue.toInt) := by rintro ⟨hsum, -⟩; omega
      obtain ⟨message, hrefused⟩ := processIncrementBy_not_fits hv hsum
      rw [heq, hrefused] at hreply
      cases hreply
    · obtain ⟨message, hrefused⟩ := hexact.refuses (by rintro ⟨-, hdiff⟩; omega)
      have hsum : InInt64 (v + Int64.minValue.toInt) := by constructor <;> omega
      obtain ⟨server', n, -, hreply⟩ := processIncrementBy_fits hv hsum
      rw [heq, hreply] at hrefused
      cases hrefused
  · intro hne
    have hsum : v + (-d).toInt = v - d.toInt := by rw [toInt_neg hne]; omega
    constructor
    · intro hfits
      rw [decrby_eq hd, ← hsum]
      exact processIncrementBy_fits hv (hsum ▸ hfits)
    · intro hfits
      rw [decrby_eq hd]
      exact processIncrementBy_not_fits hv (hsum ▸ hfits)
    · intro text' n hn hopposite
      have heq : n = -d := by rw [← Int64.toInt_inj, hopposite, toInt_neg hne]
      rw [decrby_eq hd, incrby_eq hn, heq]

/-- Five less on a counter that holds ten. -/
theorem decrby_subtractsExactly_iff_five :
    let at₁ := Timespec.atSecond 1 (by decide) (by decide)
    let server : Server FiniteStore :=
      ⟨⟨⟨Finmap.singleton [107] (dataCreateStringEntry none [49, 48]), true⟩, []⟩, false⟩
    SubtractsExactly server ⟨at₁, at₁, at₁⟩ [107] [53] 10 5 ↔ (5 : Int64) ≠ Int64.minValue := by
  intro at₁ server
  exact decrby_subtractsExactly_iff (by decide +kernel) (by decide +kernel)

/-- The lowest decrement on a missing key: minus 2^63 is answered instead of an error. -/
theorem decrby_lowest :
    let at₁ := Timespec.atSecond 1 (by decide) (by decide)
    let server : Server FiniteStore := ⟨⟨septicTankCreate, []⟩, false⟩
    let text := cstr "-9223372036854775808"
    parseInt64 text = some Int64.minValue ∧
      counterValue at₁ server.tank.tank.data [107] = some 0 ∧
      (∃ server', decrby server ⟨at₁, at₁, at₁⟩ [107] text =
        .ok (server', .integer Int64.minValue)) ∧
      ¬ SubtractsExactly server ⟨at₁, at₁, at₁⟩ [107] text 0 Int64.minValue := by
  intro at₁ server text
  have htext : parseInt64 text = some Int64.minValue := by decide +kernel
  have hzero : counterValue at₁ server.tank.tank.data [107] = some 0 := by decide +kernel
  have hreply : ∃ server', decrby server ⟨at₁, at₁, at₁⟩ [107] text =
      .ok (server', .integer Int64.minValue) := by
    rw [decrby_eq htext]
    exact ⟨_, rfl⟩
  refine ⟨htext, hzero, hreply, ?_⟩
  intro hexact
  obtain ⟨server', hreply⟩ := hreply
  obtain ⟨message, hrefused⟩ := hexact.refuses (by decide)
  rw [hreply] at hrefused
  cases hrefused

end Redic.Command
