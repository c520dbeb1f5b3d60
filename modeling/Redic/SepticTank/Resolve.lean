import Redic.SepticTank.Operation

/-! # The read half of the tank

Each function takes the tank, the operation and the clock readings the source makes, and
returns the tank after any eviction together with the result. `EXPIRE` is the one operation
that reads the clock twice.
-/
namespace Redic
open KeyStore

variable {S : Type} [KeyStore S]

def SepticTank.evict (tank : SepticTank S) (key : DataString) : SepticTank S :=
  { tank with data := hashmapRemove tank.data key }

def septicTankGet (tank : SepticTank S) (key : DataString) (ts : Timespec) :
    SepticTank S × SepticTankResult :=
  let result : SepticTankResult := ⟨.get, .getResult none, none, true, none⟩
  match hashmapGet tank.data key with
  | none => (tank, result)
  | some entry =>
    if dataIsExpired entry ts then (tank.evict key, result)
    else if entry.type ≠ .dataString then
      (tank, { result with success := false, error := some wrongTypeError })
    else (tank, { result with value := .getResult (some (dataUnwrapString entry)) })

def septicTankResolveDel (tank : SepticTank S) (key : DataString) (ts : Timespec) :
    SepticTank S × SepticTankResult :=
  let result : SepticTankResult := ⟨.del, .delResult 0, none, true, none⟩
  match hashmapGet tank.data key with
  | none => (tank, result)
  | some entry =>
    if dataIsExpired entry ts then (tank.evict key, result)
    else (tank, { result with
      value := .delResult 1
      resolvedMutation := some (.del key) })

def septicTankExists (tank : SepticTank S) (key : DataString) (ts : Timespec) :
    SepticTank S × SepticTankResult :=
  let result : SepticTankResult := ⟨.exists, .existsResult 0, none, true, none⟩
  match hashmapGet tank.data key with
  | none => (tank, result)
  | some entry =>
    let isExpired := dataIsExpired entry ts
    let result := if !isExpired then { result with value := .existsResult 1 } else result
    (if isExpired then tank.evict key else tank, result)

/-- The result is tagged as a `GET` and the entry's expiry is never tested. -/
def septicTankTtl (tank : SepticTank S) (key : DataString) (ts : Timespec) :
    SepticTank S × SepticTankResult :=
  let result : SepticTankResult := ⟨.get, .ttlResult 0, none, true, none⟩
  match hashmapGet tank.data key with
  | none => (tank, { result with value := .ttlResult (-2) })
  | some entry =>
    match entry.expiresAt with
    | none => (tank, { result with value := .ttlResult (-1) })
    | some value => (tank, { result with value := .ttlResult (value / 1000 - ts.tvSec) })

/-- The `switch` over the expiration mode of a `SET`. -/
def setExpiresAt (expiration : SepticTankExpiration) (oldEntry : Option DataEntry) : OptionTime :=
  match expiration.type with
  | .noExpire => none
  | .unixTs => some expiration.ts
  | .keepOld => oldEntry.bind DataEntry.expiresAt

def septicTankResolveSet (tank : SepticTank S) (op : SepticTankSetOperation) (ts : Timespec) :
    SepticTank S × SepticTankResult :=
  let result : SepticTankResult := ⟨.set, .setResult none, none, true, none⟩
  let oldEntry := hashmapGet tank.data op.key
  let oldEntryIsExpired := oldEntry.any (dataIsExpired · ts)
  if oldEntry.any (fun e => !oldEntryIsExpired && e.type != .dataString) then
    (tank, { result with success := false, error := some wrongTypeError })
  else if op.nx && oldEntry.isSome && !oldEntryIsExpired then
    if op.get then (tank, { result with value := .setResult (oldEntry.map dataUnwrapString) })
    else (tank, result)
  else if op.xx && (oldEntry.isNone || oldEntryIsExpired) then
    (if oldEntryIsExpired then tank.evict op.key else tank, result)
  else
    -- the stale pointer is nulled together with the eviction
    let tank := if oldEntry.isSome && oldEntryIsExpired then tank.evict op.key else tank
    let oldEntry := if oldEntry.isSome && oldEntryIsExpired then none else oldEntry
    let expiresAt := setExpiresAt op.expiration oldEntry
    let oldValue := if op.get then oldEntry.map dataUnwrapString else none
    (tank, { result with
      value := .setResult oldValue
      resolvedMutation := some (.set ⟨op.key, op.value, expiresAt.getD stMutationNoExpiry⟩) })

/-- The condition under which `EXPIRE` leaves the deadline alone. -/
def expireIsNoop (op : SepticTankExpireOperation) (expiresAt : OptionTime) : Bool :=
  let hasExpiry := expiresAt.isSome
  (op.condition == .nx && hasExpiry) ||
  (op.condition == .xx && !hasExpiry) ||
  (op.condition == .gt && !hasExpiry) ||
  (op.condition == .gt && expiresAt.any (fun value => decide (op.expiresAt ≤ value))) ||
  (op.condition == .lt && expiresAt.any (fun value => decide (value ≤ op.expiresAt)))

def septicTankResolveExpire (tank : SepticTank S) (op : SepticTankExpireOperation)
    (ts₁ ts₂ : Timespec) : SepticTank S × SepticTankResult :=
  let result : SepticTankResult := ⟨.expire, .expireResult 0, none, true, none⟩
  match hashmapGet tank.data op.key with
  | none => (tank, result)
  | some entry =>
    if dataIsExpired entry ts₁ then (tank.evict op.key, result)
    else if expireIsNoop op entry.expiresAt then (tank, result)
    else
      -- a deadline in the past is a delete
      let mutation : SepticTankMutation :=
        if op.expiresAt ≤ dataNowMs ts₂ then .del op.key
        else .expire ⟨op.key, op.expiresAt⟩
      (tank, { result with
        value := .expireResult 1
        resolvedMutation := some mutation })

/-- The overflow test, itself computed in 64-bit arithmetic. -/
def incrByOverflows (value delta : Int64) : Bool :=
  (decide (0 < delta) && decide (Int64.maxValue - delta < value)) ||
  (decide (delta < 0) && decide (value < Int64.minValue - delta))

def septicTankResolveIncrBy (tank : SepticTank S) (op : SepticTankIncrByOperation)
    (ts : Timespec) : SepticTank S × SepticTankResult :=
  let result : SepticTankResult := ⟨.incrby, .incrbyResult 0, none, true, none⟩
  let entry := hashmapGet tank.data op.key
  -- an expired entry is treated as absent; the mutation overwrites it
  let entry := if entry.any (dataIsExpired · ts) then none else entry
  if entry.any (fun e => e.type != .dataString) then
    (tank, { result with success := false, error := some wrongTypeError })
  else
    match entry.elim (some 0) (fun e => parseInt64 (dataUnwrapString e)) with
    | none => (tank, { result with
        success := false
        error := some "ERR value is not an integer or out of range" })
    | some value =>
      if incrByOverflows value op.delta then
        (tank, { result with success := false, error := some "Integer overflow" })
      else
        let value := value + op.delta
        let expiresAt : OptionTime := entry.bind DataEntry.expiresAt
        (tank, { result with
          value := .incrbyResult value
          resolvedMutation := some (.set
            ⟨op.key, dataStringFromInt64 value, expiresAt.getD stMutationNoExpiry⟩) })

/-- The `switch` of `septic_tank_digest`. -/
def septicTankResolve (tank : SepticTank S) (operation : SepticTankOperation)
    (ts₁ ts₂ : Timespec) : SepticTank S × SepticTankResult :=
  match operation with
  | .get key => septicTankGet tank key ts₁
  | .set op => septicTankResolveSet tank op ts₁
  | .del key => septicTankResolveDel tank key ts₁
  | .ttl key => septicTankTtl tank key ts₁
  | .exists key => septicTankExists tank key ts₁
  | .expire op => septicTankResolveExpire tank op ts₁ ts₂
  | .incrby op => septicTankResolveIncrBy tank op ts₁

end Redic
