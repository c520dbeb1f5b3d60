import Redic.SepticTank.KeyStore

/-! # Operations, mutations and results of the septic tank

Operations state an intent and carry the condition flags. Mutations state what the store
should hold; they are what the log keeps. A mutation has one of the three persisted types,
so the tags that the source guards with `UNREACHABLE` cannot be built.
-/
namespace Redic

inductive SepticTankOperationType
  | set | del | expire | incrby | get | ttl | exists
  deriving DecidableEq, Repr

inductive SepticTankExpirationType
  | noExpire | unixTs | keepOld
  deriving DecidableEq, Repr

structure SepticTankExpiration where
  type : SepticTankExpirationType
  ts : Int64
  deriving DecidableEq, Repr

inductive ExpireCondition
  | none | nx | xx | gt | lt
  deriving DecidableEq, Repr

structure SepticTankSetOperation where
  key : DataString
  value : DataString
  nx : Bool
  xx : Bool
  get : Bool
  expiration : SepticTankExpiration
  deriving DecidableEq, Repr

structure SepticTankExpireOperation where
  key : DataString
  expiresAt : Int64
  condition : ExpireCondition
  deriving DecidableEq, Repr

structure SepticTankIncrByOperation where
  key : DataString
  delta : Int64
  deriving DecidableEq, Repr

/-- The tagged union; the four operations without parameters carry their key only. -/
inductive SepticTankOperation
  | set (op : SepticTankSetOperation)
  | del (key : DataString)
  | expire (op : SepticTankExpireOperation)
  | incrby (op : SepticTankIncrByOperation)
  | get (key : DataString)
  | ttl (key : DataString)
  | exists (key : DataString)
  deriving DecidableEq, Repr

def SepticTankOperation.key : SepticTankOperation → DataString
  | set op => op.key
  | del key => key
  | expire op => op.key
  | incrby op => op.key
  | get key => key
  | ttl key => key
  | .exists key => key

/-- `ST_MUTATION_NO_EXPIRY`, the in-band value for a missing deadline. -/
def stMutationNoExpiry : Int64 := -1

structure SepticTankSetMutation where
  key : DataString
  value : DataString
  expiresAt : Int64
  deriving DecidableEq, Repr

structure SepticTankExpireMutation where
  key : DataString
  expiresAt : Int64
  deriving DecidableEq, Repr

inductive SepticTankMutation
  | set (mutation : SepticTankSetMutation)
  | del (key : DataString)
  | expire (mutation : SepticTankExpireMutation)
  deriving DecidableEq, Repr

def SepticTankMutation.key : SepticTankMutation → DataString
  | set mutation => mutation.key
  | del key => key
  | expire mutation => mutation.key

/-- The union of the per-operation results. -/
inductive SepticTankResultValue
  | setResult (oldValue : Option DataString)
  | getResult (value : Option DataString)
  | delResult (numDeleted : UInt32)
  | ttlResult (ttlS : Int64)
  | existsResult (existsCount : Int64)
  | expireResult (isSet : Int64)
  | incrbyResult (value : Int64)
  deriving DecidableEq, Repr

structure SepticTankResult where
  type : SepticTankOperationType
  value : SepticTankResultValue
  resolvedMutation : Option SepticTankMutation
  success : Bool
  error : Option String
  deriving DecidableEq, Repr

def wrongTypeError : String :=
  "WRONGTYPE Operation against a key holding the wrong kind of value"

structure SepticTank (S : Type) where
  data : S
  aofEnabled : Bool
  deriving DecidableEq

end Redic
