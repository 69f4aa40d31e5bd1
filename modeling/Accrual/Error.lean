/-
Why an operation fails.

* `ConfigError` — a configuration is refused;
* `StoreError` — the storage could not be opened, read or written;
* `Violation` — an invariant of the ledger does not hold;
* `Error` — every failure of a ledger operation, with its wording `Error.message` and the
  question `Error.IsFatal`, whether the transaction around it must be given up.
-/
import Accrual.Bytes.Basic
import Accrual.Rewards.Basic

namespace Accrual

/-- Why a configuration is refused. -/
inductive ConfigError where
  /-- It is not a document of the right form. -/
  | malformed
  /-- It names a synchronous mode that does not exist. -/
  | unknownSynchronous (mode : String)
deriving DecidableEq

/-- Why the storage could not be opened, read or written. -/
inductive StoreError where
  /-- The database engine refused: no table, no right to write, not a database. -/
  | engine
  /-- The database was written by a later release. -/
  | newerSchema (version : Nat)
  /-- A database opened for reading has another schema version than the current one. -/
  | schemaMismatch (path : String) (version : Nat)
  /-- The bytes of a record do not encode one. -/
  | undecodable
  /-- An accumulator key whose name is not text. -/
  | malformedAccumulatorKey (key : Bytes)
  /-- A position key whose index is not text. -/
  | malformedPositionKey (key : Bytes)
  /-- The configuration is refused. -/
  | config (cause : ConfigError)
  /-- There is no database file at the path. -/
  | noStoreAt (path : String)
  /-- The directory of a database cannot be created. -/
  | noDirectory
deriving DecidableEq

/-- An invariant of the ledger does not hold. -/
inductive Violation where
  /-- A position was synchronized with a value the accumulator has not reached. -/
  | snapshotAhead (name denom : String) (snapshot global : Decimal)
  /-- The share total would fall below zero. -/
  | negativeTotalShares (name : String) (total delta : Decimal)
deriving DecidableEq

/-- Why an operation on the ledger failed. -/
inductive Error where
  | store (cause : StoreError)
  | rewards (cause : RewardError)
  | accumulatorExists (name : String)
  | accumulatorNotFound (name : String)
  | positionNotFound (name index : String)
  | positionExists (name index : String)
  /-- A name or index that cannot be part of a key. -/
  | invalidName (text : String)
  | nonPositiveShares (shares : Decimal)
  | insufficientShares (index : String) (held requested : Decimal)
  /-- A position to be deleted still holds shares or is owed rewards. -/
  | positionNotEmpty (index : String)
  | violation (cause : Violation)
deriving DecidableEq

/-- The current schema version of a database. -/
def schemaVersion : Nat := 1

/-- The wording of a refused configuration. -/
def ConfigError.message : ConfigError → String
  | .malformed => "TOML parse error"
  | .unknownSynchronous mode => "unknown synchronous mode " ++ Text.quoted mode

/-- The wording of a storage failure. -/
def StoreError.message : StoreError → String
  | .engine => "SQLite error"
  | .newerSchema version =>
    "migration failed: store version " ++ toString version ++ " is newer than supported "
      ++ toString schemaVersion
  | .schemaMismatch path version =>
    "migration failed: store " ++ path ++ " is at schema v" ++ toString version ++ ", expected v"
      ++ toString schemaVersion
  | .undecodable => "deserialization error: CBOR"
  | .malformedAccumulatorKey key =>
    "deserialization error: malformed accumulator key " ++ keyText key
  | .malformedPositionKey key => "deserialization error: malformed position key " ++ keyText key
  | .config cause => "invalid configuration: " ++ cause.message
  | .noStoreAt path => "I/O error: no store at " ++ path
  | .noDirectory => "I/O error: Not a directory"
where
  /-- The bytes of a key as a list of numbers. -/
  keyText (key : Bytes) : String :=
    "[" ++ String.intercalate ", " (key.map fun b => toString b.toNat) ++ "]"

/-- The wording of a broken invariant. -/
def Violation.message : Violation → String
  | .snapshotAhead name denom snapshot global =>
    "snapshot ahead of " ++ name ++ " for " ++ denom ++ ": " ++ snapshot.text ++ " > "
      ++ global.text
  | .negativeTotalShares name total delta =>
    "total shares of " ++ name ++ " would become negative: " ++ total.text ++ " + " ++ delta.text

namespace Error

/-- The wording of a failure. -/
def message : Error → String
  | .store cause => cause.message
  | .rewards cause => cause.message
  | .accumulatorExists name => "accumulator already exists: " ++ name
  | .accumulatorNotFound name => "accumulator not found: " ++ name
  | .positionNotFound name index => "no position " ++ index ++ " in accumulator " ++ name
  | .positionExists name index =>
    "position " ++ index ++ " already exists in accumulator " ++ name
  | .invalidName text => "invalid key component: " ++ Text.quoted text
  | .nonPositiveShares shares => "share amount must be positive, got " ++ shares.text
  | .insufficientShares index held requested =>
    "cannot remove " ++ requested.text ++ " shares from " ++ index ++ " holding " ++ held.text
  | .positionNotEmpty index => "position " ++ index ++ " still holds shares or unclaimed rewards"
  | .violation cause => "invariant violation: " ++ cause.message

/-- Whether the transaction around the failure must be given up: a broken invariant, a storage
failure or an overflow, but not a mistaken argument. -/
def isFatal : Error → Bool
  | .violation _ | .store _ | .rewards .overflow => true
  | _ => false

end Error

end Accrual
