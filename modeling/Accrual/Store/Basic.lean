/-
Stores: where records are read and written.

A store is either a map in memory, which never refuses, or an open database.  A database refuses
to write when it was opened for reading only, and refuses everything when it has no table of
records.

* `Store.lookup`, `Store.contains`, `Store.scan` — reading;
* `Store.insert`, `Store.erase` — writing, with the store afterwards;
* `Store.records` — what a store holds, whatever its kind.
-/
import Accrual.Error
import Accrual.Store.Records

namespace Accrual

/-- Where records are read and written. -/
inductive Store where
  /-- A map in memory. -/
  | memory (records : Records)
  /-- An open database; one without a table of records refuses every operation. -/
  | database (table : Option Records) (writable : Bool)
deriving DecidableEq

namespace Store

/-- The records a store holds. -/
def records : Store → Records
  | .memory records => records
  | .database table _ => table.getD .empty

/-- The value at a key, if there is one. -/
def lookup (s : Store) (key : Bytes) : Except StoreError (Option Bytes) :=
  match s with
  | .memory records | .database (some records) _ => .ok (records.find? key)
  | .database none _ => .error .engine

/-- Whether there is a value at a key. -/
def contains (s : Store) (key : Bytes) : Except StoreError Bool :=
  (s.lookup key).map Option.isSome

/-- The records whose keys begin with `start`, in ascending order. -/
def scan (s : Store) (start : Bytes) : Except StoreError (List (Bytes × Bytes)) :=
  match s with
  | .memory records => .ok (records.scan start)
  | .database (some records) _ => .ok (records.scanRange start)
  | .database none _ => .error .engine

/-- Set the value at a key. -/
def insert (s : Store) (key value : Bytes) : Except StoreError Store :=
  match s with
  | .memory records => .ok (.memory (records.insert key value))
  | .database (some records) true => .ok (.database (some (records.insert key value)) true)
  | .database _ _ => .error .engine

/-- Remove a key. -/
def erase (s : Store) (key : Bytes) : Except StoreError Store :=
  match s with
  | .memory records => .ok (.memory (records.erase key))
  | .database (some records) true => .ok (.database (some (records.erase key)) true)
  | .database _ _ => .error .engine

end Store

end Accrual
