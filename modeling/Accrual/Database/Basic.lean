/-
Databases: a schema version and a table of records.

Main definitions:
* `Database` — the contents of a database file;
* `Database.withLog`, `Database.migrate` — make a database ready for writing and bring it to the
  current schema version;
* `Database.openReadOnly` — open a database as it is, if it has the current version.

A new or empty file is a database of version 0 without a table.
-/
import Accrual.Power
import Accrual.Store.Basic

namespace Accrual

/-- What a database holds of a table of records. -/
inductive Contents where
  /-- There is no table of records yet. -/
  | absent
  | table (records : Records)
  /-- There is a table, but its records cannot be read. -/
  | unreadable
  /-- The list of tables cannot be read. -/
  | malformed
deriving DecidableEq

/-- The table of records, if it can be read. -/
def Contents.table? : Contents → Option Records
  | .table records => some records
  | _ => none

/-- The contents with a table, if there was none. -/
def Contents.withTable : Contents → Contents
  | .absent => .table .empty
  | c => c

/-- The contents of a database file. -/
structure Database where
  /-- The schema version, a signed number of 32 bits. -/
  version : Int
  contents : Contents
  /-- Changes are first written to a log beside the file. -/
  logged : Bool := false
  /-- Changes are refused. -/
  locked : Bool := false
deriving DecidableEq

namespace Database

/-- An empty file. -/
def blank : Database := { version := 0, contents := .absent }

/-- The schema version as it is read when a database is opened: a negative one is refused. -/
def readVersion (d : Database) : Except StoreError Nat :=
  if d.version < 0 then .error .engine else .ok d.version.toNat

/-- The database with a log, which it needs to be open for writing. -/
def withLog (d : Database) : Except StoreError Database :=
  if d.contents = .malformed ∨ (d.locked ∧ ¬ d.logged) then .error .engine
  else .ok { d with logged := true }

/-- The database at the current schema version: version 0 gets a table, if it has none, and the
current version. -/
def migrate (d : Database) : Except StoreError Database := do
  let version ← d.readVersion
  if version = 0 then
    if d.locked then throw .engine
    return { d with version := schemaVersion, contents := d.contents.withTable }
  else if schemaVersion < version then throw (.newerSchema version)
  else return d

/-- The database with another schema version; a number of more than 32 bits counts as 0. -/
def setVersion (d : Database) (version : Int) : Except StoreError Database :=
  if d.locked then .error .engine
  else .ok { d with version := if -twoTo 31 ≤ version ∧ version < twoTo 31 then version else 0 }

/-- The store in a database that is open for writing. -/
def toStore (d : Database) : Store := .database d.contents.table? !d.locked

/-- Open the database of the file at a path for reading only. -/
def openReadOnly (d : Database) (path : String) : Except StoreError Store := do
  let version ← d.readVersion
  if version ≠ schemaVersion then .error (.schemaMismatch path version)
  else return .database d.contents.table? false

end Database

end Accrual
