/-
Stores on a disk.

Main definitions:
* `Disk.open?`, `Disk.openReadOnly`, `Disk.close` — open and close the store at a path;
* `Disk.openWith?` — open the store that a configuration describes;
* `Disk.keep`, `Disk.setVersion` — change the database at a path.

Opening for writing creates missing directories and the file, and brings version 0 of a database
to the current one; opening for reading changes no database and insists on the current version.

The database engine has its own way with paths: it takes a step back to undo the step before,
whether or not that led to a directory, and stops where something is in the way.
-/
import Accrual.Config
import Accrual.Database.Location
import Accrual.Disk.Log

namespace Accrual

namespace Disk

/-- Create the directories that some names lead through, one after the other; the disk afterwards
is returned also when one cannot be created. -/
def makeDirectories (disk : Disk) : List String → List String → Except StoreError Unit × Disk
  | _, [] => (.ok (), disk)
  | steps, name :: names =>
    match disk.go? steps name with
    | .error _ => (.error .noDirectory, disk)
    | .ok steps =>
      match disk.entry? steps with
      | some .directory => disk.makeDirectories steps names
      | some _ => (.error .noDirectory, disk)
      | none => (disk.place steps .directory).makeDirectories steps names

/-- Create the directories that lead to the end of a path. -/
def makeParents (disk : Disk) (path : String) : Except StoreError Unit × Disk :=
  let (start, names) := disk.split path
  let names := names.filter (· ≠ ".")
  let above := names.dropLast
  if above.any (·.contains '\x00')
      ∨ maxPath + 1 + (names.getLast?.getD "").utf8ByteSize < path.utf8ByteSize then
    (.error .noDirectory, disk)
  else disk.makeDirectories start above

/-! ### The way of the database engine -/

/-- The longest path of a database, in bytes. -/
def maxDatabasePath : Nat := 504

/-- Go on from the end of some steps as the database engine does. -/
def goAnyway? (disk : Disk) (steps : List String) (name : String) : Option (List String) :=
  if name = "." then some steps
  else if name = ".." then some steps.dropLast
  else if name.contains '\x00' then none
  else
    match (steps ++ [name]).foldlM disk.go? [] with
    | .ok _ | .error .missing => some (steps ++ [name])
    | .error _ => none

/-- The steps to the database at a path. -/
def databaseSteps? (disk : Disk) (path : String) : Option (List String) := do
  let (start, names) := disk.split path
  let steps ← names.foldlM disk.goAnyway? start
  if maxDatabasePath < steps.foldl (fun size name => size + name.utf8ByteSize + 1) 0 then none
  return steps

/-- Change the disk at the steps to the database at a path, if the path leads anywhere. -/
def atDatabase (disk : Disk) (path : String) (change : Disk → List String → Disk) : Disk :=
  match disk.databaseSteps? path with
  | some steps => change disk steps
  | none => disk

/-- The database at the end of some steps; a missing file is an empty one. -/
def database? (disk : Disk) (steps : List String) : Option Database :=
  match disk.entry? steps.dropLast, disk.entry? steps with
  | some .directory, none => some .blank
  | _, some entry => entry.database?
  | _, none => none

/-! ### Changes -/

/-- The longest name of a database that can be changed, in bytes: the journal beside it has a
name eight bytes longer. -/
def maxDatabaseName : Nat := maxName - 8

/-- Change the database at a path, creating the file if there is none.  If that fails, no more
than the creation happens. -/
def update (disk : Disk) (path : String) (change : Database → Except StoreError Database) :
    Except StoreError Database × Disk :=
  match disk.databaseSteps? path with
  | none => (.error .engine, disk)
  | some steps =>
    match disk.database? steps with
    | none => (.error .engine, disk)
    | some d =>
      if maxDatabaseName < (steps.getLast?.getD "").utf8ByteSize then
        (.error .engine, disk.leave steps [])
      else
        match change d with
        | .ok d =>
          if disk.isBlocked steps d.logged then (.error .engine, disk.leave steps [])
          else (.ok d, disk.place steps (.database d))
        | .error e => (.error e, disk.leave steps [])

/-! ### Stores -/

/-- Open the database at a path for reading and writing; the disk afterwards is returned also
when that fails.  The log stays as long as the database is open. -/
def open? (disk : Disk) (path : String) : Except StoreError Store × Disk :=
  match disk.makeParents path with
  | (.error e, disk) => (.error e, disk)
  | (.ok (), disk) =>
    match disk.update path Database.withLog with
    | (.error e, disk) => (.error e, disk)
    | (.ok _, disk) =>
      match disk.update path Database.migrate with
      | (.ok d, disk) => (.ok d.toStore, disk.atDatabase path addLog)
      | (.error e, disk) => (.error e, disk.atDatabase path removeLog)

/-- Open the database that a configuration describes: the one at its path, or a fresh one in
memory. -/
def openWith? (disk : Disk) (c : StoreConfig) : Except StoreError Store × Disk :=
  match c.databasePath? with
  | some path => disk.open? path
  | none => (.ok (.database (some .empty) true), disk)

/-- The steps to the database with a name, if it is kept in a file. -/
def namedSteps? (disk : Disk) (name : String) : Option (List String) :=
  match Location.ofName? name with
  | some (.file path) => disk.databaseSteps? path
  | _ => none

/-- The database with a name, if it can be read. -/
def named? (disk : Disk) (name : String) : Option Database :=
  match Location.ofName? name with
  | some .memory => some .blank
  | _ => do
    let steps ← disk.namedSteps? name
    let d ← (← disk.entry? steps).database?
    if disk.isBlocked steps d.logged then none else return d

/-- Open the database at a path for reading only.  The path has to lead to a file, but it is then
taken for the name of a database. -/
def openReadOnly (disk : Disk) (path : String) : Except StoreError Store :=
  if (disk.find? path).any Entry.isFile then
    match disk.named? path with
    | some d => d.openReadOnly path
    | none => .error .engine
  else .error (.noStoreAt path)

/-- The disk after the database at a path was opened for reading only.  One with a log leaves it
there, and does not take it away when it is closed. -/
def afterReading (disk : Disk) (path : String) : Disk :=
  if (disk.find? path).any Entry.isFile ∧ (disk.named? path).any (·.logged) then
    match disk.namedSteps? path with
    | some steps => disk.addLog steps
    | none => disk
  else disk

/-- Keep the records of a store in the database at a path. -/
def keep (disk : Disk) (path : String) (store : Store) : Disk :=
  match store with
  | .database (some records) true =>
    (disk.update path fun d => .ok { d with contents := .table records }).2
  | _ => disk

/-- Close the store that is kept at a path.  The last to write takes the log away. -/
def close (disk : Disk) (path : String) (store : Store) : Disk :=
  match store with
  | .database _ true => (disk.keep path store).atDatabase path removeLog
  | _ => disk

/-- Set the schema version of the database at a path, creating the file if there is none. -/
def setVersion (disk : Disk) (path : String) (version : Int) : Except StoreError Unit × Disk :=
  match disk.update path (·.setVersion version) with
  | (.ok _, disk) => (.ok (), disk.atDatabase path removeLog)
  | (.error e, disk) => (.error e, disk)

end Disk

end Accrual
