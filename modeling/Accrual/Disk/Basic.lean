/-
Files and directories, and the paths that lead to them.

Main definitions:
* `Disk` — files and directories by the steps that lead to them from the top;
* `Disk.resolve?` — where a path leads, step by step, or why it leads nowhere;
* `Disk.find?` — what stands at a path;
* `Disk.readText`, `Disk.write`, `Disk.delete` — read, make and delete a file.

A path leads through directories only: behind a name that is missing or a file there is nothing,
not even the way back.
-/
import Accrual.Database.Image

namespace Accrual

/-- What stands at a path. -/
inductive Entry where
  | directory
  /-- A device that swallows everything and holds nothing. -/
  | device
  | database (contents : Database)
  /-- A file that nothing has been made of yet, by its bytes. -/
  | other (contents : Bytes)
deriving DecidableEq

namespace Entry

/-- Whether something is a file. -/
def isFile : Entry → Bool
  | .directory | .device => false
  | _ => true

/-- The database in a file. -/
def database? : Entry → Option Database
  | .directory | .device => none
  | .database d => some d
  | .other contents => Database.ofBytes? ⟨contents.toArray⟩

end Entry

/-- Why a path leads nowhere. -/
inductive PathError where
  /-- There is nothing at the path. -/
  | missing
  /-- The path leads through a file. -/
  | notDirectory
  /-- The path, or a name in it, is too long. -/
  | nameTooLong
deriving DecidableEq

/-- Why a file cannot be read as text. -/
inductive ReadError where
  | path (cause : PathError)
  | isDirectory
  /-- The contents are not text. -/
  | notText
deriving DecidableEq

/-- The wording of a failure to read. -/
def ReadError.message : ReadError → String
  | .path .missing => "No such file or directory (os error 2)"
  | .path .notDirectory => "Not a directory (os error 20)"
  | .path .nameTooLong => "File name too long (os error 36)"
  | .isDirectory => "Is a directory (os error 21)"
  | .notText => "stream did not contain valid UTF-8"

/-- Files and directories. -/
structure Disk where
  /-- How the working directory is called. -/
  root : String
  /-- The steps that lead to the working directory. -/
  home : List String
  entries : List (List String × Entry)

namespace Disk

/-- The longest path, in bytes. -/
def maxPath : Nat := 4095

/-- The longest name, in bytes. -/
def maxName : Nat := 255

/-- The directories that every system has. -/
def systemDirectories : List String :=
  ["bin", "dev", "etc", "home", "lib", "opt", "proc", "root", "run", "sbin", "sys", "tmp", "usr",
    "var"]

/-- An empty working directory on a system with nothing else on it. -/
def empty (root : String) : Disk :=
  let home := ["tmp", "work"]
  { root, home
    entries := (home, .directory) :: (["dev", "null"], .device)
      :: systemDirectories.map fun name => ([name], .directory) }

/-! ### Paths -/

/-- The names in a path. -/
def names (path : String) : List String := (path.splitOn "/").filter (· ≠ "")

/-- Where a path begins, and the names on it. -/
def split (disk : Disk) (path : String) : List String × List String :=
  if path = disk.root ∨ path.startsWith (disk.root ++ "/") then
    (disk.home, names (path.drop disk.root.length).toString)
  else if path.startsWith "/" then ([], names path)
  else (disk.home, names path)

/-- What stands at the end of some steps. -/
def entry? (disk : Disk) (steps : List String) : Option Entry :=
  if steps = [] then some .directory else disk.entries.lookup steps

/-- Go on from the end of some steps. -/
def go? (disk : Disk) (steps : List String) (name : String) :
    Except PathError (List String) :=
  match disk.entry? steps with
  | none => .error .missing
  | some .directory =>
    if name = "." then .ok steps
    else if name = ".." then .ok steps.dropLast
    else if maxName < name.utf8ByteSize then .error .nameTooLong
    else .ok (steps ++ [name])
  | some _ => .error .notDirectory

/-- The steps to the end of a path; nothing needs to stand there. -/
def resolve? (disk : Disk) (path : String) : Except PathError (List String) := do
  if path = "" ∨ path.contains '\x00' then throw .missing
  if maxPath < path.utf8ByteSize then throw .nameTooLong
  let (start, names) := disk.split path
  let steps ← names.foldlM disk.go? start
  if path.endsWith "/" ∧ (disk.entry? steps).any (· ≠ .directory) then throw .notDirectory
  return steps

/-- What stands at a path. -/
def find? (disk : Disk) (path : String) : Option Entry :=
  (disk.resolve? path).toOption.bind disk.entry?

/-! ### Files -/

/-- Put something at the end of some steps. -/
def place (disk : Disk) (steps : List String) (entry : Entry) : Disk :=
  { disk with entries := (steps, entry) :: disk.entries.filter (·.1 ≠ steps) }

/-- Make a file with the given contents, and say whether that was possible. -/
def write (disk : Disk) (path : String) (contents : Bytes) : Bool × Disk :=
  match disk.resolve? path with
  | .error _ => (false, disk)
  | .ok steps =>
    match disk.entry? steps with
    | some .directory => (false, disk)
    | some .device => (true, disk)
    | some _ => (true, disk.place steps (.other contents))
    | none =>
      if path.endsWith "/" then (false, disk) else (true, disk.place steps (.other contents))

/-- Delete the file at a path, and say whether there was one. -/
def delete (disk : Disk) (path : String) : Bool × Disk :=
  match disk.resolve? path with
  | .error _ => (false, disk)
  | .ok steps =>
    if (disk.entry? steps).any Entry.isFile then
      (true, { disk with entries := disk.entries.filter (·.1 ≠ steps) })
    else (false, disk)

/-- The text of the file at a path.  A database file is never text. -/
def readText (disk : Disk) (path : String) : Except ReadError String := do
  let steps ← (disk.resolve? path).mapError .path
  match disk.entry? steps with
  | none => throw (.path .missing)
  | some .directory => throw .isDirectory
  | some .device => return ""
  | some (.database _) => throw .notText
  | some (.other contents) =>
    match Bytes.toString? contents with
    | some text => return text
    | none => throw .notText

end Disk

end Accrual
