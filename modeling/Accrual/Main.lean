/-
The command line of the inspector.

The configuration file and the database file are read from the real disk; everything else is
`Accrual.inspect`.  The reply goes to standard output, messages go to standard error, and the exit
code is 1 if there is no answer.
-/
import Accrual.Inspect

namespace Accrual

/-- The cause of a failure to read a file.  A path that leads through a file fails to be opened,
and the failure names it; a directory can be opened and then fails to be read. -/
def ReadError.ofSystem : IO.Error → ReadError
  | .inappropriateType (some _) .. => .path .notDirectory
  | .inappropriateType none .. => .isDirectory
  | .invalidArgument .. => .path .nameTooLong
  | _ => .path .missing

/-- The bytes of a file. -/
def readBytes (path : String) : IO (Except ReadError ByteArray) := do
  try
    return .ok (← IO.FS.readBinFile path)
  catch e => return .error (.ofSystem e)

/-- The database with a name, if it can be read. -/
def namedDatabase (name : String) : IO (Option Database) := do
  match Location.ofName? name with
  | none => return none
  | some .memory => return some .blank
  | some (.file path) =>
    match ← readBytes path with
    | .ok bytes => return Database.ofBytes? bytes
    | .error _ => return none

/-- The real disk as the surroundings of the inspector. -/
def systemSurroundings : Surroundings IO where
  readText path := do
    match ← readBytes path with
    | .error e => return .error e
    | .ok bytes =>
      match String.fromUTF8? bytes with
      | some text => return .ok text
      | none => return .error .notText
  openStore path := do
    if (← readBytes path).toOption.isNone then return .error (.noStoreAt path)
    match ← namedDatabase path with
    | some d => return d.openReadOnly path
    | none => return .error .engine

end Accrual

/-- Answer a command line. -/
def main (arguments : List String) : IO UInt32 := do
  let environment : Accrual.Environment :=
    { configPath := ← IO.getEnv Accrual.configVariable
      logFilter := ← IO.getEnv Accrual.logVariable }
  match ← Accrual.inspect Accrual.systemSurroundings environment arguments with
  | .usage =>
    for line in Accrual.usageLines do IO.eprintln line
    return 0
  | .output text =>
    IO.print text
    return 0
  | .failure e =>
    IO.eprintln ("Error: " ++ e.message)
    return 1
