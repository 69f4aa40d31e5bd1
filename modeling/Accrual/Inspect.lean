/-
The inspector: a read-only view of a store, by command line.

    (no argument)      list every accumulator
    NAME               one accumulator and its positions
    NAME INDEX         one position and what it is owed

* `Request.ofArguments` — what a command line asks for;
* `Request.answer` — the answer from an open store;
* `InspectConfig.checkFilter` — a log filter of the environment wins over that of the configuration;
* `inspect` — everything from the command line and the environment to the reply.

The inspector is the same for every way of reaching files: `Surroundings` names what it needs of
them, and `Disk.surroundings` provides it for a disk that is a value.  What it logs is no part of
its reply and is left out; a log filter only decides whether there is a reply.
-/
import Accrual.Disk.Store
import Accrual.LogFilter
import Accrual.Report

namespace Accrual

/-! ### Requests -/

/-- What a command line asks for. -/
inductive Request where
  /-- How the inspector is used. -/
  | usage
  /-- Every accumulator. -/
  | accumulators
  /-- One accumulator and its positions. -/
  | accumulator (name : String)
  /-- One position. -/
  | position (name index : String)
deriving DecidableEq

namespace Request

/-- Whether an argument asks how the inspector is used. -/
def isHelp (argument : String) : Bool := argument = "-h" || argument = "--help"

/-- The request that a command line makes. -/
def ofArguments (arguments : List String) : Request :=
  if arguments.any isHelp then .usage
  else
    match arguments with
    | [] => .accumulators
    | [name] => .accumulator name
    | [name, index] => .position name index
    | _ => .usage

/-- The answer to a request, read from a store. -/
def answer : Request → Action Store Json.Value
  | .usage => return .null
  | .accumulators => return .array ((← Accumulator.all).map (·.toJson))
  | .accumulator name => return (← AccumulatorReport.read name).toJson
  | .position name index => return (← PositionReport.read name index).toJson

end Request

/-! ### Replies -/

/-- The variable of the environment that names the configuration file. -/
def configVariable : String := "ACCRUE_CONFIG"

/-- The variable of the environment that has a log filter. -/
def logVariable : String := "RUST_LOG"

/-- Why the inspector has no answer. -/
inductive InspectError where
  /-- The configuration file cannot be read. -/
  | unreadable (cause : ReadError)
  /-- The configuration is not a document of the right form. -/
  | malformed
  /-- The logging level is not a filter. -/
  | logLevel (cause : LogFilter.FilterError)
  /-- The configuration names no database file. -/
  | noPath
  /-- The store cannot be opened, or its records cannot be reported. -/
  | ledger (cause : Error)
deriving DecidableEq

/-- The wording of a failure. -/
def InspectError.message : InspectError → String
  | .unreadable cause => cause.message
  | .malformed => ConfigError.malformed.message
  | .logLevel cause => cause.message
  | .noPath => "no store path configured (see $" ++ configVariable ++ ")"
  | .ledger cause => cause.message

/-- What the inspector replies. -/
inductive Reply where
  | usage
  | output (text : String)
  | failure (cause : InspectError)
deriving DecidableEq

/-- The lines that explain how the inspector is used. -/
def usageLines : List String :=
  ["usage: accrue-inspect [<accumulator> [<index>]]", "  config file: $" ++ configVariable]

/-! ### The way to a reply -/

/-- What the inspector reads from the environment. -/
structure Environment where
  /-- The value of `configVariable`. -/
  configPath : Option String := none
  /-- The value of `logVariable`. -/
  logFilter : Option String := none

/-- What the inspector needs of its surroundings. -/
structure Surroundings (m : Type → Type) where
  /-- The text of the file at a path. -/
  readText : String → m (Except ReadError String)
  /-- The store at a path, opened for reading only. -/
  openStore : String → m (Except StoreError Store)

/-- The settings that a configuration file gives. -/
def InspectConfig.ofText (text : String) : Except InspectError InspectConfig :=
  match InspectConfig.parse text with
  | .ok c => .ok c
  | .error .malformed => .error .malformed
  | .error e => .error (.ledger (.store (.config e)))

/-- Check the log filter.  One in the environment wins, and the level of the configuration is then
not looked at; a text there that is no filter is passed over. -/
def InspectConfig.checkFilter (c : InspectConfig) (logFilter : Option String) :
    Except InspectError Unit :=
  if logFilter.any fun text => (LogFilter.check text).isOk then .ok ()
  else (LogFilter.check c.logLevel).mapError .logLevel

/-- The path of the database that the settings lead to. -/
def InspectConfig.storePath (c : InspectConfig) (logFilter : Option String) :
    Except InspectError String := do
  c.checkFilter logFilter
  match c.store.databasePath? with
  | some path => return path
  | none => throw .noPath

/-- The reply to a request from a store that was opened for it. -/
def Request.reply (request : Request) (opened : Except StoreError Store) : Reply :=
  match opened with
  | .error e => .failure (.ledger (.store e))
  | .ok store =>
    match request.answer store with
    | .ok v _ => .output (v.pretty ++ "\n")
    | .error e _ => .failure (.ledger e)

/-- The settings in force: those of the file that the environment names, or the defaults. -/
def InspectConfig.load {m : Type → Type} [Monad m] (around : Surroundings m)
    (configPath : Option String) : m (Except InspectError InspectConfig) := do
  match configPath with
  | none | some "" => return .ok {}
  | some path =>
    match ← around.readText path with
    | .ok text => return InspectConfig.ofText text
    | .error e => return .error (.unreadable e)

/-- The reply to a command line in an environment. -/
def inspect {m : Type → Type} [Monad m] (around : Surroundings m) (environment : Environment)
    (arguments : List String) : m Reply := do
  match Request.ofArguments arguments with
  | .usage => return .usage
  | request =>
    match (← InspectConfig.load around environment.configPath).bind
        (·.storePath environment.logFilter) with
    | .ok path => return request.reply (← around.openStore path)
    | .error e => return .failure e

/-- A disk as the surroundings of the inspector. -/
def Disk.surroundings (disk : Disk) : Surroundings Id where
  readText path := disk.readText path
  openStore path := disk.openReadOnly path

/-- The reply to a command line on a disk. -/
def Disk.inspect (disk : Disk) (configPath : Option String) (arguments : List String)
    (logFilter : Option String := none) : Reply :=
  (Accrual.inspect disk.surroundings { configPath, logFilter } arguments).run

end Accrual
