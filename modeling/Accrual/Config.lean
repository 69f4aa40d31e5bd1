/-
Configuration: where the store is, how its database is opened, and what is logged.

* `StoreConfig` — the settings of a store, with `StoreConfig.parse` for a document of its own;
* `InspectConfig` — the settings of the inspector, in the groups `store` and `log`.

Every setting has a default and unknown settings are skipped.  A group is a table of settings by
name or an array of settings in order; a date or time stands for a group without settings.  The
form of the whole document is checked before any setting's meaning.
-/
import Accrual.Error
import Accrual.Toml.Reader

namespace Accrual

/-! ### Settings -/

/-- How eagerly a database waits for its writes to reach the disk. -/
inductive Synchronous where
  | off
  | normal
  | full
  | extra
deriving DecidableEq

namespace Synchronous

/-- The name of a mode. -/
def name : Synchronous → String
  | .off => "OFF"
  | .normal => "NORMAL"
  | .full => "FULL"
  | .extra => "EXTRA"

/-- Every mode. -/
def all : List Synchronous := [.off, .normal, .full, .extra]

/-- The mode with a name. -/
def parse (s : String) : Except ConfigError Synchronous :=
  match all.find? fun m => m.name = s with
  | some m => .ok m
  | none => .error (.unknownSynchronous s)

end Synchronous

/-- The settings of a store. -/
structure StoreConfig where
  /-- The database file; an empty path stands for a database in memory. -/
  path : String := ""
  /-- How long to wait for a locked database, in milliseconds. -/
  busyTimeout : UInt32 := 5000
  synchronous : Synchronous := .normal
  /-- The size of the page cache in KiB. -/
  cacheSize : UInt32 := 8000
deriving DecidableEq

/-- The settings of the inspector. -/
structure InspectConfig where
  store : StoreConfig := {}
  /-- Which messages are logged. -/
  logLevel : String := "warn"
deriving DecidableEq

/-- The path of the database file, unless the database is in memory. -/
def StoreConfig.databasePath? (c : StoreConfig) : Option String :=
  if c.path = "" then none else some c.path

/-! ### Reading -/

namespace Toml.Value

/-- The value of a string. -/
def string? : Value → Option String
  | .string s => some s
  | _ => none

/-- The value of an integer that is a number of 32 bits. -/
def uint32? : Value → Option UInt32
  | .integer n => if 0 ≤ n ∧ n < UInt32.size then some (.ofNat n.toNat) else none
  | _ => none

/-- Whether a value can be a group of settings. -/
def isGroup : Value → Bool
  | .table .. | .tables _ | .array _ | .moment _ => true
  | _ => false

/-- The setting of a group that has this position and name. -/
def setting? (group : Value) (position : Nat) (name : String) : Option Value :=
  match group with
  | .table _ entries => entries.lookup name
  | .array elements => elements[position]?
  | .tables elements => elements[position]?.map (.table .header)
  | _ => none

/-- A setting of a group, or its default. -/
def readSetting {α : Type} (group : Value) (position : Nat) (name : String)
    (read? : Value → Option α) (default : α) : Except ConfigError α :=
  match group.setting? position name with
  | none => .ok default
  | some v =>
    match read? v with
    | some a => .ok a
    | none => .error .malformed

end Toml.Value

namespace StoreConfig

/-- The settings of a store before the mode's name is looked up: the other settings, and the
name. -/
def ofGroup (group : Toml.Value) : Except ConfigError (StoreConfig × String) := do
  if ¬ group.isGroup then throw .malformed
  let c : StoreConfig := {}
  let path ← group.readSetting 0 "path" (·.string?) c.path
  let busyTimeout ← group.readSetting 1 "busy_timeout_ms" (·.uint32?) c.busyTimeout
  let mode ← group.readSetting 2 "synchronous" (·.string?) c.synchronous.name
  let cacheSize ← group.readSetting 3 "cache_size_kib" (·.uint32?) c.cacheSize
  return ({ path, busyTimeout, cacheSize }, mode)

/-- The settings with the mode of this name. -/
def withMode (c : StoreConfig) (mode : String) : Except ConfigError StoreConfig := do
  return { c with synchronous := ← Synchronous.parse mode }

/-- The settings that a document gives. -/
def parse (text : String) : Except ConfigError StoreConfig :=
  match Toml.read? text with
  | none => .error .malformed
  | some entries => do
    let (c, mode) ← ofGroup (.table .header entries)
    c.withMode mode

end StoreConfig

namespace InspectConfig

/-- The logging level of a group of settings. -/
def levelOfGroup (group : Toml.Value) : Except ConfigError String := do
  if ¬ group.isGroup then throw .malformed
  group.readSetting 0 "level" (·.string?) ({} : InspectConfig).logLevel

/-- The settings that a document gives. -/
def parse (text : String) : Except ConfigError InspectConfig :=
  match Toml.read? text with
  | none => .error .malformed
  | some entries => do
    let group (name : String) := (entries.lookup name).getD (.table .implied [])
    let (store, mode) ← StoreConfig.ofGroup (group "store")
    let logLevel ← levelOfGroup (group "log")
    return { store := ← store.withMode mode, logLevel }

end InspectConfig

end Accrual
