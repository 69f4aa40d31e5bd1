/-
A session: one open store, several accumulators in hand, and the disk the store came from.

Accumulators in hand are kept by label.  They are copies: two labels may hold the same
accumulator and disagree, they outlive the store they were loaded from, and rolling a transaction
back does not change them.

* `Session.onStore`, `Session.onLedger` — act on the store, or on it with a labelled accumulator;
* `Session.hold` — bring an accumulator into hand under a label;
* `Session.rollBack` — undo a transaction;
* `Session.shut`, `Session.reopen` — close the store, and open another in its place;
* `Records.changes` — the records in which two stores differ.
-/
import Accrual.Disk.Store
import Accrual.Ledger.Step

namespace Accrual

/-- The records in which `after` differs from `before`, in ascending order of the keys; a removed
key has no value. -/
def Records.changes (before after : Records) : List (Bytes × Option Bytes) :=
  let removed := before.entries.filter fun e => (after.find? e.1).isNone
  let written := after.entries.filter fun e => before.find? e.1 ≠ some e.2
  removed.foldl (fun m e => OrderedMap.insert m e.1 none) (written.map fun e => (e.1, some e.2))

/-- Where the open store came from. -/
inductive Origin where
  /-- It is not kept anywhere. -/
  | nowhere
  /-- It is the database at this path. -/
  | file (path : String)
deriving DecidableEq

/-- An open store, accumulators in hand, and the disk. -/
structure Session where
  disk : Disk
  store : Option Store
  origin : Origin
  inHand : List (String × Accumulator)

/-- What became of an action in a session. -/
inductive Verdict (α : Type) where
  | ok (value : α)
  | failed (error : Error)
  /-- No accumulator has this label. -/
  | noHandle
  /-- No store is open. -/
  | noStore

namespace Session

/-- A session with an open store that is not kept anywhere. -/
def ofStore (store : Store) : Session := ⟨.empty "", some store, .nowhere, []⟩

/-- A session with nothing open. -/
def ofDisk (disk : Disk) : Session := ⟨disk, none, .nowhere, []⟩

/-- The records of the open store. -/
def records (s : Session) : Records :=
  match s.store with
  | some store => store.records
  | none => .empty

/-- The accumulator with a label. -/
def held? (s : Session) (label : String) : Option Accumulator := s.inHand.lookup label

/-- Give an accumulator a label, which it takes from any other. -/
def give (s : Session) (label : String) (a : Accumulator) : Session :=
  { s with inHand := (label, a) :: s.inHand.filter (·.1 ≠ label) }

/-- Act on the open store. -/
def onStore {α : Type} (s : Session) (act : Action Store α) : Verdict α × Session :=
  match s.store with
  | none => (.noStore, s)
  | some store =>
    match act store with
    | .ok a store => (.ok a, { s with store := some store })
    | .error e store => (.failed e, { s with store := some store })

/-- Bring an accumulator into hand; if that fails, an earlier one keeps the label. -/
def hold (s : Session) (label : String) (act : Action Store Accumulator) : Verdict Unit × Session :=
  match s.onStore act with
  | (.ok a, s) => (.ok (), s.give label a)
  | (.failed e, s) => (.failed e, s)
  | (.noHandle, s) => (.noHandle, s)
  | (.noStore, s) => (.noStore, s)

/-- Act on the open store with a labelled accumulator in hand. -/
def onLedger {α : Type} (s : Session) (label : String) (act : Action Ledger α) :
    Verdict α × Session :=
  match s.store, s.held? label with
  | none, _ => (.noStore, s)
  | some _, none => (.noHandle, s)
  | some store, some accumulator =>
    match act { accumulator, store } with
    | .ok a l => (.ok a, { s.give label l.accumulator with store := some l.store })
    | .error e l => (.failed e, { s.give label l.accumulator with store := some l.store })

/-- Give the store back the records it had in `before`; what is in hand stays. -/
def rollBack (s before : Session) : Session := { s with store := before.store }

/-- Close the open store. -/
def shut (s : Session) : Session :=
  let disk :=
    match s.store, s.origin with
    | some store, .file path => s.disk.close path store
    | _, _ => s.disk
  { s with disk, store := none, origin := .nowhere }

/-- Open a store in place of the one that is open.  If that fails, nothing is open. -/
def reopen (s : Session) (origin : Origin) (act : Disk → Except StoreError Store × Disk) :
    Except StoreError Unit × Session :=
  let s := s.shut
  match act s.disk with
  | (.ok store, disk) => (.ok (), { s with disk, store := some store, origin })
  | (.error e, disk) => (.error e, { s with disk })

/-- Open the store that a configuration describes. -/
def openWith (s : Session) (c : StoreConfig) : Except StoreError Unit × Session :=
  s.reopen (match c.databasePath? with | some path => .file path | none => .nowhere) (·.openWith? c)

end Session

end Accrual
