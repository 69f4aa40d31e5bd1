/-
The ledger: an accumulator held in memory together with the store it is written through to.

Operations are actions on a state, and what a failed action did to the state before it failed is
part of its result: nothing is undone behind its back.

Main definitions:
* `Action σ α` — an action on a state `σ`;
* `Ledger` — a store with one accumulator in hand;
* `Accumulator.create`, `Accumulator.load`, `Accumulator.all` — bring accumulators into hand;
* `Ledger.save` — write new totals, to the store first and then to the accumulator in hand;
* `Ledger.byName` — act on a freshly loaded accumulator and keep only the store.

Several ledgers may hold the same accumulator of one store; each then overwrites what the others
wrote.
-/
import Accrual.Key
import Accrual.Record.Decode
import Accrual.Record.Encode
import Accrual.Rewards.Arithmetic
import Accrual.Store.Basic

namespace Accrual

/-- An action on a state: a value or a failure, and the state afterwards in either case. -/
abbrev Action (σ α : Type) := EStateM Error σ α

/-- A store with one accumulator in hand. -/
structure Ledger where
  accumulator : Accumulator
  store : Store
deriving DecidableEq

namespace Action

variable {σ α : Type}

/-- A storage result as an action. -/
def ofStore : Except StoreError α → Action σ α
  | .ok a => pure a
  | .error e => throw (.store e)

/-- A result of reward arithmetic as an action. -/
def ofRewards : Except RewardError α → Action σ α
  | .ok a => pure a
  | .error e => throw (.rewards e)

/-- A result as an action. -/
def ofResult : Except Error α → Action σ α
  | .ok a => pure a
  | .error e => throw e

/-- Act on the store of a ledger and leave its accumulator alone. -/
def onStore (act : Action Store α) : Action Ledger α := fun l =>
  match act l.store with
  | .ok a s => .ok a { l with store := s }
  | .error e s => .error e { l with store := s }

end Action

/-! ### Stores as state -/

namespace Store

/-- The value at a key. -/
def read (key : Bytes) : Action Store (Option Bytes) := do
  Action.ofStore ((← get).lookup key)

/-- Whether there is a value at a key. -/
def holds (key : Bytes) : Action Store Bool := do
  Action.ofStore ((← get).contains key)

/-- The records whose keys begin with `start`. -/
def list (start : Bytes) : Action Store (List (Bytes × Bytes)) := do
  Action.ofStore ((← get).scan start)

/-- Set the value at a key. -/
def write (key value : Bytes) : Action Store Unit := do
  set (← Action.ofStore ((← get).insert key value))

/-- Remove a key. -/
def remove (key : Bytes) : Action Store Unit := do
  set (← Action.ofStore ((← get).erase key))

end Store

/-! ### Accumulators by name -/

namespace Accumulator

/-- Refuse a text that cannot be a name. -/
def checkName (name : String) : Action Store Unit :=
  if Key.IsName name then pure () else throw (.invalidName name)

/-- Whether an accumulator of this name exists. -/
def exists? (name : String) : Action Store Bool := do
  checkName name
  Store.holds (Key.accumulator name)

/-- Create an accumulator with no value and no shares. -/
def create (name : String) : Action Store Accumulator := do
  if ← exists? name then throw (.accumulatorExists name)
  Store.write (Key.accumulator name) Totals.zero.encode
  return { toTotals := .zero, name }

/-- Bring an existing accumulator into hand. -/
def load (name : String) : Action Store Accumulator := do
  checkName name
  match ← Store.read (Key.accumulator name) with
  | none => throw (.accumulatorNotFound name)
  | some bytes =>
    match Totals.decode? bytes with
    | none => throw (.store .undecodable)
    | some totals => return { toTotals := totals, name }

/-- An accumulator from its stored record. -/
def ofRecord (record : Bytes × Bytes) : Except Error Accumulator :=
  match Key.name? record.1, Totals.decode? record.2 with
  | none, _ => .error (.store (.malformedAccumulatorKey record.1))
  | some _, none => .error (.store .undecodable)
  | some name, some totals => .ok { toTotals := totals, name }

/-- Every accumulator in the store, in ascending order of the names. -/
def all : Action Store (List Accumulator) := do
  Action.ofResult ((← Store.list Key.accumulators).mapM ofRecord)

end Accumulator

namespace Ledger

/-- Write new totals of the accumulator in hand: to the store, and if that succeeds in hand. -/
def save (totals : Totals) : Action Ledger Unit := do
  let accumulator := (← get).accumulator
  Action.onStore (Store.write (Key.accumulator accumulator.name) totals.encode)
  modify fun l => { l with accumulator := { accumulator with toTotals := totals } }

/-- Bring an accumulator into hand, act on it, and keep the store. -/
def byName {α : Type} (name : String) (act : Action Ledger α) : Action Store α := fun s =>
  match Accumulator.load name s with
  | .error e s => .error e s
  | .ok accumulator store =>
    match act { accumulator, store } with
    | .ok a l => .ok a l.store
    | .error e l => .error e l.store

end Ledger

end Accrual
