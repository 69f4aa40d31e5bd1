/-
What positions are owed.

A position is owed its unclaimed rewards and, for every share, what the value per share has grown
by since its snapshot:

    owed = unclaimed + (value per share - snapshot) * shares

* `Accumulator.owed` — that amount; a snapshot ahead of the accumulator is a violation;
* `Ledger.position`, `Ledger.positions` — read positions;
* `Ledger.writePosition` — write a position, without counting its shares.
-/
import Accrual.Ledger.Basic

namespace Accrual

namespace Accumulator

/-- By how much the value per share has grown since `snapshot`. -/
def growthSince (a : Accumulator) (snapshot : Rewards) : Except Error Rewards :=
  match a.valuePerShare.sub snapshot with
  | .ok growth => .ok growth
  | .error (.negativeComponent denom available requested) =>
    .error (.violation (.snapshotAhead a.name denom requested available))
  | .error e => .error (.rewards e)

/-- What a position is owed. -/
def owed (a : Accumulator) (p : Position) : Except Error Rewards := do
  let growth ← a.growthSince p.snapshot
  let accrued ← (growth.scale p.shares).mapError .rewards
  (p.unclaimed.add accrued).mapError .rewards

end Accumulator

namespace Ledger

/-- Write a position, over any earlier one of that index. -/
def writePosition (index : String) (p : Position) : Action Ledger Unit := do
  if ¬ Key.IsIndex index then throw (.invalidName index)
  if p.shares < .zero then throw (.nonPositiveShares p.shares)
  let a := (← get).accumulator
  let _ ← Action.ofResult (a.growthSince p.snapshot)
  Action.onStore (Store.write (Key.position a.name index) p.encode)

/-- The position of an index. -/
def position (index : String) : Action Ledger Position := do
  let name := (← get).accumulator.name
  match ← Action.onStore (Store.read (Key.position name index)) with
  | none => throw (.positionNotFound name index)
  | some bytes =>
    match Position.decode? bytes with
    | none => throw (.store .undecodable)
    | some p => return p

/-- Whether there is a position of an index. -/
def hasPosition (index : String) : Action Ledger Bool := do
  Action.onStore (Store.holds (Key.position (← get).accumulator.name index))

/-- Remove the record of a position. -/
def erasePosition (index : String) : Action Ledger Unit := do
  Action.onStore (Store.remove (Key.position (← get).accumulator.name index))

/-- A position of the accumulator `name` from its stored record. -/
def positionOfRecord (name : String) (record : Bytes × Bytes) : Except Error (String × Position) :=
  match Key.index? name record.1, Position.decode? record.2 with
  | none, _ => .error (.store (.malformedPositionKey record.1))
  | some _, none => .error (.store .undecodable)
  | some index, some p => .ok (index, p)

/-- Every position of the accumulator, in ascending order of the indices. -/
def positions : Action Ledger (List (String × Position)) := do
  let name := (← get).accumulator.name
  let records ← Action.onStore (Store.list (Key.positions name))
  Action.ofResult (records.mapM (positionOfRecord name))

end Ledger

end Accrual
