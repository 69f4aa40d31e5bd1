/-
Reports on accumulators and positions, with what the positions are owed.

* `PositionReport` — a position and what it is owed;
* `AccumulatorReport` — an accumulator, its positions, and the sum of what they are owed;
* `toJson` — how each is shown.
-/
import Accrual.Bytes.Hex
import Accrual.Json.Value
import Accrual.Ledger.Entitlement

namespace Accrual

/-! ### Showing records -/

/-- Rewards as an object of decimals. -/
def Rewards.toJson (r : Rewards) : Json.Value :=
  .record (r.components.map fun c => (c.1, .text c.2.text))

/-- The members that show an accumulator. -/
def Accumulator.members (a : Accumulator) : List (String × Json.Value) :=
  [("name", .text a.name), ("value_per_share", a.valuePerShare.toJson),
    ("total_shares", .text a.totalShares.text)]

/-- An accumulator as an object. -/
def Accumulator.toJson (a : Accumulator) : Json.Value := .record a.members

/-! ### Positions -/

/-- A position and what it is owed. -/
structure PositionReport where
  index : String
  position : Position
  owed : Rewards
deriving DecidableEq

namespace PositionReport

/-- The report on a position of an accumulator. -/
def of (a : Accumulator) (index : String) (position : Position) : Except Error PositionReport := do
  return { index, position, owed := ← a.owed position }

/-- Report on the position of an index. -/
def read (name index : String) : Action Store PositionReport :=
  Ledger.byName name do
    let position ← Ledger.position index
    Action.ofResult (of (← get).accumulator index position)

/-- A position as an object; without a payload, the member for it is left out. -/
def toJson (r : PositionReport) : Json.Value :=
  .record <|
    [("index", .text r.index), ("num_shares", .text r.position.shares.text),
      ("accum_value_per_share", r.position.snapshot.toJson),
      ("unclaimed_rewards_total", r.position.unclaimed.toJson), ("owed", r.owed.toJson)]
    ++ (r.position.options.map fun payload =>
      ("options", Json.Value.record [("payload", .text (Hex.encode payload))])).toList

end PositionReport

/-! ### Accumulators -/

/-- An accumulator, its positions in ascending order of the indices, and the sum of what they are
owed. -/
structure AccumulatorReport where
  accumulator : Accumulator
  outstanding : Rewards
  positions : List PositionReport
deriving DecidableEq

namespace AccumulatorReport

/-- The report with one more position. -/
def extend (r : AccumulatorReport) (p : String × Position) : Except Error AccumulatorReport := do
  let report ← PositionReport.of r.accumulator p.1 p.2
  let outstanding ← (r.outstanding.add report.owed).mapError .rewards
  return { r with outstanding, positions := r.positions ++ [report] }

/-- The report on an accumulator with these positions. -/
def of (a : Accumulator) (positions : List (String × Position)) : Except Error AccumulatorReport :=
  positions.foldlM extend { accumulator := a, outstanding := .empty, positions := [] }

/-- Report on an accumulator and all of its positions. -/
def read (name : String) : Action Store AccumulatorReport :=
  Ledger.byName name do
    let positions ← Ledger.positions
    Action.ofResult (of (← get).accumulator positions)

/-- An accumulator and its positions as an object. -/
def toJson (r : AccumulatorReport) : Json.Value :=
  .record (r.accumulator.members ++
    [("outstanding", r.outstanding.toJson), ("positions", .array (r.positions.map (·.toJson)))])

end AccumulatorReport

end Accrual
