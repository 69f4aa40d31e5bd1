/-
Crediting rewards and counting shares.

Rewards are credited to all shares at once: the value per share grows, and no position is
touched.

* `Accumulator.totalAfter` — the share total after a change, which may not fall below zero;
* `Ledger.credit` — add an amount per share;
* `Ledger.inject` — divide an amount among all shares, rounded down, and credit it;
* `Ledger.adjustShares` — change the share total.
-/
import Accrual.Ledger.Basic

namespace Accrual

/-- The share total after a change by `delta`. -/
def Accumulator.totalAfter (a : Accumulator) (delta : Decimal) : Except Error Decimal :=
  match a.totalShares.add? delta with
  | none => .error (.rewards .overflow)
  | some total =>
    if total < .zero then .error (.violation (.negativeTotalShares a.name a.totalShares delta))
    else .ok total

namespace Ledger

/-- Add an amount to the value of every share. -/
def credit (perShare : Rewards) : Action Ledger Unit := do
  let a := (← get).accumulator
  let value ← Action.ofRewards (a.valuePerShare.add perShare)
  save { a.toTotals with valuePerShare := value }

/-- Divide an amount among all shares and credit it; what was credited to one share is returned.
An amount injected while there are no shares is lost. -/
def inject (amount : Rewards) : Action Ledger Rewards := do
  let a := (← get).accumulator
  if amount.IsEmpty ∨ a.totalShares.IsZero then return .empty
  let perShare ← Action.ofRewards (amount.divideDown a.totalShares)
  credit perShare
  return perShare

/-- Change the share total by a signed amount. -/
def adjustShares (delta : Decimal) : Action Ledger Unit := do
  let a := (← get).accumulator
  let total ← Action.ofResult (a.totalAfter delta)
  save { a.toTotals with totalShares := total }

end Ledger

end Accrual
