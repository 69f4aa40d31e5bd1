/-
The records of the ledger.

* `Totals` — what is stored of an accumulator: the value credited per share since its creation,
  and the sum of all shares;
* `Accumulator` — totals with the name they are stored under;
* `Position` — one owner's stake: shares, the value per share at the last synchronization,
  rewards not yet paid out, and an opaque payload that its owner gave it;
* `Payout` — what a claim or a close hands out.
-/
import Accrual.Bytes.Basic
import Accrual.Rewards.Basic

namespace Accrual

/-- What is stored of an accumulator. -/
structure Totals where
  /-- Rewards credited to one share since the creation of the accumulator. -/
  valuePerShare : Rewards
  /-- The sum of the shares of all positions. -/
  totalShares : Decimal
deriving DecidableEq

/-- The totals of a new accumulator. -/
def Totals.zero : Totals := ⟨.empty, .zero⟩

/-- An accumulator with its name. -/
structure Accumulator extends Totals where
  name : String
deriving DecidableEq

/-- One owner's stake in an accumulator. -/
structure Position where
  /-- Shares held. -/
  shares : Decimal
  /-- The value per share with which the position was last synchronized. -/
  snapshot : Rewards
  /-- Rewards that are owed but were not paid out. -/
  unclaimed : Rewards
  /-- Bytes given when the position was opened, kept as they are and never read. -/
  options : Option Bytes
deriving DecidableEq

/-- What a claim or a close hands out. -/
structure Payout where
  /-- Whole units for the owner. -/
  paid : Rewards
  /-- The fractions left over; they stay with the position unless it is closed. -/
  dust : Rewards
  /-- Whether the position was removed. -/
  closed : Bool
deriving DecidableEq

end Accrual
