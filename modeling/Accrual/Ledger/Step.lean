/-
The operations on an accumulator in hand, as data.

* `Step` — an operation with its arguments;
* `Outcome` — what a successful operation answers;
* `Ledger.perform` — carry out a step;
* `Ledger.after` — the ledger after a run of steps, failed ones included.
-/
import Accrual.Ledger.Stake

namespace Accrual

/-- An operation on the accumulator in hand. -/
inductive Step where
  /-- Divide an amount among all shares. -/
  | inject (amount : Rewards)
  /-- Add an amount to every share. -/
  | credit (perShare : Rewards)
  /-- Change the share total alone. -/
  | adjustShares (delta : Decimal)
  /-- Write a position alone. -/
  | writePosition (index : String) (position : Position)
  | openNow (index : String) (shares : Decimal) (options : Option Bytes)
  | openAt (index : String) (shares : Decimal) (snapshot : Rewards) (options : Option Bytes)
  | grow (index : String) (shares : Decimal)
  | shrink (index : String) (shares : Decimal)
  | claim (index : String)
  | resnapshot (index : String) (snapshot : Rewards)
  | delete (index : String)
  | close (index : String)
deriving DecidableEq

/-- What a successful operation answers. -/
inductive Outcome where
  | done
  /-- The amount that was credited to every share. -/
  | credited (perShare : Rewards)
  | paid (payout : Payout)
deriving DecidableEq

namespace Ledger

/-- Carry out a step. -/
def perform : Step → Action Ledger Outcome
  | .inject amount => return .credited (← inject amount)
  | .credit perShare => do credit perShare; return .done
  | .adjustShares delta => do adjustShares delta; return .done
  | .writePosition index p => do writePosition index p; return .done
  | .openNow index shares options => do openNow index shares options; return .done
  | .openAt index shares snapshot options => do openAt index shares snapshot options; return .done
  | .grow index shares => do grow index shares; return .done
  | .shrink index shares => do shrink index shares; return .done
  | .claim index => return .paid (← claim index)
  | .resnapshot index snapshot => do resnapshot index snapshot; return .done
  | .delete index => do delete index; return .done
  | .close index => return .paid (← close index)

/-- The ledger after one step, whether it succeeded or failed. -/
def next (l : Ledger) (step : Step) : Ledger :=
  match perform step l with
  | .ok _ l => l
  | .error _ l => l

/-- The ledger after a run of steps; a failed step does not end the run. -/
def after (l : Ledger) (steps : List Step) : Ledger := steps.foldl next l

end Ledger

end Accrual
