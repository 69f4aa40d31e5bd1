/-
Opening, changing and closing positions.

Each operation changes a position and the share total together.  A change of shares settles the
position first: what it is owed moves to its unclaimed rewards, and its snapshot advances to the
current value.

    absent --open--> open --grow, shrink, claim--> open --close, delete--> absent

A claim pays out whole units and leaves the fractions with the position, until they grow to a
unit or the position is closed.
-/
import Accrual.Ledger.Credit
import Accrual.Ledger.Entitlement

namespace Accrual

namespace Ledger

/-- Refuse a share amount that is not positive. -/
def checkPositive (shares : Decimal) : Action Ledger Unit :=
  if shares ≤ .zero then throw (.nonPositiveShares shares) else pure ()

/-- Refuse a change of the share total that would fail, before anything is written. -/
def checkTotal (delta : Decimal) : Action Ledger Unit := do
  let _ ← Action.ofResult ((← get).accumulator.totalAfter delta)

/-- What a position is owed, as an action. -/
def owed (p : Position) : Action Ledger Rewards := do
  Action.ofResult ((← get).accumulator.owed p)

/-- Open a position that is owed everything since `snapshot`. -/
def openAt (index : String) (shares : Decimal) (snapshot : Rewards) (options : Option Bytes) :
    Action Ledger Unit := do
  if ¬ Key.IsIndex index then throw (.invalidName index)
  checkPositive shares
  if ← hasPosition index then throw (.positionExists (← get).accumulator.name index)
  checkTotal shares
  writePosition index { shares, snapshot, unclaimed := .empty, options }
  adjustShares shares

/-- Open a position at the current value. -/
def openNow (index : String) (shares : Decimal) (options : Option Bytes) : Action Ledger Unit := do
  openAt index shares (← get).accumulator.valuePerShare options

/-- Settle a position, give it a new number of shares and change the share total by `delta`. -/
def resize (index : String) (p : Position) (shares delta : Decimal) : Action Ledger Unit := do
  let unclaimed ← owed p
  checkTotal delta
  let snapshot := (← get).accumulator.valuePerShare
  writePosition index { p with shares, snapshot, unclaimed }
  adjustShares delta

/-- Add shares to a position. -/
def grow (index : String) (shares : Decimal) : Action Ledger Unit := do
  checkPositive shares
  let p ← position index
  match p.shares.add? shares with
  | none => throw (.rewards .overflow)
  | some sum => resize index p sum shares

/-- Take shares from a position; it stays open even without shares.

Were there no decimal for the rest, the program would end without an answer; an overflow stands for
that here.  The two guards do not let it happen, whatever the record says: see `canTake_shares` and
`shrinks` among the proofs. -/
def shrink (index : String) (shares : Decimal) : Action Ledger Unit := do
  checkPositive shares
  let p ← position index
  if p.shares < shares then throw (.insufficientShares index p.shares shares)
  match p.shares.sub? shares with
  | none => throw (.rewards .overflow)
  | some rest => resize index p rest shares.neg

/-- Pay out the whole units owed to a position and settle it.  A position without shares is
removed, and its fractions are handed out too. -/
def claim (index : String) : Action Ledger Payout := do
  let p ← position index
  let due ← owed p
  let closed := decide p.shares.IsZero
  if closed then erasePosition index
  else
    let snapshot := (← get).accumulator.valuePerShare
    writePosition index { p with snapshot, unclaimed := due.dust }
  return { paid := due.whole, dust := due.dust, closed }

/-- Move the snapshot of a position without settling it: what lies between is not owed. -/
def resnapshot (index : String) (snapshot : Rewards) : Action Ledger Unit := do
  let p ← position index
  writePosition index { p with snapshot }

/-- Remove a position that holds no shares and is owed nothing. -/
def delete (index : String) : Action Ledger Unit := do
  let p ← position index
  let due ← owed p
  if ¬ p.shares.IsZero ∨ ¬ due.IsEmpty then throw (.positionNotEmpty index)
  erasePosition index

/-- Take all shares from a position, hand out everything it is owed and remove it. -/
def close (index : String) : Action Ledger Payout := do
  let p ← position index
  let due ← owed p
  let delta := p.shares.neg
  checkTotal delta
  erasePosition index
  adjustShares delta
  return { paid := due.whole, dust := due.dust, closed := true }

end Ledger

end Accrual
