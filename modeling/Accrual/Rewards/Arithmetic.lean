/-
Arithmetic on rewards, one component at a time.

Denominations are visited in ascending order, so the first one that cannot be computed decides
the error.

* `add`, `sub` — sums, and differences that refuse to go below zero;
* `scale`, `divide` — by a number, rounded like decimals;
* `divideDown` — division that never gives out more than there is: at most 18 fractional digits,
  and `quotient * divisor`, as a decimal product, does not exceed the component;
* `whole`, `dust` — the integer parts and what is left of them;
* `Exceeds` — some component is larger than its counterpart.
-/
import Accrual.Rewards.Basic

namespace Accrual

namespace Rewards

/-- Compute every component anew and drop those that become zero. -/
def mapM (r : Rewards) (f : Decimal → Except RewardError Decimal) : Except RewardError Rewards :=
  r.components.foldlM (fun out c => (f c.2).map (out.put c.1)) empty

/-- The sum, component by component. -/
def add (r s : Rewards) : Except RewardError Rewards :=
  s.components.foldlM (fun out c =>
    match (out.amount c.1).add? c.2 with
    | none => .error .overflow
    | some sum => .ok (out.put c.1 sum)) r

/-- The difference, component by component; the first denomination of which too much is taken
is reported.

The comparison is the only guard.  Were there no decimal for a difference that it lets through, the
program would end without an answer; an overflow stands for that here.  It never happens: see
`canTake_amount` and `subtracts` among the proofs. -/
def sub (r s : Rewards) : Except RewardError Rewards :=
  s.components.foldlM (fun out c =>
    if r.amount c.1 < c.2 then .error (.negativeComponent c.1 (r.amount c.1) c.2)
    else
      match (r.amount c.1).sub? c.2 with
      | none => .error .overflow
      | some difference => .ok (out.put c.1 difference)) r

/-- Every component times a factor that is not negative. -/
def scale (r : Rewards) (factor : Decimal) : Except RewardError Rewards :=
  if factor < .zero then .error (.negativeScalar factor)
  else r.mapM fun a =>
    match a.mul? factor with
    | none => .error .overflow
    | some product => .ok product

/-- Every component divided by a positive number, rounded to the precision of decimals. -/
def divide (r : Rewards) (divisor : Decimal) : Except RewardError Rewards :=
  if divisor.IsZero then .error .divisionByZero
  else if divisor < .zero then .error (.negativeScalar divisor)
  else r.mapM fun a =>
    match a.div? divisor with
    | none => .error .overflow
    | some quotient => .ok quotient

/-- Fractional digits kept by `divideDown`. -/
def keptPlaces : Nat := 18

/-- Lower `quotient` by units in its last place until its product with `divisor` does not exceed
`amount`, at most `fuel` times.  Each step takes one off the mantissa, and a zero quotient never
exceeds, so the mantissa is fuel enough.

A product that is too large is refused as an overflow.  For a unit that cannot be taken away, where
the program would end without an answer, and for missing fuel an overflow stands too, and neither
happens: see `lowers_stepDown` among the proofs. -/
def stepDown (amount divisor : Decimal) : Nat → Decimal → Except RewardError Decimal
  | fuel, quotient =>
    match quotient.mul? divisor with
    | none => .error .overflow
    | some product =>
      if amount < product then
        match fuel, quotient.sub? quotient.ulp with
        | fuel + 1, some lower => stepDown amount divisor fuel lower
        | _, _ => .error .overflow
      else .ok quotient

/-- Every component divided by a positive number, rounded towards zero at `keptPlaces` places,
and further down where the rounded quotient would pay out more than the component. -/
def divideDown (r : Rewards) (divisor : Decimal) : Except RewardError Rewards := do
  let rounded ← r.divide divisor
  rounded.components.foldlM (fun out c =>
    let quotient := c.2.truncateTo keptPlaces
    (stepDown (r.amount c.1) divisor quotient.mantissa quotient).map (out.put c.1)) empty

/-- The integer part of every component. -/
def whole (r : Rewards) : Rewards :=
  r.components.foldl (fun out c => out.put c.1 c.2.whole) empty

/-- The fractional part of every component. -/
def dust (r : Rewards) : Rewards :=
  r.components.foldl (fun out c => out.put c.1 c.2.fraction) empty

/-- Some component of `r` is larger than that of `s`. -/
def Exceeds (r s : Rewards) : Prop := ∃ c ∈ r.components, s.amount c.1 < c.2

instance (r s : Rewards) : Decidable (r.Exceeds s) :=
  inferInstanceAs (Decidable (∃ c ∈ r.components, s.amount c.1 < c.2))

end Rewards

end Accrual
