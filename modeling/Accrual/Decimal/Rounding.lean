/-
Rounding exact results back to a decimal.

Every operation first computes an exact result with as many digits as it takes and rounds once,
to nearest with ties to even.

* `roundHalfEven m d` — the natural number nearest to `m / d`;
* `Decimal.excess m` — how many digits `m` has to lose before it fits the mantissa;
* `Decimal.fit? negative m s` — the decimal nearest to `± m / 10 ^ s` that keeps as many digits
  as possible, or nothing when even the integer part is too large.
-/
import Accrual.Decimal.Basic

namespace Accrual

/-- The natural number nearest to `m / d`; halfway goes to the even neighbour. -/
def roundHalfEven (m d : Nat) : Nat :=
  if d < 2 * (m % d) ∨ (d = 2 * (m % d) ∧ m / d % 2 = 1) then m / d + 1 else m / d

namespace Decimal

/-- The least number of final digits without which `m` is below `2 ^ 96`. -/
def excess (m : Nat) : Nat :=
  if m < bound then 0 else excess (m / 10) + 1
termination_by m
decreasing_by simp only [bound] at *; omega

/-- A rounded mantissa as a decimal.  Rounding up may have reached `2 ^ 96`; then one more
fractional digit is given up, if there is one. -/
def settle? (negative : Bool) (m s : Nat) : Option Decimal :=
  if m < bound then ofParts? negative m s
  else if s = 0 then none
  else ofParts? negative (roundHalfEven m 10) (s - 1)

/-- The decimal nearest to `± m / 10 ^ s` with as many of its digits as fit; nothing when an
integer digit would have to go. -/
def fit? (negative : Bool) (m s : Nat) : Option Decimal :=
  let k := max (s - 28) (excess m)
  if k ≤ s then settle? negative (roundHalfEven m (tenTo k)) (s - k) else none

end Decimal

end Accrual
