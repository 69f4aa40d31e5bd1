/-
Checked arithmetic on decimals.

Addition, subtraction, multiplication and division are exact and then rounded once; `none` is
overflow, never a wrong answer.  The rules for zero operands are part of the result, because a
scale and the sign of a zero can be seen when the number is written:

* a sum with a zero operand is the other operand, digit for digit;
* a product with a zero operand is plain `0`;
* a difference of equal numbers is a positive zero that keeps the larger scale.
-/
import Accrual.Decimal.Rounding

namespace Accrual

namespace Decimal

/-- The exact sum at the larger of the two scales, rounded if it does not fit.  A zero operand
leaves the other one untouched. -/
def add? (a b : Decimal) : Option Decimal :=
  if a.IsZero then some b
  else if b.IsZero then some a
  else
    let s := max a.scale b.scale
    let n := a.signed * tenTo (s - a.scale) + b.signed * tenTo (s - b.scale)
    fit? (n < 0) n.natAbs s

/-- The exact difference, rounded like a sum.  Subtracting a zero keeps that zero's sign. -/
def sub? (a b : Decimal) : Option Decimal :=
  a.add? (if b.IsZero then b else b.neg)

/-- The exact product, rounded if it has too many digits. -/
def mul? (a b : Decimal) : Option Decimal :=
  if a.IsZero ∨ b.IsZero then some zero
  else fit? (a.negative != b.negative) (a.mantissa * b.mantissa) (a.scale + b.scale)

/-- The largest scale up to `s` at which the integer part of `num / den` fits the mantissa. -/
def quotientScale? (num den : Nat) : Nat → Option Nat
  | 0 => if num / den < bound then some 0 else none
  | s + 1 => if num * tenTo (s + 1) / den < bound then some (s + 1) else quotientScale? num den s

/-- The quotient by a non-zero number, rounded at the largest scale at which it fits.  The digits
of an exact quotient may end in zeros. -/
def div? (a b : Decimal) : Option Decimal :=
  if a.IsZero then some zero
  else
    let num := a.mantissa * tenTo b.scale
    let den := b.mantissa * tenTo a.scale
    match quotientScale? num den 28 with
    | none => none
    | some s => settle? (a.negative != b.negative) (roundHalfEven (num * tenTo s) den) s

/-- The number cut off after `places` fractional digits. -/
def truncateTo (a : Decimal) (places : Nat) : Decimal :=
  if a.scale ≤ places then a
  else
    { negative := a.negative
      mantissa := a.mantissa / tenTo (a.scale - places)
      scale := min a.scale places
      mantissa_lt := Nat.lt_of_le_of_lt (Nat.div_le_self ..) a.mantissa_lt
      scale_le := Nat.le_trans (Nat.min_le_left ..) a.scale_le }

/-- The integer part, without fractional digits. -/
def whole (a : Decimal) : Decimal :=
  { negative := a.negative
    mantissa := a.mantissa / tenTo a.scale
    scale := 0
    mantissa_lt := Nat.lt_of_le_of_lt (Nat.div_le_self ..) a.mantissa_lt
    scale_le := Nat.le_trans (Nat.zero_le a.scale) a.scale_le }

/-- The fractional part, at the scale of the number. -/
def fraction (a : Decimal) : Decimal :=
  { a with
    mantissa := a.mantissa % tenTo a.scale
    mantissa_lt := Nat.lt_of_le_of_lt (Nat.mod_le ..) a.mantissa_lt }

end Decimal

end Accrual
