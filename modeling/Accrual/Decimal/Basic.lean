/-
Fixed-size decimal numbers: a sign, a mantissa below `2 ^ 96` and a scale of at most 28.

A number is written as it was obtained: `10.00` and `10` are two decimals with one value, and
there is a negative zero.  Equality `=` is therefore equality of representations, while `<` and
`≤` compare values and ignore both the scale and the sign of zero.

Main definitions:
* `Decimal` — the type, with both bounds carried by the value;
* `Decimal.toRat` — the exact value, `± mantissa / 10 ^ scale`;
* `Decimal.normalize` — the same value with no trailing fractional zero.

Design notes.  The mantissa is a natural number and the bound is a proof, so all arithmetic is
exact until it is rounded back in `Decimal.fit?`.  Order is decided on integers, by bringing the
two mantissas to a common scale.
-/
import Accrual.Power

namespace Accrual

/-- The least number that is too large for a mantissa, `2 ^ 96`. -/
def Decimal.bound : Nat := 79228162514264337593543950336

/-- A decimal number `± mantissa / 10 ^ scale` of bounded size. -/
structure Decimal where
  /-- Whether the number carries a minus sign; zero may carry one too. -/
  negative : Bool
  /-- The digits of the number, read as one natural number. -/
  mantissa : Nat
  /-- How many of the digits stand behind the point. -/
  scale : Nat
  mantissa_lt : mantissa < Decimal.bound := by decide
  scale_le : scale ≤ 28 := by decide
deriving DecidableEq

namespace Decimal

/-- Zero, without sign and without fractional digits. -/
def zero : Decimal := ⟨false, 0, 0, by decide, by decide⟩

instance : Inhabited Decimal := ⟨zero⟩

/-- The decimal with these parts, if they are within bounds. -/
def ofParts? (negative : Bool) (mantissa scale : Nat) : Option Decimal :=
  if h : mantissa < bound ∧ scale ≤ 28 then some ⟨negative, mantissa, scale, h.1, h.2⟩ else none

/-- The natural number `n` as a decimal, if its digits fit. -/
def ofNat? (n : Nat) : Option Decimal := ofParts? false n 0

/-- The mantissa with its sign. -/
def signed (a : Decimal) : Int := if a.negative then -a.mantissa else a.mantissa

/-- The exact value. -/
def toRat (a : Decimal) : Rat := mkRat a.signed (tenTo a.scale)

/-- A decimal is zero when its mantissa is, whatever its sign and scale. -/
def IsZero (a : Decimal) : Prop := a.mantissa = 0

instance (a : Decimal) : Decidable a.IsZero := inferInstanceAs (Decidable (a.mantissa = 0))

/-- Values are compared at a common scale. -/
instance : LT Decimal := ⟨fun a b => a.signed * tenTo b.scale < b.signed * tenTo a.scale⟩

instance : LE Decimal := ⟨fun a b => a.signed * tenTo b.scale ≤ b.signed * tenTo a.scale⟩

instance (a b : Decimal) : Decidable (a < b) :=
  inferInstanceAs (Decidable (a.signed * tenTo b.scale < b.signed * tenTo a.scale))

instance (a b : Decimal) : Decidable (a ≤ b) :=
  inferInstanceAs (Decidable (a.signed * tenTo b.scale ≤ b.signed * tenTo a.scale))

/-- The opposite number: the sign is flipped, that of zero too. -/
def neg (a : Decimal) : Decimal := { a with negative := !a.negative }

/-- Drop the last digit of `m` while it is zero and a fractional digit is left. -/
def dropZeros (m : Nat) : Nat → Nat × Nat
  | 0 => (m, 0)
  | s + 1 => if m % 10 = 0 then dropZeros (m / 10) s else (m, s + 1)

theorem dropZeros_fst_le (m s : Nat) : (dropZeros m s).1 ≤ m := by
  induction s generalizing m with
  | zero => exact Nat.le_refl m
  | succ s ih =>
    unfold dropZeros
    split
    · exact Nat.le_trans (ih (m / 10)) (Nat.div_le_self m 10)
    · exact Nat.le_refl m

theorem dropZeros_snd_le (m s : Nat) : (dropZeros m s).2 ≤ s := by
  induction s generalizing m with
  | zero => exact Nat.le_refl 0
  | succ s ih =>
    unfold dropZeros
    split
    · exact Nat.le_succ_of_le (ih (m / 10))
    · exact Nat.le_refl (s + 1)

/-- The same value without trailing fractional zeros; every zero becomes `zero`. -/
def normalize (a : Decimal) : Decimal :=
  if a.IsZero then zero
  else
    { negative := a.negative
      mantissa := (dropZeros a.mantissa a.scale).1
      scale := (dropZeros a.mantissa a.scale).2
      mantissa_lt := Nat.lt_of_le_of_lt (dropZeros_fst_le ..) a.mantissa_lt
      scale_le := Nat.le_trans (dropZeros_snd_le ..) a.scale_le }

/-- One unit in the last place of a number with `scale` fractional digits. -/
def ulp (a : Decimal) : Decimal := ⟨false, 1, a.scale, by decide, a.scale_le⟩

end Decimal

end Accrual
