/-
Binary floating-point numbers, exactly.

A finite number of the 64-bit format is `± significand * 2 ^ exponent` with a significand below
`2 ^ 53`.  Nothing here computes in floating point: numbers are rounded from exact fractions and
written from exact comparisons.

Main definitions:
* `Binary64.round?` — the number nearest to a fraction, ties to even, nothing beyond the largest;
* `Binary64.mul?`, `Binary64.div?` — products and quotients, rounded;
* `Binary64.ofBits?` — the number with given sign, exponent and fraction bits of any narrower or
  equal format;
* `Binary64.shortest` — the fewest decimal digits that read back as the number;
* `Binary64.text` — those digits in positional notation, never with an exponent.
-/
import Accrual.Decimal.Rounding

namespace Accrual

/-- A finite number `± significand * 2 ^ exponent` of the 64-bit binary format.  Either the
significand has 53 bits, or the exponent is the least one. -/
structure Binary64 where
  negative : Bool
  significand : Nat
  exponent : Int
deriving DecidableEq

namespace Binary64

/-- The least exponent. -/
def minExponent : Int := -1074

/-- The largest exponent of a significand with 53 bits. -/
def maxExponent : Int := 971

/-- The power of two `2 ^ e` as a fraction. -/
def powerOfTwo (e : Int) : Rat := mkRat (twoTo e.toNat) (twoTo (-e).toNat)

/-- The power of ten `10 ^ e` as a fraction. -/
def powerOfTen (e : Int) : Rat := mkRat (tenTo e.toNat) (tenTo (-e).toNat)

/-- The exact value without its sign. -/
def magnitude (x : Binary64) : Rat := x.significand * powerOfTwo x.exponent

/-- The exponent of the greatest power of two that is at most the positive fraction `num / den`. -/
def floorLog2 (num den : Nat) : Int :=
  let guess : Int := num.log2 - den.log2
  if powerOfTwo guess ≤ mkRat num den then guess else guess - 1

/-- The number nearest to `± num / den`, ties to even; nothing if it is beyond the largest. -/
def round? (negative : Bool) (num den : Nat) : Option Binary64 :=
  if num = 0 then some ⟨negative, 0, minExponent⟩
  else
    let e := max minExponent (floorLog2 num den - 52)
    let m := roundHalfEven (num * twoTo (-e).toNat) (den * twoTo e.toNat)
    let x : Binary64 := if m = twoTo 53 then ⟨negative, twoTo 52, e + 1⟩ else ⟨negative, m, e⟩
    if maxExponent < x.exponent then none else some x

/-- The number whose bits, from the lowest, are `fractionBits` of fraction, `exponentBits` of
exponent and the sign; nothing for an infinity or no number. -/
def ofBits? (exponentBits fractionBits bits : Nat) : Option Binary64 :=
  let fraction := bits % twoTo fractionBits
  let biased := bits / twoTo fractionBits % twoTo exponentBits
  let negative := bits / twoTo (fractionBits + exponentBits) % 2 = 1
  let bias : Int := twoTo (exponentBits - 1) - 1
  if biased = twoTo exponentBits - 1 then none
  else
    let m := if biased = 0 then fraction else twoTo fractionBits + fraction
    let e : Int := max 1 biased - bias - fractionBits
    round? negative (m * twoTo e.toNat) (twoTo (-e).toNat)

/-- The product, rounded; nothing if it is beyond the largest number. -/
def mul? (x y : Binary64) : Option Binary64 :=
  let e := x.exponent + y.exponent
  round? (x.negative != y.negative)
    (x.significand * y.significand * twoTo e.toNat) (twoTo (-e).toNat)

/-- The quotient by a number that is not zero, rounded; nothing if it is beyond the largest
number. -/
def div? (x y : Binary64) : Option Binary64 :=
  let e := x.exponent - y.exponent
  round? (x.negative != y.negative)
    (x.significand * twoTo e.toNat) (y.significand * twoTo (-e).toNat)

/-! ### Shortest decimal digits -/

/-- Whether a fraction is rounded to the magnitude of `x`: it lies between the midpoints to the
two neighbours, which count when the significand is even. -/
def rounds (x : Binary64) (q : Rat) : Bool :=
  let quarter := powerOfTwo (x.exponent - 2)
  let gapBelow : Nat := if x.significand = twoTo 52 ∧ minExponent < x.exponent then 1 else 2
  let low := (4 * x.significand - gapBelow : Nat) * quarter
  let high := (4 * x.significand + 2 : Nat) * quarter
  if x.significand % 2 = 0 then low ≤ q && q ≤ high else low < q && q < high

/-- The exponent of the greatest power of ten that is at most the positive magnitude. -/
def floorLog10 (q : Rat) : Int :=
  let guess : Int := (Nat.toDigits 10 q.num.toNat).length - (Nat.toDigits 10 q.den).length
  if powerOfTen guess ≤ q then guess else guess - 1

/-- A multiple of `10 ^ k` next to the magnitude that reads back as `x`: the nearer of the two,
the upper one if both are equally near. -/
def neighbour? (x : Binary64) (k : Int) : Option Nat :=
  let q := x.magnitude
  let unit := powerOfTen k
  let below := (q / unit).floor.toNat
  match x.rounds (below * unit), x.rounds ((below + 1 : Nat) * unit) with
  | true, true =>
    some (if q - below * unit < (below + 1 : Nat) * unit - q then below else below + 1)
  | true, false => some below
  | false, true => some (below + 1)
  | false, false => none

/-- The fewest decimal digits that read back as a non-zero `x`, with their exponent: the first
count of digits from 1 to 17 for which a neighbour reads back. -/
def shortest (x : Binary64) : Nat × Int :=
  let top := floorLog10 x.magnitude
  let found := (List.range 17).findSome? fun (n : Nat) =>
    (x.neighbour? (top - n)).map fun digits =>
      if digits = tenTo (n + 1) then (1, top + 1) else (digits, top - n)
  found.getD (0, 0)

/-- Digits with a decimal exponent in positional notation. -/
def positional (digits : Nat) (exponent : Int) : List Char :=
  let ds := Nat.toDigits 10 digits
  if 0 ≤ exponent then ds ++ List.replicate exponent.toNat '0'
  else
    let places := (-exponent).toNat
    let ds := List.replicate (places + 1 - ds.length) '0' ++ ds
    ds.take (ds.length - places) ++ '.' :: ds.drop (ds.length - places)

/-- The shortest text that reads back as the number, without exponent. -/
def text (x : Binary64) : String :=
  let body := if x.significand = 0 then ['0'] else positional x.shortest.1 x.shortest.2
  String.ofList (if x.negative then '-' :: body else body)

end Binary64

end Accrual
