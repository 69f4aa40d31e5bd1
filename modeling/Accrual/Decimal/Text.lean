/-
Decimals as text.

* `Decimal.text` — the written form: every digit of the mantissa with the point put in place, at
  least one digit before it and exactly `scale` digits after it;
* `Decimal.parse?` — reads positional text such as `-1_000.50`, and the scientific form `1.5e-3`
  when the positional reading fails.

Reading keeps the scale that was written.  A number with more fractional digits than fit is
rounded at the first digit left out, half away from zero; in a short number an underscore in that
place stands for the digit 0.  A number with too many integer digits is refused.
-/
import Accrual.Decimal.Arithmetic

namespace Accrual

namespace Decimal

/-! ### Writing -/

/-- The digits of `m`, with zeros in front to a length of at least `width`. -/
def paddedDigits (m width : Nat) : List Char :=
  let ds := Nat.toDigits 10 m
  List.replicate (width - ds.length) '0' ++ ds

/-- The characters of the written form. -/
def chars (a : Decimal) : List Char :=
  let ds := paddedDigits a.mantissa (a.scale + 1)
  let k := ds.length - a.scale
  let body := if a.scale = 0 then ds else ds.take k ++ '.' :: ds.drop k
  if a.negative then '-' :: body else body

/-- The written form of a decimal; the scale and the sign of zero show. -/
def text (a : Decimal) : String := String.ofList a.chars

instance : ToString Decimal := ⟨text⟩

/-! ### Reading positional text -/

/-- The value of a decimal digit. -/
def digit? (c : Char) : Option Nat :=
  if '0' ≤ c ∧ c ≤ '9' then some (c.toNat - '0'.toNat) else none

/-- What has been read of a number so far. -/
structure Scan where
  mantissa : Nat
  scale : Nat
  /-- The decimal point has been read. -/
  pointed : Bool
  /-- At least one digit has been read. -/
  started : Bool

/-- The state before the first digit. -/
def Scan.start : Scan := ⟨0, 0, false, false⟩

/-- Round `m` at the first digit that is left out.  If that reaches `2 ^ 96`, the last fractional
digit goes too. -/
def roundAt (m s digit : Nat) : Option (Nat × Nat) :=
  if digit < 5 then some (m, s)
  else if m + 1 < bound then some (m + 1, s)
  else if s = 0 then none
  else some ((m + 5) / 10, s - 1)

/-- Nothing but digits and underscores is left. -/
def digitsOnly (cs : List Char) : Bool := cs.all (fun c => c = '_' ∨ c.isDigit)

/-- A mantissa is short if its digits but the last stay below this bound, the largest number that
takes one more digit in 64 bits less 255. -/
def shortBound : Nat := 1844674407370954906

/-- The rest of a number whose digits no longer fit: the next digit rounds, the others only have
to be digits.  After a short mantissa an underscore in the place of the rounding digit counts as
the digit 0; after a longer one underscores are skipped. -/
def roundRest (m s : Nat) : List Char → Option (Nat × Nat)
  | [] => some (m, s)
  | '_' :: rest =>
    if m / 10 < shortBound then (if digitsOnly rest then some (m, s) else none)
    else roundRest m s rest
  | c :: rest =>
    match digit? c with
    | none => none
    | some d => if digitsOnly rest then roundAt m s d else none

/-- Read the digits of an unsigned number: its mantissa and scale. -/
def scan (st : Scan) : List Char → Option (Nat × Nat)
  | [] => if st.started then some (st.mantissa, st.scale) else none
  | c :: rest =>
    if st.pointed ∧ st.scale = 28 then roundRest st.mantissa st.scale (c :: rest)
    else
      match digit? c with
      | some d =>
        let m := st.mantissa * 10 + d
        if m < bound then
          scan { st with mantissa := m, scale := if st.pointed then st.scale + 1 else 0,
                         started := true } rest
        else if st.pointed then roundRest st.mantissa st.scale (c :: rest)
        else none
      | none =>
        if c = '.' ∧ !st.pointed then scan { st with pointed := true } rest
        else if c = '_' ∧ st.started then scan st rest
        else none

/-- Split an optional sign off. -/
def splitSign : List Char → Bool × List Char
  | '-' :: rest => (true, rest)
  | '+' :: rest => (false, rest)
  | rest => (false, rest)

/-- Read positional text.  A zero that is read carries no sign. -/
def parsePositional? (cs : List Char) : Option Decimal :=
  let (negative, body) := splitSign cs
  match scan .start body with
  | none => none
  | some (m, s) => ofParts? (negative && m != 0) m s

/-! ### Reading scientific text -/

/-- The value of a non-empty run of digits. -/
def digits? (cs : List Char) : Option Nat :=
  if cs.isEmpty then none
  else cs.foldlM (fun n c => (digit? c).map (n * 10 + ·)) 0

/-- An unsigned exponent; a plus may stand before it. -/
def exponent? : List Char → Option Nat
  | '+' :: rest => digits? rest
  | cs => digits? cs

/-- Move the point `n` places to the left.  If the scale would pass 28, the number is first
rounded to scale `28 - n`, half away from zero. -/
def shiftDown? (a : Decimal) (n : Nat) : Option Decimal :=
  if 28 < n then none
  else if a.scale + n ≤ 28 then ofParts? a.negative a.mantissa (a.scale + n)
  else
    let d := tenTo (a.scale + n - 28)
    ofParts? a.negative ((a.mantissa + d / 2) / d) 28

/-- Move the point `n` places to the right, multiplying once the scale is used up. -/
def shiftUp? (a : Decimal) (n : Nat) : Option Decimal :=
  if n ≤ a.scale then ofParts? a.negative a.mantissa (a.scale - n)
  else if 28 < n then none
  else do
    let head ← if n < 19 then some a else a.mul? (← ofNat? (tenTo 19))
    let rest := if n < 19 then n else n - 19
    let b ← if rest = 0 then some head else head.mul? (← ofNat? (tenTo rest))
    return b.normalize

/-- Read a number with an exponent, `base e exponent`. -/
def parseScientific? (cs : List Char) : Option Decimal :=
  match cs.span (fun c => c != 'e' && c != 'E') with
  | (_, []) => none
  | (base, _ :: exponent) =>
    match parsePositional? base, exponent with
    | none, _ => none
    | some a, '-' :: digits => (exponent? digits).bind a.shiftDown?
    | some a, digits => (exponent? digits).bind a.shiftUp?

/-- Read a decimal, positional or scientific. -/
def parse? (s : String) : Option Decimal :=
  match parsePositional? s.toList with
  | some a => some a
  | none => parseScientific? s.toList

end Decimal

end Accrual
