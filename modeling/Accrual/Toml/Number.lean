/-
Numbers, dates and times of TOML.

* `Toml.number?` — an integer or a float;
* `Toml.moment?` — a date, a time, or both, with or without an offset.

An underscore may stand between two digits.  Integers have 64 bits.  A float may be too small for
the 64-bit binary format, or be negative and too large for it, but not positive and too large.
-/
import Accrual.Binary64
import Accrual.Toml.Text

namespace Accrual

namespace Toml

/-! ### Digits -/

/-- The digits up to the next character that is neither a digit nor an underscore before one. -/
def moreDigits? (isDigit : Char → Bool) : List Char → Option (List Char × List Char)
  | [] => some ([], [])
  | '_' :: rest =>
    match rest with
    | c :: _ => if isDigit c then moreDigits? isDigit rest else none
    | [] => none
  | c :: rest =>
    if isDigit c then (moreDigits? isDigit rest).map fun p => (c :: p.1, p.2)
    else some ([], c :: rest)

/-- At least one digit. -/
def digits? (isDigit : Char → Bool) (cs : List Char) : Option (List Char × List Char) :=
  if (cs.head?.map isDigit).getD false then moreDigits? isDigit cs else none

/-- The number that digits to a base denote. -/
def valueOf (base : Nat) (digits : List Char) : Nat :=
  digits.foldl (fun n c => base * n + (Hex.value? c).getD 0) 0

/-- A sign, which is negative or not, if there is one. -/
def sign : List Char → Bool × List Char
  | '-' :: rest => (true, rest)
  | '+' :: rest => (false, rest)
  | rest => (false, rest)

/-- The digits of a whole number: a lone zero, or a run that begins with another digit. -/
def whole? : List Char → Option (List Char × List Char)
  | '0' :: rest => some (['0'], rest)
  | cs => digits? Char.isDigit cs

/-- The digits behind a point, if one follows. -/
def fraction? : List Char → Option (Option (List Char) × List Char)
  | '.' :: rest => (digits? Char.isDigit rest).map fun p => (some p.1, p.2)
  | rest => some (none, rest)

/-- An exponent, if one follows. -/
def exponent? : List Char → Option (Option Int × List Char)
  | [] => some (none, [])
  | c :: rest =>
    if c = 'e' ∨ c = 'E' then do
      let (negative, rest) := sign rest
      let (digits, rest) ← digits? Char.isDigit rest
      let n : Int := valueOf 10 digits
      return (some (if negative then -n else n), rest)
    else some (none, c :: rest)

/-! ### Numbers -/

/-- An integer of 64 bits. -/
def integer? (n : Int) : Option Value :=
  if -(twoTo 63 : Int) ≤ n ∧ n < twoTo 63 then some (.integer n) else none

/-- The number of decimal places beyond which a size is not computed: a number of that many digits
is too large for a float, and one that begins so far behind the point rounds to zero. -/
def maxPlaces : Int := 400

/-- Whether `significand * 10 ^ e` rounds to a float. -/
def isFinite (significand : Nat) (e : Int) : Bool :=
  let places := e + (Nat.toDigits 10 significand).length
  if significand = 0 ∨ places < -maxPlaces then true
  else if maxPlaces < places then false
  else (Binary64.round? false (significand * tenTo e.toNat) (tenTo (-e).toNat)).isSome

/-- The characters of `cs` before `rest`, which ends it. -/
def upTo (cs rest : List Char) : String := String.ofList (cs.take (cs.length - rest.length))

/-- An integer or a float with decimal digits. -/
def decimalNumber? (cs : List Char) : Option (Value × List Char) := do
  let (negative, rest) := sign cs
  let (whole, rest) ← whole? rest
  let (fraction, rest) ← fraction? rest
  let (exponent, rest) ← exponent? rest
  if fraction.isNone ∧ exponent.isNone then
    let n : Int := valueOf 10 whole
    return (← integer? (if negative then -n else n), rest)
  else
    let behind := fraction.getD []
    if negative ∨ isFinite (valueOf 10 (whole ++ behind)) (exponent.getD 0 - behind.length) then
      return (.float (upTo cs rest), rest)
    else none

/-- An infinity, or no number. -/
def special? (cs : List Char) : Option (Value × List Char) :=
  match (sign cs).2 with
  | 'i' :: 'n' :: 'f' :: rest | 'n' :: 'a' :: 'n' :: rest => some (.float (upTo cs rest), rest)
  | _ => none

/-- An integer to base 16, 8 or 2, after the mark of the base. -/
def based? (base : Nat) (cs : List Char) : Option (Value × List Char) := do
  let (digits, rest) ← digits? (fun c => (Hex.value? c).any fun d => decide (d < base)) cs
  return (← integer? (valueOf base digits), rest)

/-- A number. -/
def number? (cs : List Char) : Option (Value × List Char) :=
  match cs with
  | '0' :: 'x' :: rest => based? 16 rest
  | '0' :: 'o' :: rest => based? 8 rest
  | '0' :: 'b' :: rest => based? 2 rest
  | _ => (special? cs).orElse fun _ => decimalNumber? cs

/-! ### Dates and times -/

/-- A number of exactly `n` digits between two bounds. -/
def bounded? (n low high : Nat) (cs : List Char) : Option (Nat × List Char) :=
  let digits := cs.take n
  let v := valueOf 10 digits
  if digits.length = n ∧ digits.all Char.isDigit ∧ low ≤ v ∧ v ≤ high then some (v, cs.drop n)
  else none

/-- The text after a given character. -/
def after? (c : Char) : List Char → Option (List Char)
  | c' :: rest => if c' = c then some rest else none
  | [] => none

/-- The number of days of a month. -/
def daysIn (year month : Nat) : Nat :=
  if month = 2 then
    if year % 4 = 0 ∧ (year % 100 ≠ 0 ∨ year % 400 = 0) then 29 else 28
  else if month = 4 ∨ month = 6 ∨ month = 9 ∨ month = 11 then 30 else 31

/-- The text after a date. -/
def date? (cs : List Char) : Option (List Char) := do
  let (year, rest) ← bounded? 4 0 9999 cs
  let (month, rest) ← bounded? 2 1 12 (← after? '-' rest)
  let (_, rest) ← bounded? 2 1 (daysIn year month) (← after? '-' rest)
  return rest

/-- The text after an hour and its colon. -/
def hour? (cs : List Char) : Option (List Char) := do
  let (_, rest) ← bounded? 2 0 23 cs
  after? ':' rest

/-- The text after a time.  A second may be a leap second. -/
def time? (cs : List Char) : Option (List Char) := do
  let (_, rest) ← bounded? 2 0 59 (← hour? cs)
  let (_, rest) ← bounded? 2 0 60 (← after? ':' rest)
  match rest with
  | '.' :: digits =>
    let behind := digits.dropWhile Char.isDigit
    return if behind.length < digits.length then behind else rest
  | _ => return rest

/-- The text after an offset, if there is one. -/
def offset? : List Char → Option (List Char)
  | [] => some []
  | c :: rest =>
    if c = 'Z' ∨ c = 'z' then some rest
    else if c = '+' ∨ c = '-' then do
      let (_, rest) ← bounded? 2 0 59 (← hour? rest)
      return rest
    else some (c :: rest)

/-- The text after the time that follows a date, if one does. -/
def timeOfDate? : List Char → Option (List Char)
  | [] => some []
  | c :: rest =>
    if (c = 'T' ∨ c = 't' ∨ c = ' ') ∧ (hour? rest).isSome then (time? rest).bind offset?
    else some (c :: rest)

/-- A date, a time, or both. -/
def moment? (cs : List Char) : Option (Value × List Char) := do
  let rest ← if (hour? cs).isSome then time? cs else (date? cs).bind timeOfDate?
  return (.moment (upTo cs rest), rest)

end Toml

end Accrual
