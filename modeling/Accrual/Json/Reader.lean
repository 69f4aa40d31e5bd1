/-
Reading JSON text.

* `Json.read?` — the value a whole text denotes;
* `Json.Number.decimal?` — the decimal a number stands for.

Design notes.  The reader takes fuel.  Every step that costs fuel consumes a character or follows
one that does, so twice the length of the text is fuel enough.

Numbers.  An integer of 64 bits is taken exactly.  Any other number becomes a binary number of 64
bits first, and its shortest decimal text counts.  The binary number is computed from the leading
digits that fit 64 bits, times or divided by a power of ten, rounding after each operation.
-/
import Accrual.Binary64
import Accrual.Bytes.Hex
import Accrual.Json.Value

namespace Accrual

namespace Json

/-! ### Tokens -/

/-- Blanks between tokens. -/
def isBlank (c : Char) : Bool := c = ' ' || c = '\n' || c = '\t' || c = '\r'

/-- The text after leading blanks. -/
def skipBlanks (cs : List Char) : List Char := cs.dropWhile isBlank

/-- Four hexadecimal digits. -/
def hex4? : List Char → Option (Nat × List Char)
  | a :: b :: c :: d :: rest => do
    let digits ← [a, b, c, d].mapM Hex.value?
    return (digits.foldl (fun n d => 16 * n + d) 0, rest)
  | _ => none

/-- One unit of a string: a character, or half of one. -/
inductive Unit16 where
  | char (c : Char)
  | high (n : Nat)
  | low (n : Nat)

/-- A code unit as a unit of a string. -/
def Unit16.ofCode (n : Nat) : Unit16 :=
  if 0xd800 ≤ n ∧ n < 0xdc00 then .high (n - 0xd800)
  else if 0xdc00 ≤ n ∧ n < 0xe000 then .low (n - 0xdc00)
  else .char (Char.ofNat n)

/-- Join the halves; an unpaired one denotes nothing. -/
def joinUnits : List Unit16 → Option (List Char)
  | [] => some []
  | .char c :: rest => (joinUnits rest).map (c :: ·)
  | .high h :: .low l :: rest =>
    (joinUnits rest).map (Char.ofNat (0x10000 + h * 0x400 + l) :: ·)
  | _ => none

/-- The character that an escape letter stands for. -/
def escaped? : Char → Option Char
  | '"' => some '"'
  | '\\' => some '\\'
  | '/' => some '/'
  | 'b' => some '\x08'
  | 'f' => some '\x0c'
  | 'n' => some '\n'
  | 'r' => some '\r'
  | 't' => some '\t'
  | _ => none

/-- The units of a string up to its closing quote, after the opening one. -/
def units? : Nat → List Char → Option (List Unit16 × List Char)
  | 0, _ => none
  | _ + 1, [] => none
  | _ + 1, '"' :: rest => some ([], rest)
  | fuel + 1, '\\' :: 'u' :: rest => do
    let (n, rest) ← hex4? rest
    let (more, rest) ← units? fuel rest
    return (.ofCode n :: more, rest)
  | fuel + 1, '\\' :: c :: rest => do
    let c ← escaped? c
    let (more, rest) ← units? fuel rest
    return (.char c :: more, rest)
  | fuel + 1, c :: rest =>
    if c = '\\' ∨ c.toNat < 0x20 then none
    else do
      let (more, rest) ← units? fuel rest
      return (.char c :: more, rest)

/-- A string, after its opening quote. -/
def string? (cs : List Char) : Option (Option String × List Char) := do
  let (units, rest) ← units? (cs.length + 1) cs
  return ((joinUnits units).map String.ofList, rest)

/-- A non-empty run of digits. -/
def digits? (cs : List Char) : Option (List Char × List Char) :=
  let (digits, rest) := cs.span Char.isDigit
  if digits.isEmpty then none else some (digits, rest)

/-- The digits before the point: a lone zero, or a run that begins with another digit. -/
def whole? : List Char → Option (List Char × List Char)
  | '0' :: rest => if (rest.head?.map Char.isDigit).getD false then none else some (['0'], rest)
  | cs => digits? cs

/-- The digits behind a point, if one follows. -/
def fraction? : List Char → Option (Option (List Char) × List Char)
  | '.' :: rest => (digits? rest).map fun p => (some p.1, p.2)
  | rest => some (none, rest)

/-- An exponent, if one follows. -/
def exponent? : List Char → Option (Option (Bool × List Char) × List Char)
  | c :: rest =>
    if c = 'e' ∨ c = 'E' then
      match rest with
      | '-' :: rest => (digits? rest).map fun p => (some (true, p.1), p.2)
      | '+' :: rest => (digits? rest).map fun p => (some (false, p.1), p.2)
      | rest => (digits? rest).map fun p => (some (false, p.1), p.2)
    else some (none, c :: rest)
  | [] => some (none, [])

/-- A number. -/
def number? (cs : List Char) : Option (Number × List Char) := do
  let (negative, rest) := match cs with
    | '-' :: rest => (true, rest)
    | rest => (false, rest)
  let (whole, rest) ← whole? rest
  let (fraction, rest) ← fraction? rest
  let (exponent, rest) ← exponent? rest
  return ({ negative, whole, fraction, exponent }, rest)

/-- What follows a given word. -/
def word? (word : List Char) (cs : List Char) : Option (List Char) :=
  if word.isPrefixOf cs then some (cs.drop word.length) else none

/-! ### Values -/

mutual

/-- A value and the text after it. -/
def value? : Nat → List Char → Option (Value × List Char)
  | 0, _ => none
  | fuel + 1, cs =>
    match skipBlanks cs with
    | '"' :: rest => do
      let (s, rest) ← string? rest
      return (.string s, rest)
    | '[' :: rest =>
      match skipBlanks rest with
      | ']' :: rest => some (.array [], rest)
      | rest => do
        let (elements, rest) ← elements? fuel rest
        return (.array elements, rest)
    | '\x7b' :: rest =>
      match skipBlanks rest with
      | '\x7d' :: rest => some (.object [], rest)
      | rest => do
        let (members, rest) ← members? fuel rest
        return (.object members, rest)
    | 't' :: rest => (word? ['r', 'u', 'e'] rest).map fun rest => (.bool true, rest)
    | 'f' :: rest => (word? ['a', 'l', 's', 'e'] rest).map fun rest => (.bool false, rest)
    | 'n' :: rest => (word? ['u', 'l', 'l'] rest).map fun rest => (.null, rest)
    | rest => do
      let (n, rest) ← number? rest
      return (.number n, rest)

/-- The elements of an array up to its closing bracket, at least one. -/
def elements? : Nat → List Char → Option (List Value × List Char)
  | 0, _ => none
  | fuel + 1, cs => do
    let (v, rest) ← value? fuel cs
    match skipBlanks rest with
    | ',' :: rest =>
      let (more, rest) ← elements? fuel rest
      return (v :: more, rest)
    | ']' :: rest => return ([v], rest)
    | _ => none

/-- The members of an object up to its closing brace, at least one. -/
def members? : Nat → List Char → Option (List (Option String × Value) × List Char)
  | 0, _ => none
  | fuel + 1, cs =>
    match skipBlanks cs with
    | '"' :: rest => do
      let (k, rest) ← string? rest
      match skipBlanks rest with
      | ':' :: rest =>
        let (v, rest) ← value? fuel rest
        match skipBlanks rest with
        | ',' :: rest =>
          let (more, rest) ← members? fuel rest
          return ((k, v) :: more, rest)
        | '\x7d' :: rest => return ([(k, v)], rest)
        | _ => none
      | _ => none
    | _ => none

end

/-- The value a whole text denotes. -/
def read? (s : String) : Option Value := do
  let (v, rest) ← value? (2 * s.length + 2) s.toList
  if (skipBlanks rest).isEmpty then some v else none

/-! ### Numbers as decimals -/

namespace Number

/-- The number a run of digits denotes. -/
def valueOf (digits : List Char) : Nat := digits.foldl (fun n c => 10 * n + (c.toNat - 48)) 0

/-- Take digits in as long as the significand fits 64 bits: the significand and how many digits
were left out. -/
def takeIn (significand : Nat) : List Char → Nat × Nat
  | [] => (significand, 0)
  | c :: rest =>
    let next := 10 * significand + (c.toNat - 48)
    if next < twoTo 64 then takeIn next rest else (significand, rest.length + 1)

/-- The largest power of ten below the largest binary number. -/
def maxPower : Nat := 308

/-- The binary number nearest to `10 ^ n`. -/
def power? (n : Nat) : Option Binary64 := Binary64.round? false (tenTo n) 1

/-- A number times `10 ^ n`. -/
def times? (x : Binary64) (n : Nat) : Option Binary64 :=
  if n ≤ maxPower then (power? n).bind x.mul?
  else if x.significand = 0 then some x
  else none

/-- A number over `10 ^ n`, divided by at most `10 ^ maxPower` at a time.  Two such divisions leave
nothing of a significand of 64 bits, so no more are made. -/
def over? (x : Binary64) (n : Nat) : Option Binary64 :=
  (List.replicate (min 2 (n / maxPower)) maxPower ++ [n % maxPower]).foldlM
    (fun x k => (power? k).bind x.div?) x

/-- The largest exponent that is computed with. -/
def maxExponent : Nat := twoTo 31 - 1

/-- The binary number that stands for a number of the text. -/
def binary? (n : Number) : Option Binary64 :=
  let (head, left) := takeIn 0 n.whole
  let behind := n.fraction.getD []
  let (significand, dropped) := takeIn head behind
  let shift : Int := left - (behind.length - dropped : Nat)
  match n.exponent with
  | none => scaled significand shift
  | some (negative, digits) =>
    let e := valueOf digits
    if maxExponent < e then
      if significand = 0 ∨ negative then Binary64.round? n.negative 0 1 else none
    else scaled significand (if negative then shift - e else shift + e)
where
  /-- The number `± significand * 10 ^ e`. -/
  scaled (significand : Nat) (e : Int) : Option Binary64 := do
    let x ← Binary64.round? n.negative significand 1
    if 0 ≤ e then times? x e.toNat else over? x (-e).toNat

/-- The decimal a number stands for. -/
def decimal? (n : Number) : Option Decimal :=
  let whole := valueOf n.whole
  if n.fraction.isNone ∧ n.exponent.isNone
      ∧ (if n.negative then 0 < whole ∧ whole ≤ twoTo 63 else whole < twoTo 64) then
    Decimal.ofParts? n.negative whole 0
  else n.binary?.bind fun x => Decimal.parse? x.text

end Number

end Json

end Accrual
