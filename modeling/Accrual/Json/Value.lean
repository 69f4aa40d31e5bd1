/-
JSON values, and how they are written.

* `Json.Value` — a value as it was read: numbers keep their digits, members keep their order and
  may repeat;
* `Json.Value.pretty` — the indented form: two spaces a level, one member or element a line, empty
  containers without a break.
-/
import Accrual.Decimal.Text

namespace Accrual

namespace Json

/-- A number by its digits. -/
structure Number where
  negative : Bool
  /-- The digits before the point. -/
  whole : List Char
  /-- The digits behind the point, if there is one. -/
  fraction : Option (List Char)
  /-- Whether the exponent is negative, and its digits, if there is one. -/
  exponent : Option (Bool × List Char)

/-- A JSON value.  A text with an unpaired surrogate is well-formed but denotes no string. -/
inductive Value where
  | null
  | bool (b : Bool)
  | number (n : Number)
  | string (s : Option String)
  | array (elements : List Value)
  | object (members : List (Option String × Value))

/-! ### Writing -/

/-- One character inside a written string. -/
def writtenChar (c : Char) : List Char :=
  match c with
  | '"' => ['\\', '"']
  | '\\' => ['\\', '\\']
  | '\x08' => ['\\', 'b']
  | '\x0c' => ['\\', 'f']
  | '\n' => ['\\', 'n']
  | '\r' => ['\\', 'r']
  | '\t' => ['\\', 't']
  | c =>
    if c.toNat < 0x20 then
      ['\\', 'u'] ++ List.replicate (4 - (Nat.toDigits 16 c.toNat).length) '0'
        ++ Nat.toDigits 16 c.toNat
    else [c]

/-- A written string. -/
def written (s : String) : List Char := '"' :: s.toList.flatMap writtenChar ++ ['"']

/-- A written number. -/
def Number.written (n : Number) : List Char :=
  (if n.negative then ['-'] else []) ++ n.whole
    ++ (match n.fraction with
      | some digits => '.' :: digits
      | none => [])
    ++ (match n.exponent with
      | some (negative, digits) => 'e' :: (if negative then ['-'] else []) ++ digits
      | none => [])

/-- The break before an element at some depth. -/
def lineAt (depth : Nat) : List Char := '\n' :: List.replicate (2 * depth) ' '

namespace Value

/-- The value of a string. -/
def text (s : String) : Value := .string (some s)

/-- An object from its members. -/
def record (members : List (String × Value)) : Value :=
  .object (members.map fun m => (some m.1, m.2))

mutual

/-- The characters of the indented form of a value that stands at some depth. -/
def prettyAt (depth : Nat) : Value → List Char
  | .null => ['n', 'u', 'l', 'l']
  | .bool true => ['t', 'r', 'u', 'e']
  | .bool false => ['f', 'a', 'l', 's', 'e']
  | .number n => n.written
  | .string s => written (s.getD "")
  | .array [] => ['[', ']']
  | .array elements => '[' :: elementsAt (depth + 1) elements ++ lineAt depth ++ [']']
  | .object [] => ['\x7b', '\x7d']
  | .object members => '\x7b' :: membersAt (depth + 1) members ++ lineAt depth ++ ['\x7d']

/-- Elements, each on its line. -/
def elementsAt (depth : Nat) : List Value → List Char
  | [] => []
  | [v] => lineAt depth ++ prettyAt depth v
  | v :: rest => lineAt depth ++ prettyAt depth v ++ [','] ++ elementsAt depth rest

/-- Members, each on its line. -/
def membersAt (depth : Nat) : List (Option String × Value) → List Char
  | [] => []
  | [(k, v)] => lineAt depth ++ written (k.getD "") ++ [':', ' '] ++ prettyAt depth v
  | (k, v) :: rest =>
    lineAt depth ++ written (k.getD "") ++ [':', ' '] ++ prettyAt depth v ++ [',']
      ++ membersAt depth rest

end

/-- The indented form. -/
def pretty (v : Value) : String := String.ofList (prettyAt 0 v)

end Value

end Json

end Accrual
