/-
Byte strings as hexadecimal text.

Writing uses two lower-case digits a byte; reading accepts digits of either case and refuses an
odd number of digits.  `Hex.decode?_encode` is the way there and back.
-/
import Accrual.Bytes.Basic

namespace Accrual

namespace Hex

/-- The digit of a value below sixteen. -/
def digit (n : Nat) : Char := Char.ofNat (if n < 10 then 48 + n else 87 + n)

/-- The value of a digit of either case. -/
def value? (c : Char) : Option Nat :=
  if '0' ≤ c ∧ c ≤ '9' then some (c.toNat - 48)
  else if 'a' ≤ c ∧ c ≤ 'f' then some (c.toNat - 87)
  else if 'A' ≤ c ∧ c ≤ 'F' then some (c.toNat - 55)
  else none

/-- The two digits of a byte. -/
def byte (b : UInt8) : List Char := [digit (b.toNat / 16), digit (b.toNat % 16)]

/-- The characters of the written form. -/
def chars (b : Bytes) : List Char := b.flatMap byte

/-- Read pairs of digits. -/
def ofChars? : List Char → Option Bytes
  | [] => some []
  | [_] => none
  | h :: l :: rest => do
    let high ← value? h
    let low ← value? l
    return UInt8.ofNat (16 * high + low) :: (← ofChars? rest)

/-- The written form. -/
def encode (b : Bytes) : String := String.ofList (chars b)

/-- Read the written form. -/
def decode? (s : String) : Option Bytes := ofChars? s.toList

theorem value?_digit {n : Nat} (h : n < 16) : value? (digit n) = some n := by
  have all : ∀ n : Fin 16, value? (digit n) = some n.val := by decide
  exact all ⟨n, h⟩

theorem ofChars?_chars (b : Bytes) : ofChars? (chars b) = some b := by
  induction b with
  | nil => rfl
  | cons x rest ih =>
    have hx : x.toNat < 256 := x.toNat_lt
    have hb : UInt8.ofNat (16 * (x.toNat / 16) + x.toNat % 16) = x := by
      rw [Nat.div_add_mod]; exact UInt8.ofNat_toNat
    have hrest : ofChars? (rest.flatMap byte) = some rest := ih
    simp only [chars, List.flatMap_cons, byte, List.cons_append, List.nil_append, ofChars?,
      value?_digit (show x.toNat / 16 < 16 by omega),
      value?_digit (show x.toNat % 16 < 16 by omega), hrest, Option.bind_eq_bind,
      Option.bind_some, Option.pure_def, hb]

theorem decode?_encode (b : Bytes) : decode? (encode b) = some b := by
  simp [decode?, encode, ofChars?_chars]

end Hex

end Accrual
