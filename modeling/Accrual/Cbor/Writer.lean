/-
Writing CBOR, the binary format of stored records.

An item begins with a head: three bits for its kind and an argument in the shortest of five
widths.  Only the kinds that records need are written, always with definite lengths.

* `Cbor.head` — a kind with its argument;
* `Cbor.text`, `Cbor.mapHead`, `Cbor.bool`, `Cbor.null` — the items of records.
-/
import Accrual.Bytes.Basic
import Accrual.Power

namespace Accrual

namespace Cbor

/-- The last `width` bytes of a number, most significant first. -/
def bigEndian (width n : Nat) : Bytes :=
  match width with
  | 0 => []
  | width + 1 => UInt8.ofNat (n / twoTo (8 * width)) :: bigEndian width n

/-- The head of an item: its kind and an argument below `2 ^ 64`. -/
def head (kind argument : Nat) : Bytes :=
  let first (info : Nat) : UInt8 := UInt8.ofNat (32 * kind + info)
  if argument < 24 then [first argument]
  else if argument < twoTo 8 then first 24 :: bigEndian 1 argument
  else if argument < twoTo 16 then first 25 :: bigEndian 2 argument
  else if argument < twoTo 32 then first 26 :: bigEndian 4 argument
  else first 27 :: bigEndian 8 argument

/-- A text of definite length. -/
def text (s : String) : Bytes :=
  let utf8 := Bytes.ofString s
  head 3 utf8.length ++ utf8

/-- The head of a map with this many entries, which follow. -/
def mapHead (size : Nat) : Bytes := head 5 size

/-- A truth value. -/
def bool (b : Bool) : Bytes := [if b then 0xf5 else 0xf4]

/-- The absent value. -/
def null : Bytes := [0xf6]

end Cbor

end Accrual
