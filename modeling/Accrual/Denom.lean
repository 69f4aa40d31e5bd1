/-
Denominations: the names of the units in which rewards are paid.

A denomination is 3 to 128 bytes long, begins with an ASCII letter and goes on with ASCII
letters, digits and the marks `/ : . _ -`.  Those characters take one byte each, so on valid
names the length in bytes is the length in characters and the order of strings is byte order.
-/

namespace Accrual

namespace Denom

/-- The marks that may stand inside a denomination. -/
def isMark (c : Char) : Bool := c = '/' || c = ':' || c = '.' || c = '_' || c = '-'

/-- A character that may stand after the first one. -/
def isFollower (c : Char) : Bool := c.isAlphanum || isMark c

/-- Whether the characters of a name are those of a denomination. -/
def isSpelled : List Char → Bool
  | [] => false
  | c :: rest => c.isAlpha && rest.all isFollower

/-- Whether `s` is a denomination. -/
def isValid (s : String) : Bool :=
  3 ≤ s.utf8ByteSize && s.utf8ByteSize ≤ 128 && isSpelled s.toList

end Denom

end Accrual
