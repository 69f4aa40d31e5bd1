/-
Byte strings, as keys and as record contents.

A byte string is a list of bytes in lexicographic order.  Text enters and leaves it as UTF-8.

Main definitions:
* `Bytes.ofString`, `Bytes.toString?` — text as UTF-8 and back; only valid UTF-8 is text;
* `Bytes.stripPrefix?` — what follows a given beginning;
* `Bytes.above?` — the least byte string above everything that begins with a given one.

Main facts:
* `Bytes.toString?_ofString` — text survives the way through bytes;
* `Bytes.ofString_injective` — different texts have different bytes.
-/

namespace Accrual

/-- A byte string. -/
abbrev Bytes := List UInt8

namespace Bytes

/-- The UTF-8 bytes of a text. -/
def ofString (s : String) : Bytes := s.toByteArray.data.toList

/-- The text with these UTF-8 bytes, if they are valid. -/
def toString? (b : Bytes) : Option String := String.fromUTF8? ⟨b.toArray⟩

theorem toString?_ofString (s : String) : toString? (ofString s) = some s := by
  simp [toString?, ofString, String.fromUTF8?, String.fromUTF8, s.isValidUTF8]

theorem ofString_of_toString? {b : Bytes} {s : String} (h : toString? b = some s) :
    ofString s = b := by
  unfold toString? String.fromUTF8? at h
  split at h
  · simp only [Option.some.injEq] at h
    subst h
    simp [ofString, String.fromUTF8]
  · simp at h

theorem ofString_injective {s t : String} (h : ofString s = ofString t) : s = t := by
  have hs := toString?_ofString s
  rw [h, toString?_ofString] at hs
  exact (Option.some.inj hs).symm

/-- What follows `start` in `b`, if `b` begins with it. -/
def stripPrefix? (start b : Bytes) : Option Bytes :=
  if start.isPrefixOf b then some (b.drop start.length) else none

/-- The least byte string greater than everything that begins with `start`: the last byte that
can grow grows by one, and what follows it is dropped.  There is none if no byte can grow. -/
def above? (start : Bytes) : Option Bytes :=
  match start with
  | [] => none
  | b :: rest =>
    match above? rest with
    | some bound => some (b :: bound)
    | none => if b < 255 then some [b + 1] else none

end Bytes

end Accrual
