/-
Reading CBOR, the binary format of stored records.

* `Cbor.Item` — an item of the format;
* `Cbor.item?` — read the item at the beginning of a byte string;
* `Cbor.Item.canSkip` — an item whose content is of no interest can be passed over.

Heads of any width and indefinite lengths are accepted.  Containers may be nested 256 deep.  Of
the simple values only the two truth values, null and undefined exist.

Design notes.  The reader takes fuel, because the length of a container says nothing about how
much input is left; every step that costs fuel also consumes input or follows one that does, so
twice the length of the input is fuel enough (`Cbor.item?`).
-/
import Accrual.Binary64
import Accrual.Bytes.Basic

namespace Accrual

namespace Cbor

/-- An item of the format. -/
inductive Item where
  | unsigned (n : Nat)
  /-- The integer `-1 - n`. -/
  | negative (n : Nat)
  | bytes (b : Bytes)
  /-- A byte string in pieces. -/
  | chunkedBytes (b : Bytes)
  | text (s : String)
  /-- A text in pieces, each of them valid by itself. -/
  | chunkedText (s : String)
  | array (items : List Item)
  | map (entries : List (Item × Item))
  | tagged (tag : Nat) (item : Item)
  | bool (b : Bool)
  | null
  | undefined
  /-- A floating-point number; `none` is an infinity or no number. -/
  | float (value : Option Binary64)

/-- The item under its tags. -/
def Item.untagged : Item → Item
  | .tagged _ item => item.untagged
  | item => item

/-! ### Heads -/

/-- Split the first `n` bytes off. -/
def take? : Nat → Bytes → Option (Bytes × Bytes)
  | 0, b => some ([], b)
  | _ + 1, [] => none
  | n + 1, x :: b => (take? n b).map fun p => (x :: p.1, p.2)

/-- The number with these bytes, most significant first. -/
def ofBigEndian (b : Bytes) : Nat := b.foldl (fun n x => 256 * n + x.toNat) 0

/-- The head of an item: its kind, the five bits that say how the argument is given, and the
argument, which is missing for indefinite lengths and for the closing mark. -/
structure Head where
  kind : Nat
  info : Nat
  argument : Option Nat

/-- Read a head. -/
def head? : Bytes → Option (Head × Bytes)
  | [] => none
  | x :: b =>
    let kind := x.toNat / 32
    let info := x.toNat % 32
    if info < 24 then some (⟨kind, info, some info⟩, b)
    else if info < 28 then
      (take? (twoTo (info - 24)) b).map fun p => (⟨kind, info, some (ofBigEndian p.1)⟩, p.2)
    else if info = 31 then some (⟨kind, info, none⟩, b)
    else none

/-- The byte that closes an item of indefinite length. -/
def closing : UInt8 := 0xff

/-! ### Items -/

/-- The pieces of a string of indefinite length, up to its closing mark.  A piece may itself be
such a string; `opened` counts the marks still to come. -/
def pieces? (kind : Nat) : Nat → Nat → Bytes → Option (List Bytes × Bytes)
  | 0, _, _ => none
  | fuel + 1, opened, b =>
    match head? b with
    | none => none
    | some (h, rest) =>
      match h.argument with
      | some n =>
        if h.kind = kind then do
          let (piece, rest) ← take? n rest
          let (more, rest) ← pieces? kind fuel opened rest
          return (piece :: more, rest)
        else none
      | none =>
        if h.kind = kind then pieces? kind fuel (opened + 1) rest
        else if h.kind = 7 then
          if opened = 1 then some ([], rest) else pieces? kind fuel (opened - 1) rest
        else none

/-- A simple value or floating-point number, by its head. -/
def simple? (h : Head) : Option Item :=
  match h.info, h.argument with
  | 25, some bits => some (.float (Binary64.ofBits? 5 10 bits))
  | 26, some bits => some (.float (Binary64.ofBits? 8 23 bits))
  | 27, some bits => some (.float (Binary64.ofBits? 11 52 bits))
  | _, some 20 => some (.bool false)
  | _, some 21 => some (.bool true)
  | _, some 22 => some .null
  | _, some 23 => some .undefined
  | _, _ => none

/-- The nesting that is left inside one more container. -/
def inner? : Nat → Option Nat
  | 0 => none
  | depth + 1 => some depth

/-- What follows a container of which `count` members are still to come, if it ends here. -/
def ended? : Option Nat → Bytes → Option Bytes
  | some n, b => if n = 0 then some b else none
  | none, x :: b => if x = closing then some b else none
  | none, [] => none

mutual

/-- Read an item that may hold `depth` more levels of containers. -/
def itemAt? : Nat → Nat → Bytes → Option (Item × Bytes)
  | 0, _, _ => none
  | fuel + 1, depth, b => do
    let (h, rest) ← head? b
    match h.kind, h.argument with
    | 0, some n => return (.unsigned n, rest)
    | 1, some n => return (.negative n, rest)
    | 2, some n =>
      let (content, rest) ← take? n rest
      return (.bytes content, rest)
    | 2, none =>
      let (parts, rest) ← pieces? 2 rest.length 1 rest
      return (.chunkedBytes parts.flatten, rest)
    | 3, some n =>
      let (content, rest) ← take? n rest
      return (.text (← Bytes.toString? content), rest)
    | 3, none =>
      let (parts, rest) ← pieces? 3 rest.length 1 rest
      return (.chunkedText (String.join (← parts.mapM Bytes.toString?)), rest)
    | 4, count =>
      let (items, rest) ← itemsAt? fuel (← inner? depth) count rest
      return (.array items, rest)
    | 5, count =>
      let (entries, rest) ← entriesAt? fuel (← inner? depth) count rest
      return (.map entries, rest)
    | 6, some tag =>
      let (item, rest) ← itemAt? fuel depth rest
      return (.tagged tag item, rest)
    | 7, some _ => return (← simple? h, rest)
    | _, _ => none

/-- Read `count` items, or all up to the closing mark. -/
def itemsAt? : Nat → Nat → Option Nat → Bytes → Option (List Item × Bytes)
  | 0, _, _, _ => none
  | fuel + 1, depth, count, b =>
    match ended? count b with
    | some rest => some ([], rest)
    | none => do
      let (item, rest) ← itemAt? fuel depth b
      let (items, rest) ← itemsAt? fuel depth (count.map (· - 1)) rest
      return (item :: items, rest)

/-- Read `count` pairs of items, or all up to the closing mark. -/
def entriesAt? : Nat → Nat → Option Nat → Bytes → Option (List (Item × Item) × Bytes)
  | 0, _, _, _ => none
  | fuel + 1, depth, count, b =>
    match ended? count b with
    | some rest => some ([], rest)
    | none => do
      let (key, rest) ← itemAt? fuel depth b
      let (value, rest) ← itemAt? fuel depth rest
      let (entries, rest) ← entriesAt? fuel depth (count.map (· - 1)) rest
      return ((key, value) :: entries, rest)

end

/-- How many containers may stand inside one another. -/
def maxDepth : Nat := 256

/-- Read the item at the beginning of `b`; what follows it is returned. -/
def item? (b : Bytes) : Option (Item × Bytes) := itemAt? (2 * b.length + 1) maxDepth b

/-! ### Items that are passed over -/

/-- The tag of a positive integer that is given by its bytes. -/
def positiveTag : Nat := 2

/-- The tag of a negative integer `-1 - n`, where `n` is given by its bytes. -/
def negativeTag : Nat := 3

mutual

/-- An item of any kind can be passed over with `depth` levels of nesting left.  Here a tag is a
level too, except before an integer of at most sixteen bytes; such an integer has to be at least
`-2 ^ 127`. -/
def Item.canSkip : Nat → Item → Bool
  | depth, .array items => 0 < depth && canSkipAll (depth - 1) items
  | depth, .map entries => 0 < depth && canSkipEntries (depth - 1) entries
  | depth, .tagged tag item =>
    match item with
    | .bytes b =>
      if (tag = positiveTag ∨ tag = negativeTag) ∧ b.length ≤ 16 then
        tag = positiveTag || ofBigEndian b < twoTo 127
      else 0 < depth
    | item => 0 < depth && item.canSkip (depth - 1)
  | _, _ => true

/-- All of the items can be passed over. -/
def canSkipAll : Nat → List Item → Bool
  | _, [] => true
  | depth, item :: items => item.canSkip depth && canSkipAll depth items

/-- All of the keys and values can be passed over. -/
def canSkipEntries : Nat → List (Item × Item) → Bool
  | _, [] => true
  | depth, (key, value) :: entries =>
    key.canSkip depth && value.canSkip depth && canSkipEntries depth entries

end

end Cbor

end Accrual
