/-
Database files, byte by byte, in the format of SQLite.

A file is a sequence of pages of one size; what is missing of the last page counts as zeros.
Trees of pages hold rows; the tree at page 1 lists the tables with the pages where their own trees
begin.  A row that is too long for its page goes on in a chain of further pages.

* `Image` — the bytes of a file, with what its header says about them;
* `Image.rows?` — the rows of a tree, in order;
* `Row.fields?` — the fields of a row;
* `Packed.number?`, `Packed.varint?` — numbers of fixed and of variable length;
* `Image.records?` — the records of a table;
* `Database.ofBytes?` — the database in a file.

Design notes.  The walk over a tree keeps a list of the pages and rows still to be visited.  Each
of them takes up bytes of its own, so the size of the file is fuel enough, and a file whose pages
lead back to themselves is refused.
-/
import Accrual.Database.Basic
import Accrual.Database.Layout
import Accrual.Power

namespace Accrual

/-- How texts are written in a database. -/
inductive Encoding where
  | utf8
  /-- Units of 16 bits, with the low or the high byte first. -/
  | utf16 (lowFirst : Bool)

/-- The bytes of a database file, with the number and size of its pages, the size of the part in
use of each, and the way texts are written. -/
structure Image where
  bytes : ByteArray
  pages : Nat
  pageSize : Nat
  usable : Nat
  encoding : Encoding

/-! ### Numbers -/

namespace Packed

/-- The byte at an offset. -/
def byte? (bytes : ByteArray) (i : Nat) : Option Nat :=
  if h : i < bytes.size then some bytes[i].toNat else none

/-- The number in `size` bytes from an offset, most significant byte first. -/
def number? (bytes : ByteArray) (i size : Nat) : Option Nat :=
  (List.range size).foldlM (fun n k => do return 256 * n + (← byte? bytes (i + k))) 0

/-- The signed number in `size` bytes from an offset. -/
def signed? (bytes : ByteArray) (i size : Nat) : Option Int := do
  let n ← number? bytes i size
  return if n < twoTo (8 * size - 1) then (n : Int) else n - twoTo (8 * size)

/-- The bytes from an offset, as many as `size`. -/
def slice? (bytes : ByteArray) (i size : Nat) : Option Bytes :=
  if i + size ≤ bytes.size then some (bytes.extract i (i + size)).data.toList else none

/-- A number of variable length from an offset, and the offset after it.  Seven bits of each byte
count, up to the first byte below 128; all bits of a ninth byte do. -/
def varint? (bytes : ByteArray) (i : Nat) : Option (Nat × Nat) := go 8 i 0
where
  /-- Go on behind a value read so far, through at most so many bytes of seven bits. -/
  go : Nat → Nat → Nat → Option (Nat × Nat)
    | 0, i, n => (byte? bytes i).map fun b => (256 * n + b, i + 1)
    | more + 1, i, n => do
      let b ← byte? bytes i
      if b < 128 then return (128 * n + b, i + 1) else go more (i + 1) (128 * n + (b - 128))

end Packed

/-! ### Rows -/

namespace Row

/-- A field of a row. -/
inductive Field where
  | null
  | integer (n : Int)
  /-- A float, by its bits. -/
  | real (bits : Nat)
  | blob (b : Bytes)
  /-- Text, by its bytes. -/
  | text (b : Bytes)
deriving DecidableEq

/-- The number of bytes of a field of a kind. -/
def width? (kind : Nat) : Option Nat :=
  if kind ≤ 4 then some kind
  else if kind = 5 then some 6
  else if kind = 6 ∨ kind = 7 then some 8
  else if kind = 8 ∨ kind = 9 then some 0
  else if 12 ≤ kind then some ((kind - 12) / 2)
  else none

/-- The field of a kind at an offset, and the offset after it. -/
def field? (bytes : ByteArray) (kind i : Nat) : Option (Field × Nat) := do
  let width ← width? kind
  let f : Field ←
    if kind = 0 then some .null
    else if kind ≤ 6 then (Packed.signed? bytes i width).map .integer
    else if kind = 7 then (Packed.number? bytes i width).map .real
    else if kind ≤ 9 then some (.integer (kind - 8))
    else if kind % 2 = 0 then (Packed.slice? bytes i width).map .blob
    else (Packed.slice? bytes i width).map .text
  return (f, i + width)

/-- The kinds of the fields, from an offset up to the end of the row's header. -/
def kinds? (bytes : ByteArray) (last : Nat) : Nat → Nat → Option (List Nat)
  | 0, _ => none
  | fuel + 1, i => do
    if last ≤ i then return []
    let (kind, i) ← Packed.varint? bytes i
    return kind :: (← kinds? bytes last fuel i)

/-- The fields of a row. -/
def fields? (row : Bytes) : Option (List Field) := do
  let bytes : ByteArray := ⟨row.toArray⟩
  let (last, i) ← Packed.varint? bytes 0
  let kinds ← kinds? bytes last (row.length + 1) i
  let (fields, _) ← kinds.foldlM (fun (fields, i) kind => do
    let (f, i) ← field? bytes kind i
    return (f :: fields, i)) (([] : List Field), last)
  return fields.reverse

end Row

/-! ### Texts -/

namespace Encoding

/-- The encoding with a number; other numbers than these stand for the first one. -/
def ofNumber (n : Nat) : Encoding :=
  if n % 4 = 2 then .utf16 true else if n % 4 = 3 then .utf16 false else .utf8

/-- The units of 16 bits in some bytes. -/
def units (lowFirst : Bool) : Bytes → List Nat
  | a :: b :: rest =>
    (if lowFirst then a.toNat + 256 * b.toNat else 256 * a.toNat + b.toNat) :: units lowFirst rest
  | _ => []

/-- The characters of some units.  The halves of a pair stand for one character. -/
def ofUnits : List Nat → List Char
  | a :: b :: rest =>
    if 0xd800 ≤ a ∧ a < 0xdc00 ∧ 0xdc00 ≤ b ∧ b < 0xe000 then
      Char.ofNat (0x10000 + (a - 0xd800) * 0x400 + (b - 0xdc00)) :: ofUnits rest
    else Char.ofNat a :: ofUnits (b :: rest)
  | [a] => [Char.ofNat a]
  | [] => []

/-- The characters of a text. -/
def chars? (e : Encoding) (b : Bytes) : Option (List Char) :=
  match e with
  | .utf8 => (Bytes.toString? b).map String.toList
  | .utf16 lowFirst => some (ofUnits (units lowFirst b))

end Encoding

/-! ### Trees of pages -/

namespace Image

/-- What every database file begins with. -/
def magic : Bytes := Bytes.ofString "SQLite format 3\x00"

/-- A file with zeros behind it up to a size. -/
def padded (bytes : ByteArray) (size : Nat) : ByteArray :=
  ⟨bytes.data ++ Array.replicate (size - bytes.size) 0⟩

/-- The number of pages: the header gives it, if it was written by the last writer. -/
def pages? (header : ByteArray) (found : Nat) : Option Nat := do
  let declared ← Packed.number? header 28 4
  let isCurrent := (← Packed.number? header 24 4) = (← Packed.number? header 92 4)
  let pages := if declared ≠ 0 ∧ isCurrent then declared else found
  if pages ≤ found then return pages else none

/-- The file with these bytes, if its header is one of a database. -/
def ofBytes? (bytes : ByteArray) : Option Image := do
  let header := padded bytes 100
  let size ← Packed.number? header 16 2
  let pageSize := if size = 1 then 65536 else size
  let reserved ← Packed.byte? header 20
  if (← Packed.slice? header 0 16) ≠ magic then none
  else if ¬ (List.range 8).any fun k => pageSize = twoTo (9 + k) then none
  else if (← Packed.slice? header 21 3) ≠ [64, 32, 32] ∨ 2 < (← Packed.byte? header 19) then none
  else if pageSize < 480 + reserved then none
  else
    let found := (bytes.size + pageSize - 1) / pageSize
    return { bytes := padded bytes (found * pageSize)
             pages := ← pages? header found
             pageSize
             usable := pageSize - reserved
             encoding := .ofNumber (← Packed.number? header 56 4) }

/-- Where a page begins, if there is one of this number. -/
def start? (img : Image) (page : Nat) : Option Nat :=
  if page = 0 ∨ img.pages < page then none else some ((page - 1) * img.pageSize)

/-- The rest of a row, in the chain of pages that begins with a page. -/
def chain? (img : Image) : Nat → Nat → Nat → Option Bytes
  | 0, _, size => if size = 0 then some [] else none
  | fuel + 1, page, size => do
    if size = 0 then return []
    let start ← img.start? page
    let here := min size (img.usable - 4)
    let front ← Packed.slice? img.bytes (start + 4) here
    return front ++ (← img.chain? fuel (← Packed.number? img.bytes start 4) (size - here))

/-- A row of some size from an offset on, with the part of it that is kept elsewhere.  `largest`
is the size up to which a row is kept in one place. -/
def row? (img : Image) (largest i size : Nat) : Option Bytes := do
  if size ≤ largest then Packed.slice? img.bytes i size
  else
    let least := (img.usable - 12) * 32 / 255 - 23
    let fitting := least + (size - least) % (img.usable - 4)
    let here := if fitting ≤ largest then fitting else least
    let front ← Packed.slice? img.bytes i here
    return front ++ (← img.chain? size (← Packed.number? img.bytes (i + here) 4) (size - here))

/-- Something to be visited on the walk over a tree. -/
inductive Stop where
  | page (number : Nat)
  | row (contents : Bytes)

/-- The row of a cell in a tree of keys. -/
def keyRow? (img : Image) (i : Nat) : Option Stop := do
  let (size, i) ← Packed.varint? img.bytes i
  (img.row? ((img.usable - 12) * 64 / 255 - 23) i size).map .row

/-- The row of a cell in a tree of numbered rows. -/
def numberedRow? (img : Image) (i : Nat) : Option Stop := do
  let (size, i) ← Packed.varint? img.bytes i
  let (_, i) ← Packed.varint? img.bytes i
  (img.row? (img.usable - 35) i size).map .row

/-- The page that a cell of an inner page leads to. -/
def child? (img : Image) (i : Nat) : Option Stop := (Packed.number? img.bytes i 4).map .page

/-- What a cell of a page holds, by the kind of the page: pages and rows, in order.  A tree of
numbered rows has pages of other kinds than a tree of keys. -/
def cell? (img : Image) (numbered : Bool) (kind i : Nat) : Option (List Stop) :=
  match numbered, kind with
  | false, 2 => do return [← img.child? i, ← img.keyRow? (i + 4)]
  | true, 5 => do return [← img.child? i]
  | false, 10 => do return [← img.keyRow? i]
  | true, 13 => do return [← img.numberedRow? i]
  | _, _ => none

/-- The kinds of inner pages and of leaves in a tree. -/
def pageKinds (numbered : Bool) : Nat × Nat := if numbered then (5, 13) else (2, 10)

/-- What a page holds: pages and rows, in order. -/
def page? (img : Image) (numbered : Bool) (page : Nat) : Option (List Stop) := do
  let start ← img.start? page
  let header := if page = 1 then start + 100 else start
  let kind ← Packed.byte? img.bytes header
  let (inner, leaf) := pageKinds numbered
  if kind ≠ inner ∧ kind ≠ leaf then none
  let count ← Packed.number? img.bytes (header + 3) 2
  let pointers := header + (if kind = inner then 12 else 8)
  let cells ← (List.range count).mapM fun k => do
    img.cell? numbered kind (start + (← Packed.number? img.bytes (pointers + 2 * k) 2))
  let last ← if kind = inner then do pure [← img.child? (header + 8)] else pure []
  return cells.flatten ++ last

/-- The rows on the way through some stops. -/
def walk? (img : Image) (numbered : Bool) : Nat → List Stop → Option (List Bytes)
  | _, [] => some []
  | 0, _ => none
  | fuel + 1, .row contents :: rest => (img.walk? numbered fuel rest).map (contents :: ·)
  | fuel + 1, .page number :: rest => do
    img.walk? numbered fuel ((← img.page? numbered number) ++ rest)

/-- The rows of the tree that begins with a page, in order. -/
def rows? (img : Image) (numbered : Bool) (page : Nat) : Option (List (List Row.Field)) := do
  (← img.walk? numbered img.bytes.size [.page page]).mapM Row.fields?

/-! ### Tables -/

/-- An entry of the list of tables. -/
structure Listed where
  kind : String
  name : String
  /-- The page where the tree of the table begins. -/
  root : Nat
  /-- The statement that created it. -/
  statement : List Char

/-- The characters of a field; a field of another kind has none. -/
def chars? (img : Image) : Option Row.Field → Option (List Char)
  | some (.text b) => img.encoding.chars? b
  | _ => some []

/-- An entry of the list of tables, from its row. -/
def listed? (img : Image) (row : List Row.Field) : Option Listed :=
  match row with
  | kind :: name :: _ :: .integer root :: rest => do
    if root < 0 ∨ img.pages < root.toNat then none
    return { kind := String.ofList (← img.chars? kind)
             name := String.ofList (← img.chars? name)
             root := root.toNat
             statement := ← img.chars? rest.head? }
  | _ => none

/-- Whether an entry can be taken for what it says: it has a statement that creates something, or,
if it came about by itself, none. -/
def Listed.isSound (entry : Listed) : Bool :=
  match entry.statement with
  | [] => entry.kind == "index"
  | a :: b :: _ => a.toLower == 'c' && b.toLower == 'r'
  | _ => false

/-- The list of tables. -/
def listing? (img : Image) : Option (List Listed) := do
  if 4 < (← Packed.byte? img.bytes 47) then none
  let listing ← (← img.rows? true 1).mapM img.listed?
  if listing.all Listed.isSound then return listing else none

/-- The name of the table of records, and of its columns. -/
def tableName : String := "kv"

/-- The column of the keys of records. -/
def keyColumn : String := "key"

/-- The column of the values of records. -/
def valueColumn : String := "value"

/-- Add the record in a row.  A key that is not of bytes is never found. -/
def addRecord? (key value : Nat) (records : Records) (row : List Row.Field) : Option Records :=
  match row[key]?, row[value]? with
  | some (.blob k), some (.blob v) => some (records.insert k v)
  | some (.blob _), _ => none
  | _, _ => some records

/-- The records of a table. -/
def records? (img : Image) (layout : Layout) (root : Nat) : Option Records := do
  let key ← layout.position? keyColumn
  let value ← layout.position? valueColumn
  (← img.rows? layout.numbered root).foldlM (addRecord? key value) .empty

/-- What the file holds of a table of records. -/
def contents (img : Image) : Contents :=
  match img.listing? with
  | none => .malformed
  | some listing =>
    match listing.find? fun entry => Token.sameName entry.name tableName with
    | none => .absent
    | some entry =>
      if ¬ Token.sameName entry.kind "table" then .unreadable
      else
        match (Token.ofChars? entry.statement).bind Layout.ofTokens? with
        | none => .malformed
        | some layout =>
          if ¬ Token.sameName layout.name tableName then .malformed
          else match img.records? layout entry.root with
          | some records => .table records
          | none => .unreadable

end Image

/-- The database in a file with these bytes.  An empty file is a database without a table, and so
is a file of a single byte.  The header has versions of its format for writing and for reading: the
second one has a log, and a later one for writing is not known here. -/
def Database.ofBytes? (bytes : ByteArray) : Option Database :=
  if bytes.size ≤ 1 then some .blank
  else do
    let img ← Image.ofBytes? bytes
    return { version := ← Packed.signed? img.bytes 60 4
             contents := img.contents
             logged := (← Packed.byte? img.bytes 19) = 2
             locked := 2 < (← Packed.byte? img.bytes 18) }

end Accrual
