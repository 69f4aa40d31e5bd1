/-
Where the database with a name is kept.

A name is a path, `:memory:`, or a text such as `file:ledger.db?mode=ro`, in which a byte may be
written as a percent sign and two hexadecimal digits.

* `Location.ofName?` — the place that a name stands for, when it is opened for reading only.
-/
import Accrual.Bytes.Hex

namespace Accrual

/-- Where a database is kept. -/
inductive Location where
  /-- In memory: a new database. -/
  | memory
  | file (path : String)
deriving DecidableEq

namespace Location

/-- The bytes of a text in which bytes may be written as digits.  A zero byte written so hides
what follows. -/
def unescape : List Char → Bytes
  | '%' :: a :: b :: rest =>
    match Hex.value? a, Hex.value? b with
    | some x, some y => if x = 0 ∧ y = 0 then [] else .ofNat (16 * x + y) :: unescape rest
    | _, _ => Bytes.ofString "%" ++ unescape (a :: b :: rest)
  | c :: rest => Bytes.ofString (String.singleton c) ++ unescape rest
  | [] => []

/-- The plain text of a part. -/
def plain? (cs : List Char) : Option String := Bytes.toString? (unescape cs)

/-- The part before a mark, and what follows the mark. -/
def cut (mark : Char) (cs : List Char) : List Char × List Char :=
  let (front, rest) := cs.span (· ≠ mark)
  (front, rest.tail)

/-- The options in a text, with their values; those without a name are passed over. -/
def options? (cs : List Char) : Option (List (String × String)) := do
  let parts := (String.ofList cs).splitOn "&"
  let options ← parts.mapM fun part => do
    let (name, value) := cut '=' part.toList
    return (← plain? name, ← plain? value)
  return options.filter (·.1 ≠ "")

/-- The ways of reaching files that can be asked for. -/
def accessNames : List String := ["unix", "unix-dotfile", "unix-excl", "unix-none"]

/-- A place after an option: the mode has to allow reading only, or memory. -/
def withOption? (place : Location) (option : String × String) : Option Location :=
  match option with
  | ("mode", "ro") => some place
  | ("mode", "memory") | ("vfs", "memdb") => some .memory
  | ("mode", _) => none
  | ("cache", value) => if value = "shared" ∨ value = "private" then some place else none
  | ("vfs", value) => if accessNames.contains value then some place else none
  | _ => some place

/-- The path in what follows the word `file:`, without the name of this machine. -/
def path? : List Char → Option (List Char)
  | '/' :: '/' :: rest =>
    let (host, path) := rest.span (· ≠ '/')
    if host = [] ∨ host = "localhost".toList then some path else none
  | cs => some cs

/-- The place at a path. -/
def ofPath (path : String) : Location :=
  if path = "" ∨ path = ":memory:" then .memory else .file path

/-- The place that a name stands for, if it may be read. -/
def ofName? (name : String) : Option Location :=
  match name.toList with
  | 'f' :: 'i' :: 'l' :: 'e' :: ':' :: rest => do
    let (front, query) := cut '?' (cut '#' rest).1
    let place := ofPath (← plain? (← path? front))
    (← options? query).foldlM withOption? place
  | _ => some (ofPath name)

end Location

end Accrual
