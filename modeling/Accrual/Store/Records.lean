/-
Records by key: the contents of a store.

Keys and values are byte strings; keys are kept in ascending order.  There are two ways to list
the records whose keys begin with given bytes:

* `Records.scan` — start at the first key that is not smaller and go on as long as keys begin so;
* `Records.scanRange` — take the half-open range of keys up to `Bytes.above?`.
-/
import Accrual.Bytes.Basic
import Accrual.OrderedMap

namespace Accrual

/-- Values by key, in ascending order of the keys. -/
structure Records where
  entries : List (Bytes × Bytes)
  ascending : OrderedMap.Ascending entries := by decide
deriving DecidableEq

namespace Records

/-- No records. -/
def empty : Records := { entries := [] }

instance : Inhabited Records := ⟨empty⟩

/-- How many records there are. -/
def size (r : Records) : Nat := r.entries.length

/-- The value at a key. -/
def find? (r : Records) (key : Bytes) : Option Bytes := OrderedMap.find? r.entries key

/-- Set the value at a key. -/
def insert (r : Records) (key value : Bytes) : Records :=
  ⟨OrderedMap.insert r.entries key value, OrderedMap.ascending_insert r.ascending key value⟩

/-- Remove a key; a key that is not there leaves everything as it is. -/
def erase (r : Records) (key : Bytes) : Records :=
  ⟨OrderedMap.erase r.entries key, OrderedMap.ascending_erase r.ascending key⟩

/-- The records whose keys begin with `start`, in ascending order: those from `start` on, as long
as they begin so. -/
def scan (r : Records) (start : Bytes) : List (Bytes × Bytes) :=
  (r.entries.dropWhile fun e => decide (e.1 < start)).takeWhile fun e => start.isPrefixOf e.1

/-- The records whose keys lie in the range of what begins with `start`, in ascending order. -/
def scanRange (r : Records) (start : Bytes) : List (Bytes × Bytes) :=
  match Bytes.above? start with
  | some bound => r.entries.filter fun e => !decide (e.1 < start) && decide (e.1 < bound)
  | none => r.entries.filter fun e => !decide (e.1 < start)

end Records

end Accrual
