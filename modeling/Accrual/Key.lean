/-
Where records are kept.

    accum/acc/NAME              the totals of the accumulator NAME
    accum/pos/NAME||INDEX       the position INDEX of that accumulator

A name may not contain `|`, so the positions of one accumulator are exactly the keys that begin
with its `Key.positions`; an index may be any text but the empty one.
-/
import Accrual.Bytes.Basic

namespace Accrual

namespace Key

/-- A name of an accumulator: not empty, and free of the separator. -/
def IsName (name : String) : Prop := name ≠ "" ∧ '|' ∉ name.toList

instance (name : String) : Decidable (IsName name) := inferInstanceAs (Decidable (_ ∧ _))

/-- An index of a position: not empty. -/
def IsIndex (index : String) : Prop := index ≠ ""

instance (index : String) : Decidable (IsIndex index) := inferInstanceAs (Decidable (_ ≠ _))

/-- What every accumulator key begins with. -/
def accumulators : Bytes := Bytes.ofString "accum/acc/"

/-- The key of the totals of an accumulator. -/
def accumulator (name : String) : Bytes := accumulators ++ Bytes.ofString name

/-- What every position key of an accumulator begins with. -/
def positions (name : String) : Bytes :=
  Bytes.ofString "accum/pos/" ++ Bytes.ofString name ++ Bytes.ofString "||"

/-- The key of a position. -/
def position (name index : String) : Bytes := positions name ++ Bytes.ofString index

/-- The name in an accumulator key. -/
def name? (key : Bytes) : Option String :=
  (Bytes.stripPrefix? accumulators key).bind Bytes.toString?

/-- The index in a position key of the accumulator `name`. -/
def index? (name : String) (key : Bytes) : Option String :=
  (Bytes.stripPrefix? (positions name) key).bind Bytes.toString?

end Key

end Accrual
