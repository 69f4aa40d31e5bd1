/-
Rewards: amounts of several denominations at once.

A `Rewards` value lists its components in ascending order of denomination.  A denomination that
is not listed has amount zero, and `put` never stores a zero and always drops trailing fractional
zeros, so equal amounts have equal representations.

Main definitions:
* `Rewards` — the components in order; `Rewards.amount` is the view through which operations are
  described;
* `Rewards.put` — set one component;
* `Rewards.ofPairs` — collect checked pairs, adding up repeated denominations;
* `Rewards.Canonical` — the form that every operation produces;
* `RewardError` — why an operation on rewards was refused.
-/
import Accrual.Decimal.Text
import Accrual.Denom
import Accrual.OrderedMap
import Accrual.Text.Quoted

namespace Accrual

/-- Why an operation on rewards was refused. -/
inductive RewardError where
  /-- The name is not that of a denomination. -/
  | invalidDenom (denom : String)
  /-- A component would be negative from the start. -/
  | negativeAmount (denom : String) (amount : Decimal)
  /-- The factor or divisor is negative. -/
  | negativeScalar (scalar : Decimal)
  /-- More is to be taken away than there is. -/
  | negativeComponent (denom : String) (available requested : Decimal)
  /-- A result does not fit a decimal. -/
  | overflow
  /-- The divisor is zero. -/
  | divisionByZero
deriving DecidableEq

/-- The wording of a refusal. -/
def RewardError.message : RewardError → String
  | .invalidDenom denom => "invalid denomination: " ++ Text.quoted denom
  | .negativeAmount denom amount => "negative amount " ++ amount.text ++ " for " ++ denom
  | .negativeScalar scalar => "negative amount " ++ scalar.text ++ " for <scalar>"
  | .negativeComponent denom available requested =>
    "negative component for " ++ denom ++ ": " ++ available.text ++ " - " ++ requested.text
  | .overflow => "decimal overflow"
  | .divisionByZero => "division by zero"

/-- Amounts by denomination, in ascending order of denomination. -/
structure Rewards where
  components : List (String × Decimal)
deriving DecidableEq

namespace Rewards

/-- No rewards at all. -/
def empty : Rewards := ⟨[]⟩

instance : Inhabited Rewards := ⟨empty⟩

/-- The amount of a denomination, zero if it is not listed. -/
def amount (r : Rewards) (denom : String) : Decimal :=
  (OrderedMap.find? r.components denom).getD .zero

/-- There is nothing of any denomination. -/
def IsEmpty (r : Rewards) : Prop := r.components = []

instance (r : Rewards) : Decidable r.IsEmpty := inferInstanceAs (Decidable (r.components = []))

/-- How many denominations are present. -/
def size (r : Rewards) : Nat := r.components.length

/-- Set one component.  A zero removes it; any other amount is stored without trailing zeros. -/
def put (r : Rewards) (denom : String) (amount : Decimal) : Rewards :=
  if amount.IsZero then ⟨OrderedMap.erase r.components denom⟩
  else ⟨OrderedMap.insert r.components denom amount.normalize⟩

/-- An amount as it is stored: positive and without a trailing fractional zero. -/
def IsStored (a : Decimal) : Prop :=
  a.negative = false ∧ a.mantissa ≠ 0 ∧ (a.scale = 0 ∨ a.mantissa % 10 ≠ 0)

instance (a : Decimal) : Decidable (IsStored a) :=
  inferInstanceAs (Decidable (_ ∧ _ ∧ _))

/-- The form every operation produces: valid denominations in strictly ascending order, each
with an amount as it is stored. -/
structure Canonical (r : Rewards) : Prop where
  ascending : OrderedMap.Ascending r.components
  valid : ∀ c ∈ r.components, Denom.isValid c.1 = true
  stored : ∀ c ∈ r.components, IsStored c.2

/-- Add one amount to a component after checking its denomination and sign. -/
def deposit (r : Rewards) (denom : String) (amount : Decimal) : Except RewardError Rewards :=
  if !Denom.isValid denom then .error (.invalidDenom denom)
  else if amount < .zero then .error (.negativeAmount denom amount)
  else
    match (r.amount denom).add? amount with
    | none => .error .overflow
    | some sum => .ok (r.put denom sum)

/-- Collect pairs in the order given; a repeated denomination adds up. -/
def ofPairs (pairs : List (String × Decimal)) : Except RewardError Rewards :=
  pairs.foldlM (fun r p => r.deposit p.1 p.2) empty

/-- Rewards of a single denomination. -/
def single (denom : String) (amount : Decimal) : Except RewardError Rewards :=
  ofPairs [(denom, amount)]

/-- The written form: amounts with their denominations, separated by commas. -/
def text (r : Rewards) : String :=
  String.intercalate "," (r.components.map fun c => c.2.text ++ c.1)

end Rewards

end Accrual
