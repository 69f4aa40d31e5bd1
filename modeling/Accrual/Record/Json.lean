/-
Records from JSON text.

A record is an object with named fields, or an array of its fields in order; a trailing payload
may be left out.  Unknown members are skipped, repeated fields are refused, and of a repeated
denomination the last amount counts.  Decimals are strings or numbers.
-/
import Accrual.Bytes.Hex
import Accrual.Json.Reader
import Accrual.Record.Basic

namespace Accrual

namespace Json

namespace Value

/-- A decimal: a string or a number. -/
def decimal? : Value → Option Decimal
  | .string (some s) => Decimal.parse? s
  | .number n => n.decimal?
  | _ => none

/-- A truth value. -/
def bool? : Value → Option Bool
  | .bool b => some b
  | _ => none

/-- Rewards: an object of decimals, checked in ascending order of its keys. -/
def rewards? : Value → Option Rewards
  | .object members => do
    let amounts ← members.foldlM (fun m (e : Option String × Value) => do
      return OrderedMap.insert m (← e.1) (← e.2.decimal?)) []
    (Rewards.ofPairs amounts).toOption
  | _ => none

/-- The fields of a record among `names`, each at most once. -/
def fields? (names : List String) : Value → Option (List (String × Value))
  | .object members =>
    members.foldlM (fun fields (e : Option String × Value) => do
      let name ← e.1
      if ¬ names.contains name then return fields
      if (fields.lookup name).isSome then none
      return (name, e.2) :: fields) []
  | .array elements =>
    if names.length < elements.length then none else some (names.zip elements)
  | _ => none

/-- The payload of a position. -/
def options? (v : Value) : Option Bytes := do
  match ← (← v.fields? ["payload"]).lookup "payload" with
  | .string (some s) => Hex.decode? s
  | _ => none

/-- An optional payload. -/
def optional? : Value → Option (Option Bytes)
  | .null => some none
  | v => v.options?.map some

/-- A position. -/
def position? (v : Value) : Option Position := do
  let fields ← v.fields?
    ["num_shares", "accum_value_per_share", "unclaimed_rewards_total", "options"]
  return { shares := ← (← fields.lookup "num_shares").decimal?
           snapshot := ← (← fields.lookup "accum_value_per_share").rewards?
           unclaimed := ← (← fields.lookup "unclaimed_rewards_total").rewards?
           options := ← ((fields.lookup "options").getD .null).optional? }

/-- A payout. -/
def payout? (v : Value) : Option Payout := do
  let fields ← v.fields? ["paid", "dust", "closed"]
  return { paid := ← (← fields.lookup "paid").rewards?
           dust := ← (← fields.lookup "dust").rewards?
           closed := ← (← fields.lookup "closed").bool? }

end Value

end Json

end Accrual
