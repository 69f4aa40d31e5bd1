/-
Records from bytes.

Reading is more liberal than writing: fields may come in any order, unknown fields are skipped,
tags are ignored except before a decimal, decimals may be numbers, and of a repeated denomination
the last amount counts.  A repeated or missing field is refused, and so is whatever
`Rewards.ofPairs` refuses.  Bytes after the record are not looked at.
-/
import Accrual.Bytes.Hex
import Accrual.Cbor.Item
import Accrual.Record.Basic

namespace Accrual

namespace Cbor

namespace Item

/-- A text, in one piece or several. -/
def text? : Item → Option String
  | .text s | .chunkedText s => some s
  | _ => none

/-- A decimal: a text, an integer of 64 bits or a floating-point number. -/
def decimal? : Item → Option Decimal
  | .unsigned n => Decimal.ofNat? n
  | .negative n => if n < twoTo 63 then Decimal.ofParts? true (n + 1) 0 else none
  | .text s | .chunkedText s => Decimal.parse? s
  | .float (some x) => Decimal.parse? x.text
  | _ => none

/-- A truth value. -/
def bool? (item : Item) : Option Bool :=
  match item.untagged with
  | .bool b => some b
  | _ => none

/-- Rewards: a map from texts to decimals, checked in ascending order of the texts. -/
def rewards? (item : Item) : Option Rewards :=
  match item.untagged with
  | .map entries => do
    let amounts ← entries.foldlM (fun m (e : Item × Item) => do
      return OrderedMap.insert m (← e.1.untagged.text?) (← e.2.decimal?)) []
    (Rewards.ofPairs amounts).toOption
  | _ => none

/-- The longest name of a field, in bytes. -/
def maxFieldName : Nat := 4096

/-- The name of a field: a text or byte string in one piece. -/
def fieldName? (key : Item) : Option Bytes :=
  match key.untagged with
  | .text s => some (Bytes.ofString s)
  | .bytes b => some b
  | _ => none

/-- The fields of a record among `names`, each at most once.  Other fields are passed over, with
`depth` levels of nesting left for their values. -/
def fields? (depth : Nat) (names : List String) (item : Item) : Option (List (String × Item)) :=
  match item.untagged with
  | .map entries =>
    entries.foldlM (fun fields (e : Item × Item) => do
      let key ← fieldName? e.1
      if maxFieldName < key.length then none
      match names.find? fun name => Bytes.ofString name = key with
      | none => if e.2.canSkip depth then return fields else none
      | some name =>
        if (fields.lookup name).isSome then none
        return (name, e.2) :: fields) []
  | _ => none

/-- The levels of nesting inside a record. -/
def recordDepth : Nat := maxDepth - 1

/-- The payload of a position, with `depth` levels of nesting left inside it. -/
def options? (depth : Nat) (item : Item) : Option Bytes := do
  let fields ← item.fields? depth ["payload"]
  Hex.decode? (← (← fields.lookup "payload").untagged.text?)

/-- An optional payload, with `depth` levels of nesting left inside it. -/
def optional? (depth : Nat) : Item → Option (Option Bytes)
  | .null | .undefined => some none
  | item => (item.options? depth).map some

/-- The totals of an accumulator. -/
def totals? (item : Item) : Option Totals := do
  let fields ← item.fields? recordDepth ["value_per_share", "total_shares"]
  return { valuePerShare := ← (← fields.lookup "value_per_share").rewards?
           totalShares := ← (← fields.lookup "total_shares").decimal? }

/-- A position. -/
def position? (item : Item) : Option Position := do
  let fields ← item.fields? recordDepth
    ["num_shares", "accum_value_per_share", "unclaimed_rewards_total", "options"]
  return { shares := ← (← fields.lookup "num_shares").decimal?
           snapshot := ← (← fields.lookup "accum_value_per_share").rewards?
           unclaimed := ← (← fields.lookup "unclaimed_rewards_total").rewards?
           options := ← ((fields.lookup "options").getD .null).optional? (recordDepth - 1) }

/-- A payout. -/
def payout? (item : Item) : Option Payout := do
  let fields ← item.fields? recordDepth ["paid", "dust", "closed"]
  return { paid := ← (← fields.lookup "paid").rewards?
           dust := ← (← fields.lookup "dust").rewards?
           closed := ← (← fields.lookup "closed").bool? }

end Item

end Cbor

/-- The decimal at the beginning of `b`. -/
def Decimal.decode? (b : Bytes) : Option Decimal := (Cbor.item? b).bind (·.1.decimal?)

/-- The rewards at the beginning of `b`. -/
def Rewards.decode? (b : Bytes) : Option Rewards := (Cbor.item? b).bind (·.1.rewards?)

/-- The payload at the beginning of `b`. -/
def decodeOptions? (b : Bytes) : Option Bytes :=
  (Cbor.item? b).bind (·.1.options? Cbor.Item.recordDepth)

/-- The totals at the beginning of `b`. -/
def Totals.decode? (b : Bytes) : Option Totals := (Cbor.item? b).bind (·.1.totals?)

/-- The position at the beginning of `b`. -/
def Position.decode? (b : Bytes) : Option Position := (Cbor.item? b).bind (·.1.position?)

/-- The payout at the beginning of `b`. -/
def Payout.decode? (b : Bytes) : Option Payout := (Cbor.item? b).bind (·.1.payout?)

end Accrual
