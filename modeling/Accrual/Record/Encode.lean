/-
Records as bytes.

A decimal is a text; rewards are a map from denominations to decimals in ascending order; a record
is a map whose keys are the names of its fields, always in the same order.  Decimals are written
as they are, so a record keeps the scale of its numbers.
-/
import Accrual.Bytes.Hex
import Accrual.Cbor.Writer
import Accrual.Record.Basic

namespace Accrual

/-- A decimal as a text. -/
def Decimal.encode (a : Decimal) : Bytes := Cbor.text a.text

/-- Rewards as a map from denominations to decimals. -/
def Rewards.encode (r : Rewards) : Bytes :=
  Cbor.mapHead r.size ++ r.components.flatMap fun c => Cbor.text c.1 ++ c.2.encode

/-- The stored totals of an accumulator. -/
def Totals.encode (t : Totals) : Bytes :=
  Cbor.mapHead 2
    ++ Cbor.text "value_per_share" ++ t.valuePerShare.encode
    ++ Cbor.text "total_shares" ++ t.totalShares.encode

/-- The payload of a position, in hexadecimal digits. -/
def encodeOptions (payload : Bytes) : Bytes :=
  Cbor.mapHead 1 ++ Cbor.text "payload" ++ Cbor.text (Hex.encode payload)

/-- A stored position. -/
def Position.encode (p : Position) : Bytes :=
  Cbor.mapHead 4
    ++ Cbor.text "num_shares" ++ p.shares.encode
    ++ Cbor.text "accum_value_per_share" ++ p.snapshot.encode
    ++ Cbor.text "unclaimed_rewards_total" ++ p.unclaimed.encode
    ++ Cbor.text "options" ++ (match p.options with
      | some payload => encodeOptions payload
      | none => Cbor.null)

/-- A payout. -/
def Payout.encode (p : Payout) : Bytes :=
  Cbor.mapHead 3
    ++ Cbor.text "paid" ++ p.paid.encode
    ++ Cbor.text "dust" ++ p.dust.encode
    ++ Cbor.text "closed" ++ Cbor.bool p.closed

end Accrual
