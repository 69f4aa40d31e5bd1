/-
Encodings are faithful.

* `Decimal.content`, `Position.content`, `Totals.content` — what a record says: of a decimal its
  value and its scale, of everything else all there is;
* `Faithful` — written bytes followed by any others are read as a record with the same content;
  records with the same bytes have the same content; no bytes begin with those of another record;
* `Faithful.of_item` — an encoding is faithful if its bytes are one item and that item is read as a
  record with the same content;
* `records_faithful` — the encodings of all kinds of records are.

Design notes.  The only thing that reading does not give back is the sign of a zero, which has
neither value nor scale; this is why records are compared by content and not for equality.  Bytes
that begin with the bytes of another record are taken apart from the front: both give their own
item, and the item of the longer one leaves nothing behind.
-/
import Accrual.Proofs.Decimal.Value
import Accrual.Proofs.Record

namespace Accrual

open Cbor (Encodes Item item? maxDepth)

/-! ### Content -/

/-- The value of a decimal, and its scale. -/
def Decimal.content (a : Decimal) : ℚ × Nat := (a.toRat, a.scale)

theorem Decimal.content_readBack (a : Decimal) : a.readBack.content = a.content :=
  Prod.ext a.toRat_readBack rfl

/-- What a stored position says. -/
def Position.content (p : Position) : (ℚ × Nat) × Rewards × Rewards × Option Bytes :=
  (p.shares.content, p.snapshot, p.unclaimed, p.options)

theorem Position.content_readBack (p : Position) : p.readBack.content = p.content := by
  rw [content, readBack, p.shares.content_readBack, content]

/-- What the stored totals of an accumulator say. -/
def Totals.content (t : Totals) : Rewards × ℚ × Nat := (t.valuePerShare, t.totalShares.content)

theorem Totals.content_readBack (t : Totals) : t.readBack.content = t.content := by
  rw [content, readBack, t.totalShares.content_readBack, content]

/-! ### Faithful encodings -/

/-- An encoding `write` of the values that are `storable`, from which `read?` gets back their
`content`. -/
structure Faithful {α β : Type} (storable : α → Prop) (content : α → β) (write : α → Bytes)
    (read? : Bytes → Option α) : Prop where
  /-- Whatever follows it, a written value is read back. -/
  reads_back : ∀ x, storable x → ∀ t, (read? (write x ++ t)).map content = some (content x)
  /-- The bytes determine the content. -/
  injective : ∀ x y, storable x → storable y → write x = write y → content x = content y
  /-- No bytes are a proper prefix of others. -/
  prefix_free : ∀ x y, storable x → storable y → write x <+: write y → write x = write y

/-- The bytes of an item are not a proper prefix of those of another one. -/
theorem Cbor.Encodes.eq_of_isPrefix {b b' : Bytes} {i i' : Item} (h : Encodes maxDepth b i)
    (h' : Encodes maxDepth b' i') (hle : b <+: b') : b = b' := by
  obtain ⟨t, rfl⟩ := hle
  have hshort := Cbor.item?_append h t
  have hlong := Cbor.item?_append h' []
  rw [List.append_nil, hshort, Option.some.injEq, Prod.mk.injEq] at hlong
  rw [hlong.2, List.append_nil]

theorem Faithful.of_item {α β : Type} {storable : α → Prop} {content : α → β}
    {write : α → Bytes} {read? : Bytes → Option α} (item : α → Item)
    (interpret : Item → Option α) (hwrite : ∀ x, storable x → Encodes maxDepth (write x) (item x))
    (hread : ∀ b, read? b = (item? b).bind (interpret ·.1))
    (hitem : ∀ x, storable x → (interpret (item x)).map content = some (content x)) :
    Faithful storable content write read? := by
  have hback (x : α) (hx : storable x) (t : Bytes) :
      (read? (write x ++ t)).map content = some (content x) := by
    rw [hread, Cbor.item?_append (hwrite x hx), Option.bind_some]
    exact hitem x hx
  refine ⟨hback, fun x y hx hy heq => ?_, fun x y hx hy hle =>
    (hwrite x hx).eq_of_isPrefix (hwrite y hy) hle⟩
  have hfirst := hback x hx []
  rw [heq, hback y hy []] at hfirst
  exact (Option.some.inj hfirst).symm

/-! ### The encodings of records -/

theorem Decimal.faithful : Faithful (fun _ => True) content encode decode? :=
  .of_item (fun a => .text a.text) Item.decimal? (fun a _ => a.encodes) (fun _ => rfl)
    fun a _ => by rw [a.decimal?_text, Option.map_some, a.content_readBack]

theorem Rewards.faithful : Faithful Storable id encode decode? :=
  .of_item toItem Item.rewards? (fun _ hr => encodes hr) (fun _ => rfl)
    fun _ hr => by rw [rewards?_toItem hr.toCanonical, Option.map_some]

theorem faithful_encodeOptions :
    Faithful (fun payload : Bytes => payload.length < twoTo 63) id encodeOptions decodeOptions? :=
  .of_item (fun payload => recordItem (payloadFields payload)) (Item.options? Item.recordDepth)
    (fun _ h => encodes_encodeOptions h) (fun _ => rfl)
    fun payload _ => by rw [options?_payloadFields, Option.map_some]

theorem Position.faithful : Faithful Storable content encode decode? :=
  .of_item (recordItem ·.fields) Item.position? (fun _ hp => encodes hp) (fun _ => rfl)
    fun p hp => by rw [position?_recordItem hp, Option.map_some, p.content_readBack]

theorem Totals.faithful : Faithful Storable content encode decode? :=
  .of_item (recordItem ·.fields) Item.totals? (fun _ ht => encodes ht) (fun _ => rfl)
    fun t ht => by rw [totals?_recordItem ht, Option.map_some, t.content_readBack]

theorem Payout.faithful : Faithful Storable id encode decode? :=
  .of_item (recordItem ·.fields) Item.payout? (fun _ hp => encodes hp) (fun _ => rfl)
    fun _ hp => by rw [payout?_recordItem hp, Option.map_some]

/-- Every kind of record is encoded faithfully: totals, positions, payouts, payloads, rewards and
single decimals. -/
theorem records_faithful :
    Faithful Totals.Storable Totals.content Totals.encode Totals.decode?
      ∧ Faithful Position.Storable Position.content Position.encode Position.decode?
      ∧ Faithful Payout.Storable id Payout.encode Payout.decode?
      ∧ Faithful (fun payload : Bytes => payload.length < twoTo 63) id encodeOptions decodeOptions?
      ∧ Faithful Rewards.Storable id Rewards.encode Rewards.decode?
      ∧ Faithful (fun _ => True) Decimal.content Decimal.encode Decimal.decode? :=
  ⟨Totals.faithful, Position.faithful, Payout.faithful, faithful_encodeOptions,
    Rewards.faithful, Decimal.faithful⟩

end Accrual
