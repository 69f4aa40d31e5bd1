/-
Stored records are read back.

* `Decimal.encodes`, `Rewards.encodes` — what stands for a value inside a record;
* `AreFieldNames`, `fields?_recordItem` — the fields of a written record are found again, each
  under its name;
* `Position.encodes`, `Totals.encodes`, `Payout.encodes`, `encodes_encodeOptions` — the bytes of a
  record are one item, whatever follows them;
* `Position.decode?_encode`, `Totals.decode?_encode` — a record is read back as it was written,
  except that a zero number of shares loses its sign (`Position.readBack`, `Totals.readBack`).

Design notes.  The head of a map or of a text holds a length in 64 bits.  Denominations and
decimals are short, so what limits a record is the number of its denominations and the length of
its payload, which takes two digits a byte.  Within these limits, which no list or text in memory
exceeds, a record is *storable* (`Rewards.Storable`, `Position.Storable`); vectors over a set of
fewer than `2 ^ 64` denominations are (`Rewards.Over.storable`).
-/
import Accrual.Proofs.Cbor
import Accrual.Proofs.Decimal.Text
import Accrual.Proofs.Rewards.Canonical
import Accrual.Record.Decode
import Accrual.Record.Encode

namespace Accrual

/-! ### Lengths of texts -/

theorem Bytes.length_ofString_ofList (cs : List Char) :
    (ofString (String.ofList cs)).length = (cs.map Char.utf8Size).sum := by
  rw [ofString, String.toByteArray_ofList, List.utf8Encode]
  simp

theorem Bytes.length_ofString_le (cs : List Char) :
    (ofString (String.ofList cs)).length ≤ 4 * cs.length := by
  rw [length_ofString_ofList]
  induction cs with
  | nil => exact Nat.le_refl 0
  | cons c cs ih =>
    rw [List.map_cons, List.sum_cons, List.length_cons]
    have := c.utf8Size_le_four
    omega

theorem Decimal.length_chars_le (a : Decimal) : a.chars.length ≤ 31 := by
  have hdigits : (Nat.toDigits 10 a.mantissa).length ≤ 29 :=
    (Nat.length_toDigits_le_iff (by decide) (by decide)).mpr
      (Nat.lt_trans a.mantissa_lt (by decide))
  have hscale := a.scale_le
  have hpadded : (paddedDigits a.mantissa (a.scale + 1)).length ≤ 29 := by
    rw [paddedDigits, List.length_append, List.length_replicate]
    omega
  have hbody : a.unsignedChars.length ≤ 30 := by
    rw [unsignedChars]
    split
    · omega
    · rw [List.length_append, List.length_cons, List.length_take, List.length_drop]
      omega
  rw [chars_eq]
  split
  · rw [List.length_cons]
    omega
  · omega

theorem Decimal.length_text_lt (a : Decimal) : (Bytes.ofString a.text).length < twoTo 64 := by
  have hle := Bytes.length_ofString_le a.chars
  have hlen := a.length_chars_le
  exact Nat.lt_of_le_of_lt (Nat.le_trans hle (Nat.mul_le_mul_left 4 hlen)) (by decide)

theorem Denom.length_lt {d : String} (h : isValid d = true) :
    (Bytes.ofString d).length < twoTo 64 := by
  have hsize : d.utf8ByteSize ≤ 128 := by
    simp only [isValid, Bool.and_eq_true, decide_eq_true_eq] at h
    exact h.1.2
  rw [← String.size_toByteArray] at hsize
  exact Nat.lt_of_le_of_lt hsize (by decide)

theorem Hex.length_encode (b : Bytes) : (Bytes.ofString (encode b)).length = 2 * b.length := by
  have hdigit : ∀ n : Fin 16, (digit n).utf8Size = 1 := by decide
  rw [encode, Bytes.length_ofString_ofList]
  induction b with
  | nil => rfl
  | cons x b ih =>
    have hx : x.toNat < 256 := x.toNat_lt
    have hhigh := hdigit ⟨x.toNat / 16, by omega⟩
    have hlow := hdigit ⟨x.toNat % 16, by omega⟩
    simp only at hhigh hlow
    rw [chars, List.flatMap_cons, List.map_append, List.sum_append, byte]
    rw [chars] at ih
    rw [ih, List.length_cons]
    simp only [List.map_cons, List.map_nil, List.sum_cons, List.sum_nil, hhigh, hlow]
    omega

/-! ### Values -/

open Cbor (Encodes Item encodes_text encodes_map Written)

variable {D : Finset String} {depth : Nat}

theorem Decimal.encodes (a : Decimal) : Encodes depth a.encode (.text a.text) :=
  encodes_text a.length_text_lt

theorem Decimal.decimal?_text (a : Decimal) : (Item.text a.text).decimal? = some a.readBack :=
  a.parse?_text

/-- What rewards are read as. -/
def Rewards.toItem (r : Rewards) : Item :=
  .map (r.components.map fun c => (.text c.1, .text c.2.text))

/-- Canonical rewards of which the head of a map can hold the number of denominations. -/
structure Rewards.Storable (r : Rewards) : Prop extends Canonical r where
  size_lt : r.size < twoTo 64

theorem Rewards.Over.storable {r : Rewards} (hr : r.Over D) (hD : D.card < twoTo 64) :
    r.Storable :=
  ⟨hr.toCanonical, Nat.lt_of_le_of_lt hr.size_le hD⟩

theorem Rewards.encodes {r : Rewards} (hr : r.Storable) :
    Encodes (depth + 1) r.encode r.toItem := by
  have hmap : Encodes (depth + 1) _ _ := encodes_map
    (r.components.map fun c => ((Cbor.text c.1, .text c.1), (c.2.encode, .text c.2.text)))
    (fun p hp => by
      obtain ⟨c, hc, rfl⟩ := List.mem_map.1 hp
      exact ⟨encodes_text (Denom.length_lt (hr.valid c hc)), c.2.encodes⟩)
    (by
      rw [List.length_map]
      exact hr.size_lt)
  rw [List.length_map, Cbor.entryBytes, List.flatMap_map, List.map_map] at hmap
  exact hmap

theorem Rewards.foldlM_insert {out rest : List (String × Decimal)}
    (h : Canonical ⟨out ++ rest⟩) :
    (rest.map fun c => (Item.text c.1, Item.text c.2.text)).foldlM
      (fun m (e : Item × Item) => do
        return OrderedMap.insert m (← e.1.untagged.text?) (← e.2.decimal?)) out
      = some (out ++ rest) := by
  induction rest generalizing out with
  | nil => rw [List.append_nil]; rfl
  | cons c rest ih =>
    have hmem : c ∈ out ++ c :: rest := List.mem_append_right out List.mem_cons_self
    have hbelow : ∀ c' ∈ out, c'.1 < c.1 := fun c' hc' =>
      (List.pairwise_append.1 h.ascending).2.2 c' hc' c List.mem_cons_self
    have hamount : (Item.text c.2.text).decimal? = some c.2 := by
      rw [Decimal.decimal?_text, Decimal.readBack_of_not_negative (h.stored c hmem).1]
    have hdenom : (Item.text c.1).untagged.text? = some c.1 := rfl
    have happend : out ++ c :: rest = (out ++ [c]) ++ rest := by simp
    rw [List.map_cons, List.foldlM_cons]
    simp only [hamount, hdenom, Option.bind_eq_bind, Option.bind_some, Option.pure_def]
    rw [insert_append_of_lt hbelow]
    rw [happend] at h ⊢
    exact ih h

theorem Rewards.rewards?_toItem {r : Rewards} (hr : r.Canonical) :
    r.toItem.rewards? = some r := by
  have hfold := @foldlM_insert [] r.components hr
  rw [List.nil_append] at hfold
  simp only [Item.rewards?, toItem, Item.untagged]
  rw [hfold]
  simp only [Option.bind_eq_bind, Option.bind_some, hr.ofPairs_components, Except.toOption]

/-! ### Fields -/

/-- The bytes of a record with these fields. -/
def recordBytes (fields : List (String × Written)) : Bytes :=
  Cbor.mapHead fields.length ++ fields.flatMap fun f => Cbor.text f.1 ++ f.2.1

/-- What a record with these fields is read as. -/
def recordItem (fields : List (String × Written)) : Item :=
  .map (fields.map fun f => (.text f.1, f.2.2))

/-- Names that the fields of a record can have: distinct, and short enough to be read. -/
structure AreFieldNames (names : List String) : Prop where
  nodup : names.Nodup
  short : ∀ name ∈ names, (Bytes.ofString name).length ≤ Item.maxFieldName

theorem AreFieldNames.short_of_mem {fields : List (String × Written)}
    (h : AreFieldNames (fields.map Prod.fst)) {f : String × Written} (hf : f ∈ fields) :
    (Bytes.ofString f.1).length ≤ Item.maxFieldName :=
  h.short f.1 (List.mem_map_of_mem hf)

theorem encodes_record {fields : List (String × Written)}
    (hnames : AreFieldNames (fields.map Prod.fst))
    (hvalues : ∀ f ∈ fields, Encodes depth f.2.1 f.2.2) (hsize : fields.length < twoTo 64) :
    Encodes (depth + 1) (recordBytes fields) (recordItem fields) := by
  have hmap : Encodes (depth + 1) _ _ := encodes_map
    (fields.map fun f => ((Cbor.text f.1, .text f.1), f.2))
    (fun p hp => by
      obtain ⟨f, hf, rfl⟩ := List.mem_map.1 hp
      exact ⟨encodes_text (Nat.lt_of_le_of_lt (hnames.short_of_mem hf) (by decide)),
        hvalues f hf⟩)
    (by rwa [List.length_map])
  rw [List.length_map, Cbor.entryBytes, List.flatMap_map, List.map_map] at hmap
  exact hmap

theorem find?_ofString {names : List String} {name : String} (h : name ∈ names) :
    names.find? (fun n => Bytes.ofString n = Bytes.ofString name) = some name := by
  induction names with
  | nil => cases h
  | cons n names ih =>
    rw [List.find?_cons]
    by_cases hn : n = name
    · rw [hn]
      simp
    · have hne : Bytes.ofString n ≠ Bytes.ofString name := fun heq =>
        hn (Bytes.ofString_injective heq)
      simp only [hne, decide_false]
      exact ih ((List.mem_cons.1 h).resolve_left (Ne.symm hn))

theorem lookup_eq_none_of_not_mem {fields : List (String × Item)} {name : String}
    (h : name ∉ fields.map Prod.fst) : fields.lookup name = none := by
  induction fields with
  | nil => rfl
  | cons f fields ih =>
    rw [List.map_cons, List.mem_cons, not_or] at h
    have hne : (name == f.1) = false := by simpa using h.1
    rw [List.lookup_cons, hne]
    exact ih h.2

/-- A fold that never fails, with its state after each part of the list. -/
theorem foldlM_eq_some {σ α : Type} {f : σ → α → Option σ} {l : List α} (state : List α → σ)
    (h : ∀ done x rest, l = done ++ x :: rest → f (state done) x = some (state (done ++ [x]))) :
    l.foldlM f (state []) = some (state l) := by
  suffices hgen : ∀ done rest, l = done ++ rest → rest.foldlM f (state done) = some (state l) from
    hgen [] l rfl
  intro done rest
  induction rest generalizing done with
  | nil =>
    intro heq
    rw [heq, List.append_nil]
    rfl
  | cons x rest ih =>
    intro heq
    rw [List.foldlM_cons, h done x rest heq]
    exact ih (done ++ [x]) (by rw [heq, List.append_assoc]; rfl)

/-- The fields of a written record are found under their names, the last one first. -/
theorem fields?_recordItem (depth : Nat) {fields : List (String × Written)}
    (hnames : AreFieldNames (fields.map Prod.fst)) :
    (recordItem fields).fields? depth (fields.map Prod.fst)
      = some (fields.map fun f => (f.1, f.2.2)).reverse := by
  show List.foldlM _ [] (List.map _ fields) = _
  rw [List.foldlM_map]
  refine foldlM_eq_some (fun done : List (String × Written) =>
    (done.map fun f => (f.1, f.2.2)).reverse) ?_
  intro done f rest heq
  have hf : f ∈ fields := heq ▸ List.mem_append_right done List.mem_cons_self
  have hkey : Item.fieldName? (.text f.1) = some (Bytes.ofString f.1) := rfl
  have hfind := find?_ofString (List.mem_map_of_mem (f := Prod.fst) hf)
  -- the names are distinct, so this one was not found before
  have hnew : (done.map fun f => (f.1, f.2.2)).reverse.lookup f.1 = none := by
    refine lookup_eq_none_of_not_mem fun hmem => ?_
    rw [List.map_reverse, List.mem_reverse, List.map_map] at hmem
    obtain ⟨g, hg, hname⟩ := List.mem_map.1 hmem
    have hnodup := hnames.nodup
    rw [heq, List.map_append] at hnodup
    exact (List.nodup_append.1 hnodup).2.2 g.1 (List.mem_map_of_mem hg) f.1
      (List.mem_map_of_mem List.mem_cons_self) hname
  rw [List.map_append, List.reverse_append]
  simp only [hkey, Option.bind_eq_bind, Option.bind_some,
    if_neg (Nat.not_lt.2 (hnames.short_of_mem hf)),
    hfind, hnew, Option.isSome_none, Option.pure_def]
  rfl

/-- Under each name stands what was written there. -/
theorem lookup_reverse {fields : List (String × Written)}
    (hnames : AreFieldNames (fields.map Prod.fst)) {f : String × Written} (hf : f ∈ fields) :
    (fields.map fun f => (f.1, f.2.2)).reverse.lookup f.1 = some f.2.2 := by
  have hgen {found : List (String × Item)} (hnodup : (found.map Prod.fst).Nodup) {e : String × Item}
      (he : e ∈ found) : found.lookup e.1 = some e.2 := by
    induction found with
    | nil => cases he
    | cons e' found ih =>
      rw [List.map_cons, List.nodup_cons] at hnodup
      rw [List.lookup_cons]
      rcases List.mem_cons.1 he with rfl | he
      · simp
      · have hne : (e.1 == e'.1) = false := by
          rw [beq_eq_false_iff_ne]
          exact fun heq => hnodup.1 (heq ▸ List.mem_map_of_mem he)
        rw [hne]
        exact ih hnodup.2 he
  refine hgen (e := (f.1, f.2.2)) ?_ ?_
  · rw [List.map_reverse, List.map_map, List.nodup_reverse]
    exact hnames.nodup
  · exact List.mem_reverse.2 (List.mem_map_of_mem (f := fun f => (f.1, f.2.2)) hf)

/-! ### Payloads -/

/-- The field of a payload. -/
def payloadFields (payload : Bytes) : List (String × Written) :=
  [("payload", (Cbor.text (Hex.encode payload), .text (Hex.encode payload)))]

theorem encodeOptions_eq (payload : Bytes) :
    encodeOptions payload = recordBytes (payloadFields payload) := by
  simp [encodeOptions, recordBytes, payloadFields]

theorem areFieldNames_payloadFields (payload : Bytes) :
    AreFieldNames ((payloadFields payload).map Prod.fst) := by
  rw [show (payloadFields payload).map Prod.fst = ["payload"] from rfl]
  exact ⟨by decide, by decide⟩

theorem encodes_encodeOptions {payload : Bytes} (h : payload.length < twoTo 63) :
    Encodes (depth + 1) (encodeOptions payload) (recordItem (payloadFields payload)) := by
  have hlen : (Bytes.ofString (Hex.encode payload)).length < twoTo 64 := by
    rw [Hex.length_encode, twoTo_succ, Nat.mul_comm]
    exact Nat.mul_lt_mul_of_pos_right h (by decide)
  rw [encodeOptions_eq]
  refine encodes_record (areFieldNames_payloadFields payload) (fun f hf => ?_)
    (show 1 < twoTo 64 by decide)
  rw [payloadFields, List.mem_singleton] at hf
  rw [hf]
  exact encodes_text hlen

theorem options?_payloadFields (payload : Bytes) :
    (recordItem (payloadFields payload)).options? depth = some payload := by
  have hfields := fields?_recordItem depth (areFieldNames_payloadFields payload)
  have htext : (Item.text (Hex.encode payload)).untagged.text? = some (Hex.encode payload) := rfl
  have hlookup : ((payloadFields payload).map fun f => (f.1, f.2.2)).reverse.lookup "payload"
      = some (.text (Hex.encode payload)) := rfl
  rw [Item.options?, show ["payload"] = (payloadFields payload).map Prod.fst from rfl, hfields]
  simp only [Option.bind_eq_bind, Option.bind_some, hlookup, htext, Hex.decode?_encode]

/-- An optional payload as bytes and as an item. -/
def writtenOptions : Option Bytes → Written
  | some payload => (encodeOptions payload, recordItem (payloadFields payload))
  | none => (Cbor.null, .null)

theorem encodes_options {o : Option Bytes} (h : ∀ payload ∈ o, payload.length < twoTo 63) :
    Encodes (depth + 1) (writtenOptions o).1 (writtenOptions o).2 := by
  cases o with
  | none => exact Cbor.encodes_null
  | some payload => exact encodes_encodeOptions (h payload rfl)

theorem optional?_writtenOptions (o : Option Bytes) :
    (writtenOptions o).2.optional? depth = some o := by
  cases o with
  | none => rfl
  | some payload =>
    show Item.optional? depth (recordItem (payloadFields payload)) = _
    rw [Item.optional?, options?_payloadFields]
    · rfl
    · exact fun h => nomatch h
    · exact fun h => nomatch h

/-! ### Positions -/

namespace Position

/-- A position whose vectors have denominations from `D` and whose payload can be written. -/
structure Over (D : Finset String) (p : Position) : Prop where
  snapshot : p.snapshot.Over D
  unclaimed : p.unclaimed.Over D
  options : ∀ payload ∈ p.options, payload.length < twoTo 63

/-- A position that can be written. -/
structure Storable (p : Position) : Prop where
  snapshot : p.snapshot.Storable
  unclaimed : p.unclaimed.Storable
  options : ∀ payload ∈ p.options, payload.length < twoTo 63

theorem Over.storable {p : Position} (hp : p.Over D) (hD : D.card < twoTo 64) : p.Storable :=
  ⟨hp.snapshot.storable hD, hp.unclaimed.storable hD, hp.options⟩

/-- What is read of a written position. -/
def readBack (p : Position) : Position := { p with shares := p.shares.readBack }

theorem readBack_of_not_negative {p : Position} (h : p.shares.negative = false) :
    p.readBack = p := by
  rw [readBack, Decimal.readBack_of_not_negative h]

/-- The fields of a position. -/
def fields (p : Position) : List (String × Written) :=
  [("num_shares", (p.shares.encode, .text p.shares.text)),
    ("accum_value_per_share", (p.snapshot.encode, p.snapshot.toItem)),
    ("unclaimed_rewards_total", (p.unclaimed.encode, p.unclaimed.toItem)),
    ("options", writtenOptions p.options)]

theorem encode_eq (p : Position) : p.encode = recordBytes p.fields := by
  cases h : p.options <;>
    simp [encode, recordBytes, fields, writtenOptions, h, List.append_assoc]

theorem names_fields (p : Position) : p.fields.map Prod.fst
    = ["num_shares", "accum_value_per_share", "unclaimed_rewards_total", "options"] := rfl

theorem areFieldNames (p : Position) : AreFieldNames (p.fields.map Prod.fst) := by
  rw [names_fields]
  exact ⟨by decide, by decide⟩

theorem encodes {p : Position} (hp : p.Storable) :
    Encodes (depth + 2) p.encode (recordItem p.fields) := by
  rw [encode_eq]
  refine encodes_record p.areFieldNames (fun f hf => ?_) (show 4 < twoTo 64 by decide)
  simp only [fields, List.mem_cons, List.not_mem_nil, or_false] at hf
  rcases hf with rfl | rfl | rfl | rfl
  · exact p.shares.encodes
  · exact Rewards.encodes hp.snapshot
  · exact Rewards.encodes hp.unclaimed
  · exact encodes_options hp.options

theorem position?_recordItem {p : Position} (hp : p.Storable) :
    (recordItem p.fields).position? = some p.readBack := by
  have hfields := fields?_recordItem Item.recordDepth p.areFieldNames
  have hfound {f : String × Written} (hf : f ∈ p.fields) := lookup_reverse p.areFieldNames hf
  have hshares := hfound (.head _)
  have hsnapshot := hfound (.tail _ (.head _))
  have hunclaimed := hfound (.tail _ (.tail _ (.head _)))
  have hoptions := hfound (.tail _ (.tail _ (.tail _ (.head _))))
  rw [names_fields] at hfields
  rw [Item.position?, hfields]
  simp only [Option.bind_eq_bind, Option.bind_some, hshares, hsnapshot, hunclaimed, hoptions,
    Option.getD_some, p.shares.decimal?_text, Rewards.rewards?_toItem hp.snapshot.toCanonical,
    Rewards.rewards?_toItem hp.unclaimed.toCanonical, optional?_writtenOptions, readBack,
    Option.pure_def]

/-- A written position is read back, whatever follows it. -/
theorem decode?_encode {p : Position} (hp : p.Storable) (t : Bytes) :
    decode? (p.encode ++ t) = some p.readBack := by
  rw [decode?, Cbor.item?_append (@encodes 254 p hp), Option.bind_some,
    position?_recordItem hp]

/-- What is stored of a position over `D`. -/
theorem decode?_encode_over {p : Position} (hp : p.Over D) (hD : D.card < twoTo 64) :
    decode? p.encode = some p.readBack := by
  have hread := Position.decode?_encode (hp.storable hD) []
  rwa [List.append_nil] at hread

end Position

/-! ### Totals -/

namespace Totals

/-- Totals that can be written. -/
def Storable (t : Totals) : Prop := t.valuePerShare.Storable

/-- What is read of written totals. -/
def readBack (t : Totals) : Totals := { t with totalShares := t.totalShares.readBack }

theorem readBack_readBack (t : Totals) : t.readBack.readBack = t.readBack := by
  rw [readBack, readBack, Decimal.readBack_readBack]

/-- Totals that are read in the same way have the same values. -/
theorem eq_of_readBack {t t' : Totals} (h : t.readBack = t'.readBack) :
    t.valuePerShare = t'.valuePerShare ∧ t.totalShares.toRat = t'.totalShares.toRat := by
  simp only [readBack, mk.injEq] at h
  refine ⟨h.1, ?_⟩
  rw [← t.totalShares.toRat_readBack, h.2, t'.totalShares.toRat_readBack]

/-- The fields of the totals of an accumulator. -/
def fields (t : Totals) : List (String × Written) :=
  [("value_per_share", (t.valuePerShare.encode, t.valuePerShare.toItem)),
    ("total_shares", (t.totalShares.encode, .text t.totalShares.text))]

theorem encode_eq (t : Totals) : t.encode = recordBytes t.fields := by
  simp [encode, recordBytes, fields, List.append_assoc]

theorem names_fields (t : Totals) :
    t.fields.map Prod.fst = ["value_per_share", "total_shares"] := rfl

theorem areFieldNames (t : Totals) : AreFieldNames (t.fields.map Prod.fst) := by
  rw [names_fields]
  exact ⟨by decide, by decide⟩

theorem encodes {t : Totals} (ht : t.Storable) :
    Encodes (depth + 2) t.encode (recordItem t.fields) := by
  rw [encode_eq]
  refine encodes_record t.areFieldNames (fun f hf => ?_) (show 2 < twoTo 64 by decide)
  simp only [fields, List.mem_cons, List.not_mem_nil, or_false] at hf
  rcases hf with rfl | rfl
  · exact Rewards.encodes ht
  · exact t.totalShares.encodes

theorem totals?_recordItem {t : Totals} (ht : t.Storable) :
    (recordItem t.fields).totals? = some t.readBack := by
  have hfields := fields?_recordItem Item.recordDepth t.areFieldNames
  have hvalue := lookup_reverse t.areFieldNames (.head _)
  have hshares := lookup_reverse t.areFieldNames (.tail _ (.head _))
  rw [names_fields] at hfields
  rw [Item.totals?, hfields]
  simp only [Option.bind_eq_bind, Option.bind_some, hvalue, hshares, t.totalShares.decimal?_text,
    Rewards.rewards?_toItem ht.toCanonical, readBack, Option.pure_def]

/-- Written totals are read back, whatever follows them. -/
theorem decode?_encode {t : Totals} (ht : t.Storable) (rest : Bytes) :
    decode? (t.encode ++ rest) = some t.readBack := by
  rw [decode?, Cbor.item?_append (@encodes 254 t ht), Option.bind_some,
    totals?_recordItem ht]

/-- What is stored of totals with a value per share over `D`. -/
theorem decode?_encode_over {t : Totals} (ht : t.valuePerShare.Over D) (hD : D.card < twoTo 64) :
    decode? t.encode = some t.readBack := by
  have hread := decode?_encode (t := t) (ht.storable hD) []
  rwa [List.append_nil] at hread

end Totals

/-! ### Payouts -/

namespace Payout

/-- A payout that can be written. -/
structure Storable (p : Payout) : Prop where
  paid : p.paid.Storable
  dust : p.dust.Storable

/-- The fields of a payout. -/
def fields (p : Payout) : List (String × Written) :=
  [("paid", (p.paid.encode, p.paid.toItem)), ("dust", (p.dust.encode, p.dust.toItem)),
    ("closed", (Cbor.bool p.closed, .bool p.closed))]

theorem encode_eq (p : Payout) : p.encode = recordBytes p.fields := by
  simp [encode, recordBytes, fields, List.append_assoc]

theorem names_fields (p : Payout) : p.fields.map Prod.fst = ["paid", "dust", "closed"] := rfl

theorem areFieldNames (p : Payout) : AreFieldNames (p.fields.map Prod.fst) := by
  rw [names_fields]
  exact ⟨by decide, by decide⟩

theorem encodes {p : Payout} (hp : p.Storable) :
    Encodes (depth + 2) p.encode (recordItem p.fields) := by
  rw [encode_eq]
  refine encodes_record p.areFieldNames (fun f hf => ?_) (show 3 < twoTo 64 by decide)
  simp only [fields, List.mem_cons, List.not_mem_nil, or_false] at hf
  rcases hf with rfl | rfl | rfl
  · exact Rewards.encodes hp.paid
  · exact Rewards.encodes hp.dust
  · exact Cbor.encodes_bool p.closed

theorem payout?_recordItem {p : Payout} (hp : p.Storable) :
    (recordItem p.fields).payout? = some p := by
  have hfields := fields?_recordItem Item.recordDepth p.areFieldNames
  have hpaid := lookup_reverse p.areFieldNames (.head _)
  have hdust := lookup_reverse p.areFieldNames (.tail _ (.head _))
  have hclosed := lookup_reverse p.areFieldNames (.tail _ (.tail _ (.head _)))
  have hbool : (Item.bool p.closed).bool? = some p.closed := rfl
  rw [names_fields] at hfields
  rw [Item.payout?, hfields]
  simp only [Option.bind_eq_bind, Option.bind_some, hpaid, hdust, hclosed, hbool,
    Rewards.rewards?_toItem hp.paid.toCanonical, Rewards.rewards?_toItem hp.dust.toCanonical,
    Option.pure_def]

end Payout

end Accrual
