/-
Rewards that can arise, and their one form.

* `Denom.Matches` — the form of a denomination in full: a letter, and then 2 to 127 letters, digits
  and marks; `Denom.isValid_iff` says that exactly this is checked;
* `Rewards.Produced` — rewards that were collected from pairs, read from bytes or from text, or
  computed from such rewards, by any number of operations;
* `Produced.canonical` — all of them are canonical, whatever was read;
* `produced_have_one_form` — where their amounts agree as numbers, so do their bytes.

Design notes.  An item of bytes or a value of text stands for rewards in whatever place it was
found, alone or inside a record, so `Produced` speaks of all items and values.  The theorems
`produced_of_decode` and those after it name the places.
-/
import Accrual.Proofs.Record
import Accrual.Proofs.Rewards.Division
import Accrual.Proofs.Rewards.Parts
import Accrual.Record.Json

namespace Accrual

/-! ### The form of a denomination -/

namespace Denom

/-- A character from `a` to `z` or from `A` to `Z`. -/
def IsLetter (c : Char) : Prop := ('a' ≤ c ∧ c ≤ 'z') ∨ ('A' ≤ c ∧ c ≤ 'Z')

/-- A letter, and then 2 to 127 characters that are letters, digits or marks. -/
def Matches (d : String) : Prop :=
  ∃ first rest, d.toList = first :: rest ∧ IsLetter first ∧ 2 ≤ rest.length ∧ rest.length ≤ 127 ∧
    ∀ c ∈ rest, IsLetter c ∨ ('0' ≤ c ∧ c ≤ '9') ∨ c ∈ ['/', ':', '.', '_', '-']

theorem isAlpha_iff {c : Char} : c.isAlpha = true ↔ IsLetter c := by
  have hupper : c.isUpper = true ↔ 'A' ≤ c ∧ c ≤ 'Z' := decide_eq_true_iff
  have hlower : c.isLower = true ↔ 'a' ≤ c ∧ c ≤ 'z' :=
    Bool.and_eq_true_iff.trans (and_congr decide_eq_true_iff decide_eq_true_iff)
  have halpha : c.isAlpha = true ↔ c.isUpper = true ∨ c.isLower = true := Bool.or_eq_true_iff
  rw [halpha, hupper, hlower, IsLetter, or_comm]

theorem isFollower_iff {c : Char} : isFollower c = true ↔
    IsLetter c ∨ ('0' ≤ c ∧ c ≤ '9') ∨ c ∈ ['/', ':', '.', '_', '-'] := by
  have hdigit : c.isDigit = true ↔ '0' ≤ c ∧ c ≤ '9' := by
    simp only [Char.isDigit, decide_eq_true_eq, Bool.and_eq_true, Char.le_def]
  have hmark : isMark c = true ↔ c ∈ ['/', ':', '.', '_', '-'] := by
    simp [isMark, or_assoc]
  rw [isFollower, Bool.or_eq_true, Char.isAlphanum, Bool.or_eq_true, isAlpha_iff, hdigit, hmark,
    or_assoc]

theorem isFollower_of_isAlpha {c : Char} (h : c.isAlpha = true) : isFollower c = true := by
  rw [isFollower, Char.isAlphanum, h]
  rfl

/-- The characters of a denomination take one byte each. -/
theorem utf8Size_of_isFollower {c : Char} (h : isFollower c = true) : c.utf8Size = 1 := by
  have hsmall : c.val.toNat ≤ 127 := by
    rw [isFollower_iff] at h
    simp only [IsLetter, Char.le_def, UInt32.le_iff_toNat_le] at h
    rcases h with (⟨-, h⟩ | ⟨-, h⟩) | ⟨-, h⟩ | h
    · exact h.trans (by decide)
    · exact h.trans (by decide)
    · exact h.trans (by decide)
    · simp only [List.mem_cons, List.not_mem_nil, or_false] at h
      rcases h with rfl | rfl | rfl | rfl | rfl <;> decide
  exact if_pos (UInt32.le_iff_toNat_le.mpr hsmall)

theorem utf8ByteSize_eq {d : String} (h : ∀ c ∈ d.toList, isFollower c = true) :
    d.utf8ByteSize = d.toList.length := by
  have hsize : d.utf8ByteSize = (d.toList.map Char.utf8Size).sum := by
    rw [← Bytes.length_ofString_ofList, String.ofList_toList, ← String.size_toByteArray]
    rfl
  have hones : d.toList.map Char.utf8Size = List.replicate d.toList.length 1 := by
    rw [List.eq_replicate_iff]
    exact ⟨List.length_map .., List.forall_mem_map.mpr fun c hc => utf8Size_of_isFollower (h c hc)⟩
  rw [hsize, hones, List.sum_replicate_nat, Nat.mul_one]

theorem isValid_iff {d : String} : isValid d = true ↔ Matches d := by
  rw [isValid, Bool.and_eq_true, Bool.and_eq_true, decide_eq_true_eq, decide_eq_true_eq, Matches]
  cases hchars : d.toList with
  | nil => simp [isSpelled]
  | cons first rest =>
    simp only [isSpelled, Bool.and_eq_true, List.all_eq_true, List.cons.injEq]
    have hsize (hfirst : first.isAlpha = true) (hrest : ∀ c ∈ rest, isFollower c = true) :
        d.utf8ByteSize = rest.length + 1 := by
      rw [utf8ByteSize_eq, hchars, List.length_cons]
      rw [hchars]
      exact List.forall_mem_cons.mpr ⟨isFollower_of_isAlpha hfirst, hrest⟩
    constructor
    · rintro ⟨⟨hmin, hmax⟩, hfirst, hrest⟩
      rw [hsize hfirst hrest] at hmin hmax
      exact ⟨first, rest, ⟨rfl, rfl⟩, isAlpha_iff.mp hfirst, by omega, by omega,
        fun c hc => isFollower_iff.mp (hrest c hc)⟩
    · rintro ⟨_, _, ⟨rfl, rfl⟩, hfirst, hmin, hmax, hrest⟩
      rw [← isAlpha_iff] at hfirst
      have hrest' : ∀ c ∈ rest, isFollower c = true := fun c hc => isFollower_iff.mpr (hrest c hc)
      rw [hsize hfirst hrest']
      exact ⟨⟨by omega, by omega⟩, hfirst, hrest'⟩

end Denom

namespace Rewards

variable {r s : Rewards}

/-! ### What is collected or read is canonical -/

theorem canonical_deposit (hr : r.Canonical) {d : String} {a : Decimal} {out : Rewards}
    (h : r.deposit d a = .ok out) : out.Canonical := by
  unfold deposit at h
  split at h
  · cases h
  split at h
  · cases h
  rename_i hvalid hneg
  rw [Decimal.lt_iff, Decimal.toRat_zero] at hneg
  split at h
  · cases h
  rename_i sum hsum
  cases h
  have hd : Denom.isValid d = true := by simpa using hvalid
  have hnonneg : 0 ≤ sum.toRat := by
    have hold := hr.value_nonneg d
    rw [value] at hold
    rw [← not_lt, Decimal.add?_lt_zero_iff hsum]
    linarith
  have hover := hr.over.mono (Finset.subset_insert d r.denoms)
  exact (hover.put (Finset.mem_insert_self d r.denoms) hd hnonneg).toCanonical

theorem canonical_foldlM_deposit {pairs : List (String × Decimal)} {out : Rewards}
    (hr : r.Canonical) (h : pairs.foldlM (fun r p => r.deposit p.1 p.2) r = .ok out) :
    out.Canonical := by
  induction pairs generalizing r with
  | nil =>
    cases h
    exact hr
  | cons p pairs ih =>
    rw [List.foldlM_cons] at h
    cases hp : r.deposit p.1 p.2 with
    | error e =>
      rw [hp] at h
      cases h
    | ok next =>
      rw [hp] at h
      exact ih (canonical_deposit hr hp) h

theorem canonical_ofPairs {pairs : List (String × Decimal)} (h : ofPairs pairs = .ok r) :
    r.Canonical :=
  canonical_foldlM_deposit (over_empty (D := ∅)).toCanonical h

theorem canonical_of_toOption {pairs : List (String × Decimal)}
    (h : (ofPairs pairs).toOption = some r) : r.Canonical := by
  cases hpairs : ofPairs pairs with
  | error e =>
    rw [hpairs] at h
    cases h
  | ok out =>
    rw [hpairs] at h
    cases h
    exact canonical_ofPairs hpairs

/-- Whatever map the bytes held, it went through `ofPairs`. -/
theorem canonical_of_item {item : Cbor.Item} (h : item.rewards? = some r) : r.Canonical := by
  unfold Cbor.Item.rewards? at h
  split at h
  · rw [Option.bind_eq_bind, Option.bind_eq_some_iff] at h
    obtain ⟨amounts, -, hcollect⟩ := h
    exact canonical_of_toOption hcollect
  · cases h

theorem canonical_of_value {v : Json.Value} (h : v.rewards? = some r) : r.Canonical := by
  unfold Json.Value.rewards? at h
  split at h
  · rw [Option.bind_eq_bind, Option.bind_eq_some_iff] at h
    obtain ⟨amounts, -, hcollect⟩ := h
    exact canonical_of_toOption hcollect
  · cases h

/-! ### Everything that can arise -/

/-- Rewards that were collected, read or computed. -/
inductive Produced : Rewards → Prop
  | ofPairs {pairs : List (String × Decimal)} {r : Rewards} (h : ofPairs pairs = .ok r) : Produced r
  | single {d : String} {a : Decimal} {r : Rewards} (h : single d a = .ok r) : Produced r
  | add {r s out : Rewards} (hr : Produced r) (hs : Produced s) (h : r.add s = .ok out) :
      Produced out
  | sub {r s out : Rewards} (hr : Produced r) (hs : Produced s) (h : r.sub s = .ok out) :
      Produced out
  | scale {r out : Rewards} {factor : Decimal} (hr : Produced r)
      (h : r.scale factor = .ok out) : Produced out
  | divide {r out : Rewards} {divisor : Decimal} (hr : Produced r)
      (h : r.divide divisor = .ok out) : Produced out
  | divideDown {r out : Rewards} {divisor : Decimal} (hr : Produced r)
      (h : r.divideDown divisor = .ok out) : Produced out
  | whole {r : Rewards} (hr : Produced r) : Produced r.whole
  | dust {r : Rewards} (hr : Produced r) : Produced r.dust
  /-- Read from an item, which may stand in any bytes. -/
  | item {item : Cbor.Item} {r : Rewards} (h : item.rewards? = some r) : Produced r
  /-- Read from a value, which may stand in any text. -/
  | value {v : Json.Value} {r : Rewards} (h : v.rewards? = some r) : Produced r

theorem Produced.canonical (h : Produced r) : r.Canonical := by
  induction h with
  | ofPairs h => exact canonical_ofPairs h
  | single h => exact canonical_ofPairs h
  | add _ _ h hr hs => exact hr.add hs h
  | sub _ _ h hr hs =>
    obtain ⟨D, hr, hs⟩ := hr.exists_over hs
    exact (hr.sub hs h).toCanonical
  | scale _ h hr => exact (hr.over.scale h).toCanonical
  | divide _ h hr => exact (hr.over.divide h).toCanonical
  | divideDown _ h hr => exact (hr.over.divideDown h).toCanonical
  | whole _ hr => exact (whole_exact hr.over).1.toCanonical
  | dust _ hr => exact (dust_exact hr.over).1.toCanonical
  | item h => exact canonical_of_item h
  | value h => exact canonical_of_value h

/-! ### Where rewards are read -/

theorem produced_of_decode {b : Bytes} (h : decode? b = some r) : Produced r := by
  obtain ⟨read, -, h⟩ := Option.bind_eq_some_iff.mp h
  exact .item h

theorem produced_of_totals {b : Bytes} {t : Totals} (h : Totals.decode? b = some t) :
    Produced t.valuePerShare := by
  obtain ⟨read, -, h⟩ := Option.bind_eq_some_iff.mp h
  simp only [Cbor.Item.totals?, Option.bind_eq_bind, Option.bind_eq_some_iff] at h
  obtain ⟨_, -, _, -, value, hvalue, _, -, _, -, h⟩ := h
  cases h
  exact .item hvalue

theorem produced_of_position {b : Bytes} {p : Position} (h : Position.decode? b = some p) :
    Produced p.snapshot ∧ Produced p.unclaimed := by
  obtain ⟨read, -, h⟩ := Option.bind_eq_some_iff.mp h
  simp only [Cbor.Item.position?, Option.bind_eq_bind, Option.bind_eq_some_iff] at h
  obtain ⟨_, -, _, -, _, -, _, -, snapshot, hsnapshot, _, -, unclaimed, hunclaimed, _, -, h⟩ := h
  cases h
  exact ⟨.item hsnapshot, .item hunclaimed⟩

theorem produced_of_payout {b : Bytes} {p : Payout} (h : Payout.decode? b = some p) :
    Produced p.paid ∧ Produced p.dust := by
  obtain ⟨read, -, h⟩ := Option.bind_eq_some_iff.mp h
  simp only [Cbor.Item.payout?, Option.bind_eq_bind, Option.bind_eq_some_iff] at h
  obtain ⟨_, -, _, -, paid, hpaid, _, -, dust, hdust, _, -, _, -, h⟩ := h
  cases h
  exact ⟨.item hpaid, .item hdust⟩

theorem produced_of_jsonPosition {v : Json.Value} {p : Position} (h : v.position? = some p) :
    Produced p.snapshot ∧ Produced p.unclaimed := by
  simp only [Json.Value.position?, Option.bind_eq_bind, Option.bind_eq_some_iff] at h
  obtain ⟨_, -, _, -, _, -, _, -, snapshot, hsnapshot, _, -, unclaimed, hunclaimed, _, -, h⟩ := h
  cases h
  exact ⟨.value hsnapshot, .value hunclaimed⟩

theorem produced_of_jsonPayout {v : Json.Value} {p : Payout} (h : v.payout? = some p) :
    Produced p.paid ∧ Produced p.dust := by
  simp only [Json.Value.payout?, Option.bind_eq_bind, Option.bind_eq_some_iff] at h
  obtain ⟨_, -, _, -, paid, hpaid, _, -, dust, hdust, _, -, _, -, h⟩ := h
  cases h
  exact ⟨.value hpaid, .value hdust⟩

/-! ### One form for equal amounts -/

/-- Rewards that can arise list denominations of the full form in ascending order, each once, with
positive amounts that have no trailing fractional zero.  If two of them have the same amount of
every denomination, as numbers, they are the same, and so are their bytes. -/
theorem produced_have_one_form (hr : Produced r) (hs : Produced s) :
    r.components.Pairwise (fun c c' => c.1 < c'.1) ∧
      (∀ c ∈ r.components, Denom.Matches c.1) ∧
      (∀ c ∈ r.components,
        0 < c.2.toRat ∧ (c.2.scale = 0 ∨ c.2.mantissa % 10 ≠ 0)) ∧
      ((∀ d, (r.amount d).toRat = (s.amount d).toRat) → r = s ∧ r.encode = s.encode) := by
  have hcanonical := hr.canonical
  refine ⟨hcanonical.ascending, fun c hc => Denom.isValid_iff.mp (hcanonical.valid c hc),
    fun c hc => ?_, fun hvalues => ?_⟩
  · have hstored := hcanonical.stored c hc
    exact ⟨hstored.toRat_pos, hstored.2.2⟩
  · have heq : r = s := hcanonical.ext hs.canonical hvalues
    exact ⟨heq, by rw [heq]⟩

/-- The map that gives the text `5.0` for the denomination `uusdc`. -/
def fiveOnWire : Bytes := [0xa1, 0x65, 117, 117, 115, 100, 99, 0x63, 53, 46, 48]

/-- Twice `2.50`, and `5.0` read from bytes, are written `5`. -/
theorem produced_have_one_form_five :
    ∃ half r s, single "uusdc" (.ofPartsD 250 2) = .ok half ∧ half.add half = .ok r ∧
      decode? fiveOnWire = some s ∧ r = s ∧
      r.encode = [0xa1, 0x65, 117, 117, 115, 100, 99, 0x61, 53] := by
  have hhalf : single "uusdc" (.ofPartsD 250 2)
      = .ok ⟨[("uusdc", .ofPartsD 25 1)]⟩ := by decide +kernel
  have hsum : (Rewards.mk [("uusdc", .ofPartsD 25 1)]).add ⟨[("uusdc", .ofPartsD 25 1)]⟩
      = .ok ⟨[("uusdc", .ofPartsD 5 0)]⟩ := by decide +kernel
  have hread : decode? fiveOnWire = some ⟨[("uusdc", .ofPartsD 5 0)]⟩ := by decide +kernel
  have hform := produced_have_one_form ((Produced.single hhalf).add (.single hhalf) hsum)
    (produced_of_decode hread)
  obtain ⟨-, -, -, hsame⟩ := hform
  exact ⟨_, _, _, hhalf, hsum, hread, (hsame fun _ => rfl).1, by decide +kernel⟩

end Rewards

end Accrual
