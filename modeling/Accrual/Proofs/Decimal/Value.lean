/-
Decimals as rational numbers.

`Decimal.toRat` forgets the scale and the sign of zero and keeps the number.  Everything the
ledger decides about decimals is decided on that number:

* `Decimal.lt_iff`, `Decimal.le_iff` — the order is the order of the values;
* `Decimal.isZero_iff` — a decimal is zero when its value is;
* `Decimal.toRat_normalize`, `Decimal.toRat_neg` — what the operations that do not round do to it.

A value is *representable* at scale `s` when it is a mantissa over `10 ^ s` (`Decimal.Fits`), and
a multiple of the unit of that scale when the mantissa may be any integer (`Decimal.IsMultiple`).
-/
import Mathlib.Data.Rat.Cast.Order
import Mathlib.Tactic.FieldSimp
import Mathlib.Tactic.Linarith
import Mathlib.Tactic.NormNum
import Mathlib.Tactic.Positivity
import Mathlib.Tactic.Ring
import Accrual.Decimal.Arithmetic

namespace Accrual

theorem tenTo_eq (n : ℕ) : tenTo n = 10 ^ n := rfl

theorem cast_tenTo (n : ℕ) : ((tenTo n : ℕ) : ℚ) = 10 ^ n := by
  rw [tenTo_eq]; push_cast; rfl

namespace Decimal

theorem toRat_eq (a : Decimal) : a.toRat = a.signed / 10 ^ a.scale := by
  rw [toRat, Rat.mkRat_eq_div, cast_tenTo]

theorem toRat_of_nonneg {a : Decimal} (h : a.negative = false) :
    a.toRat = a.mantissa / 10 ^ a.scale := by
  rw [toRat_eq, signed, h]
  simp

@[simp] theorem toRat_zero : zero.toRat = 0 := by
  rw [toRat_eq]; simp [signed, zero]

theorem signed_neg (a : Decimal) : a.neg.signed = -a.signed := by
  cases h : a.negative <;> simp [signed, neg, h]

@[simp] theorem toRat_neg (a : Decimal) : a.neg.toRat = -a.toRat := by
  rw [toRat_eq, toRat_eq, signed_neg, show a.neg.scale = a.scale from rfl]
  push_cast
  ring

/-! ### Order -/

theorem lt_iff {a b : Decimal} : a < b ↔ a.toRat < b.toRat := by
  rw [toRat_eq, toRat_eq, div_lt_div_iff₀ (by positivity) (by positivity),
    ← cast_tenTo, ← cast_tenTo]
  exact_mod_cast Iff.rfl

theorem le_iff {a b : Decimal} : a ≤ b ↔ a.toRat ≤ b.toRat := by
  rw [toRat_eq, toRat_eq, div_le_div_iff₀ (by positivity) (by positivity),
    ← cast_tenTo, ← cast_tenTo]
  exact_mod_cast Iff.rfl

theorem natAbs_signed (a : Decimal) : a.signed.natAbs = a.mantissa := by
  cases h : a.negative <;> simp [signed, h]

theorem isZero_iff {a : Decimal} : a.IsZero ↔ a.toRat = 0 := by
  rw [toRat_eq, div_eq_zero_iff, or_iff_left (by positivity), Int.cast_eq_zero,
    ← Int.natAbs_eq_zero, natAbs_signed]
  exact Iff.rfl

theorem nonneg_of_not_negative {a : Decimal} (h : a.negative = false) : 0 ≤ a.toRat := by
  rw [toRat_of_nonneg h]; positivity

theorem not_negative_of_nonneg {a : Decimal} (h0 : 0 ≤ a.toRat) (hz : ¬ a.IsZero) :
    a.negative = false := by
  by_contra hneg
  have hpos : (0 : ℚ) < a.mantissa := by exact_mod_cast Nat.pos_of_ne_zero hz
  have hval : a.toRat = -a.mantissa / 10 ^ a.scale := by
    rw [toRat_eq, signed, if_pos (by simpa using hneg)]
    push_cast
    rfl
  have : a.toRat < 0 := by
    rw [hval]
    exact div_neg_of_neg_of_pos (neg_lt_zero.mpr hpos) (by positivity)
  exact absurd h0 (not_le.mpr this)

theorem abs_toRat (a : Decimal) : |a.toRat| = a.mantissa / 10 ^ a.scale := by
  rw [toRat_eq, abs_div, abs_of_pos (show (0 : ℚ) < 10 ^ a.scale by positivity),
    ← natAbs_signed, Nat.cast_natAbs, Int.cast_abs]

/-! ### Trailing zeros -/

theorem dropZeros_mul (m s : ℕ) :
    (dropZeros m s).1 * tenTo s = m * tenTo (dropZeros m s).2 := by
  induction s generalizing m with
  | zero => rfl
  | succ s ih =>
    unfold dropZeros
    split
    · next h =>
      rw [tenTo_succ, ← mul_assoc, ih (m / 10), mul_right_comm, Nat.div_mul_cancel
        (Nat.dvd_of_mod_eq_zero h)]
    · rfl

@[simp] theorem toRat_normalize (a : Decimal) : a.normalize.toRat = a.toRat := by
  unfold normalize
  split
  · next h => rw [toRat_zero, isZero_iff.mp h]
  · have hmul := dropZeros_mul a.mantissa a.scale
    have hq : ((dropZeros a.mantissa a.scale).1 : ℚ) * 10 ^ a.scale
        = a.mantissa * 10 ^ (dropZeros a.mantissa a.scale).2 := by
      rw [← cast_tenTo, ← cast_tenTo]; exact_mod_cast hmul
    have habs : ((dropZeros a.mantissa a.scale).1 : ℚ) / 10 ^ (dropZeros a.mantissa a.scale).2
        = a.mantissa / 10 ^ a.scale := by
      rw [div_eq_div_iff (by positivity) (by positivity), hq]
    cases hn : a.negative <;> simp only [toRat_eq, signed, hn] <;> push_cast
    · exact habs
    · simpa [neg_div] using habs

/-! ### Multiples of a unit -/

/-- `x` is a whole number of units `1 / 10 ^ s`. -/
def IsMultiple (s : ℕ) (x : ℚ) : Prop := ∃ n : ℤ, x = n / 10 ^ s

/-- `x` is the value of an unsigned mantissa at scale `s`. -/
def Fits (s : ℕ) (x : ℚ) : Prop := ∃ n : ℕ, n < bound ∧ x = n / 10 ^ s

/-- The least number of scale `s` that is too large for a mantissa. -/
def limit (s : ℕ) : ℚ := bound / 10 ^ s

theorem Fits.nonneg {s : ℕ} {x : ℚ} (h : Fits s x) : 0 ≤ x := by
  obtain ⟨n, -, hx⟩ := h
  rw [hx]; positivity

theorem Fits.lt_limit {s : ℕ} {x : ℚ} (h : Fits s x) : x < limit s := by
  obtain ⟨n, hn, hx⟩ := h
  rw [hx, limit, div_lt_div_iff_of_pos_right (by positivity)]
  exact_mod_cast hn

theorem IsMultiple.fits {s : ℕ} {x : ℚ} (h : IsMultiple s x) (h0 : 0 ≤ x) (hl : x < limit s) :
    Fits s x := by
  obtain ⟨n, hx⟩ := h
  have hpos : (0 : ℚ) < 10 ^ s := by positivity
  have hn : 0 ≤ n := by
    rw [hx, le_div_iff₀ hpos, zero_mul] at h0
    exact_mod_cast h0
  obtain ⟨m, rfl⟩ := Int.eq_ofNat_of_zero_le hn
  refine ⟨m, ?_, by rw [hx]; push_cast; rfl⟩
  rw [hx, limit, div_lt_div_iff_of_pos_right hpos] at hl
  exact_mod_cast hl

theorem isMultiple_zero (s : ℕ) : IsMultiple s 0 := ⟨0, by simp⟩

theorem IsMultiple.add {s : ℕ} {x y : ℚ} (hx : IsMultiple s x) (hy : IsMultiple s y) :
    IsMultiple s (x + y) := by
  obtain ⟨m, rfl⟩ := hx
  obtain ⟨n, rfl⟩ := hy
  exact ⟨m + n, by push_cast; ring⟩

theorem IsMultiple.neg {s : ℕ} {x : ℚ} (hx : IsMultiple s x) : IsMultiple s (-x) := by
  obtain ⟨m, rfl⟩ := hx
  exact ⟨-m, by push_cast; ring⟩

theorem IsMultiple.sub {s : ℕ} {x y : ℚ} (hx : IsMultiple s x) (hy : IsMultiple s y) :
    IsMultiple s (x - y) := sub_eq_add_neg x y ▸ hx.add hy.neg

theorem IsMultiple.mul {s t : ℕ} {x y : ℚ} (hx : IsMultiple s x) (hy : IsMultiple t y) :
    IsMultiple (s + t) (x * y) := by
  obtain ⟨m, rfl⟩ := hx
  obtain ⟨n, rfl⟩ := hy
  exact ⟨m * n, by push_cast; rw [pow_add, div_mul_div_comm]⟩

theorem IsMultiple.mono {s t : ℕ} {x : ℚ} (hx : IsMultiple s x) (h : s ≤ t) :
    IsMultiple t x := by
  obtain ⟨m, rfl⟩ := hx
  obtain ⟨j, rfl⟩ := Nat.exists_eq_add_of_le h
  refine ⟨m * 10 ^ j, ?_⟩
  push_cast
  rw [pow_add, mul_div_mul_right _ _ (by positivity)]

/-- The value of a decimal is a multiple of the unit of its own scale. -/
theorem isMultiple_toRat (a : Decimal) : IsMultiple a.scale a.toRat := ⟨a.signed, toRat_eq a⟩

/-- A decimal that is not negative is representable at its own scale. -/
theorem fits_toRat {a : Decimal} (h : 0 ≤ a.toRat) : Fits a.scale a.toRat :=
  ⟨a.mantissa, a.mantissa_lt, by rw [← abs_toRat, abs_of_nonneg h]⟩

/-- A number that is not negative by its mantissa and scale, zero when they are out of bounds. -/
def ofPartsD (mantissa scale : ℕ) : Decimal := (ofParts? false mantissa scale).getD zero

theorem isMultiple_ofPartsD (m s : ℕ) : IsMultiple s (ofPartsD m s).toRat := by
  rw [ofPartsD, ofParts?]
  split
  · exact isMultiple_toRat _
  · rw [Option.getD_none, toRat_zero]
    exact isMultiple_zero s

theorem toRat_lt_bound (a : Decimal) : a.toRat < bound := by
  have hle : (a.mantissa : ℚ) / 10 ^ a.scale ≤ a.mantissa :=
    div_le_self (by positivity) (one_le_pow₀ (by norm_num))
  have hlt : (a.mantissa : ℚ) < bound := by exact_mod_cast a.mantissa_lt
  linarith [le_abs_self a.toRat, abs_toRat a]

theorem toRat_lt_limit_zero (a : Decimal) : a.toRat < limit 0 := by
  rw [limit, pow_zero, div_one]
  exact a.toRat_lt_bound

end Decimal

end Accrual
