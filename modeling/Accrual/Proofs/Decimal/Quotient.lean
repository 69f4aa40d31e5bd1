/-
Quotients of positive decimals.

A quotient is rounded to nearest at the largest scale at which its integer part fits the
mantissa.

* `quotientScale?_eq_some` — the scale is the largest one up to 28 that fits;
* `div?_cases` — the rounded quotient against the exact one; where rounding up reaches `2 ^ 96`,
  one digit is given up and the rest is rounded up again;
* `two_mul_div?_le` — it is at most half a unit of its own last place too large, and its product
  with the divisor at most 5 (`div?_mul_le`);
* `floor_mul_pow_le_div?` — digits that an exact quotient surely has are not rounded away;
* `sub?_ulp` — taking one unit off the last place is exact.
-/
import Mathlib.Data.Rat.Floor
import Mathlib.Algebra.Order.Floor.Semifield
import Accrual.Proofs.Decimal.Exact

namespace Accrual

namespace Decimal

theorem quotientScale?_eq_some {num den k s : ℕ} (h : quotientScale? num den k = some s) :
    s ≤ k ∧ num * tenTo s / den < bound ∧ (s = k ∨ bound ≤ num * tenTo (s + 1) / den) := by
  induction k with
  | zero =>
    unfold quotientScale? at h
    split at h
    · next hlt =>
      rw [Option.some.injEq] at h
      subst h
      exact ⟨Nat.le_refl 0, by rwa [tenTo_zero, Nat.mul_one], .inl rfl⟩
    · cases h
  | succ k ih =>
    unfold quotientScale? at h
    split at h
    · next hlt =>
      rw [Option.some.injEq] at h
      subst h
      exact ⟨Nat.le_refl _, hlt, .inl rfl⟩
    · next hge =>
      obtain ⟨hs, hlt, hmax⟩ := ih h
      refine ⟨by omega, hlt, .inr ?_⟩
      rcases hmax with rfl | hmax
      · omega
      · exact hmax

/-- The exact quotient of two positive decimals as a quotient of natural numbers. -/
theorem toRat_div_toRat {a b : Decimal} (ha : a.negative = false) (hb : b.negative = false) :
    a.toRat / b.toRat
      = ((a.mantissa * tenTo b.scale : ℕ) : ℚ) / ((b.mantissa * tenTo a.scale : ℕ) : ℚ) := by
  rw [toRat_of_nonneg ha, toRat_of_nonneg hb, div_div_div_eq]
  push_cast [cast_tenTo]
  rw [mul_comm ((10 : ℚ) ^ a.scale)]

/-- A quotient of natural numbers rounded to the nearest, against the exact one. -/
theorem two_mul_roundHalfEven_le_div (m : ℕ) {d : ℕ} (hd : 0 < d) :
    2 * ((roundHalfEven m d : ℕ) : ℚ) ≤ 2 * ((m : ℚ) / d) + 1 := by
  have hdq : (0 : ℚ) < d := by exact_mod_cast hd
  have hhalf := two_mul_roundHalfEven_le m hd
  have hscaled : 2 * ((roundHalfEven m d : ℕ) : ℚ) * d ≤ 2 * (m : ℚ) + d := by
    exact_mod_cast by linarith
  have hsum : 2 * ((m : ℚ) / d) + 1 = (2 * (m : ℚ) + d) / d := by
    field_simp
  rw [hsum, le_div_iff₀ hdq]
  exact hscaled

theorem div?_cases {a b c : Decimal} (ha : 0 < a.toRat) (hb : 0 < b.toRat)
    (h : a.div? b = some c) :
    c.negative = false ∧ ∃ s ≤ 28, (s = 28 ∨ limit (s + 1) ≤ a.toRat / b.toRat) ∧
      a.toRat / b.toRat < limit s ∧
      ((c.scale = s ∧ ⌊a.toRat / b.toRat * 10 ^ s⌋₊ ≤ c.mantissa ∧
          2 * (c.mantissa : ℚ) ≤ 2 * (a.toRat / b.toRat * 10 ^ s) + 1) ∨
        (c.scale + 1 = s ∧ (bound : ℚ) - 1 ≤ a.toRat / b.toRat * 10 ^ s ∧
          a.toRat / b.toRat ≤ c.toRat ∧ 10 * c.mantissa = bound + 4)) := by
  have hza : ¬ a.IsZero := fun hz => ha.ne' (isZero_iff.mp hz)
  have hzb : ¬ b.IsZero := fun hz => hb.ne' (isZero_iff.mp hz)
  have hna := not_negative_of_nonneg ha.le hza
  have hnb := not_negative_of_nonneg hb.le hzb
  rw [toRat_div_toRat hna hnb]
  unfold div? at h
  rw [if_neg hza] at h
  have hden : 0 < b.mantissa * tenTo a.scale :=
    Nat.mul_pos (Nat.pos_of_ne_zero hzb) (tenTo_pos a.scale)
  revert h
  generalize a.mantissa * tenTo b.scale = num
  generalize b.mantissa * tenTo a.scale = den at hden
  intro h
  have hdenq : (0 : ℚ) < den := by exact_mod_cast hden
  dsimp only at h
  split at h
  · cases h
  next s hs =>
  obtain ⟨hs28, hlt, hmax⟩ := quotientScale?_eq_some hs
  obtain ⟨hneg, hcases⟩ := settle?_eq_some h
  -- the digits at scale `k` of the exact quotient
  have hdigits (k : ℕ) : (num : ℚ) / den * 10 ^ k = ((num * tenTo k : ℕ) : ℚ) / den := by
    push_cast [cast_tenTo]
    ring
  have hbelow : (num : ℚ) / den * 10 ^ s < bound := by
    rw [hdigits, div_lt_iff₀ hdenq]
    exact_mod_cast (Nat.div_lt_iff_lt_mul hden).mp hlt
  have hnear := two_mul_roundHalfEven_le_div (num * tenTo s) hden
  rw [← hdigits] at hnear
  refine ⟨by rw [hneg, hna, hnb]; rfl, s, hs28, ?_, ?_, ?_⟩
  · refine hmax.imp_right fun hle => ?_
    rw [limit, div_le_iff₀ (by positivity), hdigits, le_div_iff₀ hdenq]
    exact_mod_cast (Nat.le_div_iff_mul_le hden).mp hle
  · rwa [limit, lt_div_iff₀ (by positivity)]
  · rcases hcases with ⟨-, hman, hscale⟩ | ⟨hge, hman, hscale⟩
    · refine .inl ⟨hscale, ?_, by rw [hman]; exact hnear⟩
      rw [hman, hdigits, Nat.floor_div_natCast, Nat.floor_natCast]
      exact div_le_roundHalfEven _ _
    · -- rounding up reached `2 ^ 96` itself
      have hle := roundHalfEven_le_succ (num * tenTo s) den
      have heq : roundHalfEven (num * tenTo s) den = bound := by omega
      have hman' : c.mantissa = 7922816251426433759354395034 := by rw [hman, heq]; decide
      refine .inr ⟨hscale, ?_, ?_, by rw [hman', bound]⟩
      · rw [heq] at hnear
        linarith
      · rw [toRat_of_nonneg (by rw [hneg, hna, hnb]; rfl), hman', le_div_iff₀ (by positivity)]
        rw [← hscale, pow_succ] at hbelow
        have : (bound : ℚ) ≤ 7922816251426433759354395034 * 10 := by norm_num [bound]
        push_cast
        linarith

/-- A quotient of zero is zero. -/
theorem eq_zero_of_div? {a b c : Decimal} (ha : a.toRat = 0) (h : a.div? b = some c) :
    c = zero := by
  rw [div?, if_pos (isZero_iff.mpr ha), Option.some.injEq] at h
  exact h.symm

theorem negative_div? {a b c : Decimal} (ha : 0 ≤ a.toRat) (hb : 0 < b.toRat)
    (h : a.div? b = some c) : c.negative = false := by
  rcases ha.eq_or_lt with h0 | hpos
  · rw [eq_zero_of_div? h0.symm h]
    rfl
  · exact (div?_cases hpos hb h).1

/-- A rounded quotient is above the exact one by at most half a unit of its last place. -/
theorem two_mul_div?_le {a b c : Decimal} (ha : 0 ≤ a.toRat) (hb : 0 < b.toRat)
    (h : a.div? b = some c) : 2 * c.toRat ≤ 2 * (a.toRat / b.toRat) + 1 / 10 ^ c.scale := by
  rcases ha.eq_or_lt with h0 | hpos
  · rw [eq_zero_of_div? h0.symm h, ← h0, toRat_zero]
    norm_num
  obtain ⟨hneg, s, -, -, -, hcases⟩ := div?_cases hpos hb h
  have hpow : (0 : ℚ) < 10 ^ c.scale := by positivity
  have hunits : 2 * (c.mantissa : ℚ) ≤ 2 * (a.toRat / b.toRat * 10 ^ c.scale) + 1 := by
    rcases hcases with ⟨hscale, -, hnear⟩ | ⟨hscale, hbig, -, hman⟩
    · rwa [hscale]
    · -- in units of one place more it is `2 ^ 96 + 4`
      have hman' : 10 * (c.mantissa : ℚ) = bound + 4 := by exact_mod_cast hman
      rw [← hscale, pow_succ] at hbig
      linarith
  rw [toRat_of_nonneg hneg, ← mul_div_assoc, div_le_iff₀ hpow, add_mul, one_div_mul_cancel hpow.ne',
    mul_assoc]
  exact hunits

/-- A quotient that lacks places, because its integer part is large, has a small divisor. -/
theorem divisor_le_of_div? {a b c : Decimal} (ha : 0 < a.toRat) (hb : 0 < b.toRat)
    (h : a.div? b = some c) : b.toRat ≤ 10 ^ (c.scale + 1) := by
  have hbound : (0 : ℚ) < bound - 1 := by norm_num [bound]
  -- an amount is below `2 ^ 96`, and so is a divisor that is not larger in units of some place
  have hdivisor {x : ℚ} {k : ℕ} (hx : bound - 1 ≤ x * 10 ^ k) (hle : a.toRat / b.toRat = x) :
      b.toRat ≤ 10 ^ k := by
    have hmul : (bound - 1) * b.toRat ≤ (bound - 1) * 10 ^ k :=
      calc (bound - 1) * b.toRat ≤ x * 10 ^ k * b.toRat := mul_le_mul_of_nonneg_right hx hb.le
        _ = a.toRat * 10 ^ k := by rw [← hle, mul_right_comm, div_mul_cancel₀ _ hb.ne']
        _ ≤ (bound - 1) * 10 ^ k :=
          mul_le_mul_of_nonneg_right a.toRat_le_bound_sub_one (by positivity)
    exact le_of_mul_le_mul_left hmul hbound
  obtain ⟨-, s, -, hmax, -, ⟨hscale, -, -⟩ | ⟨hscale, hbig, -, -⟩⟩ := div?_cases ha hb h
  · rw [hscale]
    rcases hmax with rfl | hmax
    · exact b.toRat_lt_bound.le.trans (by norm_num [bound])
    · rw [limit, div_le_iff₀ (by positivity)] at hmax
      exact hdivisor (by linarith) rfl
  · rw [hscale]
    exact hdivisor hbig rfl

/-- What a rounded quotient promises too much is at most 5. -/
theorem div?_mul_le {a b c : Decimal} (ha : 0 ≤ a.toRat) (hb : 0 < b.toRat)
    (h : a.div? b = some c) : c.toRat * b.toRat ≤ a.toRat + 5 := by
  rcases ha.eq_or_lt with h0 | hpos
  · rw [eq_zero_of_div? h0.symm h, ← h0, toRat_zero]
    norm_num
  have hhalf := mul_le_mul_of_nonneg_right (two_mul_div?_le ha hb h) hb.le
  have hunit : 1 / 10 ^ c.scale * b.toRat ≤ 10 := by
    rw [one_div_mul_eq_div, div_le_iff₀ (by positivity), ← pow_succ']
    exact divisor_le_of_div? hpos hb h
  rw [add_mul, mul_assoc, mul_assoc, div_mul_cancel₀ _ hb.ne'] at hhalf
  linarith

/-- Rounding to nearest does not fall below a number of fewer digits that the exact quotient
has reached. -/
theorem floor_mul_pow_le_div? {a b c : Decimal} (ha : 0 < a.toRat) (hb : 0 < b.toRat)
    (h : a.div? b = some c) {t : ℕ} (hlt : a.toRat / b.toRat < limit t) (ht : t ≤ 28) :
    (⌊a.toRat / b.toRat * 10 ^ t⌋₊ : ℚ) ≤ c.toRat * 10 ^ t := by
  obtain ⟨hneg, s, hs, hmax, -, hcases⟩ := div?_cases ha hb h
  have hx : 0 ≤ a.toRat / b.toRat := (div_pos ha hb).le
  have hts : t ≤ s := by
    rcases hmax with rfl | hmax
    · exact ht
    · by_contra hts
      have : limit t ≤ limit (s + 1) := by
        unfold limit
        exact div_le_div_of_nonneg_left (by positivity) (by positivity)
          (pow_le_pow_right₀ (by norm_num) (by omega))
      linarith
  obtain ⟨j, rfl⟩ := Nat.exists_eq_add_of_le hts
  rcases hcases with ⟨hscale, hfloor, -⟩ | ⟨-, -, hle, -⟩
  · have hmul : ⌊a.toRat / b.toRat * 10 ^ t⌋₊ * 10 ^ j ≤ c.mantissa := by
      refine le_trans (Nat.le_floor ?_) hfloor
      push_cast
      rw [pow_add, ← mul_assoc]
      exact mul_le_mul_of_nonneg_right (Nat.floor_le (by positivity)) (by positivity)
    have hcut : (c.mantissa : ℚ) / 10 ^ (t + j) * 10 ^ t = c.mantissa / 10 ^ j := by
      rw [pow_add]
      field_simp
    rw [toRat_of_nonneg hneg, hscale, hcut, le_div_iff₀ (by positivity)]
    exact_mod_cast hmul
  · exact le_trans (Nat.floor_le (by positivity))
      (mul_le_mul_of_nonneg_right hle (by positivity))

/-- What is lost by cutting off a quotient is less than a unit of the last place that is kept. -/
theorem lt_floor_div? {a b c : Decimal} (ha : 0 ≤ a.toRat) (hb : 0 < b.toRat)
    (h : a.div? b = some c) {t : ℕ} (hlt : a.toRat / b.toRat < limit t) (ht : t ≤ 28) :
    a.toRat < ((⌊c.toRat * 10 ^ t⌋₊ : ℚ) / 10 ^ t + 1 / 10 ^ t) * b.toRat := by
  rcases ha.eq_or_lt with h0 | hpos
  · rw [← h0]
    positivity
  have hfloor : ⌊a.toRat / b.toRat * 10 ^ t⌋₊ ≤ ⌊c.toRat * 10 ^ t⌋₊ :=
    Nat.le_floor (floor_mul_pow_le_div? hpos hb h hlt ht)
  have hfloorq : (⌊a.toRat / b.toRat * 10 ^ t⌋₊ : ℚ) ≤ ⌊c.toRat * 10 ^ t⌋₊ := by
    exact_mod_cast hfloor
  have hnext := Nat.lt_floor_add_one (a.toRat / b.toRat * 10 ^ t)
  rw [← add_div, div_mul_eq_mul_div, lt_div_iff₀ (by positivity), ← div_lt_iff₀ hb,
    mul_div_right_comm]
  linarith

/-! ### One unit in the last place -/

/-- A number with one unit less in the last place. -/
def lowered (a : Decimal) : Decimal :=
  { a with
    mantissa := a.mantissa - 1
    mantissa_lt := Nat.lt_of_le_of_lt (Nat.sub_le ..) a.mantissa_lt }

theorem toRat_lowered {a : Decimal} (hneg : a.negative = false) (hz : ¬ a.IsZero) :
    a.toRat = a.lowered.toRat + 1 / 10 ^ a.scale := by
  rw [toRat_of_nonneg hneg, toRat_of_nonneg (show a.lowered.negative = false from hneg)]
  show (a.mantissa : ℚ) / 10 ^ a.scale
    = ((a.mantissa - 1 : ℕ) : ℚ) / 10 ^ a.scale + 1 / 10 ^ a.scale
  rw [← add_div, ← Nat.cast_add_one, Nat.sub_add_cancel (Nat.pos_of_ne_zero hz)]

theorem sub?_ulp {a : Decimal} (hneg : a.negative = false) (hz : ¬ a.IsZero) :
    a.sub? a.ulp = some a.lowered := by
  have hpos : 0 < a.mantissa := Nat.pos_of_ne_zero hz
  have hulp : ¬ a.ulp.IsZero := Nat.one_ne_zero
  have hnulp : ¬ a.ulp.neg.IsZero := Nat.one_ne_zero
  have hs : max a.scale a.ulp.neg.scale = a.scale := max_self a.scale
  have hn : a.signed * tenTo (a.scale - a.scale)
      + a.ulp.neg.signed * tenTo (a.scale - a.ulp.neg.scale) = ((a.mantissa - 1 : ℕ) : ℤ) := by
    show a.signed * tenTo (a.scale - a.scale) + -((1 : ℕ) : ℤ) * tenTo (a.scale - a.scale) = _
    rw [Nat.sub_self, tenTo_zero, signed, hneg]
    simp only [Bool.false_eq_true, if_false]
    omega
  rw [sub?, if_neg hulp, add?, if_neg hz, if_neg hnulp]
  simp only [hs, hn]
  have hlt : a.mantissa - 1 < bound := Nat.lt_of_le_of_lt (Nat.sub_le ..) a.mantissa_lt
  have hk : max (a.scale - 28) (excess (a.mantissa - 1)) = 0 := by
    have := (excess_le_iff (m := a.mantissa - 1) 0).mpr (by rwa [tenTo_zero, Nat.mul_one])
    have := a.scale_le
    omega
  rw [fit?, Int.natAbs_natCast]
  simp only [hk]
  rw [if_pos (Nat.zero_le _), tenTo_zero, roundHalfEven_of_dvd Nat.one_pos (one_dvd _),
    Nat.div_one, Nat.sub_zero, settle?_of_lt hlt a.scale_le]
  have : decide (((a.mantissa - 1 : ℕ) : ℤ) < 0) = a.negative := by
    rw [hneg, decide_eq_false_iff_not]
    omega
  rw [this]
  rfl

end Decimal

end Accrual
