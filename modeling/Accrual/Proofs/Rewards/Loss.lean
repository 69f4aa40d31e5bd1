/-
What is lost by dividing rewards among shares.

Cutting off after 18 places loses less than a unit of the 18th place for each share.  Lowering may
lose more, because its unit is that of the quotient without trailing zeros: a quotient that was
rounded up to few digits is lowered by a coarse unit.

* `RoundsUpCoarsely` — an amount whose quotient is rounded up to fewer than 18 places, too far for
  its product;
* `loss_lt_iff` — less than a unit of the 18th place is lost for each share, except for these;
* `not_roundsUpCoarsely` — among whole shares up to `10 ^ 10` no whole amount is one, because
  `10 ^ 17` times the error of such a rounding would be a whole number, and yet at most half the
  divisor in units of the last place (`scale_normalize_of_div?`);
* `lt_divideDown` — so nothing more is lost there.
-/
import Accrual.Proofs.Rewards.Division

namespace Accrual

namespace Rewards

open Decimal (IsMultiple Fits limit)

variable {D : Finset String} {r out : Rewards} {d : String}
  {amount divisor rounded product : Decimal}

/-- A product that exceeds a decimal is that of numbers whose exact product does. -/
theorem lt_mul_of_lt_product {quotient : Decimal} (hamount : 0 ≤ amount.toRat)
    (h0 : 0 ≤ quotient.toRat * divisor.toRat) (hmul : quotient.mul? divisor = some product)
    (hlt : amount < product) : amount.toRat < quotient.toRat * divisor.toRat := by
  by_contra hle
  exact absurd ((Decimal.isRounded_mul? h0 hmul).le hamount (not_lt.mp hle))
    (not_le.mpr (Decimal.lt_iff.mp hlt))

/-! ### Where little is lost -/

/-- The quotient is rounded up to fewer than 18 places, so far that its product exceeds the
amount. -/
def RoundsUpCoarsely (amount divisor : Decimal) : Prop :=
  ∃ rounded product, amount.div? divisor = some rounded ∧
    rounded.normalize.scale < keptPlaces ∧ rounded.normalize.mul? divisor = some product ∧
    amount < product

section Portion

variable (hamount : 0 ≤ amount.toRat) (hdivisor : 0 < divisor.toRat)
  (hdiv : amount.div? divisor = some rounded) (hmul : (cut rounded).mul? divisor = some product)

include hdiv hmul

theorem roundsUpCoarsely_iff :
    RoundsUpCoarsely amount divisor ↔
      rounded.normalize.scale < keptPlaces ∧ amount < product := by
  constructor
  · rintro ⟨rounded', product', hdiv', hscale, hmul', hlt⟩
    obtain rfl : rounded = rounded' := Option.some.inj (hdiv.symm.trans hdiv')
    rw [cut, Decimal.truncateTo_of_le hscale.le, hmul', Option.some.injEq] at hmul
    exact ⟨hscale, hmul ▸ hlt⟩
  · rintro ⟨hscale, hlt⟩
    rw [cut, Decimal.truncateTo_of_le hscale.le] at hmul
    exact ⟨rounded, product, hdiv, hscale, hmul, hlt⟩

include hamount hdivisor

/-- What is lost of an amount whose quotient has room for 18 places. -/
theorem lt_lowerOnce_iff (hplaces : amount.toRat / divisor.toRat < limit 18) :
    amount.toRat < ((lowerOnce amount product (cut rounded)).toRat + 1 / 10 ^ 18) * divisor.toRat
      ↔ ¬ RoundsUpCoarsely amount divisor := by
  have hneg := Decimal.negative_div? hamount hdivisor hdiv
  have hcutneg := negative_cut hneg
  have h0 := mul_nonneg (Decimal.nonneg_of_not_negative hcutneg) hdivisor.le
  rw [roundsUpCoarsely_iff hdiv hmul]
  unfold lowerOnce
  split
  · next hlt =>
    have hz := not_isZero_cut hamount hmul hlt
    have hone := Decimal.toRat_lowered hcutneg hz
    rcases Nat.lt_or_ge rounded.normalize.scale keptPlaces with hscale | hscale
    · -- half a unit was gained by rounding, and a whole one is lost by lowering
      refine iff_of_false (not_lt.mpr ?_) (not_not.mpr ⟨hscale, hlt⟩)
      have hhalf := Decimal.two_mul_div?_le hamount hdivisor hdiv
      have hcut : cut rounded = rounded.normalize := Decimal.truncateTo_of_le hscale.le
      rw [hcut, Decimal.toRat_normalize] at hone
      rw [hcut, ← le_div_iff₀ hdivisor]
      have hunit : (1 : ℚ) / 10 ^ rounded.scale ≤ 1 / 10 ^ rounded.normalize.scale :=
        one_div_pow_le_one_div_pow_of_le (by norm_num) (Decimal.scale_normalize_le rounded)
      have hcoarse : (1 : ℚ) / 10 ^ 17 ≤ 1 / 10 ^ rounded.normalize.scale :=
        one_div_pow_le_one_div_pow_of_le (by norm_num) (Nat.le_of_lt_succ hscale)
      have hten : (2 : ℚ) * (1 / 10 ^ 18) ≤ 1 / 10 ^ 17 := by norm_num
      linarith
    · -- it was lowered by a unit of the 18th place
      refine iff_of_true ?_ fun hcoarse => absurd hcoarse.1 (Nat.not_lt.mpr hscale)
      rw [scale_cut, Nat.min_eq_right hscale, keptPlaces] at hone
      rw [← hone]
      exact lt_mul_of_lt_product hamount h0 hmul hlt
  · next hle =>
    -- the cut quotient has all 18 places of the exact one
    refine iff_of_true ?_ fun hcoarse => hle hcoarse.2
    rw [toRat_cut hneg]
    exact Decimal.lt_floor_div? hamount hdivisor hdiv hplaces (by decide)

end Portion

/-- Where the quotient has room for 18 places, less than a unit of the 18th place is lost for each
share, except where the quotient is rounded up to fewer places. -/
theorem loss_lt_iff (hr : r.Canonical) (h : r.divideDown divisor = .ok out)
    (hplaces : r.value d / divisor.toRat < limit 18) :
    r.value d - out.value d * divisor.toRat < divisor.toRat * (1 / 10 ^ 18) ↔
      ¬ RoundsUpCoarsely (r.amount d) divisor := by
  obtain ⟨rounded, product, hdiv, hmul, hval⟩ := exists_of_divideDown hr h d
  rw [← lt_lowerOnce_iff (hr.value_nonneg d) (pos_of_divideDown h) hdiv hmul hplaces, ← hval,
    add_mul, sub_lt_iff_lt_add', mul_comm divisor.toRat]
  rfl

/-- 10 among 6: the quotient has all 18 places. -/
theorem loss_lt_iff_sixths :
    let r : Rewards := ⟨[("uusdc", .ofPartsD 10 0)]⟩
    let divisor : Decimal := .ofPartsD 6 0
    let out : Rewards := ⟨[("uusdc", .ofPartsD 1666666666666666666 18)]⟩
    r.Canonical ∧ r.divideDown divisor = .ok out ∧ r.value "uusdc" / divisor.toRat < limit 18 ∧
      ¬ RoundsUpCoarsely (r.amount "uusdc") divisor := by
  intro r divisor out
  have hr : r.Canonical := ⟨by decide +kernel, by decide +kernel, by decide +kernel⟩
  have h : r.divideDown divisor = .ok out := by decide +kernel
  have hplaces : r.value "uusdc" / divisor.toRat < limit 18 := by decide +kernel
  have hlost : r.value "uusdc" - out.value "uusdc" * divisor.toRat
      < divisor.toRat * (1 / 10 ^ 18) := by decide +kernel
  exact ⟨hr, h, hplaces, (loss_lt_iff hr h hplaces).mp hlost⟩

/-- A third of just less than 3 is rounded up to 1, lowered by 1, and lost altogether. -/
theorem loss_of_roundedUp_to_one :
    let r : Rewards := ⟨[("uusdc", .ofPartsD 29999999999999999999999999999 28)]⟩
    let divisor : Decimal := .ofPartsD 3 0
    r.Canonical ∧ r.divideDown divisor = .ok .empty ∧
      r.value "uusdc" / divisor.toRat < 7 * 10 ^ 9 ∧
      ¬ r.value "uusdc" - empty.value "uusdc" * divisor.toRat
        < divisor.toRat * (1 / 10 ^ 18) := by
  refine ⟨⟨by decide +kernel, by decide +kernel, by decide +kernel⟩, by decide +kernel,
    by decide +kernel, by decide +kernel⟩

/-! ### Whole amounts among whole shares -/

theorem one_le_of_isMultiple {x : ℚ} {s : ℕ} (h : IsMultiple s x) (h0 : 0 < x) :
    1 / 10 ^ s ≤ x := by
  obtain ⟨n, rfl⟩ := h
  have hn : 0 < n := by
    rw [lt_div_iff₀ (by positivity), zero_mul] at h0
    exact_mod_cast h0
  exact div_le_div_of_nonneg_right (by exact_mod_cast hn) (by positivity)

/-- A quotient has so many places that its rounding error, among up to `10 ^ 10` shares, is less
than a unit of the 17th place. -/
theorem rounding_error_lt (hlimit : amount.toRat ≤ fundLimit) (hdivisor : 0 < divisor.toRat)
    (hsmall : divisor.toRat ≤ 10 ^ 10) {s : ℕ}
    (hmax : s = 28 ∨ limit (s + 1) ≤ amount.toRat / divisor.toRat) {error : ℚ}
    (herror : 2 * 10 ^ s * error ≤ divisor.toRat) : error < 1 / 10 ^ 17 := by
  by_contra hlarge
  have hpow : (0 : ℚ) < 10 ^ s := by positivity
  have hshares : 2 * 10 ^ s * (1 / 10 ^ 17) ≤ divisor.toRat :=
    (mul_le_mul_of_nonneg_left (not_lt.mp hlarge) (by positivity)).trans herror
  rcases hmax with rfl | hmax
  · norm_num at hshares hsmall
    linarith
  · -- with fewer places the quotient is large, and so is the amount
    rw [limit, div_le_iff₀ (by positivity)] at hmax
    have hfund : (Decimal.bound : ℚ) * divisor.toRat ≤ amount.toRat * 10 ^ (s + 1) := by
      have := mul_le_mul_of_nonneg_right hmax hdivisor.le
      rwa [mul_right_comm, div_mul_cancel₀ _ hdivisor.ne'] at this
    have hbound : (Decimal.bound : ℚ) * (2 * 10 ^ s * (1 / 10 ^ 17)) ≤ fundLimit * 10 ^ (s + 1) :=
      calc (Decimal.bound : ℚ) * (2 * 10 ^ s * (1 / 10 ^ 17))
          ≤ Decimal.bound * divisor.toRat := mul_le_mul_of_nonneg_left hshares (by positivity)
        _ ≤ amount.toRat * 10 ^ (s + 1) := hfund
        _ ≤ fundLimit * 10 ^ (s + 1) := mul_le_mul_of_nonneg_right hlimit (by positivity)
    have hcontra : (fundLimit : ℚ) * 10 < Decimal.bound * (2 * (1 / 10 ^ 17)) := by
      norm_num [fundLimit, Decimal.bound]
    have := mul_lt_mul_of_pos_right hcontra hpow
    rw [pow_succ (10 : ℚ) s] at hbound
    linarith

/-- A quotient that is rounded up is not rounded to fewer than 18 places. -/
theorem scale_normalize_of_div? {rounded : Decimal} (hamount : 0 < amount.toRat)
    (hgrid : IsMultiple 0 amount.toRat) (hlimit : amount.toRat ≤ fundLimit)
    (hdivisor : 0 < divisor.toRat) (hwhole : IsMultiple 0 divisor.toRat)
    (hsmall : divisor.toRat ≤ 10 ^ 10) (hdiv : amount.div? divisor = some rounded)
    (hup : amount.toRat < rounded.toRat * divisor.toRat) : 18 ≤ rounded.normalize.scale := by
  by_contra hcoarse
  have hscale : rounded.normalize.scale ≤ 17 := by omega
  have hone := one_le_of_isMultiple hwhole hdivisor
  rw [pow_zero, div_one] at hone
  have hxle : amount.toRat / divisor.toRat ≤ fundLimit :=
    (div_le_self hamount.le hone).trans hlimit
  -- the error of the rounding, in shares, is a whole number of units of the 17th place
  have herror : 1 / 10 ^ 17 ≤ rounded.toRat * divisor.toRat - amount.toRat := by
    refine one_le_of_isMultiple ?_ (by linarith)
    have hround : IsMultiple 17 rounded.toRat := by
      have := (Decimal.isMultiple_toRat rounded.normalize).mono hscale
      rwa [Decimal.toRat_normalize] at this
    have hmul := hround.mul hwhole
    rw [Nat.add_zero] at hmul
    exact hmul.sub (hgrid.mono (by decide))
  obtain ⟨hneg, s, hs, hmax, -, ⟨hsc, -, hnear⟩ | ⟨hsc, hbig, -, hman⟩⟩ :=
    Decimal.div?_cases hamount hdivisor hdiv
  · have hpow : (0 : ℚ) < 10 ^ s := by positivity
    have hmant : (rounded.mantissa : ℚ) = rounded.toRat * 10 ^ s := by
      rw [Decimal.toRat_of_nonneg hneg, hsc, div_mul_cancel₀ _ hpow.ne']
    have hhalf : 2 * 10 ^ s * (rounded.toRat * divisor.toRat - amount.toRat) ≤ divisor.toRat := by
      have hnear' := mul_le_mul_of_nonneg_right hnear hdivisor.le
      have hxs : amount.toRat / divisor.toRat * 10 ^ s * divisor.toRat
          = amount.toRat * 10 ^ s := by
        rw [mul_right_comm, div_mul_cancel₀ _ hdivisor.ne']
      rw [hmant] at hnear'
      linarith
    exact absurd (rounding_error_lt hlimit hdivisor hsmall hmax hhalf) (not_lt.mpr herror)
  · -- rounding up reached `2 ^ 96`: the last digit that is left is not zero
    have htrail : rounded.mantissa % 10 ≠ 0 := by
      simp only [Decimal.bound] at hman
      omega
    have hz : ¬ rounded.IsZero := fun hz => htrail (by rw [Decimal.IsZero] at hz; rw [hz])
    have hstored : IsStored rounded := ⟨hneg, hz, .inr htrail⟩
    rw [hstored.normalize] at hscale
    have hpow : (10 : ℚ) ^ s ≤ 10 ^ 18 := pow_le_pow_right₀ (by norm_num) (by omega)
    have hle : amount.toRat / divisor.toRat * 10 ^ s ≤ fundLimit * 10 ^ 18 :=
      mul_le_mul hxle hpow (by positivity) (by norm_num [fundLimit])
    have : (fundLimit : ℚ) * 10 ^ 18 < Decimal.bound - 1 := by
      norm_num [fundLimit, Decimal.bound]
    linarith

/-- A whole amount among whole shares up to `10 ^ 10` is not rounded up to fewer than 18 places. -/
theorem not_roundsUpCoarsely (hamount : 0 ≤ amount.toRat) (hgrid : IsMultiple 0 amount.toRat)
    (hlimit : amount.toRat ≤ fundLimit) (hdivisor : 0 < divisor.toRat)
    (hwhole : IsMultiple 0 divisor.toRat) (hsmall : divisor.toRat ≤ 10 ^ 10) :
    ¬ RoundsUpCoarsely amount divisor := by
  rintro ⟨rounded, product, hdiv, hscale, hmul, hlt⟩
  have hneg := Decimal.negative_normalize (Decimal.negative_div? hamount hdivisor hdiv)
  have h0 := mul_nonneg (Decimal.nonneg_of_not_negative hneg) hdivisor.le
  have hup := lt_mul_of_lt_product hamount h0 hmul hlt
  rw [Decimal.toRat_normalize] at hup
  have hpos : 0 < amount.toRat := hamount.lt_of_ne fun hzero => by
    rw [Decimal.eq_zero_of_div? hzero.symm hdiv, Decimal.toRat_zero, zero_mul] at hup
    exact absurd hamount (not_le.mpr hup)
  exact absurd (scale_normalize_of_div? hpos hgrid hlimit hdivisor hwhole hsmall hdiv hup)
    (Nat.not_le.mpr hscale)

/-- What is lost by dividing among whole shares is less than one unit of the 18th place for each
of them. -/
theorem lt_divideDown (hr : r.Over D) (hwhole : IsMultiple 0 divisor.toRat)
    (hsmall : divisor.toRat ≤ 10 ^ 10) {d : String} (hgrid : IsMultiple 0 (r.value d))
    (hlimit : r.value d ≤ fundLimit) (h : r.divideDown divisor = .ok out) :
    r.value d < (out.value d + 1 / 10 ^ 18) * divisor.toRat := by
  have hpos := pos_of_divideDown h
  have hone := one_le_of_isMultiple hwhole hpos
  rw [pow_zero, div_one] at hone
  have hplaces : r.value d / divisor.toRat < limit 18 := lt_of_le_of_lt
    ((div_le_self (hr.value_nonneg d) hone).trans hlimit) fundLimit_lt_limit
  obtain ⟨rounded, product, hdiv, hmul, hval⟩ := exists_of_divideDown hr.toCanonical h d
  rw [hval]
  exact (lt_lowerOnce_iff (hr.value_nonneg d) hpos hdiv hmul hplaces).mpr
    (not_roundsUpCoarsely (hr.value_nonneg d) hgrid hlimit hpos hwhole hsmall)

end Rewards

end Accrual
