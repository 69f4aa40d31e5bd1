/-
When division down is refused.

Lowering starts from a quotient that was rounded to nearest, and asks for its product with the
divisor.  Where there is no such product the whole division is refused, although a product that is
too large for a decimal is larger than any amount.

* `divideDown_eq_error_iff` — besides what plain division refuses, exactly those rewards are refused
  of which some stored quotient, cut off, gives `2 ^ 96 - 1 / 2` or more with the divisor;
* `quarters_of_largest_overflow` — there are such rewards;
* `divideDown_eq_error_iff_of_le` — all of them have an amount above `2 ^ 96 - 6`, because a rounded
  quotient promises at most 5 too much.
-/
import Accrual.Proofs.Rewards.Division

namespace Accrual

namespace Rewards

variable {r quotients : Rewards} {divisor amount quotient : Decimal} {e : RewardError}

/-- The stored quotient, cut off, gives too much for a decimal. -/
theorem portionOf_eq_none_iff (hquotient : quotient.negative = false)
    (hdivisor : 0 < divisor.toRat) : portionOf amount divisor quotient = none ↔
      (Decimal.bound : ℚ) - 1 / 2 ≤ (quotient.truncateTo keptPlaces).toRat * divisor.toRat := by
  have hcut := Decimal.nonneg_of_not_negative
    ((Decimal.negative_truncateTo quotient keptPlaces).trans hquotient)
  rw [portionOf, Option.map_eq_none_iff, ← Option.not_isSome_iff_eq_none,
    Decimal.isSome_mul?_iff (mul_nonneg hcut hdivisor.le), not_lt]

/-- After a plain division that succeeds, dividing down fails at the first product only. -/
theorem divideDown_eq_error_iff_of_divide (hr : r.Canonical)
    (hdiv : r.divide divisor = .ok quotients) :
    r.divideDown divisor = .error e ↔ e = .overflow ∧ ∃ d, (Decimal.bound : ℚ) - 1 / 2
      ≤ ((quotients.amount d).truncateTo keptPlaces).toRat * divisor.toRat := by
  have hdivisor := pos_of_divide hdiv
  have hquotients := (hr.over.divide hdiv).toCanonical
  rw [(pointwise_divideDown hr hdivisor).eq_error_iff]
  simp only [portion_eq_portionOf hr hdiv,
    portionOf_eq_none_iff (hquotients.amount_not_negative _) hdivisor]

/-- Dividing down is refused where plain division is, with the same error, and where the product of
some quotient is too large; that is an overflow. -/
theorem divideDown_eq_error_iff (hr : r.Canonical) :
    r.divideDown divisor = .error e ↔
      r.divide divisor = .error e ∨
        e = .overflow ∧ ∃ quotients, r.divide divisor = .ok quotients ∧
          ∃ d, (Decimal.bound : ℚ) - 1 / 2
            ≤ ((quotients.amount d).truncateTo keptPlaces).toRat * divisor.toRat := by
  cases hdiv : r.divide divisor with
  | error e' =>
    rw [divideDown_of_divide_error hdiv]
    exact (or_iff_left fun ⟨_, _, h, _⟩ => by cases h).symm
  | ok quotients =>
    rw [divideDown_eq_error_iff_of_divide hr hdiv]
    simp

/-- Half of the largest amount is rounded up. -/
theorem divideDown_eq_error_iff_halves :
    let r : Rewards := ⟨[("uusdc", .ofPartsD 79228162514264337593543950335 0)]⟩
    let half : Rewards := ⟨[("uusdc", .ofPartsD 39614081257132168796771975168 0)]⟩
    let divisor : Decimal := .ofPartsD 2 0
    r.Canonical ∧ r.divide divisor = .ok half ∧
      (Decimal.bound : ℚ) - 1 / 2
        ≤ ((half.amount "uusdc").truncateTo keptPlaces).toRat * divisor.toRat ∧
      r.divideDown divisor = .error .overflow := by
  intro r half divisor
  have hr : r.Canonical := ⟨by decide +kernel, by decide +kernel, by decide +kernel⟩
  have hdiv : r.divide divisor = .ok half := by decide +kernel
  have hlarge : (Decimal.bound : ℚ) - 1 / 2
      ≤ ((half.amount "uusdc").truncateTo keptPlaces).toRat * divisor.toRat := by decide +kernel
  exact ⟨hr, hdiv, hlarge,
    (divideDown_eq_error_iff hr).mpr (.inr ⟨rfl, half, hdiv, "uusdc", hlarge⟩)⟩

/-- A quarter of the largest amount can be computed, and is rounded up.  Dividing down is refused
for the product of that quarter; the quarter less one, which has a product, is never tried. -/
theorem quarters_of_largest_overflow :
    let r : Rewards := ⟨[("uusdc", .ofPartsD 79228162514264337593543950335 0)]⟩
    let divisor : Decimal := .ofPartsD 4 0
    r.Canonical ∧
      r.divide divisor = .ok ⟨[("uusdc", .ofPartsD 19807040628566084398385987584 0)]⟩ ∧
      r.divideDown divisor = .error .overflow ∧
      ¬ ((∃ e, r.divideDown divisor = .error e) ↔ ∃ e, r.divide divisor = .error e) := by
  intro r divisor
  have hdiv : r.divide divisor
      = .ok ⟨[("uusdc", .ofPartsD 19807040628566084398385987584 0)]⟩ := by decide +kernel
  have hdown : r.divideDown divisor = .error .overflow := by decide +kernel
  refine ⟨⟨by decide +kernel, by decide +kernel, by decide +kernel⟩, hdiv, hdown, fun h => ?_⟩
  obtain ⟨e, he⟩ := h.mp ⟨_, hdown⟩
  rw [hdiv] at he
  cases he

/-! ### Amounts that leave room for the rounding -/

theorem product_lt (hr : r.Canonical) (hdiv : r.divide divisor = .ok quotients) {d : String}
    (hamount : r.value d ≤ Decimal.bound - 6) :
    ((quotients.amount d).truncateTo keptPlaces).toRat * divisor.toRat < Decimal.bound - 1 / 2 := by
  have hdivisor := pos_of_divide hdiv
  have hnonneg := hr.value_nonneg d
  obtain ⟨rounded, hrounded, hstored⟩ :=
    (pointwise_divide hr hdivisor).amount_of_ok quotients hdiv d
  rw [hstored, ← cut]
  -- cutting off only lowers the product, so what is too much comes from rounding the quotient
  calc (cut rounded).toRat * divisor.toRat
      ≤ rounded.toRat * divisor.toRat := mul_le_mul_of_nonneg_right
        (toRat_cut_le (Decimal.negative_div? hnonneg hdivisor hrounded)) hdivisor.le
    _ ≤ r.value d + 5 := Decimal.div?_mul_le hnonneg hdivisor hrounded
    _ < Decimal.bound - 1 / 2 := by linarith

/-- Of amounts up to `2 ^ 96 - 6` dividing down refuses what plain division refuses. -/
theorem divideDown_eq_error_iff_of_le (hr : r.Canonical)
    (hamounts : ∀ d, r.value d ≤ Decimal.bound - 6) :
    r.divideDown divisor = .error e ↔ r.divide divisor = .error e := by
  cases hdiv : r.divide divisor with
  | error e' => rw [divideDown_of_divide_error hdiv]
  | ok quotients =>
    rw [divideDown_eq_error_iff_of_divide hr hdiv]
    refine iff_of_false ?_ nofun
    rintro ⟨-, d, hlarge⟩
    exact absurd (product_lt hr hdiv (hamounts d)) (not_lt.mpr hlarge)

/-- One more than that is refused among some shares. -/
example : (Rewards.mk [("uusdc", .ofPartsD 79228162514264337593543950331 0)]).divideDown
    (.ofPartsD 99998804 0) = .error .overflow := by decide +kernel

end Rewards

end Accrual
