/-
Lowering a quotient, step by step.

A quotient is lowered by units in its last place while its product with the divisor exceeds the
amount.  Here this is followed from any number on, however often it is lowered.

* `Lowers` — what lowering a number comes to, where every unit that is taken away can be taken;
* `canTake_ulp_of_exceeds` — one step: a number whose product is too large has a unit to give;
* `lowers_stepDown` — a whole run: lowering has no other outcome, and never runs out of fuel;
* `DividesDown`, `dividesDown` — what dividing comes to, whatever is divided by whatever number.
-/
import Accrual.Proofs.Rewards.Division

namespace Accrual

namespace Rewards

variable {r quotients : Rewards} {amount divisor product q lower : Decimal} {fuel : ℕ}

/-- What lowering `q` comes to: it is refused where a product is too large for a decimal, it ends
where the product does not exceed the amount, and otherwise it goes on with what is left of `q`
without a unit of its last place, which is a decimal, and not negative. -/
inductive Lowers (amount divisor : Decimal) : Decimal → Except RewardError Decimal → Prop
  | refused {q : Decimal} (hproduct : q.mul? divisor = none) :
      Lowers amount divisor q (.error .overflow)
  | done {q product : Decimal} (hproduct : q.mul? divisor = some product)
      (hfits : ¬ amount < product) : Lowers amount divisor q (.ok q)
  | lower {q product lower : Decimal} {outcome : Except RewardError Decimal}
      (hproduct : q.mul? divisor = some product) (hexceeds : amount < product)
      (hplaces : q.scale ≤ keptPlaces) (hlower : q.sub? q.ulp = some lower)
      (hnonneg : 0 ≤ lower.toRat) (h : Lowers amount divisor lower outcome) :
      Lowers amount divisor q outcome

/-! ### One step -/

/-- There is a unit to take away from a number whose product is too large. -/
theorem canTake_ulp_of_exceeds (hamount : 0 ≤ amount.toRat) (hq : q.negative = false)
    (hproduct : q.mul? divisor = some product) (hexceeds : amount < product) :
    q.sub? q.ulp = some q.lowered ∧ 0 ≤ q.lowered.toRat :=
  ⟨Decimal.sub?_ulp hq (not_isZero_of_lt_product hamount hproduct hexceeds),
    Decimal.nonneg_of_not_negative (show q.lowered.negative = false from hq)⟩

theorem stepDown_of_none (h : q.mul? divisor = none) (fuel : ℕ) :
    stepDown amount divisor fuel q = .error .overflow := by
  unfold stepDown
  rw [h]

theorem stepDown_of_lt (hproduct : q.mul? divisor = some product) (hexceeds : amount < product)
    (hlower : q.sub? q.ulp = some lower) (fuel : ℕ) :
    stepDown amount divisor (fuel + 1) q = stepDown amount divisor fuel lower := by
  simp only [stepDown.eq_def amount divisor (fuel + 1) q, hproduct, if_pos hexceeds, hlower]

/-! ### Any number of steps -/

/-- Every step takes one off the mantissa, so there is fuel for all of them; none of them changes
the sign or the number of places. -/
theorem lowers_stepDown (hamount : 0 ≤ amount.toRat) (hq : q.negative = false)
    (hplaces : q.scale ≤ keptPlaces) (hfuel : q.mantissa ≤ fuel) :
    Lowers amount divisor q (stepDown amount divisor fuel q) := by
  induction fuel using Nat.strong_induction_on generalizing q with
  | _ fuel ih =>
  cases hproduct : q.mul? divisor with
  | none =>
    rw [stepDown_of_none hproduct]
    exact .refused hproduct
  | some product =>
    by_cases hexceeds : amount < product
    · obtain ⟨hlower, hnonneg⟩ := canTake_ulp_of_exceeds hamount hq hproduct hexceeds
      -- the quotient is not zero, so its mantissa pays for a step
      have hpos : 0 < q.mantissa :=
        Nat.pos_of_ne_zero (not_isZero_of_lt_product hamount hproduct hexceeds)
      obtain ⟨fuel, rfl⟩ : ∃ k, fuel = k + 1 := Nat.exists_eq_succ_of_ne_zero (by omega)
      have hfuel' : q.lowered.mantissa ≤ fuel := Nat.sub_le_iff_le_add.mpr hfuel
      rw [stepDown_of_lt hproduct hexceeds hlower]
      exact .lower hproduct hexceeds hplaces hlower hnonneg
        (ih fuel (Nat.lt_succ_self fuel) hq hplaces hfuel')
    · rw [stepDown_of_not_lt hproduct hexceeds]
      exact .done hproduct hexceeds

/-! ### Every amount -/

/-- What dividing `r` by `divisor` comes to, once the quotients are there: every one of them is
lowered from where it is cut off. -/
inductive DividesDown (r : Rewards) (divisor : Decimal) : Except RewardError Rewards → Prop
  /-- There are no quotients. -/
  | undivided {e : RewardError} (hdivide : r.divide divisor = .error e) :
      DividesDown r divisor (.error e)
  /-- Lowering the quotient of `d` is refused. -/
  | refused {quotients : Rewards} {d : String} {e : RewardError}
      (hdivide : r.divide divisor = .ok quotients)
      (hlowers : ∀ d', ∃ outcome,
        Lowers (r.amount d') divisor ((quotients.amount d').truncateTo keptPlaces) outcome)
      (hrefused :
        Lowers (r.amount d) divisor ((quotients.amount d).truncateTo keptPlaces) (.error e)) :
      DividesDown r divisor (.error e)
  /-- Every amount is what its quotient is lowered to. -/
  | divided {quotients out : Rewards} (hdivide : r.divide divisor = .ok quotients)
      (hlowers : ∀ d, ∃ q,
        Lowers (r.amount d) divisor ((quotients.amount d).truncateTo keptPlaces) (.ok q) ∧
          out.amount d = q.normalize) :
      DividesDown r divisor (.ok out)

/-- The quotient of an amount is lowered to what is given out of it. -/
theorem lowers_portion (hr : r.Canonical) (hdivide : r.divide divisor = .ok quotients)
    (d : String) :
    Lowers (r.amount d) divisor ((quotients.amount d).truncateTo keptPlaces)
      (orOverflow (portion (r.amount d) divisor)) := by
  have hdivisor := pos_of_divide hdivide
  have hquotient := (hr.over.divide hdivide).toCanonical.amount_not_negative d
  obtain ⟨rounded, hrounded, hamount⟩ :=
    (pointwise_divide hr hdivisor).amount_of_ok quotients hdivide d
  rw [portion_eq_portionOf hr hdivide, hamount,
    ← stepDown_eq_portionOf (hr.value_nonneg d) hdivisor hrounded, cut, ← hamount]
  exact lowers_stepDown (hr.value_nonneg d) ((Decimal.negative_truncateTo ..).trans hquotient)
    ((Decimal.scale_truncateTo ..).trans_le (Nat.min_le_right ..)) (Nat.le_refl _)

/-- Dividing is refused where lowering is, and else every quotient is lowered. -/
theorem dividesDown (hr : r.Canonical) (divisor : Decimal) :
    DividesDown r divisor (r.divideDown divisor) := by
  cases hdivide : r.divide divisor with
  | error e =>
    rw [divideDown_of_divide_error hdivide]
    exact .undivided hdivide
  | ok quotients =>
    have hlowers := lowers_portion hr hdivide
    have hpoint := pointwise_divideDown hr (pos_of_divide hdivide)
    cases hdown : r.divideDown divisor with
    | error e =>
      obtain ⟨rfl, d, hd⟩ := (hpoint.eq_error_iff e).mp hdown
      refine .refused (d := d) hdivide (fun d' => ⟨_, hlowers d'⟩) ?_
      have hrefused := hlowers d
      rwa [hd] at hrefused
    | ok out =>
      refine .divided hdivide fun d => ?_
      obtain ⟨q, hq, hamount⟩ := hpoint.amount_of_ok out hdown d
      have hlowered := hlowers d
      rw [hq] at hlowered
      exact ⟨q, hlowered, hamount⟩

end Rewards

end Accrual
