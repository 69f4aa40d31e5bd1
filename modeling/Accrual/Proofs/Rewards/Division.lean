/-
Dividing rewards among shares.

A component is divided with the precision of decimals, cut off after 18 places, and lowered by
units in its last place while the product with the divisor, as a decimal product, exceeds the
component.

* `lowered_cut_mul_lt` — a rounded quotient is at most half a unit of its last place too large, and
  to drop zeros or digits makes the units only coarser, so one unit less is not too much;
* `stepDown_cut` — so lowering takes one unit or none, and fails only if the first product does;
* `pointwise_divideDown` — the outcome has the `portion` of every amount;
* `Over.divideDown` — it is canonical, and kept to 18 places (`isMultiple_divideDown`);
* `divideDown_le` — with a whole divisor, nothing more is given out than there is, exactly;
* `lowered_at_most_once` — what lowering does to each amount, step by step.
-/
import Accrual.Proofs.Decimal.Quotient
import Accrual.Proofs.Rewards.Componentwise

namespace Accrual

namespace Decimal

/-! ### Cutting off -/

theorem truncateTo_of_le {a : Decimal} {k : ℕ} (h : a.scale ≤ k) : a.truncateTo k = a := if_pos h

theorem scale_truncateTo (a : Decimal) (k : ℕ) : (a.truncateTo k).scale = min a.scale k := by
  unfold truncateTo
  split
  · next h => exact (Nat.min_eq_left h).symm
  · rfl

theorem negative_truncateTo (a : Decimal) (k : ℕ) : (a.truncateTo k).negative = a.negative := by
  unfold truncateTo
  split <;> rfl

theorem scale_normalize_le (a : Decimal) : a.normalize.scale ≤ a.scale := by
  unfold normalize
  split
  · exact Nat.zero_le a.scale
  · exact dropZeros_snd_le a.mantissa a.scale

theorem negative_normalize {a : Decimal} (h : a.negative = false) :
    a.normalize.negative = false := by
  by_cases hz : a.IsZero
  · rw [normalize, if_pos hz]
    rfl
  · rw [normalize, if_neg hz]
    exact h

theorem toRat_truncateTo {a : Decimal} (h : a.negative = false) (k : ℕ) :
    (a.truncateTo k).toRat = ⌊a.toRat * 10 ^ k⌋₊ / 10 ^ k := by
  rw [toRat_of_nonneg ((negative_truncateTo a k).trans h), toRat_of_nonneg h]
  by_cases hk : a.scale ≤ k
  · obtain ⟨j, hj⟩ := Nat.exists_eq_add_of_le hk
    rw [truncateTo_of_le hk, hj]
    have hfloor : (a.mantissa : ℚ) / 10 ^ a.scale * 10 ^ (a.scale + j)
        = ((a.mantissa * 10 ^ j : ℕ) : ℚ) := by
      push_cast
      rw [pow_add]
      field_simp
    rw [hfloor, Nat.floor_natCast, pow_add]
    push_cast
    field_simp
  · obtain ⟨j, hj⟩ := Nat.exists_eq_add_of_le (Nat.le_of_not_le hk)
    have hscale : (a.truncateTo k).scale = k := by
      rw [scale_truncateTo]
      omega
    have hman : (a.truncateTo k).mantissa = a.mantissa / tenTo (a.scale - k) := by
      rw [truncateTo, if_neg hk]
    rw [hj, Nat.add_sub_cancel_left] at hman
    have hfloor : (a.mantissa : ℚ) / 10 ^ a.scale * 10 ^ k
        = (a.mantissa : ℚ) / ((tenTo j : ℕ) : ℚ) := by
      rw [hj, cast_tenTo, pow_add]
      field_simp
    rw [hscale, hman, hfloor, Nat.floor_div_natCast, Nat.floor_natCast]

end Decimal

namespace Rewards

open Decimal (IsMultiple Fits limit)

variable {D : Finset String} {r out quotients : Rewards} {d : String}
  {amount divisor rounded product q : Decimal} {fuel : ℕ}

/-! ### The quotient that is cut off -/

/-- The quotient from which lowering starts: stored without trailing zeros, and cut off. -/
def cut (rounded : Decimal) : Decimal := rounded.normalize.truncateTo keptPlaces

theorem scale_cut (rounded : Decimal) :
    (cut rounded).scale = min rounded.normalize.scale keptPlaces := Decimal.scale_truncateTo ..

theorem negative_cut (h : rounded.negative = false) : (cut rounded).negative = false :=
  (Decimal.negative_truncateTo ..).trans (Decimal.negative_normalize h)

theorem toRat_cut (h : rounded.negative = false) :
    (cut rounded).toRat = ⌊rounded.toRat * 10 ^ keptPlaces⌋₊ / 10 ^ keptPlaces := by
  rw [cut, Decimal.toRat_truncateTo (Decimal.negative_normalize h), Decimal.toRat_normalize]

theorem toRat_cut_le (h : rounded.negative = false) : (cut rounded).toRat ≤ rounded.toRat := by
  have h0 := Decimal.nonneg_of_not_negative h
  rw [toRat_cut h, div_le_iff₀ (by positivity)]
  exact Nat.floor_le (by positivity)

/-! ### Lowering -/

/-- One unit of a cut quotient is more than the error of its rounding. -/
theorem lowered_cut_mul_lt (hamount : 0 ≤ amount.toRat) (hdivisor : 0 < divisor.toRat)
    (hdiv : amount.div? divisor = some rounded) (hz : ¬ (cut rounded).IsZero) :
    (cut rounded).lowered.toRat * divisor.toRat < amount.toRat := by
  have hneg := Decimal.negative_div? hamount hdivisor hdiv
  have hhalf := Decimal.two_mul_div?_le hamount hdivisor hdiv
  have hone := Decimal.toRat_lowered (negative_cut hneg) hz
  have hle := toRat_cut_le hneg
  have hscale : (cut rounded).scale ≤ rounded.scale := by
    rw [scale_cut]
    exact (Nat.min_le_left ..).trans (Decimal.scale_normalize_le rounded)
  have hunit : (1 : ℚ) / 10 ^ rounded.scale ≤ 1 / 10 ^ (cut rounded).scale :=
    one_div_pow_le_one_div_pow_of_le (by norm_num) hscale
  have hpos : (0 : ℚ) < 1 / 10 ^ rounded.scale := by positivity
  rw [← lt_div_iff₀ hdivisor]
  linarith

/-- A zero quotient has a zero product, which exceeds nothing. -/
theorem not_isZero_of_lt_product (hamount : 0 ≤ amount.toRat)
    (hmul : q.mul? divisor = some product) (hlt : amount < product) : ¬ q.IsZero := by
  intro hz
  rw [Decimal.mul?, if_pos (.inl hz), Option.some.injEq] at hmul
  rw [← hmul, Decimal.lt_iff, Decimal.toRat_zero] at hlt
  exact absurd hamount (not_le.mpr hlt)

/-- The quotient, less one unit in its last place if its product exceeds the amount. -/
def lowerOnce (amount product quotient : Decimal) : Decimal :=
  if amount < product then quotient.lowered else quotient

theorem scale_lowerOnce (amount product quotient : Decimal) :
    (lowerOnce amount product quotient).scale = quotient.scale := by
  unfold lowerOnce
  split <;> rfl

theorem negative_lowerOnce (amount product : Decimal) {quotient : Decimal}
    (h : quotient.negative = false) : (lowerOnce amount product quotient).negative = false := by
  unfold lowerOnce
  split <;> exact h

theorem stepDown_of_not_lt {quotient : Decimal} (hmul : quotient.mul? divisor = some product)
    (hle : ¬ amount < product) (fuel : ℕ) :
    stepDown amount divisor fuel quotient = .ok quotient := by
  unfold stepDown
  rw [hmul]
  exact if_neg hle

section Lowering

variable (hamount : 0 ≤ amount.toRat) (hdivisor : 0 < divisor.toRat)
  (hdiv : amount.div? divisor = some rounded) (hmul : (cut rounded).mul? divisor = some product)

include hamount hmul

theorem not_isZero_cut (hlt : amount < product) : ¬ (cut rounded).IsZero :=
  not_isZero_of_lt_product hamount hmul hlt

include hdivisor hdiv

/-- The product with a lowered quotient exists and does not exceed the amount. -/
theorem exists_mul?_lowerOnce : ∃ p,
    (lowerOnce amount product (cut rounded)).mul? divisor = some p ∧ p.toRat ≤ amount.toRat := by
  have hneg := negative_cut (Decimal.negative_div? hamount hdivisor hdiv)
  unfold lowerOnce
  split
  · next hlt =>
    have hz := not_isZero_cut hamount hmul hlt
    have h0 := mul_nonneg (Decimal.nonneg_of_not_negative
      (show (cut rounded).lowered.negative = false from hneg)) hdivisor.le
    have hle : (cut rounded).lowered.toRat ≤ (cut rounded).toRat := by
      rw [Decimal.toRat_lowered hneg hz]
      exact le_add_of_nonneg_right (by positivity)
    obtain ⟨p, hp⟩ := Option.isSome_iff_exists.mp
      (Decimal.isSome_mul? h0 (mul_le_mul_of_nonneg_right hle hdivisor.le) hmul)
    exact ⟨p, hp, (Decimal.isRounded_mul? h0 hp).le hamount
      (lowered_cut_mul_lt hamount hdivisor hdiv hz).le⟩
  · next hle =>
    rw [Decimal.lt_iff, not_lt] at hle
    exact ⟨product, hmul, hle⟩

/-- Lowering takes one unit at most; fuel for one step is enough, and none for zero. -/
theorem stepDown_cut (hfuel : min 1 (cut rounded).mantissa ≤ fuel) :
    stepDown amount divisor fuel (cut rounded)
      = .ok (lowerOnce amount product (cut rounded)) := by
  by_cases hlt : amount < product
  · have hz := not_isZero_cut hamount hmul hlt
    have hneg := negative_cut (Decimal.negative_div? hamount hdivisor hdiv)
    obtain ⟨fuel, rfl⟩ : ∃ k, fuel = k + 1 :=
      Nat.exists_eq_succ_of_ne_zero fun h0 => hz (show (cut rounded).mantissa = 0 by omega)
    obtain ⟨p, hp, hle⟩ := exists_mul?_lowerOnce hamount hdivisor hdiv hmul
    rw [lowerOnce, if_pos hlt] at hp ⊢
    rw [← not_lt, ← Decimal.lt_iff] at hle
    unfold stepDown
    rw [hmul, Decimal.sub?_ulp hneg hz]
    exact (if_pos hlt).trans (stepDown_of_not_lt hp hle fuel)
  · rw [lowerOnce, if_neg hlt]
    exact stepDown_of_not_lt hmul hlt fuel

end Lowering

/-- What is given out of an amount whose quotient is stored as `quotient`. -/
def portionOf (amount divisor quotient : Decimal) : Option Decimal :=
  ((quotient.truncateTo keptPlaces).mul? divisor).map fun product =>
    lowerOnce amount product (quotient.truncateTo keptPlaces)

/-- What `divideDown` gives out of an amount. -/
def portion (amount divisor : Decimal) : Option Decimal :=
  (amount.div? divisor).bind fun rounded => portionOf amount divisor rounded.normalize

theorem portion_eq_some : portion amount divisor = some q ↔
    ∃ rounded product, amount.div? divisor = some rounded ∧
      (cut rounded).mul? divisor = some product ∧ lowerOnce amount product (cut rounded) = q := by
  simp only [portion, portionOf, Option.bind_eq_some_iff, Option.map_eq_some_iff]
  exact ⟨fun ⟨a, ha, p, hp⟩ => ⟨a, p, ha, hp⟩, fun ⟨a, p, ha, hp⟩ => ⟨a, ha, p, hp⟩⟩

theorem portion_nonneg (hamount : 0 ≤ amount.toRat) (hdivisor : 0 < divisor.toRat)
    (h : portion amount divisor = some q) : 0 ≤ q.toRat := by
  obtain ⟨rounded, product, hdiv, -, rfl⟩ := portion_eq_some.mp h
  exact Decimal.nonneg_of_not_negative
    (negative_lowerOnce _ _ (negative_cut (Decimal.negative_div? hamount hdivisor hdiv)))

/-- Lowering fails only if the first product does. -/
theorem stepDown_eq_portionOf (hamount : 0 ≤ amount.toRat) (hdivisor : 0 < divisor.toRat)
    (hdiv : amount.div? divisor = some rounded) :
    stepDown amount divisor (cut rounded).mantissa (cut rounded)
      = orOverflow (portionOf amount divisor rounded.normalize) := by
  rw [portionOf, ← cut]
  cases hmul : (cut rounded).mul? divisor with
  | none =>
    unfold stepDown
    rw [hmul]
    rfl
  | some product => exact stepDown_cut hamount hdivisor hdiv hmul (Nat.min_le_right ..)

/-! ### The outcome -/

theorem pos_of_divide {rounded : Rewards} (h : r.divide divisor = .ok rounded) :
    0 < divisor.toRat := by
  unfold divide at h
  split at h
  · cases h
  next hz =>
  split at h
  · cases h
  next hneg =>
  rw [Decimal.lt_iff, Decimal.toRat_zero, not_lt] at hneg
  exact lt_of_le_of_ne hneg fun heq => hz (Decimal.isZero_iff.mpr heq.symm)

theorem Over.divide (hr : r.Over D) {rounded : Rewards} (h : r.divide divisor = .ok rounded) :
    rounded.Over D := by
  have hpos := pos_of_divide h
  rw [divide_eq_collect hpos] at h
  refine collect_over over_empty (fun c hc => ⟨hr.within c hc, hr.valid c hc⟩)
    (fun c hc a ha => ?_) h
  rw [orOverflow_eq_ok] at ha
  exact Decimal.nonneg_of_not_negative
    (Decimal.div?_cases (hr.stored c hc).toRat_pos hpos ha).1

/-- A quotient that is listed is that of the amount, as it is stored. -/
theorem exists_div?_of_mem (hr : r.Canonical) (hdiv : r.divide divisor = .ok quotients)
    {c : String × Decimal} (hc : c ∈ quotients.components) :
    ∃ rounded, (r.amount c.1).div? divisor = some rounded ∧ c.2 = rounded.normalize := by
  rw [← (hr.over.divide hdiv).amount_of_mem hc]
  exact (pointwise_divide hr (pos_of_divide hdiv)).amount_of_ok quotients hdiv c.1

theorem divideDown_eq_collect (hr : r.Canonical) (hdiv : r.divide divisor = .ok quotients) :
    r.divideDown divisor = collect (fun d a => orOverflow (portionOf (r.amount d) divisor a))
      quotients.components empty := by
  have hdown : r.divideDown divisor = collect (fun d a => stepDown (r.amount d) divisor
      (a.truncateTo keptPlaces).mantissa (a.truncateTo keptPlaces)) quotients.components empty := by
    rw [divideDown, hdiv]
    rfl
  rw [hdown]
  refine collect_congr fun c hc => ?_
  obtain ⟨rounded, hrounded, hstored⟩ := exists_div?_of_mem hr hdiv hc
  rw [hstored]
  exact stepDown_eq_portionOf (hr.value_nonneg c.1) (pos_of_divide hdiv) hrounded

theorem portionOf_zero (hamount : 0 ≤ amount.toRat) :
    portionOf amount divisor .zero = some .zero := by
  have hmul : Decimal.zero.mul? divisor = some .zero := if_pos (.inl rfl)
  have hle : ¬ amount < .zero := by rwa [Decimal.lt_iff, Decimal.toRat_zero, not_lt]
  rw [portionOf, Decimal.truncateTo_of_le (Nat.zero_le _), hmul, Option.map_some, lowerOnce,
    if_neg hle]

theorem divideDown_of_divide_error {e : RewardError} (h : r.divide divisor = .error e) :
    r.divideDown divisor = .error e := by
  rw [divideDown, h]
  rfl

/-- What an amount is given is decided by its stored quotient. -/
theorem portion_eq_portionOf (hr : r.Canonical) (hdiv : r.divide divisor = .ok quotients)
    (d : String) :
    portion (r.amount d) divisor = portionOf (r.amount d) divisor (quotients.amount d) := by
  obtain ⟨rounded, hrounded, hamount⟩ :=
    (pointwise_divide hr (pos_of_divide hdiv)).amount_of_ok quotients hdiv d
  rw [hamount, portion, hrounded, Option.bind_some]

/-- Each amount is divided, cut off and lowered; if one of them cannot be, that is an overflow. -/
theorem pointwise_divideDown (hr : r.Canonical) (hdivisor : 0 < divisor.toRat) :
    Pointwise (fun d => portion (r.amount d) divisor) (r.divideDown divisor) := by
  have hdivide := pointwise_divide hr hdivisor
  cases hdiv : r.divide divisor with
  | error e =>
    obtain ⟨rfl, d, hd⟩ := (hdivide.eq_error_iff e).mp hdiv
    rw [divideDown_of_divide_error hdiv]
    refine ⟨fun e => ?_, fun out h => by cases h⟩
    rw [Except.error.injEq, eq_comm (b := e)]
    exact (and_iff_left ⟨d, by rw [portion, hd, Option.bind_none]⟩).symm
  | ok quotients =>
    simp only [portion_eq_portionOf hr hdiv]
    rw [divideDown_eq_collect hr hdiv]
    exact pointwise_collect (g := fun d a => portionOf (r.amount d) divisor a)
      (hr.over.divide hdiv).toCanonical ascending_empty fun d =>
      ⟨.zero, portionOf_zero (hr.value_nonneg d), rfl⟩

theorem exists_divide_of_divideDown (h : r.divideDown divisor = .ok out) :
    ∃ quotients, r.divide divisor = .ok quotients := by
  cases hdiv : r.divide divisor with
  | error e =>
    rw [divideDown_of_divide_error hdiv] at h
    cases h
  | ok quotients => exact ⟨quotients, rfl⟩

theorem pos_of_divideDown (h : r.divideDown divisor = .ok out) : 0 < divisor.toRat := by
  obtain ⟨quotients, hdiv⟩ := exists_divide_of_divideDown h
  exact pos_of_divide hdiv

theorem Over.divideDown (hr : r.Over D) (h : r.divideDown divisor = .ok out) : out.Over D := by
  obtain ⟨quotients, hdiv⟩ := exists_divide_of_divideDown h
  have hquotients := hr.divide hdiv
  rw [divideDown_eq_collect hr.toCanonical hdiv] at h
  refine collect_over over_empty (fun c hc => ⟨hquotients.within c hc, hquotients.valid c hc⟩)
    (fun c hc a ha => ?_) h
  obtain ⟨rounded, hrounded, hstored⟩ := exists_div?_of_mem hr.toCanonical hdiv hc
  refine portion_nonneg (hr.value_nonneg c.1) (pos_of_divide hdiv) ?_
  rwa [portion, hrounded, Option.bind_some, ← hstored, ← orOverflow_eq_ok]

/-- How an amount of the outcome came about. -/
theorem exists_of_divideDown (hr : r.Canonical) (h : r.divideDown divisor = .ok out)
    (d : String) : ∃ rounded product, (r.amount d).div? divisor = some rounded ∧
      (cut rounded).mul? divisor = some product ∧
      out.value d = (lowerOnce (r.amount d) product (cut rounded)).toRat := by
  obtain ⟨q, hq, hval⟩ := (pointwise_divideDown hr (pos_of_divideDown h)).value_of_ok h d
  obtain ⟨rounded, product, hrounded, hmul, rfl⟩ := portion_eq_some.mp hq
  exact ⟨rounded, product, hrounded, hmul, hval⟩

/-! ### Exact bounds -/

/-- What is divided is kept to 18 places, among whatever number of shares. -/
theorem isMultiple_divideDown (hr : r.Over D) (h : r.divideDown divisor = .ok out) (d : String) :
    IsMultiple 18 (out.value d) := by
  obtain ⟨rounded, product, -, -, hval⟩ := exists_of_divideDown hr.toCanonical h d
  rw [hval]
  refine (Decimal.isMultiple_toRat _).mono ?_
  rw [scale_lowerOnce, scale_cut]
  exact Nat.min_le_right ..

/-- The largest amount of one denomination for which the bounds below are stated: at 18 places it
fits the mantissa, with room to spare. -/
def fundLimit : ℚ := 79000000000

theorem fundLimit_lt_limit : fundLimit < limit 18 := by
  norm_num [fundLimit, limit, Decimal.bound]

/-- A product on the 18-place grid compares with a smaller amount as its exact value does. -/
theorem le_iff_of_mul? {a b p : Decimal} (hmul : a.mul? b = some p)
    (hgrid : IsMultiple 18 (a.toRat * b.toRat)) (h0 : 0 ≤ a.toRat * b.toRat) {x : ℚ}
    (hx : x < limit 18) : p.toRat ≤ x ↔ a.toRat * b.toRat ≤ x := by
  by_cases hfit : a.toRat * b.toRat < limit 18
  · obtain ⟨p', hp', hval⟩ := Decimal.mul?_of_fits (by decide) (hgrid.fits h0 hfit)
    rw [hmul, Option.some.injEq] at hp'
    rw [hp', hval]
  · have hle := Decimal.limit_le_mul? (by decide) hmul (not_lt.mp hfit)
    exact iff_of_false (by linarith) (by linarith)

/-- What is divided among whole shares is not more than there is. -/
theorem divideDown_le (hr : r.Over D) (hwhole : IsMultiple 0 divisor.toRat) {d : String}
    (hlimit : r.value d ≤ fundLimit) (h : r.divideDown divisor = .ok out) :
    out.value d * divisor.toRat ≤ r.value d := by
  have hpos := pos_of_divideDown h
  have hamount := hr.value_nonneg d
  have hgrid := isMultiple_divideDown hr h d
  obtain ⟨rounded, product, hdiv, hmul, hval⟩ := exists_of_divideDown hr.toCanonical h d
  obtain ⟨p, hp, hle⟩ := exists_mul?_lowerOnce hamount hpos hdiv hmul
  have hnonneg := (Over.divideDown hr h).value_nonneg d
  have hproduct := hgrid.mul hwhole
  rw [hval] at hnonneg hproduct ⊢
  rw [Nat.add_zero] at hproduct
  exact (le_iff_of_mul? hp hproduct (mul_nonneg hnonneg hpos.le)
    (lt_of_le_of_lt hlimit fundLimit_lt_limit)).mp hle

/-! ### Step by step -/

/-- Where a quotient and its first product exist, lowering takes at most one unit, exactly: no
number on the way is negative, no later product overflows, and neither the last product nor that of
the stored amount exceeds the amount. -/
theorem lowered_at_most_once (hr : r.Canonical) (hdivisor : 0 < divisor.toRat)
    (hrounded : (r.amount d).div? divisor = some rounded)
    (hproduct : (cut rounded).mul? divisor = some product) :
    ∃ q p stored : Decimal,
      (¬ r.amount d < product ∧ q = cut rounded ∨
        r.amount d < product ∧ (cut rounded).sub? (cut rounded).ulp = some q ∧
          q.toRat = (cut rounded).toRat - 1 / 10 ^ (cut rounded).scale) ∧
      0 ≤ (cut rounded).toRat ∧ 0 ≤ q.toRat ∧
      q.mul? divisor = some p ∧ p ≤ r.amount d ∧
      (∀ fuel, min 1 (cut rounded).mantissa ≤ fuel →
        stepDown (r.amount d) divisor fuel (cut rounded) = .ok q) ∧
      (∀ out, r.divideDown divisor = .ok out → out.amount d = q.normalize) ∧
      q.normalize.mul? divisor = some stored ∧ stored ≤ r.amount d := by
  have hamount := hr.value_nonneg d
  have hneg := negative_cut (Decimal.negative_div? hamount hdivisor hrounded)
  have hcut := Decimal.nonneg_of_not_negative hneg
  have hlower := Decimal.nonneg_of_not_negative (negative_lowerOnce (r.amount d) product hneg)
  obtain ⟨p, hp, hle⟩ := exists_mul?_lowerOnce hamount hdivisor hrounded hproduct
  have hsame := Decimal.toRat_normalize (lowerOnce (r.amount d) product (cut rounded))
  have h0 := mul_nonneg hlower hdivisor.le
  -- without its trailing zeros the number is the same, and so is the rounded product
  obtain ⟨stored, hstored⟩ := Option.isSome_iff_exists.mp
    (Decimal.isSome_mul? (hsame ▸ h0) (by rw [hsame]) hp)
  have hstored_le : stored.toRat ≤ p.toRat :=
    (Decimal.isRounded_mul? (hsame ▸ h0) hstored).mono (Decimal.isRounded_mul? h0 hp)
      (by rw [hsame])
  refine ⟨lowerOnce (r.amount d) product (cut rounded), p, stored, ?_, hcut, hlower, hp,
    Decimal.le_iff.mpr hle, fun fuel hfuel => stepDown_cut hamount hdivisor hrounded hproduct hfuel,
    fun out hout => ?_, hstored, Decimal.le_iff.mpr (hstored_le.trans hle)⟩
  · by_cases hlt : r.amount d < product
    · have hz := not_isZero_cut hamount hproduct hlt
      rw [lowerOnce, if_pos hlt]
      exact .inr ⟨hlt, Decimal.sub?_ulp hneg hz,
        eq_sub_of_add_eq (Decimal.toRat_lowered hneg hz).symm⟩
    · rw [lowerOnce, if_neg hlt]
      exact .inl ⟨hlt, rfl⟩
  · obtain ⟨q, hq, hval⟩ := (pointwise_divideDown hr hdivisor).amount_of_ok out hout d
    rw [hval, Option.some.inj (hq.symm.trans
      (portion_eq_some.mpr ⟨rounded, product, hrounded, hproduct, rfl⟩))]

/-- Among 1.9 shares, 75000000000 are divided into a quotient that is rounded up, and lowered. -/
theorem lowered_at_most_once_roundedUp :
    let r : Rewards := ⟨[("uusdc", .ofPartsD 75000000000 0)]⟩
    let divisor : Decimal := .ofPartsD 19 1
    let rounded : Decimal := .ofPartsD 39473684210526315789473684211 18
    let product : Decimal := .ofPartsD 75000000000000000000000000001 18
    r.Canonical ∧ 0 < divisor.toRat ∧ (r.amount "uusdc").div? divisor = some rounded ∧
      (cut rounded).mul? divisor = some product ∧ r.amount "uusdc" < product ∧
      stepDown (r.amount "uusdc") divisor 1 (cut rounded)
        = .ok (.ofPartsD 39473684210526315789473684210 18) := by
  intro r divisor rounded product
  have hr : r.Canonical := ⟨by decide +kernel, by decide +kernel, by decide +kernel⟩
  have hdivisor : 0 < divisor.toRat := by decide +kernel
  have hrounded : (r.amount "uusdc").div? divisor = some rounded := by decide +kernel
  have hproduct : (cut rounded).mul? divisor = some product := by decide +kernel
  have hlt : r.amount "uusdc" < product := by decide +kernel
  obtain ⟨q, -, -, hq, -, -, -, -, hsteps, -⟩ :=
    lowered_at_most_once hr hdivisor hrounded hproduct
  obtain ⟨-, hsub, -⟩ := hq.resolve_left fun h => h.1 hlt
  have hlowered : (cut rounded).sub? (cut rounded).ulp
      = some (.ofPartsD 39473684210526315789473684210 18) := by decide +kernel
  rw [hsub, Option.some.injEq] at hlowered
  exact ⟨hr, hdivisor, hrounded, hproduct, hlt, hlowered ▸ hsteps 1 (Nat.min_le_left ..)⟩

end Rewards

end Accrual
