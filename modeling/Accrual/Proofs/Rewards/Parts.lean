/-
Rewards taken apart and put together again.

* `Canonical.ext` — canonical rewards with the same values are the same;
* `whole_add_dust` — integer parts and fractions add up to the whole, at any magnitude and scale;
* `whole_dust`, `dust_dust` — fractions have no integer parts and are their own fractions;
* `whole_whole`, `dust_whole` — integer parts are their own, and have no fractions;
* `split_is_lossless` — what is known of the two parts of rewards, all together;
* `sub_itself`, `empty_scale`, `add_empty` — what has not grown adds nothing.
-/
import Accrual.Proofs.Rewards.Componentwise

namespace Accrual

namespace Rewards

variable {D : Finset String} {r s : Rewards}

/-! ### Values determine rewards -/

/-- The mantissa at the smaller scale would have to end in a zero at the larger one. -/
theorem IsStored.eq_of_scale_le {a b : Decimal} (ha : IsStored a) (hb : IsStored b)
    (h : a.toRat = b.toRat) (hs : a.scale ≤ b.scale) : a = b := by
  obtain ⟨na, ma, sa, hma, hsa⟩ := a
  obtain ⟨nb, mb, sb, hmb, hsb⟩ := b
  obtain ⟨i, rfl⟩ := Nat.exists_eq_add_of_le hs
  rw [Decimal.toRat_of_nonneg ha.1, Decimal.toRat_of_nonneg hb.1,
    div_eq_div_iff (by positivity) (by positivity), pow_add] at h
  have hmul : ma * tenTo i = mb := by
    have hten : (10 : ℚ) ^ sa ≠ 0 := by positivity
    have hq : (ma : ℚ) * 10 ^ i = mb := mul_right_cancel₀ hten (by
      rw [mul_assoc, mul_comm ((10 : ℚ) ^ i)]
      exact h)
    rw [← cast_tenTo] at hq
    exact_mod_cast hq
  have hi : i = 0 := by
    cases i with
    | zero => rfl
    | succ i =>
      rcases hb.2.2 with hzero | htrail
      · exact absurd hzero (Nat.succ_ne_zero (sa + i))
      · refine absurd ?_ htrail
        show mb % 10 = 0
        rw [← hmul, tenTo_succ, ← Nat.mul_assoc]
        exact Nat.mul_mod_left _ _
  have hna : na = nb := Eq.trans ha.1 hb.1.symm
  subst hi hna
  rw [tenTo_zero, Nat.mul_one] at hmul
  subst hmul
  rfl

theorem IsStored.ext {a b : Decimal} (ha : IsStored a) (hb : IsStored b)
    (h : a.toRat = b.toRat) : a = b := by
  rcases Nat.le_total a.scale b.scale with hs | hs
  · exact ha.eq_of_scale_le hb h hs
  · exact (hb.eq_of_scale_le ha h.symm hs).symm

theorem Canonical.find?_eq (h : r.Canonical) (d : String) :
    OrderedMap.find? r.components d = if r.value d = 0 then none else some (r.amount d) := by
  rw [value, amount]
  cases hfind : OrderedMap.find? r.components d with
  | none => rw [if_pos (by exact Decimal.toRat_zero)]
  | some a =>
    have ha := h.stored _ (OrderedMap.mem_of_find? hfind)
    exact (if_neg ha.toRat_pos.ne').symm

theorem Canonical.ext (hr : r.Canonical) (hs : s.Canonical) (h : ∀ d, r.value d = s.value d) :
    r = s := by
  have hamount (d : String) : r.amount d = s.amount d := by
    have hd := h d
    rw [value, value] at hd
    rcases Canonical.amount_eq_zero_or_mem r d with hr0 | hrm <;>
      rcases Canonical.amount_eq_zero_or_mem s d with hs0 | hsm
    · rw [hr0, hs0]
    · have := (hs.stored _ hsm).toRat_pos
      rw [hr0, Decimal.toRat_zero] at hd
      exact absurd hd this.ne
    · have := (hr.stored _ hrm).toRat_pos
      rw [hs0, Decimal.toRat_zero] at hd
      exact absurd hd this.ne'
    · exact (hr.stored _ hrm).ext (hs.stored _ hsm) hd
  have hcomponents : r.components = s.components :=
    OrderedMap.Ascending.ext hr.ascending hs.ascending fun d => by
      rw [hr.find?_eq, hs.find?_eq, h, hamount]
  rw [← show Rewards.mk r.components = r from rfl, hcomponents]

theorem Canonical.eq_empty (h : r.Canonical) (h0 : ∀ d, r.value d = 0) : r = empty :=
  h.ext (over_empty (D := ∅)).toCanonical fun d => by rw [h0, value_empty]

/-! ### Integer parts and fractions -/

theorem whole_add_dust (hr : r.Over D) : r.whole.add r.dust = .ok r := by
  obtain ⟨hwhole, hw⟩ := whole_exact hr
  obtain ⟨hdust, hd⟩ := dust_exact hr
  have hsum (d : String) : r.whole.value d + r.dust.value d = r.value d := by
    rw [hw, hd, Int.floor_add_fract]
  obtain ⟨out, hadd, hout, hval⟩ := add_representable hwhole hdust fun d => by
    rw [hsum]
    exact ⟨_, (r.amount d).scale_le, Decimal.fits_toRat (hr.value_nonneg d)⟩
  rw [hadd, hout.toCanonical.ext hr.toCanonical fun d => by rw [hval, hsum]]

theorem whole_dust (hr : r.Over D) : r.dust.whole = empty := by
  obtain ⟨hdust, hd⟩ := dust_exact hr
  obtain ⟨hwhole, hw⟩ := whole_exact hdust
  exact hwhole.toCanonical.eq_empty fun d => by rw [hw, hd, Int.floor_fract, Int.cast_zero]

theorem dust_dust (hr : r.Over D) : r.dust.dust = r.dust := by
  obtain ⟨hdust, hd⟩ := dust_exact hr
  obtain ⟨hdust', hd'⟩ := dust_exact hdust
  exact hdust'.toCanonical.ext hdust.toCanonical fun d => by rw [hd', hd, Int.fract_fract]

theorem whole_whole (hr : r.Over D) : r.whole.whole = r.whole := by
  obtain ⟨hwhole, hw⟩ := whole_exact hr
  obtain ⟨hwhole', hw'⟩ := whole_exact hwhole
  exact hwhole'.toCanonical.ext hwhole.toCanonical fun d => by rw [hw', hw, Int.floor_intCast]

theorem dust_whole (hr : r.Over D) : r.whole.dust = empty := by
  obtain ⟨hwhole, hw⟩ := whole_exact hr
  obtain ⟨hdust, hd⟩ := dust_exact hwhole
  exact hdust.toCanonical.eq_empty fun d => by rw [hd, hw, Int.fract_intCast]

/-- What is listed of the integer parts is a natural number. -/
theorem exists_natCast_of_mem_whole (hr : r.Over D) {c : String × Decimal}
    (hc : c ∈ r.whole.components) : ∃ n : ℕ, c.2.toRat = n := by
  obtain ⟨hwhole, hw⟩ := whole_exact hr
  refine ⟨⌊r.value c.1⌋₊, ?_⟩
  rw [← hwhole.amount_of_mem hc, natCast_floor_eq_intCast_floor (hr.value_nonneg c.1), ← hw, value]

theorem toRat_lt_one_of_mem_dust (hr : r.Over D) {c : String × Decimal}
    (hc : c ∈ r.dust.components) : c.2.toRat < 1 := by
  obtain ⟨hdust, hd⟩ := dust_exact hr
  rw [← hdust.amount_of_mem hc, ← value, hd]
  exact Int.fract_lt_one _

/-- Every amount is split into its integer part and its fraction, and the two parts add up to the
rewards, whatever their mantissas and scales.  Splitting a part again leaves it as it is. -/
theorem split_is_lossless (hr : r.Canonical) :
    r.whole.add r.dust = .ok r ∧
      (∀ c ∈ r.whole.components, ∃ n : ℕ, c.2.toRat = n) ∧
      (∀ c ∈ r.dust.components, c.2.toRat < 1) ∧
      (∀ d, r.whole.value d = ⌊r.value d⌋ ∧ r.dust.value d = Int.fract (r.value d)) ∧
      (r.dust.whole = empty ∧ r.dust.dust = r.dust) ∧
      (r.whole.whole = r.whole ∧ r.whole.dust = empty) :=
  ⟨whole_add_dust hr.over, fun _ => exists_natCast_of_mem_whole hr.over,
    fun _ => toRat_lt_one_of_mem_dust hr.over,
    fun d => ⟨(whole_exact hr.over).2 d, (dust_exact hr.over).2 d⟩,
    ⟨whole_dust hr.over, dust_dust hr.over⟩, whole_whole hr.over, dust_whole hr.over⟩

/-- The largest mantissa with 28 places and with 27, an amount that is a fraction, and one that is
an integer. -/
theorem split_is_lossless_largest :
    let r : Rewards := ⟨[("uatom", .ofPartsD 79228162514264337593543950335 28),
      ("ubtc", .ofPartsD 79228162514264337593543950335 27), ("uosmo", .ofPartsD 4 1),
      ("uusdc", .ofPartsD 79228162514264337593543950335 0)]⟩
    r.Canonical ∧ r.whole.size = 3 ∧ r.dust.size = 3 ∧ r.whole.add r.dust = .ok r ∧
      r.dust.dust = r.dust ∧ r.whole.dust = empty := by
  intro r
  have hr : r.Canonical := ⟨by decide +kernel, by decide +kernel, by decide +kernel⟩
  obtain ⟨hadd, -, -, -, ⟨-, hdust⟩, -, hwhole⟩ := split_is_lossless hr
  exact ⟨hr, by decide +kernel, by decide +kernel, hadd, hdust, hwhole⟩

/-! ### Nothing added -/

theorem sub_itself (hr : r.Over D) : r.sub r = .ok empty := by
  obtain ⟨out, hsub, hout, hval⟩ := sub_exact (t := 0) (by decide) hr hr fun d => by
    rw [sub_self]
    exact ⟨0, by decide, by simp⟩
  rw [hsub, hout.toCanonical.eq_empty fun d => by rw [hval, sub_self]]

theorem empty_scale {factor : Decimal} (h : 0 ≤ factor.toRat) : empty.scale factor = .ok empty := by
  rw [scale_eq_collect (by rwa [Decimal.lt_iff, Decimal.toRat_zero, not_lt])]
  rfl

theorem add_empty (r : Rewards) : r.add empty = .ok r := rfl

end Rewards

end Accrual
