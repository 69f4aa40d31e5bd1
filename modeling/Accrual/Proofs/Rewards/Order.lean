/-
Rewards compared amount by amount.

* `Rewards.AtMost r s` — `r` has at most as much of every denomination as `s`;
* `atMost_of_sub`, `exists_sub` — exactly then `r` can be taken away from `s`;
* `atMost_add` — a sum has at least as much as its first part, also where it is rounded;
* `AtMost.sub`, `AtMost.scale`, `AtMost.add` — differences, products and sums of more are not less,
  however the two results are rounded.
-/
import Accrual.Proofs.Rewards.Componentwise

namespace Accrual

namespace Rewards

/-- No amount of `r` is larger than that of `s`. -/
def AtMost (r s : Rewards) : Prop := ∀ d, r.value d ≤ s.value d

variable {r r' s s' out out' : Rewards} {factor : Decimal}

theorem AtMost.refl (r : Rewards) : r.AtMost r := fun _ => le_rfl

theorem AtMost.trans {t : Rewards} (h : r.AtMost s) (h' : s.AtMost t) : r.AtMost t :=
  fun d => (h d).trans (h' d)

/-- What could be taken away was there. -/
theorem atMost_of_sub (hr : r.Canonical) (hs : s.Canonical) (h : s.sub r = .ok out) :
    r.AtMost s := by
  intro d
  have hle := (exists_sub?_of_sub hs hr h d).1
  rwa [Decimal.lt_iff, not_lt] at hle

/-- What is there can be taken away. -/
theorem exists_sub (hr : r.Canonical) (hs : s.Canonical) (h : r.AtMost s) :
    ∃ out, s.sub r = .ok out := by
  cases hsub : s.sub r with
  | ok out => exact ⟨out, rfl⟩
  | error e =>
    obtain ⟨d, hlt⟩ := (exists_sub_eq_error_iff hs hr).mp ⟨e, hsub⟩
    rw [Decimal.lt_iff] at hlt
    exact absurd (h d) (not_le.mpr hlt)

/-- A sum is not below its first part. -/
theorem atMost_add (hr : r.Canonical) (hs : s.Canonical) (h : r.add s = .ok out) :
    r.AtMost out := by
  intro d
  obtain ⟨sum, hsum, hval⟩ := (pointwise_add hr hs).value_of_ok h d
  rw [hval]
  exact Decimal.le_add?_of_nonneg (hr.value_nonneg d) (hs.value_nonneg d) hsum

/-! ### More operands, more results -/

theorem AtMost.sub (hle : r.AtMost r') (hr : r.Canonical) (hr' : r'.Canonical) (hs : s.Canonical)
    (h : r.sub s = .ok out) (h' : r'.sub s = .ok out') : out.AtMost out' := by
  intro d
  obtain ⟨hnot, a, ha, hamount⟩ := exists_sub?_of_sub hr hs h d
  obtain ⟨hnot', a', ha', hamount'⟩ := exists_sub?_of_sub hr' hs h' d
  rw [Decimal.lt_iff, not_lt] at hnot hnot'
  rw [value, value, hamount, hamount', Decimal.toRat_normalize, Decimal.toRat_normalize]
  exact (Decimal.isRounded_sub? hnot ha).mono (Decimal.isRounded_sub? hnot' ha')
    (sub_le_sub_right (hle d) _)

theorem AtMost.scale (hle : r.AtMost r') (hr : r.Canonical) (hr' : r'.Canonical)
    (hfactor : 0 ≤ factor.toRat) (h : r.scale factor = .ok out)
    (h' : r'.scale factor = .ok out') : out.AtMost out' := by
  intro d
  obtain ⟨a, ha, hval⟩ := (pointwise_scale hr hfactor).value_of_ok h d
  obtain ⟨a', ha', hval'⟩ := (pointwise_scale hr' hfactor).value_of_ok h' d
  rw [hval, hval']
  exact (Decimal.isRounded_mul? (mul_nonneg (hr.value_nonneg d) hfactor) ha).mono
    (Decimal.isRounded_mul? (mul_nonneg (hr'.value_nonneg d) hfactor) ha')
    (mul_le_mul_of_nonneg_right (hle d) hfactor)

theorem AtMost.add (hle : s.AtMost s') (hr : r.Canonical) (hs : s.Canonical) (hs' : s'.Canonical)
    (h : r.add s = .ok out) (h' : r.add s' = .ok out') : out.AtMost out' := by
  intro d
  obtain ⟨a, ha, hval⟩ := (pointwise_add hr hs).value_of_ok h d
  obtain ⟨a', ha', hval'⟩ := (pointwise_add hr hs').value_of_ok h' d
  rw [hval, hval']
  have hr0 := hr.value_nonneg d
  exact (Decimal.isRounded_add? (add_nonneg hr0 (hs.value_nonneg d)) ha).mono
    (Decimal.isRounded_add? (add_nonneg hr0 (hs'.value_nonneg d)) ha')
    (add_le_add_right (hle d) _)

end Rewards

end Accrual
