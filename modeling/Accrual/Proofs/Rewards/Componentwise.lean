/-
Arithmetic on rewards as arithmetic on exact amounts.

* `Over.add`, `Over.sub`, `Over.scale` — outcomes are canonical;
* `add_exact`, `sub_exact`, `scale_exact` — results that fit at some scale are not rounded, and
  for sums the scale may be another for each denomination (`add_representable`), and no other
  amount of a sum is exact (`value_add_eq_iff`);
* `whole_exact`, `dust_exact` — integer parts and what is left of them.
-/
import Accrual.Proofs.Rewards.Pointwise

namespace Accrual

namespace Rewards

variable {out r s : Rewards} {D : Finset String}

/-! ### Sums -/

theorem Over.add (hr : r.Over D) (hs : s.Over D) (h : r.add s = .ok out) : out.Over D := by
  rw [add_eq_collect hr.ascending hs.ascending] at h
  refine collect_over hr (fun c hc => ⟨hs.within c hc, hs.valid c hc⟩) (fun c hc a ha => ?_) h
  rw [orOverflow_eq_ok] at ha
  have hsum := add_nonneg (hr.value_nonneg c.1) (hs.stored c hc).toRat_pos.le
  exact (Decimal.isRounded_add? hsum ha).nonneg

theorem Canonical.add (hr : r.Canonical) (hs : s.Canonical) (h : r.add s = .ok out) :
    out.Canonical := by
  obtain ⟨D, hr, hs⟩ := hr.exists_over hs
  exact (hr.add hs h).toCanonical

/-- A sum of which every amount is representable is not rounded. -/
theorem add_representable (hr : r.Over D) (hs : s.Over D)
    (h : ∀ d, ∃ t ≤ 28, Decimal.Fits t (r.value d + s.value d)) :
    ∃ out, r.add s = .ok out ∧ out.Over D ∧ ∀ d, out.value d = r.value d + s.value d := by
  obtain ⟨out, hout, hval⟩ := (pointwise_add hr.toCanonical hs.toCanonical).exists_of_exact
    fun d => (h d).elim fun t hfit => Decimal.add?_of_fits hfit.1 hfit.2
  exact ⟨out, hout, hr.add hs hout, hval⟩

theorem add_exact {t : ℕ} (ht : t ≤ 28) (hr : r.Over D) (hs : s.Over D)
    (h : ∀ d, Decimal.Fits t (r.value d + s.value d)) :
    ∃ out, r.add s = .ok out ∧ out.Over D ∧ ∀ d, out.value d = r.value d + s.value d :=
  add_representable hr hs fun d => ⟨t, ht, h d⟩

/-- An amount of a sum is exact if and only if the exact sum is representable. -/
theorem value_add_eq_iff (hr : r.Canonical) (hs : s.Canonical) (h : r.add s = .ok out)
    (d : String) : out.value d = r.value d + s.value d ↔
      ∃ t ≤ 28, Decimal.Fits t (r.value d + s.value d) := by
  obtain ⟨sum, hsum, hval⟩ := (pointwise_add hr hs).value_of_ok h d
  rw [hval]
  constructor
  · intro hexact
    have hnonneg := add_nonneg (hr.value_nonneg d) (hs.value_nonneg d)
    rw [← hexact] at hnonneg ⊢
    exact ⟨sum.scale, sum.scale_le, Decimal.fits_toRat hnonneg⟩
  · rintro ⟨t, ht, hfits⟩
    obtain ⟨sum', hsum', hexact⟩ := Decimal.add?_of_fits ht hfits
    rw [Option.some.inj (hsum.symm.trans hsum'), hexact, value, value]

/-- An amount of a sum that is too large for scale `t` stays so when it is rounded. -/
theorem limit_le_value_add (hr : r.Canonical) (hs : s.Canonical) (h : r.add s = .ok out)
    {d : String} {t : ℕ} (ht : t ≤ 28) (hlarge : Decimal.limit t ≤ r.value d + s.value d) :
    Decimal.limit t ≤ out.value d := by
  obtain ⟨sum, hsum, hval⟩ := (pointwise_add hr hs).value_of_ok h d
  rw [hval]
  exact Decimal.limit_le_add? ht hsum hlarge

/-! ### Differences -/

theorem Over.sub (hr : r.Over D) (hs : s.Over D) (h : r.sub s = .ok out) : out.Over D := by
  rw [sub_eq_collect] at h
  refine collect_over hr (fun c hc => ⟨hs.within c hc, hs.valid c hc⟩) (fun c hc a ha => ?_) h
  split at ha
  · cases ha
  · next hle =>
    rw [orOverflow_eq_ok] at ha
    rw [Decimal.lt_iff, not_lt] at hle
    exact (Decimal.isRounded_sub? hle ha).nonneg

theorem sub_exact {t : ℕ} (ht : t ≤ 28) (hr : r.Over D) (hs : s.Over D)
    (h : ∀ d, Decimal.Fits t (r.value d - s.value d)) :
    ∃ out, r.sub s = .ok out ∧ out.Over D ∧ ∀ d, out.value d = r.value d - s.value d := by
  cases hsub : r.sub s with
  | error e =>
    obtain ⟨d, hlt⟩ := (exists_sub_eq_error_iff hr.toCanonical hs.toCanonical).mp ⟨e, hsub⟩
    rw [Decimal.lt_iff, ← sub_neg] at hlt
    exact absurd (h d).nonneg (not_le.mpr hlt)
  | ok out =>
    refine ⟨out, rfl, hr.sub hs hsub, fun d => ?_⟩
    obtain ⟨-, a, ha, hamount⟩ := exists_sub?_of_sub hr.toCanonical hs.toCanonical hsub d
    obtain ⟨a', ha', hval⟩ := Decimal.sub?_of_fits ht (h d)
    rw [value, hamount, Decimal.toRat_normalize, Option.some.inj (ha.symm.trans ha'), hval]
    rfl

/-! ### Products -/

theorem Over.scale (hr : r.Over D) {factor : Decimal} (h : r.scale factor = .ok out) :
    out.Over D := by
  by_cases hneg : factor < .zero
  · rw [Rewards.scale, if_pos hneg] at h
    cases h
  rw [scale_eq_collect hneg] at h
  rw [Decimal.lt_iff, Decimal.toRat_zero, not_lt] at hneg
  refine collect_over over_empty (fun c hc => ⟨hr.within c hc, hr.valid c hc⟩)
    (fun c hc a ha => ?_) h
  rw [orOverflow_eq_ok] at ha
  have hproduct := mul_nonneg (hr.stored c hc).toRat_pos.le hneg
  exact (Decimal.isRounded_mul? hproduct ha).nonneg

theorem scale_exact {t : ℕ} (ht : t ≤ 28) (hr : r.Over D) {factor : Decimal}
    (hfactor : 0 ≤ factor.toRat) (h : ∀ d, Decimal.Fits t (r.value d * factor.toRat)) :
    ∃ out, r.scale factor = .ok out ∧ out.Over D ∧ ∀ d, out.value d = r.value d * factor.toRat := by
  obtain ⟨out, hout, hval⟩ := (pointwise_scale hr.toCanonical hfactor).exists_of_exact
    fun d => Decimal.mul?_of_fits ht (h d)
  exact ⟨out, hout, hr.scale hout, hval⟩

/-! ### Integer parts and fractions -/

/-- Amounts that are computed without failing, as `whole` and `dust` do. -/
theorem foldl_put_exact (hr : r.Over D) {f : Decimal → Decimal} {g : ℚ → ℚ} (h0 : g 0 = 0)
    (hf : ∀ a : Decimal, a.negative = false → (f a).toRat = g a.toRat)
    (hg : ∀ x, 0 ≤ x → 0 ≤ g x) :
    (r.components.foldl (fun out c => out.put c.1 (f c.2)) empty).Over D ∧
      ∀ d, (r.components.foldl (fun out c => out.put c.1 (f c.2)) empty).value d
        = g (r.value d) := by
  have hcollect := @collect_ok r.components empty fun _ a => f a
  have hzero : (f .zero).normalize = .zero := by
    rw [Decimal.normalize, if_pos (Decimal.isZero_iff.mpr ?_)]
    rw [hf .zero rfl, Decimal.toRat_zero, h0]
  have hpoint : Pointwise (fun d => some (f (r.amount d)))
      (collect (fun _ a => .ok (f a)) r.components empty) :=
    pointwise_collect (g := fun _ a => some (f a)) hr.toCanonical ascending_empty fun d =>
      ⟨f .zero, rfl, hzero.symm⟩
  constructor
  · refine collect_over over_empty (fun c hc => ⟨hr.within c hc, hr.valid c hc⟩)
      (fun c hc a ha => ?_) hcollect
    rw [← Except.ok.inj ha, hf c.2 (hr.stored c hc).1]
    exact hg _ (hr.stored c hc).toRat_pos.le
  · intro d
    obtain ⟨a, ha, hval⟩ := hpoint.value_of_ok hcollect d
    rw [hval, ← Option.some.inj ha, hf _ (hr.amount_not_negative d), value]

theorem whole_exact (hr : r.Over D) : r.whole.Over D ∧ ∀ d, r.whole.value d = ⌊r.value d⌋ :=
  foldl_put_exact (g := fun x => (⌊x⌋ : ℚ)) hr (by simp) (fun _ => Decimal.toRat_whole)
    (fun x hx => by exact_mod_cast Int.floor_nonneg.mpr hx)

theorem dust_exact (hr : r.Over D) : r.dust.Over D ∧ ∀ d, r.dust.value d = Int.fract (r.value d) :=
  foldl_put_exact (g := Int.fract) hr Int.fract_zero (fun _ => Decimal.toRat_fraction)
    (fun x _ => Int.fract_nonneg x)

end Rewards

end Accrual
