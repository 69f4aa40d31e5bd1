/-
Arithmetic on rewards is arithmetic on every amount.

An operation visits only what its operands list, yet what it gives is what decimal arithmetic
gives for every denomination, listed or not.

* `Rewards.Pointwise f outcome` — `outcome` is an overflow if some amount `f d` does not exist, and
  else has the amount `f d` of every denomination `d`;
* `pointwise_add`, `pointwise_scale`, `pointwise_divide` — sums, products and quotients;
* `exists_sub?_of_sub` — so are differences, but they are refused exactly where too much is taken
  (`exists_sub_eq_error_iff`), and the error names the first denomination of which it is
  (`sub_eq_error_iff`).

Denominations that are not listed are zero, and zeros are the operands that leave the other one of
a sum alone and make products and quotients zero (`pointwise_collect`).
-/
import Accrual.Proofs.Rewards.Collect
import Accrual.Proofs.Utf8

namespace Accrual

namespace Rewards

/-- The outcome of computing an amount `f d` for every denomination `d`. -/
structure Pointwise (f : String → Option Decimal) (outcome : Except RewardError Rewards) :
    Prop where
  eq_error_iff : ∀ e, outcome = .error e ↔ e = .overflow ∧ ∃ d, f d = none
  amount_of_ok : ∀ out, outcome = .ok out → ∀ d, ∃ a, f d = some a ∧ out.amount d = a.normalize

variable {r s out : Rewards} {factor divisor : Decimal} {d : String}

namespace Pointwise

variable {f : String → Option Decimal} {outcome : Except RewardError Rewards}

theorem eq_overflow (h : Pointwise f outcome) {e : RewardError} (he : outcome = .error e) :
    e = .overflow := ((h.eq_error_iff e).mp he).1

theorem value_of_ok (h : Pointwise f outcome) (hout : outcome = .ok out) (d : String) :
    ∃ a, f d = some a ∧ out.value d = a.toRat := by
  obtain ⟨a, ha, hamount⟩ := h.amount_of_ok out hout d
  exact ⟨a, ha, by rw [value, hamount, Decimal.toRat_normalize]⟩

/-- Where every amount exists and has a known value, so do the rewards. -/
theorem exists_of_exact {g : String → ℚ} (h : Pointwise f outcome)
    (hf : ∀ d, ∃ a, f d = some a ∧ a.toRat = g d) :
    ∃ out, outcome = .ok out ∧ ∀ d, out.value d = g d := by
  cases hout : outcome with
  | error e =>
    obtain ⟨-, d, hnone⟩ := (h.eq_error_iff e).mp hout
    obtain ⟨a, ha, -⟩ := hf d
    rw [hnone] at ha
    cases ha
  | ok out =>
    refine ⟨out, rfl, fun d => ?_⟩
    obtain ⟨a, ha, hval⟩ := hf d
    obtain ⟨a', ha', hval'⟩ := h.value_of_ok hout d
    rw [hval', Option.some.inj (ha'.symm.trans ha), hval]

end Pointwise

theorem Canonical.ne_of_amount_eq_zero (h : r.Canonical) (hz : r.amount d = .zero) :
    ∀ c ∈ r.components, c.1 ≠ d := by
  rintro c hc rfl
  have hstored := h.stored c hc
  rw [← h.amount_of_mem hc, hz] at hstored
  exact hstored.not_isZero rfl

theorem Canonical.normalize_amount (h : r.Canonical) (d : String) :
    (r.amount d).normalize = r.amount d := by
  rcases Canonical.amount_eq_zero_or_mem r d with hz | hmem
  · rw [hz]
    rfl
  · exact (h.stored _ hmem).normalize

theorem Canonical.add?_zero (h : r.Canonical) (d : String) :
    (r.amount d).add? .zero = some (r.amount d) := by
  rcases Canonical.amount_eq_zero_or_mem r d with hz | hmem
  · rw [hz]
    rfl
  · exact (if_neg (h.stored _ hmem).not_isZero).trans (if_pos rfl)

/-- Amounts are collected into `out`, which has already what is computed for zeros. -/
theorem pointwise_collect {g : String → Decimal → Option Decimal} (hs : s.Canonical)
    (hout : OrderedMap.Ascending out.components)
    (hzero : ∀ d, ∃ a, g d .zero = some a ∧ out.amount d = a.normalize) :
    Pointwise (fun d => g d (s.amount d))
      (collect (fun d a => orOverflow (g d a)) s.components out) := by
  have hok (out' : Rewards)
      (h : collect (fun d a => orOverflow (g d a)) s.components out = .ok out') (d : String) :
      ∃ a, g d (s.amount d) = some a ∧ out'.amount d = a.normalize := by
    obtain ⟨hin, hother⟩ := amount_of_collect hs.ascending hout h
    rcases Canonical.amount_eq_zero_or_mem s d with hz | hmem
    · rw [hother d (hs.ne_of_amount_eq_zero hz), hz]
      exact hzero d
    · obtain ⟨a, ha, hamount⟩ := hin _ hmem
      exact ⟨a, orOverflow_eq_ok.mp ha, hamount⟩
  have herror (e : RewardError)
      (h : collect (fun d a => orOverflow (g d a)) s.components out = .error e) :
      e = .overflow ∧ ∃ d, g d (s.amount d) = none := by
    obtain ⟨c, hc, he⟩ := exists_of_collect_error h
    cases ha : g c.1 c.2 with
    | none =>
      rw [ha, orOverflow, Except.error.injEq] at he
      exact ⟨he.symm, c.1, by rw [hs.amount_of_mem hc, ha]⟩
    | some a =>
      rw [ha] at he
      cases he
  refine ⟨fun e => ⟨herror e, ?_⟩, hok⟩
  rintro ⟨rfl, d, hd⟩
  cases h : collect (fun d a => orOverflow (g d a)) s.components out with
  | error e => rw [(herror e h).1]
  | ok out' =>
    obtain ⟨a, ha, -⟩ := hok out' h d
    rw [hd] at ha
    cases ha

/-! ### Sums, products and quotients -/

theorem pointwise_add (hr : r.Canonical) (hs : s.Canonical) :
    Pointwise (fun d => (r.amount d).add? (s.amount d)) (r.add s) := by
  rw [add_eq_collect hr.ascending hs.ascending]
  exact pointwise_collect (g := fun d a => (r.amount d).add? a) hs hr.ascending fun d =>
    ⟨r.amount d, hr.add?_zero d, (hr.normalize_amount d).symm⟩

theorem pointwise_scale (hr : r.Canonical) (hfactor : 0 ≤ factor.toRat) :
    Pointwise (fun d => (r.amount d).mul? factor) (r.scale factor) := by
  rw [scale_eq_collect (by rwa [Decimal.lt_iff, Decimal.toRat_zero, not_lt])]
  exact pointwise_collect (g := fun _ a => a.mul? factor) hr ascending_empty fun _ =>
    ⟨.zero, if_pos (.inl rfl), rfl⟩

theorem pointwise_divide (hr : r.Canonical) (hdivisor : 0 < divisor.toRat) :
    Pointwise (fun d => (r.amount d).div? divisor) (r.divide divisor) := by
  rw [divide_eq_collect hdivisor]
  exact pointwise_collect (g := fun _ a => a.div? divisor) hr ascending_empty fun _ =>
    ⟨.zero, if_pos rfl, rfl⟩

/-- What is not listed does not overflow. -/
theorem exists_amount_eq_none_iff (hr : r.Canonical) {g : Decimal → Option Decimal}
    (hzero : g .zero ≠ none) :
    (∃ d, g (r.amount d) = none) ↔ ∃ c ∈ r.components, g c.2 = none := by
  constructor
  · rintro ⟨d, hd⟩
    rcases Canonical.amount_eq_zero_or_mem r d with hz | hmem
    · exact absurd (hz ▸ hd) hzero
    · exact ⟨_, hmem, hd⟩
  · rintro ⟨c, hc, hnone⟩
    exact ⟨c.1, by rwa [hr.amount_of_mem hc]⟩

/-! ### Differences -/

theorem mem_of_amount_lt (hr : r.Canonical) (h : r.amount d < s.amount d) :
    (d, s.amount d) ∈ s.components := by
  refine (Canonical.amount_eq_zero_or_mem s d).resolve_left fun hz => ?_
  rw [hz, Decimal.lt_iff, Decimal.toRat_zero] at h
  exact absurd (hr.value_nonneg d) (not_le.mpr h)

theorem exceeds_iff (hr : r.Canonical) (hs : s.Canonical) :
    s.Exceeds r ↔ ∃ d, r.amount d < s.amount d := by
  constructor
  · rintro ⟨c, hc, hlt⟩
    exact ⟨c.1, by rwa [hs.amount_of_mem hc]⟩
  · rintro ⟨d, hlt⟩
    exact ⟨_, mem_of_amount_lt hr hlt, hlt⟩

/-- A difference that was computed is that of the amounts, none of which was too large. -/
theorem exists_sub?_of_sub (hr : r.Canonical) (hs : s.Canonical) (h : r.sub s = .ok out)
    (d : String) : ¬ r.amount d < s.amount d ∧
      ∃ a, (r.amount d).sub? (s.amount d) = some a ∧ out.amount d = a.normalize := by
  rw [sub_eq_collect] at h
  obtain ⟨hin, hother⟩ := amount_of_collect hs.ascending hr.ascending h
  rcases Canonical.amount_eq_zero_or_mem s d with hz | hmem
  · rw [hz, Decimal.lt_iff, Decimal.toRat_zero]
    refine ⟨not_lt.mpr (hr.value_nonneg d), r.amount d, hr.add?_zero d, ?_⟩
    rw [hother d (hs.ne_of_amount_eq_zero hz), hr.normalize_amount]
  · obtain ⟨a, ha, hamount⟩ := hin _ hmem
    dsimp only at ha
    split at ha
    · cases ha
    · next hle => exact ⟨hle, a, orOverflow_eq_ok.mp ha, hamount⟩

/-- A denomination is reported of which too much is taken, as is of none before it. -/
theorem exists_of_sub_error (hr : r.Canonical) (hs : s.Canonical) {e : RewardError}
    (h : r.sub s = .error e) :
    ∃ d, e = .negativeComponent d (r.amount d) (s.amount d) ∧ r.amount d < s.amount d ∧
      ∀ d', r.amount d' < s.amount d' → Bytes.ofString d ≤ Bytes.ofString d' := by
  rw [sub_eq_collect, collect_eq_error_iff] at h
  obtain ⟨before, c, after, hsplit, hc, hok⟩ := h
  have hmem : c ∈ s.components := hsplit ▸ List.mem_append_right before List.mem_cons_self
  split at hc
  · next hlt =>
    rw [← hs.amount_of_mem hmem] at hlt hc
    refine ⟨c.1, (Except.error.inj hc).symm, hlt, fun d' hlt' => ?_⟩
    have hmem' := mem_of_amount_lt hr hlt'
    rw [hsplit, List.mem_append, List.mem_cons] at hmem'
    rcases hmem' with hbefore | heq | hafter
    · -- what was visited before was not too much
      obtain ⟨a, ha⟩ := hok _ hbefore
      rw [if_pos hlt'] at ha
      cases ha
    · exact heq ▸ Std.le_refl _
    · have hascending := hs.ascending
      rw [hsplit] at hascending
      have hlater := (List.pairwise_cons.1 (List.pairwise_append.1 hascending).2.1).1 _ hafter
      exact Std.le_of_lt (Bytes.ofString_lt_ofString_iff.mpr hlater)
  · -- a difference that is not negative fits
    have hsome := Decimal.isSome_sub? (hr.value_nonneg c.1) (hs.stored c hmem).toRat_pos.le
    obtain ⟨a, ha⟩ := Option.isSome_iff_exists.mp hsome
    rw [ha] at hc
    cases hc

/-- A difference is refused exactly if too much is taken of some denomination. -/
theorem exists_sub_eq_error_iff (hr : r.Canonical) (hs : s.Canonical) :
    (∃ e, r.sub s = .error e) ↔ ∃ d, r.amount d < s.amount d := by
  constructor
  · rintro ⟨e, h⟩
    obtain ⟨d, -, hlt, -⟩ := exists_of_sub_error hr hs h
    exact ⟨d, hlt⟩
  · rintro ⟨d, hlt⟩
    cases h : r.sub s with
    | error e => exact ⟨e, rfl⟩
    | ok out => exact absurd hlt (exists_sub?_of_sub hr hs h d).1

/-- The error reports the first denomination of which too much is taken. -/
theorem sub_eq_error_iff (hr : r.Canonical) (hs : s.Canonical) {e : RewardError} :
    r.sub s = .error e ↔
      ∃ d, e = .negativeComponent d (r.amount d) (s.amount d) ∧ r.amount d < s.amount d ∧
        ∀ d', r.amount d' < s.amount d' → Bytes.ofString d ≤ Bytes.ofString d' := by
  refine ⟨exists_of_sub_error hr hs, ?_⟩
  rintro ⟨d, rfl, hlt, hleast⟩
  obtain ⟨e, he⟩ := (exists_sub_eq_error_iff hr hs).mpr ⟨d, hlt⟩
  obtain ⟨d', rfl, hlt', hleast'⟩ := exists_of_sub_error hr hs he
  have hd : d = d' :=
    Bytes.ofString_injective (Std.le_antisymm (hleast d' hlt') (hleast' d hlt))
  rw [he, hd]

/-! ### All four operations -/

/-- Sums, differences, products and quotients of rewards are those of the amounts of all
denominations; the operations fail where an amount cannot be computed, and a difference also where
it would be negative. -/
theorem operations_are_pointwise (hr : r.Canonical) (hs : s.Canonical)
    (hfactor : 0 ≤ factor.toRat) (hdivisor : 0 < divisor.toRat) :
    Pointwise (fun d => (r.amount d).add? (s.amount d)) (r.add s) ∧
      ((∃ e, r.sub s = .error e) ↔ s.Exceeds r) ∧
      (s.Exceeds r ↔ ∃ d, r.amount d < s.amount d) ∧
      (∀ e, r.sub s = .error e ↔
        ∃ d, e = .negativeComponent d (r.amount d) (s.amount d) ∧ r.amount d < s.amount d ∧
          ∀ d', r.amount d' < s.amount d' → Bytes.ofString d ≤ Bytes.ofString d') ∧
      (∀ out, r.sub s = .ok out → ∀ d,
        ∃ a, (r.amount d).sub? (s.amount d) = some a ∧ out.amount d = a.normalize) ∧
      Pointwise (fun d => (r.amount d).mul? factor) (r.scale factor) ∧
      ((∃ d, (r.amount d).mul? factor = none) ↔ ∃ c ∈ r.components, c.2.mul? factor = none) ∧
      Pointwise (fun d => (r.amount d).div? divisor) (r.divide divisor) ∧
      ((∃ d, (r.amount d).div? divisor = none) ↔
        ∃ c ∈ r.components, c.2.div? divisor = none) :=
  ⟨pointwise_add hr hs, (exists_sub_eq_error_iff hr hs).trans (exceeds_iff hr hs).symm,
    exceeds_iff hr hs, fun _ => sub_eq_error_iff hr hs,
    fun _ h d => (exists_sub?_of_sub hr hs h d).2,
    pointwise_scale hr hfactor,
    exists_amount_eq_none_iff (g := fun a => a.mul? factor) hr
      (Option.some_ne_none _ <| (if_pos (.inl rfl)).symm.trans ·),
    pointwise_divide hr hdivisor,
    exists_amount_eq_none_iff (g := fun a => a.div? divisor) hr
      (Option.some_ne_none _ <| (if_pos rfl).symm.trans ·)⟩

/-- Of two denominations too much is taken; the first one is reported, which is not the one that
is there. -/
theorem operations_are_pointwise_twoDenoms :
    let r : Rewards := ⟨[("uusdc", .ofPartsD 50 0)]⟩
    let s : Rewards := ⟨[("uatom", .ofPartsD 3 0), ("uusdc", .ofPartsD 60 0)]⟩
    r.Canonical ∧ s.Canonical ∧ 0 ≤ (Decimal.ofPartsD 0 0).toRat ∧
      0 < (Decimal.ofPartsD 7 0).toRat ∧
      r.sub s = .error (.negativeComponent "uatom" .zero (.ofPartsD 3 0)) ∧
      Pointwise (fun d => (r.amount d).div? (.ofPartsD 7 0)) (r.divide (.ofPartsD 7 0)) := by
  intro r s
  have hr : r.Canonical := ⟨by decide +kernel, by decide +kernel, by decide +kernel⟩
  have hs : s.Canonical := ⟨by decide +kernel, by decide +kernel, by decide +kernel⟩
  have hfactor : 0 ≤ (Decimal.ofPartsD 0 0).toRat := by decide +kernel
  have hdivisor : 0 < (Decimal.ofPartsD 7 0).toRat := by decide +kernel
  have h := operations_are_pointwise hr hs hfactor hdivisor
  exact ⟨hr, hs, hfactor, hdivisor, by decide +kernel, h.2.2.2.2.2.2.2.1⟩

end Rewards

end Accrual
