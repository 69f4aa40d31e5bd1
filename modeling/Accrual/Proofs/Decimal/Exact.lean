/-
The arithmetic of decimals against exact arithmetic.

A sum, difference or product of decimals that is not negative is the exact one, rounded:

* `Decimal.IsRounded x c` — `c` is what rounding makes of `x` (`isRounded_add?`, `isRounded_sub?`,
  `isRounded_mul?`);
* `IsRounded.mono` — results are ordered as the exact ones are; so a result is not on the other
  side of a decimal (`IsRounded.le`, `IsRounded.ge`), and what is too large for a scale stays so
  (`IsRounded.limit_le`);
* `Decimal.add?_of_fits`, `Decimal.sub?_of_fits`, `Decimal.mul?_of_fits` — where the exact result
  is the value of a mantissa at some scale up to 28, the result exists and has this value.

So a result below the limit of its scale was never rounded.  `Decimal.add?_comm` exchanges the
operands of a sum, `Decimal.add?_lt_zero_iff` keeps the sign of any sum, `Decimal.isSome_sub?` says
that the difference of two numbers that are not negative always exists, and
`Decimal.isSome_add?_iff` and `Decimal.isSome_mul?_iff` when a sum or a product does; so a product
exists if a larger one does (`Decimal.isSome_mul?`).
-/
import Mathlib.Algebra.Order.Floor.Ring
import Mathlib.Data.Rat.Floor
import Accrual.Proofs.Decimal.Rounding

namespace Accrual

namespace Decimal

variable {a b c d : Decimal} {x y : ℚ} {s t : ℕ}

/-! ### Rounded numbers -/

/-- The value of `c` is `x`, rounded as far as it has to be. -/
def IsRounded (x : ℚ) (c : Decimal) : Prop :=
  ∃ n s : ℕ, (n : ℚ) / 10 ^ s = x ∧ c.toRat = rounded n s / 10 ^ s

theorem IsRounded.mono (hc : IsRounded x c) (hd : IsRounded y d) (h : x ≤ y) :
    c.toRat ≤ d.toRat := by
  obtain ⟨n, s, rfl, hc⟩ := hc
  obtain ⟨n', s', rfl, hd⟩ := hd
  rw [hc, hd]
  exact rounded_div_mono h

theorem isRounded_of_nonneg (h : 0 ≤ c.toRat) : IsRounded c.toRat c := by
  have hval : (c.mantissa : ℚ) / 10 ^ c.scale = c.toRat := by rw [← abs_toRat, abs_of_nonneg h]
  exact ⟨c.mantissa, c.scale, hval, by rw [rounded_of_lt c.mantissa_lt c.scale_le, hval]⟩

theorem IsRounded.nonneg (hc : IsRounded x c) : 0 ≤ c.toRat := by
  obtain ⟨n, s, -, hc⟩ := hc
  rw [hc]
  positivity

/-- Rounding does not go above a decimal that the exact number is not above. -/
theorem IsRounded.le (hc : IsRounded x c) (hd : 0 ≤ d.toRat) (h : x ≤ d.toRat) :
    c.toRat ≤ d.toRat := hc.mono (isRounded_of_nonneg hd) h

/-- Rounding does not go below a decimal that the exact number is not below. -/
theorem IsRounded.ge (hc : IsRounded x c) (hd : 0 ≤ d.toRat) (h : d.toRat ≤ x) :
    d.toRat ≤ c.toRat := (isRounded_of_nonneg hd).mono hc h

theorem IsRounded.limit_le (hc : IsRounded x c) (ht : t ≤ 28) (h : limit t ≤ x) :
    limit t ≤ c.toRat := by
  obtain ⟨n, s, rfl, hc⟩ := hc
  have hround := rounded_div_mono h
  rw [rounded_bound ht, ← hc] at hround
  refine le_trans (div_le_div_of_nonneg_right ?_ (by positivity)) hround
  push_cast
  linarith

theorem IsRounded.eq_of_fits (hc : IsRounded x c) (ht : t ≤ 28) (h : Fits t x) :
    c.toRat = x := by
  obtain ⟨n, s, rfl, hc⟩ := hc
  rw [hc, rounded_div_of_fits ht h]

theorem isRounded_of_fit? {n : ℕ} (h : fit? false n s = some c) :
    IsRounded ((n : ℚ) / 10 ^ s) c := by
  refine ⟨n, s, rfl, ?_⟩
  rw [← abs_toRat_of_fit? h, abs_of_nonneg (nonneg_of_not_negative (negative_of_fit? h))]

theorem isSome_fit?_of_fits {negative : Bool} {n : ℕ} (ht : t ≤ 28)
    (h : Fits t ((n : ℚ) / 10 ^ s)) : (fit? negative n s).isSome := by
  rw [isSome_fit?_iff, rounded_div_of_fits ht h]
  obtain ⟨m, hm, heq⟩ := h
  calc (n : ℚ) / 10 ^ s = m / 10 ^ t := heq
    _ ≤ m := div_le_self (by positivity) (one_le_pow₀ (by norm_num))
    _ < bound := by exact_mod_cast hm

/-! ### Sums -/

/-- The exact sum that `add?` rounds: with a zero operand there is nothing to round, otherwise it
is an integer at the larger of the two scales. -/
theorem add?_cases (a b : Decimal) :
    (∃ c, a.add? b = some c ∧ c.toRat = a.toRat + b.toRat) ∨
      ∃ (n : ℤ) (s : ℕ), s ≤ 28 ∧ (n : ℚ) / 10 ^ s = a.toRat + b.toRat ∧
        a.add? b = fit? (n < 0) n.natAbs s := by
  unfold add?
  split
  · next h => exact .inl ⟨b, rfl, by rw [isZero_iff.mp h, zero_add]⟩
  · split
    · next h => exact .inl ⟨a, rfl, by rw [isZero_iff.mp h, add_zero]⟩
    · refine .inr ⟨_, max a.scale b.scale, max_le a.scale_le b.scale_le, ?_, rfl⟩
      have hscale : ∀ c : Decimal, ∀ s, c.scale ≤ s →
          ((c.signed * tenTo (s - c.scale) : ℤ) : ℚ) = c.toRat * 10 ^ s := by
        intro c s hs
        obtain ⟨i, rfl⟩ := Nat.exists_eq_add_of_le hs
        rw [Nat.add_sub_cancel_left, toRat_eq, pow_add, ← mul_assoc,
          div_mul_cancel₀ _ (by positivity)]
        push_cast
        rw [cast_tenTo]
      rw [Int.cast_add, hscale a _ (le_max_left ..), hscale b _ (le_max_right ..), ← add_mul,
        mul_div_cancel_right₀ _ (by positivity)]

theorem natAbs_div_pow {n : ℤ} {s : ℕ} {x : ℚ} (h : (n : ℚ) / 10 ^ s = x) :
    (n.natAbs : ℚ) / 10 ^ s = |x| := by
  rw [← h, abs_div, abs_of_pos (show (0 : ℚ) < 10 ^ s by positivity), Nat.cast_natAbs,
    Int.cast_abs]

theorem nonneg_of_div_pow {n : ℤ} {s : ℕ} {x : ℚ} (h : (n : ℚ) / 10 ^ s = x) (hx : 0 ≤ x) :
    0 ≤ n := by
  rw [← h, le_div_iff₀ (by positivity), zero_mul] at hx
  exact_mod_cast hx

/-- The exact sum that `add?` rounds, where it is not negative. -/
theorem add?_cases_of_nonneg (h : 0 ≤ a.toRat + b.toRat) :
    (∃ c, a.add? b = some c ∧ c.toRat = a.toRat + b.toRat) ∨
      ∃ n s : ℕ, (n : ℚ) / 10 ^ s = a.toRat + b.toRat ∧ a.add? b = fit? false n s := by
  refine (add?_cases a b).imp_right ?_
  rintro ⟨n, s, -, hx, hadd⟩
  have hn := nonneg_of_div_pow hx h
  refine ⟨n.natAbs, s, ?_, ?_⟩
  · rw [natAbs_div_pow hx, abs_of_nonneg h]
  · rw [hadd, decide_eq_false (by omega)]

theorem isRounded_add? (h0 : 0 ≤ a.toRat + b.toRat) (h : a.add? b = some c) :
    IsRounded (a.toRat + b.toRat) c := by
  obtain ⟨d, hd, hval⟩ | ⟨n, s, hx, hfit⟩ := add?_cases_of_nonneg h0
  · rw [h, Option.some.injEq] at hd
    rw [← hval, ← hd]
    exact isRounded_of_nonneg (by rwa [hd, hval])
  · exact hx ▸ isRounded_of_fit? (hfit.symm.trans h)

theorem add?_of_fits (ht : t ≤ 28) (h : Fits t (a.toRat + b.toRat)) :
    ∃ c, a.add? b = some c ∧ c.toRat = a.toRat + b.toRat := by
  obtain hexact | ⟨n, s, hx, hadd⟩ := add?_cases_of_nonneg h.nonneg
  · exact hexact
  · obtain ⟨c, hc⟩ := Option.isSome_iff_exists.mp (hadd ▸ isSome_fit?_of_fits ht (hx ▸ h))
    exact ⟨c, hc, (isRounded_add? h.nonneg hc).eq_of_fits ht h⟩

/-- It makes no difference which operand comes first, but of two zeros the second one is taken. -/
theorem add?_comm (h : a.IsZero → b.IsZero → a = b) : a.add? b = b.add? a := by
  unfold add?
  by_cases ha : a.IsZero
  · by_cases hb : b.IsZero
    · rw [h ha hb]
    · rw [if_pos ha, if_neg hb, if_pos ha]
  · by_cases hb : b.IsZero
    · rw [if_neg ha, if_pos hb, if_pos hb]
    · rw [if_neg ha, if_neg hb, if_neg hb, if_neg ha, Nat.max_comm b.scale a.scale]
      simp only [Int.add_comm]

/-- A sum too large for scale `t` stays so when it is rounded. -/
theorem limit_le_add? (ht : t ≤ 28) (hadd : a.add? b = some c)
    (h : limit t ≤ a.toRat + b.toRat) : limit t ≤ c.toRat :=
  (isRounded_add? (le_trans (by unfold limit; positivity) h) hadd).limit_le ht h

/-- A sum of numbers that are not negative is not below the first of them, rounded or not. -/
theorem le_add?_of_nonneg (ha : 0 ≤ a.toRat) (hb : 0 ≤ b.toRat) (hadd : a.add? b = some c) :
    a.toRat ≤ c.toRat :=
  (isRounded_add? (add_nonneg ha hb) hadd).ge ha (le_add_of_nonneg_right hb)

/-- Rounding keeps the sign of a sum, zero included. -/
theorem add?_lt_zero_iff (hadd : a.add? b = some c) :
    c.toRat < 0 ↔ a.toRat + b.toRat < 0 := by
  obtain ⟨d, hd, hval⟩ | ⟨n, s, hs, hx, heq⟩ := add?_cases a b
  · rw [hadd, Option.some.injEq] at hd
    rw [hd, hval]
  · rw [hadd] at heq
    have hneg := negative_of_fit? heq.symm
    have hzero := mantissa_eq_zero_of_fit? heq.symm hs
    rw [← hx, div_lt_iff₀ (by positivity), zero_mul, Int.cast_lt_zero]
    constructor
    · intro hlt
      by_contra hn
      rw [decide_eq_false hn] at hneg
      linarith [nonneg_of_not_negative hneg]
    · intro hn
      rw [decide_eq_true hn] at hneg
      rw [toRat_eq, signed, hneg, if_pos rfl]
      have hm : c.mantissa ≠ 0 := fun h0 => by
        have := Int.natAbs_eq_zero.mp (hzero.mp h0)
        omega
      have : (0 : ℚ) < c.mantissa := by exact_mod_cast Nat.pos_of_ne_zero hm
      push_cast
      exact div_neg_of_neg_of_pos (by linarith) (by positivity)

/-- A sum that is not negative carries no minus sign, where its first operand has none, and its
second none in place of a zero. -/
theorem negative_add? (hadd : a.add? b = some c) (h : 0 ≤ a.toRat + b.toRat)
    (ha : a.negative = false) (hb : a.IsZero → b.negative = false) : c.negative = false := by
  have h0 : 0 ≤ c.toRat := by rwa [← not_lt, add?_lt_zero_iff hadd, not_lt]
  by_cases hz : c.IsZero
  · unfold add? at hadd
    split at hadd
    · next hza =>
      rw [← Option.some.inj hadd]
      exact hb hza
    · split at hadd
      · rw [← Option.some.inj hadd]
        exact ha
      · -- only zero is rounded to zero, and that has no sign
        have hzero := (mantissa_eq_zero_of_fit? hadd (max_le a.scale_le b.scale_le)).mp hz
        rw [Int.natAbs_eq_zero] at hzero
        rw [negative_of_fit? hadd, hzero]
        rfl
  · exact not_negative_of_nonneg h0 hz

/-! ### Differences -/

/-- The operand that `sub?` adds. -/
theorem sub?_eq (a b : Decimal) :
    ∃ c : Decimal, a.sub? b = a.add? c ∧ c.toRat = -b.toRat := by
  unfold sub?
  split
  · next h => exact ⟨b, rfl, by rw [isZero_iff.mp h, neg_zero]⟩
  · exact ⟨b.neg, rfl, toRat_neg b⟩

theorem isRounded_sub? (h0 : b.toRat ≤ a.toRat) (h : a.sub? b = some c) :
    IsRounded (a.toRat - b.toRat) c := by
  obtain ⟨d, heq, hd⟩ := sub?_eq a b
  rw [heq] at h
  rw [sub_eq_add_neg, ← hd]
  exact isRounded_add? (by linarith) h

theorem sub?_of_fits (ht : t ≤ 28) (h : Fits t (a.toRat - b.toRat)) :
    ∃ c, a.sub? b = some c ∧ c.toRat = a.toRat - b.toRat := by
  obtain ⟨c, heq, hc⟩ := sub?_eq a b
  rw [heq, sub_eq_add_neg, ← hc]
  rw [sub_eq_add_neg, ← hc] at h
  exact add?_of_fits ht h

/-- A sum whose value is between two opposite integer mantissas exists. -/
theorem isSome_add? (h : |a.toRat + b.toRat| ≤ bound - 1) :
    (a.add? b).isSome := by
  obtain ⟨c, hc, -⟩ | ⟨n, s, hs, hx, heq⟩ := add?_cases a b
  · rw [hc]; rfl
  · rw [heq]
    refine isSome_fit? ?_
    rwa [natAbs_div_pow hx]

theorem toRat_le_bound_sub_one (a : Decimal) : a.toRat ≤ bound - 1 := by
  have hle : (a.mantissa : ℚ) / 10 ^ a.scale ≤ a.mantissa :=
    div_le_self (by positivity) (one_le_pow₀ (by norm_num))
  have hlt : (a.mantissa : ℚ) + 1 ≤ bound := by exact_mod_cast a.mantissa_lt
  linarith [le_abs_self a.toRat, abs_toRat a]

/-- A sum exists exactly if the exact one is nearer to a mantissa than to `2 ^ 96`. -/
theorem isSome_add?_iff (h0 : 0 ≤ a.toRat + b.toRat) :
    (a.add? b).isSome ↔ a.toRat + b.toRat < bound - 1 / 2 := by
  obtain ⟨c, hc, hval⟩ | ⟨n, s, hx, hfit⟩ := add?_cases_of_nonneg h0
  · rw [hc, ← hval]
    have hle := toRat_le_bound_sub_one c
    exact iff_of_true rfl (by linarith)
  · rw [hfit, isSome_fit?_iff_lt, hx]

/-- The sum of a number and one of the opposite sign always exists. -/
theorem isSome_add?_of_opposite (ha : 0 ≤ a.toRat) (hb : b.toRat ≤ 0) :
    (a.add? b).isSome := by
  refine isSome_add? (abs_le.mpr ⟨?_, ?_⟩)
  · have := toRat_le_bound_sub_one b.neg
    rw [toRat_neg] at this
    linarith
  · have := toRat_le_bound_sub_one a
    linarith

theorem isSome_sub? (ha : 0 ≤ a.toRat) (hb : 0 ≤ b.toRat) :
    (a.sub? b).isSome := by
  obtain ⟨c, heq, hc⟩ := sub?_eq a b
  rw [heq]
  exact isSome_add?_of_opposite ha (by linarith)

/-- What is left of `a` without `b` is a decimal, and not negative. -/
def CanTake (a b : Decimal) : Prop := ∃ c, a.sub? b = some c ∧ 0 ≤ c.toRat

theorem canTake_iff (ha : 0 ≤ a.toRat) (hb : 0 ≤ b.toRat) : a.CanTake b ↔ b ≤ a := by
  rw [le_iff]
  constructor
  · rintro ⟨c, hsub, hc⟩
    obtain ⟨d, heq, hd⟩ := sub?_eq a b
    rw [heq] at hsub
    have hsum := (add?_lt_zero_iff hsub).not.mp (not_lt.mpr hc)
    linarith
  · intro hle
    obtain ⟨c, hsub⟩ := Option.isSome_iff_exists.mp (isSome_sub? ha hb)
    exact ⟨c, hsub, (isRounded_sub? hle hsub).nonneg⟩

/-! ### Products -/

theorem signed_mul (a b : Decimal) :
    a.signed * b.signed
      = if (a.negative != b.negative) = true then -((a.mantissa * b.mantissa : ℕ) : ℤ)
        else ((a.mantissa * b.mantissa : ℕ) : ℤ) := by
  cases ha : a.negative <;> cases hb : b.negative <;> simp [signed, ha, hb]

/-- The exact product that `mul?` rounds. -/
theorem mul?_cases (h : 0 ≤ a.toRat * b.toRat) :
    (a.mul? b = some zero ∧ a.toRat * b.toRat = 0) ∨
      ∃ n s : ℕ, (n : ℚ) / 10 ^ s = a.toRat * b.toRat ∧ a.mul? b = fit? false n s := by
  unfold mul?
  split
  · next hz =>
    refine .inl ⟨rfl, ?_⟩
    rcases hz with hz | hz <;> rw [isZero_iff.mp hz] <;> simp
  · next hz =>
    obtain ⟨hza, hzb⟩ := not_or.mp hz
    have hprod : ((a.signed * b.signed : ℤ) : ℚ) / 10 ^ (a.scale + b.scale)
        = a.toRat * b.toRat := by
      rw [toRat_eq, toRat_eq, div_mul_div_comm, pow_add]
      push_cast
      rfl
    have hsign : (a.negative != b.negative) = false := by
      by_contra hne
      rw [Bool.not_eq_false] at hne
      rw [signed_mul, if_pos hne, Int.cast_neg, neg_div] at hprod
      have hpos : 0 < a.mantissa * b.mantissa :=
        Nat.mul_pos (Nat.pos_of_ne_zero hza) (Nat.pos_of_ne_zero hzb)
      have : (0 : ℚ) < ((a.mantissa * b.mantissa : ℕ) : ℤ) / 10 ^ (a.scale + b.scale) :=
        div_pos (by exact_mod_cast hpos) (by positivity)
      linarith
    rw [signed_mul, if_neg (by rw [hsign]; decide), Int.cast_natCast] at hprod
    exact .inr ⟨a.mantissa * b.mantissa, a.scale + b.scale, hprod, by rw [hsign]⟩

theorem isRounded_mul? (h0 : 0 ≤ a.toRat * b.toRat) (h : a.mul? b = some c) :
    IsRounded (a.toRat * b.toRat) c := by
  obtain ⟨hzero, hval⟩ | ⟨n, s, hx, hfit⟩ := mul?_cases h0
  · rw [h, Option.some.injEq] at hzero
    rw [hval, hzero, ← toRat_zero]
    exact isRounded_of_nonneg toRat_zero.ge
  · exact hx ▸ isRounded_of_fit? (hfit.symm.trans h)

theorem mul?_of_fits (ht : t ≤ 28) (h : Fits t (a.toRat * b.toRat)) :
    ∃ c, a.mul? b = some c ∧ c.toRat = a.toRat * b.toRat := by
  obtain ⟨hc, hval⟩ | ⟨n, s, hx, hmul⟩ := mul?_cases h.nonneg
  · exact ⟨zero, hc, by rw [hval, toRat_zero]⟩
  · obtain ⟨c, hc⟩ := Option.isSome_iff_exists.mp (hmul ▸ isSome_fit?_of_fits ht (hx ▸ h))
    exact ⟨c, hc, (isRounded_mul? h.nonneg hc).eq_of_fits ht h⟩

/-- A product too large for scale `t` stays so when it is rounded. -/
theorem limit_le_mul? (ht : t ≤ 28) (hmul : a.mul? b = some c)
    (h : limit t ≤ a.toRat * b.toRat) : limit t ≤ c.toRat :=
  (isRounded_mul? (le_trans (by unfold limit; positivity) h) hmul).limit_le ht h

/-- A product exists exactly if the exact one is nearer to a mantissa than to `2 ^ 96`. -/
theorem isSome_mul?_iff (h0 : 0 ≤ a.toRat * b.toRat) :
    (a.mul? b).isSome ↔ a.toRat * b.toRat < bound - 1 / 2 := by
  obtain ⟨hzero, hval⟩ | ⟨n, s, hx, hfit⟩ := mul?_cases h0
  · rw [hzero, hval]
    exact iff_of_true rfl (by norm_num [bound])
  · rw [hfit, isSome_fit?_iff_lt, hx]

/-- A product exists if one exists that is not smaller. -/
theorem isSome_mul? {a' b' : Decimal} (h0 : 0 ≤ a.toRat * b.toRat)
    (hle : a.toRat * b.toRat ≤ a'.toRat * b'.toRat) (h : a'.mul? b' = some c) :
    (a.mul? b).isSome := by
  have hlarger : (a'.mul? b').isSome := by rw [h]; rfl
  rw [isSome_mul?_iff (h0.trans hle)] at hlarger
  exact (isSome_mul?_iff h0).mpr (hle.trans_lt hlarger)

/-! ### Integer part and fraction -/

theorem toRat_whole (h : a.negative = false) : a.whole.toRat = ⌊a.toRat⌋ := by
  rw [toRat_of_nonneg (show a.whole.negative = false from h), toRat_of_nonneg h]
  show ((a.mantissa / tenTo a.scale : ℕ) : ℚ) / 10 ^ 0 = _
  rw [pow_zero, div_one, ← cast_tenTo, Rat.floor_natCast_div_natCast]
  rfl

theorem toRat_fraction (h : a.negative = false) :
    a.fraction.toRat = Int.fract a.toRat := by
  rw [Int.fract, ← toRat_whole h, toRat_of_nonneg (show a.fraction.negative = false from h),
    toRat_of_nonneg (show a.whole.negative = false from h), toRat_of_nonneg h]
  show ((a.mantissa % tenTo a.scale : ℕ) : ℚ) / 10 ^ a.scale
    = a.mantissa / 10 ^ a.scale - ((a.mantissa / tenTo a.scale : ℕ) : ℚ) / 10 ^ 0
  have hmod : (((a.mantissa / tenTo a.scale) * tenTo a.scale + a.mantissa % tenTo a.scale : ℕ) : ℚ)
      = a.mantissa := by rw [Nat.div_add_mod']
  push_cast [cast_tenTo] at hmod
  rw [pow_zero, div_one, eq_sub_iff_add_eq, div_add' _ _ _ (by positivity)]
  congr 1
  linarith

end Decimal

end Accrual
