/-
What rounding does to an exact result.

An exact result is `n / 10 ^ s`, and `fit?` gives up digits of it until a mantissa is left.

* `roundHalfEven_mono`, `two_mul_roundHalfEven_le` — a rounded quotient grows with the exact one
  and is at most half a unit above it;
* `Decimal.rounded n s` — what the result is rounded to, in units of `1 / 10 ^ s`, whether or not
  there is room for its integer digits: `fit?` gives this value (`abs_toRat_of_fit?`), or nothing if
  it is not below `2 ^ 96` (`isSome_fit?_iff`);
* `Decimal.isSome_fit?_iff_lt` — that is, if the exact result is below `2 ^ 96 - 1 / 2`;
* `Decimal.rounded_div_mono` — it grows with the exact result, and depends on its value alone;
* `Decimal.rounded_div_of_fits` — what has a mantissa is not rounded.

Design notes.  Where rounding up reaches `2 ^ 96` another digit is given up, and `2 ^ 96 + 4` comes
out, which need not be the nearest decimal.  What carries the order across such a gap is not
nearness but that everything from `2 ^ 96` on is rounded to at least this number (`le_rounded`).
-/
import Accrual.Proofs.Decimal.Value

namespace Accrual

/-! ### Rounded quotients -/

theorem div_le_roundHalfEven (m d : ℕ) : m / d ≤ roundHalfEven m d := by
  unfold roundHalfEven
  split <;> omega

theorem roundHalfEven_le_succ (m d : ℕ) : roundHalfEven m d ≤ m / d + 1 := by
  unfold roundHalfEven
  split <;> omega

theorem roundHalfEven_of_dvd {m d : ℕ} (hd : 0 < d) (h : d ∣ m) :
    roundHalfEven m d = m / d := by
  have hmod : m % d = 0 := Nat.mod_eq_zero_of_dvd h
  unfold roundHalfEven
  rw [hmod, if_neg (by omega)]

theorem two_mul_roundHalfEven_le {d : ℕ} (m : ℕ) (hd : 0 < d) :
    2 * (roundHalfEven m d * d) ≤ 2 * m + d := by
  have hm := Nat.div_add_mod' m d
  have hlt := Nat.mod_lt m hd
  unfold roundHalfEven
  split
  · next h => rw [Nat.add_one_mul (m / d) d]; omega
  · omega

theorem two_mul_le_roundHalfEven {d : ℕ} (m : ℕ) (hd : 0 < d) :
    2 * m ≤ 2 * (roundHalfEven m d * d) + d := by
  have hm := Nat.div_add_mod' m d
  have hlt := Nat.mod_lt m hd
  unfold roundHalfEven
  split
  · next h => rw [Nat.add_one_mul (m / d) d]; omega
  · next h => omega

theorem roundHalfEven_mono {m n : ℕ} (d : ℕ) (h : m ≤ n) :
    roundHalfEven m d ≤ roundHalfEven n d := by
  rcases (Nat.div_le_div_right (c := d) h).lt_or_eq with hlt | heq
  · calc roundHalfEven m d ≤ m / d + 1 := roundHalfEven_le_succ m d
      _ ≤ n / d := hlt
      _ ≤ roundHalfEven n d := div_le_roundHalfEven n d
  · -- between two neighbours the remainder decides
    have hmod : m % d ≤ n % d := by
      have hm := Nat.div_add_mod' m d
      have hn := Nat.div_add_mod' n d
      rw [heq] at hm
      omega
    unfold roundHalfEven
    rw [heq]
    split <;> split <;> omega

theorem roundHalfEven_mul_right (m d : ℕ) {c : ℕ} (hc : 0 < c) :
    roundHalfEven (m * c) (d * c) = roundHalfEven m d := by
  have hlt : d * c < 2 * (m % d * c) ↔ d < 2 * (m % d) := by
    rw [← Nat.mul_assoc, Nat.mul_lt_mul_right hc]
  have heq : d * c = 2 * (m % d * c) ↔ d = 2 * (m % d) := by
    rw [← Nat.mul_assoc, Nat.mul_left_inj hc.ne']
  unfold roundHalfEven
  rw [Nat.mul_mod_mul_right, Nat.mul_div_mul_right m d hc]
  simp only [hlt, heq]

namespace Decimal

/-! ### How many digits have to go -/

theorem excess_le_iff {m : ℕ} (j : ℕ) : excess m ≤ j ↔ m < bound * tenTo j := by
  induction m using excess.induct generalizing j with
  | case1 m h =>
    rw [excess, if_pos h]
    exact iff_of_true (Nat.zero_le j)
      (lt_of_lt_of_le h (Nat.le_mul_of_pos_right bound (tenTo_pos j)))
  | case2 m h ih =>
    rw [excess, if_neg h]
    cases j with
    | zero => rw [tenTo_zero, Nat.mul_one]; exact iff_of_false (by omega) h
    | succ j =>
      rw [Nat.add_le_add_iff_right, ih, Nat.div_lt_iff_lt_mul (by decide), tenTo_succ,
        Nat.mul_assoc]

theorem excess_mono {m n : ℕ} (h : m ≤ n) : excess m ≤ excess n :=
  (excess_le_iff _).mpr (lt_of_le_of_lt h ((excess_le_iff _).mp le_rfl))

/-- When enough digits are given up, the rest is rounded to `2 ^ 96` at most. -/
theorem roundHalfEven_le_bound {m j : ℕ} (h : m < bound * tenTo j) :
    roundHalfEven m (tenTo j) ≤ bound := by
  have hdiv : m / tenTo j < bound := Nat.div_lt_of_lt_mul (Nat.mul_comm bound (tenTo j) ▸ h)
  exact le_trans (roundHalfEven_le_succ m (tenTo j)) hdiv

/-! ### Mantissas that are settled -/

theorem ofParts?_eq_some {negative : Bool} {m s : ℕ} {a : Decimal}
    (h : ofParts? negative m s = some a) :
    a.negative = negative ∧ a.mantissa = m ∧ a.scale = s := by
  unfold ofParts? at h
  split at h
  · rw [Option.some.injEq] at h
    subst h
    exact ⟨rfl, rfl, rfl⟩
  · cases h

theorem settle?_eq_some {negative : Bool} {m s : ℕ} {a : Decimal}
    (h : settle? negative m s = some a) :
    a.negative = negative ∧
      (m < bound ∧ a.mantissa = m ∧ a.scale = s ∨
        bound ≤ m ∧ a.mantissa = roundHalfEven m 10 ∧ a.scale + 1 = s) := by
  unfold settle? at h
  split at h
  · next hm =>
    obtain ⟨hneg, hman, hscale⟩ := ofParts?_eq_some h
    exact ⟨hneg, .inl ⟨hm, hman, hscale⟩⟩
  · next hm =>
    split at h
    · cases h
    · next hs =>
      obtain ⟨hneg, hman, hscale⟩ := ofParts?_eq_some h
      exact ⟨hneg, .inr ⟨Nat.le_of_not_lt hm, hman, by omega⟩⟩

theorem settle?_of_lt {negative : Bool} {m s : ℕ} (hm : m < bound) (hs : s ≤ 28) :
    settle? negative m s = some ⟨negative, m, s, hm, hs⟩ := by
  rw [settle?, if_pos hm, ofParts?, dif_pos ⟨hm, hs⟩]

/-! ### The rounded result -/

/-- How many of the digits of `n / 10 ^ s` have to go. -/
def dropped (n s : ℕ) : ℕ := max (s - 28) (excess n)

/-- The value that `settle?` gives to a rounded mantissa of at most `2 ^ 96`. -/
def settled (m : ℕ) : ℕ := if m < bound then m else bound + 4

/-- The value to which `fit?` rounds `n / 10 ^ s`, in units of `1 / 10 ^ s`. -/
def rounded (n s : ℕ) : ℕ :=
  settled (roundHalfEven n (tenTo (dropped n s))) * tenTo (dropped n s)

theorem settled_of_lt {m : ℕ} (h : m < bound) : settled m = m := if_pos h

theorem le_settled {m : ℕ} (h : m ≤ bound) : m ≤ settled m ∧ settled m ≤ bound + 4 := by
  unfold settled
  split <;> omega

theorem settled_mono {m n : ℕ} (h : m ≤ n) : settled m ≤ settled n := by
  unfold settled
  split <;> split <;> omega

theorem roundHalfEven_dropped_le (n s : ℕ) : roundHalfEven n (tenTo (dropped n s)) ≤ bound :=
  roundHalfEven_le_bound ((excess_le_iff _).mp (le_max_right ..))

theorem rounded_le (n s : ℕ) : rounded n s ≤ (bound + 4) * tenTo (dropped n s) :=
  Nat.mul_le_mul_right _ (le_settled (roundHalfEven_dropped_le n s)).2

/-- Once a mantissa is too large, the rounded one is at least as large as the least mantissa that
was: the last digit of `2 ^ 96` is a 6, so dropping it rounds up. -/
theorem bound_le_ten_mul_roundHalfEven {n d : ℕ} (hd : 0 < d) (h : bound * d ≤ n) :
    bound ≤ 10 * roundHalfEven n (10 * d) := by
  have hround := two_mul_le_roundHalfEven n (show 0 < 10 * d by omega)
  by_contra hlt
  have hr : roundHalfEven n (10 * d) ≤ 7922816251426433759354395033 := by
    simp only [bound] at hlt; omega
  have hmul := Nat.mul_le_mul_right (10 * d) hr
  simp only [bound] at h
  omega

/-- What loses a digit more than `k` is rounded to at least the least result that loses `k`
digits by being rounded twice. -/
theorem le_rounded {n s k : ℕ} (h : k < dropped n s) (hk : s - 28 ≤ k) :
    (bound + 4) * tenTo k ≤ rounded n s := by
  obtain ⟨i, hi⟩ : ∃ i, dropped n s = i + 1 := ⟨dropped n s - 1, by omega⟩
  have hex : excess n = i + 1 := by rw [dropped] at h hi; omega
  have hbig : bound * tenTo i ≤ n := by
    by_contra hlt
    have := (excess_le_iff (m := n) i).mpr (by omega)
    omega
  -- a multiple of ten that is not below `2 ^ 96` is not below `2 ^ 96 + 4`
  have hround := bound_le_ten_mul_roundHalfEven (tenTo_pos i) hbig
  rw [Nat.mul_comm 10 (tenTo i), ← tenTo_succ] at hround
  have hten : bound + 4 ≤ 10 * roundHalfEven n (tenTo (i + 1)) := by
    simp only [bound] at hround ⊢
    omega
  have hsettled := (le_settled (roundHalfEven_dropped_le n s)).1
  rw [hi] at hsettled
  calc (bound + 4) * tenTo k
      ≤ 10 * settled (roundHalfEven n (tenTo (i + 1))) * tenTo i :=
        Nat.mul_le_mul (by omega) (Nat.pow_le_pow_right (by decide) (by omega))
    _ = rounded n s := by rw [rounded, hi, tenTo_succ]; ring

theorem rounded_mono {m n : ℕ} (s : ℕ) (h : m ≤ n) : rounded m s ≤ rounded n s := by
  have hle : dropped m s ≤ dropped n s := max_le_max_left _ (excess_mono h)
  rcases hle.lt_or_eq with hlt | heq
  · exact (rounded_le m s).trans (le_rounded hlt (le_max_left ..))
  · have hround := roundHalfEven_mono (tenTo (dropped n s)) h
    rw [rounded, rounded, heq]
    exact Nat.mul_le_mul_right _ (settled_mono hround)

theorem rounded_mul_ten (n s : ℕ) : rounded (n * 10) (s + 1) = rounded n s * 10 := by
  have hdrop : dropped (n * 10) (s + 1) = dropped n s + 1 ∨
      dropped (n * 10) (s + 1) = 0 ∧ dropped n s = 0 ∧ n * 10 < bound := by
    unfold dropped
    by_cases hn : n * 10 < bound
    · have hn' : n < bound := by omega
      rw [excess, if_pos hn, excess, if_pos hn']
      omega
    · rw [excess, if_neg hn, Nat.mul_div_cancel n (by decide)]
      omega
  unfold rounded
  rcases hdrop with hmore | ⟨hnone, hnone', hlt⟩
  · rw [hmore, tenTo_succ, roundHalfEven_mul_right n _ (by decide), Nat.mul_assoc]
  · rw [hnone, hnone', tenTo_zero, roundHalfEven_of_dvd Nat.one_pos (one_dvd _),
      roundHalfEven_of_dvd Nat.one_pos (one_dvd _), Nat.div_one, Nat.div_one, settled_of_lt hlt,
      settled_of_lt (by omega), Nat.mul_one, Nat.mul_one]

/-- More digits behind the point make no difference. -/
theorem rounded_mul_tenTo (n s j : ℕ) :
    rounded (n * tenTo j) (s + j) = rounded n s * tenTo j := by
  induction j with
  | zero => rw [tenTo_zero, Nat.mul_one, Nat.mul_one, Nat.add_zero]
  | succ j ih => rw [tenTo_succ, ← Nat.mul_assoc, ← Nat.add_assoc, rounded_mul_ten, ih,
      Nat.mul_assoc]

/-- What has a mantissa is not rounded. -/
theorem rounded_of_lt {n s : ℕ} (hn : n < bound) (hs : s ≤ 28) : rounded n s = n := by
  have hdrop : dropped n s = 0 := by
    rw [dropped, excess, if_pos hn]
    omega
  rw [rounded, hdrop, tenTo_zero, roundHalfEven_of_dvd Nat.one_pos (one_dvd _), Nat.div_one,
    settled_of_lt hn, Nat.mul_one]

theorem rounded_bound {s : ℕ} (hs : s ≤ 28) : rounded bound s = bound + 4 := by
  have hdrop : dropped bound s = 1 := by
    have hex : excess bound = 1 := by
      rw [excess, if_neg (Nat.lt_irrefl bound), excess, if_pos (by decide)]
    rw [dropped, hex]
    omega
  rw [rounded, hdrop]
  decide

/-! ### The rounded result as a number -/

/-- The rounded result grows with the exact one and depends on its value alone. -/
theorem rounded_div_mono {m n s t : ℕ} (h : (m : ℚ) / 10 ^ s ≤ (n : ℚ) / 10 ^ t) :
    (rounded m s : ℚ) / 10 ^ s ≤ (rounded n t : ℚ) / 10 ^ t := by
  rw [div_le_div_iff₀ (by positivity) (by positivity), ← cast_tenTo, ← cast_tenTo] at h ⊢
  have hle : m * tenTo t ≤ n * tenTo s := by exact_mod_cast h
  -- the two are compared at the sum of their scales
  have hround := rounded_mono (s + t) hle
  rw [rounded_mul_tenTo, Nat.add_comm, rounded_mul_tenTo] at hround
  exact_mod_cast hround

theorem rounded_div_of_fits {n s t : ℕ} (ht : t ≤ 28) (h : Fits t ((n : ℚ) / 10 ^ s)) :
    (rounded n s : ℚ) / 10 ^ s = (n : ℚ) / 10 ^ s := by
  obtain ⟨m, hm, heq⟩ := h
  have hsame : (rounded m t : ℚ) / 10 ^ t = (m : ℚ) / 10 ^ t := by rw [rounded_of_lt hm ht]
  rw [heq, ← hsame]
  exact le_antisymm (rounded_div_mono heq.le) (rounded_div_mono heq.ge)

theorem mantissa_of_fit? {negative : Bool} {n s : ℕ} {a : Decimal}
    (h : fit? negative n s = some a) : a.mantissa * tenTo s = rounded n s * tenTo a.scale := by
  rw [fit?] at h
  split at h
  · next hk =>
    have hbound := roundHalfEven_dropped_le n s
    unfold rounded
    rw [dropped] at hbound ⊢
    generalize max (s - 28) (excess n) = k at h hk hbound
    obtain ⟨j, rfl⟩ := Nat.exists_eq_add_of_le hk
    rw [Nat.add_sub_cancel_left] at h
    obtain ⟨-, ⟨hlt, hman, hscale⟩ | ⟨hge, hman, hscale⟩⟩ := settle?_eq_some h
    · rw [settled_of_lt hlt, hman, hscale, tenTo_add, Nat.mul_assoc]
    · have heq : roundHalfEven n (tenTo k) = bound := Nat.le_antisymm hbound hge
      have hten : roundHalfEven bound 10 * 10 = bound + 4 := by decide
      rw [settled, if_neg (Nat.not_lt.mpr hge), hman, heq, ← hscale, tenTo_add, tenTo_succ, ← hten]
      ring
  · cases h

theorem abs_toRat_of_fit? {negative : Bool} {n s : ℕ} {a : Decimal}
    (h : fit? negative n s = some a) : |a.toRat| = rounded n s / 10 ^ s := by
  rw [abs_toRat, div_eq_div_iff (by positivity) (by positivity), ← cast_tenTo, ← cast_tenTo]
  exact_mod_cast mantissa_of_fit? h

theorem negative_of_fit? {negative : Bool} {n s : ℕ} {a : Decimal}
    (h : fit? negative n s = some a) : a.negative = negative := by
  rw [fit?] at h
  split at h
  · exact (settle?_eq_some h).1
  · cases h

/-- At a scale that needs no cut, nothing but zero is rounded to zero. -/
theorem mantissa_eq_zero_of_fit? {negative : Bool} {n s : ℕ} {a : Decimal}
    (h : fit? negative n s = some a) (hs : s ≤ 28) : a.mantissa = 0 ↔ n = 0 := by
  have hmul := mantissa_of_fit? h
  have hpos := tenTo_pos s
  have hpos' := tenTo_pos a.scale
  constructor
  · intro h0
    rw [h0, Nat.zero_mul, eq_comm, Nat.mul_eq_zero] at hmul
    by_contra hn
    have hone := rounded_mono s (Nat.one_le_iff_ne_zero.mpr hn)
    rw [rounded_of_lt (by decide) hs] at hone
    omega
  · rintro rfl
    rw [rounded_of_lt (by decide) hs, Nat.zero_mul, Nat.mul_eq_zero] at hmul
    omega

/-- There is a result exactly if what is rounded to is below `2 ^ 96`. -/
theorem isSome_fit?_iff {negative : Bool} {n s : ℕ} :
    (fit? negative n s).isSome ↔ (rounded n s : ℚ) / 10 ^ s < bound := by
  rw [div_lt_iff₀ (by positivity), ← cast_tenTo]
  norm_cast
  have hround := roundHalfEven_dropped_le n s
  constructor
  · intro h
    obtain ⟨a, ha⟩ := Option.isSome_iff_exists.mp h
    calc rounded n s ≤ rounded n s * tenTo a.scale := Nat.le_mul_of_pos_right _ (tenTo_pos _)
      _ = a.mantissa * tenTo s := (mantissa_of_fit? ha).symm
      _ < bound * tenTo s := Nat.mul_lt_mul_of_pos_right a.mantissa_lt (tenTo_pos s)
  · intro h
    have hks : dropped n s ≤ s := by
      by_contra hlt
      have := le_rounded (k := s) (Nat.lt_of_not_le hlt) (Nat.sub_le ..)
      have := Nat.mul_le_mul_right (tenTo s) (Nat.le_add_right bound 4)
      omega
    have hscale : s - dropped n s ≤ 28 := by
      have := le_max_left (s - 28) (excess n)
      rw [← dropped] at this
      omega
    have hfit : fit? negative n s
        = settle? negative (roundHalfEven n (tenTo (dropped n s))) (s - dropped n s) := if_pos hks
    rw [rounded] at h
    rw [hfit, settle?]
    generalize roundHalfEven n (tenTo (dropped n s)) = r at h hround
    split
    · next hlt =>
      rw [ofParts?, dif_pos ⟨hlt, hscale⟩]
      rfl
    · next hge =>
      obtain rfl : r = bound := Nat.le_antisymm hround (Nat.le_of_not_lt hge)
      rw [if_neg, ofParts?, dif_pos ⟨by decide, by omega⟩]
      · rfl
      · -- a digit is left to give up, or the result would be too large
        intro hall
        rw [show dropped n s = s by omega, settled, if_neg (Nat.lt_irrefl bound)] at h
        have := Nat.mul_le_mul_right (tenTo s) (Nat.le_add_right bound 4)
        omega

/-- Halfway to `2 ^ 96` is rounded up, because `2 ^ 96` is even. -/
theorem rounded_halfway : rounded (10 * bound - 5) 1 = 10 * (bound + 4) := by
  have hdrop : dropped (10 * bound - 5) 1 = 1 := by
    have hex : excess (10 * bound - 5) = 1 := by
      rw [excess, if_neg (by decide), excess, if_pos (by decide)]
    rw [dropped, hex]
    rfl
  rw [rounded, hdrop]
  decide

theorem rounded_lt_of_lt {n s : ℕ} (h : 2 * n < (2 * bound - 1) * tenTo s) :
    rounded n s < bound * tenTo s := by
  have hpos := tenTo_pos s
  rcases Nat.lt_trichotomy (dropped n s) s with hlt | heq | hgt
  · -- a digit behind the point is kept
    calc rounded n s ≤ (bound + 4) * tenTo (dropped n s) := rounded_le n s
      _ < bound * 10 * tenTo (dropped n s) :=
        Nat.mul_lt_mul_of_pos_right (by decide) (tenTo_pos _)
      _ = bound * tenTo (dropped n s + 1) := by rw [tenTo_succ, Nat.mul_assoc, Nat.mul_comm 10]
      _ ≤ bound * tenTo s := Nat.mul_le_mul_left _ (Nat.pow_le_pow_right (by decide) hlt)
  · have hround := two_mul_roundHalfEven_le n hpos
    have hlt : roundHalfEven n (tenTo s) < bound := by
      by_contra hge
      have := Nat.mul_le_mul_right (tenTo s) (not_lt.mp hge)
      simp only [bound] at h this
      omega
    rw [rounded, heq, settled_of_lt hlt]
    exact Nat.mul_lt_mul_of_pos_right hlt hpos
  · -- integer digits would have to go
    have hex : ¬ excess n ≤ s := by
      rw [dropped] at hgt
      omega
    rw [excess_le_iff] at hex
    simp only [bound] at h hex
    omega

/-- There is a result exactly if the exact one is nearer to a mantissa than to `2 ^ 96`. -/
theorem isSome_fit?_iff_lt {negative : Bool} {n s : ℕ} :
    (fit? negative n s).isSome ↔ (n : ℚ) / 10 ^ s < bound - 1 / 2 := by
  have hhalf : (((10 * bound - 5 : ℕ) : ℚ)) / 10 ^ 1 = bound - 1 / 2 := by norm_num [bound]
  rw [isSome_fit?_iff]
  constructor
  · intro h
    by_contra hle
    have hround := rounded_div_mono (hhalf.trans_le (not_lt.mp hle))
    rw [rounded_halfway] at hround
    push_cast at hround
    linarith
  · intro h
    rw [div_lt_iff₀ (by positivity), ← cast_tenTo] at h ⊢
    have hnat : 2 * n < (2 * bound - 1) * tenTo s := by
      have hbound : (((2 * bound - 1 : ℕ) : ℚ)) = 2 * bound - 1 := by norm_num [bound]
      have hq : 2 * (n : ℚ) < ((2 * bound - 1 : ℕ) : ℚ) * (tenTo s : ℕ) := by
        rw [hbound]
        linarith
      exact_mod_cast hq
    exact_mod_cast rounded_lt_of_lt hnat

theorem isSome_fit? {negative : Bool} {n s : ℕ} (h : (n : ℚ) / 10 ^ s ≤ bound - 1) :
    (fit? negative n s).isSome := by
  rw [isSome_fit?_iff_lt]
  linarith

end Decimal

end Accrual
