/-
Sums of rewards, from both sides.

`Rewards.add` folds its second operand into the first one, so it visits only what the second one
lists and looks the rest up.  Still it treats both alike:

* `Pointwise.unique` — canonical rewards that are computed from the same amounts are the same;
* `add_comm_of_canonical` — so the operands can be exchanged, also where the sum is refused;
* `add_eq_error_iff` — refused are exactly the sums that have an amount too large for a decimal;
* `sum_is_symmetric_and_dominates` — a sum has at least as much of everything as either operand,
  and either one can be taken away from it.

Design notes.  No amount is assumed to be small, so a sum may have lost digits.  It is not below its
operands because rounding does not go below a decimal that the exact sum has reached.
-/
import Accrual.Proofs.Rewards.Order
import Accrual.Proofs.Rewards.Parts

namespace Accrual

namespace Rewards

variable {r s : Rewards}

/-- Canonical rewards that are computed from the same amounts are the same. -/
theorem Pointwise.unique {f : String → Option Decimal}
    {outcome outcome' : Except RewardError Rewards} (h : Pointwise f outcome)
    (h' : Pointwise f outcome')
    (hcanonical : ∀ out, outcome = .ok out → out.Canonical)
    (hcanonical' : ∀ out, outcome' = .ok out → out.Canonical) : outcome = outcome' := by
  cases hout : outcome with
  | error e => exact ((h'.eq_error_iff e).mpr ((h.eq_error_iff e).mp hout)).symm
  | ok out =>
    cases hout' : outcome' with
    | error e =>
      have herror := (h.eq_error_iff e).mpr ((h'.eq_error_iff e).mp hout')
      rw [hout] at herror
      cases herror
    | ok out' =>
      have hvalue (d : String) : out.value d = out'.value d := by
        obtain ⟨a, ha, hval⟩ := h.value_of_ok hout d
        obtain ⟨a', ha', hval'⟩ := h'.value_of_ok hout' d
        rw [hval, hval', Option.some.inj (ha.symm.trans ha')]
      rw [(hcanonical out hout).ext (hcanonical' out' hout') hvalue]

/-- It makes no difference which operand is folded into the other one. -/
theorem add_comm_of_canonical (hr : r.Canonical) (hs : s.Canonical) : r.add s = s.add r := by
  -- two zero amounts are one and the same decimal
  have hamount (d : String) : (r.amount d).add? (s.amount d) = (s.amount d).add? (r.amount d) :=
    Decimal.add?_comm fun hrd hsd => by rw [hr.amount_of_isZero hrd, hs.amount_of_isZero hsd]
  have hadd := pointwise_add hr hs
  simp only [hamount] at hadd
  exact hadd.unique (pointwise_add hs hr) (fun _ => hr.add hs) fun _ => hs.add hr

/-- A sum is refused exactly if two amounts add up to something that is not nearer to a mantissa
than to `2 ^ 96`. -/
theorem add_eq_error_iff (hr : r.Canonical) (hs : s.Canonical) {e : RewardError} :
    r.add s = .error e ↔ e = .overflow ∧ ∃ d, Decimal.bound - 1 / 2 ≤ r.value d + s.value d := by
  rw [(pointwise_add hr hs).eq_error_iff]
  refine and_congr_right fun _ => exists_congr fun d => ?_
  have hnonneg := add_nonneg (hr.value_nonneg d) (hs.value_nonneg d)
  rw [← Option.not_isSome_iff_eq_none, Decimal.isSome_add?_iff hnonneg, not_lt]
  rfl

/-- A sum of rewards and the sum with its operands exchanged are both refused as too large, or they
are the same rewards, listed alike.  Refused is exactly what has an amount too large for a decimal.
No amount of either operand is above that of the sum, however this was rounded, and so either one
can be taken away from the sum. -/
theorem sum_is_symmetric_and_dominates (hr : r.Canonical) (hs : s.Canonical) :
    (r.add s = .error .overflow ∧ s.add r = .error .overflow ∧
        ∃ d, Decimal.bound - 1 / 2 ≤ r.value d + s.value d) ∨
      ∃ out, r.add s = .ok out ∧ s.add r = .ok out ∧
        (∀ d, r.value d + s.value d < Decimal.bound - 1 / 2) ∧
        r.AtMost out ∧ s.AtMost out ∧
        (∃ rest, out.sub r = .ok rest) ∧ ∃ rest, out.sub s = .ok rest := by
  have hcomm := add_comm_of_canonical hr hs
  cases hadd : r.add s with
  | error e =>
    obtain ⟨rfl, hlarge⟩ := (add_eq_error_iff hr hs).mp hadd
    exact .inl ⟨rfl, hcomm ▸ hadd, hlarge⟩
  | ok out =>
    have hadd' : s.add r = .ok out := hcomm ▸ hadd
    have hout := hr.add hs hadd
    have hsmall (d : String) : r.value d + s.value d < Decimal.bound - 1 / 2 := by
      by_contra hlarge
      have herror := (add_eq_error_iff hr hs).mpr ⟨rfl, d, not_lt.mp hlarge⟩
      rw [hadd] at herror
      cases herror
    have hfirst := atMost_add hr hs hadd
    have hsecond := atMost_add hs hr hadd'
    exact .inr ⟨out, rfl, hadd', hsmall, hfirst, hsecond, exists_sub hr hout hfirst,
      exists_sub hs hout hsecond⟩

/-- Of one denomination the sum has too many digits and is rounded down; the other two are listed
on one side each. -/
theorem sum_is_symmetric_and_dominates_rounded :
    let r : Rewards := ⟨[("uatom", .ofPartsD 3 0),
      ("uosmo", .ofPartsD 50000000000000000000000000001 28)]⟩
    let s : Rewards := ⟨[("uosmo", .ofPartsD 40000000000000000000000000002 28),
      ("uusdc", .ofPartsD 5 1)]⟩
    let sum : Rewards := ⟨[("uatom", .ofPartsD 3 0), ("uosmo", .ofPartsD 9 0),
      ("uusdc", .ofPartsD 5 1)]⟩
    r.Canonical ∧ s.Canonical ∧ r.add s = .ok sum ∧ s.add r = .ok sum ∧
      sum.value "uosmo" < r.value "uosmo" + s.value "uosmo" ∧ r.AtMost sum ∧ s.AtMost sum := by
  intro r s sum
  have hr : r.Canonical := ⟨by decide +kernel, by decide +kernel, by decide +kernel⟩
  have hs : s.Canonical := ⟨by decide +kernel, by decide +kernel, by decide +kernel⟩
  have hsum : r.add s = .ok sum := by decide +kernel
  obtain ⟨herror, -⟩ | ⟨out, hadd, hadd', -, hfirst, hsecond, -⟩ :=
    sum_is_symmetric_and_dominates hr hs
  · rw [hsum] at herror
    cases herror
  · obtain rfl := Except.ok.inj (hsum.symm.trans hadd)
    exact ⟨hr, hs, hadd, hadd', by decide +kernel, hfirst, hsecond⟩

end Rewards

end Accrual
