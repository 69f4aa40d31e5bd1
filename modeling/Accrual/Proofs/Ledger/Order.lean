/-
The order of values: nothing runs ahead of the accumulator.

The value per share only grows, and positions are written with snapshots that it has reached.

* `Planned.vetted`, `Planned.value_atMost`, `Planned.total_nonneg` — what one step writes: a
  position that was checked, a value that is not below the old one, a total that is not negative;
* `Pool.Orderly` — the total is not negative and no snapshot is ahead of the value per share;
* `Orderly.next`, `atMost_next` — a step keeps a pool orderly, and does not lower its value;
* `Orderly.owed_eq_error` — what a position of such a pool is owed can be computed, or overflows.
-/
import Accrual.Proofs.Ledger.Pool
import Accrual.Proofs.Rewards.Order

namespace Accrual

variable {D : Finset String}

namespace Accumulator

variable {a : Accumulator} {slot : Slot} {step : Step} {outcome : Outcome} {c : Change}

/-- Every position that is written was checked. -/
theorem Planned.vetted (h : Planned a slot step outcome c) {p : Position}
    (hp : c.position = some (some p)) : a.vet step.index p = .ok () := by
  cases h with
  | injectNothing | inject | credit | adjustShares | claimedLast | deleted | closed => cases hp
  | writePosition hvet | claimed _ _ hvet | resnapshot hvet =>
    cases hp
    exact hvet
  | opened hopen _ _ _ hvet =>
    cases hp
    rcases hopen with ⟨rfl, -⟩ | rfl <;> exact hvet
  | resized hresize _ _ _ _ hvet =>
    cases hp
    rcases hresize with ⟨rfl, -⟩ | ⟨rfl, -⟩ <;> exact hvet

/-- The value per share is not lowered, also where it is rounded. -/
theorem Planned.value_atMost (h : Planned a slot step outcome c) (ha : a.valuePerShare.Over D)
    (hstep : step.Over D) {t : Totals} (ht : c.totals = some t) :
    a.valuePerShare.AtMost t.valuePerShare := by
  cases h with
  | injectNothing | writePosition | claimedLast | claimed | resnapshot | deleted => cases ht
  | inject _ hdiv hadd =>
    cases ht
    exact Rewards.atMost_add ha.toCanonical (Rewards.Over.divideDown hstep hdiv).toCanonical hadd
  | credit hadd =>
    cases ht
    exact Rewards.atMost_add ha.toCanonical hstep.toCanonical hadd
  | adjustShares | opened | resized | closed =>
    cases ht
    exact .refl _

theorem Planned.total_nonneg (h : Planned a slot step outcome c) (h0 : 0 ≤ a.totalShares.toRat)
    {t : Totals} (ht : c.totals = some t) : 0 ≤ t.totalShares.toRat := by
  have hnonneg {total : Decimal} (h : ¬ total < .zero) : 0 ≤ total.toRat := by
    rwa [Decimal.lt_iff, Decimal.toRat_zero, not_lt] at h
  cases h with
  | injectNothing | writePosition | claimedLast | claimed | resnapshot | deleted => cases ht
  | inject | credit =>
    cases ht
    exact h0
  | adjustShares _ htotal | opened _ _ _ htotal _ | resized _ _ _ _ htotal _
  | closed _ _ htotal =>
    cases ht
    exact hnonneg htotal

end Accumulator

namespace Pool

variable {pool : Pool} {step : Step} {steps : List Step}

/-- The recorded total never becomes negative. -/
theorem total_nonneg_next (h : 0 ≤ pool.accumulator.totalShares.toRat) (step : Step) :
    0 ≤ (pool.next step).accumulator.totalShares.toRat := by
  cases hplan : pool.plan step with
  | error e => rwa [next_of_error hplan]
  | ok r =>
    rw [next_of_plan hplan, commit]
    cases ht : r.2.totals with
    | none => exact h
    | some t => exact (Accumulator.planned_of_plan hplan).total_nonneg h ht

theorem total_nonneg_after (pool : Pool) (h : 0 ≤ pool.accumulator.totalShares.toRat)
    (steps : List Step) : 0 ≤ (pool.after steps).accumulator.totalShares.toRat := by
  induction steps generalizing pool with
  | nil => exact h
  | cons step steps ih => exact ih _ (total_nonneg_next h step)

/-- A step does not lower the value per share. -/
theorem Sound.atMost_next (h : pool.Sound D) (hstep : step.Over D) :
    pool.accumulator.valuePerShare.AtMost (pool.next step).accumulator.valuePerShare := by
  cases hplan : pool.plan step with
  | error e =>
    rw [next_of_error hplan]
    exact .refl _
  | ok r =>
    rw [next_of_plan hplan, Pool.commit]
    cases ht : r.2.totals with
    | none => exact .refl _
    | some t => exact (Accumulator.planned_of_plan hplan).value_atMost h.value hstep ht

/-- The total is not negative, and no snapshot is ahead of the value per share. -/
structure Orderly (pool : Pool) : Prop where
  total : 0 ≤ pool.accumulator.totalShares.toRat
  behind : ∀ e ∈ pool.positions, e.2.snapshot.AtMost pool.accumulator.valuePerShare

theorem orderly_new (name : String) : (new name).Orderly where
  total := Decimal.toRat_zero.ge
  behind := fun _ he => absurd he List.not_mem_nil

theorem Orderly.next (h : pool.Orderly) (hsound : pool.Sound D) (hstep : step.Over D) :
    (pool.next step).Orderly := by
  refine ⟨total_nonneg_next h.total step, fun e he => ?_⟩
  have hvalue := hsound.atMost_next hstep
  cases hplan : pool.plan step with
  | error err =>
    rw [next_of_error hplan] at he ⊢
    exact h.behind e he
  | ok r =>
    obtain ⟨outcome, c⟩ := r
    rw [next_of_plan hplan] at he hvalue ⊢
    -- a position that was there before is behind the old value
    have hold (hmem : e ∈ pool.positions) := (h.behind e hmem).trans hvalue
    cases hp : c.position with
    | none =>
      rw [commit, hp] at he
      exact hold he
    | some o =>
      rw [commit, hp] at he
      cases o with
      | none => exact hold (OrderedMap.mem_of_mem_erase he)
      | some p =>
        rcases OrderedMap.mem_of_mem_insert he with rfl | he
        · have hvet := (Accumulator.planned_of_plan hplan).vetted hp
          obtain ⟨-, -, growth, hgrowth⟩ := Accumulator.vet_eq_ok.mp hvet
          have hover := ((hsound.change hstep hplan).position p hp).1
          exact Rewards.AtMost.trans (Rewards.atMost_of_sub hover.snapshot.toCanonical
            hsound.value.toCanonical hgrowth) hvalue
        · exact hold he

theorem Orderly.behind_of_find? (h : pool.Orderly) {index : String} {p : Position}
    (hp : pool.find? index = some p) : p.snapshot.AtMost pool.accumulator.valuePerShare :=
  h.behind (Bytes.ofString index, p) (OrderedMap.mem_of_find? hp)

/-- What a position is owed is only refused where a number becomes too large. -/
theorem Orderly.owed_eq_error (h : pool.Orderly) (hsound : pool.Sound D) {index : String}
    {p : Position} (hp : pool.find? index = some p) {e : Error}
    (he : pool.accumulator.owed p = .error e) : e = .rewards .overflow := by
  obtain ⟨hover, hnonneg⟩ := hsound.of_find? hp
  obtain ⟨growth, hgrowth⟩ := Rewards.exists_sub hover.snapshot.toCanonical
    hsound.value.toCanonical (h.behind_of_find? hp)
  have hgrowth' := hsound.value.sub hover.snapshot hgrowth
  rw [Accumulator.owed, Accumulator.growthSince_eq_ok.mpr hgrowth, Result.ok_bind] at he
  cases haccrued : growth.scale p.shares with
  | error e' =>
    rw [haccrued] at he
    cases he
    rw [(Rewards.pointwise_scale hgrowth'.toCanonical
      (Decimal.nonneg_of_not_negative hnonneg)).eq_overflow haccrued]
  | ok accrued =>
    rw [haccrued] at he
    simp only [Except.mapError, Result.ok_bind] at he
    cases hdue : p.unclaimed.add accrued with
    | ok due =>
      rw [hdue] at he
      cases he
    | error e' =>
      rw [hdue] at he
      cases he
      rw [(Rewards.pointwise_add hover.unclaimed.toCanonical
        (hgrowth'.scale haccrued).toCanonical).eq_overflow hdue]

end Pool

end Accrual
