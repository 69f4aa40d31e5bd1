/-
What an injection adds to the value of a share.

The amount is divided among the shares, rounded down, and the quotient is added to the value per
share.  This sum is rounded too, to the nearest number that a mantissa can hold.

* `save_eq_ok`, `credit_eq_ok`, `inject_eq_ok` — what a successful injection leaves in hand;
* `injection_exact_iff` — among whole shares no more is divided than there is; but the value grows
  by exactly the quotient, and by no more than was injected, if and only if the sum can be held;
* `injection_overpays` — past a value of `2 ^ 96` units of the 18th place it grows by more;
* `Rewards.OnGrid`, `OnGrid.add`, `Pool.onGrid_next`, `Pool.onGrid_after` — a value made of
  quotients is a multiple of `10 ^ -18`, or has reached that limit and stays there;
* `injection_exact_below_limit` — so below the limit every injection is exact.
-/
import Accrual.Proofs.Ledger.Handle

namespace Accrual

open Decimal (IsMultiple Fits limit)
open Rewards (fundLimit)

variable {D : Finset String}

/-! ### One injection -/

namespace Ledger

variable {l l' : Ledger} {amount perShare : Rewards}

theorem save_eq_ok {t : Totals} {u : Unit} (h : save t l = .ok u l') :
    l'.accumulator = { l.accumulator with toTotals := t } := by
  simp only [save, Action.bind_apply, Action.get_apply] at h
  split at h
  · next u' l₁ hwrite =>
    cases h
    rfl
  · cases h

theorem credit_eq_ok {u : Unit} (h : credit perShare l = .ok u l') :
    ∃ value, l.accumulator.valuePerShare.add perShare = .ok value ∧
      l'.accumulator.valuePerShare = value := by
  simp only [credit, Action.bind_apply, Action.get_apply] at h
  cases hadd : l.accumulator.valuePerShare.add perShare with
  | error e =>
    rw [hadd] at h
    cases h
  | ok value =>
    rw [hadd] at h
    exact ⟨value, rfl, by rw [save_eq_ok h]⟩

/-- An injection credits nothing, or the quotient. -/
theorem inject_eq_ok (h : inject amount l = .ok perShare l') :
    perShare = .empty ∧ l' = l ∨
      amount.divideDown l.accumulator.totalShares = .ok perShare ∧
        l.accumulator.valuePerShare.add perShare = .ok l'.accumulator.valuePerShare := by
  simp only [inject, Action.bind_apply, Action.get_apply] at h
  split at h
  · cases h
    exact .inl ⟨rfl, rfl⟩
  · rw [Action.bind_apply] at h
    cases hdiv : amount.divideDown l.accumulator.totalShares with
    | error e =>
      rw [hdiv] at h
      cases h
    | ok q =>
      rw [hdiv] at h
      simp only [Action.ofRewards, Action.pure_apply, Action.bind_apply] at h
      split at h
      · next u l₁ hcredit =>
        cases h
        obtain ⟨value, hadd, hvalue⟩ := credit_eq_ok hcredit
        exact .inr ⟨rfl, hvalue ▸ hadd⟩
      · cases h

/-- Each amount grows by exactly the quotient if and only if the sum is representable. -/
theorem value_inject_eq_iff (hvalue : l.accumulator.valuePerShare.Over D) (hamount : amount.Over D)
    (h : (inject amount).answer l = .ok perShare) (d : String) :
    ((inject amount).final l).accumulator.valuePerShare.value d
        = l.accumulator.valuePerShare.value d + perShare.value d ↔
      ∃ t ≤ 28, Fits t (l.accumulator.valuePerShare.value d + perShare.value d) := by
  obtain ⟨rfl, hsame⟩ | ⟨hdiv, hadd⟩ := inject_eq_ok (Action.eq_ok_of_answer h)
  · -- nothing was credited, and the value itself is representable
    rw [hsame, Rewards.value_empty, add_zero]
    exact iff_of_true rfl ⟨_, (l.accumulator.valuePerShare.amount d).scale_le,
      Decimal.fits_toRat (hvalue.value_nonneg d)⟩
  · have hquotient := Rewards.Over.divideDown hamount hdiv
    exact Rewards.value_add_eq_iff hvalue.toCanonical hquotient.toCanonical hadd d

/-- Among whole shares the quotient for every share, up to `fundLimit` in all, is not more than was
injected.  The value per share grows by exactly this quotient, and by no more than was injected, if
and only if it remains representable; where it does not it is rounded, possibly up. -/
theorem injection_exact_iff (hvalue : l.accumulator.valuePerShare.Over D)
    (htotal : IsMultiple 0 l.accumulator.totalShares.toRat) (hamount : amount.Over D)
    (hlimit : ∀ d, amount.value d ≤ fundLimit) (h : (inject amount).answer l = .ok perShare)
    (d : String) :
    let total := l.accumulator.totalShares.toRat
    let value := l.accumulator.valuePerShare.value d
    let growth := ((inject amount).final l).accumulator.valuePerShare.value d - value
    perShare.value d * total ≤ amount.value d ∧
      (growth = perShare.value d ∧ growth * total ≤ amount.value d ↔
        ∃ t ≤ 28, Fits t (value + perShare.value d)) := by
  intro total value growth
  have hle : perShare.value d * total ≤ amount.value d := by
    obtain ⟨rfl, -⟩ | ⟨hdiv, -⟩ := inject_eq_ok (Action.eq_ok_of_answer h)
    · rw [Rewards.value_empty, zero_mul]
      exact hamount.value_nonneg d
    · exact Rewards.divideDown_le hamount htotal (hlimit d) hdiv
  refine ⟨hle, ?_⟩
  rw [← value_inject_eq_iff hvalue hamount h d, ← sub_eq_iff_eq_add']
  constructor
  · exact fun hexact => hexact.1
  · intro hgrowth
    have hgrowth : growth = perShare.value d := hgrowth
    exact ⟨hgrowth, hgrowth ▸ hle⟩

/-- Almost 80 billion for a single share, injected in eight parts, and two shares more. -/
def eightfold : List Step :=
  .openNow "a" (.ofPartsD 1 0) none ::
    List.replicate 8 (.inject ⟨[("uusdc", .ofPartsD 9999999999 0)]⟩) ++
    [.grow "a" (.ofPartsD 2 0)]

/-- Two units for three shares then raise the value of a share by more than was credited to it, and
that of all shares by more than two units. -/
theorem injection_overpays :
    let l := (fresh "pool").after eightfold
    let amount : Rewards := ⟨[("uusdc", .ofPartsD 2 0)]⟩
    let perShare : Rewards := ⟨[("uusdc", .ofPartsD 666666666666666666 18)]⟩
    let growth := ((inject amount).final l).accumulator.valuePerShare.value "uusdc"
      - l.accumulator.valuePerShare.value "uusdc"
    (fresh "pool").IsNew ∧ l.accumulator.totalShares.toRat = 3 ∧
      (inject amount).answer l = .ok perShare ∧ growth ≠ perShare.value "uusdc" ∧
      amount.value "uusdc" < growth * l.accumulator.totalShares.toRat :=
  ⟨isNew_fresh (by decide), by decide +kernel⟩

/-- After seven parts the same two units are credited exactly. -/
theorem injection_exact_iff_sevenfold :
    let l := (fresh "pool").after (eightfold.eraseIdx 1)
    let amount : Rewards := ⟨[("uusdc", .ofPartsD 2 0)]⟩
    let perShare : Rewards := ⟨[("uusdc", .ofPartsD 666666666666666666 18)]⟩
    let growth := ((inject amount).final l).accumulator.valuePerShare.value "uusdc"
      - l.accumulator.valuePerShare.value "uusdc"
    growth = perShare.value "uusdc" ∧
      growth * l.accumulator.totalShares.toRat ≤ amount.value "uusdc" := by
  intro l amount perShare growth
  obtain ⟨hvalue, htotal, hanswer⟩ :
      l.accumulator.valuePerShare = ⟨[("uusdc", .ofPartsD 69999999993 0)]⟩ ∧
        l.accumulator.totalShares = .ofPartsD 3 0 ∧
        (inject amount).answer l = .ok perShare := by decide +kernel
  have hamount : amount.Over {"uusdc"} :=
    Rewards.over_singleton (by decide +kernel) (by decide +kernel)
  refine (injection_exact_iff (D := {"uusdc"}) ?_ ?_ hamount ?_ hanswer "uusdc").2.mpr
    ⟨18, by decide, 69999999993666666666666666666, by decide, ?_⟩
  · rw [hvalue]
    exact Rewards.over_singleton (by decide +kernel) (by decide +kernel)
  · rw [htotal]
    exact Decimal.isMultiple_ofPartsD 3 0
  · refine Rewards.forall_value (P := fun x => x ≤ fundLimit) (by norm_num [fundLimit]) ?_
    exact List.forall_mem_singleton.mpr (by decide +kernel)
  · rw [hvalue]
    decide +kernel

end Ledger

/-! ### Runs -/

/-- Every amount is a multiple of `10 ^ -18`, or too large for that many places. -/
def Rewards.OnGrid (r : Rewards) : Prop := ∀ d, IsMultiple 18 (r.value d) ∨ limit 18 ≤ r.value d

/-- Below its limit a sum of multiples is exact, and above it remains there. -/
theorem Rewards.OnGrid.add {r s out : Rewards} (hr : r.Over D) (hs : s.Over D)
    (h : r.OnGrid) (hgrid : ∀ d, IsMultiple 18 (s.value d)) (hadd : r.add s = .ok out) :
    out.OnGrid := by
  intro d
  have hr0 := hr.value_nonneg d
  have hs0 := hs.value_nonneg d
  by_cases hlarge : limit 18 ≤ r.value d + s.value d
  · exact .inr (Rewards.limit_le_value_add hr.toCanonical hs.toCanonical hadd (by decide) hlarge)
  · have hr18 : IsMultiple 18 (r.value d) := (h d).resolve_right fun hle => hlarge (by linarith)
    have hsum := hr18.add (hgrid d)
    have hfits := hsum.fits (by linarith) (not_le.mp hlarge)
    left
    rwa [(Rewards.value_add_eq_iff hr.toCanonical hs.toCanonical hadd d).mpr
      ⟨18, by decide, hfits⟩]

/-- An amount that a step adds to every share as it is given is a multiple of `10 ^ -18`. -/
def Step.CreditsOnGrid : Step → Prop
  | .credit perShare => ∀ d, IsMultiple 18 (perShare.value d)
  | _ => True

theorem Accumulator.Planned.onGrid {a : Accumulator} {slot : Slot} {step : Step} {outcome : Outcome}
    {c : Change} (h : Planned a slot step outcome c) (ha : a.valuePerShare.Over D)
    (hgrid : a.valuePerShare.OnGrid) (hstep : step.Over D) (hcredit : step.CreditsOnGrid) :
    ∀ t ∈ c.totals, t.valuePerShare.OnGrid := by
  cases h with
  | inject _ hdiv hadd =>
    rintro _ ⟨⟩
    exact hgrid.add ha (Rewards.Over.divideDown hstep hdiv)
      (Rewards.isMultiple_divideDown hstep hdiv) hadd
  | credit hadd =>
    rintro _ ⟨⟩
    exact hgrid.add ha hstep hcredit hadd
  | adjustShares | opened | resized | closed =>
    rintro _ ⟨⟩
    exact hgrid
  | injectNothing | writePosition | claimedLast | claimed | resnapshot | deleted => exact nofun

namespace Pool

variable {pool : Pool}

theorem onGrid_next (h : pool.Sound D) (hgrid : pool.accumulator.valuePerShare.OnGrid) {step : Step}
    (hstep : step.Over D) (hcredit : step.CreditsOnGrid) :
    (pool.next step).accumulator.valuePerShare.OnGrid := by
  cases hplan : pool.plan step with
  | error e => rwa [next_of_error hplan]
  | ok r =>
    rw [next_of_plan hplan]
    have hwritten := (Accumulator.planned_of_plan hplan).onGrid h.value hgrid hstep hcredit
    show (r.2.totals.getD pool.accumulator.toTotals).valuePerShare.OnGrid
    cases ht : r.2.totals with
    | none => exact hgrid
    | some t => exact hwritten t ht

theorem onGrid_after (h : pool.Sound D) (hgrid : pool.accumulator.valuePerShare.OnGrid)
    {steps : List Step} (hsteps : ∀ step ∈ steps, step.Over D ∧ step.CreditsOnGrid) :
    (pool.after steps).accumulator.valuePerShare.OnGrid := by
  induction steps generalizing pool with
  | nil => exact hgrid
  | cons step steps ih =>
    obtain ⟨hover, hcredit⟩ := hsteps step List.mem_cons_self
    exact ih (h.next hover) (onGrid_next h hgrid hover hcredit) fun step' hstep' =>
      hsteps step' (List.mem_cons_of_mem step hstep')

end Pool

namespace Ledger

variable {l : Ledger} {amount perShare : Rewards}

/-- After any run in which no value was credited but in multiples of `10 ^ -18`, an injection
raises the value of a share by exactly what it answers, as long as the value stays below `2 ^ 96`
units of that size. -/
theorem injection_exact_below_limit (hD : D.card < twoTo 64) (hl : l.IsNew) {steps : List Step}
    (hsteps : ∀ step ∈ steps, step.Over D ∧ step.CreditsOnGrid) (hamount : amount.Over D)
    (h : (inject amount).answer (l.after steps) = .ok perShare) {d : String}
    (hbelow : ((inject amount).final (l.after steps)).accumulator.valuePerShare.value d
      < limit 18) :
    ((inject amount).final (l.after steps)).accumulator.valuePerShare.value d
      = (l.after steps).accumulator.valuePerShare.value d + perShare.value d := by
  have hnew := holds_of_isNew hD hl
  have hholds := hnew.after hD fun step hstep => (hsteps step hstep).1
  have hvalue : (l.after steps).accumulator.valuePerShare.Over D :=
    hholds.inHand ▸ hholds.sound.value
  have hgrid : (l.after steps).accumulator.valuePerShare.OnGrid := by
    rw [hholds.inHand]
    refine Pool.onGrid_after hnew.sound (fun d => .inl ?_) hsteps
    show IsMultiple 18 (Rewards.empty.value d)
    rw [Rewards.value_empty]
    exact Decimal.isMultiple_zero 18
  rw [value_inject_eq_iff hvalue hamount h d]
  obtain ⟨rfl, hsame⟩ | ⟨hdiv, hadd⟩ := inject_eq_ok (Action.eq_ok_of_answer h)
  · rw [hsame] at hbelow
    rw [Rewards.value_empty, add_zero]
    exact ⟨18, by decide, ((hgrid d).resolve_right (not_le.mpr hbelow)).fits
      (hvalue.value_nonneg d) hbelow⟩
  · have hquotient := Rewards.Over.divideDown hamount hdiv
    have hv0 := hvalue.value_nonneg d
    have hq0 := hquotient.value_nonneg d
    -- a sum past the limit would still be past it when rounded
    have hsum : (l.after steps).accumulator.valuePerShare.value d + perShare.value d
        < limit 18 := by
      by_contra hlarge
      exact absurd (Rewards.limit_le_value_add hvalue.toCanonical hquotient.toCanonical hadd
        (by decide) (not_lt.mp hlarge)) (not_le.mpr hbelow)
    have hv18 := (hgrid d).resolve_right (by linarith)
    exact ⟨18, by decide, (hv18.add (Rewards.isMultiple_divideDown hamount hdiv d)).fits
      (by linarith) hsum⟩

end Ledger

end Accrual
