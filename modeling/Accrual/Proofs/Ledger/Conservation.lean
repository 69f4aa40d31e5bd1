/-
Rewards are conserved.

* `Ledger.along` — the sum of a quantity over the steps of a run, each with its answer;
* `Ledger.credited`, `Ledger.handed`, `Ledger.weight` — what was injected for shares, what was
  handed out, and the shares among which it was divided;
* `Backed.bounds` — a step hands out or adds to the liability no more than it credits, and falls
  short of it by less than a unit of the 18th place for every share;
* `Holds.conserved` — the same of a run;
* `rewards_conserved` — for the listed positions and what they are owed.

Design notes.  The upper bound needs only that the division does not give out too much.  The lower
one needs its exact error, and with it a bound on the shares: among too many shares a quotient is
rounded at fewer places than the 18 that are kept.
-/
import Accrual.Proofs.Ledger.Backing

namespace Accrual

open Decimal (IsMultiple)
open Rewards (fundLimit)

/-! ### Accounts of a run -/

namespace Ledger

/-- The sum of a quantity over the steps of a run, from the accumulator before each step and the
answer to it. -/
def along (f : Accumulator → Step → Except Error Outcome → ℚ) (l : Ledger) : List Step → ℚ
  | [] => 0
  | step :: steps => f l.accumulator step (l.answer step) + along f (l.next step) steps

end Ledger

namespace Step

/-- An amount injected while there were shares. -/
def contribution (d : String) (a : Accumulator) : Step → Except Error Outcome → ℚ
  | .inject amount, .ok _ => if a.totalShares.IsZero then 0 else amount.value d
  | _, _ => 0

/-- The shares among which it was divided. -/
def weight (a : Accumulator) : Step → Except Error Outcome → ℚ
  | .inject _, .ok _ => if a.totalShares.IsZero then 0 else a.totalShares.toRat
  | _, _ => 0

/-- An amount handed out. -/
def payment (d : String) (_ : Accumulator) (_ : Step) : Except Error Outcome → ℚ
  | .ok outcome => outcome.handed d
  | .error _ => 0

end Step

namespace Ledger

/-- Everything injected while there were shares. -/
def credited (l : Ledger) (steps : List Step) (d : String) : ℚ :=
  l.along (Step.contribution d) steps

/-- The shares at those injections, added up. -/
def weight (l : Ledger) (steps : List Step) : ℚ := l.along Step.weight steps

/-- Everything handed out. -/
def handed (l : Ledger) (steps : List Step) (d : String) : ℚ := l.along (Step.payment d) steps

end Ledger

namespace Pool

variable {D : Finset String} {funds : String → ℚ} {pool : Pool} {step : Step}

/-! ### One step -/

/-- An injection credits what was injected, but for less than a unit for every share. -/
theorem Backed.credit_bounds (h : pool.Backed D funds) {amount : Rewards}
    (hstep : (Step.inject amount).Whole D) (hfunds : ∀ d, funds d + amount.value d ≤ fundLimit)
    (hsmall : pool.accumulator.totalShares.toRat ≤ 10 ^ 10) {outcome : Outcome} {c : Change}
    (hplan : pool.plan (.inject amount) = .ok (outcome, c)) (d : String) :
    let share := outcome.perShare.value d * pool.accumulator.totalShares.toRat
    let credit := (Step.inject amount).contribution d pool.accumulator (.ok outcome)
    share ≤ credit ∧
      credit - share
        ≤ (Step.inject amount).weight pool.accumulator (.ok outcome) * (1 / 10 ^ 18) := by
  intro share credit
  by_cases hzero : pool.accumulator.totalShares.IsZero
  · -- without shares nothing is credited
    have hshare : share = 0 := by
      show _ * _ = _
      rw [Decimal.isZero_iff.mp hzero, mul_zero]
    have hcredit : credit = 0 := if_pos hzero
    rw [hshare, hcredit, Step.weight, if_pos hzero]
    norm_num
  have hcredit : credit = amount.value d := if_neg hzero
  rw [hcredit, Step.weight, if_neg hzero]
  refine ⟨(h.credits hstep.1 hfunds hplan).credited_le d, ?_⟩
  have htotal0 : 0 ≤ pool.accumulator.totalShares.toRat :=
    h.counted.total ▸ h.sound.shareSum_nonneg
  obtain ⟨hnone, rfl, rfl⟩ | ⟨-, q, value, hdiv, -, rfl, rfl⟩ :=
    (Accumulator.planned_of_plan hplan).of_inject
  · -- with shares, nothing is divided only if nothing was injected
    have hempty := hstep.1.isEmpty_iff.mp (hnone.resolve_right hzero) d
    have hshare : share = 0 := by
      show Rewards.empty.value d * _ = _
      rw [Rewards.value_empty, zero_mul]
    rw [hshare, hempty, sub_zero]
    positivity
  · have htotal : IsMultiple 0 pool.accumulator.totalShares.toRat :=
      h.counted.total ▸ h.counted.grid_shareSum
    have hlt := Rewards.lt_divideDown hstep.1 htotal hsmall (hstep.2 d)
      (by linarith [hfunds d, h.funds_nonneg d]) hdiv
    show amount.value d - q.value d * _ ≤ _
    linarith

/-- A step hands out or adds to the liability what it credits, but for less than a unit for every
share. -/
theorem Backed.bounds (h : pool.Backed D funds) (hstep : step.Whole D)
    (hfunds : ∀ d, funds d + step.injected d ≤ fundLimit)
    (hsmall : pool.accumulator.totalShares.toRat ≤ 10 ^ 10) (d : String) :
    let share := (pool.next step).liability d - pool.liability d
      + step.payment d pool.accumulator (pool.answer step)
    let credit := step.contribution d pool.accumulator (pool.answer step)
    share ≤ credit ∧
      credit - share ≤ step.weight pool.accumulator (pool.answer step) * (1 / 10 ^ 18) := by
  intro share credit
  cases hplan : pool.plan step with
  | error e =>
    -- a failure credits nothing and hands out nothing
    have hanswer := answer_of_error hplan
    have hshare : share = 0 := by
      show (pool.next step).liability d - _ + step.payment d _ (pool.answer step) = 0
      rw [next_of_error hplan, hanswer, Step.payment, sub_self, add_zero]
    have hcredit : credit = 0 := by
      show step.contribution d _ (pool.answer step) = 0
      rw [hanswer]
      cases step <;> rfl
    have hweight : step.weight pool.accumulator (pool.answer step) = 0 := by
      rw [hanswer]
      cases step <;> rfl
    rw [hshare, hcredit, hweight]
    norm_num
  | ok r =>
  obtain ⟨outcome, c⟩ := r
  have hanswer := answer_of_plan hplan
  have hconserved := h.conserved hstep hfunds hplan d
  have hshare : share = outcome.perShare.value d * pool.accumulator.totalShares.toRat := by
    show (pool.next step).liability d - _ + step.payment d _ (pool.answer step) = _
    rw [next_of_plan hplan, hanswer, Step.payment]
    linarith
  have hcredit : credit = step.contribution d pool.accumulator (.ok outcome) := by
    show step.contribution d _ (pool.answer step) = _
    rw [hanswer]
  rw [hshare, hcredit, hanswer]
  obtain ⟨amount, rfl⟩ | hne := step.inject_or_ne
  · exact h.credit_bounds hstep hfunds hsmall hplan d
  · rw [perShare_of_ne_inject hne hplan, Rewards.value_empty, zero_mul]
    cases step
    case inject r => exact absurd rfl (hne r)
    all_goals norm_num [Step.contribution, Step.weight]

/-! ### What is owed -/

/-- What the positions are owed can be computed, and adds up to the liability. -/
theorem Backed.owed_listing (h : pool.Backed D funds) (hfunds : ∀ d, funds d ≤ fundLimit) :
    ∃ dues, (pool.listing.mapM fun e => pool.accumulator.owed e.2) = .ok dues ∧
      ∀ d, (dues.map fun r => r.value d).sum = pool.liability d := by
  have hall (e : Bytes × Position) (he : e ∈ pool.positions) := h.owed_of_mem hfunds he
  simp only [liability, listing]
  generalize pool.positions = ps at hall
  induction ps with
  | nil => exact ⟨[], rfl, fun d => rfl⟩
  | cons e ps ih =>
    obtain ⟨due, hdue, -, hval⟩ := hall e List.mem_cons_self
    obtain ⟨dues, hdues, hsum⟩ := ih fun e' he' => hall e' (List.mem_cons_of_mem e he')
    refine ⟨due :: dues, ?_, fun d => ?_⟩
    · rw [List.map_cons, List.mapM_cons, hdue, hdues]
      rfl
    · rw [List.map_cons, List.sum_cons, hval, hsum, OrderedMap.sum_cons]

end Pool

namespace Ledger

variable {D : Finset String} {funds : String → ℚ} {l : Ledger} {pool : Pool} {steps : List Step}

/-! ### Runs -/

theorem Holds.conserved (hD : D.card < twoTo 64) (h : l.Holds D pool) (hb : pool.Backed D funds)
    (hrun : Funded D funds steps)
    (hsmall : ∀ p, p <+: steps → (l.after p).accumulator.totalShares.toRat ≤ 10 ^ 10)
    (d : String) :
    let share := (pool.after steps).liability d - pool.liability d + l.handed steps d
    share ≤ l.credited steps d ∧
      l.credited steps d - share ≤ l.weight steps * (1 / 10 ^ 18) := by
  induction steps generalizing l pool funds with
  | nil => norm_num [Pool.after, handed, credited, weight, along]
  | cons step steps ih =>
    obtain ⟨hstep, hfunds⟩ := hrun.head
    -- this step
    obtain ⟨hle, hge⟩ := hb.bounds hstep hfunds
      (h.inHand ▸ hsmall [] List.nil_prefix) d
    -- and the rest of the run
    obtain ⟨hle', hge'⟩ := ih (h.next hD hstep.toOver) (hb.next hstep hfunds) hrun.tail
      (fun p hp => hsmall (step :: p) (List.cons_prefix_cons.2 ⟨rfl, hp⟩))
    rw [← h.answer, ← h.inHand] at hle hge
    simp only [handed, credited, weight, along, Pool.after, List.foldl_cons] at hle' hge' ⊢
    constructor <;> linarith

/-- In a run of whole operations that injects at most `fundLimit` of each denomination for at most
`10 ^ 10` shares, what was handed out and what the positions are owed add up to what was injected
for shares, less at most a unit of the 18th place for every share at each injection. -/
theorem rewards_conserved (hD : D.card < twoTo 64) (hl : l.IsNew)
    (hsteps : ∀ step ∈ steps, step.Whole D) (hfunds : ∀ d, injectedTotal steps d ≤ fundLimit)
    (hsmall : ∀ p, p <+: steps → (l.after p).accumulator.totalShares.toRat ≤ 10 ^ 10) :
    ∃ listing dues,
      positions (l.after steps) = .ok listing (l.after steps) ∧
      (listing.mapM fun e => (l.after steps).accumulator.owed e.2) = .ok dues ∧
      ∀ d, let accounted := l.handed steps d + (dues.map fun r => r.value d).sum
        accounted ≤ l.credited steps d ∧
          l.credited steps d - accounted ≤ l.weight steps * (1 / 10 ^ 18) := by
  have hnew := holds_of_isNew hD hl
  have hholds := hnew.after hD fun step hstep => (hsteps step hstep).toOver
  have hbacked := Pool.backed_new (D := D) l.accumulator.name
  have hrun : Funded D (fun _ => 0) steps := ⟨hsteps, fun d => (zero_add _).trans_le (hfunds d)⟩
  obtain ⟨dues, hdues, hsum⟩ := (hbacked.after hrun).owed_listing hrun.within
  rw [← hholds.inHand] at hdues
  refine ⟨_, dues, hholds.positions_apply, hdues, fun d => ?_⟩
  obtain ⟨hle, hge⟩ := hnew.conserved hD hbacked hrun hsmall d
  have hempty : (Pool.new l.accumulator.name).liability d = 0 := rfl
  rw [hempty, sub_zero, ← hsum] at hle hge
  intro accounted
  constructor <;> linarith

/-- Ten units are divided among three shares. -/
def thirds : List Step :=
  [.openNow "a" (.ofPartsD 3 0) none, .inject ⟨[("uatom", .ofPartsD 10 0)]⟩, .claim "a"]

theorem whole_thirds : ∀ step ∈ thirds, step.Whole {"uatom"} := by
  simp only [thirds, List.forall_mem_cons]
  refine ⟨⟨Decimal.isMultiple_ofPartsD 3 0, by simp⟩, ⟨?_, ?_⟩, trivial, by simp⟩
  · exact Rewards.over_singleton (by decide +kernel) (by decide +kernel)
  · refine Rewards.forall_value (Decimal.isMultiple_zero 0) ?_
    exact List.forall_mem_singleton.2 (Decimal.isMultiple_ofPartsD 10 0)

theorem injectedTotal_thirds_le (d : String) : injectedTotal thirds d ≤ fundLimit := by
  simp only [thirds, injectedTotal_cons, Step.injected, zero_add]
  rw [injectedTotal, List.map_nil, List.sum_nil, add_zero]
  refine Rewards.forall_value (P := fun x => x ≤ fundLimit) (by norm_num [fundLimit]) ?_ d
  refine List.forall_mem_singleton.2 ?_
  decide +kernel

theorem rewards_conserved_thirds :
    ∃ listing dues,
      positions ((fresh "pool").after thirds) = .ok listing ((fresh "pool").after thirds) ∧
      (listing.mapM fun e => ((fresh "pool").after thirds).accumulator.owed e.2) = .ok dues ∧
      ∀ d, let accounted := (fresh "pool").handed thirds d + (dues.map fun r => r.value d).sum
        accounted ≤ (fresh "pool").credited thirds d ∧
          (fresh "pool").credited thirds d - accounted
            ≤ (fresh "pool").weight thirds * (1 / 10 ^ 18) := by
  refine @rewards_conserved {"uatom"} (fresh "pool") thirds (by decide) (isNew_fresh (by decide))
    whole_thirds injectedTotal_thirds_le ?_
  intro p hp
  rw [← List.mem_inits] at hp
  revert p
  decide +kernel

end Ledger

end Accrual
