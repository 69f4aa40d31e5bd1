/-
Positions whose entitlements are backed by what was injected.

While whole amounts up to `fundLimit` are injected for whole shares, every amount in the ledger is
a multiple of `10 ^ -18` below `2 ^ 96` units, and nothing but the division itself is ever rounded.

* `Position.entitlement` — what a position is owed, exactly;
* `Pool.liability` — what all positions are owed;
* `Step.Whole` — the seven operations of a running ledger, on whole shares and amounts;
* `Funded D funds steps` — a run of these that injects no more than the limit;
* `Pool.Backed D funds pool` — value per share and liability are covered by `funds`;
* `Backed.owed` — then the entitlement is computed exactly;
* `Settles`, `Backed.settles` — an operation on a position settles it: what was owed is what is
  owed now and what was handed out;
* `Backed.conserved` — no step changes the liability but by what it hands out or credits;
* `Backed.next`, `Backed.after` — the liability stays backed.

Design notes.  Liability and value are bounded by the injected amounts, not by the value alone: a
position that is settled moves its entitlement around, and only the sum over all positions is
known not to grow.
-/
import Accrual.Proofs.Ledger.Shares
import Accrual.Proofs.Rewards.Loss

namespace Accrual

open Decimal (IsMultiple Fits limit)
open Rewards (fundLimit)

/-! ### Entitlements -/

/-- What a position is owed at a value per share. -/
def Position.entitlement (value : Rewards) (p : Position) (d : String) : ℚ :=
  p.unclaimed.value d + (value.value d - p.snapshot.value d) * p.shares.toRat

/-- Synchronized on the grid of 18 places, at a value not above the current one. -/
structure Position.Synced (value : Rewards) (p : Position) : Prop where
  snapshot : ∀ d, IsMultiple 18 (p.snapshot.value d)
  unclaimed : ∀ d, IsMultiple 18 (p.unclaimed.value d)
  reached : ∀ d, p.snapshot.value d ≤ value.value d

namespace Position

variable {D : Finset String} {value : Rewards} {p : Position}

theorem entitlement_readBack (d : String) :
    p.readBack.entitlement value d = p.entitlement value d := by
  rw [entitlement, entitlement, readBack, Decimal.toRat_readBack]

/-- A position at the current value is owed what is unclaimed. -/
theorem entitlement_of_snapshot_eq (h : p.snapshot = value) (d : String) :
    p.entitlement value d = p.unclaimed.value d := by
  rw [entitlement, h, sub_self, zero_mul, add_zero]

theorem Synced.accrued_nonneg (h : p.Synced value) (h0 : 0 ≤ p.shares.toRat) (d : String) :
    0 ≤ (value.value d - p.snapshot.value d) * p.shares.toRat :=
  mul_nonneg (sub_nonneg.mpr (h.reached d)) h0

theorem Synced.entitlement_nonneg (h : p.Synced value) (hp : p.Over D) (h0 : 0 ≤ p.shares.toRat)
    (d : String) : 0 ≤ p.entitlement value d :=
  add_nonneg (hp.unclaimed.value_nonneg d) (h.accrued_nonneg h0 d)

theorem Synced.isMultiple_accrued (h : p.Synced value) (hv : ∀ d, IsMultiple 18 (value.value d))
    (hwhole : IsMultiple 0 p.shares.toRat) (d : String) :
    IsMultiple 18 ((value.value d - p.snapshot.value d) * p.shares.toRat) := by
  have hmul := ((hv d).sub (h.snapshot d)).mul hwhole
  rwa [Nat.add_zero] at hmul

theorem Synced.isMultiple_entitlement (h : p.Synced value)
    (hv : ∀ d, IsMultiple 18 (value.value d)) (hwhole : IsMultiple 0 p.shares.toRat) (d : String) :
    IsMultiple 18 (p.entitlement value d) :=
  (h.unclaimed d).add (h.isMultiple_accrued hv hwhole d)

end Position

namespace Accumulator

variable {D : Finset String} {a : Accumulator} {p : Position}

/-- An entitlement on the grid and below its limit is computed without rounding. -/
theorem owed_exact (ha : a.valuePerShare.Over D) (hp : p.Over D)
    (hv : ∀ d, IsMultiple 18 (a.valuePerShare.value d)) (hsync : p.Synced a.valuePerShare)
    (hwhole : IsMultiple 0 p.shares.toRat) (h0 : 0 ≤ p.shares.toRat)
    (hvlimit : ∀ d, a.valuePerShare.value d < limit 18)
    (hlimit : ∀ d, p.entitlement a.valuePerShare d < limit 18) :
    ∃ due, a.owed p = .ok due ∧ due.Over D ∧
      ∀ d, due.value d = p.entitlement a.valuePerShare d := by
  -- growth since the snapshot
  have hgrowthFits : ∀ d, Fits 18 (a.valuePerShare.value d - p.snapshot.value d) := by
    intro d
    have hs0 := hp.snapshot.value_nonneg d
    exact ((hv d).sub (hsync.snapshot d)).fits (sub_nonneg.mpr (hsync.reached d))
      (by linarith [hvlimit d])
  obtain ⟨growth, hgrowth, hgover, hgval⟩ :=
    Rewards.sub_exact (by decide) ha hp.snapshot hgrowthFits
  -- times the shares
  have haccruedFits : ∀ d, Fits 18 (growth.value d * p.shares.toRat) := by
    intro d
    have hu0 := hp.unclaimed.value_nonneg d
    have hl := hlimit d
    rw [Position.entitlement] at hl
    rw [hgval]
    exact (hsync.isMultiple_accrued hv hwhole d).fits (hsync.accrued_nonneg h0 d) (by linarith)
  obtain ⟨accrued, haccrued, haover, haval⟩ :=
    Rewards.scale_exact (by decide) hgover h0 haccruedFits
  -- on top of what is unclaimed
  have hdueFits : ∀ d, Fits 18 (p.unclaimed.value d + accrued.value d) := by
    intro d
    rw [haval, hgval]
    exact (hsync.isMultiple_entitlement hv hwhole d).fits (hsync.entitlement_nonneg hp h0 d)
      (hlimit d)
  obtain ⟨due, hdue, hdover, hdval⟩ := Rewards.add_exact (by decide) hp.unclaimed haover hdueFits
  refine ⟨due, owed_eq_ok.mpr ⟨growth, accrued, hgrowth, haccrued, hdue⟩, hdover, fun d => ?_⟩
  rw [hdval, haval, hgval, Position.entitlement]

/-- A position at the current value may be written. -/
theorem vet_of_snapshot_eq (ha : a.valuePerShare.Over D) {index : String}
    (hindex : Key.IsIndex index) (h0 : 0 ≤ p.shares.toRat) (h : p.snapshot = a.valuePerShare) :
    a.vet index p = .ok () := by
  rw [vet_eq_ok, Decimal.lt_iff, Decimal.toRat_zero, not_lt, h]
  obtain ⟨growth, hgrowth, -⟩ := Rewards.sub_exact (t := 18) (by decide) ha ha fun d => by
    rw [sub_self]
    exact ⟨0, by decide, by simp⟩
  exact ⟨hindex, h0, growth, hgrowth⟩

end Accumulator

/-! ### Whole operations -/

/-- Opening, resizing, claiming, closing, deleting and injecting, on whole shares and amounts. -/
def Step.Whole (D : Finset String) : Step → Prop
  | .inject r => r.Over D ∧ ∀ d, IsMultiple 0 (r.value d)
  | .openNow _ shares options =>
    IsMultiple 0 shares.toRat ∧ ∀ payload ∈ options, payload.length < twoTo 63
  | .grow _ x | .shrink _ x => IsMultiple 0 x.toRat
  | .claim _ | .delete _ | .close _ => True
  | .credit _ | .adjustShares _ | .writePosition _ _ | .openAt _ _ _ _ | .resnapshot _ _ => False

/-- The amount that a step injects. -/
def Step.injected (d : String) : Step → ℚ
  | .inject r => r.value d
  | _ => 0

/-- What a run injects. -/
def injectedTotal (steps : List Step) (d : String) : ℚ := (steps.map (Step.injected d)).sum

theorem injectedTotal_cons (step : Step) (steps : List Step) (d : String) :
    injectedTotal (step :: steps) d = step.injected d + injectedTotal steps d := by
  rw [injectedTotal, List.map_cons, List.sum_cons, injectedTotal]

namespace Step.Whole

variable {D : Finset String} {step : Step}

theorem toOver (h : step.Whole D) : step.Over D := by
  cases step <;> first | exact trivial | exact absurd h id | exact h.1 | exact h.2

theorem paired (h : step.Whole D) : step.Paired := by
  cases step <;> first | exact trivial | exact absurd h id

theorem shares (h : step.Whole D) : ∀ x ∈ step.shares?, IsMultiple 0 x.toRat := by
  intro x hx
  cases step
  case openNow => cases hx; exact h.1
  case grow => cases hx; exact h
  case shrink => cases hx; exact h
  all_goals first | exact absurd h id | cases hx

theorem injected_nonneg (h : step.Whole D) (d : String) : 0 ≤ step.injected d := by
  cases step
  case inject r => exact h.1.value_nonneg d
  all_goals exact le_rfl

theorem funds_le (h : step.Whole D) {funds : String → ℚ} {x : ℚ}
    (hfunds : ∀ d, funds d + step.injected d ≤ x) (d : String) : funds d ≤ x :=
  (le_add_of_nonneg_right (h.injected_nonneg d)).trans (hfunds d)

end Step.Whole

theorem Step.inject_or_ne (step : Step) :
    (∃ amount, step = .inject amount) ∨ ∀ amount, step ≠ .inject amount := by
  cases step
  case inject amount => exact .inl ⟨amount, rfl⟩
  all_goals exact .inr fun _ h => nomatch h

/-- A run of whole operations that injects at most `fundLimit` on top of `funds`. -/
structure Funded (D : Finset String) (funds : String → ℚ) (steps : List Step) : Prop where
  whole : ∀ step ∈ steps, step.Whole D
  within : ∀ d, funds d + injectedTotal steps d ≤ fundLimit

namespace Funded

variable {D : Finset String} {funds : String → ℚ} {step : Step} {steps : List Step}

theorem injected_nonneg (h : Funded D funds steps) (d : String) : 0 ≤ injectedTotal steps d := by
  refine List.sum_nonneg fun x hx => ?_
  obtain ⟨step, hstep, rfl⟩ := List.mem_map.1 hx
  exact (h.whole step hstep).injected_nonneg d

theorem funds_le (h : Funded D funds steps) (d : String) : funds d ≤ fundLimit :=
  (le_add_of_nonneg_right (h.injected_nonneg d)).trans (h.within d)

/-- What was injected by the first step is there for the rest of the run. -/
theorem tail (h : Funded D funds (step :: steps)) :
    Funded D (fun d => funds d + step.injected d) steps where
  whole := fun step' hstep' => h.whole step' (List.mem_cons_of_mem step hstep')
  within := by
    intro d
    rw [add_assoc, ← injectedTotal_cons]
    exact h.within d

theorem head (h : Funded D funds (step :: steps)) :
    step.Whole D ∧ ∀ d, funds d + step.injected d ≤ fundLimit :=
  ⟨h.whole step List.mem_cons_self, h.tail.funds_le⟩

end Funded

/-- What an answer hands out: whole units, and the fractions too when the position is closed. -/
def Payout.handed (p : Payout) (d : String) : ℚ :=
  p.paid.value d + if p.closed then p.dust.value d else 0

/-- What an answer hands out. -/
def Outcome.handed (d : String) : Outcome → ℚ
  | .paid payout => payout.handed d
  | .done | .credited _ => 0

/-- What an answer credits to every share. -/
def Outcome.perShare : Outcome → Rewards
  | .credited perShare => perShare
  | .done | .paid _ => .empty

namespace Pool

/-! ### Liability -/

/-- What all positions are owed. -/
def liability (pool : Pool) (d : String) : ℚ :=
  OrderedMap.sum (fun p => p.entitlement pool.accumulator.valuePerShare d) pool.positions

/-- What the position of an index is owed; without a position, nothing. -/
def owedAt (pool : Pool) (index : String) (d : String) : ℚ :=
  ((pool.find? index).map fun p => p.entitlement pool.accumulator.valuePerShare d).getD 0

/-- Every amount is on the grid of 18 places, and value and liability are at most `funds`. -/
structure Backed (D : Finset String) (funds : String → ℚ) (pool : Pool) : Prop where
  sound : pool.Sound D
  counted : pool.Counted 0
  grid : ∀ d, IsMultiple 18 (pool.accumulator.valuePerShare.value d)
  synced : ∀ e ∈ pool.positions, e.2.Synced pool.accumulator.valuePerShare
  value_le : ∀ d, pool.accumulator.valuePerShare.value d ≤ funds d
  liability_le : ∀ d, pool.liability d ≤ funds d

variable {D : Finset String} {funds : String → ℚ} {pool : Pool} {index : String} {p : Position}

theorem Backed.of_find? (h : pool.Backed D funds) (hp : pool.find? index = some p) :
    p.Over D ∧ 0 ≤ p.shares.toRat ∧ IsMultiple 0 p.shares.toRat ∧
      p.Synced pool.accumulator.valuePerShare := by
  have hmem := OrderedMap.mem_of_find? hp
  exact ⟨h.sound.covered _ hmem, h.sound.shares_nonneg hp, h.counted.grid _ hmem, h.synced _ hmem⟩

theorem Backed.funds_nonneg (h : pool.Backed D funds) (d : String) : 0 ≤ funds d :=
  (h.sound.value.value_nonneg d).trans (h.value_le d)

theorem Backed.entitlement_le (h : pool.Backed D funds) {e : Bytes × Position}
    (he : e ∈ pool.positions) (d : String) :
    e.2.entitlement pool.accumulator.valuePerShare d ≤ funds d := by
  have hnonneg : ∀ e ∈ pool.positions, 0 ≤ e.2.entitlement pool.accumulator.valuePerShare d := by
    intro e he
    exact (h.synced e he).entitlement_nonneg (h.sound.covered e he)
      (Decimal.nonneg_of_not_negative (h.sound.nonneg e he)) d
  exact (le_sum (f := fun p : Position => p.entitlement pool.accumulator.valuePerShare d) hnonneg
    he).trans (h.liability_le d)

/-- What a position is owed is computed exactly. -/
theorem Backed.owed_of_mem (h : pool.Backed D funds) (hfunds : ∀ d, funds d ≤ fundLimit)
    {e : Bytes × Position} (he : e ∈ pool.positions) :
    ∃ due, pool.accumulator.owed e.2 = .ok due ∧ due.Over D ∧
      ∀ d, due.value d = e.2.entitlement pool.accumulator.valuePerShare d := by
  have hlimit (d : String) : funds d < limit 18 :=
    lt_of_le_of_lt (hfunds d) Rewards.fundLimit_lt_limit
  exact Accumulator.owed_exact h.sound.value (h.sound.covered e he) h.grid (h.synced e he)
    (h.counted.grid e he) (Decimal.nonneg_of_not_negative (h.sound.nonneg e he))
    (fun d => lt_of_le_of_lt (h.value_le d) (hlimit d))
    (fun d => lt_of_le_of_lt (h.entitlement_le he d) (hlimit d))

theorem Backed.owed (h : pool.Backed D funds) (hfunds : ∀ d, funds d ≤ fundLimit)
    (hp : pool.find? index = some p) :
    ∃ due, pool.accumulator.owed p = .ok due ∧ due.Over D ∧
      ∀ d, due.value d = p.entitlement pool.accumulator.valuePerShare d :=
  h.owed_of_mem hfunds (OrderedMap.mem_of_find? hp)

theorem Backed.due (h : pool.Backed D funds) (hfunds : ∀ d, funds d ≤ fundLimit)
    (hp : pool.find? index = some p) {due : Rewards} (hdue : pool.accumulator.owed p = .ok due) :
    due.Over D ∧ ∀ d, due.value d = pool.owedAt index d ∧ IsMultiple 18 (due.value d) := by
  obtain ⟨due', hdue', hover, hval⟩ := h.owed hfunds hp
  rw [hdue, Except.ok.injEq] at hdue'
  rw [hdue']
  obtain ⟨-, -, hwhole, hsync⟩ := h.of_find? hp
  refine ⟨hover, fun d => ⟨?_, ?_⟩⟩
  · rw [hval, owedAt, hp, Option.map_some, Option.getD_some]
  · rw [hval]
    exact hsync.isMultiple_entitlement h.grid hwhole d

/-! ### Steps -/

theorem handed_of_inject {r : Rewards} {outcome : Outcome} {c : Change}
    (h : pool.plan (.inject r) = .ok (outcome, c)) (d : String) : outcome.handed d = 0 := by
  obtain ⟨x, -, heq⟩ := Accumulator.map_eq_ok.mp h
  cases heq
  rfl

theorem perShare_of_ne_inject {step : Step} (hinject : ∀ r, step ≠ .inject r) {outcome : Outcome}
    {c : Change} (h : pool.plan step = .ok (outcome, c)) : outcome.perShare = .empty := by
  cases step
  case inject r => exact absurd rfl (hinject r)
  all_goals
    obtain ⟨x, -, heq⟩ := Accumulator.map_eq_ok.mp h
    cases heq
    rfl

/-- A position is written at the current value or removed; what it was owed is what it is owed
now and what was handed out. -/
inductive Settles (pool : Pool) (index : String) (outcome : Outcome) : Change → Prop where
  | intro (o : Option Position) (t : Option Totals)
    (unchanged : ∀ t', t = some t' → t'.valuePerShare = pool.accumulator.valuePerShare)
    (current : ∀ p, o = some p → p.snapshot = pool.accumulator.valuePerShare ∧
      ∀ d, IsMultiple 18 (p.unclaimed.value d))
    (owed : ∀ d, pool.owedAt index d
      = (o.map fun p => p.unclaimed.value d).getD 0 + outcome.handed d)
    (nonneg : ∀ d, 0 ≤ outcome.handed d) :
    Settles pool index outcome { position := some o, totals := t }

theorem handed_closed {due : Rewards} (h : due.Over D) (d : String) :
    (Payout.mk due.whole due.dust true).handed d = due.value d := by
  rw [Payout.handed, if_pos rfl, (Rewards.whole_exact h).2, (Rewards.dust_exact h).2,
    Int.floor_add_fract]

theorem handed_open {due : Rewards} (h : due.Over D) (d : String) :
    due.dust.value d + (Payout.mk due.whole due.dust false).handed d = due.value d := by
  rw [Payout.handed, if_neg Bool.false_ne_true, add_zero, (Rewards.whole_exact h).2,
    (Rewards.dust_exact h).2, Int.fract_add_floor]

theorem handed_nonneg {due : Rewards} (h : due.Over D) (closed : Bool) (d : String) :
    0 ≤ (Payout.mk due.whole due.dust closed).handed d := by
  have hwhole := (Rewards.whole_exact h).1.value_nonneg d
  have hdust := (Rewards.dust_exact h).1.value_nonneg d
  rw [Payout.handed]
  split <;> linarith

theorem isMultiple_fract {x : ℚ} (h : IsMultiple 18 x) : IsMultiple 18 (Int.fract x) := by
  have hfloor : IsMultiple 0 (⌊x⌋ : ℚ) := ⟨⌊x⌋, by simp⟩
  exact h.sub (hfloor.mono (by decide))

/-- Every operation on a position settles it. -/
theorem Backed.settles (h : pool.Backed D funds) (hfunds : ∀ d, funds d ≤ fundLimit) {step : Step}
    (hstep : step.Whole D) (hinject : ∀ r, step ≠ .inject r) {outcome : Outcome} {c : Change}
    (hplan : pool.plan step = .ok (outcome, c)) : pool.Settles step.index outcome c := by
  have hkeep : ∀ t', (none : Option Totals) = some t' →
      t'.valuePerShare = pool.accumulator.valuePerShare := fun _ h => nomatch h
  have hplanned := Accumulator.planned_of_plan hplan
  generalize hslot : pool.slot step.index = slot at hplanned
  cases hplanned with
  | injectNothing _ => exact absurd rfl (hinject _)
  | inject _ _ _ => exact absurd rfl (hinject _)
  | credit _ => exact absurd hstep id
  | adjustShares _ _ => exact absurd hstep id
  | writePosition _ => exact absurd hstep id
  | resnapshot _ => exact absurd hstep id
  | opened hopen _ _ _ _ =>
    have hnone := slot_eq_none.mp hslot
    rcases hopen with ⟨rfl, rfl⟩ | rfl
    · -- nothing is owed to begin with
      refine .intro _ _ (fun t' ht' => by cases ht'; rfl) (fun p hp => ?_) (fun d => ?_)
        fun _ => le_rfl
      · cases hp
        exact ⟨rfl, fun d => by rw [Rewards.value_empty]; exact Decimal.isMultiple_zero 18⟩
      · rw [owedAt, hnone]
        simp [Outcome.handed]
    · exact absurd hstep id
  | resized _ _ hdue _ _ _ =>
    -- everything owed becomes unclaimed
    obtain ⟨-, hval⟩ := h.due hfunds (slot_eq_some.mp hslot) hdue
    refine .intro _ _ (fun t' ht' => by cases ht'; rfl) (fun p hp => ?_) (fun d => ?_)
      fun _ => le_rfl
    · cases hp
      exact ⟨rfl, fun d => (hval d).2⟩
    · rw [← (hval d).1, Option.map_some, Option.getD_some, Outcome.handed, add_zero]
  | claimedLast _ hdue =>
    obtain ⟨hover, hval⟩ := h.due hfunds (slot_eq_some.mp hslot) hdue
    refine .intro none none hkeep (fun p hp => nomatch hp) (fun d => ?_) (handed_nonneg hover true)
    rw [Outcome.handed, handed_closed hover, (hval d).1, Option.map_none, Option.getD_none,
      zero_add]
  | claimed _ hdue _ =>
    -- the fractions stay
    obtain ⟨hover, hval⟩ := h.due hfunds (slot_eq_some.mp hslot) hdue
    refine .intro _ none hkeep (fun p hp => ?_) (fun d => ?_) (handed_nonneg hover false)
    · cases hp
      refine ⟨rfl, fun d => ?_⟩
      rw [(Rewards.dust_exact hover).2]
      exact isMultiple_fract (hval d).2
    · rw [Option.map_some, Option.getD_some, Outcome.handed, handed_open hover, (hval d).1]
  | deleted hdue _ hempty =>
    obtain ⟨hover, hval⟩ := h.due hfunds (slot_eq_some.mp hslot) hdue
    refine .intro none none hkeep (fun p hp => nomatch hp) (fun d => ?_) fun _ => le_rfl
    rw [← (hval d).1, hover.isEmpty_iff.mp hempty d]
    simp [Outcome.handed]
  | closed hdue _ _ =>
    obtain ⟨hover, hval⟩ := h.due hfunds (slot_eq_some.mp hslot) hdue
    refine .intro none _ (fun t' ht' => by cases ht'; rfl) (fun p hp => nomatch hp) (fun d => ?_)
      (handed_nonneg hover true)
    rw [Outcome.handed, handed_closed hover, (hval d).1, Option.map_none, Option.getD_none,
      zero_add]

/-- Every share is credited a part of an injected amount; no position is written. -/
structure Credits (pool : Pool) (amount perShare : Rewards) (c : Change) : Prop where
  kept : c.position = none
  value : ∀ d, (c.totals.getD pool.accumulator.toTotals).valuePerShare.value d
    = pool.accumulator.valuePerShare.value d + perShare.value d
  grid : ∀ d, IsMultiple 18 (perShare.value d)
  nonneg : ∀ d, 0 ≤ perShare.value d
  perShare_le : ∀ d, perShare.value d ≤ amount.value d
  credited_le : ∀ d, perShare.value d * pool.accumulator.totalShares.toRat ≤ amount.value d

/-- An injection credits at most the injected amount. -/
theorem Backed.credits (h : pool.Backed D funds) {amount : Rewards} (hamount : amount.Over D)
    (hfunds : ∀ d, funds d + amount.value d ≤ fundLimit) {outcome : Outcome} {c : Change}
    (hplan : pool.plan (.inject amount) = .ok (outcome, c)) :
    pool.Credits amount outcome.perShare c := by
  have h0 := hamount.value_nonneg
  obtain ⟨-, rfl, rfl⟩ | ⟨hsome, q, value, hdiv, hadd, rfl, rfl⟩ :=
    (Accumulator.planned_of_plan hplan).of_inject
  · -- nothing is credited
    refine ⟨rfl, fun d => ?_, fun d => ?_, fun d => ?_, fun d => ?_, fun d => ?_⟩
    all_goals rw [Outcome.perShare, Rewards.value_empty]
    · rw [add_zero, Option.getD_none]
    · exact Decimal.isMultiple_zero 18
    · exact h0 d
    · rw [zero_mul]
      exact h0 d
  · have htotal : IsMultiple 0 pool.accumulator.totalShares.toRat :=
      h.counted.total ▸ h.counted.grid_shareSum
    have hq := Rewards.Over.divideDown hamount hdiv
    have hq0 := hq.value_nonneg
    have hgrid := Rewards.isMultiple_divideDown hamount hdiv
    have hdown (d : String) := Rewards.divideDown_le hamount htotal (d := d)
      (by linarith [hfunds d, h.funds_nonneg d]) hdiv
    -- there is at least one share
    have hone : 1 ≤ pool.accumulator.totalShares.toRat := by
      have hpos := lt_of_le_of_ne (h.counted.total ▸ h.sound.shareSum_nonneg)
        fun hzero => hsome (.inr (Decimal.isZero_iff.mpr hzero.symm))
      simpa using Rewards.one_le_of_isMultiple htotal hpos
    have hle (d : String) : q.value d ≤ amount.value d :=
      (le_mul_of_one_le_right (hq0 d) hone).trans (hdown d)
    -- so the value per share stays below its limit, and the sum is exact
    obtain ⟨out, hout, -, hval⟩ := Rewards.add_exact (t := 18) (by decide) h.sound.value hq fun d =>
      ((h.grid d).add (hgrid d)).fits (add_nonneg (h.sound.value.value_nonneg d) (hq0 d))
        (lt_of_le_of_lt (by linarith [h.value_le d, hle d, hfunds d]) Rewards.fundLimit_lt_limit)
    rw [hadd, Except.ok.injEq] at hout
    exact ⟨rfl, fun d => hout ▸ hval d, hgrid, hq0, hle, hdown⟩

/-! ### Liability after a step -/

theorem Settles.value_commit {outcome : Outcome} {c : Change}
    (h : pool.Settles index outcome c) :
    (pool.commit index c).accumulator.valuePerShare = pool.accumulator.valuePerShare := by
  obtain ⟨o, t, hunchanged, -, -, -⟩ := h
  cases t with
  | none => rfl
  | some t => exact hunchanged t rfl

theorem liability_settled (h : pool.Sound D) {outcome : Outcome} {c : Change}
    (hc : pool.Settles index outcome c) (d : String) :
    (pool.commit index c).liability d + outcome.handed d = pool.liability d := by
  have hvalue := hc.value_commit
  obtain ⟨o, t, -, hcurrent, howed, -⟩ := hc
  have hsum := sum_placed h.ascending
    (fun p => p.entitlement pool.accumulator.valuePerShare d)
    (fun p => p.entitlement_readBack d) index o
  have hnew : (o.map fun p => p.entitlement pool.accumulator.valuePerShare d).getD 0
      = (o.map fun p => p.unclaimed.value d).getD 0 := by
    cases o with
    | none => rfl
    | some p => exact p.entitlement_of_snapshot_eq (hcurrent p rfl).1 d
  have howed := howed d
  rw [owedAt, find?] at howed
  rw [hnew, howed] at hsum
  rw [liability, hvalue, commit, hsum, liability]
  ring

theorem sum_add_mul (f g : Position → ℚ) (x : ℚ) (ps : List (Bytes × Position)) :
    OrderedMap.sum (fun p => f p + x * g p) ps = OrderedMap.sum f ps + x * OrderedMap.sum g ps := by
  induction ps with
  | nil => simp [OrderedMap.sum]
  | cons e ps ih =>
    rw [OrderedMap.sum_cons, OrderedMap.sum_cons, OrderedMap.sum_cons, ih]
    ring

theorem liability_credited (h : pool.Counted 0) {amount perShare : Rewards} {c : Change}
    (hc : pool.Credits amount perShare c) (d : String) :
    (pool.commit index c).liability d
      = pool.liability d + perShare.value d * pool.accumulator.totalShares.toRat := by
  have hentitlement (p : Position) :
      p.entitlement (pool.commit index c).accumulator.valuePerShare d
        = p.entitlement pool.accumulator.valuePerShare d + perShare.value d * p.shares.toRat := by
    rw [Position.entitlement, Position.entitlement, commit, hc.value d]
    ring
  have hpositions : (pool.commit index c).positions = pool.positions := by
    rw [commit, hc.kept]
    rfl
  rw [liability, hpositions, liability, h.total, shareSum, ← sum_add_mul]
  exact congrArg (OrderedMap.sum · pool.positions) (funext hentitlement)

/-- No step changes the liability but by what it hands out or credits. -/
theorem Backed.conserved (h : pool.Backed D funds) {step : Step} (hstep : step.Whole D)
    (hfunds : ∀ d, funds d + step.injected d ≤ fundLimit) {outcome : Outcome} {c : Change}
    (hplan : pool.plan step = .ok (outcome, c)) (d : String) :
    (pool.commit step.index c).liability d + outcome.handed d
      = pool.liability d + outcome.perShare.value d * pool.accumulator.totalShares.toRat := by
  obtain ⟨r, rfl⟩ | hne := step.inject_or_ne
  · rw [liability_credited h.counted (h.credits hstep.1 hfunds hplan), handed_of_inject hplan,
      add_zero]
  · rw [liability_settled h.sound (h.settles (hstep.funds_le hfunds) hstep hne hplan),
      perShare_of_ne_inject hne hplan, Rewards.value_empty, zero_mul, add_zero]

/-! ### Runs -/

theorem Backed.mono (h : pool.Backed D funds) {funds' : String → ℚ}
    (hle : ∀ d, funds d ≤ funds' d) : pool.Backed D funds' :=
  { h with
    value_le := fun d => (h.value_le d).trans (hle d)
    liability_le := fun d => (h.liability_le d).trans (hle d) }

theorem Settles.handed_nonneg {outcome : Outcome} {c : Change} (h : pool.Settles index outcome c)
    (d : String) : 0 ≤ outcome.handed d := by
  obtain ⟨-, -, -, -, -, hnonneg⟩ := h
  exact hnonneg d

theorem Settles.synced {outcome : Outcome} {c : Change} (h : pool.Settles index outcome c)
    (hv : ∀ d, IsMultiple 18 (pool.accumulator.valuePerShare.value d))
    (hsync : ∀ e ∈ pool.positions, e.2.Synced pool.accumulator.valuePerShare) :
    ∀ e ∈ (pool.commit index c).positions, e.2.Synced pool.accumulator.valuePerShare := by
  obtain ⟨o, t, -, hcurrent, -, -⟩ := h
  intro e he
  cases o with
  | none => exact hsync e (OrderedMap.mem_of_mem_erase he)
  | some p =>
    rcases OrderedMap.mem_of_mem_insert he with rfl | he
    · obtain ⟨hsnapshot, hgrid⟩ := hcurrent p rfl
      exact ⟨fun d => hsnapshot ▸ hv d, hgrid, fun d => le_of_eq (congrArg (·.value d) hsnapshot)⟩
    · exact hsync e he

theorem Credits.value_commit {amount perShare : Rewards} {c : Change}
    (h : pool.Credits amount perShare c) (d : String) :
    (pool.commit index c).accumulator.valuePerShare.value d
      = pool.accumulator.valuePerShare.value d + perShare.value d := h.value d

theorem Credits.synced {amount perShare : Rewards} {c : Change} (h : pool.Credits amount perShare c)
    (hsync : ∀ e ∈ pool.positions, e.2.Synced pool.accumulator.valuePerShare) :
    ∀ e ∈ (pool.commit index c).positions,
      e.2.Synced (pool.commit index c).accumulator.valuePerShare := by
  intro e he
  rw [commit, h.kept] at he
  have hsync := hsync e he
  refine ⟨hsync.snapshot, hsync.unclaimed, fun d => ?_⟩
  rw [h.value_commit]
  exact (hsync.reached d).trans (le_add_of_nonneg_right (h.nonneg d))

/-- A step keeps the liability backed by what has been injected. -/
theorem Backed.next (h : pool.Backed D funds) {step : Step} (hstep : step.Whole D)
    (hfunds : ∀ d, funds d + step.injected d ≤ fundLimit) :
    (pool.next step).Backed D fun d => funds d + step.injected d := by
  have hsound := h.sound.next hstep.toOver
  have hcounted :=
    h.counted.next (by decide) h.sound hstep.paired hstep.shares hstep.toOver (.inl rfl)
  cases hplan : pool.plan step with
  | error e =>
    rw [next_of_error hplan]
    exact h.mono fun d => le_add_of_nonneg_right (hstep.injected_nonneg d)
  | ok r =>
  obtain ⟨outcome, c⟩ := r
  have hconserved := h.conserved hstep hfunds hplan
  rw [next_of_plan hplan] at hsound hcounted ⊢
  obtain ⟨r, rfl⟩ | hne := step.inject_or_ne
  · have hc := h.credits hstep.1 hfunds hplan
    refine ⟨hsound, hcounted, fun d => ?_, hc.synced h.synced, fun d => ?_, fun d => ?_⟩
    · rw [hc.value_commit]
      exact (h.grid d).add (hc.grid d)
    · rw [hc.value_commit]
      exact add_le_add (h.value_le d) (hc.perShare_le d)
    · -- the liability grows by what is credited, which is at most the amount
      have hd := hconserved d
      rw [handed_of_inject hplan, add_zero] at hd
      rw [hd]
      exact add_le_add (h.liability_le d) (hc.credited_le d)
  · have hle (d : String) : funds d ≤ funds d + step.injected d :=
      le_add_of_nonneg_right (hstep.injected_nonneg d)
    have hc := h.settles (hstep.funds_le hfunds) hstep hne hplan
    have hvalue := hc.value_commit
    refine ⟨hsound, hcounted, hvalue ▸ h.grid, hvalue ▸ hc.synced h.grid h.synced,
      fun d => hvalue ▸ (h.value_le d).trans (hle d), fun d => ?_⟩
    -- nothing is credited, and what is handed out is no longer owed
    have hd := hconserved d
    rw [perShare_of_ne_inject hne hplan, Rewards.value_empty, zero_mul, add_zero] at hd
    linarith [hc.handed_nonneg d, h.liability_le d, hle d]

theorem backed_new (name : String) : (new name).Backed D fun _ => 0 where
  sound := sound_new name
  counted := counted_new name 0
  grid := fun d => by
    show IsMultiple 18 (Rewards.empty.value d)
    rw [Rewards.value_empty]
    exact Decimal.isMultiple_zero 18
  synced := fun _ he => absurd he List.not_mem_nil
  value_le := fun d => (Rewards.value_empty d).le
  liability_le := fun _ => le_rfl

theorem Backed.after (h : pool.Backed D funds) {steps : List Step} (hrun : Funded D funds steps) :
    (pool.after steps).Backed D fun d => funds d + injectedTotal steps d := by
  induction steps generalizing pool funds with
  | nil => exact h.mono fun d => le_add_of_nonneg_right le_rfl
  | cons step steps ih =>
    obtain ⟨hstep, hfunds⟩ := hrun.head
    refine (ih (h.next hstep hfunds) hrun.tail).mono fun d => ?_
    rw [injectedTotal_cons, add_assoc]

end Pool

end Accrual
