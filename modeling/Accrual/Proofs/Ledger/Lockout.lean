/-
When shares cannot be taken out.

A step is refused with `negativeTotalShares` where the recorded total is less than the shares it
takes out.  Rounding can bring the total below the sum of the shares, so this happens.

* `Result.Lacks` — failure because the share total would become negative;
* `lacks_adjusted` — a change of the total fails so exactly when the exact sum is negative;
* `Step.Removes` — the shares a step takes out of a position;
* `lacks_plan` — only a step that takes out more than the recorded total fails so;
* `negativeTotalShares_iff` — which steps fail so after a run, and that none does where the total
  is exact.

Design notes.  The sign of a rounded sum is the sign of the exact one, and a sum of opposite signs
never overflows.  So the refusal can be decided on exact values, although the total is rounded.
-/
import Accrual.Proofs.Ledger.Order
import Accrual.Proofs.Ledger.Shares

namespace Accrual

open Decimal (IsMultiple limit)

/-- The share total would become negative. -/
def Error.IsLack : Error → Prop
  | .violation (.negativeTotalShares _ _ _) => True
  | _ => False

namespace Result

variable {α β : Type}

/-- Failure because the share total would become negative. -/
def Lacks : Except Error α → Prop
  | .error e => e.IsLack
  | .ok _ => False

theorem lacks_iff {r : Except Error α} :
    Lacks r ↔
      ∃ name total delta, r = .error (.violation (.negativeTotalShares name total delta)) := by
  constructor
  · intro h
    cases r with
    | ok a => exact absurd h id
    | error e =>
      change e.IsLack at h
      unfold Error.IsLack at h
      split at h
      · exact ⟨_, _, _, rfl⟩
      · exact absurd h id
  · rintro ⟨name, total, delta, rfl⟩
    trivial

theorem lacks_bind {x : Except Error β} {f : β → Except Error α} :
    Lacks (x >>= f) ↔ Lacks x ∨ ∃ b, x = .ok b ∧ Lacks (f b) := by
  cases x with
  | error e =>
    rw [error_bind]
    exact ⟨.inl, fun h => h.elim id fun ⟨_, h, _⟩ => nomatch h⟩
  | ok b =>
    rw [ok_bind]
    refine ⟨fun h => .inr ⟨b, rfl, h⟩, fun h => h.elim False.elim fun ⟨_, h, hf⟩ => ?_⟩
    cases h
    exact hf

/-- A first part that does not fail so passes the question on. -/
theorem lacks_bind_of_not {x : Except Error β} {f : β → Except Error α} (h : ¬ Lacks x) :
    Lacks (x >>= f) ↔ ∃ b, x = .ok b ∧ Lacks (f b) := by
  rw [lacks_bind, or_iff_right h]

/-- A last part that does not fail so leaves it to the first. -/
theorem lacks_bind_of_forall_not {x : Except Error β} {f : β → Except Error α}
    (h : ∀ b, ¬ Lacks (f b)) : Lacks (x >>= f) ↔ Lacks x := by
  rw [lacks_bind]
  exact ⟨fun h' => h'.elim id fun ⟨b, _, hb⟩ => absurd hb (h b), .inl⟩

theorem lacks_map {r : Except Error β} {f : β → α} : Lacks (r.map f) ↔ Lacks r := by
  cases r <;> rfl

theorem not_lacks_mapError {r : Except RewardError α} : ¬ Lacks (r.mapError .rewards) := by
  cases r <;> exact id

theorem lacks_guard {p : Prop} [Decidable p] {e : Error} {r : Except Error α}
    {r' : Unit → Except Error α} (he : ¬ e.IsLack) :
    Lacks (if p then throw e >>= r' else r) ↔ ¬ p ∧ Lacks r := by
  by_cases hp : p
  · rw [if_pos hp]
    exact iff_of_false he fun h => h.1 hp
  · rw [if_neg hp, and_iff_right hp]

end Result

open Result

/-- The shares `x` a step takes out of a position `p`. -/
def Step.Removes (p : Position) (x : Decimal) : Step → Prop
  | .shrink _ y => x = y ∧ 0 < y.toRat ∧ y.toRat ≤ p.shares.toRat
  | .close _ => x = p.shares
  | _ => False

theorem Step.Removes.le {step : Step} {p : Position} {x : Decimal} (h : step.Removes p x) :
    x.toRat ≤ p.shares.toRat := by
  cases step
  case shrink index y =>
    obtain ⟨rfl, -, hle⟩ := h
    exact hle
  case close index => exact le_of_eq (congrArg Decimal.toRat h)
  all_goals exact absurd h id

namespace Accumulator

variable {a : Accumulator} {index : String} {slot : Slot} {p : Position} {delta : Decimal}

/-! ### Parts that never fail so -/

theorem not_lacks_positive (x : Decimal) : ¬ Lacks (positive x) := by
  unfold positive
  split <;> exact id

theorem not_lacks_held : ¬ Lacks (a.held index slot) := by
  rcases slot with _ | _ | p <;> exact id

theorem not_lacks_growthSince (snapshot : Rewards) : ¬ Lacks (a.growthSince snapshot) := by
  unfold growthSince
  split <;> exact id

theorem not_lacks_owed : ¬ Lacks (a.owed p) := by
  unfold owed
  rw [lacks_bind_of_not (not_lacks_growthSince _)]
  rintro ⟨growth, -, h⟩
  rw [lacks_bind_of_not not_lacks_mapError] at h
  obtain ⟨accrued, -, h⟩ := h
  exact not_lacks_mapError h

theorem not_lacks_vet : ¬ Lacks (a.vet index p) := by
  unfold vet
  rw [lacks_guard id, lacks_guard id, lacks_bind_of_not (not_lacks_growthSince _)]
  exact fun h => h.2.2.elim fun _ h => h.2

theorem not_lacks_credited (perShare : Rewards) : ¬ Lacks (a.credited perShare) := by
  unfold credited
  rw [lacks_bind_of_not not_lacks_mapError]
  exact fun h => h.elim fun _ h => h.2

/-! ### The total -/

/-- A change of the total fails so exactly when the exact sum is negative. -/
theorem lacks_adjusted (h0 : 0 ≤ a.totalShares.toRat) :
    Lacks (a.adjusted delta) ↔ a.totalShares.toRat + delta.toRat < 0 := by
  have htotal : Lacks (a.adjusted delta) ↔ Lacks (a.totalAfter delta) :=
    lacks_bind_of_forall_not fun _ => id
  rw [htotal]
  unfold totalAfter
  cases hadd : a.totalShares.add? delta with
  | none =>
    refine iff_of_false id fun hneg => ?_
    have hsome := Decimal.isSome_add?_of_opposite h0 (show delta.toRat ≤ 0 by linarith)
    rw [hadd] at hsome
    cases hsome
  | some total =>
    rw [← Decimal.add?_lt_zero_iff hadd]
    dsimp only
    split
    · next h => exact iff_of_true trivial (by rwa [Decimal.lt_iff, Decimal.toRat_zero] at h)
    · next h => exact iff_of_false id (by rwa [Decimal.lt_iff, Decimal.toRat_zero] at h)

/-- What is added never fails so. -/
theorem not_lacks_adjusted_of_pos (h0 : 0 ≤ a.totalShares.toRat) (hpos : ¬ delta ≤ .zero) :
    ¬ Lacks (a.adjusted delta) := by
  rw [Decimal.le_iff, Decimal.toRat_zero] at hpos
  rw [lacks_adjusted h0]
  linarith

theorem lacks_planResize (h0 : 0 ≤ a.totalShares.toRat) {shares : Decimal} :
    Lacks (a.planResize index p shares delta) ↔
      (∃ due, a.owed p = .ok due) ∧ a.totalShares.toRat + delta.toRat < 0 := by
  unfold planResize
  rw [lacks_bind_of_not not_lacks_owed, ← lacks_adjusted h0, ← exists_and_right]
  refine exists_congr fun due => and_congr_right fun _ => lacks_bind_of_forall_not fun t => ?_
  rw [lacks_bind_of_not not_lacks_vet]
  exact fun h => h.elim fun _ h => h.2

theorem not_lacks_planOpen (h0 : 0 ≤ a.totalShares.toRat) {shares : Decimal} {snapshot : Rewards}
    {options : Option Bytes} : ¬ Lacks (a.planOpen index shares snapshot options slot) := by
  unfold planOpen
  rw [lacks_guard id, lacks_bind_of_not (not_lacks_positive shares)]
  rintro ⟨-, _, hpos, h⟩
  obtain ⟨-, h⟩ := (lacks_guard id).mp h
  obtain ⟨t, -, h⟩ := (lacks_bind_of_not
    (not_lacks_adjusted_of_pos h0 (positive_eq_ok.mp hpos))).mp h
  exact not_lacks_vet ((lacks_bind_of_forall_not fun _ => id).mp h)

/-! ### Steps -/

theorem not_lacks_planInject (amount : Rewards) : ¬ Lacks (a.planInject amount) := by
  unfold planInject
  split
  · exact id
  · rw [lacks_bind_of_not not_lacks_mapError]
    rintro ⟨perShare, -, h⟩
    exact not_lacks_credited perShare ((lacks_bind_of_forall_not fun _ => id).mp h)

theorem not_lacks_planGrow (h0 : 0 ≤ a.totalShares.toRat) (x : Decimal) :
    ¬ Lacks (a.planGrow index x slot) := by
  unfold planGrow
  rw [lacks_bind_of_not (not_lacks_positive x)]
  rintro ⟨_, hpos, h⟩
  obtain ⟨p, -, h⟩ := (lacks_bind_of_not not_lacks_held).mp h
  split at h
  · exact h
  · have hlt := ((lacks_planResize h0).mp h).2
    have := positive_eq_ok.mp hpos
    rw [Decimal.le_iff, Decimal.toRat_zero] at this
    linarith

theorem lacks_planShrink (h0 : 0 ≤ a.totalShares.toRat)
    (hslot : ∀ p, slot = some (some p) → 0 ≤ p.shares.toRat) {x : Decimal} :
    Lacks (a.planShrink index x slot) ↔ ∃ p, slot = some (some p) ∧
      (0 < x.toRat ∧ x.toRat ≤ p.shares.toRat) ∧ (∃ due, a.owed p = .ok due) ∧
      a.totalShares.toRat < x.toRat := by
  unfold planShrink
  rw [lacks_bind_of_not (not_lacks_positive x)]
  simp only [positive_eq_ok, Decimal.le_iff, Decimal.toRat_zero, not_le]
  constructor
  · rintro ⟨_, hpos, h⟩
    obtain ⟨p, hp, h⟩ := (lacks_bind_of_not not_lacks_held).mp h
    obtain ⟨henough, h⟩ := (lacks_guard id).mp h
    rw [Decimal.lt_iff, not_lt] at henough
    split at h
    · exact absurd h id
    · obtain ⟨hdue, hlt⟩ := (lacks_planResize h0).mp h
      rw [Decimal.toRat_neg] at hlt
      exact ⟨p, held_eq_ok.mp hp, ⟨hpos, henough⟩, hdue, by linarith⟩
  · rintro ⟨p, rfl, ⟨hpos, henough⟩, hdue, hlt⟩
    -- the rest can always be computed, since the signs are opposite
    obtain ⟨rest, hrest⟩ := Option.isSome_iff_exists.mp
      (Decimal.isSome_sub? (hslot p rfl) hpos.le)
    refine ⟨(), hpos, (lacks_bind_of_not not_lacks_held).mpr ⟨p, rfl, ?_⟩⟩
    rw [lacks_guard id, Decimal.lt_iff, not_lt]
    refine ⟨henough, ?_⟩
    simp only [hrest]
    rw [lacks_planResize h0, Decimal.toRat_neg]
    exact ⟨hdue, by linarith⟩

theorem not_lacks_planClaim : ¬ Lacks (a.planClaim index slot) := by
  unfold planClaim
  rw [lacks_bind_of_not not_lacks_held]
  rintro ⟨p, -, h⟩
  obtain ⟨due, -, h⟩ := (lacks_bind_of_not not_lacks_owed).mp h
  split at h
  · exact h
  · obtain ⟨_, -, h⟩ := (lacks_bind_of_not not_lacks_vet).mp h
    exact h

theorem not_lacks_planResnapshot (snapshot : Rewards) :
    ¬ Lacks (a.planResnapshot index snapshot slot) := by
  unfold planResnapshot planWrite
  rw [lacks_bind_of_not not_lacks_held]
  rintro ⟨p, -, h⟩
  exact not_lacks_vet ((lacks_bind_of_forall_not fun _ => id).mp h)

theorem not_lacks_planDelete : ¬ Lacks (a.planDelete index slot) := by
  unfold planDelete
  rw [lacks_bind_of_not not_lacks_held]
  rintro ⟨p, -, h⟩
  obtain ⟨due, -, h⟩ := (lacks_bind_of_not not_lacks_owed).mp h
  exact ((lacks_guard id).mp h).2

theorem lacks_planClose (h0 : 0 ≤ a.totalShares.toRat) :
    Lacks (a.planClose index slot) ↔ ∃ p, slot = some (some p) ∧ (∃ due, a.owed p = .ok due) ∧
      a.totalShares.toRat < p.shares.toRat := by
  unfold planClose
  rw [lacks_bind_of_not not_lacks_held]
  simp only [held_eq_ok]
  refine exists_congr fun p => and_congr_right fun _ => ?_
  rw [lacks_bind_of_not not_lacks_owed, ← exists_and_right]
  refine exists_congr fun due => and_congr_right fun _ => ?_
  rw [lacks_bind_of_forall_not fun _ => id, lacks_adjusted h0, Decimal.toRat_neg,
    ← sub_eq_add_neg, sub_neg]

/-- Among the operations that keep positions and total together, only one that takes more out of
a position than the recorded total fails so. -/
theorem lacks_plan (h0 : 0 ≤ a.totalShares.toRat)
    (hslot : ∀ p, slot = some (some p) → 0 ≤ p.shares.toRat) {step : Step} (hstep : step.Paired) :
    Lacks (a.plan slot step) ↔ ∃ p x, slot = some (some p) ∧ step.Removes p x ∧
      (∃ due, a.owed p = .ok due) ∧ a.totalShares.toRat < x.toRat := by
  -- a step that takes nothing out
  have hkeep {α : Type} {r : Except Error α} (hr : ¬ Lacks r)
      (hremoves : ∀ p x, ¬ step.Removes p x) :
      Lacks r ↔ ∃ p x, slot = some (some p) ∧ step.Removes p x ∧
        (∃ due, a.owed p = .ok due) ∧ a.totalShares.toRat < x.toRat :=
    iff_of_false hr fun ⟨p, x, _, h, _⟩ => hremoves p x h
  cases step <;> rw [plan, lacks_map]
  case adjustShares => exact absurd hstep id
  case writePosition => exact absurd hstep id
  case inject amount => exact hkeep (not_lacks_planInject amount) fun _ _ => id
  case credit perShare =>
    refine hkeep (fun h => ?_) fun _ _ => id
    exact not_lacks_credited perShare ((lacks_bind_of_forall_not fun _ => id).mp h)
  case openNow => exact hkeep (not_lacks_planOpen h0) fun _ _ => id
  case openAt => exact hkeep (not_lacks_planOpen h0) fun _ _ => id
  case grow index x => exact hkeep (not_lacks_planGrow h0 x) fun _ _ => id
  case claim index => exact hkeep not_lacks_planClaim fun _ _ => id
  case resnapshot index snapshot => exact hkeep (not_lacks_planResnapshot snapshot) fun _ _ => id
  case delete index => exact hkeep not_lacks_planDelete fun _ _ => id
  case shrink index x =>
    rw [lacks_planShrink h0 hslot]
    constructor
    · rintro ⟨p, hp, hx, h⟩
      exact ⟨p, x, hp, ⟨rfl, hx⟩, h⟩
    · rintro ⟨p, _, hp, ⟨rfl, hx⟩, h⟩
      exact ⟨p, hp, hx, h⟩
  case close index =>
    rw [lacks_planClose h0]
    constructor
    · rintro ⟨p, hp, h⟩
      exact ⟨p, p.shares, hp, rfl, h⟩
    · rintro ⟨p, _, hp, rfl, h⟩
      exact ⟨p, hp, h⟩

end Accumulator

namespace Pool

variable {D : Finset String} {pool : Pool} {step : Step} {steps : List Step}

theorem Sound.lacks_iff (h : pool.Sound D) (h0 : 0 ≤ pool.accumulator.totalShares.toRat)
    (hstep : step.Paired) :
    Lacks (pool.plan step) ↔ ∃ p x, pool.find? step.index = some p ∧ step.Removes p x ∧
      (∃ due, pool.accumulator.owed p = .ok due) ∧
      pool.accumulator.totalShares.toRat < x.toRat := by
  rw [Pool.plan, Accumulator.lacks_plan h0 (fun p hp => h.shares_nonneg (slot_eq_some.mp hp)) hstep]
  simp only [slot_eq_some]

/-- Where the total is the sum of the shares, no step lacks shares. -/
theorem Counted.not_lacks {s : ℕ} (h : pool.Counted s) (hsound : pool.Sound D)
    (hstep : step.Paired) : ¬ Lacks (pool.plan step) := by
  rw [hsound.lacks_iff (h.total ▸ hsound.shareSum_nonneg) hstep]
  rintro ⟨p, x, hp, hx, -, hlt⟩
  rw [h.total] at hlt
  exact absurd (hx.le.trans (hsound.shares_le hp)) (not_le.mpr hlt)

end Pool

namespace Ledger

variable {D : Finset String} {l : Ledger} {pool : Pool} {steps : List Step}

theorem Holds.lacks_answer (h : l.Holds D pool) (step : Step) :
    (∃ name total delta,
        l.answer step = .error (.violation (.negativeTotalShares name total delta))) ↔
      Lacks (pool.plan step) := by
  rw [h.answer, Pool.answer, ← Result.lacks_iff, lacks_map]

/-- After a run of operations that keep positions and total together, a step is refused for a
negative share total exactly if it takes more out of a position than the recorded total.  Where
shares are multiples of `10 ^ -s` and their sum stayed below `2 ^ 96` units, none is; whole shares
need no such bound. -/
theorem negativeTotalShares_iff (hD : D.card < twoTo 64) (hl : l.IsNew)
    (hsteps : ∀ step ∈ steps, step.Over D ∧ step.Paired) {step : Step} (hstep : step.Paired) :
    ((∃ name total delta, (l.after steps).answer step
          = .error (.violation (.negativeTotalShares name total delta))) ↔
        ∃ p x, position step.index (l.after steps) = .ok p (l.after steps) ∧ step.Removes p x ∧
          (∃ due, (l.after steps).accumulator.owed p = .ok due) ∧
          (l.after steps).accumulator.totalShares.toRat < x.toRat) ∧
      ((∃ s ≤ 28, (∀ step ∈ steps, ∀ x ∈ step.shares?, IsMultiple s x.toRat) ∧
          (s = 0 ∨ ∀ p, p <+: steps → (l.after p).shareSum < limit s)) →
        ¬ ∃ name total delta, (l.after steps).answer step
          = .error (.violation (.negativeTotalShares name total delta))) := by
  have hnew := holds_of_isNew hD hl
  have hpart (p : List Step) (hp : p <+: steps) := hnew.after hD
    fun step hstep => (hsteps step (hp.subset hstep)).1
  have hholds := hpart steps List.prefix_rfl
  rw [hholds.lacks_answer]
  constructor
  · have h0 := (Pool.new l.accumulator.name).total_nonneg_after Decimal.toRat_zero.ge steps
    rw [hholds.sound.lacks_iff h0 hstep, hholds.inHand]
    refine exists_congr fun p => exists_congr fun x => and_congr_left fun _ => ?_
    rw [hholds.position_apply]
    split
    · next p' hp' => rw [hp', Option.some.injEq, EStateM.Result.ok.injEq, and_iff_left rfl]
    · next hp' =>
      rw [hp']
      exact iff_of_false (fun h => nomatch h) fun h => nomatch h
  · rintro ⟨s, hs, hgrid, hlimit⟩
    have hcounted := (Pool.counted_new l.accumulator.name s).after hs hnew.sound
      (fun step hstep => ⟨(hsteps step hstep).1, (hsteps step hstep).2, hgrid step hstep⟩)
      (hlimit.imp_right fun hlimit p hp => (hpart p hp).shareSum_eq ▸ hlimit p hp)
    exact hcounted.not_lacks hholds.sound hstep

/-- Two positions whose shares are too far apart for their sum, of which the larger is closed. -/
def drift : List Step :=
  [.openNow "a" (.ofPartsD 50000000000000000000000000000 0) none,
    .openNow "b" (.ofPartsD 4 1) none, .close "a"]

/-- The smaller one holds shares that can no longer be taken out. -/
theorem close_after_drift :
    (fresh "pool").IsNew ∧
      ((fresh "pool").after drift).answer (.close "b")
        = .error (.violation (.negativeTotalShares "pool" .zero
            { negative := true, mantissa := 4, scale := 1 })) :=
  ⟨isNew_fresh (by decide), by decide +kernel⟩

theorem negativeTotalShares_iff_drift :
    ∃ p x, position "b" ((fresh "pool").after drift) = .ok p ((fresh "pool").after drift) ∧
      (Step.close "b").Removes p x ∧
      (∃ due, ((fresh "pool").after drift).accumulator.owed p = .ok due) ∧
      ((fresh "pool").after drift).accumulator.totalShares.toRat < x.toRat := by
  have hsteps : ∀ step ∈ drift, step.Over ∅ ∧ step.Paired := by simp [drift, Step.Over, Step.Paired]
  have h := @negativeTotalShares_iff ∅ (fresh "pool") drift (by decide) (isNew_fresh (by decide))
    hsteps (.close "b") trivial
  refine h.1.mp ⟨"pool", .zero, { negative := true, mantissa := 4, scale := 1 }, ?_⟩
  decide +kernel

end Ledger

end Accrual
