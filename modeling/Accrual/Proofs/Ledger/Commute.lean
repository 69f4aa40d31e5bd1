/-
Operations on different positions, in either order.

* `Pool.Gridded s` — shares are multiples of `10 ^ -s`; rounding keeps them so;
* `Step.increase` — what an operation adds to the sum of the shares;
* `Counted.adjusted` — where the total is the sum and there is room, moving it succeeds;
* `Counted.plan_next` — so an operation decides the same after another one at a different position;
* `Counted.answer_next`, `Counted.total_next_next` — what it answers and writes, and the total after
  both, do not depend on the order;
* `operations_commute` — nor do the records and the value per share.

Design notes.  All operations read the one recorded total, but where it is exact none of them is
refused for it: what is taken out of a position is part of the sum.  A recorded total that was
rounded in the past can be less than the shares of a position, and then the order matters
(`order_matters_after_drift`).
-/
import Accrual.Proofs.Ledger.Alike
import Accrual.Proofs.Ledger.Lockout

namespace Accrual

open Decimal (IsMultiple limit)
open Result (Agree)

/-- The shares an operation adds to the sum if it succeeds. -/
def Step.increase : Step → ℚ
  | .openNow _ shares _ | .openAt _ shares _ _ | .grow _ shares => max shares.toRat 0
  | _ => 0

theorem Step.increase_nonneg (step : Step) : 0 ≤ step.increase := by
  cases step <;> simp [increase]

theorem Step.OnPosition.paired {step : Step} (h : step.OnPosition) : step.Paired := by
  cases step with
  | adjustShares | writePosition => exact absurd h id
  | _ => trivial

namespace Decimal

theorem limit_lt_limit {s t : ℕ} (h : s < t) : limit t < limit s :=
  div_lt_div_of_pos_left (by norm_num [bound]) (by positivity)
    (pow_lt_pow_right₀ (by norm_num) h)

theorem toRat_lt_limit (a : Decimal) : a.toRat < limit a.scale := by
  refine lt_of_le_of_lt (le_abs_self a.toRat) ?_
  rw [abs_toRat, limit]
  exact div_lt_div_of_pos_right (by exact_mod_cast a.mantissa_lt) (by positivity)

/-- Rounding a sum on the grid stays on the grid: only places beyond it can be lost. -/
theorem isMultiple_add? {a b c : Decimal} {s : ℕ} (hs : s ≤ 28) (hadd : a.add? b = some c)
    (hgrid : IsMultiple s (a.toRat + b.toRat)) (h0 : 0 ≤ a.toRat + b.toRat) :
    IsMultiple s c.toRat := by
  by_cases hlt : a.toRat + b.toRat < limit s
  · rw [Pool.add?_exact hs hadd hgrid h0 (.inl hlt)]
    exact hgrid
  · have hge := limit_le_add? hs hadd (not_lt.mp hlt)
    have hscale : c.scale ≤ s := by
      by_contra hfine
      exact absurd (hge.trans_lt (toRat_lt_limit c)) (limit_lt_limit (not_le.mp hfine)).not_gt
    exact (isMultiple_toRat c).mono hscale

end Decimal

namespace Pool

variable {D : Finset String} {pool : Pool} {s : ℕ} {step x y : Step}

/-! ### Shares on a grid -/

/-- Shares are multiples of `10 ^ -s`. -/
def Gridded (s : ℕ) (pool : Pool) : Prop := ∀ e ∈ pool.positions, IsMultiple s e.2.shares.toRat

/-- The shares of a resized position, also where they are rounded. -/
theorem isMultiple_resized (hs : s ≤ 28) {index : String} {held shares x delta : Decimal}
    (hresize : step = .grow index x ∧ held.add? x = some shares ∧ delta = x ∨
      step = .shrink index x ∧ ¬ held < x ∧ held.sub? x = some shares ∧ delta = x.neg)
    (hheld : IsMultiple s held.toRat) (hx : IsMultiple s x.toRat) (hpos : ¬ x ≤ .zero)
    (h0 : 0 ≤ held.toRat) : IsMultiple s shares.toRat := by
  rw [Decimal.le_iff, Decimal.toRat_zero, not_le] at hpos
  rcases hresize with ⟨-, hgrow, -⟩ | ⟨-, henough, hshrink, -⟩
  · exact Decimal.isMultiple_add? hs hgrow (hheld.add hx) (by linarith)
  · rw [Decimal.lt_iff, not_lt] at henough
    obtain ⟨b, hb, hval⟩ := Decimal.sub?_eq held x
    rw [hb] at hshrink
    refine Decimal.isMultiple_add? hs hshrink ?_ (by linarith)
    rw [hval]
    exact hheld.add hx.neg

theorem Gridded.next (hs : s ≤ 28) (hsound : pool.Sound D) (h : pool.Gridded s)
    (hpaired : step.Paired) (hgrid : ∀ n ∈ step.shares?, IsMultiple s n.toRat) :
    (pool.next step).Gridded s := by
  cases hplan : pool.plan step with
  | error e => rwa [next_of_error hplan]
  | ok r =>
  obtain ⟨outcome, c⟩ := r
  rw [next_of_plan hplan]
  have hplanned := Accumulator.planned_of_plan hplan
  generalize hslot : pool.slot step.index = slot at hplanned
  cases hplanned with
  | injectNothing _ => exact h
  | inject _ _ _ => exact h
  | credit _ => exact h
  | adjustShares _ _ => exact absurd hpaired id
  | writePosition _ => exact absurd hpaired id
  | @opened _ _ shares _ _ _ hopen _ _ _ _ =>
    refine grid_commit h fun p hp => ?_
    cases hp
    exact hgrid shares (by rcases hopen with ⟨rfl, -⟩ | rfl <;> rfl)
  | @resized _ _ p shares x _ _ _ hresize hpos _ _ _ _ =>
    have hp := slot_eq_some.mp hslot
    refine grid_commit h fun p' hp' => ?_
    cases hp'
    exact isMultiple_resized hs hresize (h _ (OrderedMap.mem_of_find? hp))
      (hgrid x (by rcases hresize with ⟨rfl, -⟩ | ⟨rfl, -⟩ <;> rfl)) hpos (hsound.shares_nonneg hp)
  | claimedLast _ _ => exact grid_commit h fun _ hp => nomatch hp
  | claimed _ _ _ =>
    refine grid_commit h fun p' hp' => ?_
    cases hp'
    exact h _ (OrderedMap.mem_of_find? (slot_eq_some.mp hslot))
  | resnapshot _ =>
    refine grid_commit h fun p' hp' => ?_
    cases hp'
    exact h _ (OrderedMap.mem_of_find? (slot_eq_some.mp hslot))
  | deleted _ _ _ => exact grid_commit h fun _ hp => nomatch hp
  | closed _ _ _ => exact grid_commit h fun _ hp => nomatch hp

theorem Gridded.after (hs : s ≤ 28) (hsound : pool.Sound D) (h : pool.Gridded s)
    {steps : List Step} (hsteps : ∀ step ∈ steps, step.Over D ∧ step.Paired ∧
      ∀ n ∈ step.shares?, IsMultiple s n.toRat) : (pool.after steps).Gridded s := by
  induction steps generalizing pool with
  | nil => exact h
  | cons step steps ih =>
    obtain ⟨hover, hpaired, hgrid⟩ := hsteps step List.mem_cons_self
    exact ih (hsound.next hover) (h.next hs hsound hpaired hgrid)
      fun step' hstep' => hsteps step' (List.mem_cons_of_mem step hstep')

/-! ### Room for both -/

/-- A resized position has at most the shares that are added to it. -/
theorem resized_le (hs : s ≤ 28) {index : String} {held shares x delta : Decimal}
    (hresize : step = .grow index x ∧ held.add? x = some shares ∧ delta = x ∨
      step = .shrink index x ∧ ¬ held < x ∧ held.sub? x = some shares ∧ delta = x.neg)
    (hheld : IsMultiple s held.toRat) (hx : IsMultiple s x.toRat) (hpos : ¬ x ≤ .zero)
    (h0 : 0 ≤ held.toRat) (hroom : held.toRat + step.increase < limit s) :
    shares.toRat ≤ held.toRat + step.increase := by
  have hincrease := step.increase_nonneg
  rw [Decimal.le_iff, Decimal.toRat_zero, not_le] at hpos
  -- the new shares are exact, as they are within the limit
  rcases hresize with ⟨rfl, hgrow, -⟩ | ⟨rfl, henough, hshrink, -⟩
  · have hmax : x.toRat ≤ (Step.grow index x).increase := le_max_left _ _
    rw [add?_exact hs hgrow (hheld.add hx) (by linarith) (.inl (by linarith))]
    linarith
  · rw [Decimal.lt_iff, not_lt] at henough
    obtain ⟨b, hb, hval⟩ := Decimal.sub?_eq held x
    rw [hb] at hshrink
    rw [add?_exact hs hshrink (hval ▸ hheld.add hx.neg) (by linarith) (.inl (by linarith)), hval]
    linarith

theorem Sound.shareSum_removed_le (hsound : pool.Sound D) {index : String} {p : Position}
    (hp : pool.find? index = some p) (t : Option Totals) :
    (pool.commit index { position := some none, totals := t }).shareSum ≤ pool.shareSum := by
  rw [shareSum_commit hsound.ascending, sharesAt_of_some hp, Option.map_none, Option.getD_none]
  linarith [hsound.shares_nonneg hp]

theorem Sound.shareSum_rewritten (hsound : pool.Sound D) {index : String} {p p' : Position}
    (hp : pool.find? index = some p) (hshares : p'.shares = p.shares) :
    (pool.commit index { position := some (some p') }).shareSum = pool.shareSum := by
  rw [shareSum_commit hsound.ascending, sharesAt_of_some hp, Option.map_some, Option.getD_some,
    hshares, add_sub_cancel_right]

/-- An operation adds at most its increase to the sum. -/
theorem Counted.shareSum_next_le (hs : s ≤ 28) (hsound : pool.Sound D) (h : pool.Counted s)
    (hstep : step.OnPosition) (hgrid : ∀ n ∈ step.shares?, IsMultiple s n.toRat)
    (hroom : pool.shareSum + step.increase < limit s) :
    (pool.next step).shareSum ≤ pool.shareSum + step.increase := by
  have hincrease : pool.shareSum ≤ pool.shareSum + step.increase :=
    le_add_of_nonneg_right step.increase_nonneg
  cases hplan : pool.plan step with
  | error e => rwa [next_of_error hplan]
  | ok r =>
  obtain ⟨outcome, c⟩ := r
  rw [next_of_plan hplan]
  have hplanned := Accumulator.planned_of_plan hplan
  generalize hslot : pool.slot step.index = slot at hplanned
  cases hplanned with
  | injectNothing _ => exact absurd hstep id
  | inject _ _ _ => exact absurd hstep id
  | credit _ => exact absurd hstep id
  | adjustShares _ _ => exact absurd hstep id
  | writePosition _ => exact absurd hstep id
  | @opened _ _ shares _ _ _ hopen _ _ _ _ =>
    have hle : shares.toRat ≤ step.increase := by
      rcases hopen with ⟨rfl, -⟩ | rfl <;> exact le_max_left _ _
    rw [shareSum_commit hsound.ascending, sharesAt_of_none (slot_eq_none.mp hslot),
      Option.map_some, Option.getD_some]
    linarith
  | @resized _ _ p shares x _ _ _ hresize hpos _ _ _ _ =>
    have hp := slot_eq_some.mp hslot
    have hx : IsMultiple s x.toRat :=
      hgrid x (by rcases hresize with ⟨rfl, -⟩ | ⟨rfl, -⟩ <;> rfl)
    have hheld := hsound.shares_le hp
    have hle := resized_le hs hresize (h.grid _ (OrderedMap.mem_of_find? hp)) hx hpos
      (hsound.shares_nonneg hp) (by linarith)
    rw [shareSum_commit hsound.ascending, sharesAt_of_some hp, Option.map_some, Option.getD_some]
    linarith
  | claimedLast _ _ => exact (hsound.shareSum_removed_le (slot_eq_some.mp hslot) _).trans hincrease
  | claimed _ _ _ =>
    exact le_of_eq_of_le (hsound.shareSum_rewritten (slot_eq_some.mp hslot) rfl) hincrease
  | resnapshot _ =>
    exact le_of_eq_of_le (hsound.shareSum_rewritten (slot_eq_some.mp hslot) rfl) hincrease
  | deleted _ _ _ => exact (hsound.shareSum_removed_le (slot_eq_some.mp hslot) _).trans hincrease
  | closed _ _ _ => exact (hsound.shareSum_removed_le (slot_eq_some.mp hslot) _).trans hincrease

/-- Where the total is the sum of the shares, moving it succeeds if the moved sum is on the grid,
not negative and within the limit. -/
theorem Counted.adjusted_of_fits (hs : s ≤ 28) (h : pool.Counted s) {delta : Decimal}
    (hdelta : IsMultiple s delta.toRat) (h0 : 0 ≤ pool.shareSum + delta.toRat)
    (hlt : pool.shareSum + delta.toRat < limit s) :
    ∃ t, pool.accumulator.adjusted delta = .ok t ∧
      t.valuePerShare = pool.accumulator.valuePerShare := by
  obtain ⟨total, hadd, hval⟩ := Decimal.add?_of_fits (a := pool.accumulator.totalShares) hs
    ((h.total ▸ h.grid_shareSum.add hdelta).fits (h.total ▸ h0) (h.total ▸ hlt))
  refine ⟨_, Accumulator.adjusted_eq_ok.mpr ⟨total, hadd, ?_, rfl⟩, rfl⟩
  rw [Decimal.lt_iff, Decimal.toRat_zero, not_lt, hval, h.total]
  exact h0

/-- Where the total is the sum of the shares and there is room, moving it succeeds. -/
theorem Counted.adjusted (hs : s ≤ 28) (hsound : pool.Sound D) (h : pool.Counted s)
    (hgrid : ∀ n ∈ step.shares?, IsMultiple s n.toRat)
    (hroom : pool.shareSum + step.increase < limit s) {delta : Decimal}
    (hmoves : step.Moves (pool.slot step.index) delta) :
    ∃ t, pool.accumulator.adjusted delta = .ok t ∧
      t.valuePerShare = pool.accumulator.valuePerShare := by
  have hsum := hsound.shareSum_nonneg
  have hincrease := step.increase_nonneg
  -- shares are added
  have hmore {shares : Decimal} (hpos : ¬ shares ≤ .zero) (hdelta : delta = shares)
      (hmem : shares ∈ step.shares?) (hle : shares.toRat ≤ step.increase) :
      ∃ t, pool.accumulator.adjusted delta = .ok t ∧
        t.valuePerShare = pool.accumulator.valuePerShare := by
    rw [Decimal.le_iff, Decimal.toRat_zero, not_le] at hpos
    subst hdelta
    exact h.adjusted_of_fits hs (hgrid delta hmem) (by linarith) (by linarith)
  cases step with
  | openNow index shares options => exact hmore hmoves.1 hmoves.2 rfl (le_max_left _ _)
  | openAt index shares snapshot options => exact hmore hmoves.1 hmoves.2 rfl (le_max_left _ _)
  | grow index shares => exact hmore hmoves.1 hmoves.2 rfl (le_max_left _ _)
  | shrink index shares =>
    obtain ⟨hpos, rfl, p, hp, henough⟩ := hmoves
    rw [Decimal.le_iff, Decimal.toRat_zero, not_le] at hpos
    rw [Decimal.lt_iff, not_lt] at henough
    have hle := hsound.shares_le (slot_eq_some.mp hp)
    have hneg := Decimal.toRat_neg shares
    exact h.adjusted_of_fits hs (hneg ▸ (hgrid shares rfl).neg) (by linarith) (by linarith)
  | close index =>
    obtain ⟨p, hp, rfl⟩ := hmoves
    have hheld := slot_eq_some.mp hp
    have hle := hsound.shares_le hheld
    have h0 := hsound.shares_nonneg hheld
    have hneg := Decimal.toRat_neg p.shares
    have hgrid := (h.grid _ (OrderedMap.mem_of_find? hheld)).neg
    exact h.adjusted_of_fits hs (hneg ▸ hgrid) (by linarith) (by linarith)
  | inject | credit | adjustShares | writePosition | claim | resnapshot | delete =>
    exact absurd hmoves id

/-! ### In either order -/

/-- What an operation writes at its position. -/
def moved (pool : Pool) (step : Step) : Option (Option Position) :=
  match pool.plan step with
  | .ok (_, c) => c.position
  | .error _ => none

theorem positions_next (pool : Pool) (step : Step) :
    (pool.next step).positions = placed pool.positions step.index (pool.moved step) := by
  cases hplan : pool.plan step with
  | error e => rw [next_of_error hplan, moved, hplan, placed]
  | ok r => rw [next_of_plan hplan, moved, hplan, commit]

theorem find?_placed {ps : List (Bytes × Position)} (h : OrderedMap.Ascending ps) (index : String)
    (o : Option (Option Position)) (k : Bytes) :
    OrderedMap.find? (placed ps index o) k
      = if Bytes.ofString index = k then o.elim (OrderedMap.find? ps k) (·.map Position.readBack)
        else OrderedMap.find? ps k := by
  rcases o with _ | _ | p
  · rw [placed, Option.elim_none, ite_self]
  · rw [placed, OrderedMap.find?_erase h]
    rfl
  · rw [placed, OrderedMap.find?_insert]
    rfl

theorem ascending_placed {ps : List (Bytes × Position)} (h : OrderedMap.Ascending ps)
    (index : String) (o : Option (Option Position)) :
    OrderedMap.Ascending (placed ps index o) := by
  rcases o with _ | _ | p
  · exact h
  · exact OrderedMap.ascending_erase h _
  · exact OrderedMap.ascending_insert h _ _

/-- Positions are written or removed at different indices in either order. -/
theorem placed_comm {ps : List (Bytes × Position)} (h : OrderedMap.Ascending ps) {i j : String}
    (hne : i ≠ j) (o o' : Option (Option Position)) :
    placed (placed ps i o) j o' = placed (placed ps j o') i o := by
  refine OrderedMap.Ascending.ext (ascending_placed (ascending_placed h i o) j o')
    (ascending_placed (ascending_placed h j o') i o) fun k => ?_
  rw [find?_placed (ascending_placed h i o), find?_placed (ascending_placed h j o'),
    find?_placed h, find?_placed h]
  by_cases hi : Bytes.ofString i = k
  · have hj : Bytes.ofString j ≠ k := fun hj => hne (Bytes.ofString_injective (hi.trans hj.symm))
    rw [if_pos hi, if_neg hj, if_neg hj, if_pos hi]
  · rw [if_neg hi, if_neg hi]

/-- An operation on a position changes nothing of the accumulator but the total. -/
theorem accumulator_next (hstep : step.OnPosition) :
    (pool.next step).accumulator
      = { pool.accumulator with totalShares := (pool.next step).accumulator.totalShares } := by
  cases hplan : pool.plan step with
  | error e => rw [next_of_error hplan]
  | ok r =>
    rw [next_of_plan hplan]
    obtain ⟨outcome, c⟩ := r
    have hplanned := Accumulator.planned_of_plan hplan
    generalize pool.slot step.index = slot at hplanned
    cases hplanned with
    | injectNothing | inject | credit | adjustShares | writePosition => exact absurd hstep id
    | _ => rfl

theorem value_next (hstep : step.OnPosition) :
    (pool.next step).accumulator.valuePerShare = pool.accumulator.valuePerShare := by
  rw [accumulator_next hstep]

theorem slot_next_of_ne (hsound : pool.Sound D) {index : String} (hne : step.index ≠ index) :
    (pool.next step).slot index = pool.slot index := by
  have hkey : Bytes.ofString step.index ≠ Bytes.ofString index :=
    fun h => hne (Bytes.ofString_injective h)
  rw [slot, slot, find?, find?, positions_next, find?_placed hsound.ascending, if_neg hkey]

/-- Totals with the same value per share. -/
def SameValue (t t' : Totals) : Prop := t.valuePerShare = t'.valuePerShare

/-- An operation decides the same after another one at a different position. -/
theorem Counted.plan_next (hs : s ≤ 28) (hsound : pool.Sound D) (h : pool.Counted s)
    (hx : x.OnPosition) (hxgrid : ∀ n ∈ x.shares?, IsMultiple s n.toRat)
    (hy : y.OnPosition) (hygrid : ∀ n ∈ y.shares?, IsMultiple s n.toRat) (hyover : y.Over D)
    (hne : x.index ≠ y.index) (hroom : pool.shareSum + x.increase + y.increase < limit s) :
    Agree Eq (Accumulator.AlikeAnswer SameValue) (pool.plan x) ((pool.next y).plan x) := by
  have hxroom := x.increase_nonneg
  have hyroom := y.increase_nonneg
  have hle := h.shareSum_next_le hs hsound hy hygrid (by linarith)
  have hnext := h.next hs hsound hy.paired hygrid hyover (.inr (by linarith))
  have hslot : (pool.next y).slot x.index = pool.slot x.index :=
    slot_next_of_ne hsound (Ne.symm hne)
  have haccumulator : (pool.next y).accumulator
      = { pool.accumulator with totalShares := (pool.next y).accumulator.totalShares } :=
    accumulator_next hy
  rw [plan, plan, hslot, haccumulator]
  refine Accumulator.alike_plan (fun _ => rfl) hx fun delta hmoves => ?_
  -- both totals are exact, and neither refuses the change
  obtain ⟨t, ht, hvalue⟩ := h.adjusted hs hsound hxgrid (by linarith) hmoves
  obtain ⟨t', ht', hvalue'⟩ := hnext.adjusted hs (hsound.next hyover) hxgrid (by linarith)
    (hslot ▸ hmoves)
  rw [ht, ← haccumulator, ht']
  refine .ok (hvalue.trans (Eq.trans ?_ hvalue'.symm))
  rw [haccumulator]

theorem Counted.next_next (hs : s ≤ 28) (hsound : pool.Sound D) (h : pool.Counted s)
    (hx : x.OnPosition ∧ x.Over D ∧ ∀ n ∈ x.shares?, IsMultiple s n.toRat)
    (hy : y.OnPosition ∧ y.Over D ∧ ∀ n ∈ y.shares?, IsMultiple s n.toRat)
    (hroom : pool.shareSum + x.increase + y.increase < limit s) :
    ((pool.next x).next y).Counted s := by
  obtain ⟨hxpos, hxover, hxgrid⟩ := hx
  obtain ⟨hypos, hyover, hygrid⟩ := hy
  have hxroom := x.increase_nonneg
  have hyroom := y.increase_nonneg
  have hle := h.shareSum_next_le hs hsound hxpos hxgrid (by linarith)
  have hnext := h.next hs hsound hxpos.paired hxgrid hxover (.inr (by linarith))
  have hsound' := hsound.next hxover
  have hle' := hnext.shareSum_next_le hs hsound' hypos hygrid (by linarith)
  exact hnext.next hs hsound' hypos.paired hygrid hyover (.inr (by linarith))

theorem answer_eq_of_alike {T : Totals → Totals → Prop} {pool' : Pool}
    (h : Agree Eq (Accumulator.AlikeAnswer T) (pool.plan x) (pool'.plan x)) :
    pool'.answer x = pool.answer x ∧ pool'.moved x = pool.moved x := by
  rw [answer, answer, moved, moved]
  revert h
  generalize pool.plan x = r
  generalize pool'.plan x = r'
  intro h
  cases h with
  | ok h => exact ⟨congrArg Except.ok h.1.symm, h.2.1.symm⟩
  | error h => exact ⟨congrArg Except.error h.symm, rfl⟩

/-- An operation answers and writes the same after another one at a different position. -/
theorem Counted.answer_next (hs : s ≤ 28) (hsound : pool.Sound D) (h : pool.Counted s)
    (hx : x.OnPosition ∧ x.Over D ∧ ∀ n ∈ x.shares?, IsMultiple s n.toRat)
    (hy : y.OnPosition ∧ y.Over D ∧ ∀ n ∈ y.shares?, IsMultiple s n.toRat)
    (hne : x.index ≠ y.index) (hroom : pool.shareSum + x.increase + y.increase < limit s) :
    (pool.next y).answer x = pool.answer x ∧ (pool.next y).moved x = pool.moved x :=
  answer_eq_of_alike (h.plan_next hs hsound hx.1 hx.2.2 hy.1 hy.2.2 hy.2.1 hne hroom)

/-- The totals agree, as each is the sum of the shares of the same positions. -/
theorem Counted.total_next_next (hs : s ≤ 28) (hsound : pool.Sound D) (h : pool.Counted s)
    (hx : x.OnPosition ∧ x.Over D ∧ ∀ n ∈ x.shares?, IsMultiple s n.toRat)
    (hy : y.OnPosition ∧ y.Over D ∧ ∀ n ∈ y.shares?, IsMultiple s n.toRat)
    (hne : x.index ≠ y.index) (hroom : pool.shareSum + x.increase + y.increase < limit s) :
    ((pool.next x).next y).accumulator.totalShares.toRat
      = ((pool.next y).next x).accumulator.totalShares.toRat := by
  have hroom' : pool.shareSum + y.increase + x.increase < limit s := by linarith
  have hmovedx := (h.answer_next hs hsound hx hy hne hroom).2
  have hmovedy := (h.answer_next hs hsound hy hx hne.symm hroom').2
  have hpositions : ((pool.next x).next y).positions = ((pool.next y).next x).positions := by
    rw [positions_next, positions_next, positions_next, positions_next, hmovedx, hmovedy,
      placed_comm hsound.ascending hne]
  have hxy := h.next_next hs hsound hx hy hroom
  have hyx := h.next_next hs hsound hy hx hroom'
  rw [hxy.total, hyx.total, shareSum, shareSum, hpositions]

end Pool

/-! ### Ledgers -/

namespace Ledger

variable {D : Finset String} {l : Ledger} {pool : Pool} {s : ℕ} {x y : Step} {steps : List Step}

/-- Two operations do the same in either order. -/
structure Commute (l : Ledger) (x y : Step) : Prop where
  /-- The first is answered the same after the second. -/
  first : (l.next y).answer x = l.answer x
  /-- The second is answered the same after the first. -/
  second : (l.next x).answer y = l.answer y
  /-- The bytes of all records are the same, but for that of the totals. -/
  records : ∀ key, key ≠ Key.accumulator l.accumulator.name →
    ((l.next x).next y).store.records.find? key = ((l.next y).next x).store.records.find? key
  value : ((l.next x).next y).accumulator.valuePerShare
    = ((l.next y).next x).accumulator.valuePerShare
  total : ((l.next x).next y).accumulator.totalShares.toRat
    = ((l.next y).next x).accumulator.totalShares.toRat
  /-- The stored totals are the same too, as numbers. -/
  stored : ∃ a b,
    Accumulator.load l.accumulator.name ((l.next x).next y).store
      = .ok a ((l.next x).next y).store ∧
    Accumulator.load l.accumulator.name ((l.next y).next x).store
      = .ok b ((l.next y).next x).store ∧
    a.valuePerShare = b.valuePerShare ∧ a.totalShares.toRat = b.totalShares.toRat

/-- What is stored at the key of a position after a step. -/
theorem Holds.find?_next (h : l.Holds D pool) (step : Step) {key : Bytes}
    (hkey : key ≠ Key.accumulator l.accumulator.name) :
    (l.next step).store.records.find? key =
      if key = Key.position l.accumulator.name step.index then
        (pool.moved step).elim (l.store.records.find? key) (·.map Position.encode)
      else l.store.records.find? key := by
  rw [Ledger.next, h.perform_apply, Pool.moved]
  cases pool.plan step with
  | error e => rw [carryOut, Option.elim_none, ite_self]
  | ok r => rw [carryOut, find?_commit, if_neg hkey]

theorem Holds.name_next (hD : D.card < twoTo 64) (h : l.Holds D pool) {step : Step}
    (hstep : step.Over D) : (l.next step).accumulator.name = l.accumulator.name := by
  rw [(h.next hD hstep).inHand, pool.name_next step, h.inHand]

theorem Holds.load_next_next (hD : D.card < twoTo 64) (h : l.Holds D pool) (hx : x.Over D)
    (hy : y.Over D) :
    Accumulator.load l.accumulator.name ((l.next x).next y).store
      = .ok { ((l.next x).next y).accumulator with
          toTotals := ((l.next x).next y).accumulator.toTotals.readBack }
        ((l.next x).next y).store := by
  have hx' := h.next hD hx
  have hload := (hx'.next hD hy).load_apply
  rwa [hx'.name_next hD hy, h.name_next hD hx] at hload

/-- Where the total is exact, operations on different positions commute. -/
theorem Holds.commute (hD : D.card < twoTo 64) (h : l.Holds D pool) (hs : s ≤ 28)
    (hcounted : pool.Counted s)
    (hx : x.OnPosition ∧ x.Over D ∧ ∀ n ∈ x.shares?, IsMultiple s n.toRat)
    (hy : y.OnPosition ∧ y.Over D ∧ ∀ n ∈ y.shares?, IsMultiple s n.toRat)
    (hne : x.index ≠ y.index) (hroom : pool.shareSum + x.increase + y.increase < limit s) :
    l.Commute x y := by
  have hroom' : pool.shareSum + y.increase + x.increase < limit s := by linarith
  obtain ⟨hfirst, hmovedx⟩ := hcounted.answer_next hs h.sound hx hy hne hroom
  obtain ⟨hsecond, hmovedy⟩ := hcounted.answer_next hs h.sound hy hx hne.symm hroom'
  have htotal := hcounted.total_next_next hs h.sound hx hy hne hroom
  obtain ⟨hxpos, hxover, -⟩ := hx
  obtain ⟨hypos, hyover, -⟩ := hy
  have hlx := h.next hD hxover
  have hly := h.next hD hyover
  have hvalue : ((l.next x).next y).accumulator.valuePerShare
      = ((l.next y).next x).accumulator.valuePerShare := by
    rw [(hlx.next hD hyover).inHand, (hly.next hD hxover).inHand, Pool.value_next hypos,
      Pool.value_next hxpos, Pool.value_next hxpos, Pool.value_next hypos]
  rw [← (hlx.next hD hyover).inHand, ← (hly.next hD hxover).inHand] at htotal
  refine
    { first := by rw [hly.answer, h.answer, hfirst]
      second := by rw [hlx.answer, h.answer, hsecond]
      records := fun key hkey => ?_
      value := hvalue
      total := htotal
      stored := ⟨_, _, h.load_next_next hD hxover hyover, h.load_next_next hD hyover hxover,
        hvalue, ?_⟩ }
  · -- every other key is that of one of the two positions at most
    rw [hlx.find?_next y (h.name_next hD hxover ▸ hkey), h.find?_next x hkey,
      hly.find?_next x (h.name_next hD hyover ▸ hkey), h.find?_next y hkey,
      h.name_next hD hxover, h.name_next hD hyover, hmovedx, hmovedy]
    by_cases hkx : key = Key.position l.accumulator.name x.index
    · have hky : key ≠ Key.position l.accumulator.name y.index :=
        fun hky => hne (Key.position_injective _ (hkx.symm.trans hky))
      rw [if_neg hky, if_pos hkx, if_pos hkx, if_neg hky]
    · rw [if_neg hkx, if_neg hkx]
  · show ((l.next x).next y).accumulator.totalShares.readBack.toRat
      = ((l.next y).next x).accumulator.totalShares.readBack.toRat
    rw [Decimal.toRat_readBack, Decimal.toRat_readBack, htotal]

/-- After a run of operations that keep positions and total together, on shares that are multiples
of `10 ^ -s`, operations on different positions do the same in either order, provided the recorded
total is the exact sum of the shares and stays below `2 ^ 96` units with what they add. -/
theorem operations_commute (hD : D.card < twoTo 64) (hl : l.IsNew)
    (hsteps : ∀ step ∈ steps, step.Over D ∧ step.Paired ∧
      ∀ n ∈ step.shares?, IsMultiple s n.toRat)
    (hexact : (l.after steps).accumulator.totalShares.toRat = (l.after steps).shareSum)
    (hx : x.OnPosition ∧ x.Over D ∧ ∀ n ∈ x.shares?, IsMultiple s n.toRat)
    (hy : y.OnPosition ∧ y.Over D ∧ ∀ n ∈ y.shares?, IsMultiple s n.toRat)
    (hne : x.index ≠ y.index)
    (hroom : (l.after steps).shareSum + x.increase + y.increase < limit s) :
    (l.after steps).Commute x y := by
  have hnew := holds_of_isNew hD hl
  have hholds := hnew.after hD fun step hstep => (hsteps step hstep).1
  rw [hholds.shareSum_eq] at hexact hroom
  rw [hholds.inHand] at hexact
  have hgridded {t : ℕ} (ht : t ≤ 28) (hgrid : ∀ step ∈ steps, ∀ n ∈ step.shares?,
      IsMultiple t n.toRat) : ((Pool.new l.accumulator.name).after steps).Counted t :=
    ⟨Pool.Gridded.after ht hnew.sound (fun _ he => absurd he List.not_mem_nil) fun step hstep =>
      ⟨(hsteps step hstep).1, (hsteps step hstep).2.1, hgrid step hstep⟩, hexact⟩
  by_cases hs : s ≤ 28
  · exact hholds.commute hD hs (hgridded hs fun step hstep => (hsteps step hstep).2.2) hx hy hne
      hroom
  · -- decimals have 28 places at most
    have hall (n : Decimal) : IsMultiple 28 n.toRat := (Decimal.isMultiple_toRat n).mono n.scale_le
    exact hholds.commute hD le_rfl (hgridded le_rfl fun _ _ n _ => hall n)
      ⟨hx.1, hx.2.1, fun n _ => hall n⟩ ⟨hy.1, hy.2.1, fun n _ => hall n⟩ hne
      (hroom.trans (Decimal.limit_lt_limit (not_le.mp hs)))

/-- A claim of one position and the opening of another, with 1 share in the total. -/
theorem operations_commute_halves : ((fresh "pool").after halves).Commute (.claim "a")
    (.openNow "b" (.ofPartsD 25 1) none) := by
  refine operations_commute (D := ∅) (s := 1) (by decide) (isNew_fresh (by decide)) ?_
    (by decide +kernel) ⟨trivial, trivial, by simp [Step.shares?]⟩
    ⟨trivial, by simp [Step.Over], ?_⟩ (by decide) (by decide +kernel)
  · simp only [halves, List.forall_mem_cons]
    have hopen := Decimal.isMultiple_ofPartsD 15 1
    have hshrink := Decimal.isMultiple_ofPartsD 5 1
    exact ⟨⟨by simp [Step.Over], trivial, by simpa [Step.shares?] using hopen⟩,
      ⟨trivial, trivial, by simpa [Step.shares?] using hshrink⟩, by simp⟩
  · simpa [Step.shares?] using Decimal.isMultiple_ofPartsD 25 1

/-- After the larger of two positions is closed, the sum of the shares is small, but the recorded
total is less.  The smaller one cannot be closed before another position is opened, but after it
can. -/
theorem order_matters_after_drift :
    (fresh "pool").IsNew ∧
      (∀ step ∈ drift ++ [.close "b", .openNow "c" (.ofPartsD 1 0) none],
        step.Over ∅ ∧ step.Paired ∧ ∀ n ∈ step.shares?, IsMultiple 1 n.toRat) ∧
      (Step.close "b").index ≠ (Step.openNow "c" (.ofPartsD 1 0) none).index ∧
      ((fresh "pool").after drift).shareSum + (Step.close "b").increase
        + (Step.openNow "c" (.ofPartsD 1 0) none).increase < limit 1 ∧
      ((fresh "pool").after drift).answer (.close "b")
        = .error (.violation (.negativeTotalShares "pool" .zero
            { negative := true, mantissa := 4, scale := 1 })) ∧
      (((fresh "pool").after drift).next (.openNow "c" (.ofPartsD 1 0) none)).answer (.close "b")
        = .ok (.paid ⟨.empty, .empty, true⟩) := by
  refine ⟨isNew_fresh (by decide), ?_, by decide, by decide +kernel, by decide +kernel,
    by decide +kernel⟩
  have hlarge := (Decimal.isMultiple_ofPartsD 50000000000000000000000000000 0).mono (Nat.zero_le 1)
  have hsmall := Decimal.isMultiple_ofPartsD 4 1
  have hone := (Decimal.isMultiple_ofPartsD 1 0).mono (Nat.zero_le 1)
  simp [drift, Step.Over, Step.Paired, Step.shares?, hlarge, hsmall, hone]

end Ledger

end Accrual
