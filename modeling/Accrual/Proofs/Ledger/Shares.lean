/-
The share total and the shares of the positions.

* `Ledger.shareSum` — the exact sum of the shares of all stored positions;
* `Step.Paired` — the operations that change the total only together with a position;
* `Pool.Counted s` — shares are multiples of `10 ^ -s` and the total is their sum;
* `Counted.next`, `Counted.after` — kept as long as the sum is below `2 ^ 96` units;
* `totalShares_eq_shareSum` — so the total, in hand and in the store, is the exact sum.

Design notes.  A sum of decimals on a grid is rounded only from `2 ^ 96` units on, and a rounded
sum stays there.  For whole shares that is where decimals end, so the total of whole shares is
exact without a bound on the sum: hence the case `s = 0` of `Counted.next`.
-/
import Accrual.Proofs.Ledger.Holds

namespace Accrual

open Decimal (IsMultiple Fits limit)

/-! ### Sums over a pool -/

namespace Pool

variable {D : Finset String} {pool : Pool}

/-- A sum over the positions after one is written or removed. -/
theorem sum_placed {ps : List (Bytes × Position)} (h : OrderedMap.Ascending ps) (f : Position → ℚ)
    (hf : ∀ p : Position, f p.readBack = f p) (index : String) (o : Option Position) :
    OrderedMap.sum f (placed ps index (some o))
      = OrderedMap.sum f ps + (o.map f).getD 0
        - ((OrderedMap.find? ps (Bytes.ofString index)).map f).getD 0 := by
  cases o with
  | none =>
    rw [placed, OrderedMap.sum_erase, OrderedMap.valueAt, Option.map_none, Option.getD_none,
      add_zero]
  | some p =>
    rw [placed, OrderedMap.sum_insert f h, hf, OrderedMap.valueAt, Option.map_some,
      Option.getD_some]

/-- The exact sum of the shares of all positions. -/
def shareSum (pool : Pool) : ℚ := OrderedMap.sum (fun p => p.shares.toRat) pool.positions

/-- The shares of an index, zero without a position. -/
def sharesAt (pool : Pool) (index : String) : ℚ :=
  ((pool.find? index).map fun p => p.shares.toRat).getD 0

theorem sharesAt_of_none {index : String} (h : pool.find? index = none) :
    pool.sharesAt index = 0 := by
  rw [sharesAt, h, Option.map_none, Option.getD_none]

theorem sharesAt_of_some {index : String} {p : Position} (h : pool.find? index = some p) :
    pool.sharesAt index = p.shares.toRat := by
  rw [sharesAt, h, Option.map_some, Option.getD_some]

theorem shareSum_commit (h : OrderedMap.Ascending pool.positions) (index : String)
    (o : Option Position) (t : Option Totals) :
    (pool.commit index { position := some o, totals := t }).shareSum
      = pool.shareSum + (o.map fun p => p.shares.toRat).getD 0 - pool.sharesAt index :=
  sum_placed h _ (fun p => p.shares.toRat_readBack) index o

theorem le_sum {ps : List (Bytes × Position)} {f : Position → ℚ} (h : ∀ e ∈ ps, 0 ≤ f e.2)
    {e : Bytes × Position} (he : e ∈ ps) : f e.2 ≤ OrderedMap.sum f ps :=
  List.single_le_sum (fun x hx => by obtain ⟨e, he, rfl⟩ := List.mem_map.1 hx; exact h e he) _
    (List.mem_map_of_mem he)

theorem sum_nonneg {ps : List (Bytes × Position)} {f : Position → ℚ} (h : ∀ e ∈ ps, 0 ≤ f e.2) :
    0 ≤ OrderedMap.sum f ps :=
  List.sum_nonneg fun x hx => by obtain ⟨e, he, rfl⟩ := List.mem_map.1 hx; exact h e he

theorem Sound.shareSum_nonneg (h : pool.Sound D) : 0 ≤ pool.shareSum :=
  sum_nonneg fun e he => Decimal.nonneg_of_not_negative (h.nonneg e he)

theorem Sound.shares_nonneg (h : pool.Sound D) {index : String} {p : Position}
    (hp : pool.find? index = some p) : 0 ≤ p.shares.toRat :=
  Decimal.nonneg_of_not_negative (h.of_find? hp).2

theorem Sound.shares_le (h : pool.Sound D) {index : String} {p : Position}
    (hp : pool.find? index = some p) : p.shares.toRat ≤ pool.shareSum :=
  le_sum (f := fun p : Position => p.shares.toRat) (e := (Bytes.ofString index, p))
    (fun e he => Decimal.nonneg_of_not_negative (h.nonneg e he))
    (OrderedMap.mem_of_find? hp)

/-- A position that was just written holds at most the sum. -/
theorem shares_le_commit {index : String} {p : Position} {t : Option Totals}
    (h : (pool.commit index { position := some (some p), totals := t }).Sound D) :
    p.shares.toRat ≤ (pool.commit index { position := some (some p), totals := t }).shareSum := by
  have hle := le_sum (f := fun p : Position => p.shares.toRat)
    (fun e he => Decimal.nonneg_of_not_negative (h.nonneg e he))
    (OrderedMap.mem_insert_self pool.positions (Bytes.ofString index) p.readBack)
  rwa [Position.readBack, Decimal.toRat_readBack] at hle

end Pool

/-! ### The total as a sum -/

/-- The operations that change the total only together with a position. -/
def Step.Paired : Step → Prop
  | .adjustShares _ | .writePosition _ _ => False
  | _ => True

/-- The share amount among the arguments of a step. -/
def Step.shares? : Step → Option Decimal
  | .openNow _ shares _ | .openAt _ shares _ _ | .grow _ shares | .shrink _ shares => some shares
  | _ => none

namespace Pool

/-- Shares are multiples of `10 ^ -s`, and the total is their sum. -/
structure Counted (s : ℕ) (pool : Pool) : Prop where
  grid : ∀ e ∈ pool.positions, IsMultiple s e.2.shares.toRat
  total : pool.accumulator.totalShares.toRat = pool.shareSum

variable {D : Finset String} {pool : Pool} {s : ℕ}

theorem Counted.grid_shareSum (h : pool.Counted s) : IsMultiple s pool.shareSum := by
  have hgrid := h.grid
  rw [shareSum]
  generalize pool.positions = ps at hgrid
  induction ps with
  | nil => exact Decimal.isMultiple_zero s
  | cons e ps ih =>
    rw [OrderedMap.sum_cons]
    exact (hgrid e List.mem_cons_self).add (ih fun e' he' => hgrid e' (List.mem_cons_of_mem e he'))

theorem grid_commit (h : ∀ e ∈ pool.positions, IsMultiple s e.2.shares.toRat) {index : String}
    {o : Option Position} {t : Option Totals} (ho : ∀ p, o = some p → IsMultiple s p.shares.toRat) :
    ∀ e ∈ (pool.commit index { position := some o, totals := t }).positions,
      IsMultiple s e.2.shares.toRat := by
  intro e he
  cases o with
  | none => exact h e (OrderedMap.mem_of_mem_erase he)
  | some p =>
    rcases OrderedMap.mem_of_mem_insert he with rfl | he
    · rw [Position.readBack, Decimal.toRat_readBack]
      exact ho p rfl
    · exact h e he

/-- A sum on the grid is exact where either it or what was computed is within the limit. -/
theorem add?_exact (hs : s ≤ 28) {a b c : Decimal} (hadd : a.add? b = some c)
    (hgrid : IsMultiple s (a.toRat + b.toRat)) (h0 : 0 ≤ a.toRat + b.toRat)
    (hlt : a.toRat + b.toRat < limit s ∨ c.toRat < limit s) : c.toRat = a.toRat + b.toRat := by
  have hfit : a.toRat + b.toRat < limit s := by
    rcases hlt with hlt | hlt
    · exact hlt
    · by_contra hge
      exact absurd (Decimal.limit_le_add? hs hadd (not_lt.mp hge)) (not_le.mpr hlt)
  obtain ⟨c', hc', hval⟩ := Decimal.add?_of_fits hs (hgrid.fits h0 hfit)
  rw [hadd, Option.some.injEq] at hc'
  rw [hc', hval]

/-- A position is written or removed and the total moves by as much as its shares. -/
theorem Counted.moved (hs : s ≤ 28) (hsound : pool.Sound D) (h : pool.Counted s) {index : String}
    {o : Option Position} {t : Totals} {delta : Decimal}
    (ho : ∀ p, o = some p → IsMultiple s p.shares.toRat) (hdelta : IsMultiple s delta.toRat)
    (hmove : (o.map fun p => p.shares.toRat).getD 0 = pool.sharesAt index + delta.toRat)
    (hadd : pool.accumulator.totalShares.add? delta = some t.totalShares)
    (hnext : (pool.commit index { position := some o, totals := some t }).Sound D)
    (hlimit : s = 0 ∨
      (pool.commit index { position := some o, totals := some t }).shareSum < limit s) :
    (pool.commit index { position := some o, totals := some t }).Counted s := by
  have hsum := shareSum_commit hsound.ascending index o (some t)
  have hnonneg := hnext.shareSum_nonneg
  refine ⟨grid_commit h.grid ho, ?_⟩
  show t.totalShares.toRat = _
  generalize (pool.commit index { position := some o, totals := some t }).shareSum = sum at *
  -- the exact sum is the new sum of the shares, so the computed one is exact
  have htotal : pool.accumulator.totalShares.toRat + delta.toRat = sum := by
    rw [h.total, hsum, hmove]
    ring
  rw [← htotal]
  refine add?_exact hs hadd ?_ (htotal ▸ hnonneg) ?_
  · rw [h.total]
    exact h.grid_shareSum.add hdelta
  · rcases hlimit with rfl | hlimit
    · exact .inr (Decimal.toRat_lt_limit_zero _)
    · exact .inl (htotal ▸ hlimit)

/-- A position is written or removed without a change of shares. -/
theorem Counted.kept (hsound : pool.Sound D) (h : pool.Counted s) {index : String}
    {o : Option Position} (ho : ∀ p, o = some p → IsMultiple s p.shares.toRat)
    (hkept : (o.map fun p => p.shares.toRat).getD 0 = pool.sharesAt index) :
    (pool.commit index { position := some o }).Counted s := by
  refine ⟨grid_commit h.grid ho, ?_⟩
  rw [shareSum_commit hsound.ascending, hkept, add_sub_cancel_right]
  exact h.total

theorem Counted.removed (hsound : pool.Sound D) (h : pool.Counted s) {index : String} {p : Position}
    (hp : pool.find? index = some p) (hzero : p.shares.IsZero) :
    (pool.commit index { position := some none }).Counted s := by
  refine h.kept hsound (fun p hp => nomatch hp) ?_
  rw [sharesAt_of_some hp, Decimal.isZero_iff.mp hzero, Option.map_none, Option.getD_none]

theorem Counted.rewritten (hsound : pool.Sound D) (h : pool.Counted s) {index : String}
    {p p' : Position} (hp : pool.find? index = some p) (hshares : p'.shares = p.shares) :
    (pool.commit index { position := some (some p') }).Counted s := by
  refine h.kept hsound (fun q hq => ?_) ?_
  · cases hq
    rw [hshares]
    exact h.grid _ (OrderedMap.mem_of_find? hp)
  · rw [sharesAt_of_some hp, Option.map_some, Option.getD_some, hshares]

/-- The shares of a resized position. -/
theorem resized_exact (hs : s ≤ 28) {step : Step} {index : String} {held shares x delta : Decimal}
    (hresize : step = .grow index x ∧ held.add? x = some shares ∧ delta = x ∨
      step = .shrink index x ∧ ¬ held < x ∧ held.sub? x = some shares ∧ delta = x.neg)
    (hheld : IsMultiple s held.toRat) (hx : IsMultiple s x.toRat) (hpos : ¬ x ≤ .zero)
    (h0 : 0 ≤ held.toRat) (hlimit : shares.toRat < limit s) :
    shares.toRat = held.toRat + delta.toRat ∧ IsMultiple s delta.toRat := by
  rw [Decimal.le_iff, Decimal.toRat_zero, not_le] at hpos
  rcases hresize with ⟨-, hgrow, rfl⟩ | ⟨-, henough, hshrink, rfl⟩
  · exact ⟨add?_exact hs hgrow (hheld.add hx) (by linarith) (.inr hlimit), hx⟩
  · rw [Decimal.lt_iff, not_lt] at henough
    obtain ⟨b, hb, hval⟩ := Decimal.sub?_eq held x
    rw [hb] at hshrink
    rw [Decimal.toRat_neg, ← hval]
    refine ⟨add?_exact hs hshrink ?_ (by linarith) (.inr hlimit), ?_⟩
    · rw [hval]
      exact hheld.add hx.neg
    · rw [hval]
      exact hx.neg

/-- Any decimal up to the sum is within the limit. -/
theorem lt_limit_of_le {sum : ℚ} (hlimit : s = 0 ∨ sum < limit s) {a : Decimal}
    (hle : a.toRat ≤ sum) : a.toRat < limit s := by
  rcases hlimit with rfl | hlimit
  · exact Decimal.toRat_lt_limit_zero a
  · exact lt_of_le_of_lt hle hlimit

/-- The total stays the sum of the shares while the sum is below the limit; for whole shares,
always. -/
theorem Counted.next (hs : s ≤ 28) (hsound : pool.Sound D) (h : pool.Counted s) {step : Step}
    (hpaired : step.Paired) (hgrid : ∀ x ∈ step.shares?, IsMultiple s x.toRat)
    (hover : step.Over D) (hlimit : s = 0 ∨ (pool.next step).shareSum < limit s) :
    (pool.next step).Counted s := by
  cases hplan : pool.plan step with
  | error e => rwa [next_of_error hplan]
  | ok r =>
  obtain ⟨outcome, c⟩ := r
  have hnext := hsound.next hover
  rw [next_of_plan hplan] at hlimit hnext ⊢
  have hplanned := Accumulator.planned_of_plan hplan
  generalize hslot : pool.slot step.index = slot at hplanned
  cases hplanned with
  -- neither a position nor the total changes
  | injectNothing _ => exact ⟨h.grid, h.total⟩
  | inject _ _ _ => exact ⟨h.grid, h.total⟩
  | credit _ => exact ⟨h.grid, h.total⟩
  | adjustShares _ _ => exact absurd hpaired id
  | writePosition _ => exact absurd hpaired id
  | @opened _ _ shares _ _ _ hopen _ hadd _ _ =>
    have hx : IsMultiple s shares.toRat :=
      hgrid shares (by rcases hopen with ⟨rfl, -⟩ | rfl <;> rfl)
    refine h.moved hs hsound (fun p hp => by cases hp; exact hx) hx ?_ hadd hnext hlimit
    rw [sharesAt_of_none (slot_eq_none.mp hslot), zero_add, Option.map_some, Option.getD_some]
  | @resized _ _ p shares x delta _ total hresize hpos _ hadd _ _ =>
    have hp := slot_eq_some.mp hslot
    have hpgrid := h.grid _ (OrderedMap.mem_of_find? hp)
    have hx : IsMultiple s x.toRat :=
      hgrid x (by rcases hresize with ⟨rfl, -⟩ | ⟨rfl, -⟩ <;> rfl)
    have hshares : shares.toRat < limit s := lt_limit_of_le hlimit (shares_le_commit hnext)
    obtain ⟨hexact, hdelta⟩ :=
      resized_exact hs hresize hpgrid hx hpos (hsound.shares_nonneg hp) hshares
    refine h.moved hs hsound (fun p' hp' => ?_) hdelta ?_ hadd hnext hlimit
    · cases hp'
      rw [hexact]
      exact hpgrid.add hdelta
    · rw [sharesAt_of_some hp, Option.map_some, Option.getD_some, hexact]
  | claimedLast hzero _ => exact h.removed hsound (slot_eq_some.mp hslot) hzero
  | claimed _ _ _ => exact h.rewritten hsound (slot_eq_some.mp hslot) rfl
  | resnapshot _ => exact h.rewritten hsound (slot_eq_some.mp hslot) rfl
  | deleted _ hzero _ => exact h.removed hsound (slot_eq_some.mp hslot) hzero
  | closed _ hadd _ =>
    have hp := slot_eq_some.mp hslot
    refine h.moved hs hsound (fun p hp => nomatch hp) ?_ ?_ hadd hnext hlimit
    · rw [Decimal.toRat_neg]
      exact (h.grid _ (OrderedMap.mem_of_find? hp)).neg
    · rw [sharesAt_of_some hp, Decimal.toRat_neg, add_neg_cancel, Option.map_none,
        Option.getD_none]

theorem Counted.after (hs : s ≤ 28) (hsound : pool.Sound D) (h : pool.Counted s)
    {steps : List Step} (hsteps : ∀ step ∈ steps, step.Over D ∧ step.Paired ∧
      ∀ x ∈ step.shares?, IsMultiple s x.toRat)
    (hlimit : s = 0 ∨ ∀ p, p <+: steps → (pool.after p).shareSum < limit s) :
    (pool.after steps).Counted s := by
  induction steps generalizing pool with
  | nil => exact h
  | cons step steps ih =>
    obtain ⟨hover, hpaired, hgrid⟩ := hsteps step List.mem_cons_self
    have hnext := h.next hs hsound hpaired hgrid hover
      (hlimit.imp_right fun hlimit => hlimit [step] (List.prefix_append [step] steps))
    exact ih (hsound.next hover) hnext
      (fun step' hstep' => hsteps step' (List.mem_cons_of_mem step hstep'))
      (hlimit.imp_right fun hlimit p hp => hlimit (step :: p) (List.cons_prefix_cons.2 ⟨rfl, hp⟩))

theorem counted_new (name : String) (s : ℕ) : (new name).Counted s :=
  ⟨fun _ he => absurd he List.not_mem_nil, Decimal.toRat_zero⟩

end Pool

/-! ### Ledgers -/

namespace Ledger

variable {D : Finset String} {l : Ledger} {pool : Pool} {s : ℕ}

/-- The exact sum of the shares of all stored positions of the accumulator in hand. -/
def shareSum (l : Ledger) : ℚ :=
  match positions l with
  | .ok listing _ => (listing.map fun e => e.2.shares.toRat).sum
  | .error _ _ => 0

theorem Holds.shareSum_eq (h : l.Holds D pool) : l.shareSum = pool.shareSum := by
  rw [Ledger.shareSum, h.positions_apply]
  exact pool.sum_listing fun p => p.shares.toRat

/-- In a run of operations that keep positions and total together, on shares that are multiples
of `10 ^ -s`, the total in hand and the stored total are the exact sum of the shares of the stored
positions, as long as that sum stays below `2 ^ 96` units. -/
theorem totalShares_eq_shareSum (hD : D.card < twoTo 64) (hs : s ≤ 28) (hl : l.IsNew)
    {steps : List Step} (hsteps : ∀ step ∈ steps, step.Over D ∧ step.Paired ∧
      ∀ x ∈ step.shares?, IsMultiple s x.toRat)
    (hlimit : ∀ p, p <+: steps → (l.after p).shareSum < limit s) :
    ∃ listing loaded,
      positions (l.after steps) = .ok listing (l.after steps) ∧
      Accumulator.load l.accumulator.name (l.after steps).store = .ok loaded (l.after steps).store ∧
      (l.after steps).accumulator.totalShares.toRat
        = (listing.map fun e => e.2.shares.toRat).sum ∧
      loaded.totalShares.toRat = (listing.map fun e => e.2.shares.toRat).sum := by
  have hnew := holds_of_isNew hD hl
  have hpart (p : List Step) (hp : p <+: steps) := hnew.after hD
    fun step hstep => (hsteps step (hp.subset hstep)).1
  have hholds := hpart steps List.prefix_rfl
  have hcounted := (Pool.counted_new l.accumulator.name s).after hs hnew.sound hsteps
    (.inr fun p hp => (hpart p hp).shareSum_eq ▸ hlimit p hp)
  have hname : (l.after steps).accumulator.name = l.accumulator.name := by
    rw [hholds.inHand, Pool.name_after]
    rfl
  have hload := hholds.load_apply
  rw [hname] at hload
  have htotal := hcounted.total
  rw [← hholds.inHand, Pool.shareSum, ← Pool.sum_listing] at htotal
  exact ⟨_, _, hholds.positions_apply, hload, htotal, (Decimal.toRat_readBack _).trans htotal⟩

/-- A position is opened with 1.5 shares, and 0.5 are taken back. -/
def halves : List Step :=
  [.openNow "a" (.ofPartsD 15 1) none, .shrink "a" (.ofPartsD 5 1)]

theorem totalShares_eq_shareSum_halves :
    ∃ listing loaded,
      positions ((fresh "pool").after halves) = .ok listing ((fresh "pool").after halves) ∧
      Accumulator.load "pool" ((fresh "pool").after halves).store
        = .ok loaded ((fresh "pool").after halves).store ∧
      ((fresh "pool").after halves).accumulator.totalShares.toRat
        = (listing.map fun e => e.2.shares.toRat).sum ∧
      loaded.totalShares.toRat = (listing.map fun e => e.2.shares.toRat).sum := by
  refine totalShares_eq_shareSum (D := ∅) (s := 1) (by decide) (by decide)
    (isNew_fresh (by decide)) ?_ ?_
  · simp only [halves, List.forall_mem_cons]
    have hopen := Decimal.isMultiple_ofPartsD 15 1
    have hshrink := Decimal.isMultiple_ofPartsD 5 1
    exact ⟨⟨by simp [Step.Over], trivial, by simpa [Step.shares?] using hopen⟩,
      ⟨trivial, trivial, by simpa [Step.shares?] using hshrink⟩, by simp⟩
  · intro p hp
    rw [← List.mem_inits] at hp
    revert p
    decide +kernel

end Ledger

end Accrual
