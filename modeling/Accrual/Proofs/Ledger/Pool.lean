/-
The pool behind a ledger: its totals and its positions, without the store.

* `Pool` — an accumulator with its positions in the order in which they are listed;
* `Pool.next`, `Pool.after` — a step, and a run of steps, on the pool alone;
* `Pool.Sound D` — what every pool satisfies: vectors are canonical with denominations from `D`,
  shares are not negative, keys are those of indices;
* `Step.Over D` — arguments a step can have;
* `find?_commit` — a change is seen at its index and nowhere else;
* `Sound.next` — a step keeps a pool sound.

Design notes.  Indices are kept as their bytes, since that is the order in which a store lists
them.
-/
import Accrual.Proofs.Ledger.Planned
import Accrual.Proofs.Record
import Accrual.Proofs.Rewards.Division

namespace Accrual

/-- An accumulator with its positions, by the bytes of their indices. -/
structure Pool where
  accumulator : Accumulator
  positions : List (Bytes × Position)

namespace Pool

/-- The position of an index. -/
def find? (pool : Pool) (index : String) : Option Position :=
  OrderedMap.find? pool.positions (Bytes.ofString index)

/-- What is found at the position of an index; it can always be read. -/
def slot (pool : Pool) (index : String) : Slot := (pool.find? index).map some

/-- The positions after one is written or removed. -/
def placed (positions : List (Bytes × Position)) (index : String) :
    Option (Option Position) → List (Bytes × Position)
  | none => positions
  | some none => OrderedMap.erase positions (Bytes.ofString index)
  | some (some p) => OrderedMap.insert positions (Bytes.ofString index) p.readBack

/-- The pool after a change. -/
def commit (pool : Pool) (index : String) (c : Change) : Pool where
  accumulator := { pool.accumulator with
    toTotals := c.totals.getD pool.accumulator.toTotals }
  positions := placed pool.positions index c.position

/-- What a step answers and writes. -/
def plan (pool : Pool) (step : Step) : Except Error (Outcome × Change) :=
  pool.accumulator.plan (pool.slot step.index) step

/-- The answer to a step. -/
def answer (pool : Pool) (step : Step) : Except Error Outcome := (pool.plan step).map Prod.fst

/-- The pool after a step, whether it succeeded or failed. -/
def next (pool : Pool) (step : Step) : Pool :=
  match pool.plan step with
  | .ok (_, c) => pool.commit step.index c
  | .error _ => pool

/-- The pool after a run of steps. -/
def after (pool : Pool) (steps : List Step) : Pool := steps.foldl next pool

/-- The pool of a new accumulator. -/
def new (name : String) : Pool := ⟨{ toTotals := .zero, name }, []⟩

/-- The positions as they are listed. -/
def listing (pool : Pool) : List (String × Position) :=
  pool.positions.map fun e => ((Bytes.toString? e.1).getD "", e.2)

theorem sum_listing (pool : Pool) (f : Position → ℚ) :
    (pool.listing.map fun e => f e.2).sum = OrderedMap.sum f pool.positions := by
  rw [listing, List.map_map]
  rfl

theorem next_of_plan {pool : Pool} {step : Step} {outcome : Outcome} {c : Change}
    (h : pool.plan step = .ok (outcome, c)) : pool.next step = pool.commit step.index c := by
  rw [next, h]

theorem next_of_error {pool : Pool} {step : Step} {e : Error} (h : pool.plan step = .error e) :
    pool.next step = pool := by
  rw [next, h]

theorem answer_of_plan {pool : Pool} {step : Step} {outcome : Outcome} {c : Change}
    (h : pool.plan step = .ok (outcome, c)) : pool.answer step = .ok outcome := by
  rw [answer, h, Except.map]

theorem answer_of_error {pool : Pool} {step : Step} {e : Error} (h : pool.plan step = .error e) :
    pool.answer step = .error e := by
  rw [answer, h, Except.map]

theorem name_next (pool : Pool) (step : Step) :
    (pool.next step).accumulator.name = pool.accumulator.name := by
  cases hplan : pool.plan step with
  | error e => rw [next_of_error hplan]
  | ok r => rw [next_of_plan hplan, commit]

theorem name_after (pool : Pool) (steps : List Step) :
    (pool.after steps).accumulator.name = pool.accumulator.name := by
  induction steps generalizing pool with
  | nil => rfl
  | cons step steps ih => exact (ih _).trans (pool.name_next step)

end Pool

/-! ### Arguments -/

/-- The vectors among the arguments of a step are canonical with denominations from `D`, and its
payload is shorter than `2 ^ 63` bytes. -/
def Step.Over (D : Finset String) : Step → Prop
  | .inject r | .credit r => r.Over D
  | .writePosition _ p => p.Over D
  | .openNow _ _ options => ∀ payload ∈ options, payload.length < twoTo 63
  | .openAt _ _ snapshot options =>
    snapshot.Over D ∧ ∀ payload ∈ options, payload.length < twoTo 63
  | .resnapshot _ snapshot => snapshot.Over D
  | .adjustShares _ | .grow _ _ | .shrink _ _ | .claim _ | .delete _ | .close _ => True

/-! ### Soundness -/

/-- What may be written at an index. -/
structure Change.Sound (D : Finset String) (index : String) (c : Change) : Prop where
  position : ∀ p, c.position = some (some p) →
    p.Over D ∧ 0 ≤ p.shares.toRat ∧ Key.IsIndex index
  totals : ∀ t, c.totals = some t → t.valuePerShare.Over D

/-- What holds of every pool. -/
structure Pool.Sound (D : Finset String) (pool : Pool) : Prop where
  value : pool.accumulator.valuePerShare.Over D
  covered : ∀ e ∈ pool.positions, e.2.Over D
  nonneg : ∀ e ∈ pool.positions, e.2.shares.negative = false
  indices : ∀ e ∈ pool.positions, ∃ index, Key.IsIndex index ∧ e.1 = Bytes.ofString index
  ascending : OrderedMap.Ascending pool.positions

variable {D : Finset String}

namespace Accumulator

variable {a : Accumulator} {p : Position} {due : Rewards}

theorem over_of_owed (ha : a.valuePerShare.Over D) (hp : p.Over D) (h : a.owed p = .ok due) :
    due.Over D := by
  obtain ⟨growth, accrued, hgrowth, haccrued, hdue⟩ := owed_eq_ok.mp h
  exact hp.unclaimed.add ((ha.sub hp.snapshot hgrowth).scale haccrued) hdue

theorem nonneg_of_vet {index : String} (h : a.vet index p = .ok ()) :
    Key.IsIndex index ∧ 0 ≤ p.shares.toRat := by
  obtain ⟨hindex, hshares, -⟩ := vet_eq_ok.mp h
  rw [Decimal.lt_iff, Decimal.toRat_zero, not_lt] at hshares
  exact ⟨hindex, hshares⟩

/-- What a step writes is sound if its arguments and what it finds are. -/
theorem Planned.sound {slot : Slot} {step : Step} {outcome : Outcome} {c : Change}
    (h : Planned a slot step outcome c) (ha : a.valuePerShare.Over D)
    (hslot : ∀ p, slot = some (some p) → p.Over D) (hstep : step.Over D) :
    c.Sound D step.index := by
  -- a position is written
  have hplaced {index : String} {p : Position} (hp : p.Over D)
      (hvet : a.vet index p = .ok ()) :
      ∀ p', some (some p) = some (some p') →
        p'.Over D ∧ 0 ≤ p'.shares.toRat ∧ Key.IsIndex index := by
    rintro p' heq
    cases heq
    obtain ⟨hindex, hshares⟩ := nonneg_of_vet hvet
    exact ⟨hp, hshares, hindex⟩
  -- no position is written, or one is removed
  have habsent {o : Option (Option Position)} (ho : o = none ∨ o = some none) {index : String} :
      ∀ p, o = some (some p) → p.Over D ∧ 0 ≤ p.shares.toRat ∧ Key.IsIndex index := by
    rintro p rfl
    rcases ho with ho | ho <;> cases ho
  -- the totals are written, or stay as they are
  have htotals {t : Totals} (ht : t.valuePerShare.Over D) :
      ∀ t', some t = some t' → t'.valuePerShare.Over D := by
    rintro t' heq
    cases heq
    exact ht
  have hunchanged : ∀ t, (none : Option Totals) = some t → t.valuePerShare.Over D :=
    fun _ h => nomatch h
  cases h with
  | injectNothing _ => exact ⟨habsent (.inl rfl), hunchanged⟩
  | inject _ hdiv hadd =>
    exact ⟨habsent (.inl rfl), htotals (ha.add (Rewards.Over.divideDown hstep hdiv) hadd)⟩
  | credit hadd => exact ⟨habsent (.inl rfl), htotals (ha.add hstep hadd)⟩
  | adjustShares _ _ => exact ⟨habsent (.inl rfl), htotals ha⟩
  | writePosition hvet => exact ⟨hplaced hstep hvet, hunchanged⟩
  | opened hopen _ _ _ hvet =>
    rcases hopen with ⟨rfl, rfl⟩ | rfl
    · exact ⟨hplaced ⟨ha, Rewards.over_empty, hstep⟩ hvet, htotals ha⟩
    · exact ⟨hplaced ⟨hstep.1, Rewards.over_empty, hstep.2⟩ hvet, htotals ha⟩
  | resized hresize _ hdue _ _ hvet =>
    have hp := hslot _ rfl
    have hdue := over_of_owed ha hp hdue
    rcases hresize with ⟨rfl, -⟩ | ⟨rfl, -⟩
    · exact ⟨hplaced ⟨ha, hdue, hp.options⟩ hvet, htotals ha⟩
    · exact ⟨hplaced ⟨ha, hdue, hp.options⟩ hvet, htotals ha⟩
  | claimedLast _ _ => exact ⟨habsent (.inr rfl), hunchanged⟩
  | claimed _ hdue hvet =>
    have hp := hslot _ rfl
    exact ⟨hplaced ⟨ha, (Rewards.dust_exact (over_of_owed ha hp hdue)).1, hp.options⟩ hvet,
      hunchanged⟩
  | resnapshot hvet =>
    have hp := hslot _ rfl
    exact ⟨hplaced ⟨hstep, hp.unclaimed, hp.options⟩ hvet, hunchanged⟩
  | deleted _ _ _ => exact ⟨habsent (.inr rfl), hunchanged⟩
  | closed _ _ _ => exact ⟨habsent (.inr rfl), htotals ha⟩

end Accumulator

theorem Decimal.negative_readBack {a : Decimal} (h : 0 ≤ a.toRat) :
    a.readBack.negative = false := by
  by_cases hz : a.IsZero
  · show (a.negative && a.mantissa != 0) = false
    rw [show a.mantissa = 0 from hz]
    simp
  · rw [Decimal.readBack_of_not_negative (Decimal.not_negative_of_nonneg h hz)]
    exact Decimal.not_negative_of_nonneg h hz

namespace Pool

variable {pool : Pool}

theorem Sound.of_find? (h : pool.Sound D) {index : String} {p : Position}
    (hp : pool.find? index = some p) : p.Over D ∧ p.shares.negative = false :=
  have hmem := OrderedMap.mem_of_find? hp
  ⟨h.covered _ hmem, h.nonneg _ hmem⟩

theorem slot_eq_some {index : String} {p : Position} :
    pool.slot index = some (some p) ↔ pool.find? index = some p := by
  rw [slot]
  cases pool.find? index <;> simp

theorem slot_eq_none {index : String} : pool.slot index = none ↔ pool.find? index = none :=
  Option.map_eq_none_iff

theorem sound_new (name : String) : (new name).Sound D where
  value := Rewards.over_empty
  covered := fun _ he => absurd he List.not_mem_nil
  nonneg := fun _ he => absurd he List.not_mem_nil
  indices := fun _ he => absurd he List.not_mem_nil
  ascending := List.Pairwise.nil

theorem find?_commit (h : OrderedMap.Ascending pool.positions) (index index' : String)
    (o : Option Position) (t : Option Totals) :
    (pool.commit index { position := some o, totals := t }).find? index'
      = if index = index' then o.map Position.readBack else pool.find? index' := by
  have hkey : Bytes.ofString index = Bytes.ofString index' ↔ index = index' :=
    ⟨fun heq => Bytes.ofString_injective heq, fun heq => heq ▸ rfl⟩
  cases o with
  | none =>
    show OrderedMap.find? (OrderedMap.erase _ _) _ = _
    rw [OrderedMap.find?_erase h]
    simp only [hkey]
    rfl
  | some p =>
    show OrderedMap.find? (OrderedMap.insert _ _ _) _ = _
    rw [OrderedMap.find?_insert]
    simp only [hkey]
    rfl

theorem Sound.commit (h : pool.Sound D) {index : String} {c : Change} (hc : c.Sound D index) :
    (pool.commit index c).Sound D := by
  have hvalue : (pool.commit index c).accumulator.valuePerShare.Over D := by
    cases ht : c.totals with
    | none =>
      rw [Pool.commit, ht]
      exact h.value
    | some t =>
      rw [Pool.commit, ht]
      exact hc.totals t ht
  cases hp : c.position with
  | none =>
    have heq : (pool.commit index c).positions = pool.positions := by rw [Pool.commit, hp]; rfl
    exact ⟨hvalue, heq ▸ h.covered, heq ▸ h.nonneg, heq ▸ h.indices, heq ▸ h.ascending⟩
  | some o =>
    cases o with
    | none =>
      have heq : (pool.commit index c).positions
          = OrderedMap.erase pool.positions (Bytes.ofString index) := by rw [Pool.commit, hp]; rfl
      have hmem {e : Bytes × Position} (he : e ∈ (pool.commit index c).positions) :
          e ∈ pool.positions := OrderedMap.mem_of_mem_erase (heq ▸ he)
      exact ⟨hvalue, fun e he => h.covered e (hmem he), fun e he => h.nonneg e (hmem he),
        fun e he => h.indices e (hmem he), heq ▸ OrderedMap.ascending_erase h.ascending _⟩
    | some p =>
      -- what holds of the new entry and of all others holds of all
      obtain ⟨hover, hnonneg, hindex⟩ := hc.position p hp
      have heq : (pool.commit index c).positions
          = OrderedMap.insert pool.positions (Bytes.ofString index) p.readBack := by
        rw [Pool.commit, hp]
        rfl
      have hall {P : Bytes × Position → Prop} (hnew : P (Bytes.ofString index, p.readBack))
          (hold : ∀ e ∈ pool.positions, P e) : ∀ e ∈ (pool.commit index c).positions, P e := by
        intro e he
        rcases OrderedMap.mem_of_mem_insert (heq ▸ he) with rfl | he
        · exact hnew
        · exact hold e he
      exact
        { value := hvalue
          covered := hall ⟨hover.snapshot, hover.unclaimed, hover.options⟩ h.covered
          nonneg := hall (Decimal.negative_readBack hnonneg) h.nonneg
          indices := hall ⟨index, hindex, rfl⟩ h.indices
          ascending := heq ▸ OrderedMap.ascending_insert h.ascending _ _ }

theorem Sound.change (h : pool.Sound D) {step : Step} (hstep : step.Over D) {outcome : Outcome}
    {c : Change} (hplan : pool.plan step = .ok (outcome, c)) : c.Sound D step.index :=
  (Accumulator.planned_of_plan hplan).sound h.value
    (fun _ hp => (h.of_find? (slot_eq_some.mp hp)).1) hstep

theorem Sound.next (h : pool.Sound D) {step : Step} (hstep : step.Over D) :
    (pool.next step).Sound D := by
  cases hplan : pool.plan step with
  | error e => rwa [next_of_error hplan]
  | ok r =>
    rw [next_of_plan hplan]
    exact h.commit (h.change hstep hplan)

theorem Sound.after (h : pool.Sound D) {steps : List Step} (hsteps : ∀ step ∈ steps, step.Over D) :
    (pool.after steps).Sound D := by
  induction steps generalizing pool with
  | nil => exact h
  | cons step steps ih =>
    exact ih (h.next (hsteps step List.mem_cons_self))
      fun step' hstep' => hsteps step' (List.mem_cons_of_mem step hstep')

end Pool

end Accrual
