/-
An eager ledger to compare with.

It keeps, for every open index, the shares and an exact vector of what is owed, and credits every
injection to all of them at once.

* `Book` — the state of the eager ledger;
* `Book.serve` — its operations, with the answer or the reason of a refusal;
* `Pool.book` — what the eager ledger should keep, read off a pool;
* `Backed.serve_of_plan` — a step that succeeds does the same to both, with the same answer.

Design notes.  The eager ledger is told the credit per share, since the rounding of the division
is not its business; everything else it computes itself, in exact arithmetic.
-/
import Mathlib.Logic.Function.Basic
import Accrual.Proofs.Ledger.Backing

namespace Accrual

open Decimal (IsMultiple limit)
open Rewards (fundLimit)

/-! ### The eager ledger -/

/-- What the eager ledger keeps of an open position. -/
structure Book.Entry where
  shares : ℚ
  owed : String → ℚ

/-- The state of the eager ledger. -/
abbrev Book := String → Option Book.Entry

/-- Why the eager ledger refuses an operation. -/
inductive Refusal where
  | invalidName (text : String)
  | nonPositiveShares (shares : ℚ)
  | positionExists (index : String)
  | positionNotFound (index : String)
  | insufficientShares (index : String) (held requested : ℚ)
  | positionNotEmpty (index : String)
  /-- It is not one of the operations of the eager ledger. -/
  | unsupported

/-- What the eager ledger answers. -/
inductive Receipt where
  | done
  | credited (perShare : String → ℚ)
  | paid (whole fractions : String → ℚ) (closed : Bool)

namespace Book

open Classical in
/-- The operations of the eager ledger; `perShare` is what an injection credits to a share. -/
noncomputable def serve (book : Book) (perShare : String → ℚ) :
    Step → Except Refusal (Receipt × Book)
  | .inject _ =>
    .ok (.credited perShare, fun index => (book index).map fun e =>
      { e with owed := fun d => e.owed d + perShare d * e.shares })
  | .openNow index shares _ =>
    if ¬ Key.IsIndex index then .error (.invalidName index)
    else if shares.toRat ≤ 0 then .error (.nonPositiveShares shares.toRat)
    else if (book index).isSome then .error (.positionExists index)
    else .ok (.done, Function.update book index (some ⟨shares.toRat, fun _ => 0⟩))
  | .grow index shares =>
    if shares.toRat ≤ 0 then .error (.nonPositiveShares shares.toRat)
    else match book index with
      | none => .error (.positionNotFound index)
      | some e =>
        .ok (.done, Function.update book index (some { e with shares := e.shares + shares.toRat }))
  | .shrink index shares =>
    if shares.toRat ≤ 0 then .error (.nonPositiveShares shares.toRat)
    else match book index with
      | none => .error (.positionNotFound index)
      | some e =>
        if e.shares < shares.toRat then
          .error (.insufficientShares index e.shares shares.toRat)
        else
          .ok (.done,
            Function.update book index (some { e with shares := e.shares - shares.toRat }))
  | .claim index =>
    match book index with
    | none => .error (.positionNotFound index)
    | some e =>
      let whole := fun d => (⌊e.owed d⌋ : ℚ)
      let fractions := fun d => Int.fract (e.owed d)
      if e.shares = 0 then .ok (.paid whole fractions true, Function.update book index none)
      else .ok (.paid whole fractions false,
        Function.update book index (some { e with owed := fractions }))
  | .delete index =>
    match book index with
    | none => .error (.positionNotFound index)
    | some e =>
      if e.shares ≠ 0 ∨ ∃ d, e.owed d ≠ 0 then .error (.positionNotEmpty index)
      else .ok (.done, Function.update book index none)
  | .close index =>
    match book index with
    | none => .error (.positionNotFound index)
    | some e =>
      .ok (.paid (fun d => (⌊e.owed d⌋ : ℚ)) (fun d => Int.fract (e.owed d)) true,
        Function.update book index none)
  | .credit _ | .adjustShares _ | .writePosition _ _ | .openAt _ _ _ _ | .resnapshot _ _ =>
    .error .unsupported

/-- The eager ledger after an operation, whether it was served or refused. -/
noncomputable def next (book : Book) (perShare : String → ℚ) (step : Step) : Book :=
  match book.serve perShare step with
  | .ok (_, book) => book
  | .error _ => book

end Book

/-- An answer in the terms of the eager ledger. -/
def Outcome.receipt : Outcome → Receipt
  | .done => .done
  | .credited perShare => .credited perShare.value
  | .paid payout => .paid payout.paid.value payout.dust.value payout.closed

/-- A failure in the terms of the eager ledger, which knows neither names nor storage nor bounds. -/
def Error.refusal? : Error → Option Refusal
  | .invalidName text => some (.invalidName text)
  | .nonPositiveShares shares => some (.nonPositiveShares shares.toRat)
  | .positionExists _ index => some (.positionExists index)
  | .positionNotFound _ index => some (.positionNotFound index)
  | .insufficientShares index held requested =>
    some (.insufficientShares index held.toRat requested.toRat)
  | .positionNotEmpty index => some (.positionNotEmpty index)
  | .store _ | .rewards _ | .accumulatorExists _ | .accumulatorNotFound _ | .violation _ => none

namespace Pool

variable {D : Finset String} {funds : String → ℚ} {pool : Pool} {index : String} {p : Position}
  {step : Step} {outcome : Outcome} {c : Change}

/-! ### The book of a pool -/

/-- What the eager ledger should keep. -/
def book (pool : Pool) : Book := fun index =>
  (pool.find? index).map fun p =>
    ⟨p.shares.toRat, p.entitlement pool.accumulator.valuePerShare⟩

theorem book_of_none (h : pool.find? index = none) : pool.book index = none := by
  rw [book, h, Option.map_none]

theorem book_of_some (h : pool.find? index = some p) :
    pool.book index
      = some ⟨p.shares.toRat, p.entitlement pool.accumulator.valuePerShare⟩ := by
  rw [book, h, Option.map_some]

/-- Writing a position at the current value sets its entry, removing it clears the entry. -/
theorem book_commit (h : OrderedMap.Ascending pool.positions) {o : Option Position}
    {t : Option Totals}
    (hvalue : (pool.commit index { position := some o, totals := t }).accumulator.valuePerShare
      = pool.accumulator.valuePerShare)
    (ho : ∀ p, o = some p → p.snapshot = pool.accumulator.valuePerShare) :
    (pool.commit index { position := some o, totals := t }).book
      = Function.update pool.book index
          (o.map fun p => ⟨p.shares.toRat, p.unclaimed.value⟩) := by
  funext index'
  rw [book, find?_commit h, hvalue]
  by_cases heq : index = index'
  · subst heq
    rw [if_pos rfl, Function.update_self, Option.map_map]
    cases o with
    | none => rfl
    | some p =>
      have howed : p.readBack.entitlement pool.accumulator.valuePerShare = p.unclaimed.value :=
        funext fun d => (p.entitlement_readBack d).trans (p.entitlement_of_snapshot_eq (ho p rfl) d)
      simp only [Option.map_some, Function.comp_apply, howed, Option.some.injEq]
      rw [Position.readBack, Decimal.toRat_readBack]
  · rw [if_neg heq, Function.update_of_ne (Ne.symm heq), book]

/-- A credit to every share is a credit to every entry. -/
theorem book_credited {amount perShare : Rewards} (hc : pool.Credits amount perShare c) :
    (pool.commit index c).book = fun index => (pool.book index).map fun e =>
      { e with owed := fun d => e.owed d + perShare.value d * e.shares } := by
  funext index'
  have hfind : (pool.commit index c).find? index' = pool.find? index' := by
    rw [find?, commit, hc.kept]
    rfl
  rw [book, hfind, book, Option.map_map]
  congr 1
  funext p
  have howed : p.entitlement (pool.commit index c).accumulator.valuePerShare
      = fun d =>
        p.entitlement pool.accumulator.valuePerShare d + perShare.value d * p.shares.toRat := by
    funext d
    rw [Position.entitlement, Position.entitlement, commit, hc.value d]
    ring
  simp only [Function.comp_apply, howed]

/-! ### Steps that succeed -/

theorem Backed.value_due (h : pool.Backed D funds) (hfunds : ∀ d, funds d ≤ fundLimit)
    (hp : pool.find? index = some p) {due : Rewards} (hdue : pool.accumulator.owed p = .ok due) :
    due.Over D ∧ due.value = p.entitlement pool.accumulator.valuePerShare := by
  obtain ⟨hover, hval⟩ := h.due hfunds hp hdue
  refine ⟨hover, funext fun d => ?_⟩
  rw [(hval d).1, owedAt, hp, Option.map_some, Option.getD_some]

theorem receipt_paid {due : Rewards} (h : due.Over D) (closed : Bool) :
    (Outcome.paid ⟨due.whole, due.dust, closed⟩).receipt
      = .paid (fun d => (⌊due.value d⌋ : ℚ)) (fun d => Int.fract (due.value d)) closed := by
  rw [Outcome.receipt, funext (Rewards.whole_exact h).2, funext (Rewards.dust_exact h).2]

/-- What a step does to a position, the eager ledger does to its entry. -/
theorem Backed.serve_of_plan (h : pool.Backed D funds) (hstep : step.Whole D)
    (hfunds : ∀ d, funds d + step.injected d ≤ fundLimit)
    (hplan : pool.plan step = .ok (outcome, c)) :
    pool.book.serve outcome.perShare.value step
      = .ok (outcome.receipt, (pool.commit step.index c).book) := by
  have hfunds' := hstep.funds_le hfunds
  have hasc := h.sound.ascending
  obtain ⟨amount, rfl⟩ | hne := step.inject_or_ne
  · obtain ⟨r, -, heq⟩ := Accumulator.map_eq_ok.mp hplan
    have hc := h.credits hstep.1 hfunds hplan
    cases heq
    rw [Book.serve, book_credited hc]
    rfl
  have hplanned := Accumulator.planned_of_plan hplan
  generalize hslot : pool.slot step.index = slot at hplanned
  cases hplanned with
  | injectNothing _ => exact absurd rfl (hne _)
  | inject _ _ _ => exact absurd rfl (hne _)
  | credit _ => exact absurd hstep id
  | adjustShares _ _ => exact absurd hstep id
  | writePosition _ => exact absurd hstep id
  | resnapshot _ => exact absurd hstep id
  | @opened _ index shares _ options _ hopen hpos _ _ hvet =>
    rcases hopen with ⟨rfl, rfl⟩ | rfl
    · -- a new entry is owed nothing
      have hnone : pool.find? index = none := slot_eq_none.mp hslot
      have hindex := (Accumulator.nonneg_of_vet hvet).1
      rw [Decimal.le_iff, Decimal.toRat_zero] at hpos
      have hempty : Rewards.empty.value = fun _ => 0 := funext Rewards.value_empty
      rw [Step.index, book_commit hasc rfl (by rintro p ⟨⟩; rfl), Book.serve,
        if_neg (not_not.mpr hindex), if_neg hpos, book_of_none hnone, Option.isSome_none,
        if_neg Bool.false_ne_true, Option.map_some, hempty]
      rfl
    · exact absurd hstep id
  | @resized _ index p shares x delta due _ hresize hpos hdue _ _ _ =>
    have hp := slot_eq_some.mp hslot
    obtain ⟨-, hval⟩ := h.value_due hfunds' hp hdue
    obtain ⟨-, h0, hwhole, -⟩ := h.of_find? hp
    have hx := hstep.shares x (by rcases hresize with ⟨rfl, -⟩ | ⟨rfl, -⟩ <;> rfl)
    have hexact := (resized_exact (by decide) hresize hwhole hx hpos h0
      (Decimal.toRat_lt_limit_zero _)).1
    rw [Decimal.le_iff, Decimal.toRat_zero] at hpos
    -- what becomes unclaimed is what the entry was owed
    rw [book_commit hasc rfl (by rintro p ⟨⟩; rfl), Option.map_some, hval, hexact]
    rcases hresize with ⟨rfl, -, rfl⟩ | ⟨rfl, henough, -, rfl⟩
    · change pool.find? index = some p at hp
      rw [Book.serve, if_neg hpos, Step.index, book_of_some hp]
      rfl
    · change pool.find? index = some p at hp
      rw [Decimal.lt_iff] at henough
      rw [Book.serve, if_neg hpos, Step.index, book_of_some hp, Decimal.toRat_neg]
      simp only [if_neg henough, ← sub_eq_add_neg]
      rfl
  | @claimedLast index p due hzero hdue =>
    have hp : pool.find? index = some p := slot_eq_some.mp hslot
    obtain ⟨hover, hval⟩ := h.value_due hfunds' hp hdue
    rw [Step.index, book_commit (o := none) hasc rfl nofun, Book.serve, book_of_some hp,
      receipt_paid hover, hval]
    simp only [if_pos (Decimal.isZero_iff.mp hzero)]
    rfl
  | @claimed index p due hzero hdue hvet =>
    have hp : pool.find? index = some p := slot_eq_some.mp hslot
    obtain ⟨hover, hval⟩ := h.value_due hfunds' hp hdue
    rw [Step.index, book_commit hasc rfl (by rintro p ⟨⟩; rfl), Book.serve, book_of_some hp,
      receipt_paid hover, Option.map_some, funext (Rewards.dust_exact hover).2, hval]
    simp only [if_neg (mt Decimal.isZero_iff.mpr hzero)]
  | @deleted index p due hdue hzero hnone =>
    have hp : pool.find? index = some p := slot_eq_some.mp hslot
    obtain ⟨hover, hval⟩ := h.value_due hfunds' hp hdue
    have hempty := hover.isEmpty_iff.mp hnone
    rw [hval] at hempty
    have hserved : ¬ (p.shares.toRat ≠ 0 ∨
        ∃ d, p.entitlement pool.accumulator.valuePerShare d ≠ 0) := by
      rintro (hne | ⟨d, hne⟩)
      · exact hne (Decimal.isZero_iff.mp hzero)
      · exact hne (hempty d)
    rw [Step.index, book_commit (o := none) hasc rfl nofun, Book.serve, book_of_some hp]
    simp only [if_neg hserved]
    rfl
  | @closed index p due _ hdue _ _ =>
    have hp : pool.find? index = some p := slot_eq_some.mp hslot
    obtain ⟨hover, hval⟩ := h.value_due hfunds' hp hdue
    rw [Step.index, book_commit (o := none) hasc rfl nofun, Book.serve, book_of_some hp,
      receipt_paid hover, hval]
    rfl

end Pool

end Accrual
