/-
Two accumulators that differ in the recorded total.

Of the accumulator in hand, an operation on a position reads the name, the value per share and,
where it changes the total, the recorded total; where it reads nothing else, it goes the same way
with any other total.

* `Result.Agree E V` — two results that both succeed with values related by `V`, or both fail with
  errors related by `E`;
* `Step.OnPosition` — the operations that address a position;
* `Step.Moves` — the amounts by which an operation can move the total, given what it finds;
* `Change.Alike T` — changes that write the same position, and totals related by `T`;
* `alike_plan` — if moving the total by these amounts has results alike, so has the whole plan.
-/
import Mathlib.Data.Option.Basic
import Accrual.Proofs.Ledger.Planned

namespace Accrual

/-! ### Results alike -/

namespace Result

variable {α α' β β' : Type} {E : Error → Error → Prop} {V : α → α' → Prop} {W : β → β' → Prop}

/-- Both succeed with values related by `V`, or both fail with errors related by `E`. -/
inductive Agree (E : Error → Error → Prop) (V : α → α' → Prop) :
    Except Error α → Except Error α' → Prop
  | ok {a a'} (h : V a a') : Agree E V (.ok a) (.ok a')
  | error {e e'} (h : E e e') : Agree E V (.error e) (.error e')

theorem Agree.refl {V : α → α → Prop} (hE : ∀ e, E e e) (hV : ∀ a, V a a) (x : Except Error α) :
    Agree E V x x := by
  cases x with
  | error e => exact .error (hE e)
  | ok a => exact .ok (hV a)

theorem Agree.bind {x : Except Error α} {x' : Except Error α'} {f : α → Except Error β}
    {f' : α' → Except Error β'} (h : Agree E V x x')
    (hf : ∀ a a', V a a' → Agree E W (f a) (f' a')) :
    Agree E W (x >>= f) (x' >>= f') := by
  cases h with
  | ok h => exact hf _ _ h
  | error h => exact .error h

/-- A common first part. -/
theorem Agree.bind_left {f : α → Except Error β} {f' : α → Except Error β'} (hE : ∀ e, E e e)
    (x : Except Error α) (hf : ∀ a, x = .ok a → Agree E W (f a) (f' a)) :
    Agree E W (x >>= f) (x >>= f') := by
  cases x with
  | error e => exact .error (hE e)
  | ok a => exact hf a rfl

theorem Agree.map {x : Except Error α} {x' : Except Error α'} {f : α → β} {f' : α' → β'}
    (h : Agree E V x x') (hf : ∀ a a', V a a' → W (f a) (f' a')) :
    Agree E W (x.map f) (x'.map f') := by
  cases h with
  | ok h => exact .ok (hf _ _ h)
  | error h => exact .error h

/-- A common refusal before anything else. -/
theorem Agree.guard {p : Prop} [Decidable p] {e : Error} {r : Unit → Except Error β}
    {r' : Unit → Except Error β'} {x : Except Error β} {x' : Except Error β'} (hE : ∀ e, E e e)
    (h : ¬ p → Agree E W x x') :
    Agree E W (if p then throw e >>= r else x) (if p then throw e >>= r' else x') := by
  by_cases hp : p
  · rw [if_pos hp, if_pos hp]
    exact .error (hE e)
  · rw [if_neg hp, if_neg hp]
    exact h hp

end Result

open Result (Agree)

/-! ### Operations on positions -/

/-- The operations that address a position and keep its shares in the total. -/
def Step.OnPosition : Step → Prop
  | .inject _ | .credit _ | .adjustShares _ | .writePosition _ _ => False
  | _ => True

/-- The amounts by which an operation can move the total where it finds `slot`. -/
def Step.Moves (slot : Slot) (delta : Decimal) : Step → Prop
  | .openNow _ shares _ | .openAt _ shares _ _ | .grow _ shares =>
    ¬ shares ≤ .zero ∧ delta = shares
  | .shrink _ shares =>
    ¬ shares ≤ .zero ∧ delta = shares.neg ∧ ∃ p, slot = some (some p) ∧ ¬ p.shares < shares
  | .close _ => ∃ p, slot = some (some p) ∧ delta = p.shares.neg
  | _ => False

/-- The same position is written, and the totals are related. -/
def Change.Alike (T : Totals → Totals → Prop) (c c' : Change) : Prop :=
  c.position = c'.position ∧ Option.Rel T c.totals c'.totals

namespace Accumulator

variable {E : Error → Error → Prop} {T : Totals → Totals → Prop} {a : Accumulator} {t : Decimal}
  {slot : Slot} {index : String}

/-- Answers are the same and changes alike. -/
def AlikeAnswer {α : Type} (T : Totals → Totals → Prop) (r r' : α × Change) : Prop :=
  r.1 = r'.1 ∧ r.2.Alike T r'.2

theorem alike_position {α : Type} (x : α) (o : Option (Option Position)) :
    AlikeAnswer T (x, { position := o }) (x, { position := o }) := ⟨rfl, rfl, .none⟩

theorem alike_totals {α : Type} (x : α) (o : Option (Option Position)) {t t' : Totals}
    (h : T t t') : AlikeAnswer T (x, { position := o, totals := some t })
      (x, { position := o, totals := some t' }) := ⟨rfl, rfl, .some h⟩

theorem alike_planOpen (hE : ∀ e, E e e) {shares : Decimal} (snapshot : Rewards)
    (options : Option Bytes)
    (h : ¬ shares ≤ .zero →
      Agree E T (a.adjusted shares) ({ a with totalShares := t }.adjusted shares)) :
    Agree E (AlikeAnswer T) (a.planOpen index shares snapshot options slot)
      ({ a with totalShares := t }.planOpen index shares snapshot options slot) := by
  refine .guard hE fun _ => ?_
  refine .bind_left hE _ fun _ hpos => ?_
  refine .guard hE fun _ => ?_
  refine (h (positive_eq_ok.mp hpos)).bind fun _ _ ht => ?_
  exact .bind_left hE _ fun _ _ => .ok (alike_totals _ _ ht)

theorem alike_planResize (hE : ∀ e, E e e) (p : Position) (shares : Decimal) {delta : Decimal}
    (h : Agree E T (a.adjusted delta) ({ a with totalShares := t }.adjusted delta)) :
    Agree E (AlikeAnswer T) (a.planResize index p shares delta)
      ({ a with totalShares := t }.planResize index p shares delta) := by
  refine .bind_left hE (a.owed p) fun _ _ => ?_
  refine h.bind fun _ _ ht => ?_
  exact .bind_left hE _ fun _ _ => .ok (alike_totals _ _ ht)

theorem alike_planGrow (hE : ∀ e, E e e) {shares : Decimal}
    (h : ¬ shares ≤ .zero →
      Agree E T (a.adjusted shares) ({ a with totalShares := t }.adjusted shares)) :
    Agree E (AlikeAnswer T) (a.planGrow index shares slot)
      ({ a with totalShares := t }.planGrow index shares slot) := by
  refine .bind_left hE _ fun _ hpos => ?_
  refine .bind_left hE (a.held index slot) fun p _ => ?_
  cases p.shares.add? shares with
  | none => exact .error (hE _)
  | some sum => exact alike_planResize hE p sum (h (positive_eq_ok.mp hpos))

theorem alike_planShrink (hE : ∀ e, E e e) {shares : Decimal}
    (h : ¬ shares ≤ .zero → (∃ p, slot = some (some p) ∧ ¬ p.shares < shares) →
      Agree E T (a.adjusted shares.neg) ({ a with totalShares := t }.adjusted shares.neg)) :
    Agree E (AlikeAnswer T) (a.planShrink index shares slot)
      ({ a with totalShares := t }.planShrink index shares slot) := by
  refine .bind_left hE _ fun _ hpos => ?_
  refine .bind_left hE (a.held index slot) fun p hp => ?_
  refine .guard hE fun henough => ?_
  cases p.shares.sub? shares with
  | none => exact .error (hE _)
  | some rest =>
    exact alike_planResize hE p rest
      (h (positive_eq_ok.mp hpos) ⟨p, held_eq_ok.mp hp, henough⟩)

theorem alike_planClaim (hE : ∀ e, E e e) :
    Agree E (AlikeAnswer T) (a.planClaim index slot)
      ({ a with totalShares := t }.planClaim index slot) := by
  refine .bind_left hE (a.held index slot) fun p _ => ?_
  refine .bind_left hE (a.owed p) fun due _ => ?_
  by_cases hzero : p.shares.IsZero
  · rw [if_pos hzero, if_pos hzero]
    exact .ok (alike_position _ _)
  · rw [if_neg hzero, if_neg hzero]
    exact .bind_left hE _ fun _ _ => .ok (alike_position _ _)

theorem alike_planDelete (hE : ∀ e, E e e) :
    Agree E (AlikeAnswer T) (a.planDelete index slot)
      ({ a with totalShares := t }.planDelete index slot) := by
  refine .bind_left hE (a.held index slot) fun p _ => ?_
  refine .bind_left hE (a.owed p) fun due _ => ?_
  exact .guard hE fun _ => .ok (alike_position _ _)

theorem alike_planClose (hE : ∀ e, E e e)
    (h : ∀ p, slot = some (some p) →
      Agree E T (a.adjusted p.shares.neg) ({ a with totalShares := t }.adjusted p.shares.neg)) :
    Agree E (AlikeAnswer T) (a.planClose index slot)
      ({ a with totalShares := t }.planClose index slot) := by
  refine .bind_left hE (a.held index slot) fun p hp => ?_
  refine .bind_left hE (a.owed p) fun due _ => ?_
  exact (h p (held_eq_ok.mp hp)).bind fun _ _ ht => .ok (alike_totals _ _ ht)

/-- Where moving the total has results alike, an operation on a position has. -/
theorem alike_plan (hE : ∀ e, E e e) {step : Step} (hstep : step.OnPosition)
    (h : ∀ delta, step.Moves slot delta →
      Agree E T (a.adjusted delta) ({ a with totalShares := t }.adjusted delta)) :
    Agree E (AlikeAnswer T) (a.plan slot step) ({ a with totalShares := t }.plan slot step) := by
  cases step with
  | inject amount => exact absurd hstep id
  | credit perShare => exact absurd hstep id
  | adjustShares delta => exact absurd hstep id
  | writePosition index p => exact absurd hstep id
  | openNow index shares options =>
    exact (alike_planOpen hE _ _ fun hpos => h _ ⟨hpos, rfl⟩).map
      fun _ _ => And.imp_left fun _ => rfl
  | openAt index shares snapshot options =>
    exact (alike_planOpen hE _ _ fun hpos => h _ ⟨hpos, rfl⟩).map
      fun _ _ => And.imp_left fun _ => rfl
  | grow index shares =>
    exact (alike_planGrow hE fun hpos => h _ ⟨hpos, rfl⟩).map fun _ _ => And.imp_left fun _ => rfl
  | shrink index shares =>
    exact (alike_planShrink hE fun hpos hp => h _ ⟨hpos, rfl, hp⟩).map
      fun _ _ => And.imp_left fun _ => rfl
  | claim index => exact (alike_planClaim hE).map fun _ _ => And.imp_left (congrArg Outcome.paid)
  | resnapshot index snapshot =>
    refine Agree.map (V := AlikeAnswer T) ?_ fun _ _ => And.imp_left fun _ => rfl
    refine .bind_left hE (a.held index slot) fun p _ => ?_
    exact .bind_left hE _ fun _ _ => .ok (alike_position _ _)
  | delete index => exact (alike_planDelete hE).map fun _ _ => And.imp_left fun _ => rfl
  | close index =>
    exact (alike_planClose hE fun p hp => h _ ⟨p, hp, rfl⟩).map
      fun _ _ => And.imp_left (congrArg Outcome.paid)

end Accumulator

end Accrual
