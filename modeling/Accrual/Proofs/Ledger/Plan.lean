/-
What a step does, decided before anything is written.

On a store that takes writes, a step reads at most one record of a position, decides, and then
writes at most that record and the totals.

* `Step.index` — the position a step addresses;
* `Slot` — what is found at that position: nothing, something unreadable, or a position;
* `Change` — what is to be written;
* `Accumulator.plan` — the decision, as a function of the totals in hand and the slot;
* `Ledger.commit` — write a change;
* `Ledger.perform_eq_plan` — carrying out a step is planning it and committing the plan.

A step that fails has written nothing, since its plan failed.
-/
import Accrual.Ledger.Step
import Accrual.Proofs.Store

namespace Accrual

/-! ### Results and actions, one step at a time -/

namespace Result

variable {ε α β : Type}

theorem ok_bind (a : α) (f : α → Except ε β) : (Except.ok a >>= f) = f a := rfl

theorem error_bind (e : ε) (f : α → Except ε β) : (Except.error e >>= f) = .error e := rfl

theorem throw_eq (e : ε) : (throw e : Except ε α) = .error e := rfl

/-- What a successful sequence says about its parts. -/
theorem bind_eq_ok {x : Except ε α} {f : α → Except ε β} {b : β} :
    (x >>= f) = .ok b ↔ ∃ a, x = .ok a ∧ f a = .ok b := by
  cases x with
  | error e => exact iff_of_false (fun h => nomatch h) (fun ⟨_, h, _⟩ => nomatch h)
  | ok a => simp [ok_bind]

end Result

namespace Action

variable {σ α β : Type}

theorem bind_apply (x : Action σ α) (f : α → Action σ β) (s : σ) :
    (x >>= f) s = match x s with
      | .ok a s => f a s
      | .error e s => .error e s := by
  cases h : x s <;> simp [bind, EStateM.bind, h]

theorem pure_apply (a : α) (s : σ) : (pure a : Action σ α) s = .ok a s := rfl

theorem throw_apply (e : Error) (s : σ) : (throw e : Action σ α) s = .error e s := rfl

theorem get_apply (s : σ) : (get : Action σ σ) s = .ok s s := rfl

theorem ofResult_ok (a : α) (s : σ) : (ofResult (.ok a) : Action σ α) s = .ok a s := rfl

/-- An answer that is given another form at the end. -/
theorem bind_pure_eq_ok {x : Action σ α} {s s' : σ} {a : α} (h : x s = .ok a s') (g : α → β) :
    (do return g (← x)) s = .ok (g a) s' := by
  rw [bind_apply, h]
  rfl

theorem ofRewards_eq (r : Except RewardError α) :
    (ofRewards r : Action σ α) = ofResult (r.mapError .rewards) := by
  cases r <;> rfl

end Action

/-! ### Plans -/

/-- The index of the position a step addresses; none has the empty index. -/
def Step.index : Step → String
  | .inject _ | .credit _ | .adjustShares _ => ""
  | .writePosition index _ | .openNow index _ _ | .openAt index _ _ _ | .grow index _
  | .shrink index _ | .claim index | .resnapshot index _ | .delete index | .close index => index

/-- What is found at a position: nothing, something unreadable, or a position. -/
abbrev Slot := Option (Option Position)

/-- What a step writes: a position or its removal, and new totals. -/
structure Change where
  position : Option (Option Position) := none
  totals : Option Totals := none

namespace Accumulator

variable (a : Accumulator)

/-- The position in a slot. -/
def held (index : String) : Slot → Except Error Position
  | none => .error (.positionNotFound a.name index)
  | some none => .error (.store .undecodable)
  | some (some p) => .ok p

/-- Refuse a position that may not be written. -/
def vet (index : String) (p : Position) : Except Error Unit := do
  if ¬ Key.IsIndex index then throw (.invalidName index)
  if p.shares < .zero then throw (.nonPositiveShares p.shares)
  let _ ← a.growthSince p.snapshot

/-- The totals after an amount is added to every share. -/
def credited (perShare : Rewards) : Except Error Totals := do
  let value ← (a.valuePerShare.add perShare).mapError .rewards
  return { a.toTotals with valuePerShare := value }

/-- The totals after a change of the shares. -/
def adjusted (delta : Decimal) : Except Error Totals := do
  let total ← a.totalAfter delta
  return { a.toTotals with totalShares := total }

/-- Refuse a share amount that is not positive. -/
def positive (shares : Decimal) : Except Error Unit :=
  if shares ≤ .zero then .error (.nonPositiveShares shares) else .ok ()

def planInject (amount : Rewards) : Except Error (Rewards × Change) :=
  if amount.IsEmpty ∨ a.totalShares.IsZero then .ok (.empty, {})
  else do
    let perShare ← (amount.divideDown a.totalShares).mapError .rewards
    let totals ← a.credited perShare
    return (perShare, { totals := some totals })

def planCredit (perShare : Rewards) : Except Error (Unit × Change) := do
  let totals ← a.credited perShare
  return ((), { totals := some totals })

def planAdjust (delta : Decimal) : Except Error (Unit × Change) := do
  let totals ← a.adjusted delta
  return ((), { totals := some totals })

def planWrite (index : String) (p : Position) : Except Error (Unit × Change) := do
  a.vet index p
  return ((), { position := some (some p) })

def planOpen (index : String) (shares : Decimal) (snapshot : Rewards) (options : Option Bytes)
    (slot : Slot) : Except Error (Unit × Change) := do
  if ¬ Key.IsIndex index then throw (.invalidName index)
  positive shares
  if slot.isSome then throw (.positionExists a.name index)
  let totals ← a.adjusted shares
  let p : Position := { shares, snapshot, unclaimed := .empty, options }
  a.vet index p
  return ((), { position := some (some p), totals := some totals })

def planResize (index : String) (p : Position) (shares delta : Decimal) :
    Except Error (Unit × Change) := do
  let unclaimed ← a.owed p
  let totals ← a.adjusted delta
  let p' := { p with shares, snapshot := a.valuePerShare, unclaimed }
  a.vet index p'
  return ((), { position := some (some p'), totals := some totals })

def planGrow (index : String) (shares : Decimal) (slot : Slot) : Except Error (Unit × Change) := do
  positive shares
  let p ← a.held index slot
  match p.shares.add? shares with
  | none => .error (.rewards .overflow)
  | some sum => a.planResize index p sum shares

def planShrink (index : String) (shares : Decimal) (slot : Slot) :
    Except Error (Unit × Change) := do
  positive shares
  let p ← a.held index slot
  if p.shares < shares then throw (.insufficientShares index p.shares shares)
  match p.shares.sub? shares with
  | none => .error (.rewards .overflow)
  | some rest => a.planResize index p rest shares.neg

def planClaim (index : String) (slot : Slot) : Except Error (Payout × Change) := do
  let p ← a.held index slot
  let due ← a.owed p
  let payout : Payout := { paid := due.whole, dust := due.dust, closed := decide p.shares.IsZero }
  if p.shares.IsZero then return (payout, { position := some none })
  else
    let p' := { p with snapshot := a.valuePerShare, unclaimed := due.dust }
    a.vet index p'
    return (payout, { position := some (some p') })

def planResnapshot (index : String) (snapshot : Rewards) (slot : Slot) :
    Except Error (Unit × Change) := do
  let p ← a.held index slot
  a.planWrite index { p with snapshot }

def planDelete (index : String) (slot : Slot) : Except Error (Unit × Change) := do
  let p ← a.held index slot
  let due ← a.owed p
  if ¬ p.shares.IsZero ∨ ¬ due.IsEmpty then throw (.positionNotEmpty index)
  return ((), { position := some none })

def planClose (index : String) (slot : Slot) : Except Error (Payout × Change) := do
  let p ← a.held index slot
  let due ← a.owed p
  let totals ← a.adjusted p.shares.neg
  return ({ paid := due.whole, dust := due.dust, closed := true },
    { position := some none, totals := some totals })

/-- What a step answers and writes, given what is found at the position it addresses. -/
def plan (slot : Slot) : Step → Except Error (Outcome × Change)
  | .inject amount => (a.planInject amount).map fun r => (.credited r.1, r.2)
  | .credit perShare => (a.planCredit perShare).map fun r => (.done, r.2)
  | .adjustShares delta => (a.planAdjust delta).map fun r => (.done, r.2)
  | .writePosition index p => (a.planWrite index p).map fun r => (.done, r.2)
  | .openNow index shares options =>
    (a.planOpen index shares a.valuePerShare options slot).map fun r => (.done, r.2)
  | .openAt index shares snapshot options =>
    (a.planOpen index shares snapshot options slot).map fun r => (.done, r.2)
  | .grow index shares => (a.planGrow index shares slot).map fun r => (.done, r.2)
  | .shrink index shares => (a.planShrink index shares slot).map fun r => (.done, r.2)
  | .claim index => (a.planClaim index slot).map fun r => (.paid r.1, r.2)
  | .resnapshot index snapshot =>
    (a.planResnapshot index snapshot slot).map fun r => (.done, r.2)
  | .delete index => (a.planDelete index slot).map fun r => (.done, r.2)
  | .close index => (a.planClose index slot).map fun r => (.paid r.1, r.2)

end Accumulator

/-! ### Carrying a plan out -/

namespace Ledger

/-- What is found at the position of an index. -/
def slot (l : Ledger) (index : String) : Slot :=
  (l.store.records.find? (Key.position l.accumulator.name index)).map Position.decode?

/-- The records after a position is written or removed. -/
def placed (name index : String) (r : Records) : Option (Option Position) → Records
  | none => r
  | some none => r.erase (Key.position name index)
  | some (some p) => r.insert (Key.position name index) p.encode

/-- The records after new totals are written. -/
def totalled (name : String) (r : Records) : Option Totals → Records
  | none => r
  | some t => r.insert (Key.accumulator name) t.encode

/-- Write a change: the position first, then the totals, in the store and in hand. -/
def commit (l : Ledger) (index : String) (c : Change) : Ledger :=
  let name := l.accumulator.name
  { accumulator := { l.accumulator with toTotals := c.totals.getD l.accumulator.toTotals }
    store := l.store.withRecords (totalled name (placed name index l.store.records c.position)
      c.totals) }

/-- A plan carried out: the change is committed, a failure leaves everything as it is. -/
def carryOut {α : Type} (l : Ledger) (index : String) :
    Except Error (α × Change) → EStateM.Result Error Ledger α
  | .ok (a, c) => .ok a (l.commit index c)
  | .error e => .error e l

variable {l : Ledger} {α β : Type} {index : String}

/-- A part that only decides stands at the head of the plan. -/
theorem carryOut_bind {x : Action Ledger β} {r : Except Error β} (hx : x l = Action.ofResult r l)
    {f : β → Action Ledger α} {g : β → Except Error (α × Change)}
    (h : ∀ b, r = .ok b → f b l = carryOut l index (g b)) :
    (x >>= f) l = carryOut l index (r >>= g) := by
  rw [Action.bind_apply, hx]
  cases r with
  | error e => rfl
  | ok b => exact h b rfl

/-- An answer that is given another form at the end leaves the plan as it is. -/
theorem carryOut_map {x : Action Ledger α} {r : Except Error (α × Change)}
    (hx : x l = carryOut l index r) (g : α → β) :
    (do return g (← x)) l = carryOut l index (r.map fun p => (g p.1, p.2)) := by
  rw [Action.bind_apply, hx]
  cases r <;> rfl

/-- A refusal before anything else. -/
theorem carryOut_guard {p : Prop} [Decidable p] {e : Error} {x : Action Ledger α}
    {x' : Unit → Action Ledger α} {r : Except Error (α × Change)}
    {r' : Unit → Except Error (α × Change)} (h : ¬ p → x l = carryOut l index r) :
    (if p then throw e >>= x' else x) l = carryOut l index (if p then throw e >>= r' else r) := by
  by_cases hp : p
  · rw [if_pos hp, if_pos hp]
    rfl
  · rw [if_neg hp, if_neg hp]
    exact h hp

/-! ### The parts of a step -/

theorem writable_commit (hw : l.store.Writable) (index : String) (c : Change) :
    (l.commit index c).store.Writable := Store.writable_withRecords hw _

/-- A change of the position followed by new totals is one change. -/
theorem commit_commit (l : Ledger) (index : String) (p : Option (Option Position)) (t : Totals) :
    (l.commit index { position := p }).commit "" { totals := some t }
      = l.commit index { position := p, totals := some t } := by
  simp only [commit, placed, totalled, Store.records_withRecords, Store.withRecords_withRecords,
    Option.getD_some]

theorem commit_nothing (hw : l.store.Writable) (index : String) : l.commit index {} = l := by
  simp only [commit, placed, totalled, Option.getD_none, Store.withRecords_records hw]

theorem save_apply (hw : l.store.Writable) (t : Totals) :
    save t l = .ok () (l.commit "" { totals := some t }) := by
  unfold save
  simp only [Action.bind_apply, Action.get_apply, Action.onStore, Store.write]
  rw [Store.insert_of_writable hw]
  rfl

theorem position_apply (hr : l.store.Readable) (index : String) :
    position index l = Action.ofResult (l.accumulator.held index (l.slot index)) l := by
  simp only [position, Action.bind_apply, Action.get_apply, Action.onStore, Store.read]
  rw [Store.lookup_of_readable hr, slot]
  simp only [Action.ofStore, Action.pure_apply]
  cases l.store.records.find? (Key.position l.accumulator.name index) with
  | none => rfl
  | some bytes =>
    simp only [Option.map_some]
    cases Position.decode? bytes <;> rfl

theorem hasPosition_apply (hw : l.store.Writable) (index : String) :
    hasPosition index l = .ok (l.slot index).isSome l := by
  simp only [hasPosition, Action.bind_apply, Action.get_apply, Action.onStore, Store.holds]
  rw [Store.contains_of_writable hw, slot, Option.isSome_map]
  rfl

theorem erasePosition_apply (hw : l.store.Writable) (index : String) :
    erasePosition index l = .ok () (l.commit index { position := some none }) := by
  simp only [erasePosition, Action.bind_apply, Action.get_apply, Action.onStore, Store.remove]
  rw [Store.erase_of_writable hw]
  rfl

theorem checkPositive_apply (l : Ledger) (shares : Decimal) :
    checkPositive shares l = Action.ofResult (Accumulator.positive shares) l := by
  unfold checkPositive Accumulator.positive
  split <;> rfl

/-- The check of the total decides what changing it will do. -/
theorem checkTotal_bind (delta : Decimal) {f : Unit → Action Ledger α}
    {g : Totals → Except Error (α × Change)}
    (h : ∀ t, l.accumulator.adjusted delta = .ok t → f () l = carryOut l index (g t)) :
    (checkTotal delta >>= f) l = carryOut l index (l.accumulator.adjusted delta >>= g) := by
  unfold Accumulator.adjusted at h ⊢
  simp only [checkTotal, Action.bind_apply, Action.get_apply]
  cases htotal : l.accumulator.totalAfter delta with
  | error e => rfl
  | ok total =>
    rw [htotal] at h
    exact h _ rfl

theorem adjustShares_apply (hw : l.store.Writable) {delta : Decimal} {t : Totals}
    (ht : l.accumulator.adjusted delta = .ok t) :
    adjustShares delta l = .ok () (l.commit "" { totals := some t }) := by
  unfold Accumulator.adjusted at ht
  obtain ⟨total, htotal, heq⟩ := Result.bind_eq_ok.mp ht
  cases heq
  unfold adjustShares
  simp only [Action.bind_apply, Action.get_apply, htotal, Action.ofResult_ok, save_apply hw]

/-- Writing a position and then counting its shares. -/
theorem write_bind (hw : l.store.Writable) {p : Position} {f : Unit → Action Ledger α}
    {g : Unit → Except Error (α × Change)}
    (h : ∀ l', l' = l.commit index { position := some (some p) } →
      f () l' = carryOut l index (g ())) :
    (writePosition index p >>= f) l = carryOut l index (l.accumulator.vet index p >>= g) := by
  have hwrite : Action.onStore (Store.write (Key.position l.accumulator.name index) p.encode) l
      = .ok () (l.commit index { position := some (some p) }) := by
    simp only [Action.onStore, Store.write, Action.bind_apply, Action.get_apply]
    rw [Store.insert_of_writable hw]
    rfl
  unfold writePosition Accumulator.vet
  -- the checks come in the same order on both sides, and the write is the last
  by_cases hindex : Key.IsIndex index
  · by_cases hshares : p.shares < .zero
    · simp only [hindex, hshares, not_true_eq_false, if_false, if_true, Result.throw_eq,
        Result.error_bind, Action.bind_apply, Action.throw_apply, carryOut]
    · simp only [hindex, hshares, not_true_eq_false, if_false, Action.bind_apply,
        Action.get_apply]
      cases l.accumulator.growthSince p.snapshot with
      | error e => rfl
      | ok growth =>
        simp only [Action.ofResult_ok, hwrite]
        exact h _ rfl
  · simp only [hindex, not_false_eq_true, if_true, Result.throw_eq, Result.error_bind,
      Action.bind_apply, Action.throw_apply, carryOut]

theorem write_then_adjust (hw : l.store.Writable) {p : Position} {delta : Decimal} {t : Totals}
    (ht : l.accumulator.adjusted delta = .ok t) :
    (writePosition index p >>= fun _ => adjustShares delta) l
      = carryOut l index (l.accumulator.vet index p >>= fun _ =>
          .ok ((), { position := some (some p), totals := some t })) := by
  refine write_bind hw fun l' hl' => ?_
  have hsame : l'.accumulator = l.accumulator := by
    rw [hl']
    rfl
  rw [adjustShares_apply (hl' ▸ writable_commit hw index _) (hsame ▸ ht), hl', commit_commit]
  rfl

/-! ### Steps -/

theorem credit_apply (index : String) (hw : l.store.Writable) (perShare : Rewards) :
    credit perShare l = carryOut l index (l.accumulator.planCredit perShare) := by
  unfold credit Accumulator.planCredit Accumulator.credited
  simp only [Action.bind_apply, Action.get_apply, Action.ofRewards_eq]
  cases (l.accumulator.valuePerShare.add perShare).mapError Error.rewards with
  | error e => rfl
  | ok value => exact save_apply hw _

theorem inject_apply (hw : l.store.Writable) (amount : Rewards) :
    inject amount l = carryOut l index (l.accumulator.planInject amount) := by
  unfold inject Accumulator.planInject
  rw [Action.bind_apply, Action.get_apply]
  by_cases hnone : amount.IsEmpty ∨ l.accumulator.totalShares.IsZero
  · simp only [if_pos hnone]
    rw [carryOut, commit_nothing hw]
    rfl
  · simp only [if_neg hnone]
    refine carryOut_bind (by rw [Action.ofRewards_eq]) fun perShare _ => ?_
    rw [Action.bind_apply, credit_apply index hw, Accumulator.planCredit]
    cases l.accumulator.credited perShare <;> rfl

theorem adjust_apply (hw : l.store.Writable) (delta : Decimal) :
    adjustShares delta l = carryOut l index (l.accumulator.planAdjust delta) := by
  unfold Accumulator.planAdjust
  cases ht : l.accumulator.adjusted delta with
  | error e =>
    unfold Accumulator.adjusted at ht
    cases htotal : l.accumulator.totalAfter delta with
    | error e' =>
      rw [htotal] at ht
      cases ht
      simp only [adjustShares, Action.bind_apply, Action.get_apply, htotal]
      rfl
    | ok total =>
      rw [htotal] at ht
      cases ht
  | ok t => exact adjustShares_apply hw ht

theorem writePosition_apply (hw : l.store.Writable) (p : Position) :
    writePosition index p l = carryOut l index (l.accumulator.planWrite index p) := by
  have hwrite : (writePosition index p >>= fun _ => pure ()) l
      = carryOut l index (l.accumulator.planWrite index p) :=
    write_bind (g := fun _ => .ok ((), { position := some (some p) })) hw
      fun l' hl' => by rw [hl']; rfl
  rwa [bind_pure] at hwrite

theorem openAt_apply (hw : l.store.Writable) (shares : Decimal) (snapshot : Rewards)
    (options : Option Bytes) :
    openAt index shares snapshot options l
      = carryOut l index (l.accumulator.planOpen index shares snapshot options (l.slot index)) := by
  refine carryOut_guard fun _ => ?_
  refine carryOut_bind (checkPositive_apply l shares) fun _ _ => ?_
  rw [Action.bind_apply, hasPosition_apply hw]
  cases (l.slot index).isSome with
  | true => rfl
  | false =>
    -- the total is checked, the position written and the total changed
    exact checkTotal_bind shares fun t ht => write_then_adjust hw ht

theorem openNow_apply (hw : l.store.Writable) (shares : Decimal) (options : Option Bytes) :
    openNow index shares options l
      = carryOut l index (l.accumulator.planOpen index shares l.accumulator.valuePerShare options
          (l.slot index)) := openAt_apply hw shares _ options

theorem resize_apply (hw : l.store.Writable) (p : Position) (shares delta : Decimal) :
    resize index p shares delta l
      = carryOut l index (l.accumulator.planResize index p shares delta) := by
  refine carryOut_bind rfl fun unclaimed _ => ?_
  exact checkTotal_bind delta fun t ht => write_then_adjust hw ht

theorem grow_apply (hw : l.store.Writable) (shares : Decimal) :
    grow index shares l
      = carryOut l index (l.accumulator.planGrow index shares (l.slot index)) := by
  refine carryOut_bind (checkPositive_apply l shares) fun _ _ => ?_
  refine carryOut_bind (position_apply hw.readable index) fun p _ => ?_
  cases p.shares.add? shares with
  | none => rfl
  | some sum => exact resize_apply hw p sum shares

theorem shrink_apply (hw : l.store.Writable) (shares : Decimal) :
    shrink index shares l
      = carryOut l index (l.accumulator.planShrink index shares (l.slot index)) := by
  refine carryOut_bind (checkPositive_apply l shares) fun _ _ => ?_
  refine carryOut_bind (position_apply hw.readable index) fun p _ => ?_
  refine carryOut_guard fun _ => ?_
  cases p.shares.sub? shares with
  | none => rfl
  | some rest => exact resize_apply hw p rest shares.neg

theorem claim_apply (hw : l.store.Writable) :
    claim index l = carryOut l index (l.accumulator.planClaim index (l.slot index)) := by
  refine carryOut_bind (position_apply hw.readable index) fun p _ => ?_
  refine carryOut_bind rfl fun due _ => ?_
  by_cases hzero : p.shares.IsZero
  · simp only [hzero, decide_true, if_true, Action.bind_apply, erasePosition_apply hw]
    rfl
  · simp only [hzero, decide_false, Bool.false_eq_true, if_false]
    exact write_bind hw fun l' hl' => by rw [hl']; rfl

theorem resnapshot_apply (hw : l.store.Writable) (snapshot : Rewards) :
    resnapshot index snapshot l
      = carryOut l index (l.accumulator.planResnapshot index snapshot (l.slot index)) :=
  carryOut_bind (position_apply hw.readable index) fun _ _ => writePosition_apply hw _

theorem delete_apply (hw : l.store.Writable) :
    delete index l = carryOut l index (l.accumulator.planDelete index (l.slot index)) := by
  refine carryOut_bind (position_apply hw.readable index) fun p _ => ?_
  refine carryOut_bind rfl fun due _ => ?_
  exact carryOut_guard fun _ => erasePosition_apply hw index

theorem close_apply (hw : l.store.Writable) :
    close index l = carryOut l index (l.accumulator.planClose index (l.slot index)) := by
  refine carryOut_bind (position_apply hw.readable index) fun p _ => ?_
  refine carryOut_bind rfl fun due _ => ?_
  refine checkTotal_bind p.shares.neg fun t ht => ?_
  -- the total is changed when the position is already gone
  have hadjust := adjustShares_apply (l := l.commit index { position := some none })
    (writable_commit hw index _) ht
  rw [commit_commit] at hadjust
  rw [Action.bind_apply, erasePosition_apply hw]
  simp only [Action.bind_apply, hadjust]
  rfl

/-- On a store that takes writes, a step is its plan carried out; if the plan fails, nothing has
happened. -/
theorem perform_eq_plan (hw : l.store.Writable) (step : Step) :
    perform step l
      = carryOut l step.index (l.accumulator.plan (l.slot step.index) step) := by
  cases step with
  | inject amount => exact carryOut_map (inject_apply hw amount) Outcome.credited
  | credit perShare => exact carryOut_map (credit_apply _ hw perShare) fun _ => Outcome.done
  | adjustShares delta => exact carryOut_map (adjust_apply hw delta) fun _ => Outcome.done
  | writePosition index p => exact carryOut_map (writePosition_apply hw p) fun _ => Outcome.done
  | openNow index shares options =>
    exact carryOut_map (openNow_apply hw shares options) fun _ => Outcome.done
  | openAt index shares snapshot options =>
    exact carryOut_map (openAt_apply hw shares snapshot options) fun _ => Outcome.done
  | grow index shares => exact carryOut_map (grow_apply hw shares) fun _ => Outcome.done
  | shrink index shares => exact carryOut_map (shrink_apply hw shares) fun _ => Outcome.done
  | claim index => exact carryOut_map (claim_apply hw) Outcome.paid
  | resnapshot index snapshot =>
    exact carryOut_map (resnapshot_apply hw snapshot) fun _ => Outcome.done
  | delete index => exact carryOut_map (delete_apply hw) fun _ => Outcome.done
  | close index => exact carryOut_map (close_apply hw) Outcome.paid

end Ledger

end Accrual
