/-
Stores that take no writes.

* `Store.insert_of_not_writable`, `Store.erase_of_not_writable` — such a store refuses every write;
* `Ledger.Idle` — an action that leaves the ledger as it is when its store takes no writes;
* `Ledger.idle_perform` — every operation is such an action.

Design notes.  What an action does before its first write changes nothing, and what would follow
the write is not reached.  The one thing that is set outside the store, the accumulator in hand, is
set right after the totals were written (`idle_save`).
-/
import Accrual.Proofs.Ledger.Failure

namespace Accrual

namespace Store

variable {s : Store}

theorem insert_of_not_writable (hw : ¬ s.Writable) (key value : Bytes) :
    ∃ e, s.insert key value = .error e := by
  cases h : s.insert key value with
  | error e => exact ⟨e, rfl⟩
  | ok s' => exact absurd (writable_of_insert h) hw

theorem erase_of_not_writable (hw : ¬ s.Writable) (key : Bytes) :
    ∃ e, s.erase key = .error e := by
  rcases s with records | ⟨_ | records, _ | _⟩
  · exact absurd trivial hw
  · exact ⟨_, rfl⟩
  · exact ⟨_, rfl⟩
  · exact ⟨_, rfl⟩
  · exact absurd ⟨rfl, rfl⟩ hw

end Store

namespace Ledger

open Accrual.Action

variable {α β : Type}

/-! ### Parts of an operation -/

/-- On a store that takes no writes, the action changes nothing. -/
def Idle (act : Action Ledger α) : Prop :=
  ∀ l : Ledger, ¬ l.store.Writable → ∃ r, act l = ofResult r l

theorem idle_of_reads {act : Action Ledger α} (h : act.Reads) : Idle act := fun l _ => h l

theorem Idle.bind {x : Action Ledger α} {f : α → Action Ledger β} (hx : Idle x)
    (hf : ∀ a, Idle (f a)) : Idle (x >>= f) := by
  intro l hw
  obtain ⟨r, hr⟩ := hx l hw
  rw [Action.bind_apply, hr]
  cases r with
  | error e => exact ⟨.error e, rfl⟩
  | ok a => exact hf a l hw

theorem Idle.ite {p : Prop} [Decidable p] {x y : Action Ledger α} (hx : Idle x) (hy : Idle y) :
    Idle (if p then x else y) := by
  split
  · exact hx
  · exact hy

theorem Idle.map {x : Action Ledger α} (hx : Idle x) (g : α → β) : Idle (do return g (← x)) :=
  hx.bind fun a => idle_of_reads (reads_pure (g a))

theorem write_refused {l : Ledger} (hw : ¬ l.store.Writable) (key value : Bytes) :
    ∃ e, onStore (Store.write key value) l = .error e l := by
  obtain ⟨e, he⟩ := Store.insert_of_not_writable hw key value
  refine ⟨.store e, ?_⟩
  simp only [onStore, Store.write, Action.bind_apply, Action.get_apply, he]
  rfl

theorem idle_write (key value : Bytes) : Idle (onStore (Store.write key value)) := by
  intro l hw
  obtain ⟨e, he⟩ := write_refused hw key value
  exact ⟨.error e, he⟩

theorem idle_remove (key : Bytes) : Idle (onStore (Store.remove key)) := by
  intro l hw
  obtain ⟨e, he⟩ := Store.erase_of_not_writable hw key
  refine ⟨.error (.store e), ?_⟩
  simp only [onStore, Store.remove, Action.bind_apply, Action.get_apply, he]
  rfl

theorem idle_get : Idle (get : Action Ledger Ledger) := idle_of_reads reads_get

theorem idle_ofResult (r : Except Error α) : Idle (ofResult r) := idle_of_reads (reads_ofResult r)

theorem idle_ofRewards (r : Except RewardError α) : Idle (ofRewards r) := by
  rw [Action.ofRewards_eq]
  exact idle_ofResult _

theorem idle_throw (e : Error) : Idle (throw e : Action Ledger α) := idle_of_reads (reads_throw e)

/-- What would follow a failure is never reached. -/
theorem idle_throw_bind (e : Error) (f : α → Action Ledger β) : Idle (throw e >>= f) :=
  fun _ _ => ⟨.error e, rfl⟩

/-- The accumulator in hand is set only after the store took the totals. -/
theorem idle_save (t : Totals) : Idle (save t) := by
  refine idle_get.bind fun l' l hw => ?_
  obtain ⟨e, he⟩ := write_refused hw (Key.accumulator l'.accumulator.name) t.encode
  exact ⟨.error e, by rw [Action.bind_apply, he]; rfl⟩

theorem idle_position (index : String) : Idle (position index) :=
  idle_of_reads (reads_position index)

theorem idle_owed (p : Position) : Idle (owed p) := idle_get.bind fun _ => idle_ofResult _

theorem idle_checkPositive (shares : Decimal) : Idle (checkPositive shares) :=
  .ite (idle_throw _) (idle_of_reads (reads_pure ()))

theorem idle_checkTotal (delta : Decimal) : Idle (checkTotal delta) :=
  idle_get.bind fun _ => (idle_ofResult _).bind fun _ => idle_of_reads (reads_pure ())

theorem idle_hasPosition (index : String) : Idle (hasPosition index) :=
  idle_get.bind fun _ => idle_of_reads (Store.reads_holds _).onStore

theorem idle_credit (perShare : Rewards) : Idle (credit perShare) :=
  idle_get.bind fun _ => (idle_ofRewards _).bind fun _ => idle_save _

theorem idle_inject (amount : Rewards) : Idle (inject amount) :=
  idle_get.bind fun _ => .ite (idle_of_reads (reads_pure _))
    ((idle_ofRewards _).bind fun perShare => (idle_credit perShare).bind fun _ =>
      idle_of_reads (reads_pure _))

theorem idle_adjustShares (delta : Decimal) : Idle (adjustShares delta) :=
  idle_get.bind fun _ => (idle_ofResult _).bind fun _ => idle_save _

theorem idle_writePosition (index : String) (p : Position) : Idle (writePosition index p) :=
  .ite (idle_throw_bind _ _) <| .ite (idle_throw_bind _ _) <|
    idle_get.bind fun _ => (idle_ofResult _).bind fun _ => idle_write _ _

theorem idle_erasePosition (index : String) : Idle (erasePosition index) :=
  idle_get.bind fun _ => idle_remove _

/-! ### Operations -/

theorem idle_openAt (index : String) (shares : Decimal) (snapshot : Rewards)
    (options : Option Bytes) : Idle (openAt index shares snapshot options) :=
  .ite (idle_throw_bind _ _) <| (idle_checkPositive shares).bind fun _ =>
    (idle_hasPosition index).bind fun _ =>
      .ite (idle_get.bind fun _ => idle_throw_bind _ _) <|
        (idle_checkTotal shares).bind fun _ => (idle_writePosition index _).bind fun _ =>
          idle_adjustShares shares

theorem idle_resize (index : String) (p : Position) (shares delta : Decimal) :
    Idle (resize index p shares delta) :=
  (idle_owed p).bind fun _ => (idle_checkTotal delta).bind fun _ => idle_get.bind fun _ =>
    (idle_writePosition index _).bind fun _ => idle_adjustShares delta

theorem idle_grow (index : String) (shares : Decimal) : Idle (grow index shares) := by
  refine (idle_checkPositive shares).bind fun _ => (idle_position index).bind fun p => ?_
  cases p.shares.add? shares with
  | none => exact idle_throw _
  | some sum => exact idle_resize index p sum shares

theorem idle_shrink (index : String) (shares : Decimal) : Idle (shrink index shares) := by
  refine (idle_checkPositive shares).bind fun _ => (idle_position index).bind fun p => ?_
  refine .ite (idle_throw_bind _ _) ?_
  cases p.shares.sub? shares with
  | none => exact idle_throw _
  | some rest => exact idle_resize index p rest shares.neg

theorem idle_claim (index : String) : Idle (claim index) := by
  refine (idle_position index).bind fun p => (idle_owed p).bind fun due => ?_
  by_cases hzero : p.shares.IsZero
  · simp only [hzero, decide_true, if_true]
    exact (idle_erasePosition index).bind fun _ => idle_of_reads (reads_pure _)
  · simp only [hzero, decide_false, Bool.false_eq_true, if_false]
    exact idle_get.bind fun _ => (idle_writePosition index _).bind fun _ =>
      idle_of_reads (reads_pure _)

theorem idle_delete (index : String) : Idle (delete index) :=
  (idle_position index).bind fun p => (idle_owed p).bind fun _ =>
    .ite (idle_throw_bind _ _) (idle_erasePosition index)

theorem idle_close (index : String) : Idle (close index) :=
  (idle_position index).bind fun p => (idle_owed p).bind fun _ =>
    (idle_checkTotal _).bind fun _ => (idle_erasePosition index).bind fun _ =>
      (idle_adjustShares _).bind fun _ => idle_of_reads (reads_pure _)

theorem idle_perform (step : Step) : Idle (perform step) := by
  cases step with
  | inject amount => exact (idle_inject amount).map _
  | credit perShare => exact (idle_credit perShare).map fun _ => Outcome.done
  | adjustShares delta => exact (idle_adjustShares delta).map fun _ => Outcome.done
  | writePosition index p => exact (idle_writePosition index p).map fun _ => Outcome.done
  | openNow index shares options =>
    exact Idle.map (idle_get.bind fun _ => idle_openAt index shares _ options)
      fun _ => Outcome.done
  | openAt index shares snapshot options =>
    exact (idle_openAt index shares snapshot options).map fun _ => Outcome.done
  | grow index shares => exact (idle_grow index shares).map fun _ => Outcome.done
  | shrink index shares => exact (idle_shrink index shares).map fun _ => Outcome.done
  | claim index => exact (idle_claim index).map _
  | resnapshot index snapshot =>
    exact Idle.map ((idle_position index).bind fun p => idle_writePosition index _)
      fun _ => Outcome.done
  | delete index => exact (idle_delete index).map fun _ => Outcome.done
  | close index => exact (idle_close index).map _

end Ledger

end Accrual
