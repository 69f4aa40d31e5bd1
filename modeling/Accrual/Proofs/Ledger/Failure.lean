/-
Failed operations change nothing.

* `Action.Reads` — an action that leaves the state alone, whatever it answers; looking up
  accumulators and positions is such an action;
* `Action.FailsCleanly` — an action that leaves the state alone when it fails; reading first keeps
  it so (`Reads.bind_failsCleanly`);
* `perform_failsCleanly`, `create_failsCleanly`, `byName_failsCleanly` — all operations fail
  cleanly on a store that takes writes;
* `failed_operations_change_nothing` — in particular on every store in memory.

Design notes.  Nothing is assumed of what the store holds or of the accumulator in hand: records
may be unreadable or contradict each other, and the accumulator may be an old copy.  What a step
writes is decided before its first write (`perform_eq_plan`), and on these stores no write fails.
-/
import Accrual.Proofs.Ledger.Plan

namespace Accrual

namespace Action

variable {σ α β : Type}

/-- The action answers, or fails, and leaves the state as it was. -/
def Reads (act : Action σ α) : Prop := ∀ s, ∃ r, act s = ofResult r s

/-- When the action fails on `s`, it leaves `s` as it was. -/
def FailsCleanly (act : Action σ α) (s : σ) : Prop := ∀ e s', act s = .error e s' → s' = s

theorem reads_ofResult (r : Except Error α) : (ofResult r : Action σ α).Reads := fun _ => ⟨r, rfl⟩

theorem reads_pure (a : α) : (pure a : Action σ α).Reads := reads_ofResult (.ok a)

theorem reads_throw (e : Error) : (throw e : Action σ α).Reads := reads_ofResult (.error e)

theorem reads_get : (get : Action σ σ).Reads := fun s => ⟨.ok s, rfl⟩

theorem reads_ofStore (r : Except StoreError α) : (ofStore r : Action σ α).Reads := by
  cases r
  · exact reads_throw _
  · exact reads_pure _

variable {x : Action σ α} {f : α → Action σ β}

theorem Reads.bind (hx : x.Reads) (hf : ∀ a, (f a).Reads) : (x >>= f).Reads := by
  intro s
  obtain ⟨r, hr⟩ := hx s
  rw [bind_apply, hr]
  cases r with
  | error e => exact ⟨.error e, rfl⟩
  | ok a => exact hf a s

theorem Reads.ite {p : Prop} [Decidable p] {y : Action σ α} (hx : x.Reads) (hy : y.Reads) :
    (if p then x else y).Reads := by
  split
  · exact hx
  · exact hy

theorem Reads.onStore {x : Action Store α} (hx : x.Reads) : (onStore x).Reads := by
  intro l
  obtain ⟨r, hr⟩ := hx l.store
  refine ⟨r, ?_⟩
  unfold Action.onStore
  rw [hr]
  cases r <;> rfl

theorem Reads.failsCleanly (hx : x.Reads) (s : σ) : x.FailsCleanly s := by
  intro e s' h
  obtain ⟨r, hr⟩ := hx s
  rw [hr] at h
  cases r <;> cases h
  rfl

/-- What is read first changes nothing. -/
theorem Reads.bind_failsCleanly {s : σ} (hx : x.Reads) (hf : ∀ a, (f a).FailsCleanly s) :
    (x >>= f).FailsCleanly s := by
  intro e s' h
  obtain ⟨r, hr⟩ := hx s
  rw [bind_apply, hr] at h
  cases r with
  | error e' =>
    cases h
    rfl
  | ok a => exact hf a e s' h

/-- What comes last cannot fail after a change. -/
theorem FailsCleanly.bind_pure {s : σ} (hx : x.FailsCleanly s) (g : α → β) :
    (do return g (← x)).FailsCleanly s := by
  intro e s' h
  rw [bind_apply] at h
  cases hx' : x s with
  | ok a s₁ =>
    rw [hx'] at h
    cases h
  | error e₁ s₁ =>
    rw [hx'] at h
    cases h
    exact hx e s' hx'

end Action

open Accrual.Action

/-! ### Reading -/

namespace Store

theorem reads_read (key : Bytes) : (read key).Reads :=
  reads_get.bind fun s => reads_ofStore (s.lookup key)

theorem reads_holds (key : Bytes) : (holds key).Reads :=
  reads_get.bind fun s => reads_ofStore (s.contains key)

theorem reads_list (start : Bytes) : (list start).Reads :=
  reads_get.bind fun s => reads_ofStore (s.scan start)

theorem write_failsCleanly (key value : Bytes) (s : Store) : (write key value).FailsCleanly s := by
  intro e s' h
  simp only [write, bind_apply, get_apply] at h
  cases hinsert : s.insert key value with
  | error e' =>
    rw [hinsert] at h
    cases h
    rfl
  | ok s₁ =>
    rw [hinsert] at h
    cases h

end Store

namespace Accumulator

theorem reads_checkName (name : String) : (checkName name).Reads :=
  .ite (reads_pure ()) (reads_throw _)

theorem reads_exists? (name : String) : (exists? name).Reads :=
  (reads_checkName name).bind fun _ => Store.reads_holds _

theorem reads_load (name : String) : (load name).Reads := by
  refine (reads_checkName name).bind fun _ => (Store.reads_read _).bind fun o => ?_
  cases o with
  | none => exact reads_throw _
  | some bytes =>
    dsimp only
    cases Totals.decode? bytes
    · exact reads_throw _
    · exact reads_pure _

theorem reads_all : all.Reads := (Store.reads_list _).bind fun _ => reads_ofResult _

theorem create_failsCleanly (name : String) (s : Store) : (create name).FailsCleanly s := by
  refine (reads_exists? name).bind_failsCleanly fun taken => ?_
  have hwrite := (Store.write_failsCleanly (Key.accumulator name) Totals.zero.encode s).bind_pure
    fun _ => ({ toTotals := .zero, name } : Accumulator)
  cases taken with
  | false => exact hwrite
  | true => exact (reads_throw _).failsCleanly s

end Accumulator

namespace Ledger

theorem reads_position (index : String) : (position index).Reads := by
  refine reads_get.bind fun l => (Store.reads_read _).onStore.bind fun o => ?_
  cases o with
  | none => exact reads_throw _
  | some bytes =>
    dsimp only
    cases Position.decode? bytes
    · exact reads_throw _
    · exact reads_pure _

/-! ### Writing -/

/-- A plan that fails was not carried out. -/
theorem perform_failsCleanly {l : Ledger} (hw : l.store.Writable) (step : Step) :
    (perform step).FailsCleanly l := by
  intro e l' h
  rw [perform_eq_plan hw] at h
  cases hplan : l.accumulator.plan (l.slot step.index) step with
  | error e' =>
    rw [hplan] at h
    cases h
    rfl
  | ok r =>
    rw [hplan] at h
    cases h

theorem byName_failsCleanly {α : Type} {name : String} {act : Action Ledger α} {s : Store}
    (hact : ∀ accumulator, act.FailsCleanly ⟨accumulator, s⟩) :
    (byName name act).FailsCleanly s := by
  intro e s' h
  obtain ⟨r, hr⟩ := Accumulator.reads_load name s
  unfold byName at h
  rw [hr] at h
  cases r with
  | error e' =>
    cases h
    rfl
  | ok accumulator =>
    cases hact' : act ⟨accumulator, s⟩ with
    | ok a l =>
      simp only [ofResult_ok, hact'] at h
      cases h
    | error e' l =>
      have hl := hact accumulator e' l hact'
      simp only [ofResult_ok, hact'] at h
      cases h
      rw [hl]

/-- On a store in memory, whatever its records are, a failed operation leaves the store and the
accumulator in hand as they were. -/
theorem failed_operations_change_nothing (records : Records) :
    (∀ name, (Accumulator.create name).FailsCleanly (.memory records)) ∧
      (∀ accumulator step, (perform step).FailsCleanly ⟨accumulator, .memory records⟩) ∧
      (∀ name step, (byName name (perform step)).FailsCleanly (.memory records)) ∧
      (∀ name index, (byName name (position index)).FailsCleanly (.memory records)) ∧
      (∀ name, (Accumulator.load name).FailsCleanly (.memory records)) ∧
      Accumulator.all.FailsCleanly (.memory records) := by
  have hw : (Store.memory records).Writable := trivial
  refine ⟨fun name => Accumulator.create_failsCleanly name _,
    fun accumulator step => perform_failsCleanly (l := ⟨accumulator, .memory records⟩) hw step,
    fun name step => byName_failsCleanly fun _ => perform_failsCleanly hw step,
    fun name index => byName_failsCleanly fun _ => (reads_position index).failsCleanly _,
    fun name => (Accumulator.reads_load name).failsCleanly _,
    Accumulator.reads_all.failsCleanly _⟩

/-- A position that cannot be read stops an old copy of its accumulator from closing it. -/
example (records : Records) (h : records.find? (Key.position "pool" "a") = some [0xff]) :
    let l : Ledger := ⟨{ toTotals := .zero, name := "pool" }, .memory records⟩
    perform (.close "a") l = .error (.store .undecodable) l := by
  simp only [perform_eq_plan (l := ⟨_, .memory records⟩) trivial, slot, Step.index, Store.records,
    h]
  rfl

end Ledger

end Accrual
