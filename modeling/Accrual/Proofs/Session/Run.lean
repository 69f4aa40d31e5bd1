/-
Runs of public operations on a store with several accumulators.

* `Call`, `Session.serve`, `Session.after` — public operations, one after the other: accumulators
  are created and loaded, and changed through the copy in hand or by name;
* `Session.Tidy` — the open store is tidy and every copy in hand is current;
* `Tidy.serve`, `Tidy.after` — so they stay, and no value per share is lowered.

Design notes.  A copy in hand is labelled by its name, so there is one of each accumulator at
most.  What is done by name uses a copy of its own; if that changes the stored totals, the copy in
hand is stale from then on and is let go.  It has to be loaded again before it is used.
Operations that only read are left out, as they change nothing (`Action.Reads`).
-/
import Accrual.Proofs.Ledger.Failure
import Accrual.Proofs.Ledger.Handle
import Accrual.Proofs.Ledger.Tidy
import Accrual.Session

namespace Accrual

/-! ### Runs -/

/-- A public operation that can change something. -/
inductive Call where
  | create (name : String)
  | load (name : String)
  /-- An operation through the copy in hand. -/
  | act (name : String) (step : Step)
  /-- An operation through a freshly loaded copy, which is not kept. -/
  | actByName (name : String) (step : Step)

/-- The arguments of an operation are within bounds, as those of its step are. -/
def Call.Over (D : Finset String) : Call → Prop
  | .create _ | .load _ => True
  | .act _ step | .actByName _ step => step.Over D

namespace Session

/-- Let go of the accumulator with a label. -/
def release (s : Session) (label : String) : Session :=
  { s with inHand := s.inHand.filter (·.1 ≠ label) }

/-- Let go of the accumulator `name` if its stored totals are not those of `before`. -/
def releaseStale (s before : Session) (name : String) : Session :=
  if s.records.find? (Key.accumulator name) = before.records.find? (Key.accumulator name) then s
  else s.release name

/-- The session after an operation, whether it succeeded or failed. -/
def serve (s : Session) : Call → Session
  | .create name => (s.hold name (Accumulator.create name)).2
  | .load name => (s.hold name (Accumulator.load name)).2
  | .act name step => (s.onLedger name (Ledger.perform step)).2
  | .actByName name step =>
    (s.onStore (Ledger.byName name (Ledger.perform step))).2.releaseStale s name

/-- The session after a run of operations. -/
def after (s : Session) (calls : List Call) : Session := calls.foldl serve s

theorem after_append (s : Session) (p q : List Call) : s.after (p ++ q) = (s.after p).after q :=
  List.foldl_append

/-! ### Copies in hand -/

theorem lookup_filter_ne {l : List (String × Accumulator)} {label label' : String}
    (h : label' ≠ label) : (l.filter (·.1 ≠ label)).lookup label' = l.lookup label' := by
  induction l with
  | nil => rfl
  | cons e l ih =>
    obtain ⟨k, a⟩ := e
    by_cases hk : k = label
    · have hk' : (label' == k) = false := beq_eq_false_iff_ne.mpr (hk ▸ h)
      rw [List.filter_cons_of_neg (by simpa using hk), ih, List.lookup_cons, hk']
    · rw [List.filter_cons_of_pos (by simpa using hk), List.lookup_cons, List.lookup_cons, ih]

theorem held?_give (s : Session) (label label' : String) (a : Accumulator) :
    (s.give label a).held? label' = if label' = label then some a else s.held? label' := by
  rw [held?, give, List.lookup_cons]
  split
  · next h => rw [if_pos (beq_iff_eq.mp h)]
  · next h =>
    rw [if_neg (beq_eq_false_iff_ne.mp h)]
    exact lookup_filter_ne (beq_eq_false_iff_ne.mp h)

theorem held?_release_self (s : Session) (label : String) :
    (s.release label).held? label = none := by
  rw [held?, release, List.lookup_eq_none_iff]
  intro e he
  rw [List.mem_filter] at he
  exact bne_iff_ne.mpr fun heq => of_decide_eq_true he.2 heq.symm

theorem held?_release_of_ne (s : Session) {label label' : String} (h : label' ≠ label) :
    (s.release label).held? label' = s.held? label' := lookup_filter_ne h

end Session

/-! ### Operations on an open store -/

namespace Accumulator

/-- What can be loaded from records. -/
theorem loaded_eq_ok {r : Records} {name : String} {a : Accumulator} :
    loaded r name = .ok a ↔
      Key.IsName name ∧ a.name = name ∧ r.totals? name = some a.toTotals := by
  obtain ⟨t', name'⟩ := a
  rw [loaded, Records.totals?]
  by_cases hname : Key.IsName name
  · rw [if_pos hname, and_iff_right hname]
    cases r.find? (Key.accumulator name) with
    | none => simp
    | some value =>
      rw [Option.bind_some]
      dsimp only
      cases Totals.decode? value with
      | none => simp
      | some t => simp [eq_comm, and_comm]
  · simp [hname]

theorem load_eq_ok {store store' : Store} (hr : store.Readable) {name : String} {a : Accumulator}
    (h : load name store = .ok a store') :
    store' = store ∧ a.name = name ∧ store.records.totals? name = some a.toTotals := by
  rw [load_apply hr, Action.ofResult_eq_ok, loaded_eq_ok] at h
  obtain ⟨⟨-, hname, htotals⟩, hstore⟩ := h
  exact ⟨hstore, hname, htotals⟩

theorem load_eq_ok_iff {store : Store} (hr : store.Readable) {name : String} {a : Accumulator} :
    load name store = .ok a store ↔
      Key.IsName name ∧ a.name = name ∧ store.records.totals? name = some a.toTotals := by
  rw [load_apply hr, Action.ofResult_eq_ok, and_iff_left rfl, loaded_eq_ok]

end Accumulator

/-- A loaded copy is current. -/
theorem Store.Tidy.isCurrent_of_load {D : Finset String} {store store' : Store} {name : String}
    {a : Accumulator} (h : store.Tidy D) (hload : Accumulator.load name store = .ok a store') :
    store' = store ∧ a.name = name ∧ (Ledger.mk a store).IsCurrent := by
  obtain ⟨hstore, hname, htotals⟩ := Accumulator.load_eq_ok h.writable.readable hload
  refine ⟨hstore, hname, ?_⟩
  rw [Ledger.IsCurrent, h.readBack_totals htotals, hname]
  exact htotals

namespace Session

variable {D : Finset String} {s s' : Session} {store store' : Store} {name : String}

theorem hold_eq (h : s.store = some store) (label : String) (act : Action Store Accumulator) :
    (s.hold label act).2 = match act store with
      | .ok a store' => { s with store := some store' }.give label a
      | .error _ store' => { s with store := some store' } := by
  simp only [hold, onStore, h]
  cases hact : act store <;> rfl

/-- A step through the copy in hand is a step of the ledger that it makes with the store. -/
theorem onLedger_eq (h : s.store = some store) {label : String} {a : Accumulator}
    (ha : s.held? label = some a) (step : Step) :
    (s.onLedger label (Ledger.perform step)).2 =
      { s.give label ((Ledger.mk a store).next step).accumulator with
        store := some ((Ledger.mk a store).next step).store } := by
  simp only [onLedger, Ledger.next, h, ha]
  cases Ledger.perform step ⟨a, store⟩ <;> rfl

theorem onLedger_of_not_held {α : Type} (h : s.store = some store) {label : String}
    (ha : s.held? label = none) (act : Action Ledger α) :
    s.onLedger label act = (.noHandle, s) := by
  simp only [onLedger, h, ha]

/-- A step by name is a step of the ledger that a loaded copy makes with the store. -/
theorem onStore_byName (h : s.store = some store) (name : String) (step : Step) :
    (s.onStore (Ledger.byName name (Ledger.perform step))).2 =
      match Accumulator.load name store with
      | .ok a _ => { s with store := some ((Ledger.mk a store).next step).store }
      | .error _ _ => s := by
  obtain ⟨r, hr⟩ := Accumulator.reads_load name store
  simp only [onStore, Ledger.byName, h, hr]
  cases r with
  | error e =>
    show { s with store := some store } = s
    rw [← h]
  | ok a =>
    simp only [Action.ofResult_ok, Ledger.next]
    cases Ledger.perform step ⟨a, store⟩ <;> rfl

/-! ### Tidy sessions -/

/-- The open store is tidy and every copy in hand is current. -/
structure Tidy (D : Finset String) (s : Session) (store : Store) : Prop where
  opened : s.store = some store
  tidy : store.Tidy D
  current : ∀ label a, s.held? label = some a → a.name = label ∧ (Ledger.mk a store).IsCurrent

/-- Copies of other accumulators stay current when the records of one accumulator change. -/
theorem Tidy.updated (h : s.Tidy D store) (hopened : s'.store = some store')
    (htidy : store'.Tidy D)
    (hother : ∀ other, Key.IsName other → other ≠ name →
      store.records.SameFor other store'.records)
    (hheld : ∀ label, label ≠ name → s'.held? label = s.held? label)
    (hname : ∀ a, s'.held? name = some a → a.name = name ∧ (Ledger.mk a store').IsCurrent) :
    s'.Tidy D store' where
  opened := hopened
  tidy := htidy
  current := by
    intro label a ha
    by_cases heq : label = name
    · subst heq
      exact hname a ha
    · rw [hheld label heq] at ha
      obtain ⟨rfl, hcurrent⟩ := h.current label a ha
      obtain ⟨bytes, hfind, -⟩ := Records.totals?_eq_some.mp hcurrent
      have hvalid : Key.IsName a.name := h.tidy.keyed.isName (by rw [hfind]; rfl)
      exact ⟨rfl, (hother a.name hvalid heq).totals?_eq.trans hcurrent⟩

theorem Tidy.create (hD : D.card < twoTo 64) (h : s.Tidy D store) (name : String) :
    ∃ store', (s.serve (.create name)).Tidy D store' ∧ store.Grows store' := by
  rw [serve, hold_eq h.opened]
  cases hcreate : Accumulator.create name store with
  | error e store' =>
    -- nothing was created, nothing is given a label
    obtain rfl := Accumulator.create_failsCleanly name store e store' hcreate
    exact ⟨store', ⟨rfl, h.tidy, h.current⟩, .refl _⟩
  | ok a store' =>
    obtain ⟨htidy, hname, hcurrent, hother, hgrows⟩ := h.tidy.create hD hcreate
    refine ⟨store', h.updated rfl htidy (fun other _ => hother other) (fun label hne => ?_)
      fun b hb => ?_, hgrows⟩
    · rw [held?_give, if_neg hne]
      rfl
    · rw [held?_give, if_pos rfl, Option.some.injEq] at hb
      subst hb
      exact ⟨hname, hcurrent⟩

theorem Tidy.load (h : s.Tidy D store) (name : String) :
    (s.serve (.load name)).Tidy D store := by
  rw [serve, hold_eq h.opened]
  cases hload : Accumulator.load name store with
  | error e store' =>
    obtain rfl := (Accumulator.reads_load name).failsCleanly store e store' hload
    exact ⟨rfl, h.tidy, h.current⟩
  | ok a store' =>
    obtain ⟨rfl, hname, hcurrent⟩ := h.tidy.isCurrent_of_load hload
    refine h.updated rfl h.tidy (fun other _ (_ : other ≠ name) => .refl _ _)
      (fun label hne => ?_) fun b hb => ?_
    · rw [held?_give, if_neg hne]
      rfl
    · rw [held?_give, if_pos rfl, Option.some.injEq] at hb
      subst hb
      exact ⟨hname, hcurrent⟩

theorem Tidy.act (hD : D.card < twoTo 64) (h : s.Tidy D store) (name : String) {step : Step}
    (hstep : step.Over D) :
    ∃ store', (s.serve (.act name step)).Tidy D store' ∧ store.Grows store' := by
  cases ha : s.held? name with
  | none =>
    rw [serve, onLedger_of_not_held h.opened ha]
    exact ⟨store, h, .refl _⟩
  | some a =>
    obtain ⟨hname, hcurrent⟩ := h.current name a ha
    obtain ⟨pool, hholds, horderly⟩ := h.tidy.holds_of_isCurrent hcurrent
    have hnext := hholds.next hD hstep
    rw [serve, onLedger_eq h.opened ha]
    refine ⟨_, h.updated rfl (h.tidy.next (l := ⟨a, store⟩) hD hholds horderly hstep)
      (fun other hother hne => hholds.sameFor_next hother (hname ▸ hne) step)
      (fun label hne => ?_) fun b hb => ?_, h.tidy.grows_next (l := ⟨a, store⟩) hD hholds hstep⟩
    · exact (held?_give ..).trans (if_neg hne)
    · obtain rfl : _ = b := Option.some.inj ((held?_give ..).trans (if_pos rfl) |>.symm.trans hb)
      refine ⟨?_, hnext.isCurrent⟩
      rw [hnext.inHand, pool.name_next step, ← hholds.inHand, hname]

theorem Tidy.actByName (hD : D.card < twoTo 64) (h : s.Tidy D store) (name : String) {step : Step}
    (hstep : step.Over D) :
    ∃ store', (s.serve (.actByName name step)).Tidy D store' ∧ store.Grows store' := by
  rw [serve, onStore_byName h.opened]
  cases hload : Accumulator.load name store with
  | error e store' =>
    simp only [releaseStale, if_true]
    exact ⟨store, h, .refl _⟩
  | ok a store' =>
    obtain ⟨-, hname, hcurrent⟩ := h.tidy.isCurrent_of_load hload
    obtain ⟨pool, hholds, horderly⟩ := h.tidy.holds_of_isCurrent hcurrent
    have htidy := h.tidy.next (l := ⟨a, store⟩) hD hholds horderly hstep
    have hother (other : String) (hvalid : Key.IsName other) (hne : other ≠ name) :=
      hholds.sameFor_next hvalid (hname ▸ hne) step
    refine ⟨_, ?_, h.tidy.grows_next (l := ⟨a, store⟩) hD hholds hstep⟩
    simp only [releaseStale]
    split
    · next hsame =>
      -- the stored totals are the same, so the copy in hand is still current
      refine h.updated rfl htidy hother (fun label _ => rfl) fun b hb => ?_
      obtain ⟨hlabel, hb⟩ := h.current name b hb
      refine ⟨hlabel, ?_⟩
      rw [Ledger.IsCurrent, hlabel, Records.totals?] at hb ⊢
      rw [records, records, h.opened] at hsame
      rw [← hb]
      exact congrArg (Option.bind · Totals.decode?) hsame
    · refine h.updated rfl htidy hother (fun label hne => held?_release_of_ne _ hne) fun b hb => ?_
      rw [held?_release_self] at hb
      cases hb

/-! ### Runs of tidy sessions -/

/-- An operation keeps a session tidy and lowers no value per share. -/
theorem Tidy.serve (hD : D.card < twoTo 64) (h : s.Tidy D store) {call : Call}
    (hcall : call.Over D) : ∃ store', (s.serve call).Tidy D store' ∧ store.Grows store' := by
  cases call with
  | create name => exact h.create hD name
  | load name => exact ⟨store, h.load name, .refl _⟩
  | act name step => exact h.act hD name hcall
  | actByName name step => exact h.actByName hD name hcall

theorem Tidy.after (hD : D.card < twoTo 64) (h : s.Tidy D store) {calls : List Call}
    (hcalls : ∀ call ∈ calls, call.Over D) :
    ∃ store', (s.after calls).Tidy D store' ∧ store.Grows store' := by
  induction calls generalizing s store with
  | nil => exact ⟨store, h, .refl _⟩
  | cons call calls ih =>
    obtain ⟨store₁, h₁, hgrows₁⟩ := h.serve hD (hcalls call List.mem_cons_self)
    obtain ⟨store₂, h₂, hgrows₂⟩ := ih h₁ fun call' hcall' =>
      hcalls call' (List.mem_cons_of_mem call hcall')
    exact ⟨store₂, h₂, hgrows₁.trans hgrows₂⟩

/-- A session with an empty store and nothing in hand. -/
theorem tidy_ofStore (hw : store.Writable) (hempty : store.records = .empty) :
    (ofStore store).Tidy D store where
  opened := rfl
  tidy := Store.tidy_of_empty hw hempty
  current := fun _ _ h => nomatch h

end Session

end Accrual
