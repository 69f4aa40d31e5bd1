/-
A ledger and the pool behind it.

* `Ledger.Holds D l pool` — the store of `l` takes writes, its records are those of `pool`, and
  the accumulator in hand is that of `pool`;
* `Holds.answer`, `Holds.next`, `Holds.after` — steps on the ledger are steps on the pool;
* `Holds.positions_apply`, `Holds.position_apply`, `Holds.load_apply` — what can be read of a
  ledger is what the pool says;
* `find?_commit` — what is stored at a key after a change;
* `Ledger.IsNew` — a ledger whose accumulator was just created;
* `holds_of_isNew` — behind a new ledger is an empty pool;
* `Ledger.fresh` — the new ledger of an empty store in memory.

Every statement about runs is proved on the pool and carried over here.
-/
import Accrual.Proofs.Ledger.Pool

namespace Accrual

namespace Ledger

/-- The answer to a step. -/
def answer (l : Ledger) (step : Step) : Except Error Outcome :=
  match perform step l with
  | .ok outcome _ => .ok outcome
  | .error e _ => .error e

/-- The records of the positions of the accumulator in hand. -/
def records (l : Ledger) : List (Bytes × Bytes) :=
  l.store.records.entries.filter fun e => (Key.positions l.accumulator.name).isPrefixOf e.1

/-- The records of a ledger are those of a pool. -/
structure Holds (D : Finset String) (l : Ledger) (pool : Pool) : Prop where
  writable : l.store.Writable
  named : Key.IsName l.accumulator.name
  inHand : l.accumulator = pool.accumulator
  totals : ∃ bytes, l.store.records.find? (Key.accumulator l.accumulator.name) = some bytes ∧
    Totals.decode? bytes = some l.accumulator.toTotals.readBack
  positions : OrderedMap.Corresponds (Key.positions l.accumulator.name ++ ·)
    (fun bytes p => Position.decode? bytes = some p) l.records pool.positions
  sound : pool.Sound D

variable {D : Finset String} {l : Ledger} {pool : Pool}

/-! ### Reading -/

theorem Holds.slot_eq (h : l.Holds D pool) (index : String) : l.slot index = pool.slot index := by
  have hrel := h.positions.find? (fun a b => List.append_right_inj _) (Bytes.ofString index)
  have hfind := OrderedMap.find?_filter (ν := Bytes)
    (fun k => (Key.positions l.accumulator.name).isPrefixOf k) l.store.records.entries
    (Key.isPrefixOf_position l.accumulator.name index)
  rw [slot, Pool.slot, Pool.find?, Records.find?, ← hfind]
  revert hrel
  show Option.Rel _ (OrderedMap.find? l.records (Key.position l.accumulator.name index)) _ →
    Option.map _ (OrderedMap.find? l.records (Key.position l.accumulator.name index)) = _
  generalize OrderedMap.find? l.records (Key.position l.accumulator.name index) = x
  generalize OrderedMap.find? pool.positions (Bytes.ofString index) = y
  intro hrel
  cases hrel with
  | none => rfl
  | some hread => exact congrArg some hread

/-- A position is read as the pool has it. -/
theorem Holds.position_apply (h : l.Holds D pool) (index : String) :
    position index l = match pool.find? index with
      | some p => .ok p l
      | none => .error (.positionNotFound l.accumulator.name index) l := by
  rw [Ledger.position_apply h.writable.readable, h.slot_eq, Pool.slot]
  cases pool.find? index <;> rfl

theorem mapM_positionOfRecord {name : String} {records : List (Bytes × Bytes)}
    {ps : List (Bytes × Position)}
    (h : OrderedMap.Corresponds (Key.positions name ++ ·)
      (fun bytes p => Position.decode? bytes = some p) records ps)
    (hindices : ∀ e ∈ ps, ∃ index, Key.IsIndex index ∧ e.1 = Bytes.ofString index) :
    records.mapM (positionOfRecord name)
      = .ok (ps.map fun e => ((Bytes.toString? e.1).getD "", e.2)) := by
  induction h with
  | nil => rfl
  | @cons r e records ps hr _ ih =>
    obtain ⟨index, -, he⟩ := hindices e List.mem_cons_self
    have hkey : Key.index? name r.1 = some index := by
      rw [hr.1, he]
      exact Key.index?_position name index
    have hrecord : positionOfRecord name r = .ok (index, e.2) := by
      rw [positionOfRecord, hkey, hr.2]
    have hrest := ih fun e' he' => hindices e' (List.mem_cons_of_mem e he')
    rw [List.mapM_cons, hrecord, hrest, List.map_cons, he, Bytes.toString?_ofString]
    rfl

/-- The positions are listed as the pool has them. -/
theorem Holds.positions_apply (h : l.Holds D pool) : Ledger.positions l = .ok pool.listing l := by
  simp only [Ledger.positions, Action.bind_apply, Action.get_apply, Action.onStore, Store.list]
  rw [Store.scan_of_writable h.writable]
  simp only [Action.ofStore, Action.pure_apply]
  rw [show (l.store.records.entries.filter fun e =>
      (Key.positions l.accumulator.name).isPrefixOf e.1) = l.records from rfl,
    mapM_positionOfRecord h.positions h.sound.indices]
  rfl

/-- A loaded accumulator is the one in hand, as it is read back. -/
theorem Holds.load_apply (h : l.Holds D pool) :
    Accumulator.load l.accumulator.name l.store
      = .ok { l.accumulator with toTotals := l.accumulator.toTotals.readBack } l.store := by
  obtain ⟨bytes, hfind, hdecode⟩ := h.totals
  simp only [Accumulator.load, Accumulator.checkName, if_pos h.named, Action.bind_apply,
    Action.pure_apply, Store.read, Action.get_apply]
  rw [Store.lookup_of_writable h.writable, hfind]
  simp only [Action.ofStore, Action.pure_apply, hdecode]

/-! ### Writing -/

theorem records_placed (hD : D.card < twoTo 64) (h : l.Holds D pool) {index : String} {c : Change}
    (hc : c.Sound D index) :
    OrderedMap.Corresponds (Key.positions l.accumulator.name ++ ·)
      (fun bytes p => Position.decode? bytes = some p)
      ((placed l.accumulator.name index l.store.records c.position).entries.filter fun e =>
        (Key.positions l.accumulator.name).isPrefixOf e.1)
      (Pool.placed pool.positions index c.position) := by
  have hpos := Key.isPrefixOf_position l.accumulator.name index
  cases hp : c.position with
  | none => exact h.positions
  | some o =>
    cases o with
    | none =>
      show OrderedMap.Corresponds _ _ ((OrderedMap.erase l.store.records.entries
        (Key.position l.accumulator.name index)).filter _) _
      rw [OrderedMap.filter_erase (fun k => (Key.positions l.accumulator.name).isPrefixOf k),
        if_pos hpos]
      exact h.positions.erase (fun a b => List.append_right_inj _) (Bytes.ofString index)
    | some p =>
      have hread := Position.decode?_encode_over (hc.position p hp).1 hD
      show OrderedMap.Corresponds _ _ ((OrderedMap.insert l.store.records.entries
        (Key.position l.accumulator.name index) p.encode).filter _) _
      rw [OrderedMap.filter_insert (fun k => (Key.positions l.accumulator.name).isPrefixOf k)
        l.store.records.ascending, if_pos hpos]
      exact h.positions.insert (fun a b => List.append_right_inj _)
        (fun a b => Bytes.append_lt_append_iff _ a b) (Bytes.ofString index) hread

theorem find?_placed (name index name' : String) (r : Records) (o : Option (Option Position)) :
    (placed name index r o).find? (Key.accumulator name') = r.find? (Key.accumulator name') := by
  have hne := Key.position_ne_accumulator name index name'
  rcases o with _ | _ | p
  · rfl
  · rw [placed, Records.find?_erase, if_neg hne]
  · rw [placed, Records.find?_insert, if_neg hne]

theorem records_totalled (name name' : String) (r : Records) (t : Option Totals) :
    (totalled name r t).entries.filter (fun e => (Key.positions name').isPrefixOf e.1)
      = r.entries.filter fun e => (Key.positions name').isPrefixOf e.1 := by
  cases t with
  | none => rfl
  | some t =>
    show (OrderedMap.insert r.entries _ _).filter _ = _
    rw [OrderedMap.filter_insert (fun k => (Key.positions name').isPrefixOf k) r.ascending,
      if_neg (by rw [Key.not_isPrefixOf_accumulator]; decide)]

theorem name_commit (l : Ledger) (index : String) (c : Change) :
    (l.commit index c).accumulator.name = l.accumulator.name := rfl

theorem records_commit (l : Ledger) (index : String) (c : Change) :
    (l.commit index c).store.records
      = totalled l.accumulator.name (placed l.accumulator.name index l.store.records c.position)
          c.totals := Store.records_withRecords ..

/-- What is stored at a key after a change. -/
theorem find?_commit (l : Ledger) (index : String) (c : Change) (key : Bytes) :
    (l.commit index c).store.records.find? key =
      if key = Key.accumulator l.accumulator.name then
        c.totals.elim (l.store.records.find? key) fun t => some t.encode
      else if key = Key.position l.accumulator.name index then
        c.position.elim (l.store.records.find? key) fun o => o.map Position.encode
      else l.store.records.find? key := by
  have hplaced : (placed l.accumulator.name index l.store.records c.position).find? key =
      if key = Key.position l.accumulator.name index then
        c.position.elim (l.store.records.find? key) fun o => o.map Position.encode
      else l.store.records.find? key := by
    rcases c.position with _ | _ | p
    · rw [placed, Option.elim_none, ite_self]
    · rw [placed, Records.find?_erase, Option.elim_some, Option.map_none]
      simp only [eq_comm]
    · rw [placed, Records.find?_insert, Option.elim_some, Option.map_some]
      simp only [eq_comm]
  rw [records_commit]
  by_cases hkey : key = Key.accumulator l.accumulator.name
  · subst hkey
    rw [if_pos rfl]
    cases c.totals with
    | none => exact find?_placed ..
    | some t => rw [totalled, Records.find?_insert, if_pos rfl, Option.elim_some]
  · rw [if_neg hkey, ← hplaced]
    cases c.totals with
    | none => rfl
    | some t => rw [totalled, Records.find?_insert, if_neg (Ne.symm hkey)]

theorem totals_commit (hD : D.card < twoTo 64) (h : l.Holds D pool) {index : String} {c : Change}
    (hc : c.Sound D index) :
    ∃ bytes, (l.commit index c).store.records.find?
        (Key.accumulator l.accumulator.name) = some bytes ∧
      Totals.decode? bytes = some (c.totals.getD l.accumulator.toTotals).readBack := by
  rw [find?_commit, if_pos rfl]
  cases ht : c.totals with
  | none => exact h.totals
  | some t =>
    exact ⟨t.encode, rfl, Totals.decode?_encode_over (hc.totals t ht) hD⟩

theorem Holds.commit (hD : D.card < twoTo 64) (h : l.Holds D pool) {index : String} {c : Change}
    (hc : c.Sound D index) : (l.commit index c).Holds D (pool.commit index c) where
  writable := writable_commit h.writable index c
  named := h.named
  inHand := by rw [Ledger.commit, Pool.commit, h.inHand]
  totals := totals_commit hD h hc
  positions := by
    rw [records, name_commit, records_commit, records_totalled]
    exact records_placed hD h hc
  sound := h.sound.commit hc

/-! ### Steps -/

variable {step : Step} {steps : List Step}

theorem Holds.perform_apply (h : l.Holds D pool) (step : Step) :
    perform step l = carryOut l step.index (pool.plan step) := by
  rw [perform_eq_plan h.writable, h.slot_eq, Pool.plan, h.inHand]

/-- The pool answers as the ledger does. -/
theorem Holds.answer (h : l.Holds D pool) (step : Step) : l.answer step = pool.answer step := by
  rw [Ledger.answer, h.perform_apply, Pool.answer]
  cases pool.plan step <;> rfl

theorem Holds.next (hD : D.card < twoTo 64) (h : l.Holds D pool) (hstep : step.Over D) :
    (l.next step).Holds D (pool.next step) := by
  rw [Ledger.next, h.perform_apply]
  cases hplan : pool.plan step with
  | error e =>
    -- a failure is found out before anything is written
    rw [Pool.next_of_error hplan]
    exact h
  | ok r =>
    rw [Pool.next_of_plan hplan]
    exact h.commit hD (h.sound.change hstep hplan)

theorem Holds.after (hD : D.card < twoTo 64) (h : l.Holds D pool)
    (hsteps : ∀ step ∈ steps, step.Over D) : (l.after steps).Holds D (pool.after steps) := by
  induction steps generalizing l pool with
  | nil => exact h
  | cons step steps ih =>
    exact ih (h.next hD (hsteps step List.mem_cons_self))
      fun step' hstep' => hsteps step' (List.mem_cons_of_mem step hstep')

/-! ### New ledgers -/

/-- The accumulator in hand was just created, in a store without positions of its name. -/
def IsNew (l : Ledger) : Prop :=
  ∃ store, Accumulator.create l.accumulator.name store = .ok l.accumulator l.store ∧
    ∀ e ∈ store.records.entries, (Key.positions l.accumulator.name).isPrefixOf e.1 = false

theorem create_eq_ok {name : String} {store store' : Store} {a : Accumulator}
    (h : Accumulator.create name store = .ok a store') :
    Key.IsName name ∧ store.contains (Key.accumulator name) = .ok false ∧
      a = { toTotals := .zero, name } ∧
      store.insert (Key.accumulator name) Totals.zero.encode = .ok store' := by
  simp only [Accumulator.create, Accumulator.exists?, Accumulator.checkName, Action.bind_apply] at h
  by_cases hname : Key.IsName name
  · simp only [if_pos hname, Action.pure_apply, Store.holds, Action.bind_apply,
      Action.get_apply] at h
    cases hcontains : store.contains (Key.accumulator name) with
    | error e =>
      rw [hcontains] at h
      cases h
    | ok b =>
      rw [hcontains] at h
      cases b with
      | true => cases h
      | false =>
        simp only [Action.ofStore, Action.pure_apply, Bool.false_eq_true, if_false, Store.write,
          Action.bind_apply, Action.get_apply] at h
        cases hinsert : store.insert (Key.accumulator name) Totals.zero.encode with
        | error e =>
          rw [hinsert] at h
          cases h
        | ok s =>
          rw [hinsert] at h
          cases h
          exact ⟨hname, rfl, rfl, rfl⟩
  · simp only [if_neg hname, Action.throw_apply] at h
    cases h

/-- Behind a new ledger is an empty pool. -/
theorem holds_of_isNew (hD : D.card < twoTo 64) (h : l.IsNew) :
    l.Holds D (.new l.accumulator.name) := by
  obtain ⟨store, hcreate, hnone⟩ := h
  obtain ⟨hname, -, ha, hinsert⟩ := create_eq_ok hcreate
  have hwritable := Store.writable_of_insert hinsert
  rw [Store.insert_of_writable hwritable, Except.ok.injEq] at hinsert
  have hrecords : l.store.records
      = store.records.insert (Key.accumulator l.accumulator.name) Totals.zero.encode := by
    rw [← hinsert, Store.records_withRecords]
  refine
    { writable := hinsert ▸ Store.writable_withRecords hwritable _
      named := hname
      inHand := ha
      totals := ⟨Totals.zero.encode, ?_, ?_⟩
      positions := ?_
      sound := Pool.sound_new l.accumulator.name }
  · rw [hrecords, Records.find?_insert, if_pos rfl]
  · rw [Totals.decode?_encode_over (t := .zero) Rewards.over_empty hD, ha]
  · -- the record of the totals is the only one of this accumulator
    rw [records, hrecords]
    show OrderedMap.Corresponds _ _ ((OrderedMap.insert _ _ _).filter _) _
    rw [OrderedMap.filter_insert (fun k => (Key.positions l.accumulator.name).isPrefixOf k)
      store.records.ascending, if_neg (by rw [Key.not_isPrefixOf_accumulator]; decide),
      List.filter_eq_nil_iff.mpr fun e he => by rw [hnone e he]; decide]
    exact .nil

/-- The ledger of an accumulator created in an empty store in memory. -/
def fresh (name : String) : Ledger where
  accumulator := { toTotals := .zero, name }
  store := .memory (Records.empty.insert (Key.accumulator name) Totals.zero.encode)

theorem isNew_fresh {name : String} (h : Key.IsName name) : (fresh name).IsNew := by
  refine ⟨.memory .empty, ?_, fun e he => absurd he List.not_mem_nil⟩
  show Accumulator.create name (.memory .empty) = .ok (fresh name).accumulator (fresh name).store
  simp only [Accumulator.create, Accumulator.exists?, Accumulator.checkName,
    Action.bind_apply, if_pos h, Action.pure_apply, Store.holds, Action.get_apply]
  rfl

end Ledger

end Accrual
