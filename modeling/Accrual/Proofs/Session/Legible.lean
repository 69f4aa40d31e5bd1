/-
Every record can be read, whatever was done before.

* `IsRecord D` — the record of an accumulator or of a position;
* `Accumulator.Over D` — an accumulator with a name it can have and a value over `D`;
* `Store.Legible D`, `Ledger.Legible D`, `Session.Legible D` — a store that takes writes, with
  nothing but such records, and such accumulators in hand beside it;
* `Ledger.Legible.commit`, `Ledger.Legible.use` — whatever is done with an accumulator in hand, the
  store stays legible;
* `Store.Legible.create`, `Store.Legible.byName` — and so it does when one is created, or loaded
  anew;
* `Session.Legible.respond`, `Session.Legible.served` — so it does through a run of requests.

Design notes.  The accumulator in hand need not be the one that is stored, and nothing is said of
what the labels stand for.  What a step writes can be read because its arguments, the value in hand
and the position it found could be written, and none of this compares the copy in hand with the
records.
-/
import Accrual.Proofs.Session.Isolation

namespace Accrual

variable {D : Finset String}

/-! ### Records that can be read -/

/-- A record that can be read: that of an accumulator, or that of a position. -/
inductive IsRecord (D : Finset String) (key value : Bytes) : Prop
  | totals {name : String} {t : Totals} (hname : Key.IsName name)
    (hkey : key = Key.accumulator name) (hread : Totals.decode? value = some t)
    (hvalue : t.valuePerShare.Over D)
  | position {name index : String} {p : Position} (hname : Key.IsName name)
    (hindex : Key.IsIndex index) (hkey : key = Key.position name index)
    (hread : Position.decode? value = some p) (hover : p.Over D)

namespace IsRecord

variable {key value : Bytes} {name index : String}

theorem of_totals (hD : D.card < twoTo 64) (hname : Key.IsName name) {t : Totals}
    (ht : t.valuePerShare.Over D) : IsRecord D (Key.accumulator name) t.encode :=
  .totals hname rfl (Totals.decode?_encode_over ht hD) ht

theorem of_position (hD : D.card < twoTo 64) (hname : Key.IsName name)
    (hindex : Key.IsIndex index) {p : Position} (hp : p.Over D) :
    IsRecord D (Key.position name index) p.encode :=
  .position hname hindex rfl (Position.decode?_encode_over hp hD)
    ⟨hp.snapshot, hp.unclaimed, hp.options⟩

/-- Among the accumulators there are totals only. -/
theorem totals_of_isPrefixOf (h : IsRecord D key value)
    (hkey : Key.accumulators.isPrefixOf key = true) :
    ∃ name t, Key.IsName name ∧ key = Key.accumulator name ∧ Totals.decode? value = some t ∧
      t.valuePerShare.Over D := by
  cases h with
  | totals hname heq hread hvalue => exact ⟨_, _, hname, heq, hread, hvalue⟩
  | position _ _ heq =>
    rw [heq, Key.not_isPrefixOf_position] at hkey
    cases hkey

/-- Among the positions of an accumulator there are no others. -/
theorem position_of_isPrefixOf (h : IsRecord D key value) (hname : Key.IsName name)
    (hkey : (Key.positions name).isPrefixOf key = true) :
    ∃ index p, key = Key.position name index ∧ Position.decode? value = some p ∧ p.Over D := by
  cases h with
  | totals _ heq =>
    rw [heq, Key.not_isPrefixOf_accumulator] at hkey
    cases hkey
  | position hname' _ heq hread hover =>
    rw [heq] at hkey
    obtain rfl := Key.eq_of_isPrefixOf_position hname hname' hkey
    exact ⟨_, _, heq, hread, hover⟩

end IsRecord

/-! ### Legible stores -/

/-- Every record can be read. -/
def Records.Legible (D : Finset String) (r : Records) : Prop :=
  ∀ key value, r.find? key = some value → IsRecord D key value

namespace Records.Legible

variable {r : Records} {name index : String} {value : Bytes}

theorem over_of_totals (h : r.Legible D) {t : Totals} (ht : r.totals? name = some t) :
    t.valuePerShare.Over D := by
  obtain ⟨value, hfind, hread⟩ := Records.totals?_eq_some.mp ht
  obtain ⟨-, t', -, -, hread', hvalue⟩ :=
    (h _ _ hfind).totals_of_isPrefixOf (Bytes.isPrefixOf_append ..)
  obtain rfl : t = t' := Option.some.inj (hread.symm.trans hread')
  exact hvalue

/-- What is found at a position was written as one. -/
theorem exists_position (h : r.Legible D) (hname : Key.IsName name)
    (hfind : r.find? (Key.position name index) = some value) :
    ∃ p, Position.decode? value = some p ∧ p.Over D := by
  obtain ⟨-, p, -, hread, hover⟩ :=
    (h _ _ hfind).position_of_isPrefixOf hname (Key.isPrefixOf_position name index)
  exact ⟨p, hread, hover⟩

theorem over_of_position (h : r.Legible D) (hname : Key.IsName name)
    (hfind : r.find? (Key.position name index) = some value) {p : Position}
    (hread : Position.decode? value = some p) : p.Over D := by
  obtain ⟨q, hread', hover⟩ := h.exists_position hname hfind
  obtain rfl : p = q := Option.some.inj (hread.symm.trans hread')
  exact hover

end Records.Legible

/-- An accumulator with a name it can have and a value over `D`. -/
structure Accumulator.Over (D : Finset String) (a : Accumulator) : Prop where
  named : Key.IsName a.name
  value : a.valuePerShare.Over D

/-- A store that takes writes and in which every record can be read. -/
structure Store.Legible (D : Finset String) (s : Store) : Prop where
  writable : s.Writable
  records : s.records.Legible D

/-- A legible store with an accumulator in hand, whether or not this is the stored one. -/
structure Ledger.Legible (D : Finset String) (l : Ledger) : Prop where
  inHand : l.accumulator.Over D
  store : l.store.Legible D

/-- The arguments of a use are bounded like those of a step. -/
def Use.Bounded (D : Finset String) : Use → Prop
  | .step operation => operation.Over D
  | .query _ => True

namespace Store

variable {s : Store} {name : String} {a : Accumulator}

theorem legible_of_empty (hw : s.Writable) (hempty : s.records = .empty) : s.Legible D :=
  ⟨hw, fun key value h => by
    rw [hempty] at h
    cases h⟩

theorem Legible.over_of_load (h : s.Legible D)
    (hload : (Accumulator.load name).answer s = .ok a) : a.Over D := by
  rw [Action.answer_of_eq (Accumulator.load_apply h.writable.readable name)] at hload
  obtain ⟨hname, rfl, htotals⟩ := Accumulator.loaded_eq_ok.mp hload
  exact ⟨hname, h.records.over_of_totals htotals⟩

theorem Legible.over_of_create (hcreate : (Accumulator.create name).answer s = .ok a) :
    a.Over D := by
  rw [Action.answer] at hcreate
  split at hcreate
  · next b s' hb =>
    cases hcreate
    obtain ⟨hname, -, rfl, -⟩ := Ledger.create_eq_ok hb
    exact ⟨hname, Rewards.over_empty⟩
  · cases hcreate

theorem Legible.create (hD : D.card < twoTo 64) (h : s.Legible D) (name : String) :
    ((Accumulator.create name).final s).Legible D := by
  rw [Action.final, Accumulator.create_apply h.writable]
  by_cases hname : Key.IsName name
  · by_cases htaken : (s.records.find? (Key.accumulator name)).isSome = true
    · rw [if_pos hname, if_pos htaken]
      exact h
    · rw [if_pos hname, if_neg htaken]
      refine ⟨writable_withRecords h.writable _, fun key value hfind => ?_⟩
      rw [records_withRecords, Records.find?_insert] at hfind
      split at hfind
      · next heq =>
        cases hfind
        exact heq ▸ .of_totals hD hname Rewards.over_empty
      · exact h.records key value hfind
  · rw [if_neg hname]
    exact h

end Store

namespace Ledger

variable {l : Ledger} {index : String} {c : Change} {u : Use} {answer : Answer}

theorem Legible.over_of_slot (h : l.Legible D) {p : Position}
    (hslot : l.slot index = some (some p)) : p.Over D := by
  obtain ⟨bytes, hfind, hread⟩ := Option.map_eq_some_iff.mp hslot
  exact h.store.records.over_of_position h.inHand.named hfind hread

theorem Legible.commit (hD : D.card < twoTo 64) (h : l.Legible D) (hc : c.Sound D index) :
    (l.commit index c).Legible D where
  inHand := by
    refine ⟨h.inHand.named, ?_⟩
    show (c.totals.getD l.accumulator.toTotals).valuePerShare.Over D
    cases ht : c.totals with
    | none => exact h.inHand.value
    | some t => exact hc.totals t ht
  store := by
    refine ⟨writable_commit h.store.writable index c, fun key value hfind => ?_⟩
    rw [find?_commit] at hfind
    split at hfind
    · next hkey =>
      cases ht : c.totals with
      | none =>
        rw [ht] at hfind
        exact h.store.records key value hfind
      | some t =>
        rw [ht] at hfind
        cases hfind
        exact hkey ▸ .of_totals hD h.inHand.named (hc.totals t ht)
    · split at hfind
      · next hkey =>
        rcases hp : c.position with _ | _ | p <;> rw [hp] at hfind
        · exact h.store.records key value hfind
        · cases hfind
        · cases hfind
          obtain ⟨hover, -, hindex⟩ := hc.position p hp
          exact hkey ▸ .of_position hD h.inHand.named hindex hover
      · exact h.store.records key value hfind

theorem Legible.sound_of_resolve (h : l.Legible D) (hu : u.Bounded D)
    (hresolve : l.resolve u = .ok (answer, c)) : c.Sound D u.index := by
  cases u with
  | query query =>
    obtain ⟨r, -, heq⟩ := Accumulator.map_eq_ok.mp hresolve
    cases heq
    exact ⟨nofun, nofun⟩
  | step step =>
    obtain ⟨⟨outcome, c'⟩, hplan, heq⟩ := Accumulator.map_eq_ok.mp hresolve
    cases heq
    exact (Accumulator.planned_of_plan hplan).sound h.inHand.value (fun _ => h.over_of_slot) hu

/-- Whatever is done with the accumulator in hand, every record can be read afterwards. -/
theorem Legible.use (hD : D.card < twoTo 64) (h : l.Legible D) (hu : u.Bounded D) :
    ((use u).final l).Legible D := by
  rw [final_of_carryOut (use_eq_resolve h.store.writable u)]
  cases hresolve : l.resolve u with
  | error e => exact h
  | ok r => exact h.commit hD (h.sound_of_resolve hu hresolve)

end Ledger

/-- Whatever is done with a loaded copy, every record can be read afterwards. -/
theorem Store.Legible.byName (hD : D.card < twoTo 64) {s : Store} (h : s.Legible D)
    (name : String) {u : Use} (hu : u.Bounded D) :
    ((Ledger.byName name (Ledger.use u)).final s).Legible D := by
  have hload := (Accumulator.reads_load name).apply s
  cases ha : (Accumulator.load name).answer s with
  | error e =>
    rw [ha] at hload
    rw [Action.final_of_eq (r := .error e) (Ledger.byName_of_not_load hload _)]
    exact h
  | ok a =>
    rw [ha] at hload
    rw [(Ledger.byName_of_load hload (Ledger.use u)).2]
    exact (Ledger.Legible.use (l := ⟨a, s⟩) hD ⟨h.over_of_load ha, h⟩ hu).store

/-! ### Sessions -/

namespace Session

/-- The arguments of an operation are bounded like those of a step. -/
def Operation.Bounded (D : Finset String) : Operation → Prop
  | .act _ u | .actByName u => u.Bounded D
  | .exists? | .create _ | .load _ | .createOnly => True

/-- A session with a legible store, and with accumulators in hand under whatever labels. -/
structure Legible (D : Finset String) (s : Session) : Prop where
  stored : ∃ store, s.store = some store ∧ store.Legible D
  inHand : ∀ label a, s.held? label = some a → a.Over D

variable {s : Session} {label : String}

theorem Legible.give (h : s.Legible D) {a : Accumulator} (ha : a.Over D) {store : Store}
    (hstore : store.Legible D) : Legible D { s.give label a with store := some store } where
  stored := ⟨store, rfl, hstore⟩
  inHand := by
    intro label' b hb
    have hheld := held?_give s label label' a
    rw [show (s.give label a).held? label' = some b from hb] at hheld
    split at hheld
    · cases hheld
      exact ha
    · exact h.inHand label' b hheld.symm

theorem Legible.onStore {α : Type} (h : s.Legible D) {act : Action Store α}
    (hact : ∀ store, store.Legible D → (act.final store).Legible D) :
    (s.onStore act).2.Legible D := by
  obtain ⟨store, hstore, hlegible⟩ := h.stored
  rw [onStore_eq hstore]
  exact ⟨⟨_, rfl, hact store hlegible⟩, h.inHand⟩

theorem Legible.hold (h : s.Legible D) {act : Action Store Accumulator}
    (hact : ∀ store, store.Legible D → (act.final store).Legible D)
    (hkept : ∀ store a, store.Legible D → act.answer store = .ok a → a.Over D) :
    (s.hold label act).2.Legible D := by
  obtain ⟨store, hstore, hlegible⟩ := h.stored
  rw [hold_eq_keep hstore]
  cases hanswer : act.answer store with
  | error e => exact ⟨⟨_, rfl, hact store hlegible⟩, h.inHand⟩
  | ok a => exact h.give (hkept store a hlegible hanswer) (hact store hlegible)

theorem Legible.onLedger (hD : D.card < twoTo 64) (h : s.Legible D) {u : Use} (hu : u.Bounded D) :
    (s.onLedger label (Ledger.use u)).2.Legible D := by
  obtain ⟨store, hstore, hlegible⟩ := h.stored
  cases ha : s.held? label with
  | none =>
    rw [onLedger_of_not_held hstore ha]
    exact h
  | some a =>
    rw [onLedger_of_held hstore ha]
    have huse := Ledger.Legible.use (l := ⟨a, store⟩) hD ⟨h.inHand label a ha, hlegible⟩ hu
    exact h.give huse.inHand huse.store

theorem Legible.respond (hD : D.card < twoTo 64) (h : s.Legible D) {r : Request}
    (hr : r.operation.Bounded D) : (s.respond r).2.Legible D := by
  obtain ⟨name, operation⟩ := r
  -- looking an accumulator up leaves the store as it is
  have hexists := (Accumulator.reads_exists? name).final_eq
  have hload := (Accumulator.reads_load name).final_eq
  have hcreate := fun store (hstore : Store.Legible D store) => hstore.create hD name
  cases operation with
  | exists? => exact h.onStore fun store hstore => (hexists store).symm ▸ hstore
  | create label => exact h.hold hcreate fun _ _ _ => Store.Legible.over_of_create
  | load label =>
    exact h.hold (fun store hstore => (hload store).symm ▸ hstore) fun _ _ hstore =>
      hstore.over_of_load
  | createOnly => exact h.onStore hcreate
  | act label u => exact h.onLedger hD hr
  | actByName u => exact h.onStore fun _ hstore => hstore.byName hD name hr

theorem Legible.served (hD : D.card < twoTo 64) (h : s.Legible D) {run : List Request}
    (hrun : ∀ r ∈ run, r.operation.Bounded D) : (s.served run).Legible D := by
  induction run generalizing s with
  | nil => exact h
  | cons r run ih =>
    exact ih (h.respond hD (hrun r List.mem_cons_self)) fun r' hr' =>
      hrun r' (List.mem_cons_of_mem r hr')

theorem legible_ofStore {store : Store} (hw : store.Writable) (hempty : store.records = .empty) :
    (ofStore store).Legible D :=
  ⟨⟨store, rfl, Store.legible_of_empty hw hempty⟩, nofun⟩

end Session

end Accrual
