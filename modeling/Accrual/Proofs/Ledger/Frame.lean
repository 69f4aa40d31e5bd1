/-
Several accumulators in one store.

* `Records.SameFor name` — two stores have the same records of one accumulator;
* `sameFor_commit` — a change through one accumulator leaves the records of any other alone;
* `Holds.frame` — what a ledger holds depends on the records of its own accumulator only;
* `Holds.reread`, `Orderly.reread` — an accumulator in hand can be replaced by one that is stored
  in the same way.

Design notes.  The key of a position does not say where the name ends, so names are told apart by
having no separator in them; all of this is about names an accumulator can have.
-/
import Accrual.Proofs.Ledger.Holds
import Accrual.Proofs.Ledger.Order

namespace Accrual

/-- The records of the accumulator `name` are the same in both. -/
structure Records.SameFor (name : String) (r r' : Records) : Prop where
  totals : r'.find? (Key.accumulator name) = r.find? (Key.accumulator name)
  positions : r'.entries.filter (fun e => (Key.positions name).isPrefixOf e.1)
    = r.entries.filter fun e => (Key.positions name).isPrefixOf e.1

namespace Records

theorem SameFor.refl (name : String) (r : Records) : r.SameFor name r := ⟨rfl, rfl⟩

theorem SameFor.trans {name : String} {r r' r'' : Records} (h : r.SameFor name r')
    (h' : r'.SameFor name r'') : r.SameFor name r'' :=
  ⟨h'.totals.trans h.totals, h'.positions.trans h.positions⟩

end Records

namespace Ledger

variable {D : Finset String} {l : Ledger} {pool : Pool} {name : String}

/-! ### Other accumulators -/

theorem sameFor_placed (hname : Key.IsName name) {other : String} (hother : Key.IsName other)
    (hne : other ≠ name) (index : String) (r : Records) (o : Option (Option Position)) :
    r.SameFor other (placed name index r o) := by
  have hkey : ¬ (Key.positions other).isPrefixOf (Key.position name index) = true :=
    fun h => hne (Key.eq_of_isPrefixOf_position hother hname h)
  refine ⟨find?_placed name index other r o, ?_⟩
  rcases o with _ | _ | p
  · rfl
  · show (OrderedMap.erase r.entries _).filter _ = _
    rw [OrderedMap.filter_erase (fun k => (Key.positions other).isPrefixOf k), if_neg hkey]
  · show (OrderedMap.insert r.entries _ _).filter _ = _
    rw [OrderedMap.filter_insert (fun k => (Key.positions other).isPrefixOf k) r.ascending,
      if_neg hkey]

theorem sameFor_totalled {other : String} (hne : other ≠ name) (r : Records) (t : Option Totals) :
    r.SameFor other (totalled name r t) := by
  refine ⟨?_, records_totalled name other r t⟩
  cases t with
  | none => rfl
  | some t =>
    rw [totalled, Records.find?_insert,
      if_neg fun h => hne (Key.accumulator_injective h).symm]

theorem sameFor_commit (hname : Key.IsName l.accumulator.name) {other : String}
    (hother : Key.IsName other) (hne : other ≠ l.accumulator.name) (index : String) (c : Change) :
    l.store.records.SameFor other (l.commit index c).store.records := by
  rw [records_commit]
  exact (sameFor_placed hname hother hne index _ _).trans (sameFor_totalled hne _ _)

theorem Holds.sameFor_next (h : l.Holds D pool) {other : String} (hother : Key.IsName other)
    (hne : other ≠ l.accumulator.name) (step : Step) :
    l.store.records.SameFor other (l.next step).store.records := by
  rw [Ledger.next, h.perform_apply]
  cases pool.plan step with
  | error e => exact .refl _ _
  | ok r => exact sameFor_commit h.named hother hne step.index r.2

/-- What a ledger holds does not depend on the records of other accumulators. -/
theorem Holds.frame (h : l.Holds D pool) {store : Store} (hw : store.Writable)
    (hsame : l.store.records.SameFor l.accumulator.name store.records) :
    (Ledger.mk l.accumulator store).Holds D pool where
  writable := hw
  named := h.named
  inHand := h.inHand
  totals := by
    rw [hsame.totals]
    exact h.totals
  positions := by
    rw [records, hsame.positions]
    exact h.positions
  sound := h.sound

/-! ### Other copies of the accumulator -/

/-- The accumulator in hand can be replaced by one that is stored in the same way. -/
theorem Holds.reread (h : l.Holds D pool) {a : Accumulator} (hname : a.name = l.accumulator.name)
    (ha : a.toTotals.readBack = l.accumulator.toTotals.readBack) :
    (Ledger.mk a l.store).Holds D ⟨a, pool.positions⟩ where
  writable := h.writable
  named := hname ▸ h.named
  inHand := rfl
  totals := by
    rw [hname, ha]
    exact h.totals
  positions := by
    rw [records, hname]
    exact h.positions
  sound :=
    { value := by
        show a.valuePerShare.Over D
        rw [(Totals.eq_of_readBack ha).1, h.inHand]
        exact h.sound.value
      covered := h.sound.covered
      nonneg := h.sound.nonneg
      indices := h.sound.indices
      ascending := h.sound.ascending }

end Ledger

theorem Pool.Orderly.reread {pool : Pool} (h : pool.Orderly) {a : Accumulator}
    (ha : a.toTotals.readBack = pool.accumulator.toTotals.readBack) :
    Pool.Orderly ⟨a, pool.positions⟩ where
  total := (Totals.eq_of_readBack ha).2.ge.trans' h.total
  behind := fun e he => by
    show e.2.snapshot.AtMost a.valuePerShare
    rw [(Totals.eq_of_readBack ha).1]
    exact h.behind e he

end Accrual
