/-
Stores that hold several accumulators.

* `Records.totals?` — the stored totals of an accumulator;
* `Ledger.IsCurrent` — the accumulator in hand is what is stored of it;
* `Records.Keyed` — every record belongs to a stored accumulator;
* `Store.Tidy` — behind each stored accumulator there is a pool;
* `Store.Grows` — no stored value per share is lowered;
* `Tidy.next`, `Tidy.grows_next`, `Tidy.create` — steps, and the creation of accumulators, keep a
  store tidy and lower no value.

Design notes.  What is tidy is the store alone.  The pool behind an accumulator belongs to any
copy of it that is current (`Tidy.holds_of_isCurrent`), so nothing is said here about how many
copies there are.
-/
import Accrual.Proofs.Ledger.Frame

namespace Accrual

/-! ### What is stored -/

namespace Records

/-- The stored totals of an accumulator, if they can be read. -/
def totals? (r : Records) (name : String) : Option Totals :=
  (r.find? (Key.accumulator name)).bind Totals.decode?

/-- The key of the totals of an accumulator, or of a position of a stored accumulator. -/
def IsKey (r : Records) (key : Bytes) : Prop :=
  ∃ name, Key.IsName name ∧ (r.find? (Key.accumulator name)).isSome ∧
    (key = Key.accumulator name ∨ ∃ index, Key.IsIndex index ∧ key = Key.position name index)

/-- Every record belongs to a stored accumulator. -/
def Keyed (r : Records) : Prop := ∀ key, (r.find? key).isSome → r.IsKey key

variable {r r' : Records} {name : String} {key : Bytes}

theorem IsKey.mono (h : r.IsKey key) (hmono : ∀ name,
    (r.find? (Key.accumulator name)).isSome → (r'.find? (Key.accumulator name)).isSome) :
    r'.IsKey key := by
  obtain ⟨name, hname, hsome, hkey⟩ := h
  exact ⟨name, hname, hmono name hsome, hkey⟩

theorem Keyed.isName (h : r.Keyed) (hsome : (r.find? (Key.accumulator name)).isSome) :
    Key.IsName name := by
  obtain ⟨name', hname', -, heq | ⟨index, -, heq⟩⟩ := h _ hsome
  · rwa [Key.accumulator_injective heq]
  · exact absurd heq.symm (Key.position_ne_accumulator name' index name)

/-- A position is stored together with its accumulator. -/
theorem Keyed.of_position (h : r.Keyed) (hname : Key.IsName name) {start : Bytes}
    (hstart : (Key.positions name).isPrefixOf start = true) (hsome : (r.find? start).isSome) :
    (r.find? (Key.accumulator name)).isSome := by
  obtain ⟨name', hname', haccumulator, rfl | ⟨index, -, rfl⟩⟩ := h _ hsome
  · rw [Key.not_isPrefixOf_accumulator] at hstart
    cases hstart
  · rwa [Key.eq_of_isPrefixOf_position hname hname' hstart]

/-- An accumulator that is not stored has no positions. -/
theorem Keyed.no_positions (h : r.Keyed) (hname : Key.IsName name)
    (habsent : (r.find? (Key.accumulator name)).isSome = false) :
    ∀ e ∈ r.entries, (Key.positions name).isPrefixOf e.1 = false := by
  intro e he
  by_contra hstart
  rw [Bool.not_eq_false] at hstart
  have hfind := (OrderedMap.find?_eq_some_iff r.ascending).mpr he
  have hsome := h.of_position hname hstart (by rw [find?, hfind]; rfl)
  rw [habsent] at hsome
  cases hsome

theorem Keyed.insert_totals (h : r.Keyed) (hname : Key.IsName name) (value : Bytes) :
    (r.insert (Key.accumulator name) value).Keyed := by
  have hmono (other : String) (hother : (r.find? (Key.accumulator other)).isSome) :
      ((r.insert (Key.accumulator name) value).find? (Key.accumulator other)).isSome := by
    rw [find?_insert]
    split
    · rfl
    · exact hother
  intro key hkey
  rw [find?_insert] at hkey
  split at hkey
  · next heq =>
    refine ⟨name, hname, ?_, .inl heq.symm⟩
    rw [find?_insert, if_pos rfl]
    rfl
  · exact (h key hkey).mono hmono

theorem totals?_eq_some {t : Totals} : r.totals? name = some t ↔
    ∃ bytes, r.find? (Key.accumulator name) = some bytes ∧ Totals.decode? bytes = some t :=
  Option.bind_eq_some_iff

theorem SameFor.totals?_eq (h : r.SameFor name r') : r'.totals? name = r.totals? name := by
  rw [totals?, h.totals, totals?]

end Records

namespace Ledger

variable {D : Finset String} {l : Ledger} {pool : Pool}

/-- The accumulator in hand is what is stored under its name. -/
def IsCurrent (l : Ledger) : Prop :=
  l.store.records.totals? l.accumulator.name = some l.accumulator.toTotals.readBack

theorem Holds.isCurrent (h : l.Holds D pool) : l.IsCurrent :=
  Records.totals?_eq_some.mpr h.totals

/-- The stored totals of an accumulator are never removed. -/
theorem isSome_find?_commit (index : String) (c : Change) {name : String}
    (h : (l.store.records.find? (Key.accumulator name)).isSome) :
    ((l.commit index c).store.records.find? (Key.accumulator name)).isSome := by
  rw [find?_commit]
  split
  · cases c.totals with
    | none => exact h
    | some t => rfl
  · rwa [if_neg (Key.position_ne_accumulator l.accumulator.name index name).symm]

/-- A change writes the totals of its accumulator and one position. -/
theorem isSome_of_find?_commit {index : String} {c : Change} {key : Bytes}
    (h : ((l.commit index c).store.records.find? key).isSome) :
    (l.store.records.find? key).isSome ∨ key = Key.accumulator l.accumulator.name ∨
      ((∃ p, c.position = some (some p)) ∧ key = Key.position l.accumulator.name index) := by
  rw [find?_commit] at h
  split at h
  · next hkey => exact .inr (.inl hkey)
  · split at h
    · next hkey =>
      rcases hc : c.position with _ | _ | p
      · rw [hc] at h
        exact .inl h
      · rw [hc] at h
        cases h
      · exact .inr (.inr ⟨⟨p, rfl⟩, hkey⟩)
    · exact .inl h

theorem keyed_commit (hkeyed : l.store.records.Keyed) (h : l.Holds D pool) {index : String}
    {c : Change} (hc : c.Sound D index) : (l.commit index c).store.records.Keyed := by
  have hmono (name : String) := @isSome_find?_commit l index c name
  have hown : (l.store.records.find? (Key.accumulator l.accumulator.name)).isSome := by
    obtain ⟨bytes, hfind, -⟩ := h.totals
    rw [hfind]
    rfl
  intro key hkey
  rcases isSome_of_find?_commit hkey with hold | rfl | ⟨⟨p, hp⟩, rfl⟩
  · exact (hkeyed key hold).mono hmono
  · exact ⟨_, h.named, hmono _ hown, .inl rfl⟩
  · exact ⟨_, h.named, hmono _ hown, .inr ⟨index, (hc.position p hp).2.2, rfl⟩⟩

end Ledger

/-! ### Tidy stores -/

namespace Store

variable {D : Finset String} {store store' : Store} {l : Ledger} {pool : Pool} {step : Step}

/-- Every record belongs to a stored accumulator, behind which there is a pool. -/
structure Tidy (D : Finset String) (store : Store) : Prop where
  writable : store.Writable
  keyed : store.records.Keyed
  pooled : ∀ name, (store.records.find? (Key.accumulator name)).isSome →
    ∃ pool : Pool, pool.accumulator.name = name ∧
      (Ledger.mk pool.accumulator store).Holds D pool ∧ pool.Orderly

/-- No stored value per share is lowered, and none is lost. -/
def Grows (store store' : Store) : Prop :=
  ∀ name t, store.records.totals? name = some t →
    ∃ t', store'.records.totals? name = some t' ∧ t.valuePerShare.AtMost t'.valuePerShare

theorem Grows.refl (store : Store) : store.Grows store := fun _ t ht => ⟨t, ht, .refl _⟩

theorem Grows.trans {store'' : Store} (h : store.Grows store') (h' : store'.Grows store'') :
    store.Grows store'' := by
  intro name t ht
  obtain ⟨t', ht', hle⟩ := h name t ht
  obtain ⟨t'', ht'', hle'⟩ := h' name t' ht'
  exact ⟨t'', ht'', hle.trans hle'⟩

theorem tidy_of_empty (hw : store.Writable) (h : store.records = .empty) : store.Tidy D where
  writable := hw
  keyed := fun key hkey => by
    rw [h] at hkey
    cases hkey
  pooled := fun name hname => by
    rw [h] at hname
    cases hname

/-- Behind a current copy there is a pool. -/
theorem Tidy.holds_of_isCurrent (h : store.Tidy D) {a : Accumulator}
    (ha : (Ledger.mk a store).IsCurrent) :
    ∃ pool, (Ledger.mk a store).Holds D pool ∧ pool.Orderly := by
  obtain ⟨bytes, hfind, hdecode⟩ := Records.totals?_eq_some.mp ha
  obtain ⟨pool, hname, hholds, horderly⟩ := h.pooled a.name (by rw [hfind]; rfl)
  have hstored : store.records.totals? a.name = some pool.accumulator.toTotals.readBack :=
    hname ▸ hholds.isCurrent
  have hread : a.toTotals.readBack = pool.accumulator.toTotals.readBack :=
    Option.some.inj (ha.symm.trans hstored)
  exact ⟨_, hholds.reread hname.symm hread, horderly.reread hread⟩

/-- What is read of stored totals is written back as it is. -/
theorem Tidy.readBack_totals (h : store.Tidy D) {name : String} {t : Totals}
    (ht : store.records.totals? name = some t) : t.readBack = t := by
  obtain ⟨bytes, hfind, hdecode⟩ := Records.totals?_eq_some.mp ht
  obtain ⟨pool, rfl, hholds, -⟩ := h.pooled name (by rw [hfind]; rfl)
  obtain rfl : pool.accumulator.toTotals.readBack = t :=
    Option.some.inj (hholds.isCurrent.symm.trans ht)
  rw [Totals.readBack_readBack]

/-- Where the records of one accumulator change and all others stay, the store stays tidy if that
accumulator has a pool. -/
theorem Tidy.updated (h : store.Tidy D) {name : String} (hkeyed : store'.records.Keyed)
    (hholds : (Ledger.mk pool.accumulator store').Holds D pool) (horderly : pool.Orderly)
    (hname : pool.accumulator.name = name)
    (hother : ∀ other, Key.IsName other → other ≠ name →
      store.records.SameFor other store'.records) : store'.Tidy D where
  writable := hholds.writable
  keyed := hkeyed
  pooled := by
    intro other hsome
    by_cases heq : other = name
    · exact ⟨pool, hname.trans heq.symm, hholds, horderly⟩
    · have hsame := hother other (hkeyed.isName hsome) heq
      rw [hsame.totals] at hsome
      obtain ⟨pool', hname', hholds', horderly'⟩ := h.pooled other hsome
      exact ⟨pool', hname', hholds'.frame hholds.writable (hname' ▸ hsame), horderly'⟩

theorem Tidy.next (hD : D.card < twoTo 64) (h : l.store.Tidy D) (hl : l.Holds D pool)
    (ho : pool.Orderly) (hstep : step.Over D) : (l.next step).store.Tidy D := by
  have hnext := hl.next hD hstep
  have hkeyed : (l.next step).store.records.Keyed := by
    rw [Ledger.next, hl.perform_apply]
    cases hplan : pool.plan step with
    | error e => exact h.keyed
    | ok r => exact Ledger.keyed_commit h.keyed hl (hl.sound.change hstep hplan)
  refine h.updated hkeyed (hnext.inHand ▸ hnext) (ho.next hl.sound hstep) ?_
    fun other hother hne => hl.sameFor_next hother hne step
  rw [pool.name_next step, hl.inHand]

theorem Tidy.grows_next (hD : D.card < twoTo 64) (h : l.store.Tidy D) (hl : l.Holds D pool)
    (hstep : step.Over D) : l.store.Grows (l.next step).store := by
  intro name t ht
  have hnext := hl.next hD hstep
  have hname : (l.next step).accumulator.name = l.accumulator.name := by
    rw [hnext.inHand, pool.name_next step, hl.inHand]
  by_cases heq : name = l.accumulator.name
  · subst heq
    have ht' := hnext.isCurrent
    rw [Ledger.IsCurrent, hname] at ht'
    refine ⟨_, ht', ?_⟩
    obtain rfl : l.accumulator.toTotals.readBack = t := Option.some.inj (hl.isCurrent.symm.trans ht)
    show l.accumulator.valuePerShare.AtMost (l.next step).accumulator.valuePerShare
    rw [hl.inHand, hnext.inHand]
    exact hl.sound.atMost_next hstep
  · obtain ⟨bytes, hfind, -⟩ := Records.totals?_eq_some.mp ht
    have hvalid : Key.IsName name := h.keyed.isName (by rw [hfind]; rfl)
    exact ⟨t, (hl.sameFor_next hvalid heq step).totals?_eq.trans ht, .refl _⟩

/-- A new accumulator has no positions, and takes the place of none. -/
theorem Tidy.create (hD : D.card < twoTo 64) (h : store.Tidy D) {name : String} {a : Accumulator}
    (hcreate : Accumulator.create name store = .ok a store') :
    store'.Tidy D ∧ a.name = name ∧ (Ledger.mk a store').IsCurrent ∧
      (∀ other, other ≠ name → store.records.SameFor other store'.records) ∧
      store.Grows store' := by
  obtain ⟨hname, habsent, rfl, hinsert⟩ := Ledger.create_eq_ok hcreate
  rw [contains_of_writable h.writable, Except.ok.injEq] at habsent
  rw [insert_of_writable h.writable, Except.ok.injEq] at hinsert
  have hrecords : store'.records = Ledger.totalled name store.records (some .zero) := by
    rw [← hinsert, records_withRecords]
    rfl
  have hholds := Ledger.holds_of_isNew (D := D) (l := ⟨{ toTotals := .zero, name }, store'⟩) hD
    ⟨store, hcreate, h.keyed.no_positions hname habsent⟩
  have hother (other : String) (hne : other ≠ name) :
      store.records.SameFor other store'.records := by
    rw [hrecords]
    exact Ledger.sameFor_totalled hne _ _
  have hkeyed : store'.records.Keyed := by
    rw [hrecords]
    exact h.keyed.insert_totals hname _
  refine ⟨h.updated hkeyed hholds (Pool.orderly_new name) rfl fun other _ => hother other, rfl,
    hholds.isCurrent, hother, fun other t ht => ⟨t, ?_, .refl _⟩⟩
  refine (hother other fun heq => ?_).totals?_eq.trans ht
  -- an accumulator that is stored already is not created
  obtain ⟨bytes, hfind, -⟩ := Records.totals?_eq_some.mp ht
  rw [heq] at hfind
  rw [hfind] at habsent
  cases habsent

end Store

end Accrual
