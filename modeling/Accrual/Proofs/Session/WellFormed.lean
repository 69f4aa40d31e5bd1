/-
What is stored after any run of public operations.

* `Records.WellFormed` — every record can be read and is that of an accumulator or of one of its
  positions; no total and no number of shares is negative; no snapshot is ahead of the value per
  share of its accumulator;
* `Store.Tidy.wellFormed` — the records of a tidy store are well-formed;
* `stored_records_well_formed` — so are those of every run, and no value per share is ever lowered.
-/
import Accrual.Proofs.Session.Run

namespace Accrual

namespace Records

/-- The stored position of an index, if it can be read. -/
def position? (r : Records) (name index : String) : Option Position :=
  (r.find? (Key.position name index)).bind Position.decode?

/-- Records as the public operations leave them. -/
structure WellFormed (r : Records) : Prop where
  /-- Every record belongs to a stored accumulator. -/
  keyed : r.Keyed
  /-- Totals can be read, and the share total is not negative. -/
  totals : ∀ name, (r.find? (Key.accumulator name)).isSome →
    ∃ t, r.totals? name = some t ∧ 0 ≤ t.totalShares.toRat
  /-- Positions can be read, their shares are not negative, and their snapshots are behind the
  value per share: what they are owed is refused only where a number becomes too large. -/
  positions : ∀ name index, Key.IsName name → (r.find? (Key.position name index)).isSome →
    ∃ t p, r.totals? name = some t ∧ r.position? name index = some p ∧ 0 ≤ p.shares.toRat ∧
      p.snapshot.AtMost t.valuePerShare ∧
      ∀ e, Accumulator.owed { toTotals := t, name } p = .error e → e = .rewards .overflow

end Records

theorem Ledger.Holds.position?_eq {D : Finset String} {l : Ledger} {pool : Pool}
    (h : l.Holds D pool) (index : String) :
    l.store.records.position? l.accumulator.name index = pool.find? index := by
  have hslot := h.slot_eq index
  rw [Ledger.slot, Pool.slot] at hslot
  rw [Records.position?]
  cases hbytes : l.store.records.find? (Key.position l.accumulator.name index) with
  | none =>
    rw [hbytes, Option.map_none, eq_comm, Option.map_eq_none_iff] at hslot
    rw [hslot]
    rfl
  | some bytes =>
    rw [hbytes, Option.map_some, eq_comm, Option.map_eq_some_iff] at hslot
    obtain ⟨p, hp, hread⟩ := hslot
    rw [Option.bind_some, ← hread, hp]

namespace Store

variable {D : Finset String} {store : Store}

/-- The pool behind a stored accumulator, with the totals as they are read. -/
theorem Tidy.exists_pool (h : store.Tidy D) {name : String}
    (hsome : (store.records.find? (Key.accumulator name)).isSome) :
    ∃ t ps, store.records.totals? name = some t ∧
      (Ledger.mk { toTotals := t, name } store).Holds D ⟨{ toTotals := t, name }, ps⟩ ∧
      Pool.Orderly ⟨{ toTotals := t, name }, ps⟩ := by
  obtain ⟨pool, rfl, hholds, horderly⟩ := h.pooled name hsome
  have hread := Totals.readBack_readBack pool.accumulator.toTotals
  exact ⟨_, pool.positions, hholds.isCurrent, hholds.reread rfl hread, horderly.reread hread⟩

theorem Tidy.wellFormed (h : store.Tidy D) : store.records.WellFormed where
  keyed := h.keyed
  totals := by
    intro name hsome
    obtain ⟨t, ps, ht, -, horderly⟩ := h.exists_pool hsome
    exact ⟨t, ht, horderly.total⟩
  positions := by
    intro name index hname hsome
    have haccumulator := h.keyed.of_position hname (Key.isPrefixOf_position name index) hsome
    obtain ⟨t, ps, ht, hholds, horderly⟩ := h.exists_pool haccumulator
    -- a record at the key of a position is one of the pool
    obtain ⟨p, hp⟩ : ∃ p, Pool.find? ⟨{ toTotals := t, name }, ps⟩ index = some p := by
      have hslot := hholds.slot_eq index
      obtain ⟨bytes, hbytes⟩ := Option.isSome_iff_exists.mp hsome
      rw [Ledger.slot, hbytes, Option.map_some, Pool.slot, eq_comm,
        Option.map_eq_some_iff] at hslot
      obtain ⟨p, hp, -⟩ := hslot
      exact ⟨p, hp⟩
    obtain ⟨-, hnonneg⟩ := hholds.sound.of_find? hp
    have hstored : store.records.position? name index = some p :=
      (hholds.position?_eq index).trans hp
    exact ⟨t, p, ht, hstored, Decimal.nonneg_of_not_negative hnonneg, horderly.behind_of_find? hp,
      fun e he => horderly.owed_eq_error hholds.sound hp he⟩

end Store

namespace Session

variable {D : Finset String} {store : Store} {calls : List Call}

theorem Tidy.records_eq {s : Session} (h : s.Tidy D store) : s.records = store.records := by
  rw [records, h.opened]

/-- After any run of public operations on an empty store, the stored records are well-formed, every
copy in hand is what is stored of its accumulator, and no value per share is below what it was
after any part of the run. -/
theorem stored_records_well_formed (hD : D.card < twoTo 64) (hw : store.Writable)
    (hempty : store.records = .empty) (hcalls : ∀ call ∈ calls, call.Over D) :
    let s := (ofStore store).after calls
    s.records.WellFormed ∧
      (∀ label a, s.held? label = some a →
        a.name = label ∧ s.records.totals? label = some a.toTotals.readBack) ∧
      ∀ earlier, earlier <+: calls → ∀ name t,
        ((ofStore store).after earlier).records.totals? name = some t →
        ∃ t', s.records.totals? name = some t' ∧ t.valuePerShare.AtMost t'.valuePerShare := by
  intro s
  have hstart := tidy_ofStore (D := D) hw hempty
  obtain ⟨store', htidy, -⟩ := hstart.after hD hcalls
  refine ⟨htidy.records_eq ▸ htidy.tidy.wellFormed, fun label a ha => ?_, ?_⟩
  · obtain ⟨rfl, hcurrent⟩ := htidy.current label a ha
    exact ⟨rfl, htidy.records_eq ▸ hcurrent⟩
  · rintro earlier ⟨rest, rfl⟩ name t ht
    obtain ⟨store₁, h₁, -⟩ := hstart.after hD fun call hcall =>
      hcalls call (List.mem_append_left rest hcall)
    obtain ⟨store₂, h₂, hgrows⟩ := h₁.after hD fun call hcall =>
      hcalls call (List.mem_append_right earlier hcall)
    rw [h₁.records_eq] at ht
    show ∃ t', ((ofStore store).after (earlier ++ rest)).records.totals? name = some t' ∧ _
    rw [after_append, h₂.records_eq]
    exact hgrows name t ht

/-- A position is opened, rewards are injected by name, and the position is claimed through a copy
that is loaded again. -/
def reloaded : List Call :=
  [.create "pool", .act "pool" (.openNow "a" (.ofPartsD 3 0) none),
    .actByName "pool" (.inject ⟨[("uatom", .ofPartsD 10 0)]⟩), .load "pool",
    .act "pool" (.claim "a")]

theorem over_reloaded : ∀ call ∈ reloaded, call.Over {"uatom"} := by
  have hamount : Rewards.Over {"uatom"} ⟨[("uatom", .ofPartsD 10 0)]⟩ :=
    Rewards.over_singleton (by decide +kernel) (by decide +kernel)
  simp only [reloaded, List.forall_mem_cons]
  exact ⟨trivial, nofun, hamount, trivial, trivial, nofun⟩

theorem stored_records_well_formed_reloaded :
    let s := (ofStore (.memory .empty)).after reloaded
    s.records.WellFormed ∧
      (∀ label a, s.held? label = some a →
        a.name = label ∧ s.records.totals? label = some a.toTotals.readBack) ∧
      ∀ earlier, earlier <+: reloaded → ∀ name t,
        ((ofStore (.memory .empty)).after earlier).records.totals? name = some t →
        ∃ t', s.records.totals? name = some t' ∧ t.valuePerShare.AtMost t'.valuePerShare := by
  exact stored_records_well_formed (by decide) trivial rfl over_reloaded

end Session

end Accrual
