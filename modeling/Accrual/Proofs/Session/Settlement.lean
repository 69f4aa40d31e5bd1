/-
Settlement after any run of public operations.

* `Session.Reaches` — a ledger that an operation can act on: a copy in hand, or one that is loaded,
  together with the open store;
* `Tidy.settlesExactly` — every ledger that a tidy session reaches settles exactly;
* `settlement_is_exact` — so does every ledger that is reached after a run, at every index.
-/
import Accrual.Proofs.Ledger.Settlement
import Accrual.Proofs.Session.Run

namespace Accrual

namespace Session

/-- The ledger is that of a copy in hand, or of a copy that is loaded for one operation. -/
def Reaches (s : Session) (l : Ledger) : Prop :=
  s.store = some l.store ∧ ∃ name, s.held? name = some l.accumulator ∨
    Accumulator.load name l.store = .ok l.accumulator l.store

variable {D : Finset String} {s : Session} {store : Store} {calls : List Call} {l : Ledger}

theorem Tidy.isCurrent_of_reaches (h : s.Tidy D store) (hl : s.Reaches l) :
    l.store = store ∧ l.IsCurrent := by
  obtain ⟨hstore, name, hheld | hload⟩ := hl
  · rw [h.opened, Option.some.injEq] at hstore
    subst hstore
    exact ⟨rfl, (h.current name l.accumulator hheld).2⟩
  · rw [h.opened, Option.some.injEq] at hstore
    subst hstore
    exact ⟨rfl, (h.tidy.isCurrent_of_load hload).2.2⟩

theorem Tidy.settlesExactly (hD : D.card < twoTo 64) (h : s.Tidy D store) (hl : s.Reaches l)
    (index : String) : l.SettlesExactly index := by
  obtain ⟨rfl, hcurrent⟩ := h.isCurrent_of_reaches hl
  obtain ⟨pool, hholds, -⟩ := h.tidy.holds_of_isCurrent hcurrent
  exact hholds.settlesExactly hD index

/-- After any run of public operations on an empty store, every operation on a position that
succeeds settles it exactly: through a copy in hand or by name, at every index, whatever the
amounts are. -/
theorem settlement_is_exact (hD : D.card < twoTo 64) (hw : store.Writable)
    (hempty : store.records = .empty) (hcalls : ∀ call ∈ calls, call.Over D) :
    ∀ l, ((ofStore store).after calls).Reaches l → ∀ index, l.SettlesExactly index := by
  intro l hl index
  obtain ⟨store', htidy, -⟩ := (tidy_ofStore (D := D) hw hempty).after hD hcalls
  exact htidy.settlesExactly hD hl index

/-- Ten units are divided among three shares. -/
def thirds : List Call :=
  [.create "pool", .act "pool" (.openNow "a" (.ofPartsD 3 0) none),
    .act "pool" (.inject ⟨[("uatom", .ofPartsD 10 0)]⟩)]

theorem settlement_is_exact_thirds :
    ∃ l, ((ofStore (.memory .empty)).after thirds).Reaches l ∧
      (∃ payout l', Ledger.claim "a" l = .ok payout l' ∧
        payout.paid = ⟨[("uatom", .ofPartsD 9 0)]⟩) ∧
      ∀ index, l.SettlesExactly index := by
  let l := (Ledger.fresh "pool").after
    [.openNow "a" (.ofPartsD 3 0) none, .inject ⟨[("uatom", .ofPartsD 10 0)]⟩]
  have hreaches : ((ofStore (.memory .empty)).after thirds).Reaches l :=
    ⟨by decide +kernel, "pool", .inl (by decide +kernel)⟩
  have hamount : Rewards.Over {"uatom"} ⟨[("uatom", .ofPartsD 10 0)]⟩ :=
    Rewards.over_singleton (by decide +kernel) (by decide +kernel)
  have hcalls : ∀ call ∈ thirds, call.Over {"uatom"} := by
    simp only [thirds, List.forall_mem_cons]
    exact ⟨trivial, nofun, hamount, nofun⟩
  have hclaim : (match Ledger.claim "a" l with
      | .ok payout _ => some payout.paid
      | .error _ _ => none) = some ⟨[("uatom", .ofPartsD 9 0)]⟩ := by
    decide +kernel
  have hsettles := @settlement_is_exact {"uatom"} (.memory .empty) thirds (by decide) trivial rfl
    hcalls l hreaches
  refine ⟨l, hreaches, ?_, hsettles⟩
  cases hresult : Ledger.claim "a" l with
  | error e l' =>
    rw [hresult] at hclaim
    cases hclaim
  | ok payout l' =>
    rw [hresult, Option.some.injEq] at hclaim
    exact ⟨payout, l', rfl, hclaim⟩

end Session

end Accrual
