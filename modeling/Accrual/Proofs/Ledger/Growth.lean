/-
What a position is owed never falls as rewards are injected.

Four rounded operations lie between an injection and what a position is owed: the value per share
grows, the snapshot is taken away, the growth is multiplied by the shares and added to what is
unclaimed.  None of them reverses the order of its exact operands.

* `Accumulator.owed_atMost` — a value per share that is not lower owes a position not less;
* `Ledger.owed_never_falls` — so an injection or a credit takes nothing from what is owed;
* `Pool.Sound.owed_atMost_after` — nor does any run, from what the same record of a position is
  owed.
-/
import Accrual.Proofs.Ledger.Injection
import Accrual.Proofs.Ledger.Order

namespace Accrual

variable {p : Position} {before after : Rewards}

namespace Accumulator

variable {a a' : Accumulator}

/-- Of the values per share before and after, only the order matters. -/
theorem owed_atMost (ha : a.valuePerShare.Canonical) (ha' : a'.valuePerShare.Canonical)
    (hsnapshot : p.snapshot.Canonical) (hunclaimed : p.unclaimed.Canonical)
    (hshares : 0 ≤ p.shares.toRat) (hle : a.valuePerShare.AtMost a'.valuePerShare)
    (hbefore : a.owed p = .ok before) (hafter : a'.owed p = .ok after) : before.AtMost after := by
  obtain ⟨growth, accrued, hgrowth, haccrued, hdue⟩ := owed_eq_ok.mp hbefore
  obtain ⟨growth', accrued', hgrowth', haccrued', hdue'⟩ := owed_eq_ok.mp hafter
  have hcanonical {r out : Rewards} (hr : r.Canonical) (h : r.sub p.snapshot = .ok out) :
      out.Canonical := by
    obtain ⟨D, hr, hs⟩ := hr.exists_over hsnapshot
    exact (hr.sub hs h).toCanonical
  have hg := hcanonical ha hgrowth
  have hg' := hcanonical ha' hgrowth'
  have hgrown : growth.AtMost growth' := hle.sub ha ha' hsnapshot hgrowth hgrowth'
  have haccrual : accrued.AtMost accrued' := hgrown.scale hg hg' hshares haccrued haccrued'
  exact haccrual.add hunclaimed (hg.over.scale haccrued).toCanonical
    (hg'.over.scale haccrued').toCanonical hdue hdue'

end Accumulator

namespace Ledger

variable {l l' : Ledger} {amount : Rewards}

/-- An injection or a credit does not lower the value per share. -/
theorem value_atMost_of_credited (hvalue : l.accumulator.valuePerShare.Canonical)
    (hamount : amount.Canonical)
    (h : (∃ perShare, inject amount l = .ok perShare l') ∨ credit amount l = .ok () l') :
    l'.accumulator.valuePerShare.Canonical ∧
      l.accumulator.valuePerShare.AtMost l'.accumulator.valuePerShare := by
  have hadded {perShare : Rewards} (hshare : perShare.Canonical)
      (hadd : l.accumulator.valuePerShare.add perShare = .ok l'.accumulator.valuePerShare) :
      l'.accumulator.valuePerShare.Canonical ∧
        l.accumulator.valuePerShare.AtMost l'.accumulator.valuePerShare := by
    obtain ⟨D, hv, hs⟩ := hvalue.exists_over hshare
    exact ⟨(hv.add hs hadd).toCanonical, Rewards.atMost_add hvalue hshare hadd⟩
  obtain ⟨perShare, hinject⟩ | hcredit := h
  · obtain ⟨-, rfl⟩ | ⟨hdiv, hadd⟩ := inject_eq_ok hinject
    · exact ⟨hvalue, .refl _⟩
    · exact hadded (Rewards.Over.divideDown hamount.over hdiv).toCanonical hadd
  · obtain ⟨value, hadd, hsame⟩ := credit_eq_ok hcredit
    exact hadded hamount (hsame ▸ hadd)

/-- Whatever is injected or credited, a position whose dues can be computed before and after is not
owed less of any denomination.  That they can says that its snapshot is not ahead. -/
theorem owed_never_falls (hvalue : l.accumulator.valuePerShare.Canonical)
    (hsnapshot : p.snapshot.Canonical) (hunclaimed : p.unclaimed.Canonical)
    (hshares : 0 ≤ p.shares.toRat) (hamount : amount.Canonical)
    (h : (∃ perShare, inject amount l = .ok perShare l') ∨ credit amount l = .ok () l')
    (hbefore : l.accumulator.owed p = .ok before) (hafter : l'.accumulator.owed p = .ok after)
    (d : String) : before.value d ≤ after.value d := by
  obtain ⟨hvalue', hle⟩ := value_atMost_of_credited hvalue hamount h
  exact Accumulator.owed_atMost hvalue hvalue' hsnapshot hunclaimed hshares hle hbefore hafter d

/-- Two units are injected on top of almost 80 billion for each of three shares: the value per share
is rounded up, and of what is owed the last digit is lost before and a new one gained after. -/
theorem owed_never_falls_rounded :
    let l := (fresh "pool").after eightfold
    let amount : Rewards := ⟨[("uusdc", .ofPartsD 2 0)]⟩
    let p : Position :=
      { shares := .ofPartsD 3 0
        snapshot := .empty
        unclaimed := ⟨[("uusdc", .ofPartsD 1 18)]⟩
        options := none }
    let before : Rewards := ⟨[("uusdc", .ofPartsD 239999999976 0)]⟩
    let after : Rewards := ⟨[("uusdc", .ofPartsD 23999999997800000000000000001 17)]⟩
    l.accumulator.owed p = .ok before ∧
      ((inject amount).final l).accumulator.owed p = .ok after ∧
      before.value "uusdc" ≤ after.value "uusdc" := by
  intro l amount p before after
  have hsingle {a : Decimal} (ha : Rewards.IsStored a) : Rewards.Canonical ⟨[("uusdc", a)]⟩ :=
    (Rewards.over_singleton (by decide +kernel) ha).toCanonical
  obtain ⟨hvalue, hinject⟩ :
      l.accumulator.valuePerShare = ⟨[("uusdc", .ofPartsD 79999999992 0)]⟩ ∧
        (inject amount).answer l = .ok ⟨[("uusdc", .ofPartsD 666666666666666666 18)]⟩ := by
    decide +kernel
  have hbefore : l.accumulator.owed p = .ok before := by decide +kernel
  have hafter : ((inject amount).final l).accumulator.owed p = .ok after := by decide +kernel
  exact ⟨hbefore, hafter, owed_never_falls (hvalue ▸ hsingle (by decide +kernel))
    (Rewards.over_empty (D := ∅)).toCanonical (hsingle (by decide +kernel)) (by decide +kernel)
    (hsingle (by decide +kernel)) (.inl ⟨_, Action.eq_ok_of_answer hinject⟩) hbefore hafter
    "uusdc"⟩

end Ledger

namespace Pool

variable {D : Finset String} {pool : Pool} {steps : List Step}

/-- No run of steps lowers the value per share. -/
theorem Sound.atMost_after (h : pool.Sound D) (hsteps : ∀ step ∈ steps, step.Over D) :
    pool.accumulator.valuePerShare.AtMost (pool.after steps).accumulator.valuePerShare := by
  induction steps generalizing pool with
  | nil => exact .refl _
  | cons step steps ih =>
    have hstep := hsteps step List.mem_cons_self
    exact (h.atMost_next hstep).trans (ih (h.next hstep) fun step' hstep' =>
      hsteps step' (List.mem_cons_of_mem step hstep'))

/-- After any run, the record of a position is owed no less than before it. -/
theorem Sound.owed_atMost_after (h : pool.Sound D) (hsteps : ∀ step ∈ steps, step.Over D)
    (hp : p.Over D) (hshares : 0 ≤ p.shares.toRat) (hbefore : pool.accumulator.owed p = .ok before)
    (hafter : (pool.after steps).accumulator.owed p = .ok after) : before.AtMost after :=
  Accumulator.owed_atMost h.value.toCanonical (h.after hsteps).value.toCanonical
    hp.snapshot.toCanonical hp.unclaimed.toCanonical hshares (h.atMost_after hsteps) hbefore hafter

end Pool

end Accrual
