/-
Differences that are always there.

Numbers are taken from one another in three places: an amount from another one where rewards are
taken away, a unit from a quotient that is lowered, and shares from those of a position.  Each of
them is guarded by a comparison, and what the comparison lets through can be taken
(`Decimal.canTake_iff`), also where the places of the two numbers differ and the difference has to
be rounded.

* `Rewards.Subtracts`, `Rewards.subtracts` — what taking rewards away comes to, whatever they are;
* `Shrinks`, `shrinks` — what taking shares from a position comes to, whatever is asked for and
  whatever the record says, however it came into the store;
* `differences_exist` — both of them, and the lowering of quotients (`Rewards.dividesDown`).

Design notes.  The guards are no hypotheses.  Every outcome says which of them refused, or has the
difference beside what passed all of them, so there is no room for an outcome without it.
-/
import Accrual.Proofs.Ledger.Handle
import Accrual.Proofs.Rewards.Lowering

namespace Accrual

namespace Rewards

variable {r s : Rewards} {d : String}

/-! ### Amounts -/

/-- What taking `s` away from `r` comes to. -/
inductive Subtracts (r s : Rewards) : Except RewardError Rewards → Prop
  /-- There is too little of `d`; of everything before it there was enough to take. -/
  | refused {d : String} (hlack : r.amount d < s.amount d)
      (hbefore : ∀ d', Bytes.ofString d' < Bytes.ofString d →
        (r.amount d').CanTake (s.amount d')) :
      Subtracts r s (.error (.negativeComponent d (r.amount d) (s.amount d)))
  /-- Of everything there is what is left of it. -/
  | taken {out : Rewards}
      (hleft : ∀ d, ∃ rest, (r.amount d).sub? (s.amount d) = some rest ∧ 0 ≤ rest.toRat ∧
        out.amount d = rest.normalize) :
      Subtracts r s (.ok out)

theorem canTake_amount (hr : r.Canonical) (hs : s.Canonical) (hle : ¬ r.amount d < s.amount d) :
    (r.amount d).CanTake (s.amount d) := by
  rw [Decimal.canTake_iff (hr.value_nonneg d) (hs.value_nonneg d), Decimal.le_iff]
  rwa [Decimal.lt_iff, not_lt] at hle

/-- Rewards are refused where there is too little, and else there is what is left. -/
theorem subtracts (hr : r.Canonical) (hs : s.Canonical) : Subtracts r s (r.sub s) := by
  cases hsub : r.sub s with
  | error e =>
    obtain ⟨d, rfl, hlack, hleast⟩ := exists_of_sub_error hr hs hsub
    refine .refused hlack fun d' hlt => canTake_amount hr hs fun hlack' => ?_
    exact Std.not_le.mpr hlt (hleast d' hlack')
  | ok out =>
    refine .taken fun d => ?_
    obtain ⟨hle, rest, hrest, hamount⟩ := exists_sub?_of_sub hr hs hsub d
    obtain ⟨rest', hrest', hnonneg⟩ := canTake_amount hr hs hle
    obtain rfl : rest' = rest := Option.some.inj (hrest'.symm.trans hrest)
    exact ⟨rest', hrest, hnonneg, hamount⟩

end Rewards

namespace Ledger

variable {l : Ledger} {index : String} {shares : Decimal} {p : Position}

/-! ### Shares -/

/-- What taking shares from the position of an index comes to. -/
inductive Shrinks (l : Ledger) (index : String) (shares : Decimal) :
    EStateM.Result Error Ledger Unit → Prop
  /-- A number that is not positive is not taken. -/
  | notPositive (hpositive : shares ≤ .zero) :
      Shrinks l index shares (.error (.nonPositiveShares shares) l)
  /-- There is no position, or it cannot be read. -/
  | unread {e : Error} (hpositive : ¬ shares ≤ .zero) (hposition : position index l = .error e l) :
      Shrinks l index shares (.error e l)
  /-- The position has fewer shares. -/
  | insufficient {p : Position} (hpositive : ¬ shares ≤ .zero)
      (hposition : position index l = .ok p l) (hlack : p.shares < shares) :
      Shrinks l index shares (.error (.insufficientShares index p.shares shares) l)
  /-- The position is settled with the rest. -/
  | resized {p : Position} {rest : Decimal} (hpositive : ¬ shares ≤ .zero)
      (hposition : position index l = .ok p l) (hheld : ¬ p.shares < shares)
      (hrest : p.shares.sub? shares = some rest) (hnonneg : 0 ≤ rest.toRat) :
      Shrinks l index shares (resize index p rest shares.neg l)

/-- What the guards let through can be taken: shares that are positive, and no more than there
are. -/
theorem canTake_shares (hpositive : ¬ shares ≤ .zero) (hheld : ¬ p.shares < shares) :
    p.shares.CanTake shares := by
  have hshares : 0 < shares.toRat := by
    rwa [Decimal.le_iff, Decimal.toRat_zero, not_le] at hpositive
  have hle : shares ≤ p.shares := by
    rwa [Decimal.lt_iff, not_lt, ← Decimal.le_iff] at hheld
  exact (Decimal.canTake_iff (hshares.le.trans (Decimal.le_iff.mp hle)) hshares.le).mpr hle

/-- Taking shares has one of these outcomes, on every store and for every argument. -/
theorem shrinks (l : Ledger) (index : String) (shares : Decimal) :
    Shrinks l index shares (shrink index shares l) := by
  by_cases hpositive : shares ≤ .zero
  · simp only [shrink, Action.bind_apply, checkPositive, if_pos hpositive, Action.throw_apply]
    exact .notPositive hpositive
  obtain ⟨read, hread⟩ := reads_position index l
  simp only [shrink, Action.bind_apply, checkPositive, if_neg hpositive, Action.pure_apply, hread]
  cases read with
  | error e => exact .unread hpositive hread
  | ok p =>
    rw [Action.ofResult_ok] at hread ⊢
    by_cases hlack : p.shares < shares
    · simp only [if_pos hlack]
      exact .insufficient hpositive hread hlack
    · obtain ⟨rest, hrest, hnonneg⟩ := canTake_shares hpositive hlack
      simp only [if_neg hlack, hrest]
      exact .resized hpositive hread hlack hrest hnonneg

namespace Shrinks

variable {outcome : EStateM.Result Error Ledger Unit}

theorem eq_error (h : Shrinks l index shares outcome) (hnonpositive : shares ≤ .zero) :
    outcome = .error (.nonPositiveShares shares) l := by
  cases h with
  | notPositive => rfl
  | unread hpositive => exact absurd hnonpositive hpositive
  | insufficient hpositive => exact absurd hnonpositive hpositive
  | resized hpositive => exact absurd hnonpositive hpositive

/-- Where no guard refuses, there is a rest. -/
theorem exists_rest (h : Shrinks l index shares outcome) (hpositive : ¬ shares ≤ .zero)
    (hposition : position index l = .ok p l) (hheld : ¬ p.shares < shares) :
    ∃ rest, p.shares.sub? shares = some rest ∧ 0 ≤ rest.toRat ∧
      outcome = resize index p rest shares.neg l := by
  cases h with
  | notPositive hnonpositive => exact absurd hnonpositive hpositive
  | unread _ hunread =>
    rw [hposition] at hunread
    cases hunread
  | insufficient _ hfound hlack =>
    rw [hposition] at hfound
    cases hfound
    exact absurd hlack hheld
  | resized _ hfound _ hrest hnonneg =>
    rw [hposition] at hfound
    cases hfound
    exact ⟨_, hrest, hnonneg, rfl⟩

end Shrinks

/-! ### All three -/

/-- Every difference that is computed exists and is not negative: those of two rewards, whatever
they are; that of a quotient and a unit of its last place, at each step of lowering, whatever is
divided, so that lowering is refused at products only; and that of the shares of a position and
those taken from it, whatever the store holds and however many are asked for. -/
theorem differences_exist :
    (∀ r s : Rewards, r.Canonical → s.Canonical → Rewards.Subtracts r s (r.sub s)) ∧
      (∀ (r : Rewards) (divisor : Decimal), r.Canonical →
        Rewards.DividesDown r divisor (r.divideDown divisor)) ∧
      ∀ (l : Ledger) (index : String) (shares : Decimal),
        Shrinks l index shares (shrink index shares l) :=
  ⟨fun _ _ => Rewards.subtracts, fun _ divisor hr => Rewards.dividesDown hr divisor, shrinks⟩

/-- All three where the difference has to be rounded, or is taken in the last place there is.  The
record that shares are taken from is one that no operation writes: its snapshot is ahead of the
accumulator. -/
theorem differences_exist_rounded :
    let largest : Decimal := .ofPartsD 79228162514264337593543950335 0
    let smallest : Decimal := .ofPartsD 1 28
    let r : Rewards := ⟨[("uusdc", .ofPartsD 75000000000 0)]⟩
    let divisor : Decimal := .ofPartsD 19 1
    let quotient : Decimal := .ofPartsD 39473684210526315789473684211 18
    let p : Position :=
      { shares := largest
        snapshot := ⟨[("uusdc", .ofPartsD 5 0)]⟩
        unclaimed := .empty
        options := none }
    let l : Ledger :=
      { accumulator := { toTotals := .zero, name := "pool" }
        store := .memory (Records.empty.insert (Key.position "pool" "a") p.encode) }
    Rewards.Subtracts ⟨[("uusdc", largest)]⟩ ⟨[("uusdc", smallest)]⟩
        (.ok ⟨[("uusdc", largest)]⟩) ∧
      Rewards.Subtracts ⟨[("uusdc", smallest)]⟩ ⟨[("uusdc", largest)]⟩
        (.error (.negativeComponent "uusdc" smallest largest)) ∧
      r.divide divisor = .ok ⟨[("uusdc", quotient)]⟩ ∧
      Rewards.DividesDown r divisor (.ok ⟨[("uusdc", quotient.lowered.normalize)]⟩) ∧
      (∃ rest, p.shares.sub? smallest = some rest ∧ 0 ≤ rest.toRat ∧
        shrink "a" smallest l = resize "a" p rest smallest.neg l) ∧
      shrink "a" smallest.neg l = .error (.nonPositiveShares smallest.neg) l := by
  intro largest smallest r divisor quotient p l
  have hsingle {a : Decimal} (ha : Rewards.IsStored a) : Rewards.Canonical ⟨[("uusdc", a)]⟩ :=
    (Rewards.over_singleton (by decide +kernel) ha).toCanonical
  have hlargest := hsingle (show Rewards.IsStored largest by decide +kernel)
  have hsmallest := hsingle (show Rewards.IsStored smallest by decide +kernel)
  obtain ⟨hsub, hdivide, hshrink⟩ := differences_exist
  have htaken := hsub _ _ hlargest hsmallest
  have hrefused := hsub _ _ hsmallest hlargest
  have hdivided := hdivide r divisor (hsingle (by decide +kernel))
  refine ⟨?_, ?_, by decide +kernel, ?_, ?_, ?_⟩
  · have hsum : Rewards.sub ⟨[("uusdc", largest)]⟩ ⟨[("uusdc", smallest)]⟩
        = .ok ⟨[("uusdc", largest)]⟩ := by
      decide +kernel
    exact hsum ▸ htaken
  · have herror : Rewards.sub ⟨[("uusdc", smallest)]⟩ ⟨[("uusdc", largest)]⟩
        = .error (.negativeComponent "uusdc" smallest largest) := by
      decide +kernel
    exact herror ▸ hrefused
  · have hlowered : r.divideDown divisor = .ok ⟨[("uusdc", quotient.lowered.normalize)]⟩ := by
      decide +kernel
    exact hlowered ▸ hdivided
  · have hposition : position "a" l = .ok p l := by
      rw [(reads_position "a").apply l, show (position "a").answer l = .ok p by decide +kernel]
      rfl
    exact (hshrink l "a" smallest).exists_rest (by decide +kernel) hposition (by decide +kernel)
  · exact (hshrink l "a" smallest.neg).eq_error (by decide +kernel)

end Ledger

end Accrual
