/-
Settlement is exact.

Whatever is owed to a position is kept by every operation on it, to the last digit: it stays owed,
or it is handed out.

* `Ledger.owedAt` — what the position of an index is owed;
* `owed_of_settled` — after a settlement that is its unclaimed rewards;
* `Ledger.Stores`, `Ledger.ChangesOnly` — what is stored of a position, and what is not touched;
* `Payout.Splits` — whole units and fractions that add up to what was owed;
* `Ledger.SettlesExactly` — what each operation on a position does to what it is owed;
* `Holds.settlesExactly` — every ledger with a pool behind it settles exactly.

Design notes.  No bound on the amounts is assumed.  Sums and products may be rounded where what is
owed is computed, but they are computed once, before the operation writes; afterwards the position
owes its unclaimed rewards and nothing has grown since its snapshot.  Whole units and fractions
have no more digits than the amount they come from, so adding them up again never rounds.
-/
import Accrual.Proofs.Ledger.Order
import Accrual.Proofs.Ledger.Tidy
import Accrual.Proofs.Rewards.Parts

namespace Accrual

variable {D : Finset String}

/-! ### What is owed -/

namespace Accumulator

variable {a a' : Accumulator} {p : Position}

/-- What a position is owed does not depend on the share total. -/
theorem owed_congr (hname : a'.name = a.name) (hvalue : a'.valuePerShare = a.valuePerShare) :
    a'.owed = a.owed := by
  funext p
  simp only [owed, growthSince, hname, hvalue]

/-- A settled position is owed its unclaimed rewards. -/
theorem owed_of_settled (ha : a.valuePerShare.Over D) (hsnapshot : p.snapshot = a.valuePerShare)
    (hshares : 0 ≤ p.shares.toRat) : a.owed p = .ok p.unclaimed := by
  have hgrowth : a.valuePerShare.sub p.snapshot = .ok .empty := by
    rw [hsnapshot]
    exact Rewards.sub_itself ha
  exact owed_eq_ok.mpr
    ⟨.empty, .empty, hgrowth, Rewards.empty_scale hshares, Rewards.add_empty p.unclaimed⟩

end Accumulator

/-- The payout is what was owed, in whole units and fractions. -/
structure Payout.Splits (payout : Payout) (due : Rewards) : Prop where
  sum : payout.paid.add payout.dust = .ok due
  whole : ∀ d, ∃ n : ℕ, payout.paid.value d = n
  fractional : ∀ d, 0 ≤ payout.dust.value d ∧ payout.dust.value d < 1

theorem Payout.splits {due : Rewards} (h : due.Over D) (closed : Bool) :
    Payout.Splits ⟨due.whole, due.dust, closed⟩ due where
  sum := Rewards.whole_add_dust h
  whole := fun d => ⟨⌊due.value d⌋.toNat, by
    have hfloor := Int.toNat_of_nonneg (Int.floor_nonneg.mpr (h.value_nonneg d))
    rw [(Rewards.whole_exact h).2 d]
    exact_mod_cast hfloor.symm⟩
  fractional := fun d => by
    rw [(Rewards.dust_exact h).2 d]
    exact ⟨Int.fract_nonneg _, Int.fract_lt_one _⟩

namespace Ledger

/-- What the position of an index is owed. -/
def owedAt (index : String) : Action Ledger Rewards := do owed (← position index)

variable {l l' : Ledger} {pool : Pool} {index : String} {p : Position} {due : Rewards}

theorem owedAt_apply (hw : l.store.Writable) (index : String) :
    owedAt index l
      = Action.ofResult (l.accumulator.held index (l.slot index) >>= l.accumulator.owed) l := by
  rw [owedAt, Action.bind_apply, position_apply hw.readable]
  cases l.accumulator.held index (l.slot index) <;> rfl

theorem owedAt_of_position (hp : position index l = .ok p l)
    (hdue : l.accumulator.owed p = .ok due) : owedAt index l = .ok due l := by
  simp only [owedAt, owed, Action.bind_apply, hp, Action.get_apply, hdue, Action.ofResult_ok]

/-! ### What is written -/

/-- The position of an index is `p`, and its record is that of `p`. -/
structure Stores (index : String) (p : Position) (l : Ledger) : Prop where
  position : position index l = .ok p l
  record : l.store.records.find? (Key.position l.accumulator.name index) = some p.encode

/-- From `l` to `l'` the position of an index has changed, and perhaps the share total. -/
structure ChangesOnly (index : String) (l l' : Ledger) : Prop where
  name : l'.accumulator.name = l.accumulator.name
  value : l'.accumulator.valuePerShare = l.accumulator.valuePerShare
  /-- The accumulator in hand is what is loaded from the store. -/
  reloaded : Accumulator.load l'.accumulator.name l'.store
    = .ok { l'.accumulator with toTotals := l'.accumulator.toTotals.readBack } l'.store
  /-- No other record is written. -/
  untouched : ∀ key, key ≠ Key.position l.accumulator.name index →
    key ≠ Key.accumulator l.accumulator.name →
    l'.store.records.find? key = l.store.records.find? key
  /-- Other positions are owed what they were. -/
  others : ∀ other, other ≠ index →
    ∃ r, owedAt other l = Action.ofResult r l ∧ owedAt other l' = Action.ofResult r l'

theorem find?_commit_position (index : String) (o : Option Position) (t : Option Totals) :
    (l.commit index { position := some o, totals := t }).store.records.find?
        (Key.position l.accumulator.name index) = o.map Position.encode := by
  rw [find?_commit, if_neg (Key.position_ne_accumulator _ _ _), if_pos rfl, Option.elim_some]

theorem Holds.changesOnly (hD : D.card < twoTo 64) (h : l.Holds D pool) {c : Change}
    (hc : c.Sound D index)
    (hvalue : ∀ t, c.totals = some t → t.valuePerShare = l.accumulator.valuePerShare) :
    l.ChangesOnly index (l.commit index c) := by
  have hcommit := h.commit hD hc
  have hvalue' : (l.commit index c).accumulator.valuePerShare = l.accumulator.valuePerShare := by
    cases ht : c.totals with
    | none => rw [Ledger.commit, ht, Option.getD_none]
    | some t =>
      rw [Ledger.commit, ht, Option.getD_some]
      exact hvalue t ht
  have huntouched (key : Bytes) (hposition : key ≠ Key.position l.accumulator.name index)
      (haccumulator : key ≠ Key.accumulator l.accumulator.name) :
      (l.commit index c).store.records.find? key = l.store.records.find? key := by
    rw [find?_commit, if_neg haccumulator, if_neg hposition]
  refine ⟨name_commit l index c, hvalue', hcommit.load_apply, huntouched, fun other hne => ?_⟩
  -- another position is found as it was, and what it is owed depends on nothing else
  have hslot : (l.commit index c).slot other = l.slot other := by
    rw [slot, slot, name_commit, huntouched _
      (fun heq => hne (Key.position_injective l.accumulator.name heq))
      (Key.position_ne_accumulator _ _ _)]
  refine ⟨_, owedAt_apply h.writable other, ?_⟩
  rw [owedAt_apply hcommit.writable, hslot, Accumulator.owed_congr (name_commit l index c) hvalue']
  rfl

theorem Holds.stores_commit (hD : D.card < twoTo 64) (h : l.Holds D pool) {t : Option Totals}
    (hc : Change.Sound D index { position := some (some p), totals := t })
    (hp : p.shares.negative = false) :
    (l.commit index { position := some (some p), totals := t }).Stores index p where
  position := by
    rw [(h.commit hD hc).position_apply, Pool.find?_commit h.sound.ascending, if_pos rfl,
      Option.map_some, Position.readBack_of_not_negative hp]
  record := find?_commit_position index (some p) t

/-- What is stored can be written again. -/
theorem Stores.commit_self (h : l.Stores index p) (hw : l.store.Writable) :
    l.commit index { position := some (some p) } = l := by
  have hrecords : l.store.records.insert (Key.position l.accumulator.name index) p.encode
      = l.store.records := by
    rw [Records.insert]
    congr 1
    exact OrderedMap.insert_eq_self l.store.records.ascending h.record
  rw [commit]
  simp only [placed, totalled, Option.getD_none, hrecords, Store.withRecords_records hw]

/-! ### Operations on a position -/

/-- The position of an index is settled and gets the shares that `shares` says. -/
def Resizes (l : Ledger) (index : String) (shares : Position → Option Decimal) (l' : Ledger) :
    Prop :=
  ∃ p due n, position index l = .ok p l ∧ shares p = some n ∧
    owedAt index l = .ok due l ∧ owedAt index l' = .ok due l' ∧
    l'.Stores index
      { p with shares := n, snapshot := l.accumulator.valuePerShare, unclaimed := due } ∧
    l.ChangesOnly index l'

/-- What the position of an index is owed is split.  Without shares the position is gone.  Otherwise
it keeps them and is owed the fractions; claiming again at once would leave everything as it is. -/
def Claims (l : Ledger) (index : String) (payout : Payout) (l' : Ledger) : Prop :=
  ∃ p due, position index l = .ok p l ∧ owedAt index l = .ok due l ∧ payout.Splits due ∧
    l.ChangesOnly index l' ∧ payout.closed = decide p.shares.IsZero ∧
    if p.shares.IsZero then
      l'.store.records.find? (Key.position l.accumulator.name index) = none
    else
      l'.Stores index { p with
        snapshot := l.accumulator.valuePerShare, unclaimed := payout.dust } ∧
      owedAt index l' = .ok payout.dust l' ∧
      claim index l' = .ok ⟨.empty, payout.dust, false⟩ l'

/-- What the position of an index is owed is split, and the position is gone. -/
def Closes (l : Ledger) (index : String) (payout : Payout) (l' : Ledger) : Prop :=
  ∃ due, owedAt index l = .ok due l ∧ payout.Splits due ∧ payout.closed = true ∧
    l'.store.records.find? (Key.position l.accumulator.name index) = none ∧
    l.ChangesOnly index l'

/-- A position without shares that is owed nothing is gone. -/
def Deletes (l : Ledger) (index : String) (l' : Ledger) : Prop :=
  ∃ p, position index l = .ok p l ∧ p.shares.IsZero ∧ owedAt index l = .ok .empty l ∧
    l'.store.records.find? (Key.position l.accumulator.name index) = none ∧
    l.ChangesOnly index l'

/-- Whatever operation on the position of an index succeeds, what the position was owed stays owed
or is handed out. -/
structure SettlesExactly (l : Ledger) (index : String) : Prop where
  grow : ∀ x l', grow index x l = .ok () l' → l.Resizes index (·.shares.add? x) l'
  shrink : ∀ x l', shrink index x l = .ok () l' → l.Resizes index (·.shares.sub? x) l'
  claim : ∀ payout l', claim index l = .ok payout l' → l.Claims index payout l'
  close : ∀ payout l', close index l = .ok payout l' → l.Closes index payout l'
  delete : ∀ l', delete index l = .ok () l' → l.Deletes index l'

/-- A step that succeeds commits a sound change, in one of the planned ways. -/
theorem Holds.planned_of_perform (h : l.Holds D pool) {step : Step} {outcome : Outcome}
    (hok : perform step l = .ok outcome l') (hstep : step.Over D) :
    ∃ c, l.accumulator.Planned (pool.slot step.index) step outcome c ∧
      c.Sound D step.index ∧ l' = l.commit step.index c := by
  rw [h.perform_apply] at hok
  cases hplan : pool.plan step with
  | error e =>
    rw [hplan] at hok
    cases hok
  | ok r =>
    rw [hplan] at hok
    cases hok
    refine ⟨r.2, ?_, h.sound.change hstep hplan, rfl⟩
    rw [h.inHand]
    exact Accumulator.planned_of_plan hplan

theorem Holds.value_over (h : l.Holds D pool) : l.accumulator.valuePerShare.Over D :=
  h.inHand ▸ h.sound.value

/-- A position with what it is owed, as the pool has it. -/
theorem Holds.owed_of_slot (h : l.Holds D pool) (hslot : pool.slot index = some (some p))
    (hdue : l.accumulator.owed p = .ok due) :
    position index l = .ok p l ∧ owedAt index l = .ok due l ∧ p.shares.negative = false ∧
      due.Over D := by
  have hfind := Pool.slot_eq_some.mp hslot
  obtain ⟨hover, hnegative⟩ := h.sound.of_find? hfind
  have hposition : position index l = .ok p l := by rw [h.position_apply, hfind]
  exact ⟨hposition, owedAt_of_position hposition hdue, hnegative,
    Accumulator.over_of_owed h.value_over hover hdue⟩

/-- Shares that are added to or taken from a position carry no minus sign. -/
theorem negative_resized {n x : Decimal} (hp : p.shares.negative = false) (hx : ¬ x ≤ .zero)
    (h : p.shares.add? x = some n ∨ ¬ p.shares < x ∧ p.shares.sub? x = some n) :
    n.negative = false := by
  have hp0 := Decimal.nonneg_of_not_negative hp
  rw [Decimal.le_iff, Decimal.toRat_zero, not_le] at hx
  rcases h with hadd | ⟨hlt, hsub⟩
  · have hxn := Decimal.not_negative_of_nonneg hx.le fun hz => hx.ne' (Decimal.isZero_iff.mp hz)
    exact Decimal.negative_add? hadd (add_nonneg hp0 hx.le) hp fun _ => hxn
  · rw [Decimal.lt_iff, not_lt] at hlt
    obtain ⟨y, hy, hval⟩ := Decimal.sub?_eq p.shares x
    rw [hy] at hsub
    refine Decimal.negative_add? hsub (by rw [hval]; linarith) hp fun hz => ?_
    -- nothing can be taken from no shares
    rw [Decimal.isZero_iff.mp hz] at hlt
    exact absurd hlt (not_le.mpr hx)

theorem Holds.resizes (hD : D.card < twoTo 64) (h : l.Holds D pool) {step : Step} {x : Decimal}
    (hstep : step = .grow index x ∨ step = .shrink index x) {outcome : Outcome}
    (hok : perform step l = .ok outcome l') {shares : Position → Option Decimal}
    (hshares : ∀ p n, (step = .grow index x ∧ p.shares.add? x = some n ∨
      step = .shrink index x ∧ p.shares.sub? x = some n) → shares p = some n) :
    l.Resizes index shares l' := by
  have hover : step.Over D := by rcases hstep with rfl | rfl <;> trivial
  have hindex : step.index = index := by rcases hstep with rfl | rfl <;> rfl
  obtain ⟨c, hplanned, hc, rfl⟩ := h.planned_of_perform hok hover
  rw [hindex] at hplanned hc ⊢
  obtain ⟨p, n, due, total, hslot, hpos, hn, hdue, rfl⟩ := hplanned.of_resize hstep
  obtain ⟨hposition, howed, hnegative, -⟩ := h.owed_of_slot hslot hdue
  have hn0 : n.negative = false :=
    negative_resized hnegative hpos (hn.imp And.right And.right)
  have hstores := h.stores_commit hD hc hn0
  have hsettled := Accumulator.owed_of_settled h.value_over
    (p := { p with shares := n, snapshot := l.accumulator.valuePerShare, unclaimed := due }) rfl
    (Decimal.nonneg_of_not_negative hn0)
  exact ⟨p, due, n, hposition, hshares p n (hn.imp_right fun hn => ⟨hn.1, hn.2.2⟩), howed,
    owedAt_of_position hstores.position hsettled, hstores,
    h.changesOnly hD hc fun t ht => by cases ht; rfl⟩

/-- Claiming from a settled position that is owed fractions only pays nothing and writes what is
stored. -/
theorem Stores.claim_apply (h : l.Stores index p) (hw : l.store.Writable)
    (hzero : ¬ p.shares.IsZero) (hvet : l.accumulator.vet index p = .ok ())
    (hsnapshot : p.snapshot = l.accumulator.valuePerShare)
    (hdue : l.accumulator.owed p = .ok p.unclaimed) (hdust : p.unclaimed.dust = p.unclaimed)
    (hwhole : p.unclaimed.whole = .empty) :
    claim index l = .ok ⟨.empty, p.unclaimed, false⟩ l := by
  have hheld : l.accumulator.held index (l.slot index) = .ok p := by
    have hread := h.position
    rw [Ledger.position_apply hw.readable] at hread
    cases hheld : l.accumulator.held index (l.slot index) with
    | error e =>
      rw [hheld] at hread
      cases hread
    | ok p' =>
      rw [hheld] at hread
      cases hread
      rfl
  have hplan : l.accumulator.planClaim index (l.slot index)
      = .ok (⟨.empty, p.unclaimed, false⟩, { position := some (some p) }) := by
    rw [Accumulator.planClaim, hheld]
    simp only [Result.ok_bind, hdue, if_neg hzero, decide_eq_false hzero, hwhole, hdust,
      ← hsnapshot, hvet]
    rfl
  rw [Ledger.claim_apply hw, hplan, carryOut, h.commit_self hw]

theorem Holds.claims (hD : D.card < twoTo 64) (h : l.Holds D pool) {payout : Payout}
    (hok : claim index l = .ok payout l') : l.Claims index payout l' := by
  have hperform : perform (.claim index) l = .ok (.paid payout) l' :=
    Action.bind_pure_eq_ok hok Outcome.paid
  obtain ⟨c, hplanned, hc, rfl⟩ := h.planned_of_perform hperform trivial
  obtain ⟨p, due, hslot, hdue, hcases⟩ := hplanned.of_claim
  obtain ⟨hposition, howed, hnegative, hover⟩ := h.owed_of_slot hslot hdue
  rcases hcases with ⟨hzero, hpaid, rfl⟩ | ⟨hzero, hpaid, hvet, rfl⟩
  · cases hpaid
    refine ⟨p, due, hposition, howed, Payout.splits hover _, h.changesOnly hD hc nofun,
      (decide_eq_true hzero).symm, ?_⟩
    rw [if_pos hzero]
    exact find?_commit_position index none none
  · cases hpaid
    have hstores := h.stores_commit hD hc hnegative
    have hsettled := Accumulator.owed_of_settled h.value_over
      (p := { p with snapshot := l.accumulator.valuePerShare, unclaimed := due.dust }) rfl
      (Decimal.nonneg_of_not_negative hnegative)
    refine ⟨p, due, hposition, howed, Payout.splits hover _, h.changesOnly hD hc nofun,
      (decide_eq_false hzero).symm, ?_⟩
    rw [if_neg hzero]
    exact ⟨hstores, owedAt_of_position hstores.position hsettled,
      hstores.claim_apply (writable_commit h.writable index _) hzero hvet rfl hsettled
        (Rewards.dust_dust hover) (Rewards.whole_dust hover)⟩

theorem Holds.closes (hD : D.card < twoTo 64) (h : l.Holds D pool) {payout : Payout}
    (hok : close index l = .ok payout l') : l.Closes index payout l' := by
  have hperform : perform (.close index) l = .ok (.paid payout) l' :=
    Action.bind_pure_eq_ok hok Outcome.paid
  obtain ⟨c, hplanned, hc, rfl⟩ := h.planned_of_perform hperform trivial
  obtain ⟨p, due, total, hslot, hdue, hpaid, rfl⟩ := hplanned.of_close
  obtain ⟨-, howed, -, hover⟩ := h.owed_of_slot hslot hdue
  cases hpaid
  exact ⟨due, howed, Payout.splits hover _, rfl, find?_commit_position index none _,
    h.changesOnly hD hc fun t ht => by cases ht; rfl⟩

theorem Holds.deletes (hD : D.card < twoTo 64) (h : l.Holds D pool)
    (hok : delete index l = .ok () l') : l.Deletes index l' := by
  have hperform : perform (.delete index) l = .ok .done l' :=
    Action.bind_pure_eq_ok hok fun _ => Outcome.done
  obtain ⟨c, hplanned, hc, rfl⟩ := h.planned_of_perform hperform trivial
  obtain ⟨p, due, hslot, hdue, hzero, hnone, rfl⟩ := hplanned.of_delete
  obtain ⟨hposition, howed, -, -⟩ := h.owed_of_slot hslot hdue
  obtain rfl : due = .empty := by
    rw [← show Rewards.mk due.components = due from rfl, show due.components = [] from hnone]
    rfl
  exact ⟨p, hposition, hzero, howed, find?_commit_position index none none,
    h.changesOnly hD hc nofun⟩

/-- A ledger with a pool behind it settles exactly. -/
theorem Holds.settlesExactly (hD : D.card < twoTo 64) (h : l.Holds D pool) (index : String) :
    l.SettlesExactly index where
  grow := fun x l' hok => by
    have hperform : perform (.grow index x) l = .ok .done l' :=
      Action.bind_pure_eq_ok hok fun _ => Outcome.done
    refine h.resizes hD (.inl rfl) hperform fun p n hn => ?_
    rcases hn with ⟨-, hn⟩ | ⟨heq, -⟩
    · exact hn
    · cases heq
  shrink := fun x l' hok => by
    have hperform : perform (.shrink index x) l = .ok .done l' :=
      Action.bind_pure_eq_ok hok fun _ => Outcome.done
    refine h.resizes hD (.inr rfl) hperform fun p n hn => ?_
    rcases hn with ⟨heq, -⟩ | ⟨-, hn⟩
    · cases heq
    · exact hn
  claim := fun _ _ hok => h.claims hD hok
  close := fun _ _ hok => h.closes hD hok
  delete := fun _ hok => h.deletes hD hok

end Ledger

end Accrual
