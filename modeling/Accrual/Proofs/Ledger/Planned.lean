/-
What a successful step does.

* `growthSince_eq_ok`, `owed_eq_ok`, `totalAfter_eq_ok`, `vet_eq_ok` — what the parts of a plan
  say when they succeed;
* `Planned` — every way in which a step can succeed, with what it answers and writes;
* `planned_of_plan` — there is no other way;
* `Planned.of_inject`, `Planned.of_resize`, `Planned.of_claim`, `Planned.of_delete`,
  `Planned.of_close` — those of one operation.
-/
import Accrual.Proofs.Ledger.Plan

namespace Accrual

namespace Accumulator

variable {a : Accumulator}

/-! ### Parts of a plan -/

theorem growthSince_eq_ok {snapshot growth : Rewards} :
    a.growthSince snapshot = .ok growth ↔ a.valuePerShare.sub snapshot = .ok growth := by
  unfold growthSince
  cases a.valuePerShare.sub snapshot with
  | ok r => simp
  | error e => cases e <;> simp

theorem mapError_eq_ok {α ε ε' : Type} {f : ε → ε'} {r : Except ε α} {x : α} :
    r.mapError f = .ok x ↔ r = .ok x := by
  cases r <;> simp [Except.mapError]

theorem owed_eq_ok {p : Position} {due : Rewards} :
    a.owed p = .ok due ↔ ∃ growth accrued, a.valuePerShare.sub p.snapshot = .ok growth ∧
      growth.scale p.shares = .ok accrued ∧ p.unclaimed.add accrued = .ok due := by
  unfold owed
  rw [Result.bind_eq_ok]
  constructor
  · rintro ⟨growth, hgrowth, h⟩
    obtain ⟨accrued, haccrued, hdue⟩ := Result.bind_eq_ok.mp h
    exact ⟨growth, accrued, growthSince_eq_ok.mp hgrowth, mapError_eq_ok.mp haccrued,
      mapError_eq_ok.mp hdue⟩
  · rintro ⟨growth, accrued, hgrowth, haccrued, hdue⟩
    exact ⟨growth, growthSince_eq_ok.mpr hgrowth,
      Result.bind_eq_ok.mpr ⟨accrued, mapError_eq_ok.mpr haccrued, mapError_eq_ok.mpr hdue⟩⟩

theorem totalAfter_eq_ok {delta total : Decimal} :
    a.totalAfter delta = .ok total ↔
      a.totalShares.add? delta = some total ∧ ¬ total < .zero := by
  unfold totalAfter
  cases a.totalShares.add? delta with
  | none => simp
  | some sum =>
    simp only [Option.some.injEq]
    split
    · next h => exact iff_of_false (fun h' => nomatch h') fun h' => h'.2 (h'.1 ▸ h)
    · next h =>
      rw [Except.ok.injEq]
      exact ⟨fun heq => ⟨heq, heq ▸ h⟩, And.left⟩

theorem adjusted_eq_ok {delta : Decimal} {t : Totals} :
    a.adjusted delta = .ok t ↔ ∃ total, a.totalShares.add? delta = some total ∧
      ¬ total < .zero ∧ t = { a.toTotals with totalShares := total } := by
  unfold adjusted
  rw [Result.bind_eq_ok]
  constructor
  · rintro ⟨total, htotal, h⟩
    obtain ⟨hadd, hneg⟩ := totalAfter_eq_ok.mp htotal
    cases h
    exact ⟨total, hadd, hneg, rfl⟩
  · rintro ⟨total, hadd, hneg, rfl⟩
    exact ⟨total, totalAfter_eq_ok.mpr ⟨hadd, hneg⟩, rfl⟩

theorem credited_eq_ok {perShare : Rewards} {t : Totals} :
    a.credited perShare = .ok t ↔ ∃ value, a.valuePerShare.add perShare = .ok value ∧
      t = { a.toTotals with valuePerShare := value } := by
  unfold credited
  rw [Result.bind_eq_ok]
  constructor
  · rintro ⟨value, hvalue, h⟩
    cases h
    exact ⟨value, mapError_eq_ok.mp hvalue, rfl⟩
  · rintro ⟨value, hvalue, rfl⟩
    exact ⟨value, mapError_eq_ok.mpr hvalue, rfl⟩

theorem guard_eq_ok {α : Type} {p : Prop} [Decidable p] {e : Error} {r : Except Error α}
    {r' : Unit → Except Error α} {x : α} :
    (if p then throw e >>= r' else r) = .ok x ↔ ¬ p ∧ r = .ok x := by
  by_cases hp : p
  · rw [if_pos hp]
    exact iff_of_false (fun h => nomatch h) fun h => h.1 hp
  · rw [if_neg hp, and_iff_right hp]

theorem positive_eq_ok {shares : Decimal} {u : Unit} :
    positive shares = .ok u ↔ ¬ shares ≤ .zero := by
  unfold positive
  split
  · next h => exact iff_of_false (fun h' => nomatch h') fun h' => h' h
  · next h => exact iff_of_true rfl h

theorem vet_eq_ok {index : String} {p : Position} {u : Unit} :
    a.vet index p = .ok u ↔ Key.IsIndex index ∧ ¬ p.shares < .zero ∧
      ∃ growth, a.valuePerShare.sub p.snapshot = .ok growth := by
  have hgrowth : (do let _ ← a.growthSince p.snapshot) = .ok u ↔
      ∃ growth, a.valuePerShare.sub p.snapshot = .ok growth := by
    rw [Result.bind_eq_ok]
    exact exists_congr fun growth => by
      rw [growthSince_eq_ok]
      exact and_iff_left rfl
  unfold vet
  rw [guard_eq_ok, guard_eq_ok, hgrowth, Decidable.not_not]

theorem held_eq_ok {index : String} {slot : Slot} {p : Position} :
    a.held index slot = .ok p ↔ slot = some (some p) := by
  rcases slot with _ | _ | p' <;> simp [held]

/-! ### Ways to succeed -/

/-- Every way in which a step succeeds, with its answer and what it writes. -/
inductive Planned (a : Accumulator) : Slot → Step → Outcome → Change → Prop where
  | injectNothing {slot amount} (h : amount.IsEmpty ∨ a.totalShares.IsZero) :
    Planned a slot (.inject amount) (.credited .empty) {}
  | inject {slot amount perShare value} (h : ¬ (amount.IsEmpty ∨ a.totalShares.IsZero))
    (hdiv : amount.divideDown a.totalShares = .ok perShare)
    (hadd : a.valuePerShare.add perShare = .ok value) :
    Planned a slot (.inject amount) (.credited perShare)
      { totals := some { a.toTotals with valuePerShare := value } }
  | credit {slot perShare value} (hadd : a.valuePerShare.add perShare = .ok value) :
    Planned a slot (.credit perShare) .done
      { totals := some { a.toTotals with valuePerShare := value } }
  | adjustShares {slot delta total} (hadd : a.totalShares.add? delta = some total)
    (hnonneg : ¬ total < .zero) :
    Planned a slot (.adjustShares delta) .done
      { totals := some { a.toTotals with totalShares := total } }
  | writePosition {slot index p} (hvet : a.vet index p = .ok ()) :
    Planned a slot (.writePosition index p) .done { position := some (some p) }
  /-- A position is opened, at the current value or at a given snapshot. -/
  | opened {step index shares snapshot options total}
    (hstep : step = .openNow index shares options ∧ snapshot = a.valuePerShare ∨
      step = .openAt index shares snapshot options)
    (hpos : ¬ shares ≤ .zero) (hadd : a.totalShares.add? shares = some total)
    (hnonneg : ¬ total < .zero)
    (hvet : a.vet index ⟨shares, snapshot, .empty, options⟩ = .ok ()) :
    Planned a none step .done
      { position := some (some ⟨shares, snapshot, .empty, options⟩)
        totals := some { a.toTotals with totalShares := total } }
  /-- A position is settled and its shares change by `delta`. -/
  | resized {step index p shares x delta due total}
    (hstep : step = .grow index x ∧ p.shares.add? x = some shares ∧ delta = x ∨
      step = .shrink index x ∧ ¬ p.shares < x ∧ p.shares.sub? x = some shares ∧ delta = x.neg)
    (hpos : ¬ x ≤ .zero) (hdue : a.owed p = .ok due)
    (hadd : a.totalShares.add? delta = some total) (hnonneg : ¬ total < .zero)
    (hvet : a.vet index { p with shares, snapshot := a.valuePerShare, unclaimed := due } = .ok ()) :
    Planned a (some (some p)) step .done
      { position := some (some { p with shares, snapshot := a.valuePerShare, unclaimed := due })
        totals := some { a.toTotals with totalShares := total } }
  | claimedLast {index p due} (hzero : p.shares.IsZero) (hdue : a.owed p = .ok due) :
    Planned a (some (some p)) (.claim index) (.paid ⟨due.whole, due.dust, true⟩)
      { position := some none }
  | claimed {index p due} (hzero : ¬ p.shares.IsZero) (hdue : a.owed p = .ok due)
    (hvet : a.vet index { p with snapshot := a.valuePerShare, unclaimed := due.dust } = .ok ()) :
    Planned a (some (some p)) (.claim index) (.paid ⟨due.whole, due.dust, false⟩)
      { position := some (some { p with snapshot := a.valuePerShare, unclaimed := due.dust }) }
  | resnapshot {index p snapshot} (hvet : a.vet index { p with snapshot } = .ok ()) :
    Planned a (some (some p)) (.resnapshot index snapshot) .done
      { position := some (some { p with snapshot }) }
  | deleted {index p due} (hdue : a.owed p = .ok due) (hzero : p.shares.IsZero)
    (hnone : due.IsEmpty) :
    Planned a (some (some p)) (.delete index) .done { position := some none }
  | closed {index p due total} (hdue : a.owed p = .ok due)
    (hadd : a.totalShares.add? p.shares.neg = some total) (hnonneg : ¬ total < .zero) :
    Planned a (some (some p)) (.close index) (.paid ⟨due.whole, due.dust, true⟩)
      { position := some none, totals := some { a.toTotals with totalShares := total } }

theorem map_eq_ok {α β : Type} {r : Except Error α} {f : α → β} {y : β} :
    r.map f = .ok y ↔ ∃ x, r = .ok x ∧ f x = y := by
  cases r <;> simp [Except.map]

theorem planOpen_eq_ok {index : String} {shares : Decimal} {snapshot : Rewards}
    {options : Option Bytes} {slot : Slot} {r : Unit × Change} :
    a.planOpen index shares snapshot options slot = .ok r ↔
      Key.IsIndex index ∧ ¬ shares ≤ .zero ∧ slot = none ∧
      (∃ t, a.adjusted shares = .ok t ∧ r = ((),
        { position := some (some ⟨shares, snapshot, .empty, options⟩), totals := some t })) ∧
      a.vet index ⟨shares, snapshot, .empty, options⟩ = .ok () := by
  unfold planOpen
  rw [guard_eq_ok, Decidable.not_not]
  refine and_congr_right fun _ => ?_
  constructor
  · intro h
    obtain ⟨_, hpos, h⟩ := Result.bind_eq_ok.mp h
    obtain ⟨hslot, h⟩ := guard_eq_ok.mp h
    obtain ⟨t, ht, h⟩ := Result.bind_eq_ok.mp h
    obtain ⟨_, hvet, h⟩ := Result.bind_eq_ok.mp h
    cases h
    exact ⟨positive_eq_ok.mp hpos, by simpa using hslot, ⟨t, ht, rfl⟩, hvet⟩
  · rintro ⟨hpos, rfl, ⟨t, ht, rfl⟩, hvet⟩
    exact Result.bind_eq_ok.mpr ⟨(), positive_eq_ok.mpr hpos, guard_eq_ok.mpr ⟨by decide,
      Result.bind_eq_ok.mpr ⟨t, ht, Result.bind_eq_ok.mpr ⟨(), hvet, rfl⟩⟩⟩⟩

theorem planResize_eq_ok {index : String} {p : Position} {shares delta : Decimal}
    {r : Unit × Change} (h : a.planResize index p shares delta = .ok r) :
    ∃ due t, a.owed p = .ok due ∧ a.adjusted delta = .ok t ∧
      a.vet index { p with shares, snapshot := a.valuePerShare, unclaimed := due } = .ok () ∧
      r = ((), {
        position := some (some { p with
          shares, snapshot := a.valuePerShare, unclaimed := due })
        totals := some t }) := by
  unfold planResize at h
  obtain ⟨due, hdue, h⟩ := Result.bind_eq_ok.mp h
  obtain ⟨t, ht, h⟩ := Result.bind_eq_ok.mp h
  obtain ⟨_, hvet, h⟩ := Result.bind_eq_ok.mp h
  cases h
  exact ⟨due, t, hdue, ht, hvet, rfl⟩

theorem planned_of_planResize {step : Step} {index : String} {p : Position}
    {shares delta x : Decimal} {r : Unit × Change}
    (h : a.planResize index p shares delta = .ok r) (hpos : ¬ x ≤ .zero)
    (hstep : step = .grow index x ∧ p.shares.add? x = some shares ∧ delta = x ∨
      step = .shrink index x ∧ ¬ p.shares < x ∧ p.shares.sub? x = some shares ∧ delta = x.neg) :
    Planned a (some (some p)) step .done r.2 := by
  obtain ⟨due, t, hdue, ht, hvet, rfl⟩ := planResize_eq_ok h
  obtain ⟨total, hadd, hnonneg, rfl⟩ := adjusted_eq_ok.mp ht
  exact .resized hstep hpos hdue hadd hnonneg hvet

/-- A step that succeeds does so in one of these ways. -/
theorem planned_of_plan {slot : Slot} {step : Step} {outcome : Outcome} {c : Change}
    (h : a.plan slot step = .ok (outcome, c)) : Planned a slot step outcome c := by
  cases step <;> obtain ⟨r, hr, heq⟩ := map_eq_ok.mp h <;> cases heq
  case inject amount =>
    unfold planInject at hr
    split at hr
    · next hnone =>
      cases hr
      exact .injectNothing hnone
    · next hsome =>
      obtain ⟨perShare, hdiv, hr⟩ := Result.bind_eq_ok.mp hr
      obtain ⟨t, ht, hr⟩ := Result.bind_eq_ok.mp hr
      obtain ⟨value, hadd, rfl⟩ := credited_eq_ok.mp ht
      cases hr
      exact .inject hsome (mapError_eq_ok.mp hdiv) hadd
  case credit perShare =>
    obtain ⟨t, ht, hr⟩ := Result.bind_eq_ok.mp hr
    obtain ⟨value, hadd, rfl⟩ := credited_eq_ok.mp ht
    cases hr
    exact .credit hadd
  case adjustShares delta =>
    obtain ⟨t, ht, hr⟩ := Result.bind_eq_ok.mp hr
    obtain ⟨total, hadd, hnonneg, rfl⟩ := adjusted_eq_ok.mp ht
    cases hr
    exact .adjustShares hadd hnonneg
  case writePosition index p =>
    obtain ⟨_, hvet, hr⟩ := Result.bind_eq_ok.mp hr
    cases hr
    exact .writePosition hvet
  case openNow index shares options =>
    obtain ⟨-, hpos, rfl, ⟨t, ht, rfl⟩, hvet⟩ := planOpen_eq_ok.mp hr
    obtain ⟨total, hadd, hnonneg, rfl⟩ := adjusted_eq_ok.mp ht
    exact .opened (.inl ⟨rfl, rfl⟩) hpos hadd hnonneg hvet
  case openAt index shares snapshot options =>
    obtain ⟨-, hpos, rfl, ⟨t, ht, rfl⟩, hvet⟩ := planOpen_eq_ok.mp hr
    obtain ⟨total, hadd, hnonneg, rfl⟩ := adjusted_eq_ok.mp ht
    exact .opened (.inr rfl) hpos hadd hnonneg hvet
  case grow index x =>
    obtain ⟨_, hpos, hr⟩ := Result.bind_eq_ok.mp hr
    obtain ⟨p, hp, hr⟩ := Result.bind_eq_ok.mp hr
    rw [held_eq_ok] at hp
    rw [hp]
    split at hr
    · cases hr
    · next shares hsum =>
      exact planned_of_planResize hr (positive_eq_ok.mp hpos) (.inl ⟨rfl, hsum, rfl⟩)
  case shrink index x =>
    obtain ⟨_, hpos, hr⟩ := Result.bind_eq_ok.mp hr
    obtain ⟨p, hp, hr⟩ := Result.bind_eq_ok.mp hr
    obtain ⟨henough, hr⟩ := guard_eq_ok.mp hr
    rw [held_eq_ok] at hp
    rw [hp]
    split at hr
    · cases hr
    · next shares hrest =>
      exact planned_of_planResize hr (positive_eq_ok.mp hpos) (.inr ⟨rfl, henough, hrest, rfl⟩)
  case claim index =>
    obtain ⟨p, hp, hr⟩ := Result.bind_eq_ok.mp hr
    obtain ⟨due, hdue, hr⟩ := Result.bind_eq_ok.mp hr
    rw [held_eq_ok] at hp
    rw [hp]
    split at hr
    · next hzero =>
      cases hr
      simp only [hzero, decide_true]
      exact .claimedLast hzero hdue
    · next hzero =>
      obtain ⟨_, hvet, hr⟩ := Result.bind_eq_ok.mp hr
      cases hr
      simp only [hzero, decide_false]
      exact .claimed hzero hdue hvet
  case resnapshot index snapshot =>
    obtain ⟨p, hp, hr⟩ := Result.bind_eq_ok.mp hr
    obtain ⟨_, hvet, hr⟩ := Result.bind_eq_ok.mp hr
    rw [held_eq_ok] at hp
    rw [hp]
    cases hr
    exact .resnapshot hvet
  case delete index =>
    obtain ⟨p, hp, hr⟩ := Result.bind_eq_ok.mp hr
    obtain ⟨due, hdue, hr⟩ := Result.bind_eq_ok.mp hr
    obtain ⟨hnone, hr⟩ := guard_eq_ok.mp hr
    rw [held_eq_ok] at hp
    rw [hp]
    rw [not_or, Decidable.not_not, Decidable.not_not] at hnone
    cases hr
    exact .deleted hdue hnone.1 hnone.2
  case close index =>
    obtain ⟨p, hp, hr⟩ := Result.bind_eq_ok.mp hr
    obtain ⟨due, hdue, hr⟩ := Result.bind_eq_ok.mp hr
    obtain ⟨t, ht, hr⟩ := Result.bind_eq_ok.mp hr
    obtain ⟨total, hadd, hnonneg, rfl⟩ := adjusted_eq_ok.mp ht
    rw [held_eq_ok] at hp
    rw [hp]
    cases hr
    exact .closed hdue hadd hnonneg

/-- The ways in which an injection succeeds. -/
theorem Planned.of_inject {slot : Slot} {amount : Rewards} {outcome : Outcome} {c : Change}
    (h : Planned a slot (.inject amount) outcome c) :
    ((amount.IsEmpty ∨ a.totalShares.IsZero) ∧ outcome = .credited .empty ∧ c = {}) ∨
      ¬ (amount.IsEmpty ∨ a.totalShares.IsZero) ∧
        ∃ perShare value, amount.divideDown a.totalShares = .ok perShare ∧
          a.valuePerShare.add perShare = .ok value ∧ outcome = .credited perShare ∧
          c = { totals := some { a.toTotals with valuePerShare := value } } := by
  cases h with
  | opened hopen _ _ _ _ => rcases hopen with ⟨h, -⟩ | h <;> cases h
  | resized hresize _ _ _ _ _ => rcases hresize with ⟨h, -⟩ | ⟨h, -⟩ <;> cases h
  | injectNothing hnone => exact .inl ⟨hnone, rfl, rfl⟩
  | inject hsome hdiv hadd => exact .inr ⟨hsome, _, _, hdiv, hadd, rfl, rfl⟩

/-- The ways in which shares are added to or taken from a position. -/
theorem Planned.of_resize {slot : Slot} {step : Step} {index : String} {x : Decimal}
    {outcome : Outcome} {c : Change} (h : Planned a slot step outcome c)
    (hstep : step = .grow index x ∨ step = .shrink index x) :
    ∃ p shares due total, slot = some (some p) ∧ ¬ x ≤ .zero ∧
      (step = .grow index x ∧ p.shares.add? x = some shares ∨
        step = .shrink index x ∧ ¬ p.shares < x ∧ p.shares.sub? x = some shares) ∧
      a.owed p = .ok due ∧
      c = {
        position := some (some { p with
          shares, snapshot := a.valuePerShare, unclaimed := due })
        totals := some { a.toTotals with totalShares := total } } := by
  cases h with
  | resized hresize hpos hdue _ _ _ =>
    refine ⟨_, _, _, _, rfl, ?_, ?_, hdue, rfl⟩
    · rcases hstep with rfl | rfl <;> rcases hresize with ⟨heq, -⟩ | ⟨heq, -⟩ <;> cases heq <;>
        exact hpos
    · rcases hstep with rfl | rfl <;> rcases hresize with ⟨heq, hx⟩ | ⟨heq, hx⟩ <;> cases heq
      · exact .inl ⟨rfl, hx.1⟩
      · exact .inr ⟨rfl, hx.1, hx.2.1⟩
  | opened hopen _ _ _ _ =>
    rcases hstep with rfl | rfl <;> rcases hopen with ⟨heq, -⟩ | heq <;> cases heq
  | injectNothing | inject | credit | adjustShares | writePosition | claimedLast | claimed
  | resnapshot | deleted | closed => rcases hstep with heq | heq <;> cases heq

/-- The ways in which a claim succeeds. -/
theorem Planned.of_claim {slot : Slot} {index : String} {outcome : Outcome} {c : Change}
    (h : Planned a slot (.claim index) outcome c) :
    ∃ p due, slot = some (some p) ∧ a.owed p = .ok due ∧
      (p.shares.IsZero ∧ outcome = .paid ⟨due.whole, due.dust, true⟩ ∧
          c = { position := some none } ∨
        ¬ p.shares.IsZero ∧ outcome = .paid ⟨due.whole, due.dust, false⟩ ∧
          a.vet index { p with snapshot := a.valuePerShare, unclaimed := due.dust } = .ok () ∧
          c = { position :=
            some (some { p with snapshot := a.valuePerShare, unclaimed := due.dust }) }) := by
  cases h with
  | opened hopen _ _ _ _ => rcases hopen with ⟨h, -⟩ | h <;> cases h
  | resized hresize _ _ _ _ _ => rcases hresize with ⟨h, -⟩ | ⟨h, -⟩ <;> cases h
  | claimedLast hzero hdue => exact ⟨_, _, rfl, hdue, .inl ⟨hzero, rfl, rfl⟩⟩
  | claimed hzero hdue hvet => exact ⟨_, _, rfl, hdue, .inr ⟨hzero, rfl, hvet, rfl⟩⟩

/-- The way in which a position is deleted. -/
theorem Planned.of_delete {slot : Slot} {index : String} {outcome : Outcome} {c : Change}
    (h : Planned a slot (.delete index) outcome c) :
    ∃ p due, slot = some (some p) ∧ a.owed p = .ok due ∧ p.shares.IsZero ∧ due.IsEmpty ∧
      c = { position := some none } := by
  cases h with
  | opened hopen _ _ _ _ => rcases hopen with ⟨h, -⟩ | h <;> cases h
  | resized hresize _ _ _ _ _ => rcases hresize with ⟨h, -⟩ | ⟨h, -⟩ <;> cases h
  | deleted hdue hzero hnone => exact ⟨_, _, rfl, hdue, hzero, hnone, rfl⟩

/-- The way in which a position is closed. -/
theorem Planned.of_close {slot : Slot} {index : String} {outcome : Outcome} {c : Change}
    (h : Planned a slot (.close index) outcome c) :
    ∃ p due total, slot = some (some p) ∧ a.owed p = .ok due ∧
      outcome = .paid ⟨due.whole, due.dust, true⟩ ∧
      c = { position := some none, totals := some { a.toTotals with totalShares := total } } := by
  cases h with
  | opened hopen _ _ _ _ => rcases hopen with ⟨h, -⟩ | h <;> cases h
  | resized hresize _ _ _ _ _ => rcases hresize with ⟨h, -⟩ | ⟨h, -⟩ <;> cases h
  | closed hdue _ _ => exact ⟨_, _, _, rfl, hdue, rfl, rfl⟩

end Accumulator

end Accrual
