/-
The lazy ledger agrees with an eager one.

* `Pool.Refused` — why a step fails;
* `Backed.refused_of_plan` — a step that fails does so by overflow or for the reason of the eager
  ledger;
* `Ledger.eager` — the eager ledger after a run on both;
* `Holds.serves` — one step on both ledgers;
* `lazy_agrees_with_eager` — along a run without overflow both ledgers answer alike, and what can be
  read of a position is what the eager ledger keeps.

Design notes.  In a backed pool what is owed can always be computed and a position at the current
value can always be written, so of all the failures of an operation only its own checks are left,
and the bounds of the decimals.
-/
import Accrual.Proofs.Ledger.Conservation
import Accrual.Proofs.Ledger.Eager
import Accrual.Proofs.Ledger.Lockout

namespace Accrual

open Rewards (fundLimit)

/-! ### Steps that fail -/

namespace Result

variable {α β : Type}

theorem bind_eq_error {x : Except Error α} {f : α → Except Error β} {e : Error} :
    (x >>= f) = .error e ↔ x = .error e ∨ ∃ a, x = .ok a ∧ f a = .error e := by
  cases x with
  | error e' =>
    rw [error_bind]
    exact ⟨.inl ∘ fun h => by cases h; rfl, fun h => h.elim (fun h => by cases h; rfl)
      fun ⟨_, h, _⟩ => nomatch h⟩
  | ok a => simp [ok_bind]

theorem guard_eq_error {p : Prop} [Decidable p] {e e' : Error} {r : Except Error α}
    {r' : Unit → Except Error α} :
    (if p then throw e >>= r' else r) = .error e' ↔ (p ∧ e = e') ∨ (¬ p ∧ r = .error e') := by
  by_cases hp : p
  · rw [if_pos hp]
    simp [hp, throw_eq, error_bind]
  · rw [if_neg hp]
    simp [hp]

theorem map_eq_error {r : Except Error α} {f : α → β} {e : Error} :
    r.map f = .error e ↔ r = .error e := by
  cases r <;> simp [Except.map]

end Result

namespace Accumulator

variable {a : Accumulator} {e : Error}

theorem positive_eq_error {x : Decimal} :
    positive x = .error e ↔ x.toRat ≤ 0 ∧ e = .nonPositiveShares x := by
  rw [← Decimal.toRat_zero, ← Decimal.le_iff]
  unfold positive
  split
  · next h => simp [h, eq_comm]
  · next h => simp [h]

theorem adjusted_eq_error {delta : Decimal} (h : a.adjusted delta = .error e) :
    e = .rewards .overflow ∨ e.IsLack := by
  unfold adjusted totalAfter at h
  obtain h | ⟨_, -, h⟩ := Result.bind_eq_error.mp h
  · split at h
    · cases h
      exact .inl rfl
    · split at h
      · cases h
        exact .inr trivial
      · cases h
  · cases h

end Accumulator

namespace Pool

variable {D : Finset String} {funds : String → ℚ} {pool : Pool} {index : String} {p : Position}
  {step : Step} {e : Error}

theorem held_eq_error :
    pool.accumulator.held index (pool.slot index) = .error e ↔
      pool.find? index = none ∧ e = .positionNotFound pool.accumulator.name index := by
  rw [slot]
  cases pool.find? index <;> simp [Accumulator.held, eq_comm]

theorem held_eq_ok :
    pool.accumulator.held index (pool.slot index) = .ok p ↔ pool.find? index = some p := by
  rw [Accumulator.held_eq_ok, slot_eq_some]

/-- Why a step fails: the total would become negative, a number overflows, or the eager ledger
refuses it too. -/
def Refused (pool : Pool) (step : Step) (e : Error) : Prop :=
  e.IsLack ∨ e = .rewards .overflow ∨
    ∃ r, e.refusal? = some r ∧ ∀ perShare, pool.book.serve perShare step = .error r

theorem Refused.intro {r : Refusal} (he : e.refusal? = some r)
    (h : ∀ perShare, pool.book.serve perShare step = .error r) : pool.Refused step e :=
  .inr (.inr ⟨r, he, h⟩)

theorem Refused.of_adjusted {delta : Decimal} (h : pool.accumulator.adjusted delta = .error e) :
    pool.Refused step e :=
  (Accumulator.adjusted_eq_error h).elim (.inr ∘ .inl) .inl

/-- What is owed is never the reason. -/
theorem Backed.owed_ne_error (h : pool.Backed D funds) (hfunds : ∀ d, funds d ≤ fundLimit)
    (hp : pool.find? index = some p) : pool.accumulator.owed p ≠ .error e := by
  obtain ⟨due, hdue, -⟩ := h.owed hfunds hp
  rw [hdue]
  exact nofun

/-- Nor is a position that is written at the current value. -/
theorem Backed.vet_ne_error (h : pool.Backed D funds) (hindex : Key.IsIndex index)
    (h0 : 0 ≤ p.shares.toRat) (hp : p.snapshot = pool.accumulator.valuePerShare) :
    pool.accumulator.vet index p ≠ .error e := by
  rw [Accumulator.vet_of_snapshot_eq h.sound.value hindex h0 hp]
  exact nofun

theorem Sound.isIndex (h : pool.Sound D) (hp : pool.find? index = some p) : Key.IsIndex index := by
  obtain ⟨index', hindex, heq⟩ := h.indices _ (OrderedMap.mem_of_find? hp)
  exact Bytes.ofString_injective heq ▸ hindex

theorem Backed.refused_inject (h : pool.Backed D funds) {amount : Rewards} (hamount : amount.Over D)
    (hplan : pool.accumulator.planInject amount = .error e) : pool.Refused step e := by
  unfold Accumulator.planInject at hplan
  split at hplan
  · cases hplan
  next hsome =>
  -- there are shares, so the division is by a positive number
  have hpos := lt_of_le_of_ne (h.counted.total ▸ h.sound.shareSum_nonneg)
    fun hzero => hsome (.inr (Decimal.isZero_iff.mpr hzero.symm))
  have hoverflow {r : Except RewardError Rewards} (hr : r.mapError Error.rewards = .error e)
      (hall : ∀ e', r = .error e' → e' = .overflow) : e = .rewards .overflow := by
    cases r with
    | error e' =>
      cases hr
      rw [hall e' rfl]
    | ok _ => cases hr
  refine .inr (.inl ?_)
  obtain hdiv | ⟨perShare, hdiv, hplan⟩ := Result.bind_eq_error.mp hplan
  · exact hoverflow hdiv fun e' he' =>
      (Rewards.pointwise_divideDown hamount.toCanonical hpos).eq_overflow he'
  obtain hadd | ⟨t, -, hplan⟩ := Result.bind_eq_error.mp hplan
  · obtain hadd | ⟨value, -, hadd⟩ := Result.bind_eq_error.mp hadd
    · have hover := hamount.divideDown (Accumulator.mapError_eq_ok.mp hdiv)
      exact hoverflow hadd fun e' he' =>
        (Rewards.pointwise_add h.sound.value.toCanonical hover.toCanonical).eq_overflow he'
    · cases hadd
  · cases hplan

theorem Backed.refused_open (h : pool.Backed D funds) {shares : Decimal} {options : Option Bytes}
    (hplan : pool.accumulator.planOpen index shares pool.accumulator.valuePerShare options
      (pool.slot index) = .error e) : pool.Refused (.openNow index shares options) e := by
  unfold Accumulator.planOpen at hplan
  obtain ⟨hindex, rfl⟩ | ⟨hindex, hplan⟩ := Result.guard_eq_error.mp hplan
  · exact .intro rfl fun _ => by rw [Book.serve, if_pos hindex]
  obtain hfail | ⟨_, hpos, hplan⟩ := Result.bind_eq_error.mp hplan
  · obtain ⟨hneg, rfl⟩ := Accumulator.positive_eq_error.mp hfail
    exact .intro rfl fun _ => by rw [Book.serve, if_neg hindex, if_pos hneg]
  rw [Accumulator.positive_eq_ok, Decimal.le_iff, Decimal.toRat_zero] at hpos
  obtain ⟨hsome, rfl⟩ | ⟨-, hplan⟩ := Result.guard_eq_error.mp hplan
  · refine .intro rfl fun _ => ?_
    have hbook : (pool.book index).isSome := by
      rw [slot, Option.isSome_map] at hsome
      rw [book, Option.isSome_map, hsome]
    rw [Book.serve, if_neg hindex, if_neg hpos, if_pos hbook]
  obtain htotal | ⟨t, -, hplan⟩ := Result.bind_eq_error.mp hplan
  · exact .of_adjusted htotal
  obtain hvet | ⟨_, -, hplan⟩ := Result.bind_eq_error.mp hplan
  · exact absurd hvet (h.vet_ne_error (not_not.mp hindex) (not_le.mp hpos).le rfl)
  · cases hplan

theorem Backed.refused_resize (h : pool.Backed D funds) (hfunds : ∀ d, funds d ≤ fundLimit)
    (hp : pool.find? index = some p) {shares delta : Decimal} (h0 : 0 ≤ shares.toRat)
    (hplan : pool.accumulator.planResize index p shares delta = .error e) :
    pool.Refused step e := by
  unfold Accumulator.planResize at hplan
  obtain hdue | ⟨due, -, hplan⟩ := Result.bind_eq_error.mp hplan
  · exact absurd hdue (h.owed_ne_error hfunds hp)
  obtain htotal | ⟨t, -, hplan⟩ := Result.bind_eq_error.mp hplan
  · exact .of_adjusted htotal
  obtain hvet | ⟨_, -, hplan⟩ := Result.bind_eq_error.mp hplan
  · exact absurd hvet (h.vet_ne_error (h.sound.isIndex hp) h0 rfl)
  · cases hplan

theorem Backed.refused_grow (h : pool.Backed D funds) (hfunds : ∀ d, funds d ≤ fundLimit)
    {x : Decimal} (hplan : pool.accumulator.planGrow index x (pool.slot index) = .error e) :
    pool.Refused (.grow index x) e := by
  unfold Accumulator.planGrow at hplan
  obtain hfail | ⟨_, hpos, hplan⟩ := Result.bind_eq_error.mp hplan
  · obtain ⟨hneg, rfl⟩ := Accumulator.positive_eq_error.mp hfail
    exact .intro rfl fun _ => by rw [Book.serve, if_pos hneg]
  rw [Accumulator.positive_eq_ok, Decimal.le_iff, Decimal.toRat_zero] at hpos
  obtain hfail | ⟨p, hp, hplan⟩ := Result.bind_eq_error.mp hplan
  · obtain ⟨hnone, rfl⟩ := held_eq_error.mp hfail
    exact .intro rfl fun _ => by rw [Book.serve, if_neg hpos, book_of_none hnone]
  rw [held_eq_ok] at hp
  split at hplan
  · cases hplan
    exact .inr (.inl rfl)
  · next shares hsum =>
    -- a sum of numbers that are not negative is not negative
    have h0 : 0 ≤ shares.toRat := by
      have hp0 := h.sound.shares_nonneg hp
      rw [← not_lt, Decimal.add?_lt_zero_iff hsum]
      linarith
    exact h.refused_resize hfunds hp h0 hplan

theorem Backed.refused_shrink (h : pool.Backed D funds) (hfunds : ∀ d, funds d ≤ fundLimit)
    {x : Decimal} (hplan : pool.accumulator.planShrink index x (pool.slot index) = .error e) :
    pool.Refused (.shrink index x) e := by
  unfold Accumulator.planShrink at hplan
  obtain hfail | ⟨_, hpos, hplan⟩ := Result.bind_eq_error.mp hplan
  · obtain ⟨hneg, rfl⟩ := Accumulator.positive_eq_error.mp hfail
    exact .intro rfl fun _ => by rw [Book.serve, if_pos hneg]
  rw [Accumulator.positive_eq_ok, Decimal.le_iff, Decimal.toRat_zero] at hpos
  obtain hfail | ⟨p, hp, hplan⟩ := Result.bind_eq_error.mp hplan
  · obtain ⟨hnone, rfl⟩ := held_eq_error.mp hfail
    exact .intro rfl fun _ => by rw [Book.serve, if_neg hpos, book_of_none hnone]
  rw [held_eq_ok] at hp
  obtain ⟨hfew, rfl⟩ | ⟨henough, hplan⟩ := Result.guard_eq_error.mp hplan
  · refine .intro rfl fun _ => ?_
    rw [Decimal.lt_iff] at hfew
    rw [Book.serve, if_neg hpos, book_of_some hp]
    exact if_pos hfew
  split at hplan
  · cases hplan
    exact .inr (.inl rfl)
  · next shares hrest =>
    have h0 : 0 ≤ shares.toRat := by
      obtain ⟨b, hb, hval⟩ := Decimal.sub?_eq p.shares x
      rw [hb] at hrest
      rw [Decimal.lt_iff, not_lt] at henough
      rw [← not_lt, Decimal.add?_lt_zero_iff hrest, hval]
      linarith
    exact h.refused_resize hfunds hp h0 hplan

theorem Backed.refused_claim (h : pool.Backed D funds) (hfunds : ∀ d, funds d ≤ fundLimit)
    (hplan : pool.accumulator.planClaim index (pool.slot index) = .error e) :
    pool.Refused (.claim index) e := by
  unfold Accumulator.planClaim at hplan
  obtain hfail | ⟨p, hp, hplan⟩ := Result.bind_eq_error.mp hplan
  · obtain ⟨hnone, rfl⟩ := held_eq_error.mp hfail
    exact .intro rfl fun _ => by rw [Book.serve, book_of_none hnone]
  rw [held_eq_ok] at hp
  obtain hdue | ⟨due, -, hplan⟩ := Result.bind_eq_error.mp hplan
  · exact absurd hdue (h.owed_ne_error hfunds hp)
  split at hplan
  · cases hplan
  · have h0 := h.sound.shares_nonneg hp
    obtain hvet | ⟨_, -, hplan⟩ := Result.bind_eq_error.mp hplan
    · exact absurd hvet (h.vet_ne_error (h.sound.isIndex hp) h0 rfl)
    · cases hplan

theorem Backed.refused_delete (h : pool.Backed D funds) (hfunds : ∀ d, funds d ≤ fundLimit)
    (hplan : pool.accumulator.planDelete index (pool.slot index) = .error e) :
    pool.Refused (.delete index) e := by
  unfold Accumulator.planDelete at hplan
  obtain hfail | ⟨p, hp, hplan⟩ := Result.bind_eq_error.mp hplan
  · obtain ⟨hnone, rfl⟩ := held_eq_error.mp hfail
    exact .intro rfl fun _ => by rw [Book.serve, book_of_none hnone]
  rw [held_eq_ok] at hp
  obtain hdue | ⟨due, hdue, hplan⟩ := Result.bind_eq_error.mp hplan
  · exact absurd hdue (h.owed_ne_error hfunds hp)
  obtain ⟨hfull, rfl⟩ | ⟨-, hplan⟩ := Result.guard_eq_error.mp hplan
  · -- a vector is empty exactly when nothing is owed
    refine .intro rfl fun _ => ?_
    obtain ⟨hover, hval⟩ := h.value_due hfunds hp hdue
    rw [Decimal.isZero_iff, hover.isEmpty_iff, hval, not_forall] at hfull
    rw [Book.serve, book_of_some hp]
    exact if_pos hfull
  · cases hplan

theorem Backed.refused_close (h : pool.Backed D funds) (hfunds : ∀ d, funds d ≤ fundLimit)
    (hplan : pool.accumulator.planClose index (pool.slot index) = .error e) :
    pool.Refused (.close index) e := by
  unfold Accumulator.planClose at hplan
  obtain hfail | ⟨p, hp, hplan⟩ := Result.bind_eq_error.mp hplan
  · obtain ⟨hnone, rfl⟩ := held_eq_error.mp hfail
    exact .intro rfl fun _ => by rw [Book.serve, book_of_none hnone]
  rw [held_eq_ok] at hp
  obtain hdue | ⟨due, -, hplan⟩ := Result.bind_eq_error.mp hplan
  · exact absurd hdue (h.owed_ne_error hfunds hp)
  obtain htotal | ⟨t, -, hplan⟩ := Result.bind_eq_error.mp hplan
  · exact .of_adjusted htotal
  · cases hplan

/-- A step that fails does so by overflow or for the reason of the eager ledger. -/
theorem Backed.refused_of_plan (h : pool.Backed D funds) (hstep : step.Whole D)
    (hfunds : ∀ d, funds d + step.injected d ≤ fundLimit) (hplan : pool.plan step = .error e) :
    e = .rewards .overflow ∨
      ∃ r, e.refusal? = some r ∧ ∀ perShare, pool.book.serve perShare step = .error r := by
  have hfunds' := hstep.funds_le hfunds
  -- the total is the sum of the shares, which are enough
  have hlack := h.counted.not_lacks h.sound hstep.paired
  rw [hplan] at hlack
  suffices hrefused : pool.Refused step e from hrefused.resolve_left hlack
  have hplan' := hplan
  cases step <;> replace hplan' := Result.map_eq_error.mp hplan'
  case inject amount => exact h.refused_inject hstep.1 hplan'
  case openNow index shares options => exact h.refused_open hplan'
  case grow index x => exact h.refused_grow hfunds' hplan'
  case shrink index x => exact h.refused_shrink hfunds' hplan'
  case claim index => exact h.refused_claim hfunds' hplan'
  case delete index => exact h.refused_delete hfunds' hplan'
  case close index => exact h.refused_close hfunds' hplan'
  all_goals exact absurd hstep id

end Pool

/-! ### Runs on both ledgers -/

namespace Ledger

variable {D : Finset String} {funds : String → ℚ} {l : Ledger} {pool : Pool} {steps : List Step}

/-- What an answer credits to every share; a failure credits nothing. -/
def perShare : Except Error Outcome → String → ℚ
  | .ok outcome => outcome.perShare.value
  | .error _ => fun _ => 0

/-- The eager ledger after a run on both ledgers. -/
noncomputable def eager (l : Ledger) (book : Book) : List Step → Book
  | [] => book
  | step :: steps => eager (l.next step) (book.next (perShare (l.answer step)) step) steps

/-- The same answer, or a refusal for the same reason. -/
def Alike : Except Error Outcome → Except Refusal (Receipt × Book) → Prop
  | .ok outcome, .ok (receipt, _) => outcome.receipt = receipt
  | .error e, .error r => e.refusal? = some r
  | .ok _, .error _ | .error _, .ok _ => False

/-- What can be read of the positions is what the eager ledger keeps. -/
def Shows (l : Ledger) (book : Book) : Prop :=
  ∀ index, match book index with
    | none => position index l = .error (.positionNotFound l.accumulator.name index) l
    | some entry => ∃ p due, position index l = .ok p l ∧ l.accumulator.owed p = .ok due ∧
      p.shares.toRat = entry.shares ∧ due.value = entry.owed

theorem Holds.shows (h : l.Holds D pool) (hb : pool.Backed D funds)
    (hfunds : ∀ d, funds d ≤ fundLimit) : l.Shows pool.book := by
  intro index
  rw [h.position_apply, Pool.book]
  cases hp : pool.find? index with
  | none => rfl
  | some p =>
    obtain ⟨due, hdue, -⟩ := hb.owed hfunds hp
    obtain ⟨-, hval⟩ := hb.value_due hfunds hp hdue
    exact ⟨p, due, rfl, h.inHand ▸ hdue, rfl, hval⟩

/-- One step on both ledgers. -/
theorem Holds.serves (h : l.Holds D pool) (hb : pool.Backed D funds) {step : Step}
    (hstep : step.Whole D) (hfunds : ∀ d, funds d + step.injected d ≤ fundLimit)
    (hoverflow : l.answer step ≠ .error (.rewards .overflow)) :
    Alike (l.answer step) (pool.book.serve (perShare (l.answer step)) step) ∧
      pool.book.next (perShare (l.answer step)) step = (pool.next step).book := by
  rw [h.answer] at hoverflow ⊢
  cases hplan : pool.plan step with
  | error e =>
    -- both refuse, and stay as they were
    have hanswer := Pool.answer_of_error hplan
    rw [hanswer, Ne, Except.error.injEq] at hoverflow
    obtain ⟨r, hr, hserve⟩ := (hb.refused_of_plan hstep hfunds hplan).resolve_left hoverflow
    rw [hanswer, Pool.next_of_error hplan, Book.next, hserve]
    exact ⟨hr, rfl⟩
  | ok r =>
    -- both do the same
    obtain ⟨outcome, c⟩ := r
    have hanswer := Pool.answer_of_plan hplan
    rw [hanswer, Pool.next_of_plan hplan, Book.next, perShare, hb.serve_of_plan hstep hfunds hplan]
    exact ⟨rfl, rfl⟩

theorem Holds.agrees (hD : D.card < twoTo 64) (h : l.Holds D pool) (hb : pool.Backed D funds)
    (hrun : Funded D funds steps)
    (hoverflow : ∀ p step, p ++ [step] <+: steps →
      (l.after p).answer step ≠ .error (.rewards .overflow)) :
    (∀ p step, p ++ [step] <+: steps → Alike ((l.after p).answer step)
        ((l.eager pool.book p).serve (perShare ((l.after p).answer step)) step)) ∧
      ∀ p, p <+: steps → (l.after p).Shows (l.eager pool.book p) := by
  induction steps generalizing l pool funds with
  | nil =>
    constructor
    · intro p step hp
      exact absurd (List.prefix_nil.1 hp) (by simp)
    · intro p hp
      rw [List.prefix_nil.1 hp]
      exact h.shows hb hrun.funds_le
  | cons step steps ih =>
    obtain ⟨hstep, hfunds⟩ := hrun.head
    -- the first step leaves the eager ledger with the book of the next pool
    obtain ⟨halike, hbook⟩ := h.serves hb hstep hfunds
      (hoverflow [] step (List.prefix_append [step] steps))
    obtain ⟨halikes, hshows⟩ := ih (h.next hD hstep.toOver) (hb.next hstep hfunds) hrun.tail
      (fun p step' hp => hoverflow (step :: p) step' (List.cons_prefix_cons.2 ⟨rfl, hp⟩))
    rw [← hbook] at halikes hshows
    constructor
    · intro p step' hp
      cases p with
      | nil =>
        obtain ⟨rfl, -⟩ := List.cons_prefix_cons.1 hp
        exact halike
      | cons step'' p =>
        rw [List.cons_append] at hp
        obtain ⟨rfl, hrest⟩ := List.cons_prefix_cons.1 hp
        exact halikes p step' hrest
    · intro p hp
      cases p with
      | nil => exact h.shows hb hrun.funds_le
      | cons step'' p =>
        obtain ⟨rfl, hrest⟩ := List.cons_prefix_cons.1 hp
        exact hshows p hrest

/-- In a run of whole operations that injects at most `fundLimit` of each denomination, and in
which no step overflows, every step is answered as by the eager ledger, and after every step the
positions that can be read, their shares and what they are owed are those of the eager ledger. -/
theorem lazy_agrees_with_eager (hD : D.card < twoTo 64) (hl : l.IsNew)
    (hsteps : ∀ step ∈ steps, step.Whole D) (hfunds : ∀ d, injectedTotal steps d ≤ fundLimit)
    (hoverflow : ∀ p step, p ++ [step] <+: steps →
      (l.after p).answer step ≠ .error (.rewards .overflow)) :
    (∀ p step, p ++ [step] <+: steps → Alike ((l.after p).answer step)
        ((l.eager (fun _ => none) p).serve (perShare ((l.after p).answer step)) step)) ∧
      ∀ p, p <+: steps → (l.after p).Shows (l.eager (fun _ => none) p) :=
  (holds_of_isNew hD hl).agrees hD (Pool.backed_new l.accumulator.name)
    ⟨hsteps, fun d => (zero_add _).trans_le (hfunds d)⟩ hoverflow

theorem lazy_agrees_with_eager_thirds :
    (∀ p step, p ++ [step] <+: thirds → Alike (((fresh "pool").after p).answer step)
        (((fresh "pool").eager (fun _ => none) p).serve
          (perShare (((fresh "pool").after p).answer step)) step)) ∧
      ∀ p, p <+: thirds →
        ((fresh "pool").after p).Shows ((fresh "pool").eager (fun _ => none) p) := by
  refine @lazy_agrees_with_eager {"uatom"} (fresh "pool") thirds (by decide)
    (isNew_fresh (by decide)) whole_thirds injectedTotal_thirds_le ?_
  have hall : ∀ q ∈ thirds.inits, ∀ step ∈ q.getLast?,
      ((fresh "pool").after q.dropLast).answer step ≠ .error (.rewards .overflow) := by
    decide +kernel
  intro p step hp
  have hlast := hall _ ((List.mem_inits _ _).2 hp) step List.getLast?_concat
  rwa [List.dropLast_concat] at hlast

end Ledger

end Accrual
