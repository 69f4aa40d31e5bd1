/-
The options of a position are those it was opened with.

* `Step.given` — the options a step gave to an index, if it opened a position there;
* `Ledger.lastGiven` — those given by the last step of a run that opened one;
* `Planned.options` — a step that does not open a position hands on the options it found;
* `Pool.options_next`, `Holds.options_after` — a step, and a run of steps, on the pool behind the
  ledger;
* `options_as_given` — whatever position can be read after a run carries the options last given to
  its index.

Design notes.  A position that is closed takes its options with it, and one that is opened again
has those of the new opening.  So the last opening counts, and an attempt that failed does not.
-/
import Accrual.Proofs.Ledger.Handle

namespace Accrual

/-- The options that a step gave to an index, from the answer to the step: those of a position that
it opened there. -/
def Step.given (index : String) : Step → Except Error Outcome → Option (Option Bytes)
  | .openNow index' _ options, .ok _ | .openAt index' _ _ options, .ok _ =>
    if index' = index then some options else none
  | _, _ => none

/-- The options that were last given to an index in a run. -/
def Ledger.lastGiven (l : Ledger) (index : String) : List Step → Option (Option Bytes)
  | [] => none
  | step :: steps => ((l.next step).lastGiven index steps).or (step.given index (l.answer step))

namespace Step

variable {step : Step} {index : String}

/-- A failed step gives nothing. -/
theorem given_error (e : Error) : step.given index (.error e) = none := by
  cases step <;> rfl

/-- A step gives options to no index but its own. -/
theorem given_of_ne (h : step.index ≠ index) (answer : Except Error Outcome) :
    step.given index answer = none := by
  cases answer with
  | error e => exact given_error e
  | ok outcome =>
    cases step with
    | openNow index' shares options => exact if_neg h
    | openAt index' shares snapshot options => exact if_neg h
    | _ => rfl

end Step

/-- A step leaves a position with the options it gave, or else with those it found. -/
theorem Accumulator.Planned.options {a : Accumulator} {found : Option Position} {step : Step}
    {outcome : Outcome} {c : Change} (h : Planned a (found.map some) step outcome c)
    (hstep : ∀ index p, step ≠ .writePosition index p) {p : Position}
    (hp : c.position.getD found = some p) :
    (step.given step.index (.ok outcome)).or (found.map Position.options) = some p.options := by
  -- a position that is written over was found
  have hfound {q : Position} (hq : some (some q) = found.map some) : found = some q := by
    cases found <;> cases hq
    rfl
  generalize hslot : found.map some = slot at h
  cases h with
  | injectNothing | inject | credit | adjustShares =>
    cases hp
    rfl
  | writePosition => exact absurd rfl (hstep _ _)
  | opened hopen =>
    cases hp
    rcases hopen with ⟨rfl, -⟩ | rfl <;> exact congrArg (Option.or · _) (if_pos rfl)
  | resized hresize =>
    cases hp
    rw [hfound hslot.symm]
    rcases hresize with ⟨rfl, -⟩ | ⟨rfl, -⟩ <;> rfl
  | claimed | resnapshot =>
    cases hp
    rw [hfound hslot.symm]
    rfl
  | claimedLast | deleted | closed => cases hp

namespace Pool

variable {D : Finset String} {pool : Pool} {index : String} {p : Position}

theorem find?_commit_index (h : OrderedMap.Ascending pool.positions) (c : Change) :
    (pool.commit index c).find? index
      = (c.position.map (Option.map Position.readBack)).getD (pool.find? index) := by
  obtain ⟨position, totals⟩ := c
  cases position with
  | none => rfl
  | some o => exact (find?_commit h index index o totals).trans (if_pos rfl)

theorem find?_commit_of_ne (h : OrderedMap.Ascending pool.positions) {index' : String}
    (hne : index' ≠ index) (c : Change) :
    (pool.commit index' c).find? index = pool.find? index := by
  obtain ⟨position, totals⟩ := c
  cases position with
  | none => rfl
  | some o => exact (find?_commit h index' index o totals).trans (if_neg hne)

/-- A position found after a step has the options that the step gave, or else those from before. -/
theorem options_next (h : pool.Sound D) {step : Step}
    (hstep : ∀ index p, step ≠ .writePosition index p)
    (hp : (pool.next step).find? index = some p) :
    (step.given index (pool.answer step)).or ((pool.find? index).map Position.options)
      = some p.options := by
  cases hplan : pool.plan step with
  | error e =>
    rw [next_of_error hplan] at hp
    rw [answer_of_error hplan, Step.given_error, hp]
    rfl
  | ok r =>
    obtain ⟨outcome, c⟩ := r
    rw [next_of_plan hplan] at hp
    rw [answer_of_plan hplan]
    by_cases hindex : step.index = index
    · subst hindex
      rw [find?_commit_index h.ascending] at hp
      -- reading back what was written does not change the options
      obtain ⟨q, hq, hoptions⟩ : ∃ q, c.position.getD (pool.find? step.index) = some q ∧
          q.options = p.options := by
        rcases hposition : c.position with _ | _ | q <;> rw [hposition] at hp
        · exact ⟨p, hp, rfl⟩
        · cases hp
        · cases hp
          exact ⟨q, rfl, rfl⟩
      rw [← hoptions]
      exact (Accumulator.planned_of_plan hplan).options hstep hq
    · rw [find?_commit_of_ne h.ascending hindex] at hp
      rw [Step.given_of_ne hindex, hp]
      rfl

end Pool

namespace Ledger

variable {D : Finset String} {l : Ledger} {pool : Pool} {steps : List Step} {index : String}
  {p : Position}

/-- A position found after a run has the options last given in it, or else those from before. -/
theorem Holds.options_after (hD : D.card < twoTo 64) (h : l.Holds D pool)
    (hsteps : ∀ step ∈ steps, step.Over D)
    (hwrites : ∀ step ∈ steps, ∀ index p, step ≠ .writePosition index p)
    (hp : (pool.after steps).find? index = some p) :
    (l.lastGiven index steps).or ((pool.find? index).map Position.options) = some p.options := by
  induction steps generalizing l pool with
  | nil =>
    rw [show pool.find? index = some p from hp]
    rfl
  | cons step steps ih =>
    have hstep := hsteps step List.mem_cons_self
    have hrest := ih (h.next hD hstep) (fun s hs => hsteps s (List.mem_cons_of_mem step hs))
      (fun s hs => hwrites s (List.mem_cons_of_mem step hs)) hp
    rw [lastGiven, Option.or_assoc, h.answer]
    cases hlast : (l.next step).lastGiven index steps with
    | some options => rwa [hlast] at hrest
    | none =>
      -- nothing was given after this step, so the options are those right after it
      rw [hlast, Option.none_or, Option.map_eq_some_iff] at hrest
      obtain ⟨q, hq, hoptions⟩ := hrest
      rw [Option.none_or, ← hoptions]
      exact Pool.options_next h.sound (hwrites step List.mem_cons_self) hq

/-- Whatever position can be read after a run carries exactly the options, or their absence, that
were given by the last step that opened its index. -/
theorem options_as_given (hD : D.card < twoTo 64) (hl : l.IsNew)
    (hsteps : ∀ step ∈ steps, step.Over D)
    (hwrites : ∀ step ∈ steps, ∀ index p, step ≠ .writePosition index p)
    (hp : (position index).answer (l.after steps) = .ok p) :
    l.lastGiven index steps = some p.options := by
  have hnew := holds_of_isNew hD hl
  have hholds := hnew.after hD hsteps
  have hfind : ((Pool.new l.accumulator.name).after steps).find? index = some p := by
    rw [Action.answer, hholds.position_apply] at hp
    split at hp
    · next q heq =>
      split at heq <;> cases heq
      cases hp
      assumption
    · cases hp
  have hgiven := hnew.options_after hD hsteps hwrites hfind
  rwa [show (Pool.new l.accumulator.name).find? index = none from rfl, Option.map_none,
    Option.or_none] at hgiven

/-- A position is closed and opened again, twice, of which the second attempt fails. -/
def reopened : List Step :=
  [.openNow "a" (.ofPartsD 3 0) (some [1, 2]), .close "a",
    .openAt "a" (.ofPartsD 2 0) .empty (some [0, 255]), .openNow "a" (.ofPartsD 1 0) none,
    .shrink "a" (.ofPartsD 1 0), .claim "a"]

theorem options_as_given_reopened :
    (fresh "pool").lastGiven "a" reopened = some (some [0, 255]) := by
  refine @options_as_given ∅ (fresh "pool") reopened "a"
    ⟨.ofPartsD 1 0, .empty, .empty, some [0, 255]⟩ (by decide) (isNew_fresh (by decide)) ?_ ?_ ?_
  · simp only [reopened, List.forall_mem_cons]
    refine ⟨?_, trivial, ⟨Rewards.over_empty, ?_⟩, ?_, trivial, trivial, by simp⟩
    all_goals simp [Step.Over, twoTo]
  · simp [reopened]
  · decide +kernel

end Ledger

end Accrual
