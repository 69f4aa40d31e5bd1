/-
Computing rewards one component at a time.

Every operation visits components in ascending order, computes an amount for each and puts it in
its place.  `Rewards.collect` is that pattern, and what holds of it holds of every operation:

* `amount_of_collect` — each amount of the outcome is the one computed for it;
* `collect_eq_error_iff` — the first component that cannot be computed decides the error;
* `collect_over` — the outcome is canonical if the computed amounts are not negative.

`add_eq_collect`, `sub_eq_collect`, `scale_eq_collect` and `divide_eq_collect` bring the operations
to this form.
-/
import Accrual.Proofs.Rewards.Canonical

namespace Accrual

namespace Rewards

/-- Put one computed amount for each of the components `cs` into `out`. -/
def collect (f : String → Decimal → Except RewardError Decimal) (cs : List (String × Decimal))
    (out : Rewards) : Except RewardError Rewards :=
  cs.foldlM (fun out c => (f c.1 c.2).map (out.put c.1)) out

/-- An amount that may overflow. -/
def orOverflow : Option Decimal → Except RewardError Decimal
  | none => .error .overflow
  | some a => .ok a

theorem orOverflow_eq_ok {o : Option Decimal} {a : Decimal} :
    orOverflow o = .ok a ↔ o = some a := by
  cases o <;> simp [orOverflow]

variable {f : String → Decimal → Except RewardError Decimal} {cs : List (String × Decimal)}
  {out out' r s : Rewards} {D : Finset String} {factor divisor : Decimal}

theorem collect_cons_eq_ok {c : String × Decimal} :
    collect f (c :: cs) out = .ok out' ↔
      ∃ a, f c.1 c.2 = .ok a ∧ collect f cs (out.put c.1 a) = .ok out' := by
  unfold collect
  rw [List.foldlM_cons]
  cases h : f c.1 c.2 with
  | error e => simp [Except.map, bind, Except.bind]
  | ok a => simp [Except.map, bind, Except.bind]

/-- The first component that cannot be computed decides the error. -/
theorem collect_eq_error_iff {e : RewardError} :
    collect f cs out = .error e ↔ ∃ before c after, cs = before ++ c :: after ∧
      f c.1 c.2 = .error e ∧ ∀ c' ∈ before, ∃ a, f c'.1 c'.2 = .ok a := by
  induction cs generalizing out with
  | nil =>
    refine iff_of_false (fun h => by cases h) ?_
    rintro ⟨before, c, after, hsplit, -⟩
    exact List.append_ne_nil_of_right_ne_nil before (List.cons_ne_nil c after) hsplit.symm
  | cons x cs ih =>
    cases hx : f x.1 x.2 with
    | error e' =>
      have hcollect : collect f (x :: cs) out = .error e' := by
        rw [collect, List.foldlM_cons, hx]
        rfl
      rw [hcollect, Except.error.injEq]
      constructor
      · rintro rfl
        exact ⟨[], x, cs, rfl, hx, fun _ hc => absurd hc List.not_mem_nil⟩
      · rintro ⟨_ | ⟨y, before⟩, c, after, hsplit, hc, hok⟩
        · rw [List.nil_append, List.cons.injEq] at hsplit
          rwa [← hsplit.1, hx, Except.error.injEq] at hc
        · rw [List.cons_append, List.cons.injEq] at hsplit
          obtain ⟨a, ha⟩ := hok y List.mem_cons_self
          rw [← hsplit.1, hx] at ha
          cases ha
    | ok a =>
      have hcollect : collect f (x :: cs) out = collect f cs (out.put x.1 a) := by
        rw [collect, List.foldlM_cons, hx]
        rfl
      rw [hcollect, ih]
      constructor
      · rintro ⟨before, c, after, rfl, hc, hok⟩
        exact ⟨x :: before, c, after, rfl, hc, List.forall_mem_cons.mpr ⟨⟨a, hx⟩, hok⟩⟩
      · rintro ⟨_ | ⟨y, before⟩, c, after, hsplit, hc, hok⟩
        · rw [List.nil_append, List.cons.injEq] at hsplit
          rw [← hsplit.1, hx] at hc
          cases hc
        · rw [List.cons_append, List.cons.injEq] at hsplit
          exact ⟨before, c, after, hsplit.2, hc, (List.forall_mem_cons.mp hok).2⟩

theorem exists_of_collect_error {e : RewardError} (h : collect f cs out = .error e) :
    ∃ c ∈ cs, f c.1 c.2 = .error e := by
  obtain ⟨before, c, after, rfl, hc, -⟩ := collect_eq_error_iff.mp h
  exact ⟨c, List.mem_append_right before List.mem_cons_self, hc⟩

theorem collect_congr {g : String → Decimal → Except RewardError Decimal}
    (h : ∀ c ∈ cs, f c.1 c.2 = g c.1 c.2) : collect f cs out = collect g cs out := by
  induction cs generalizing out with
  | nil => rfl
  | cons c cs ih =>
    rw [collect, collect, List.foldlM_cons, List.foldlM_cons, h c List.mem_cons_self]
    congr 1
    funext out'
    exact ih fun c' hc' => h c' (List.mem_cons_of_mem c hc')

theorem collect_ok (g : String → Decimal → Decimal) :
    collect (fun d a => .ok (g d a)) cs out
      = .ok (cs.foldl (fun out c => out.put c.1 (g c.1 c.2)) out) := by
  induction cs generalizing out with
  | nil => rfl
  | cons c cs ih => exact ih

theorem collect_over (hout : out.Over D)
    (hcs : ∀ c ∈ cs, c.1 ∈ D ∧ Denom.isValid c.1 = true)
    (hf : ∀ c ∈ cs, ∀ a, f c.1 c.2 = .ok a → 0 ≤ a.toRat)
    (h : collect f cs out = .ok out') : out'.Over D := by
  induction cs generalizing out with
  | nil =>
    cases h
    exact hout
  | cons c cs ih =>
    obtain ⟨a, ha, hrest⟩ := collect_cons_eq_ok.mp h
    obtain ⟨hmem, hvalid⟩ := hcs c List.mem_cons_self
    exact ih (hout.put hmem hvalid (hf c List.mem_cons_self a ha))
      (fun c' hc' => hcs c' (List.mem_cons_of_mem c hc'))
      (fun c' hc' => hf c' (List.mem_cons_of_mem c hc')) hrest

/-- The amounts of what was collected; `cs` lists no denomination twice. -/
theorem amount_of_collect (hcs : OrderedMap.Ascending cs)
    (hout : OrderedMap.Ascending out.components) (h : collect f cs out = .ok out') :
    (∀ c ∈ cs, ∃ a, f c.1 c.2 = .ok a ∧ out'.amount c.1 = a.normalize) ∧
      ∀ d, (∀ c ∈ cs, c.1 ≠ d) → out'.amount d = out.amount d := by
  induction cs generalizing out with
  | nil =>
    cases h
    exact ⟨fun c hc => absurd hc List.not_mem_nil, fun _ _ => rfl⟩
  | cons c cs ih =>
    obtain ⟨a, ha, hrest⟩ := collect_cons_eq_ok.mp h
    obtain ⟨hin, hother⟩ := ih (List.pairwise_cons.1 hcs).2 (ascending_put hout c.1 a) hrest
    constructor
    · intro c' hc'
      rcases List.mem_cons.1 hc' with rfl | hc'
      · -- the later components leave this denomination alone
        refine ⟨a, ha, ?_⟩
        rw [hother c'.1 fun c'' hc'' => (hcs.ne_of_mem hc'').symm, amount_put hout, if_pos rfl]
      · exact hin c' hc'
    · intro d hd
      rw [hother d fun c' hc' => hd c' (List.mem_cons_of_mem c hc'), amount_put hout,
        if_neg (hd c List.mem_cons_self)]

/-! ### The operations -/

/-- No denomination is visited twice, so every sum starts from the amount in `r`. -/
theorem add_eq_collect (hr : OrderedMap.Ascending r.components)
    (hs : OrderedMap.Ascending s.components) :
    r.add s = collect (fun d a => orOverflow ((r.amount d).add? a)) s.components r := by
  have hgen : ∀ (cs : List (String × Decimal)) (out : Rewards), OrderedMap.Ascending cs →
      OrderedMap.Ascending out.components → (∀ c ∈ cs, out.amount c.1 = r.amount c.1) →
      cs.foldlM (fun out c =>
          match (out.amount c.1).add? c.2 with
          | none => .error .overflow
          | some sum => .ok (out.put c.1 sum)) out
        = collect (fun d a => orOverflow ((r.amount d).add? a)) cs out := by
    intro cs
    induction cs with
    | nil => exact fun _ _ _ _ => rfl
    | cons c cs ih =>
      intro out hcs hout hsame
      unfold collect
      rw [List.foldlM_cons, List.foldlM_cons, hsame c List.mem_cons_self]
      dsimp only
      cases (r.amount c.1).add? c.2 with
      | none => rfl
      | some sum =>
        refine ih (out.put c.1 sum) (List.pairwise_cons.1 hcs).2 (ascending_put hout c.1 sum)
          fun c' hc' => ?_
        rw [amount_put hout, if_neg (hcs.ne_of_mem hc'), hsame c' (List.mem_cons_of_mem c hc')]
  exact hgen s.components r hs hr fun _ _ => rfl

theorem sub_eq_collect (r s : Rewards) :
    r.sub s = collect (fun d a =>
      if r.amount d < a then .error (.negativeComponent d (r.amount d) a)
      else orOverflow ((r.amount d).sub? a)) s.components r := by
  unfold sub collect
  congr
  funext out c
  dsimp only
  split
  · rfl
  · cases (r.amount c.1).sub? c.2 <;> rfl

theorem mapM_eq_collect (r : Rewards) (f : Decimal → Except RewardError Decimal) :
    r.mapM f = collect (fun _ a => f a) r.components empty := rfl

theorem scale_eq_collect (h : ¬ factor < .zero) :
    r.scale factor = collect (fun _ a => orOverflow (a.mul? factor)) r.components empty := by
  rw [scale, if_neg h, mapM_eq_collect]
  rfl

theorem divide_eq_collect (hdivisor : 0 < divisor.toRat) :
    r.divide divisor = collect (fun _ a => orOverflow (a.div? divisor)) r.components empty := by
  have hz : ¬ divisor.IsZero := fun hz => hdivisor.ne' (Decimal.isZero_iff.mp hz)
  have hneg : ¬ divisor < .zero := by
    rw [Decimal.lt_iff, Decimal.toRat_zero]
    exact not_lt.mpr hdivisor.le
  rw [divide, if_neg hz, if_neg hneg, mapM_eq_collect]
  rfl

end Rewards

end Accrual
