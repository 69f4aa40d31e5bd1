/-
Rewards as exact amounts by denomination.

* `Rewards.value` — the exact amount of a denomination; what holds of zero and of every amount
  listed holds of it (`forall_value`);
* `Rewards.Over D` — canonical rewards whose denominations are drawn from the finite set `D`, as
  those of any two are from a common one (`Canonical.exists_over`);
* `amount_put`, `Over.put` — setting a component is seen at that denomination and nowhere else,
  and keeps rewards canonical;
* `Canonical.isEmpty_iff` — canonical rewards are empty when every exact amount is zero;
* `Over.size_le` — no more components than denominations;
* `Canonical.ofPairs_components` — collecting the components of canonical rewards gives them back.
-/
import Mathlib.Data.Finset.Card
import Mathlib.Data.Finset.Dedup
import Accrual.Proofs.Decimal.Exact
import Accrual.Proofs.OrderedMap
import Accrual.Rewards.Arithmetic

namespace Accrual

namespace Rewards

/-! ### Stored amounts -/

theorem IsStored.normalize {a : Decimal} (h : IsStored a) : a.normalize = a := by
  obtain ⟨negative, m, s, hm, hs⟩ := a
  obtain ⟨-, hz, htrail⟩ := h
  have hdrop : Decimal.dropZeros m s = (m, s) := by
    cases s with
    | zero => rfl
    | succ s => exact if_neg (htrail.resolve_left (Nat.succ_ne_zero s))
  have hnz : ¬ Decimal.IsZero ⟨negative, m, s, hm, hs⟩ := hz
  unfold Decimal.normalize
  rw [if_neg hnz]
  simp only [hdrop]

theorem dropZeros_trailing (m s : ℕ) :
    (Decimal.dropZeros m s).2 = 0 ∨ (Decimal.dropZeros m s).1 % 10 ≠ 0 := by
  induction s generalizing m with
  | zero => exact .inl rfl
  | succ s ih =>
    unfold Decimal.dropZeros
    split
    · exact ih (m / 10)
    · next h => exact .inr h

theorem isStored_normalize {a : Decimal} (h0 : 0 ≤ a.toRat) (hz : ¬ a.IsZero) :
    IsStored a.normalize := by
  have hnz : ¬ a.normalize.IsZero := by
    rwa [Decimal.isZero_iff, Decimal.toRat_normalize, ← Decimal.isZero_iff]
  refine ⟨Decimal.not_negative_of_nonneg (by rwa [Decimal.toRat_normalize]) hnz, hnz, ?_⟩
  · rw [Decimal.normalize, if_neg hz]
    exact dropZeros_trailing a.mantissa a.scale

theorem IsStored.not_isZero {a : Decimal} (h : IsStored a) : ¬ a.IsZero := h.2.1

theorem IsStored.toRat_pos {a : Decimal} (h : IsStored a) : 0 < a.toRat :=
  lt_of_le_of_ne (Decimal.nonneg_of_not_negative h.1)
    fun heq => h.not_isZero (Decimal.isZero_iff.mpr heq.symm)

/-! ### Exact amounts -/

/-- The exact amount of a denomination. -/
def value (r : Rewards) (denom : String) : ℚ := (r.amount denom).toRat

@[simp] theorem amount_empty (d : String) : empty.amount d = .zero := rfl

@[simp] theorem value_empty (d : String) : empty.value d = 0 := Decimal.toRat_zero

theorem ascending_empty : OrderedMap.Ascending empty.components := List.Pairwise.nil

/-- Canonical rewards with denominations from `D`. -/
structure Over (D : Finset String) (r : Rewards) : Prop extends Canonical r where
  within : ∀ c ∈ r.components, c.1 ∈ D

variable {D : Finset String} {r s : Rewards}

theorem Over.mono {D D' : Finset String} (h : r.Over D) (hD : D ⊆ D') : r.Over D' :=
  ⟨h.toCanonical, fun c hc => hD (h.within c hc)⟩

/-- The denominations that are listed. -/
def denoms (r : Rewards) : Finset String := (r.components.map Prod.fst).toFinset

theorem Canonical.over (h : r.Canonical) : r.Over r.denoms :=
  ⟨h, fun _ hc => List.mem_toFinset.mpr (List.mem_map_of_mem hc)⟩

/-- Canonical rewards draw on a common set of denominations. -/
theorem Canonical.exists_over (hr : r.Canonical) (hs : s.Canonical) :
    ∃ D, r.Over D ∧ s.Over D :=
  ⟨r.denoms ∪ s.denoms, hr.over.mono Finset.subset_union_left,
    hs.over.mono Finset.subset_union_right⟩

theorem over_empty : empty.Over D where
  ascending := ascending_empty
  valid := fun _ h => nomatch h
  stored := fun _ h => nomatch h
  within := fun _ h => nomatch h

theorem over_singleton {d : String} {a : Decimal} (hd : Denom.isValid d = true)
    (ha : IsStored a) : Rewards.Over {d} ⟨[(d, a)]⟩ where
  ascending := List.pairwise_singleton _ _
  valid := List.forall_mem_singleton.mpr hd
  stored := List.forall_mem_singleton.mpr ha
  within := List.forall_mem_singleton.mpr (Finset.mem_singleton_self d)

theorem Canonical.amount_of_mem (h : r.Canonical) {c : String × Decimal}
    (hc : c ∈ r.components) : r.amount c.1 = c.2 := by
  rw [amount, (OrderedMap.find?_eq_some_iff h.ascending).mpr hc]
  rfl

theorem Canonical.amount_eq_zero_or_mem (r : Rewards) (d : String) :
    r.amount d = .zero ∨ (d, r.amount d) ∈ r.components := by
  rw [amount]
  cases hfind : OrderedMap.find? r.components d with
  | none => exact .inl rfl
  | some a => exact .inr (OrderedMap.mem_of_find? hfind)

/-- A zero amount is the plain one. -/
theorem Canonical.amount_of_isZero (h : r.Canonical) {d : String} (hz : (r.amount d).IsZero) :
    r.amount d = .zero :=
  (Canonical.amount_eq_zero_or_mem r d).resolve_right fun hmem =>
    (h.stored _ hmem).not_isZero hz

/-- What holds of zero and of every amount holds of the value of any denomination. -/
theorem forall_value {P : ℚ → Prop} (h0 : P 0) (h : ∀ c ∈ r.components, P c.2.toRat)
    (d : String) : P (r.value d) := by
  rw [value]
  rcases Canonical.amount_eq_zero_or_mem r d with hz | hmem
  · rw [hz, Decimal.toRat_zero]
    exact h0
  · exact h _ hmem

theorem Canonical.amount_not_negative (h : r.Canonical) (d : String) :
    (r.amount d).negative = false := by
  rcases Canonical.amount_eq_zero_or_mem r d with hz | hmem
  · rw [hz]
    rfl
  · exact (h.stored _ hmem).1

theorem Canonical.value_nonneg (h : r.Canonical) (d : String) : 0 ≤ r.value d :=
  Decimal.nonneg_of_not_negative (h.amount_not_negative d)

theorem Canonical.value_pos_of_mem (h : r.Canonical) {c : String × Decimal}
    (hc : c ∈ r.components) : 0 < r.value c.1 := by
  rw [value, h.amount_of_mem hc]
  exact (h.stored c hc).toRat_pos

theorem Canonical.isEmpty_iff (h : r.Canonical) : r.IsEmpty ↔ ∀ d, r.value d = 0 := by
  constructor
  · intro he d
    rw [value, amount, he]
    exact Decimal.toRat_zero
  · intro hall
    rw [IsEmpty, List.eq_nil_iff_forall_not_mem]
    intro c hc
    exact (h.value_pos_of_mem hc).ne' (hall c.1)

theorem Over.size_le (h : r.Over D) : r.size ≤ D.card := by
  have hnodup : (r.components.map Prod.fst).Nodup := by
    rw [List.Nodup, List.pairwise_map]
    exact h.ascending.imp fun {c c'} hlt (heq : c.1 = c'.1) => Std.lt_irrefl (heq ▸ hlt)
  rw [size, ← List.length_map (f := Prod.fst), ← List.toFinset_card_of_nodup hnodup]
  refine Finset.card_le_card fun d hd => ?_
  obtain ⟨c, hc, rfl⟩ := List.mem_map.1 (List.mem_toFinset.1 hd)
  exact h.within c hc

/-! ### Setting a component -/

theorem ascending_put (h : OrderedMap.Ascending r.components) (d : String) (a : Decimal) :
    OrderedMap.Ascending (r.put d a).components := by
  unfold put
  split
  · exact OrderedMap.ascending_erase h d
  · exact OrderedMap.ascending_insert h d a.normalize

theorem amount_put (h : OrderedMap.Ascending r.components) (d d' : String) (a : Decimal) :
    (r.put d a).amount d' = if d = d' then a.normalize else r.amount d' := by
  unfold put
  split
  · next hz =>
    rw [amount, OrderedMap.find?_erase h, Decimal.normalize, if_pos hz]
    split <;> rfl
  · rw [amount, OrderedMap.find?_insert]
    split <;> rfl

theorem Over.put (h : r.Over D) {d : String} (hd : d ∈ D) (hvalid : Denom.isValid d = true)
    {a : Decimal} (ha : 0 ≤ a.toRat) : (r.put d a).Over D := by
  unfold Rewards.put
  split
  · exact
      { ascending := OrderedMap.ascending_erase h.ascending d
        valid := fun c hc => h.valid c (OrderedMap.mem_of_mem_erase hc)
        stored := fun c hc => h.stored c (OrderedMap.mem_of_mem_erase hc)
        within := fun c hc => h.within c (OrderedMap.mem_of_mem_erase hc) }
  · next hz =>
    have hcases {P : String × Decimal → Prop} (hnew : P (d, a.normalize))
        (hold : ∀ c ∈ r.components, P c) :
        ∀ c ∈ OrderedMap.insert r.components d a.normalize, P c := by
      intro c hc
      rcases OrderedMap.mem_of_mem_insert hc with rfl | hc
      · exact hnew
      · exact hold c hc
    exact
      { ascending := OrderedMap.ascending_insert h.ascending d a.normalize
        valid := hcases hvalid h.valid
        stored := hcases (isStored_normalize ha hz) h.stored
        within := hcases hd h.within }

/-! ### Collecting components -/

theorem insert_append_of_lt {m : List (String × Decimal)} {d : String}
    (h : ∀ c ∈ m, c.1 < d) (a : Decimal) : OrderedMap.insert m d a = m ++ [(d, a)] := by
  induction m with
  | nil => rfl
  | cons c rest ih =>
    have hc := h c List.mem_cons_self
    rw [OrderedMap.insert, if_neg (fun heq => Std.lt_irrefl (heq ▸ hc)),
      if_neg (fun hlt => Std.lt_irrefl (Std.lt_trans hc hlt)),
      ih fun c' hc' => h c' (List.mem_cons_of_mem c hc')]
    rfl

theorem deposit_of_lt {d : String} {a : Decimal} (hvalid : Denom.isValid d = true)
    (ha : IsStored a) (h : ∀ c ∈ r.components, c.1 < d) :
    r.deposit d a = .ok ⟨r.components ++ [(d, a)]⟩ := by
  have habsent : r.amount d = .zero := by
    rw [amount, OrderedMap.find?_eq_none_iff.mpr fun c hc heq => Std.lt_irrefl (heq ▸ h c hc)]
    rfl
  have hnonneg : ¬ a < .zero := by
    rw [Decimal.lt_iff, Decimal.toRat_zero, not_lt]
    exact ha.toRat_pos.le
  have hsum : Decimal.zero.add? a = some a := if_pos rfl
  rw [deposit, hvalid, if_neg (by decide), if_neg hnonneg, habsent, hsum]
  simp only
  rw [put, if_neg ha.not_isZero, ha.normalize, insert_append_of_lt h]

theorem foldlM_deposit {out rest : List (String × Decimal)}
    (h : Canonical ⟨out ++ rest⟩) :
    rest.foldlM (fun r p => Rewards.deposit r p.1 p.2) ⟨out⟩ = .ok ⟨out ++ rest⟩ := by
  induction rest generalizing out with
  | nil =>
    rw [List.append_nil]
    rfl
  | cons c rest ih =>
    have hmem : c ∈ out ++ c :: rest := List.mem_append_right out List.mem_cons_self
    have hbelow : ∀ c' ∈ out, c'.1 < c.1 := fun c' hc' =>
      (List.pairwise_append.1 h.ascending).2.2 c' hc' c List.mem_cons_self
    rw [List.foldlM_cons, deposit_of_lt (h.valid c hmem) (h.stored c hmem) hbelow]
    have happend : out ++ c :: rest = (out ++ [c]) ++ rest := by simp
    rw [happend] at h ⊢
    exact ih h

theorem Canonical.ofPairs_components (h : r.Canonical) : ofPairs r.components = .ok r :=
  @foldlM_deposit [] r.components h

end Rewards

end Accrual
