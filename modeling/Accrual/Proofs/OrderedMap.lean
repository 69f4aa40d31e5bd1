/-
Look-ups, sums and sections of ordered maps.

* `find?_insert`, `find?_erase` — setting or removing a key is seen at that key and nowhere else;
* `find?_eq_some_iff` — look-up and membership agree;
* `Ascending.ext` — maps with the same look-ups are the same;
* `sum_insert`, `sum_erase` — a sum over the values changes by the value at that key;
* `filter_insert`, `filter_erase` — the entries with certain keys are a map of their own, known by
  the look-ups of these keys (`filter_eq_of_find?`);
* `Corresponds` — two maps whose keys correspond and whose values are related; they stay so when
  both are changed at corresponding keys.
-/
import Mathlib.Algebra.BigOperators.Group.List.Basic
import Mathlib.Algebra.Order.Ring.Rat
import Mathlib.Data.List.Forall2
import Mathlib.Data.List.Sort
import Mathlib.Tactic.Ring
import Accrual.OrderedMap

namespace Accrual

namespace OrderedMap

variable {κ κ' ν ν' : Type}

/-- The sum of `f` over the values of a map. -/
def sum (f : ν → ℚ) (m : List (κ × ν)) : ℚ := (m.map fun e => f e.2).sum

@[simp] theorem sum_nil (f : ν → ℚ) : sum f ([] : List (κ × ν)) = 0 := rfl

theorem sum_cons (f : ν → ℚ) (e : κ × ν) (m : List (κ × ν)) :
    sum f (e :: m) = f e.2 + sum f m := by
  rw [sum, List.map_cons, List.sum_cons, sum]

/-! ### Without an order -/

section Unordered

variable [DecidableEq κ]

/-- The value of `f` at a key, zero where there is none. -/
def valueAt (f : ν → ℚ) (m : List (κ × ν)) (k : κ) : ℚ := ((find? m k).map f).getD 0

theorem mem_of_find? {m : List (κ × ν)} {k : κ} {v : ν} (h : find? m k = some v) :
    (k, v) ∈ m := by
  induction m with
  | nil => cases h
  | cons e rest ih =>
    unfold find? at h
    split at h
    · next hk =>
      rw [Option.some.injEq] at h
      subst hk h
      exact List.mem_cons_self
    · exact List.mem_cons_of_mem e (ih h)

theorem find?_eq_none_iff {m : List (κ × ν)} {k : κ} :
    find? m k = none ↔ ∀ e ∈ m, e.1 ≠ k := by
  induction m with
  | nil => simp [find?]
  | cons e rest ih =>
    rw [find?, List.forall_mem_cons]
    split
    · next h => simp [h]
    · next h => rw [ih, and_iff_right h]

theorem sum_erase (f : ν → ℚ) (m : List (κ × ν)) (k : κ) :
    sum f (erase m k) = sum f m - valueAt f m k := by
  induction m with
  | nil => simp [erase, valueAt, find?]
  | cons e rest ih =>
    unfold erase
    split
    · next hk =>
      rw [sum_cons, valueAt, find?, if_pos hk]
      simp only [Option.map_some, Option.getD_some]
      ring
    · next hk =>
      rw [sum_cons, sum_cons, ih, valueAt, valueAt, find?, if_neg hk]
      ring

theorem filter_erase (p : κ → Bool) (m : List (κ × ν)) (k : κ) :
    (erase m k).filter (fun e => p e.1)
      = if p k then erase (m.filter fun e => p e.1) k else m.filter fun e => p e.1 := by
  induction m with
  | nil => exact (ite_self _).symm
  | cons e rest ih =>
    unfold erase
    split
    · next hk =>
      rw [List.filter_cons, hk]
      split
      · simp only [hk, if_true]
      · rfl
    · next hk =>
      rw [List.filter_cons, List.filter_cons, ih]
      by_cases hpe : p e.1
      · by_cases hp : p k
        · simp only [hpe, hp, if_true, if_neg hk]
        · simp only [hpe, hp, Bool.false_eq_true, if_true, if_false]
      · simp only [hpe, Bool.false_eq_true, if_false]
        cases rest.filter fun e => p e.1 <;> rfl

theorem find?_filter (p : κ → Bool) (m : List (κ × ν)) {k : κ} (hp : p k) :
    find? (m.filter fun e => p e.1) k = find? m k := by
  induction m with
  | nil => rfl
  | cons e rest ih =>
    by_cases hpe : p e.1
    · rw [List.filter_cons, if_pos hpe, find?, find?, ih]
    · have hk : e.1 ≠ k := fun heq => hpe (heq ▸ hp)
      rw [List.filter_cons, if_neg hpe, ih, find?, if_neg hk]

end Unordered

/-! ### In order -/

section Ordered

variable [LT κ] [DecidableLT κ] [DecidableEq κ]

theorem find?_insert (m : List (κ × ν)) (k k' : κ) (v : ν) :
    find? (insert m k v) k' = if k = k' then some v else find? m k' := by
  induction m with
  | nil => rfl
  | cons e rest ih =>
    unfold insert
    split
    · next h => by_cases hk : k = k' <;> simp [find?, h, hk]
    · next h =>
      split
      · rfl
      · rw [find?, ih, find?]
        by_cases hk : k = k'
        · subst hk
          rw [if_neg h, if_pos rfl, if_pos rfl]
        · rw [if_neg hk, if_neg hk]

variable [LE κ] [Std.LawfulOrderLT κ]

omit [LE κ] [Std.LawfulOrderLT κ] in
theorem mem_insert_self (m : List (κ × ν)) (k : κ) (v : ν) : (k, v) ∈ insert m k v :=
  mem_of_find? (by rw [find?_insert, if_pos rfl])

omit [DecidableLT κ] [DecidableEq κ] in
theorem Ascending.ne_of_mem {e : κ × ν} {rest : List (κ × ν)} (h : Ascending (e :: rest))
    {e' : κ × ν} (he : e' ∈ rest) : e.1 ≠ e'.1 := by
  intro heq
  have := (List.pairwise_cons.1 h).1 e' he
  rw [heq] at this
  exact Std.lt_irrefl this

omit [DecidableLT κ] in
theorem find?_eq_some_iff {m : List (κ × ν)} (h : Ascending m) {k : κ} {v : ν} :
    find? m k = some v ↔ (k, v) ∈ m := by
  refine ⟨mem_of_find?, fun hmem => ?_⟩
  induction m with
  | nil => cases hmem
  | cons e rest ih =>
    unfold find?
    rcases List.mem_cons.1 hmem with heq | hmem
    · rw [← heq, if_pos rfl]
    · rw [if_neg (h.ne_of_mem hmem), ih (List.pairwise_cons.1 h).2 hmem]

omit [DecidableLT κ] in
/-- A map is known by its look-ups. -/
theorem Ascending.ext [Std.IsLinearOrder κ] {m m' : List (κ × ν)} (h : Ascending m)
    (h' : Ascending m') (heq : ∀ k, find? m k = find? m' k) : m = m' := by
  have : Std.Irrefl fun a b : κ × ν => a.1 < b.1 := ⟨fun _ => Std.lt_irrefl⟩
  have : Std.Antisymm fun a b : κ × ν => a.1 < b.1 :=
    ⟨fun _ _ hlt hgt => absurd hgt (Std.not_lt.2 (Std.le_of_lt hlt))⟩
  exact List.Pairwise.eq_of_mem_iff h h' fun e => by
    rw [← find?_eq_some_iff h, ← find?_eq_some_iff h', heq]

omit [DecidableLT κ] in
theorem find?_erase {m : List (κ × ν)} (h : Ascending m) (k k' : κ) :
    find? (erase m k) k' = if k = k' then none else find? m k' := by
  induction m with
  | nil => simp [find?, erase]
  | cons e rest ih =>
    have ih := ih (List.pairwise_cons.1 h).2
    unfold erase
    split
    · next heq =>
      by_cases hk : k = k'
      · subst hk
        rw [if_pos rfl, find?_eq_none_iff]
        exact fun e' he' => (heq ▸ h.ne_of_mem he').symm
      · rw [if_neg hk, find?, if_neg (by rw [heq]; exact hk)]
    · next hne =>
      rw [find?, ih, find?]
      by_cases hk : k = k'
      · subst hk
        rw [if_neg hne, if_pos rfl, if_pos rfl]
      · rw [if_neg hk, if_neg hk]

omit [DecidableLT κ] in
theorem valueAt_of_lt (f : ν → ℚ) {m : List (κ × ν)} {k : κ} (h : ∀ e ∈ m, k < e.1) :
    valueAt f m k = 0 := by
  rw [valueAt, find?_eq_none_iff.mpr fun e he heq => Std.lt_irrefl (heq ▸ h e he)]
  rfl

theorem sum_insert [Std.IsLinearOrder κ] (f : ν → ℚ) {m : List (κ × ν)} (h : Ascending m) (k : κ)
    (v : ν) :
    sum f (insert m k v) = sum f m + f v - valueAt f m k := by
  induction m with
  | nil => simp [insert, sum_cons, valueAt, find?]
  | cons e rest ih =>
    obtain ⟨he, hrest⟩ := List.pairwise_cons.1 h
    have ih := ih hrest
    unfold insert
    split
    · next hk =>
      rw [sum_cons, sum_cons, valueAt, find?, if_pos hk]
      simp only [Option.map_some, Option.getD_some]
      ring
    · next hk =>
      split
      · next hlt =>
        rw [sum_cons, valueAt_of_lt]
        · ring
        · intro e' he'
          rcases List.mem_cons.1 he' with rfl | he'
          · exact hlt
          · exact Std.lt_trans hlt (he e' he')
      · rw [sum_cons, sum_cons, ih, valueAt, valueAt, find?, if_neg hk]
        ring

/-- Setting a key to the value it has changes nothing. -/
theorem insert_eq_self [Std.IsLinearOrder κ] {m : List (κ × ν)} (h : Ascending m) {k : κ} {v : ν}
    (hv : find? m k = some v) : insert m k v = m := by
  refine Ascending.ext (ascending_insert h k v) h fun k' => ?_
  rw [find?_insert]
  split
  · next hk => rw [← hk, hv]
  · rfl

theorem insert_of_lt {m : List (κ × ν)} {k : κ} (h : ∀ e ∈ m, k < e.1) (v : ν) :
    insert m k v = (k, v) :: m := by
  cases m with
  | nil => rfl
  | cons e m =>
    have he := h e List.mem_cons_self
    rw [insert, if_neg (fun heq => Std.lt_irrefl (heq ▸ he)), if_pos he]

theorem filter_insert [Std.IsLinearOrder κ] (p : κ → Bool) {m : List (κ × ν)} (h : Ascending m)
    (k : κ) (v : ν) :
    (insert m k v).filter (fun e => p e.1)
      = if p k then insert (m.filter fun e => p e.1) k v else m.filter fun e => p e.1 := by
  induction m with
  | nil => by_cases hp : p k <;> simp [insert, hp]
  | cons e rest ih =>
    obtain ⟨he, hrest⟩ := List.pairwise_cons.1 h
    have ih := ih hrest
    by_cases hk : e.1 = k
    · subst hk
      by_cases hp : p e.1 <;> simp [hp, insert]
    · by_cases hlt : k < e.1
      · -- the new entry stands before every entry that is kept
        have hall : ∀ e' ∈ (e :: rest).filter (fun e => p e.1), k < e'.1 := by
          intro e' he'
          rcases List.mem_cons.1 (List.mem_filter.1 he').1 with rfl | hmem
          · exact hlt
          · exact Std.lt_trans hlt (he e' hmem)
        rw [insert_of_lt hall, insert, if_neg hk, if_pos hlt, List.filter_cons]
      · rw [insert, if_neg hk, if_neg hlt, List.filter_cons, ih, List.filter_cons]
        by_cases hp : p k <;> by_cases hpe : p e.1 <;> simp [hp, hpe, insert, hk, hlt]

omit [DecidableLT κ] in
/-- The entries with certain keys are known by the look-ups of these keys. -/
theorem filter_eq_of_find? [Std.IsLinearOrder κ] (p : κ → Bool) {m m' : List (κ × ν)}
    (h : Ascending m) (h' : Ascending m') (heq : ∀ k, p k → find? m k = find? m' k) :
    m.filter (fun e => p e.1) = m'.filter fun e => p e.1 := by
  refine Ascending.ext (List.Pairwise.filter _ h) (List.Pairwise.filter _ h') fun k => ?_
  by_cases hp : p k
  · rw [find?_filter p m hp, find?_filter p m' hp, heq k hp]
  · have hnone (l : List (κ × ν)) : find? (l.filter fun e => p e.1) k = none :=
      find?_eq_none_iff.mpr fun e he hk => hp (hk ▸ (List.mem_filter.1 he).2)
    rw [hnone, hnone]

end Ordered

/-! ### Corresponding maps -/

section Corresponding

/-- The entries of two maps correspond: the keys through `f`, the values by `R`. -/
def Corresponds (f : κ' → κ) (R : ν → ν' → Prop) : List (κ × ν) → List (κ' × ν') → Prop :=
  List.Forall₂ fun e e' => e.1 = f e'.1 ∧ R e.2 e'.2

variable [DecidableEq κ] [DecidableEq κ'] {f : κ' → κ} {R : ν → ν' → Prop}
  {m : List (κ × ν)} {m' : List (κ' × ν')}

theorem Corresponds.find? (h : Corresponds f R m m') (hf : ∀ a b, f a = f b ↔ a = b) (k : κ') :
    Option.Rel R (find? m (f k)) (find? m' k) := by
  induction h with
  | nil => exact .none
  | @cons e e' rest rest' he _ ih =>
    rw [OrderedMap.find?, OrderedMap.find?, he.1]
    by_cases hk : e'.1 = k
    · rw [if_pos (by rw [hk]), if_pos hk]
      exact .some he.2
    · rw [if_neg (by rwa [hf]), if_neg hk]
      exact ih

theorem Corresponds.erase (h : Corresponds f R m m') (hf : ∀ a b, f a = f b ↔ a = b) (k : κ') :
    Corresponds f R (erase m (f k)) (erase m' k) := by
  induction h with
  | nil => exact .nil
  | @cons e e' rest rest' he hrest ih =>
    rw [OrderedMap.erase, OrderedMap.erase, he.1]
    by_cases hk : e'.1 = k
    · rw [if_pos (by rw [hk]), if_pos hk]
      exact hrest
    · rw [if_neg (by rwa [hf]), if_neg hk]
      exact .cons he ih

theorem Corresponds.insert [LT κ] [DecidableLT κ] [LT κ'] [DecidableLT κ']
    (h : Corresponds f R m m') (hf : ∀ a b, f a = f b ↔ a = b)
    (hlt : ∀ a b, f a < f b ↔ a < b) (k : κ') {v : ν} {v' : ν'} (hv : R v v') :
    Corresponds f R (insert m (f k) v) (insert m' k v') := by
  induction h with
  | nil => exact .cons ⟨rfl, hv⟩ .nil
  | @cons e e' rest rest' he hrest ih =>
    rw [OrderedMap.insert, OrderedMap.insert, he.1]
    by_cases hk : e'.1 = k
    · rw [if_pos (by rw [hk]), if_pos hk]
      exact .cons ⟨rfl, hv⟩ hrest
    · rw [if_neg (by rwa [hf]), if_neg hk]
      by_cases hkl : k < e'.1
      · rw [if_pos ((hlt _ _).mpr hkl), if_pos hkl]
        exact .cons ⟨rfl, hv⟩ (.cons he hrest)
      · rw [if_neg (by rwa [hlt]), if_neg hkl]
        exact .cons he ih

end Corresponding

end OrderedMap

end Accrual
