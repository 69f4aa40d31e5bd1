/-
Maps as ascending lists of pairs.

A map is a list of key-value pairs whose keys ascend strictly, so the order in which entries are
listed is the order of the keys.

Main definitions:
* `OrderedMap.Ascending` — the keys ascend strictly;
* `OrderedMap.find?`, `OrderedMap.insert`, `OrderedMap.erase` — look up, set and remove a key.

Main facts:
* `ascending_insert`, `ascending_erase` — the order is kept.
-/

namespace Accrual

namespace OrderedMap

variable {κ ν : Type} [LT κ] [DecidableLT κ] [DecidableEq κ]

/-- The keys ascend strictly from one entry to the next. -/
def Ascending (m : List (κ × ν)) : Prop := m.Pairwise fun a b => a.1 < b.1

instance (m : List (κ × ν)) : Decidable (Ascending m) :=
  inferInstanceAs (Decidable (m.Pairwise fun a b => a.1 < b.1))

/-- The value at a key. -/
def find? (m : List (κ × ν)) (k : κ) : Option ν :=
  match m with
  | [] => none
  | e :: rest => if e.1 = k then some e.2 else find? rest k

/-- Set the value at a key, at its place in the order. -/
def insert (m : List (κ × ν)) (k : κ) (v : ν) : List (κ × ν) :=
  match m with
  | [] => [(k, v)]
  | e :: rest =>
    if e.1 = k then (k, v) :: rest
    else if k < e.1 then (k, v) :: e :: rest
    else e :: insert rest k v

/-- Remove a key. -/
def erase (m : List (κ × ν)) (k : κ) : List (κ × ν) :=
  match m with
  | [] => []
  | e :: rest => if e.1 = k then rest else e :: erase rest k

/-! ### The order is kept -/

theorem mem_of_mem_insert {m : List (κ × ν)} {k : κ} {v : ν} {e : κ × ν}
    (h : e ∈ insert m k v) : e = (k, v) ∨ e ∈ m := by
  induction m with
  | nil => exact .inl (List.mem_singleton.1 h)
  | cons x rest ih =>
    unfold insert at h
    split at h
    · rcases List.mem_cons.1 h with h | h
      · exact .inl h
      · exact .inr (List.mem_cons_of_mem x h)
    · split at h
      · rcases List.mem_cons.1 h with h | h
        · exact .inl h
        · exact .inr h
      · rcases List.mem_cons.1 h with h | h
        · exact .inr (h ▸ List.mem_cons_self)
        · exact (ih h).imp id (List.mem_cons_of_mem x)

omit [LT κ] [DecidableLT κ] in
theorem mem_of_mem_erase {m : List (κ × ν)} {k : κ} {e : κ × ν} (h : e ∈ erase m k) : e ∈ m := by
  induction m with
  | nil => exact h
  | cons x rest ih =>
    unfold erase at h
    split at h
    · exact List.mem_cons_of_mem x h
    · rcases List.mem_cons.1 h with h | h
      · exact h ▸ List.mem_cons_self
      · exact List.mem_cons_of_mem x (ih h)

theorem ascending_insert [LE κ] [Std.IsLinearOrder κ] [Std.LawfulOrderLT κ]
    {m : List (κ × ν)} (h : Ascending m) (k : κ) (v : ν) : Ascending (insert m k v) := by
  induction m with
  | nil => exact List.pairwise_singleton ..
  | cons x rest ih =>
    obtain ⟨hx, hrest⟩ := List.pairwise_cons.1 h
    unfold insert
    split
    · next heq => exact List.pairwise_cons.2 ⟨fun e he => heq ▸ hx e he, hrest⟩
    · next hne =>
      split
      · next hlt =>
        refine List.pairwise_cons.2 ⟨fun e he => ?_, h⟩
        rcases List.mem_cons.1 he with he | he
        · exact he ▸ hlt
        · exact Std.lt_trans hlt (hx e he)
      · next hnlt =>
        refine List.pairwise_cons.2 ⟨fun e he => ?_, ih hrest⟩
        rcases mem_of_mem_insert he with he | he
        · exact he ▸ Std.lt_of_le_of_ne (Std.not_lt.1 hnlt) hne
        · exact hx e he

omit [DecidableLT κ] in
theorem ascending_erase {m : List (κ × ν)} (h : Ascending m) (k : κ) : Ascending (erase m k) := by
  induction m with
  | nil => exact h
  | cons x rest ih =>
    obtain ⟨hx, hrest⟩ := List.pairwise_cons.1 h
    unfold erase
    split
    · exact hrest
    · exact List.pairwise_cons.2 ⟨fun e he => hx e (mem_of_mem_erase he), ih hrest⟩

end OrderedMap

end Accrual
