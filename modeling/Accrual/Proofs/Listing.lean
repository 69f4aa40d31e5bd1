/-
Listing the records whose keys begin with given bytes.

A database lists a range of keys, up to a bound that is computed from the beginning.  A map goes
on from the beginning until it meets a key that does not begin so.

* `Bytes.IsAbove start bound` — `bound` is greater than everything that begins with `start`;
* `Bytes.isAbove_cons_cons` — such bounds compared byte by byte;
* `Bytes.above?_eq_some_iff`, `Bytes.above?_eq_none_iff` — `Bytes.above?` is the least of them, and
  there is none only where it says so;
* `Store.listings_agree` — both kinds of stores list the same records: those whose keys begin with
  the given bytes, each once, in ascending order.
-/
import Accrual.Proofs.Store

namespace Accrual

namespace Bytes

variable {start bound : Bytes}

/-- `bound` is greater than everything that begins with `start`. -/
def IsAbove (start bound : Bytes) : Prop := ∀ k, start <+: k → k < bound

theorem not_isAbove_nil (start : Bytes) : ¬ IsAbove start [] := fun h =>
  List.not_lt_nil start (h start List.prefix_rfl)

/-- After a greater first byte anything may follow, after the same one only a bound of the rest. -/
theorem isAbove_cons_cons {c d : UInt8} :
    IsAbove (c :: start) (d :: bound) ↔ c < d ∨ c = d ∧ IsAbove start bound := by
  constructor
  · intro h
    have hself := List.cons_lt_cons_iff.mp (h (c :: start) List.prefix_rfl)
    refine hself.imp_right fun ⟨hcd, _⟩ => ⟨hcd, fun k hk => ?_⟩
    have hlt := List.cons_lt_cons_iff.mp (h (c :: k) (List.cons_prefix_cons.mpr ⟨rfl, hk⟩))
    rw [hcd] at hlt
    exact (hlt.resolve_left Std.lt_irrefl).2
  · rintro h k ⟨rest, rfl⟩
    rw [List.cons_append, List.cons_lt_cons_iff]
    exact h.imp_right fun ⟨hcd, habove⟩ => ⟨hcd, habove _ (List.prefix_append start rest)⟩

theorem isAbove_of_above? (h : above? start = some bound) : IsAbove start bound := fun k hk =>
  ((isPrefixOf_iff start k).mp (List.isPrefixOf_iff_prefix.mpr hk)).2 bound h

/-- Where no byte can grow, nothing is above. -/
theorem not_isAbove_of_above? (h : above? start = none) (bound : Bytes) :
    ¬ IsAbove start bound := by
  induction start generalizing bound with
  | nil => exact fun habove => Std.lt_irrefl (habove bound List.nil_prefix)
  | cons c start ih =>
    cases hrest : above? start with
    | some rest =>
      rw [above?, hrest] at h
      cases h
    | none =>
      have hc : ¬ c < 255 := fun hc => by
        rw [above?, hrest] at h
        simp only [if_pos hc] at h
        cases h
      cases bound with
      | nil => exact not_isAbove_nil (c :: start)
      | cons d bound =>
        rw [isAbove_cons_cons]
        rintro (hlt | ⟨-, habove⟩)
        · exact Std.not_lt.mpr (le_of_not_lt_max hc d) hlt
        · exact ih hrest bound habove

/-- Every bound is at least the computed one. -/
theorem above?_le {least : Bytes} (h : above? start = some least) (hbound : IsAbove start bound) :
    least ≤ bound := by
  rw [← List.not_lt]
  intro hlt
  induction start generalizing least bound with
  | nil => cases h
  | cons c start ih =>
    cases bound with
    | nil => exact not_isAbove_nil (c :: start) hbound
    | cons d bound =>
      rw [isAbove_cons_cons] at hbound
      cases hrest : above? start with
      | some rest =>
        -- the computed bound begins with `c`, and so does a smaller one
        rw [above?, hrest, Option.some.injEq] at h
        rw [← h, List.cons_lt_cons_iff] at hlt
        rcases hbound with hcd | ⟨rfl, hbound⟩
        · rcases hlt with hdc | ⟨rfl, -⟩
          · exact Std.lt_irrefl (Std.lt_trans hcd hdc)
          · exact Std.lt_irrefl hcd
        · exact ih hrest hbound (hlt.resolve_left Std.lt_irrefl).2
      | none =>
        -- the computed bound is the next byte alone, and no bound begins with `c`
        rw [above?, hrest] at h
        simp only at h
        split at h
        · next hc =>
          rw [Option.some.injEq] at h
          rw [← h, List.cons_lt_cons_iff, lt_succ_iff hc] at hlt
          rcases hbound with hcd | ⟨rfl, hbound⟩
          · exact hlt.elim (· hcd) fun hnil => List.not_lt_nil bound hnil.2
          · exact not_isAbove_of_above? hrest bound hbound
        · cases h

theorem above?_eq_some_iff :
    above? start = some bound ↔ IsAbove start bound ∧ ∀ b, IsAbove start b → bound ≤ b := by
  constructor
  · exact fun h => ⟨isAbove_of_above? h, fun _ => above?_le h⟩
  · rintro ⟨habove, hleast⟩
    cases h : above? start with
    | none => exact absurd habove (not_isAbove_of_above? h bound)
    | some b => rw [List.le_antisymm (above?_le h habove) (hleast b (isAbove_of_above? h))]

theorem above?_eq_none_iff : above? start = none ↔ ¬ ∃ bound, IsAbove start bound := by
  constructor
  · exact fun h ⟨bound, habove⟩ => not_isAbove_of_above? h bound habove
  · intro h
    cases hbound : above? start with
    | none => rfl
    | some bound => exact absurd ⟨bound, isAbove_of_above? hbound⟩ h

end Bytes

namespace Store

/-- A map in memory and a database list the same records: those whose keys begin with `start`, each
once and in ascending order.  The bound up to which the database lists is the least one above
everything that begins with `start`, and it has none exactly if there is none. -/
theorem listings_agree (r : Records) (start : Bytes) :
    (∃ listing, (Store.memory r).scan start = .ok listing ∧
      (∀ writable, (Store.database (some r) writable).scan start = .ok listing) ∧
      (∀ key value, (key, value) ∈ listing ↔ r.find? key = some value ∧ start <+: key) ∧
      OrderedMap.Ascending listing) ∧
    (∀ bound, Bytes.above? start = some bound ↔
      Bytes.IsAbove start bound ∧ ∀ b, Bytes.IsAbove start b → bound ≤ b) ∧
    (Bytes.above? start = none ↔ ¬ ∃ bound, Bytes.IsAbove start bound) := by
  refine ⟨⟨r.scan start, rfl, fun writable => ?_, fun key value => ?_, ?_⟩,
    fun bound => Bytes.above?_eq_some_iff, Bytes.above?_eq_none_iff⟩
  · exact congrArg Except.ok ((r.scanRange_eq start).trans (r.scan_eq start).symm)
  · rw [r.scan_eq, List.mem_filter, List.isPrefixOf_iff_prefix, Records.find?,
      OrderedMap.find?_eq_some_iff r.ascending]
  · rw [r.scan_eq]
    exact List.Pairwise.filter _ r.ascending

/-- A beginning that ends in the greatest byte is bounded by what follows the byte before it. -/
example : Bytes.above? [97, 255] = some [98] := by decide

end Store

end Accrual
