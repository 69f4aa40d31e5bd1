/-
Whose record a key is.

* `Key.name?_eq_some_iff`, `Key.index?_eq_some_iff` — a name or an index is found in exactly those
  keys that are built from it, among all bytes;
* `Key.positions_isPrefix_iff` — the keys of the positions of one accumulator begin like those of
  no other, also where one name begins with the other;
* `Key.layout_unambiguous` — so keys of both kinds tell what they were built from.

Design notes.  An index may begin with the separator or contain it; what stands before the first
separator of a key is the name all the same, because no name contains one.
-/
import Accrual.Proofs.Store

namespace Accrual

namespace Bytes

theorem stripPrefix?_eq_some_iff {start b rest : Bytes} :
    stripPrefix? start b = some rest ↔ b = start ++ rest := by
  unfold stripPrefix?
  split
  · next h =>
    obtain ⟨rest', rfl⟩ := exists_append_of_isPrefixOf h
    rw [List.drop_left, Option.some.injEq, List.append_cancel_left_eq, eq_comm]
  · next h =>
    refine iff_of_false nofun ?_
    rintro rfl
    exact h (isPrefixOf_append start rest)

theorem toString?_eq_some_iff {b : Bytes} {s : String} : toString? b = some s ↔ b = ofString s :=
  ⟨fun h => (ofString_of_toString? h).symm, fun h => h ▸ toString?_ofString s⟩

end Bytes

namespace Key

variable {name name' index index' : String} {key : Bytes}

/-! ### Reading keys -/

theorem name?_eq_some_iff : name? key = some name ↔ key = accumulator name := by
  simp only [name?, Option.bind_eq_some_iff, Bytes.stripPrefix?_eq_some_iff,
    Bytes.toString?_eq_some_iff, exists_eq_right, accumulator]

theorem index?_eq_some_iff : index? name key = some index ↔ key = position name index := by
  simp only [index?, Option.bind_eq_some_iff, Bytes.stripPrefix?_eq_some_iff,
    Bytes.toString?_eq_some_iff, exists_eq_right, position]

/-! ### Two kinds of keys -/

/-- The totals of no accumulator are among positions of any. -/
theorem not_isPrefix_accumulator (name : String) :
    ¬ Bytes.ofString "accum/pos/" <+: accumulator name := by
  have hpos : Bytes.ofString "accum/pos/" = [97, 99, 99, 117, 109, 47, 112, 111, 115, 47] := by
    decide
  rw [← List.isPrefixOf_iff_prefix, hpos, accumulator, accumulators_eq]
  exact Bool.false_ne_true

theorem isPrefix_positions (name : String) : Bytes.ofString "accum/pos/" <+: positions name :=
  ⟨Bytes.ofString name ++ Bytes.ofString "||", (List.append_assoc ..).symm⟩

/-! ### Keys of different accumulators -/

theorem positions_isPrefix_iff (hname : IsName name) (hname' : IsName name') :
    positions name <+: position name' index' ↔ name = name' := by
  rw [← List.isPrefixOf_iff_prefix]
  constructor
  · exact eq_of_isPrefixOf_position hname hname'
  · rintro rfl
    exact isPrefixOf_position name index'

theorem position_eq_iff (hname : IsName name) (hname' : IsName name') :
    position name index = position name' index' ↔ name = name' ∧ index = index' := by
  constructor
  · intro h
    have hstarts : positions name <+: position name' index' := h ▸ List.prefix_append ..
    obtain rfl := (positions_isPrefix_iff hname hname').mp hstarts
    exact ⟨rfl, position_injective name h⟩
  · rintro ⟨rfl, rfl⟩
    rfl

/-- With a separator in a name, the same key could be that of another index. -/
example : position "pool|" "a" = position "pool" "|a" := by decide

theorem index?_position_eq (hname : IsName name) (hname' : IsName name') :
    index? name (position name' index') = if name = name' then some index' else none := by
  split
  · next h => rw [index?_eq_some_iff, h]
  · next h =>
    rw [Option.eq_none_iff_forall_ne_some]
    intro index hindex
    -- what is found would be an index for which the two keys are the same
    exact h ((position_eq_iff hname hname').mp (index?_eq_some_iff.mp hindex).symm).1

/-- Keys determine the names and indices that they were built from, and name and index can be read
back from them.  The keys of totals and of positions are told apart by how they begin, and so are
those of the positions of two accumulators. -/
theorem layout_unambiguous (hname : IsName name) (hname' : IsName name')
    (index index' : String) :
    (position name index = position name' index' ↔ name = name' ∧ index = index') ∧
      (accumulator name = accumulator name' ↔ name = name') ∧
      (¬ Bytes.ofString "accum/pos/" <+: accumulator name ∧
        ¬ positions name' <+: accumulator name ∧ accumulator name ≠ positions name') ∧
      ¬ accumulators <+: position name index ∧
      (positions name <+: position name' index' ↔ name = name') ∧
      name? (accumulator name) = some name ∧
      index? name (position name' index') = if name = name' then some index' else none := by
  have hkinds : ¬ positions name' <+: accumulator name := fun h =>
    not_isPrefix_accumulator name ((isPrefix_positions name').trans h)
  refine ⟨position_eq_iff hname hname', ⟨accumulator_injective, congrArg accumulator⟩,
    ⟨not_isPrefix_accumulator name, hkinds, fun h => hkinds (h ▸ List.prefix_rfl)⟩, ?_,
    positions_isPrefix_iff hname hname', name?_eq_some_iff.mpr rfl, index?_position_eq hname hname'⟩
  rw [← List.isPrefixOf_iff_prefix, not_isPrefixOf_position]
  exact Bool.false_ne_true

/-- One name begins with the other, and an index makes up for what is missing of the separator. -/
theorem layout_unambiguous_shifted :
    IsName "pool" ∧ IsName "pool-1" ∧
      position "pool" "||-1||" ≠ position "pool-1" "||||" ∧
      ¬ positions "pool" <+: position "pool-1" "|a" ∧
      index? "pool" (position "pool-1" "|a") = none ∧
      index? "pool" (position "pool" "||a") = some "||a" := by
  have hpool : IsName "pool" := by decide
  have hpool' : IsName "pool-1" := by decide
  obtain ⟨hshifted, -⟩ := layout_unambiguous hpool hpool' "||-1||" "||||"
  obtain ⟨-, -, -, -, hpositions, -, hindex⟩ := layout_unambiguous hpool hpool' "" "|a"
  obtain ⟨-, -, -, -, -, -, hsame⟩ := layout_unambiguous hpool hpool "" "||a"
  refine ⟨hpool, hpool', fun h => ?_, fun h => ?_, hindex, hsame⟩
  · exact absurd (hshifted.mp h).1 (by decide)
  · exact absurd (hpositions.mp h) (by decide)

end Key

end Accrual
