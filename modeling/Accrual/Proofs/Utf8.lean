/-
The bytes of texts.

* `Bytes.ofString_lt_ofString_iff` — texts are ordered like their bytes, so that what is sorted by
  characters is sorted by bytes too.  The first bytes of two characters tell their lengths, and at
  equal lengths the bits of the smaller one are smaller at the first byte that differs
  (`Bytes.utf8EncodeChar_append_lt`);
* `Bytes.not_mem_ofString` — the byte of the separator `|` stands for nothing else.
-/
import Mathlib.Data.Char
import Mathlib.Order.Defs.LinearOrder
import Accrual.Bytes.Basic

namespace Accrual

namespace Bytes

theorem ofString_eq (s : String) : ofString s = s.toList.flatMap String.utf8EncodeChar := by
  rw [ofString, ← String.utf8Encode_toList, List.utf8Encode]
  simp

/-- The byte of `|` is part of no other character. -/
theorem not_mem_utf8EncodeChar {c : Char} (h : c ≠ '|') : 124 ∉ String.utf8EncodeChar c := by
  have hne {n : ℕ} (hn : n % 256 ≠ 124) : (124 : UInt8) ≠ UInt8.ofNat n := fun heq => by
    have := congrArg UInt8.toNat heq
    rw [UInt8.toNat_ofNat'] at this
    exact hn this.symm
  have hc : c.val.toNat ≠ 124 := fun heq => h (Char.ext (UInt32.toNat_inj.1 heq))
  simp only [String.utf8EncodeChar]
  split
  · rw [List.mem_singleton]
    exact hne (by omega)
  · split
    · simp only [List.mem_cons, List.not_mem_nil, or_false, not_or]
      exact ⟨hne (by omega), hne (by omega)⟩
    · split
      · simp only [List.mem_cons, List.not_mem_nil, or_false, not_or]
        exact ⟨hne (by omega), hne (by omega), hne (by omega)⟩
      · simp only [List.mem_cons, List.not_mem_nil, or_false, not_or]
        exact ⟨hne (by omega), hne (by omega), hne (by omega), hne (by omega)⟩

theorem not_mem_ofString {s : String} (h : '|' ∉ s.toList) : 124 ∉ ofString s := by
  rw [ofString_eq, List.mem_flatMap]
  rintro ⟨c, hc, hmem⟩
  exact not_mem_utf8EncodeChar (fun heq => h (heq ▸ hc)) hmem

/-! ### Order -/

theorem append_lt_append_iff (p a b : Bytes) : p ++ a < p ++ b ↔ a < b := by
  induction p with
  | nil => rfl
  | cons x p ih =>
    rw [List.cons_append, List.cons_append, List.cons_lt_cons_iff, ih]
    simp

/-- A greater character has greater bytes, whatever follows. -/
theorem utf8EncodeChar_append_lt {c d : Char} (h : c < d) (s t : Bytes) :
    String.utf8EncodeChar c ++ s < String.utf8EncodeChar d ++ t := by
  have hlt : c.val.toNat < d.val.toNat := UInt32.lt_iff_toNat_lt.mp (Char.lt_def.mp h)
  have hd : d.val.toNat < 1114112 := d.valid.elim (Nat.lt_trans · (by decide)) And.right
  have hbyte {n : Nat} (hn : n < 256) : (UInt8.ofNat n).toNat = n :=
    UInt8.toNat_ofNat'.trans (Nat.mod_eq_of_lt hn)
  simp only [String.utf8EncodeChar]
  generalize c.val.toNat = v at hlt ⊢
  generalize d.val.toNat = w at hlt hd ⊢
  repeat' split
  all_goals
    simp (disch := omega) only [List.cons_append, List.nil_append, List.cons_lt_cons_iff,
      UInt8.lt_iff_toNat_lt, ← UInt8.toNat_inj, hbyte]
    -- at equal lengths: is it the last six bits that differ, or the six before them?
    rcases Nat.lt_or_ge (v / 64) (w / 64) with hlast | hlast
    · rcases Nat.lt_or_ge (v / 4096) (w / 4096) with hnext | hnext <;> omega
    · omega

theorem utf8EncodeChar_ne_nil (c : Char) : String.utf8EncodeChar c ≠ [] := by
  simp only [String.utf8EncodeChar]
  repeat' split
  all_goals exact List.cons_ne_nil _ _

/-- The order of texts is the order of their bytes. -/
theorem ofString_lt_ofString_iff {s t : String} : ofString s < ofString t ↔ s < t := by
  rw [String.lt_iff, ofString_eq, ofString_eq]
  generalize s.toList = cs
  generalize t.toList = ds
  induction cs generalizing ds with
  | nil =>
    cases ds with
    | nil => exact iff_of_false (List.not_lt_nil _) (List.not_lt_nil _)
    | cons d ds =>
      obtain ⟨b, rest, hb⟩ := List.exists_cons_of_ne_nil (utf8EncodeChar_ne_nil d)
      rw [List.flatMap_nil, List.flatMap_cons, hb]
      exact iff_of_true (List.nil_lt_cons b _) (List.nil_lt_cons d ds)
  | cons c cs ih =>
    cases ds with
    | nil => exact iff_of_false (List.not_lt_nil _) (List.not_lt_nil _)
    | cons d ds =>
      rw [List.flatMap_cons, List.flatMap_cons, List.cons_lt_cons_iff]
      rcases lt_trichotomy c d with h | rfl | h
      · exact iff_of_true (utf8EncodeChar_append_lt h _ _) (.inl h)
      · rw [append_lt_append_iff, ih]
        simp
      · refine iff_of_false (Std.not_lt.mpr (Std.le_of_lt (utf8EncodeChar_append_lt h _ _))) ?_
        rintro (h' | ⟨rfl, -⟩)
        · exact lt_asymm h h'
        · exact lt_irrefl c h

end Bytes

end Accrual
