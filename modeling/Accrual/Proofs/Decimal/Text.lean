/-
Reading back what was written.

`Decimal.parse?_text` — a written decimal is read with the same digits and the same scale; only
the sign of a zero is lost (`Decimal.readBack`).

The proof follows the reader over the digits before the point and over those behind it: as long
as a mantissa below `2 ^ 96` and a scale of at most 28 come out at the end, no digit on the way
is rounded away (`Decimal.scan_integer`, `Decimal.scan_fraction`).
-/
import Accrual.Decimal.Text
import Accrual.Proofs.Decimal.Value

namespace Accrual

namespace Decimal

/-- What is read of a written decimal: a zero has no sign. -/
def readBack (a : Decimal) : Decimal := { a with negative := a.negative && a.mantissa != 0 }

@[simp] theorem toRat_readBack (a : Decimal) : a.readBack.toRat = a.toRat := by
  by_cases h : a.mantissa = 0
  · rw [isZero_iff.mp (show a.readBack.IsZero from h), isZero_iff.mp h]
  · rw [toRat_eq, toRat_eq]
    simp [readBack, signed, h]

theorem readBack_of_not_negative {a : Decimal} (h : a.negative = false) : a.readBack = a := by
  obtain ⟨negative, m, s, hm, hs⟩ := a
  obtain rfl : negative = false := h
  rfl

@[simp] theorem readBack_readBack (a : Decimal) : a.readBack.readBack = a.readBack := by
  cases h : a.negative <;> simp [readBack, h]

/-! ### Digits -/

theorem digit?_of_isDigit {c : Char} (h : c.isDigit) : digit? c = some (c.toNat - '0'.toNat) := by
  rw [Char.isDigit, Bool.and_eq_true, decide_eq_true_eq, decide_eq_true_eq] at h
  exact if_pos h

theorem le_ofDigitChars (cs : List Char) (m : ℕ) : m ≤ Nat.ofDigitChars 10 cs m := by
  induction cs generalizing m with
  | nil => exact Nat.le_refl m
  | cons c cs ih =>
    rw [Nat.ofDigitChars_cons]
    exact le_trans (by omega) (ih _)

theorem ofDigitChars_paddedDigits (m width : ℕ) :
    Nat.ofDigitChars 10 (paddedDigits m width) 0 = m := by
  rw [paddedDigits, Nat.ofDigitChars_append, Nat.ofDigitChars_replicate_zero, Nat.mul_zero,
    Nat.ofDigitChars_ten_toDigits]

theorem isDigit_of_mem_paddedDigits (m width : ℕ) {c : Char} (h : c ∈ paddedDigits m width) :
    c.isDigit := by
  rcases List.mem_append.mp h with h | h
  · rw [(List.mem_replicate.mp h).2]; rfl
  · exact Nat.isDigit_of_mem_toDigits (by decide) (by decide) h

theorem le_length_paddedDigits (m width : ℕ) : width ≤ (paddedDigits m width).length := by
  rw [paddedDigits, List.length_append, List.length_replicate]
  omega

/-! ### The reader on digits -/

/-- Digits before the point are all taken. -/
theorem scan_integer {ds : List Char} (hds : ∀ c ∈ ds, c.isDigit) (hne : ds ≠ []) {m : ℕ}
    (started : Bool) (hm : Nat.ofDigitChars 10 ds m < bound) (rest : List Char) :
    scan ⟨m, 0, false, started⟩ (ds ++ rest)
      = scan ⟨Nat.ofDigitChars 10 ds m, 0, false, true⟩ rest := by
  induction ds generalizing m started with
  | nil => exact absurd rfl hne
  | cons c ds ih =>
    rw [Nat.ofDigitChars_cons] at hm ⊢
    have hlt := lt_of_le_of_lt (le_ofDigitChars ds _) hm
    rw [List.cons_append, scan, if_neg (by simp), digit?_of_isDigit (hds c List.mem_cons_self)]
    simp only
    rw [Nat.mul_comm m 10, if_pos hlt]
    by_cases hnil : ds = []
    · subst hnil
      rfl
    · exact ih (fun d hd => hds d (List.mem_cons_of_mem c hd)) hnil true hm

/-- Digits behind the point are all taken, as long as the scale allows. -/
theorem scan_fraction {ds : List Char} (hds : ∀ c ∈ ds, c.isDigit) {m s : ℕ}
    (hm : Nat.ofDigitChars 10 ds m < bound) (hs : s + ds.length ≤ 28) :
    scan ⟨m, s, true, true⟩ ds = some (Nat.ofDigitChars 10 ds m, s + ds.length) := by
  induction ds generalizing m s with
  | nil => rfl
  | cons c ds ih =>
    rw [Nat.ofDigitChars_cons] at hm ⊢
    have hlt := lt_of_le_of_lt (le_ofDigitChars ds _) hm
    rw [List.length_cons] at hs ⊢
    rw [scan, if_neg (by simp only; omega), digit?_of_isDigit (hds c List.mem_cons_self)]
    simp only [if_true]
    rw [Nat.mul_comm m 10, if_pos hlt,
      ih (fun d hd => hds d (List.mem_cons_of_mem c hd)) hm (by omega)]
    congr 2
    omega

/-- The characters of a number without its sign. -/
def unsignedChars (a : Decimal) : List Char :=
  let ds := paddedDigits a.mantissa (a.scale + 1)
  let k := ds.length - a.scale
  if a.scale = 0 then ds else ds.take k ++ '.' :: ds.drop k

theorem chars_eq (a : Decimal) :
    a.chars = if a.negative then '-' :: a.unsignedChars else a.unsignedChars := rfl

theorem scan_unsignedChars (a : Decimal) :
    scan .start a.unsignedChars = some (a.mantissa, a.scale) := by
  have hval := ofDigitChars_paddedDigits a.mantissa (a.scale + 1)
  have hlen := le_length_paddedDigits a.mantissa (a.scale + 1)
  have hdigit := fun c => isDigit_of_mem_paddedDigits a.mantissa (a.scale + 1) (c := c)
  rw [unsignedChars]
  generalize paddedDigits a.mantissa (a.scale + 1) = ds at hval hlen hdigit
  split
  · next hs =>
    have hne : ds ≠ [] := List.ne_nil_of_length_pos (by omega)
    have hscan := scan_integer (m := 0) hdigit hne false (hval ▸ a.mantissa_lt) []
    rw [List.append_nil] at hscan
    rw [Scan.start, hscan, hval, hs]
    rfl
  · next hs =>
    obtain ⟨k, hk⟩ : ∃ k, k = ds.length - a.scale := ⟨_, rfl⟩
    rw [← hk]
    have hne : ds.take k ≠ [] := by
      refine List.ne_nil_of_length_pos ?_
      rw [List.length_take]
      omega
    have hsplit : Nat.ofDigitChars 10 (ds.drop k) (Nat.ofDigitChars 10 (ds.take k) 0)
        = a.mantissa := by
      rw [← Nat.ofDigitChars_append, List.take_append_drop, hval]
    have hfraction : (ds.drop k).length = a.scale := by
      rw [List.length_drop]; omega
    have hman := a.mantissa_lt
    rw [← hsplit] at hman
    rw [Scan.start, scan_integer (fun c hc => hdigit c (List.mem_of_mem_take hc)) hne false
      (lt_of_le_of_lt (le_ofDigitChars _ _) hman)]
    rw [scan, if_neg (by simp)]
    simp only [show digit? '.' = none from rfl, Bool.not_false, and_self, if_true]
    rw [scan_fraction (fun c hc => hdigit c (List.mem_of_mem_drop hc)) hman
      (by rw [hfraction, Nat.zero_add]; exact a.scale_le), hsplit, hfraction, Nat.zero_add]

theorem splitSign_unsignedChars (a : Decimal) :
    splitSign a.unsignedChars = (false, a.unsignedChars) := by
  have hlen := le_length_paddedDigits a.mantissa (a.scale + 1)
  have hdigit := fun c => isDigit_of_mem_paddedDigits a.mantissa (a.scale + 1) (c := c)
  rw [unsignedChars]
  generalize paddedDigits a.mantissa (a.scale + 1) = ds at hlen hdigit
  -- the first character is a digit in either form
  obtain ⟨c, rest, heq, hc⟩ : ∃ c rest,
      (if a.scale = 0 then ds else ds.take (ds.length - a.scale) ++ '.' ::
        ds.drop (ds.length - a.scale)) = c :: rest ∧ c.isDigit := by
    cases ds with
    | nil => simp at hlen
    | cons c ds =>
      have hc := hdigit c List.mem_cons_self
      split
      · exact ⟨c, ds, rfl, hc⟩
      · obtain ⟨k, hk⟩ : ∃ k, (c :: ds).length - a.scale = k + 1 :=
          ⟨(c :: ds).length - a.scale - 1, by omega⟩
        rw [hk]
        exact ⟨c, _, rfl, hc⟩
  rw [heq]
  unfold splitSign
  split
  · next h => rw [List.cons.injEq] at h; rw [h.1] at hc; exact absurd hc (by decide)
  · next h => rw [List.cons.injEq] at h; rw [h.1] at hc; exact absurd hc (by decide)
  · rfl

theorem splitSign_chars (a : Decimal) : splitSign a.chars = (a.negative, a.unsignedChars) := by
  rw [chars_eq]
  cases a.negative with
  | false => exact splitSign_unsignedChars a
  | true => rfl

theorem parsePositional?_chars (a : Decimal) : parsePositional? a.chars = some a.readBack := by
  rw [parsePositional?, splitSign_chars]
  simp only [scan_unsignedChars]
  rw [ofParts?, dif_pos ⟨a.mantissa_lt, a.scale_le⟩]
  rfl

/-- A written decimal is read back, digits and scale. -/
theorem parse?_text (a : Decimal) : parse? a.text = some a.readBack := by
  rw [parse?, text, String.toList_ofList, parsePositional?_chars]

end Decimal

end Accrual
