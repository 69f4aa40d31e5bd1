/-
Written items are read back.

* `head?_head` — a head is read back with its kind and argument;
* `Encodes depth b item` — the bytes `b`, followed by anything, are read as `item`, with fuel
  for twice their length and `depth` levels of nesting;
* `encodes_text`, `encodes_bool`, `encodes_null`, `encodes_map` — what the writer writes;
* `item?_append` — an encoded item at the beginning of a byte string is read back.
-/
import Accrual.Cbor.Item
import Accrual.Cbor.Writer

namespace Accrual

namespace Cbor

/-! ### Heads -/

theorem take?_append (b t : Bytes) : take? b.length (b ++ t) = some (b, t) := by
  induction b with
  | nil => rfl
  | cons x b ih =>
    rw [List.length_cons, List.cons_append, take?, ih]
    rfl

theorem length_bigEndian (width n : Nat) : (bigEndian width n).length = width := by
  induction width with
  | zero => rfl
  | succ width ih => rw [bigEndian, List.length_cons, ih]

theorem foldl_bigEndian (width n acc : Nat) :
    (bigEndian width n).foldl (fun n x => 256 * n + x.toNat) acc
      = acc * twoTo (8 * width) + n % twoTo (8 * width) := by
  induction width generalizing acc with
  | zero => simp [bigEndian, twoTo_zero, Nat.mod_one]
  | succ width ih =>
    have hpow : twoTo (8 * (width + 1)) = twoTo (8 * width) * 256 := twoTo_add (8 * width) 8
    have hmod : n % (twoTo (8 * width) * 256)
        = n % twoTo (8 * width) + twoTo (8 * width) * (n / twoTo (8 * width) % 256) :=
      Nat.mod_mul
    have hbyte : (UInt8.ofNat (n / twoTo (8 * width))).toNat = n / twoTo (8 * width) % 256 := rfl
    rw [bigEndian, List.foldl_cons, ih, hbyte, hpow, hmod, Nat.add_mul, Nat.mul_comm 256 acc,
      Nat.mul_assoc, Nat.mul_comm 256, Nat.mul_comm (n / twoTo (8 * width) % 256)]
    omega

theorem ofBigEndian_bigEndian {width n : Nat} (h : n < twoTo (8 * width)) :
    ofBigEndian (bigEndian width n) = n := by
  rw [ofBigEndian, foldl_bigEndian, Nat.zero_mul, Nat.zero_add, Nat.mod_eq_of_lt h]

/-- The first byte of a head holds its kind and its five bits of information. -/
theorem first_byte {kind : Nat} (info : Nat) (hkind : kind < 8) (hinfo : info < 32) :
    (UInt8.ofNat (32 * kind + info)).toNat / 32 = kind ∧
      (UInt8.ofNat (32 * kind + info)).toNat % 32 = info := by
  have hbyte : (UInt8.ofNat (32 * kind + info)).toNat = 32 * kind + info :=
    Nat.mod_eq_of_lt (by omega)
  omega

theorem head?_short {kind argument : Nat} (hkind : kind < 8) (h : argument < 24) (t : Bytes) :
    head? (UInt8.ofNat (32 * kind + argument) :: t)
      = some (⟨kind, argument, some argument⟩, t) := by
  obtain ⟨hk, hi⟩ := first_byte argument hkind (by omega)
  rw [head?]
  simp only [hk, hi]
  rw [if_pos h]

theorem head?_wide {kind argument : Nat} (width : Nat) (hkind : kind < 8) (hwidth : width < 4)
    (h : argument < twoTo (8 * twoTo width)) (t : Bytes) :
    head? (UInt8.ofNat (32 * kind + (24 + width)) :: (bigEndian (twoTo width) argument ++ t))
      = some (⟨kind, 24 + width, some argument⟩, t) := by
  obtain ⟨hk, hi⟩ := first_byte (24 + width) hkind (by omega)
  have htake : take? (twoTo width) (bigEndian (twoTo width) argument ++ t)
      = some (bigEndian (twoTo width) argument, t) := by
    have := take?_append (bigEndian (twoTo width) argument) t
    rwa [length_bigEndian] at this
  rw [head?]
  simp only [hk, hi]
  rw [if_neg (by omega), if_pos (by omega), Nat.add_sub_cancel_left, htake, Option.map_some,
    ofBigEndian_bigEndian h]

theorem head?_head (kind : Nat) {argument : Nat} (hkind : kind < 8) (h : argument < twoTo 64)
    (t : Bytes) :
    ∃ info, head? (head kind argument ++ t) = some (⟨kind, info, some argument⟩, t) := by
  unfold head
  split
  · next h24 => exact ⟨argument, head?_short hkind h24 t⟩
  split
  · next hw => exact ⟨24, head?_wide 0 hkind (by decide) hw t⟩
  split
  · next hw => exact ⟨25, head?_wide 1 hkind (by decide) hw t⟩
  split
  · next hw => exact ⟨26, head?_wide 2 hkind (by decide) hw t⟩
  · exact ⟨27, head?_wide 3 hkind (by decide) h t⟩

theorem head_length_pos (kind argument : Nat) : 0 < (head kind argument).length := by
  unfold head
  repeat' split
  all_goals exact Nat.succ_pos _

/-! ### Items -/

/-- The bytes `b`, whatever follows them, are read as `item`. -/
def Encodes (depth : Nat) (b : Bytes) (item : Item) : Prop :=
  ∀ fuel, 2 * b.length ≤ fuel → ∀ t, itemAt? fuel depth (b ++ t) = some (item, t)

theorem Encodes.length_pos {depth : Nat} {b : Bytes} {item : Item} (h : Encodes depth b item) :
    0 < b.length := by
  refine Nat.pos_of_ne_zero fun hb => ?_
  have hread := h 0 (by omega) []
  rw [itemAt?] at hread
  cases hread

theorem item?_append {b : Bytes} {item : Item} (h : Encodes maxDepth b item) (t : Bytes) :
    item? (b ++ t) = some (item, t) :=
  h _ (by rw [List.length_append]; omega) t

variable {depth : Nat}

theorem encodes_text {s : String} (h : (Bytes.ofString s).length < twoTo 64) :
    Encodes depth (text s) (.text s) := by
  intro fuel hfuel t
  -- a head is not empty, so there is fuel for one step
  have hpos := head_length_pos 3 (Bytes.ofString s).length
  obtain ⟨fuel, rfl⟩ : ∃ k, fuel = k + 1 := by
    refine ⟨fuel - 1, ?_⟩
    rw [text, List.length_append] at hfuel
    omega
  obtain ⟨info, hhead⟩ := head?_head 3 (by decide) h (Bytes.ofString s ++ t)
  rw [text, List.append_assoc, itemAt?, hhead]
  simp only [Option.bind_eq_bind, Option.bind_some, take?_append, Bytes.toString?_ofString,
    Option.pure_def]

theorem encodes_bool (b : Bool) : Encodes depth (bool b) (.bool b) := by
  intro fuel hfuel t
  obtain ⟨fuel, rfl⟩ : ∃ k, fuel = k + 1 :=
    ⟨fuel - 1, by rw [bool, List.length_singleton] at hfuel; omega⟩
  cases b <;> rfl

theorem encodes_null : Encodes depth null .null := by
  intro fuel hfuel t
  obtain ⟨fuel, rfl⟩ : ∃ k, fuel = k + 1 :=
    ⟨fuel - 1, by rw [null, List.length_singleton] at hfuel; omega⟩
  rfl

/-! ### Maps -/

/-- A key or a value of a map: its bytes and what they are read as. -/
abbrev Written := Bytes × Item

/-- The bytes of the entries of a map. -/
def entryBytes (pairs : List (Written × Written)) : Bytes := pairs.flatMap fun p => p.1.1 ++ p.2.1

theorem entriesAt?_append {pairs : List (Written × Written)}
    (h : ∀ p ∈ pairs, Encodes depth p.1.1 p.1.2 ∧ Encodes depth p.2.1 p.2.2) {fuel : Nat}
    (hfuel : 2 * (entryBytes pairs).length + 1 ≤ fuel) (t : Bytes) :
    entriesAt? fuel depth (some pairs.length) (entryBytes pairs ++ t)
      = some (pairs.map fun p => (p.1.2, p.2.2), t) := by
  induction pairs generalizing fuel with
  | nil =>
    obtain ⟨fuel, rfl⟩ : ∃ k, fuel = k + 1 := ⟨fuel - 1, by omega⟩
    rfl
  | cons p pairs ih =>
    obtain ⟨hkey, hvalue⟩ := h p List.mem_cons_self
    have hlen : (entryBytes (p :: pairs)).length
        = p.1.1.length + p.2.1.length + (entryBytes pairs).length := by
      rw [entryBytes, List.flatMap_cons, List.length_append, List.length_append, entryBytes]
    have hpos := hkey.length_pos
    obtain ⟨fuel, rfl⟩ : ∃ k, fuel = k + 1 := ⟨fuel - 1, by omega⟩
    have hbytes : entryBytes (p :: pairs) ++ t = p.1.1 ++ (p.2.1 ++ (entryBytes pairs ++ t)) := by
      rw [entryBytes, List.flatMap_cons, entryBytes]
      simp only [List.append_assoc]
    -- two units of fuel a byte are enough for the key, the value and what follows
    have hrest := @ih (fun p' hp' => h p' (List.mem_cons_of_mem p hp')) fuel (by omega)
    rw [hbytes, entriesAt?, ended?, List.length_cons, if_neg (Nat.succ_ne_zero _)]
    simp only [Option.bind_eq_bind, hkey fuel (by omega), Option.bind_some,
      hvalue fuel (by omega), Option.map_some, Nat.add_sub_cancel, hrest, Option.pure_def,
      List.map_cons]

theorem encodes_map (pairs : List (Written × Written))
    (h : ∀ p ∈ pairs, Encodes depth p.1.1 p.1.2 ∧ Encodes depth p.2.1 p.2.2)
    (hsize : pairs.length < twoTo 64) :
    Encodes (depth + 1) (mapHead pairs.length ++ entryBytes pairs)
      (.map (pairs.map fun p => (p.1.2, p.2.2))) := by
  intro fuel hfuel t
  have hpos := head_length_pos 5 pairs.length
  rw [mapHead, List.length_append] at hfuel
  obtain ⟨fuel, rfl⟩ : ∃ k, fuel = k + 1 := ⟨fuel - 1, by omega⟩
  obtain ⟨info, hhead⟩ := head?_head 5 (by decide) hsize (entryBytes pairs ++ t)
  rw [mapHead, List.append_assoc, itemAt?, hhead]
  simp only [Option.bind_eq_bind, Option.bind_some, inner?,
    entriesAt?_append h (show 2 * (entryBytes pairs).length + 1 ≤ fuel by omega), Option.pure_def]

end Cbor

end Accrual
