/-
Stores and keys.

* `Records.scan_eq`, `Records.scanRange_eq` — both ways of listing give the records whose keys
  begin with the given bytes, in the order of the keys;
* `Store.Readable` — a store that can be read (`lookup_of_readable`, `scan_of_readable`), perhaps
  only that;
* `Store.Writable` — a store that takes writes; such a store refuses nothing
  (`lookup_of_writable`, `scan_of_writable`, `insert_of_writable`, `erase_of_writable`);
* `Key.position_injective`, `Key.isPrefixOf_position`, `Key.not_isPrefixOf_accumulator` — the
  records of positions are told apart by their indices, and from the record of the totals
  (`Key.not_isPrefixOf_position`);
* `Key.accumulator_injective`, `Key.eq_of_isPrefixOf_position` — the records of one accumulator are
  told apart from those of any other, because no name contains the separator.
-/
import Accrual.Key
import Accrual.Proofs.OrderedMap
import Accrual.Proofs.Utf8
import Accrual.Store.Basic

namespace Accrual

/-! ### Beginnings -/

namespace Bytes

theorem isPrefixOf_append (p b : Bytes) : p.isPrefixOf (p ++ b) = true := by
  induction p with
  | nil => rfl
  | cons x p ih => simp [ih]

theorem exists_append_of_isPrefixOf {p b : Bytes} (h : p.isPrefixOf b = true) :
    ∃ rest, b = p ++ rest := by
  rw [List.isPrefixOf_iff_prefix] at h
  obtain ⟨rest, hrest⟩ := h
  exact ⟨rest, hrest.symm⟩

theorem not_lt_of_isPrefixOf {start k : Bytes} (h : start.isPrefixOf k = true) : ¬ k < start := by
  obtain ⟨rest, rfl⟩ := exists_append_of_isPrefixOf h
  have := (append_lt_append_iff start rest []).not.mpr (List.not_lt_nil rest)
  rwa [List.append_nil] at this

/-- Between its beginning and something that begins with it, everything begins with it. -/
theorem isPrefixOf_of_lt {start k k' : Bytes} (hk : ¬ k < start) (hlt : k < k')
    (h : start.isPrefixOf k' = true) : start.isPrefixOf k = true := by
  induction start generalizing k k' with
  | nil => rfl
  | cons s start ih =>
    obtain ⟨rest, rfl⟩ := exists_append_of_isPrefixOf h
    cases k with
    | nil => exact absurd (List.nil_lt_cons s start) hk
    | cons c k =>
      rw [List.cons_lt_cons_iff, not_or, not_and] at hk
      rw [List.cons_append, List.cons_lt_cons_iff] at hlt
      have hc : c = s := (hlt.resolve_left hk.1).1
      subst hc
      have hrest := ih (hk.2 rfl) (hlt.resolve_left hk.1).2 (isPrefixOf_append start rest)
      simp [hrest]

theorem lt_succ_iff {b c : UInt8} (h : b < 255) : c < b + 1 ↔ ¬ b < c := by
  rw [UInt8.lt_iff_toNat_lt] at h
  have h255 : (255 : UInt8).toNat = 255 := rfl
  have hadd : (b + 1).toNat = b.toNat + 1 := by
    rw [UInt8.toNat_add]
    have h1 : (1 : UInt8).toNat = 1 := rfl
    omega
  rw [UInt8.lt_iff_toNat_lt, UInt8.lt_iff_toNat_lt, hadd]
  omega

/-- A byte that cannot grow is the greatest one. -/
theorem le_of_not_lt_max {b : UInt8} (h : ¬ b < 255) (c : UInt8) : c ≤ b := by
  have hmax : (255 : UInt8).toNat = 255 := rfl
  rw [UInt8.lt_iff_toNat_lt] at h
  rw [UInt8.le_iff_toNat_le]
  have := c.toNat_lt
  omega

/-- What begins with `start` is the range from `start` up to what is above it. -/
theorem isPrefixOf_iff (start k : Bytes) :
    start.isPrefixOf k = true ↔ ¬ k < start ∧ ∀ bound, above? start = some bound → k < bound := by
  induction start generalizing k with
  | nil => exact iff_of_true rfl ⟨List.not_lt_nil k, fun _ h => nomatch h⟩
  | cons b start ih =>
    cases k with
    | nil => exact iff_of_false (by simp) fun h => h.1 (List.nil_lt_cons b start)
    | cons c k =>
      rw [List.cons_lt_cons_iff, above?]
      have hhead : (b :: start).isPrefixOf (c :: k) = true ↔
          b = c ∧ start.isPrefixOf k = true := by simp
      rw [hhead, ih]
      cases habove : above? start with
      | some bound =>
        -- the bound is above the rest, after the same first byte
        simp only [Option.some.injEq, forall_eq', List.cons_lt_cons_iff]
        constructor
        · rintro ⟨rfl, hk, hbound⟩
          exact ⟨fun h => h.elim (Std.lt_irrefl ·) (hk ·.2), .inr ⟨rfl, hbound⟩⟩
        · rintro ⟨hk, hlt | ⟨rfl, hbound⟩⟩
          · exact absurd (.inl hlt) hk
          · exact ⟨rfl, fun h => hk (.inr ⟨rfl, h⟩), hbound⟩
      | none =>
        simp only [reduceCtorEq, false_implies, implies_true, and_true]
        split
        · next hb =>
          -- the bound is the next first byte
          simp only [Option.some.injEq, forall_eq', List.cons_lt_cons_iff, lt_succ_iff hb,
            List.not_lt_nil, and_false, or_false]
          constructor
          · rintro ⟨rfl, hk⟩
            exact ⟨fun h => h.elim (Std.lt_irrefl ·) (hk ·.2), Std.lt_irrefl⟩
          · rintro ⟨hk, hle⟩
            have hc : c = b := Std.le_antisymm (Std.not_lt.1 hle)
              (Std.not_lt.1 fun h => hk (.inl h))
            exact ⟨hc.symm, fun h => hk (.inr ⟨hc, h⟩)⟩
        · next hb =>
          -- no byte is above the greatest one, and there is no bound
          simp only [reduceCtorEq, false_implies, implies_true, and_true]
          constructor
          · rintro ⟨rfl, hk⟩
            exact fun h => h.elim (Std.lt_irrefl ·) (hk ·.2)
          · intro hk
            have hc : c = b := Std.le_antisymm (le_of_not_lt_max hb c)
              (Std.not_lt.1 fun h => hk (.inl h))
            exact ⟨hc.symm, fun h => hk (.inr ⟨hc, h⟩)⟩

end Bytes

/-! ### Names without a separator -/

namespace Bytes

/-- What stands before the first separator is known. -/
theorem eq_of_append_separator {x : UInt8} {a b s t : Bytes} (ha : x ∉ a) (hb : x ∉ b)
    (h : a ++ x :: s = b ++ x :: t) : a = b := by
  induction a generalizing b with
  | nil =>
    cases b with
    | nil => rfl
    | cons c b =>
      rw [List.nil_append, List.cons_append, List.cons.injEq] at h
      exact absurd (h.1 ▸ List.mem_cons_self) hb
  | cons c a ih =>
    cases b with
    | nil =>
      rw [List.nil_append, List.cons_append, List.cons.injEq] at h
      exact absurd (h.1 ▸ List.mem_cons_self) ha
    | cons d b =>
      rw [List.cons_append, List.cons_append, List.cons.injEq] at h
      rw [h.1, ih (fun hm => ha (List.mem_cons_of_mem c hm))
        (fun hm => hb (List.mem_cons_of_mem d hm)) h.2]

end Bytes

/-! ### Listing -/

namespace Records

/-- Skipping what is below and stopping at the first entry outside finds every entry inside, when
no entry below is inside and the entries inside are not interrupted. -/
theorem takeWhile_dropWhile_eq_filter {α : Type} {below inside : α → Bool} {l : List α}
    (hbelow : ∀ a ∈ l, inside a → below a = false)
    (hord : l.Pairwise fun a b => (below b → below a) ∧ (below a = false → inside b → inside a)) :
    (l.dropWhile below).takeWhile inside = l.filter inside := by
  induction l with
  | nil => rfl
  | cons a l ih =>
    obtain ⟨ha, hl⟩ := List.pairwise_cons.1 hord
    have ih := ih (fun b hb => hbelow b (List.mem_cons_of_mem a hb)) hl
    cases hb : below a with
    | true =>
      -- skipped, and not inside
      have hin : inside a = false := by
        cases hin : inside a with
        | false => rfl
        | true => rw [hbelow a List.mem_cons_self hin] at hb; cases hb
      rw [List.dropWhile_cons_of_pos hb, List.filter_cons_of_neg (by rw [hin]; decide), ih]
    | false =>
      -- from here on nothing is below any more
      have hdrop : l.dropWhile below = l := by
        cases l with
        | nil => rfl
        | cons b l =>
          have hb' : ¬ below b = true := fun h => by
            rw [(ha b List.mem_cons_self).1 h] at hb
            cases hb
          rw [List.dropWhile_cons_of_neg hb']
      rw [List.dropWhile_cons_of_neg (by rw [hb]; decide)]
      cases hin : inside a with
      | true =>
        rw [List.takeWhile_cons_of_pos hin, List.filter_cons_of_pos hin, ← ih, hdrop]
      | false =>
        rw [List.takeWhile_cons_of_neg (by rw [hin]; decide), eq_comm, List.filter_eq_nil_iff]
        intro b hb' hinb
        rcases List.mem_cons.1 hb' with rfl | hb'
        · rw [hin] at hinb
          cases hinb
        · rw [(ha b hb').2 hb hinb] at hin
          cases hin

theorem scan_eq (r : Records) (start : Bytes) :
    r.scan start = r.entries.filter fun e => start.isPrefixOf e.1 := by
  refine takeWhile_dropWhile_eq_filter (fun e _ h => ?_) ?_
  · exact decide_eq_false (Bytes.not_lt_of_isPrefixOf h)
  · refine r.ascending.imp fun {a b} hlt => ⟨fun hb => ?_, fun ha hb => ?_⟩
    · rw [decide_eq_true_eq] at hb ⊢
      exact Std.lt_trans hlt hb
    · exact Bytes.isPrefixOf_of_lt (of_decide_eq_false ha) hlt hb

theorem scanRange_eq (r : Records) (start : Bytes) :
    r.scanRange start = r.entries.filter fun e => start.isPrefixOf e.1 := by
  unfold scanRange
  split
  · next bound habove =>
    refine List.filter_congr fun e _ => ?_
    rw [Bool.eq_iff_iff, Bytes.isPrefixOf_iff]
    simp [habove]
  · next habove =>
    refine List.filter_congr fun e _ => ?_
    rw [Bool.eq_iff_iff, Bytes.isPrefixOf_iff]
    simp [habove]

theorem find?_insert (r : Records) (key value key' : Bytes) :
    (r.insert key value).find? key' = if key = key' then some value else r.find? key' :=
  OrderedMap.find?_insert r.entries key key' value

theorem find?_erase (r : Records) (key key' : Bytes) :
    (r.erase key).find? key' = if key = key' then none else r.find? key' :=
  OrderedMap.find?_erase r.ascending key key'

end Records

/-! ### Stores that can be read -/

namespace Store

/-- The store can be read. -/
def Readable : Store → Prop
  | .memory _ => True
  | .database table _ => table.isSome

instance : DecidablePred Readable
  | .memory _ => inferInstanceAs (Decidable True)
  | .database table _ => inferInstanceAs (Decidable (table.isSome = true))

variable {s : Store}

theorem cases_of_readable (h : s.Readable) :
    s = .memory s.records ∨ ∃ writable, s = .database (some s.records) writable := by
  rcases s with records | ⟨_ | records, writable⟩
  · exact .inl rfl
  · cases h
  · exact .inr ⟨writable, rfl⟩

theorem lookup_of_readable (h : s.Readable) (key : Bytes) :
    s.lookup key = .ok (s.records.find? key) := by
  rcases cases_of_readable h with h | ⟨_, h⟩ <;> rw [h] <;> rfl

theorem contains_of_readable (h : s.Readable) (key : Bytes) :
    s.contains key = .ok (s.records.find? key).isSome := by
  rw [contains, lookup_of_readable h]
  rfl

theorem scan_of_readable (h : s.Readable) (start : Bytes) :
    s.scan start = .ok (s.records.entries.filter fun e => start.isPrefixOf e.1) := by
  rcases cases_of_readable h with h | ⟨_, h⟩ <;> rw [h]
  · exact congrArg Except.ok (Records.scan_eq ..)
  · exact congrArg Except.ok (Records.scanRange_eq ..)

end Store

/-! ### Stores that take writes -/

namespace Store

/-- The store takes writes. -/
def Writable : Store → Prop
  | .memory _ => True
  | .database table writable => table.isSome ∧ writable = true

instance : DecidablePred Writable
  | .memory _ => inferInstanceAs (Decidable True)
  | .database table writable => inferInstanceAs (Decidable (table.isSome ∧ writable = true))

/-- A store of the same kind with other records. -/
def withRecords (s : Store) (records : Records) : Store :=
  match s with
  | .memory _ => .memory records
  | .database _ writable => .database (some records) writable

variable {s : Store}

theorem cases_of_writable (h : s.Writable) :
    s = .memory s.records ∨ s = .database (some s.records) true := by
  rcases s with records | ⟨_ | records, _ | _⟩
  · exact .inl rfl
  · exact absurd h.1 (by decide)
  · exact absurd h.1 (by decide)
  · exact absurd h.2 (by decide)
  · exact .inr rfl

theorem Writable.readable (h : s.Writable) : s.Readable := by
  rcases cases_of_writable h with h | h <;> rw [h]
  · trivial
  · exact rfl

theorem records_withRecords (s : Store) (r : Records) : (s.withRecords r).records = r := by
  cases s <;> rfl

theorem writable_withRecords (h : s.Writable) (r : Records) : (s.withRecords r).Writable := by
  rcases cases_of_writable h with h | h <;> rw [h]
  · trivial
  · exact ⟨rfl, rfl⟩

theorem withRecords_withRecords (s : Store) (r r' : Records) :
    (s.withRecords r).withRecords r' = s.withRecords r' := by
  cases s <;> rfl

theorem withRecords_records (h : s.Writable) : s.withRecords s.records = s := by
  rcases cases_of_writable h with h | h <;> rw [h] <;> rfl

theorem lookup_of_writable (h : s.Writable) (key : Bytes) :
    s.lookup key = .ok (s.records.find? key) := lookup_of_readable h.readable key

theorem contains_of_writable (h : s.Writable) (key : Bytes) :
    s.contains key = .ok (s.records.find? key).isSome := contains_of_readable h.readable key

theorem scan_of_writable (h : s.Writable) (start : Bytes) :
    s.scan start = .ok (s.records.entries.filter fun e => start.isPrefixOf e.1) :=
  scan_of_readable h.readable start

theorem insert_of_writable (h : s.Writable) (key value : Bytes) :
    s.insert key value = .ok (s.withRecords (s.records.insert key value)) := by
  rcases cases_of_writable h with h | h <;> rw [h] <;> rfl

theorem erase_of_writable (h : s.Writable) (key : Bytes) :
    s.erase key = .ok (s.withRecords (s.records.erase key)) := by
  rcases cases_of_writable h with h | h <;> rw [h] <;> rfl

/-- Only a store that takes writes takes one. -/
theorem writable_of_insert {s' : Store} {key value : Bytes} (h : s.insert key value = .ok s') :
    s.Writable := by
  rcases s with records | ⟨_ | records, _ | _⟩
  · trivial
  · cases h
  · cases h
  · cases h
  · exact ⟨rfl, rfl⟩

end Store

/-! ### Keys -/

namespace Key

theorem position_injective (name : String) {i j : String} (h : position name i = position name j) :
    i = j := Bytes.ofString_injective (List.append_cancel_left h)

theorem isPrefixOf_position (name index : String) :
    (positions name).isPrefixOf (position name index) = true := Bytes.isPrefixOf_append ..

theorem accumulators_eq : accumulators = [97, 99, 99, 117, 109, 47, 97, 99, 99, 47] := by decide

theorem positions_eq (name : String) : positions name
    = [97, 99, 99, 117, 109, 47, 112, 111, 115, 47]
      ++ (Bytes.ofString name ++ Bytes.ofString "||") := by
  have hpos : Bytes.ofString "accum/pos/" = [97, 99, 99, 117, 109, 47, 112, 111, 115, 47] := by
    decide
  rw [positions, hpos, List.append_assoc]

/-- The totals of an accumulator are not among its positions. -/
theorem not_isPrefixOf_accumulator (name name' : String) :
    (positions name).isPrefixOf (accumulator name') = false := by
  rw [positions_eq, accumulator, accumulators_eq]
  rfl

/-- No position is among the accumulators. -/
theorem not_isPrefixOf_position (name index : String) :
    accumulators.isPrefixOf (position name index) = false := by
  rw [accumulators_eq, position, positions_eq]
  rfl

theorem position_ne_accumulator (name index name' : String) :
    position name index ≠ accumulator name' := by
  intro h
  have := not_isPrefixOf_accumulator name name'
  rw [← h, isPrefixOf_position] at this
  cases this

theorem accumulator_injective {name name' : String} (h : accumulator name = accumulator name') :
    name = name' := Bytes.ofString_injective (List.append_cancel_left h)

/-- The positions of one accumulator are told apart from those of any other. -/
theorem eq_of_isPrefixOf_position {name name' index : String} (hname : IsName name)
    (hname' : IsName name') (h : (positions name).isPrefixOf (position name' index) = true) :
    name = name' := by
  have hbar : Bytes.ofString "||" = [124, 124] := by decide
  obtain ⟨rest, hrest⟩ := Bytes.exists_append_of_isPrefixOf h
  simp only [position, positions, hbar, List.append_assoc, List.cons_append] at hrest
  exact Bytes.ofString_injective (Bytes.eq_of_append_separator (Bytes.not_mem_ofString hname'.2)
    (Bytes.not_mem_ofString hname.2) (List.append_cancel_left hrest)).symm

theorem name?_accumulator (name : String) : name? (accumulator name) = some name := by
  rw [name?, Bytes.stripPrefix?, accumulator, if_pos (Bytes.isPrefixOf_append ..), List.drop_left,
    Option.bind_some, Bytes.toString?_ofString]

theorem index?_position (name index : String) : index? name (position name index) = some index := by
  rw [index?, Bytes.stripPrefix?, if_pos (isPrefixOf_position name index), position,
    List.drop_left, Option.bind_some, Bytes.toString?_ofString]

end Key

end Accrual
