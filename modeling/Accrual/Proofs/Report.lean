/-
Reports tell what is stored.

* `AccumulatorReport.foldlM_extend` — adding up what the positions of a listing are owed, where the
  sum of each denomination is exact if the last one is;
* `Ledger.indices`, `Ledger.Lists` — the open positions, and the one listing of them;
* `Ledger.Payable` — every open position is owed something, and of each denomination the exact sum
  of this can be written at the largest scale among the amounts;
* `Ledger.Payable.exists_report` — then all are reported, with that sum;
* `AccumulatorReport.Faithful` — the report lists every open position once, as it is reported alone,
  and has the exact sum of what these are owed;
* `Store.Reached` — a store with the records that a run of requests has left, perhaps opened again
  for reading only;
* `AccumulatorReport.reports_are_faithful` — on such a store, what is payable is reported, and the
  report is faithful and independent of the order in which the positions were opened.

Design notes.  The report adds up in the order of the indices, and after every position it has a
decimal for the sum so far.  No such sum is above the last one, and all are multiples of the same
unit, so what is assumed of the last one is enough for each of them.
-/
import Mathlib.Algebra.BigOperators.Group.Finset.Basic
import Mathlib.Data.Finset.Lattice.Fold
import Mathlib.Order.Lattice.Nat
import Accrual.Proofs.Key
import Accrual.Proofs.Ledger.Settlement
import Accrual.Proofs.Session.Enumeration
import Accrual.Report

namespace Accrual

open Decimal (IsMultiple Fits limit)

variable {D : Finset String}

/-! ### Adding up -/

/-- The report on a listed position, where `owed` says what is owed at each index. -/
def PositionReport.entry (owed : String → Rewards) (e : String × Position) : PositionReport :=
  ⟨e.1, e.2, owed e.1⟩

namespace AccumulatorReport

variable {a : Accumulator} {r : AccumulatorReport} {e : String × Position}
  {listing : List (String × Position)} {owed : String → Rewards} {out : Rewards}

theorem extend_of_owed (howed : r.accumulator.owed e.2 = .ok (owed e.1))
    (hout : r.outstanding.add (owed e.1) = .ok out) :
    r.extend e = .ok { r with
      outstanding := out, positions := r.positions ++ [.entry owed e] } := by
  simp only [extend, PositionReport.of, howed, Result.ok_bind, pure_bind, hout]
  rfl

/-- The sum of what has been added up and of what is still to come is at least what has been added
up, so if it fits, no sum on the way to it is rounded. -/
theorem foldlM_extend {t : String → ℕ} (ht : ∀ d, t d ≤ 28) (hr : r.outstanding.Over D)
    (hgrid : ∀ d, IsMultiple (t d) (r.outstanding.value d))
    (howed : ∀ e ∈ listing, r.accumulator.owed e.2 = .ok (owed e.1) ∧ (owed e.1).Over D ∧
      ∀ d, IsMultiple (t d) ((owed e.1).value d))
    (hsum : ∀ d,
      r.outstanding.value d + (listing.map fun e => (owed e.1).value d).sum < limit (t d)) :
    ∃ out : Rewards, out.Over D ∧
      (∀ d, out.value d
        = r.outstanding.value d + (listing.map fun e => (owed e.1).value d).sum) ∧
      listing.foldlM extend r
        = .ok ⟨r.accumulator, out, r.positions ++ listing.map (.entry owed)⟩ := by
  induction listing generalizing r with
  | nil => exact ⟨r.outstanding, hr, by simp, by simp; rfl⟩
  | cons e listing ih =>
    obtain ⟨hdue, hover, hmultiple⟩ := howed e List.mem_cons_self
    have hrest : ∀ e' ∈ listing, _ := fun e' he' => howed e' (List.mem_cons_of_mem e he')
    simp only [List.map_cons, List.sum_cons] at hsum ⊢
    have hnonneg (d : String) : 0 ≤ (listing.map fun e => (owed e.1).value d).sum :=
      List.sum_nonneg fun x hx => by
        obtain ⟨e', he', rfl⟩ := List.mem_map.mp hx
        exact (hrest e' he').2.1.value_nonneg d
    -- the next sum is exact
    obtain ⟨out, hadd, hout, hval⟩ := Rewards.add_representable hr hover fun d =>
      ⟨t d, ht d, ((hgrid d).add (hmultiple d)).fits
        (add_nonneg (hr.value_nonneg d) (hover.value_nonneg d))
        (by linarith [hsum d, hnonneg d])⟩
    obtain ⟨out', hout', hval', hfold⟩ := ih
      (r := { r with outstanding := out, positions := r.positions ++ [.entry owed e] }) hout
      (fun d => (hval d).symm ▸ (hgrid d).add (hmultiple d)) hrest
      (fun d => by rw [hval d, add_assoc]; exact hsum d)
    refine ⟨out', hout', fun d => by rw [hval' d, hval d, add_assoc], ?_⟩
    rw [List.foldlM_cons, extend_of_owed hdue hadd, Result.ok_bind, hfold]
    simp

/-- If what the listed positions are owed adds up to something that fits, they are all reported,
and the report has the exact sum. -/
theorem of_listing {t : String → ℕ} (ht : ∀ d, t d ≤ 28)
    (howed : ∀ e ∈ listing, a.owed e.2 = .ok (owed e.1) ∧ (owed e.1).Over D ∧
      ∀ d, IsMultiple (t d) ((owed e.1).value d))
    (hsum : ∀ d, (listing.map fun e => (owed e.1).value d).sum < limit (t d)) :
    ∃ out : Rewards, out.Over D ∧
      (∀ d, out.value d = (listing.map fun e => (owed e.1).value d).sum) ∧
      of a listing = .ok ⟨a, out, listing.map (.entry owed)⟩ := by
  have hfold := @foldlM_extend D ⟨a, .empty, []⟩ listing owed t ht Rewards.over_empty
    (fun d => by simpa using Decimal.isMultiple_zero (t d)) howed (by simpa using hsum)
  simpa [of] using hfold

end AccumulatorReport

/-! ### Reading reports -/

section

variable {name index : String} {s : Store} {a : Accumulator}

theorem Ledger.byName_of_ofResult {α : Type} {act : Action Ledger α} {r : Except Error α}
    (hload : Accumulator.load name s = .ok a s) (hact : act ⟨a, s⟩ = Action.ofResult r ⟨a, s⟩) :
    byName name act s = Action.ofResult r s := by
  simp only [byName, hload, hact]
  cases r <;> rfl

/-- A position is reported with what is read and what that is owed. -/
theorem PositionReport.read_eq_ok (hload : Accumulator.load name s = .ok a s)
    {report : PositionReport} :
    PositionReport.read name index s = .ok report s ↔
      report.index = index ∧ Ledger.position index ⟨a, s⟩ = .ok report.position ⟨a, s⟩ ∧
        a.owed report.position = .ok report.owed := by
  obtain ⟨r, hr⟩ := Ledger.reads_position index ⟨a, s⟩
  have hact : (do
      let position ← Ledger.position index
      Action.ofResult (of (← get).accumulator index position)) (Ledger.mk a s)
      = Action.ofResult (r >>= of a index) ⟨a, s⟩ := by
    rw [Action.bind_apply, hr]
    cases r <;> rfl
  rw [read, Ledger.byName_of_ofResult hload hact, hr, Action.ofResult_eq_ok, Action.ofResult_eq_ok,
    and_iff_left rfl, and_iff_left rfl, Result.bind_eq_ok]
  constructor
  · rintro ⟨p, rfl, hof⟩
    obtain ⟨due, hdue, hreport⟩ := Result.bind_eq_ok.mp hof
    cases hreport
    exact ⟨rfl, rfl, hdue⟩
  · rintro ⟨rfl, hp, hdue⟩
    exact ⟨report.position, hp, Result.bind_eq_ok.mpr ⟨report.owed, hdue, rfl⟩⟩

theorem AccumulatorReport.read_apply (hload : Accumulator.load name s = .ok a s)
    {listing : List (String × Position)}
    (hlisting : Ledger.positions ⟨a, s⟩ = .ok listing ⟨a, s⟩) :
    read name s = Action.ofResult (of a listing) s := by
  refine Ledger.byName_of_ofResult hload ?_
  rw [Action.bind_apply, hlisting]
  rfl

end

/-! ### What is payable -/

namespace Ledger

variable {l : Ledger} {index : String} {due : String → Rewards}
  {listing listing' : List (String × Position)}

/-- The listing has every position that can be read, once and as it is read, in ascending order of
the indices. -/
structure Lists (l : Ledger) (listing : List (String × Position)) : Prop where
  ascending : listing.Pairwise fun e e' => Bytes.ofString e.1 < Bytes.ofString e'.1
  mem_iff : ∀ index p, (index, p) ∈ listing ↔ position index l = .ok p l

/-- The indices of the open positions. -/
def indices (l : Ledger) : Finset String :=
  (l.store.records.entries.filterMap fun e => Key.index? l.accumulator.name e.1).toFinset

/-- The largest scale among what is due of a denomination to the open positions. -/
def largestScale (l : Ledger) (due : String → Rewards) (d : String) : ℕ :=
  l.indices.sup fun index => ((due index).amount d).scale

/-- Every open position is owed what `due` says of its index, and of each denomination the exact sum
of these amounts can be written at the largest scale among them. -/
structure Payable (l : Ledger) (due : String → Rewards) : Prop where
  owed : ∀ index p, position index l = .ok p l → l.accumulator.owed p = .ok (due index)
  fits : ∀ d, Fits (l.largestScale due d) (∑ index ∈ l.indices, (due index).value d)

/-- Open are the positions that can be read. -/
theorem mem_indices_iff (hr : l.store.Readable) (h : l.store.records.Legible D)
    (hname : Key.IsName l.accumulator.name) :
    index ∈ l.indices ↔ ∃ p, position index l = .ok p l := by
  simp only [indices, List.mem_toFinset, List.mem_filterMap, Key.index?_eq_some_iff,
    position_eq_ok hr]
  constructor
  · rintro ⟨⟨_, value⟩, he, rfl⟩
    have hfind := (OrderedMap.find?_eq_some_iff l.store.records.ascending).mpr he
    obtain ⟨p, hread, -⟩ := h.exists_position hname hfind
    exact ⟨p, value, hfind, hread⟩
  · rintro ⟨p, value, hfind, -⟩
    exact ⟨_, (OrderedMap.find?_eq_some_iff l.store.records.ascending).mp hfind, rfl⟩

theorem scale_le_largestScale (hindex : index ∈ l.indices) (d : String) :
    ((due index).amount d).scale ≤ l.largestScale due d :=
  Finset.le_sup (f := fun index => ((due index).amount d).scale) hindex

theorem largestScale_le (d : String) : l.largestScale due d ≤ 28 :=
  Finset.sup_le fun index _ => ((due index).amount d).scale_le

namespace Lists

theorem nodup (h : l.Lists listing) : (listing.map Prod.fst).Nodup := by
  refine List.pairwise_map.mpr (h.ascending.imp fun hlt heq => ?_)
  rw [heq] at hlt
  exact Std.lt_irrefl hlt

/-- There is one listing. -/
theorem unique (h : l.Lists listing) {l' : Ledger} (h' : l'.Lists listing')
    (hsame : ∀ index p, position index l = .ok p l ↔ position index l' = .ok p l') :
    listing = listing' := by
  have : Std.Irrefl fun e e' : String × Position => Bytes.ofString e.1 < Bytes.ofString e'.1 :=
    ⟨fun _ => Std.lt_irrefl⟩
  have : Std.Antisymm fun e e' : String × Position => Bytes.ofString e.1 < Bytes.ofString e'.1 :=
    ⟨fun _ _ hlt hgt => absurd hgt (Std.not_lt.2 (Std.le_of_lt hlt))⟩
  exact h.ascending.eq_of_mem_iff h'.ascending fun ⟨index, p⟩ => by
    rw [h.mem_iff, h'.mem_iff, hsame]

theorem indices_eq (h : l.Lists listing) (hr : l.store.Readable)
    (hlegible : l.store.records.Legible D) (hname : Key.IsName l.accumulator.name) :
    l.indices = (listing.map Prod.fst).toFinset := by
  ext index
  rw [mem_indices_iff hr hlegible hname, List.mem_toFinset, List.mem_map]
  constructor
  · rintro ⟨p, hp⟩
    exact ⟨(index, p), (h.mem_iff index p).mpr hp, rfl⟩
  · rintro ⟨⟨_, p⟩, he, rfl⟩
    exact ⟨p, (h.mem_iff _ p).mp he⟩

/-- A sum over the open positions can be taken along the listing. -/
theorem sum_indices (h : l.Lists listing) (hindices : l.indices = (listing.map Prod.fst).toFinset)
    (f : String → ℚ) : ∑ index ∈ l.indices, f index = (listing.map fun e => f e.1).sum := by
  rw [hindices, List.sum_toFinset f h.nodup, List.map_map]
  rfl

end Lists

/-- What is payable depends on the positions and on the value per share only. -/
theorem Payable.congr {l' : Ledger} (h : l.Payable due)
    (hname : l'.accumulator.name = l.accumulator.name)
    (hvalue : l'.accumulator.valuePerShare = l.accumulator.valuePerShare)
    (hindices : l'.indices = l.indices)
    (hsame : ∀ index p, position index l' = .ok p l' ↔ position index l = .ok p l) :
    l'.Payable due where
  owed := by
    intro index p hp
    rw [Accumulator.owed_congr hname hvalue]
    exact h.owed index p ((hsame index p).mp hp)
  fits := by
    intro d
    rw [largestScale, hindices]
    exact h.fits d

/-- What is payable is reported: all positions, and the exact sum of what they are owed. -/
theorem Payable.exists_report {name : String} {s : Store} {a : Accumulator}
    (h : Payable ⟨a, s⟩ due) (hr : s.Readable) (hlegible : s.records.Legible D)
    (hload : Accumulator.load name s = .ok a s) :
    ∃ (listing : List (String × Position)) (out : Rewards),
      Lists ⟨a, s⟩ listing ∧ out.Over D ∧
      (∀ d, out.value d = (listing.map fun e => (due e.1).value d).sum) ∧
      AccumulatorReport.read name s = .ok ⟨a, out, listing.map (.entry due)⟩ s := by
  obtain ⟨-, rfl, hname⟩ := Accumulator.of_load hload
  have hvalue : a.valuePerShare.Over D :=
    hlegible.over_of_totals ((Accumulator.load_eq_ok_iff hr).mp hload).2.2
  obtain ⟨listing, hlisting, hascending, hmem⟩ :=
    exists_positions_of_readable (l := ⟨a, s⟩) hr hlegible hname
  have hlists : Lists ⟨a, s⟩ listing := ⟨hascending, hmem⟩
  have hindices := hlists.indices_eq hr hlegible hname
  have howed (e : String × Position) (he : e ∈ listing) : a.owed e.2 = .ok (due e.1) ∧
      (due e.1).Over D ∧ ∀ d, IsMultiple (largestScale ⟨a, s⟩ due d) ((due e.1).value d) := by
    have hp := (hmem e.1 e.2).mp he
    have hdue := h.owed e.1 e.2 hp
    obtain ⟨value, hfind, hread⟩ := (position_eq_ok (l := ⟨a, s⟩) hr).mp hp
    have hover : e.2.Over D := hlegible.over_of_position hname hfind hread
    refine ⟨hdue, Accumulator.over_of_owed hvalue hover hdue, fun d => ?_⟩
    refine (Decimal.isMultiple_toRat _).mono (scale_le_largestScale ?_ d)
    rw [hindices, List.mem_toFinset]
    exact List.mem_map_of_mem he
  obtain ⟨out, hout, hsum, hof⟩ := AccumulatorReport.of_listing largestScale_le howed fun d => by
    rw [← hlists.sum_indices hindices fun index => (due index).value d]
    exact (h.fits d).lt_limit
  refine ⟨listing, out, hlists, hout, hsum, ?_⟩
  rw [AccumulatorReport.read_apply hload hlisting, hof]
  rfl

end Ledger

/-! ### Faithful reports -/

/-- A report on the accumulator of a name that tells what is stored. -/
structure AccumulatorReport.Faithful (report : AccumulatorReport) (name : String) (s : Store) :
    Prop where
  loaded : Accumulator.load name s = .ok report.accumulator s
  listed : Ledger.Lists ⟨report.accumulator, s⟩
    (report.positions.map fun e => (e.index, e.position))
  /-- Every position is reported as it is alone. -/
  alone : ∀ e ∈ report.positions, PositionReport.read name e.index s = .ok e s
  outstanding : ∀ d,
    report.outstanding.value d = (report.positions.map fun e => e.owed.value d).sum

/-- A store that can be read, perhaps only that, and that has the records which a run of requests on
an empty store has left. -/
inductive Store.Reached : Store → Prop
  | of_run {D : Finset String} {run : List Session.Request} {start s : Store}
    (hD : D.card < twoTo 64) (hw : start.Writable) (hempty : start.records = .empty)
    (hrun : ∀ r ∈ run, r.operation.Bounded D) (hr : s.Readable)
    (hrecords : s.records = ((Session.ofStore start).served run).records) : Reached s

theorem Store.Reached.legible {s : Store} (h : s.Reached) :
    s.Readable ∧ ∃ D, s.records.Legible D := by
  cases h with
  | @of_run D _ _ _ hD hw hempty hrun hr hrecords =>
    obtain ⟨store, hstore, hlegible⟩ :=
      ((Session.legible_ofStore (D := D) hw hempty).served hD hrun).stored
    rw [Session.records, hstore] at hrecords
    exact ⟨hr, D, hrecords ▸ hlegible.records⟩

namespace AccumulatorReport

variable {name : String} {s s' : Store} {a a' : Accumulator} {listing : List (String × Position)}
  {due : String → Rewards} {out : Rewards}

/-- A report with all positions and the sum of what they are owed is faithful. -/
theorem faithful_of_lists (hload : Accumulator.load name s = .ok a s)
    (hlists : Ledger.Lists ⟨a, s⟩ listing) (hdue : Ledger.Payable ⟨a, s⟩ due)
    (hout : ∀ d, out.value d = (listing.map fun e => (due e.1).value d).sum) :
    Faithful ⟨a, out, listing.map (.entry due)⟩ name s where
  loaded := hload
  listed := by
    have hback : (listing.map (.entry due)).map (fun e : PositionReport => (e.index, e.position))
        = listing := by
      rw [List.map_map]
      exact List.map_id listing
    rw [hback]
    exact hlists
  alone := by
    intro _ hreport
    obtain ⟨e, he, rfl⟩ := List.mem_map.mp hreport
    have hp := (hlists.mem_iff e.1 e.2).mp he
    exact (PositionReport.read_eq_ok hload).mpr ⟨rfl, hp, hdue.owed e.1 e.2 hp⟩
  outstanding := by
    intro d
    rw [hout d, List.map_map]
    rfl

/-- Reports on an existing accumulator of a reached store are faithful: if every open position is
owed something, and of each denomination the exact sum of these amounts can be written at the
largest scale among them, then the accumulator is reported, with every open position once, as it
is reported alone, and with that sum.  The report depends on the positions and on the value per
share only, not on the order in which the positions were opened. -/
theorem reports_are_faithful (hs : s.Reached) (hexists : Accumulator.exists? name s = .ok true s) :
    ∃ a, Accumulator.load name s = .ok a s ∧
      (∀ index, index ∈ Ledger.indices ⟨a, s⟩ ↔ ∃ p, Ledger.position index ⟨a, s⟩ = .ok p ⟨a, s⟩) ∧
      ∀ due, Ledger.Payable ⟨a, s⟩ due →
        ∃ report, read name s = .ok report s ∧ report.Faithful name s ∧
          ∀ s' a', s'.Reached → Accumulator.load name s' = .ok a' s' →
            a'.valuePerShare = a.valuePerShare →
            (∀ index p, Ledger.position index ⟨a', s'⟩ = .ok p ⟨a', s'⟩ ↔
              Ledger.position index ⟨a, s⟩ = .ok p ⟨a, s⟩) →
            ∃ report', read name s' = .ok report' s' ∧ report'.Faithful name s' ∧
              report'.positions = report.positions ∧ report'.outstanding = report.outstanding := by
  obtain ⟨hr, D, hlegible⟩ := hs.legible
  obtain ⟨a, hload, rfl⟩ := (hlegible.exists?_iff hr).mp hexists
  obtain ⟨-, -, hname⟩ := Accumulator.of_load hload
  refine ⟨a, hload, fun index => Ledger.mem_indices_iff (l := ⟨a, s⟩) hr hlegible hname,
    fun due hdue => ?_⟩
  obtain ⟨listing, out, hlists, hover, hout, hread⟩ := hdue.exists_report hr hlegible hload
  refine ⟨_, hread, faithful_of_lists hload hlists hdue hout, ?_⟩
  intro s' a' hs' hload' hvalue hsame
  obtain ⟨hr', D', hlegible'⟩ := hs'.legible
  obtain ⟨-, hname', -⟩ := Accumulator.of_load hload'
  have hindices : Ledger.indices ⟨a', s'⟩ = Ledger.indices ⟨a, s⟩ := by
    ext index
    rw [Ledger.mem_indices_iff (l := ⟨a, s⟩) hr hlegible hname,
      Ledger.mem_indices_iff (l := ⟨a', s'⟩) hr' hlegible' (hname' ▸ hname)]
    exact exists_congr fun p => hsame index p
  have hdue' : Ledger.Payable ⟨a', s'⟩ due := hdue.congr hname' hvalue hindices hsame
  obtain ⟨listing', out', hlists', hover', hout', hread'⟩ :=
    hdue'.exists_report hr' hlegible' hload'
  obtain rfl : listing' = listing := hlists'.unique hlists hsame
  obtain rfl : out' = out :=
    hover'.toCanonical.ext hover.toCanonical fun d => (hout' d).trans (hout d).symm
  exact ⟨_, hread', faithful_of_lists hload' hlists' hdue' hout', rfl, rfl⟩

/-- Positions are opened, and rewards are injected. -/
def opening (openings : List Step) : List Session.Request :=
  ⟨"pool", .create "pool"⟩ ::
    (openings ++ [Step.inject ⟨[("uatom", .ofPartsD 10 0), ("uosmo", .ofPartsD 5 1)]⟩]).map
      fun step => ⟨"pool", .act "pool" (.step step)⟩

/-- What one of three shares is owed of that, and what the other two are owed. -/
def thirdsDue (index : String) : Rewards :=
  if index = "a" then
    ⟨[("uatom", .ofPartsD 3333333333333333333 18), ("uosmo", .ofPartsD 166666666666666666 18)]⟩
  else
    ⟨[("uatom", .ofPartsD 6666666666666666666 18), ("uosmo", .ofPartsD 333333333333333332 18)]⟩

/-- The accumulator after that. -/
def thirdsPool : Accumulator where
  name := "pool"
  valuePerShare := thirdsDue "a"
  totalShares := .ofPartsD 3 0

theorem fits_thirdsDue (d : String) :
    Fits (({"a", "b"} : Finset String).sup fun index => ((thirdsDue index).amount d).scale)
      (∑ index ∈ ({"a", "b"} : Finset String), (thirdsDue index).value d) := by
  rw [Finset.sum_pair (by decide)]
  by_cases hatom : d = "uatom"
  · subst hatom
    exact ⟨9999999999999999999, by decide, by decide +kernel⟩
  by_cases hosmo : d = "uosmo"
  · subst hosmo
    exact ⟨499999999999999998, by decide, by decide +kernel⟩
  -- of no other denomination is anything owed
  have hzero (index : String) : (thirdsDue index).value d = 0 := by
    rcases Rewards.Canonical.amount_eq_zero_or_mem (thirdsDue index) d with hamount | hmem
    · rw [Rewards.value, hamount, Decimal.toRat_zero]
    · rw [thirdsDue] at hmem
      split at hmem <;> simp [hatom, hosmo] at hmem
  rw [hzero, hzero]
  exact ⟨0, by decide, by simp⟩

/-- The two positions are opened in either order, and the records are read from a database that
takes no writes, or from memory. -/
theorem reports_are_faithful_thirds :
    let a := Step.openNow "a" (.ofPartsD 1 0) none
    let b := Step.openNow "b" (.ofPartsD 2 0) none
    let s := Store.database
      (some ((Session.ofStore (.memory .empty)).served (opening [b, a])).records) false
    let s' := Store.memory ((Session.ofStore (.memory .empty)).served (opening [a, b])).records
    ∃ report report', s.Reached ∧ s'.Reached ∧
      read "pool" s = .ok report s ∧ report.Faithful "pool" s ∧
      read "pool" s' = .ok report' s' ∧ report'.Faithful "pool" s' ∧
      report'.positions = report.positions ∧ report'.outstanding = report.outstanding ∧
      report.positions.map (·.index) = ["a", "b"] ∧
      report.outstanding = ⟨[("uatom", .ofPartsD 9999999999999999999 18),
        ("uosmo", .ofPartsD 499999999999999998 18)]⟩ := by
  intro a b s s'
  have hamounts : Rewards.Over {"uatom", "uosmo"}
      ⟨[("uatom", .ofPartsD 10 0), ("uosmo", .ofPartsD 5 1)]⟩ :=
    ⟨⟨by decide +kernel, by decide +kernel, by decide +kernel⟩, by decide +kernel⟩
  have hw : (Store.memory .empty).Writable := trivial
  have hr : s.Readable := rfl
  have hr' : s'.Readable := trivial
  have hs : s.Reached :=
    .of_run (D := {"uatom", "uosmo"}) (by decide) hw rfl
      (by simpa [opening, a, b, Session.Operation.Bounded, Use.Bounded, Step.Over] using hamounts)
      hr rfl
  have hs' : s'.Reached :=
    .of_run (D := {"uatom", "uosmo"}) (by decide) hw rfl
      (by simpa [opening, a, b, Session.Operation.Bounded, Use.Bounded, Step.Over] using hamounts)
      hr' rfl
  have hrecords : s'.records = s.records := by decide +kernel
  -- the accumulator is loaded, and its positions are owed what is said above
  have hanswer : (Accumulator.exists? "pool").answer s = .ok true := by decide +kernel
  have hexists : Accumulator.exists? "pool" s = .ok true s := by
    rw [(Accumulator.reads_exists? "pool").apply s, hanswer]
    rfl
  obtain ⟨pool, hload, hindices, hreport⟩ := reports_are_faithful hs hexists
  have hpool : (Accumulator.load "pool").answer s = .ok thirdsPool := by decide +kernel
  rw [Action.answer, hload] at hpool
  obtain rfl : pool = thirdsPool := Except.ok.inj hpool
  have hset : Ledger.indices ⟨thirdsPool, s⟩ = {"a", "b"} := by decide +kernel
  have hpayable : Ledger.Payable ⟨thirdsPool, s⟩ thirdsDue := by
    refine ⟨fun index p hp => ?_, fun d => ?_⟩
    · have howed : (Ledger.owedAt index).answer ⟨thirdsPool, s⟩ = thirdsPool.owed p :=
        Action.answer_of_eq (by rw [Ledger.owedAt, Action.bind_apply, hp]; rfl)
      have hmem := (hindices index).mpr ⟨p, hp⟩
      rw [hset, Finset.mem_insert, Finset.mem_singleton] at hmem
      rw [← howed]
      rcases hmem with rfl | rfl <;> decide +kernel
    · rw [Ledger.largestScale, hset]
      exact fits_thirdsDue d
  obtain ⟨report, hread, hfaithful, hother⟩ := hreport thirdsDue hpayable
  -- the other store has the same records
  have hload' : Accumulator.load "pool" s' = .ok thirdsPool s' := by
    rw [Accumulator.load_eq_ok_iff hr', hrecords]
    exact (Accumulator.load_eq_ok_iff hr).mp hload
  obtain ⟨report', hread', hfaithful', hpositions, houtstanding⟩ :=
    hother s' thirdsPool hs' hload' rfl fun index p => by
      rw [Ledger.position_eq_ok (l := ⟨thirdsPool, s'⟩) hr',
        Ledger.position_eq_ok (l := ⟨thirdsPool, s⟩) hr, hrecords]
  have hshown : ((read "pool").answer s).map
      (fun report => (report.positions.map (·.index), report.outstanding)) = .ok (["a", "b"],
        ⟨[("uatom", .ofPartsD 9999999999999999999 18),
          ("uosmo", .ofPartsD 499999999999999998 18)]⟩) := by
    decide +kernel
  rw [Action.answer, hread] at hshown
  obtain ⟨hlisted, hsum⟩ := Prod.mk.inj (Except.ok.inj hshown)
  exact ⟨report, report', hs, hs', hread, hfaithful, hread', hfaithful', hpositions, houtstanding,
    hlisted, hsum⟩

end AccumulatorReport

end Accrual
