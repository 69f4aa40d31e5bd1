/-
Listings are complete and exact.

* `Result.mapM_eq_filterMap` — decoding each of a list, where all can be decoded;
* `Records.exists_listing` — decoding all records whose keys begin alike gives what is found by
  looking up each key alone, each once and in the order of the keys;
* `Store.Legible.exists_all`, `Ledger.exists_positions` — so accumulators and positions are listed
  on a store where every record can be read, positions also where it takes no writes
  (`Ledger.exists_positions_of_readable`);
* `listings_are_exact` — and thus after any run of requests on an empty store.

Design notes.  An index may contain anything, the separator included: what follows the first
separator after the name is the index, and no key is split anywhere else.
-/
import Accrual.Proofs.Session.Legible

namespace Accrual

theorem Result.mapM_eq_filterMap {ε α β : Type} {f : α → Except ε β} {l : List α}
    (h : ∀ a ∈ l, ∃ b, f a = .ok b) : l.mapM f = .ok (l.filterMap fun a => (f a).toOption) := by
  induction l with
  | nil => rfl
  | cons a l ih =>
    obtain ⟨b, hb⟩ := h a List.mem_cons_self
    have hrest := ih fun a' ha' => h a' (List.mem_cons_of_mem a ha')
    rw [List.mapM_cons, hrest, List.filterMap_cons, hb]
    rfl

/-- If every record whose key begins with `start` can be decoded, and says what the rest of its key
is, then decoding them all lists what each of these keys gives alone, in ascending order. -/
theorem Records.exists_listing {α : Type} (r : Records) (start : Bytes)
    {decode : Bytes × Bytes → Except Error α} {rest : α → String}
    (hread : ∀ e ∈ r.entries, start.isPrefixOf e.1 = true →
      ∃ a, decode e = .ok a ∧ e.1 = start ++ Bytes.ofString (rest a)) :
    ∃ listing, (r.entries.filter fun e => start.isPrefixOf e.1).mapM decode = .ok listing ∧
      listing.Pairwise (fun a b => Bytes.ofString (rest a) < Bytes.ofString (rest b)) ∧
      ∀ a, a ∈ listing ↔ ∃ value, r.find? (start ++ Bytes.ofString (rest a)) = some value ∧
        decode (start ++ Bytes.ofString (rest a), value) = .ok a := by
  have hlisted (e : Bytes × Bytes) (he : e ∈ r.entries.filter fun e => start.isPrefixOf e.1) :
      ∃ a, decode e = .ok a ∧ e.1 = start ++ Bytes.ofString (rest a) :=
    hread e (List.mem_filter.mp he).1 (List.mem_filter.mp he).2
  have hdecoded {e : Bytes × Bytes} {a : α} : (decode e).toOption = some a ↔ decode e = .ok a := by
    cases decode e <;> simp [Except.toOption]
  refine ⟨_, Result.mapM_eq_filterMap fun e he => (hlisted e he).imp fun _ => And.left, ?_,
    fun a => ?_⟩
  · -- the keys ascend and have the same beginning
    refine List.pairwise_filterMap.mpr ((List.Pairwise.filter _ r.ascending).imp_of_mem ?_)
    intro e e' he he' hlt a ha b hb
    obtain ⟨a', ha', hkey⟩ := hlisted e he
    obtain ⟨b', hb', hkey'⟩ := hlisted e' he'
    obtain rfl : a = a' := Except.ok.inj ((hdecoded.mp ha).symm.trans ha')
    obtain rfl : b = b' := Except.ok.inj ((hdecoded.mp hb).symm.trans hb')
    rwa [hkey, hkey', Bytes.append_lt_append_iff] at hlt
  · rw [List.mem_filterMap]
    constructor
    · rintro ⟨⟨key, value⟩, he, ha⟩
      obtain ⟨a', ha', hkey⟩ := hlisted _ he
      obtain rfl : a = a' := Except.ok.inj ((hdecoded.mp ha).symm.trans ha')
      refine ⟨value, ?_, hkey ▸ ha'⟩
      rw [← hkey]
      exact (OrderedMap.find?_eq_some_iff r.ascending).mpr (List.mem_filter.mp he).1
    · rintro ⟨value, hfind, ha⟩
      have hmem := (OrderedMap.find?_eq_some_iff r.ascending).mp hfind
      exact ⟨_, List.mem_filter.mpr ⟨hmem, Bytes.isPrefixOf_append ..⟩, hdecoded.mpr ha⟩

variable {D : Finset String}

/-! ### Accumulators -/

namespace Accumulator

theorem all_apply {s : Store} (hw : s.Writable) :
    all s = Action.ofResult ((s.records.entries.filter fun e =>
      Key.accumulators.isPrefixOf e.1).mapM ofRecord) s := by
  simp only [all, Action.bind_apply, Action.get_apply, Store.list]
  rw [Store.scan_of_writable hw]
  rfl

theorem ofRecord_eq_ok {name : String} {value : Bytes} {a : Accumulator} :
    ofRecord (Key.accumulator name, value) = .ok a ↔
      a.name = name ∧ Totals.decode? value = some a.toTotals := by
  obtain ⟨t', name'⟩ := a
  simp only [ofRecord, Key.name?_accumulator]
  cases Totals.decode? value with
  | none => simp
  | some t => simp [eq_comm, and_comm]

end Accumulator

/-- Every accumulator that can be loaded is listed once, as it is loaded, in ascending order. -/
theorem Store.Legible.exists_all {s : Store} (h : s.Legible D) :
    ∃ accumulators, Accumulator.all s = .ok accumulators s ∧
      accumulators.Pairwise (fun a b => Bytes.ofString a.name < Bytes.ofString b.name) ∧
      ∀ a, a ∈ accumulators ↔ Accumulator.load a.name s = .ok a s := by
  have hread (e : Bytes × Bytes) (he : e ∈ s.records.entries)
      (hkey : Key.accumulators.isPrefixOf e.1 = true) :
      ∃ a, Accumulator.ofRecord e = .ok a ∧ e.1 = Key.accumulator a.name := by
    obtain ⟨key, value⟩ := e
    have hfind := (OrderedMap.find?_eq_some_iff s.records.ascending).mpr he
    obtain ⟨name, t, -, rfl, hread, -⟩ := (h.records _ _ hfind).totals_of_isPrefixOf hkey
    exact ⟨{ toTotals := t, name }, Accumulator.ofRecord_eq_ok.mpr ⟨rfl, hread⟩, rfl⟩
  obtain ⟨accumulators, hall, hascending, hmem⟩ := s.records.exists_listing Key.accumulators hread
  refine ⟨accumulators, by rw [Accumulator.all_apply h.writable, hall]; rfl, hascending,
    fun a => ?_⟩
  rw [Accumulator.load_eq_ok_iff h.writable.readable, Records.totals?_eq_some, hmem]
  constructor
  · rintro ⟨value, hfind, ha⟩
    obtain ⟨name, t, hname, heq, -⟩ :=
      (h.records _ _ hfind).totals_of_isPrefixOf (Bytes.isPrefixOf_append ..)
    obtain rfl := Key.accumulator_injective heq
    exact ⟨hname, rfl, value, hfind, (Accumulator.ofRecord_eq_ok.mp ha).2⟩
  · rintro ⟨-, -, value, hfind, hread⟩
    exact ⟨value, hfind, Accumulator.ofRecord_eq_ok.mpr ⟨rfl, hread⟩⟩

/-- There is an accumulator exactly where one can be loaded. -/
theorem Records.Legible.exists?_iff {s : Store} (hr : s.Readable) (h : s.records.Legible D)
    {name : String} :
    Accumulator.exists? name s = .ok true s ↔
      ∃ a, Accumulator.load a.name s = .ok a s ∧ a.name = name := by
  rw [Accumulator.exists?_apply hr]
  constructor
  · intro hexists
    split at hexists
    · next hname =>
      rw [EStateM.Result.ok.injEq, and_iff_left rfl, Option.isSome_iff_exists] at hexists
      obtain ⟨value, hfind⟩ := hexists
      obtain ⟨_, t, -, -, hread, -⟩ :=
        (h _ _ hfind).totals_of_isPrefixOf (Bytes.isPrefixOf_append ..)
      exact ⟨{ toTotals := t, name }, (Accumulator.load_eq_ok_iff hr).mpr
        ⟨hname, rfl, Records.totals?_eq_some.mpr ⟨value, hfind, hread⟩⟩, rfl⟩
    · cases hexists
  · rintro ⟨a, hload, rfl⟩
    obtain ⟨hname, -, htotals⟩ := (Accumulator.load_eq_ok_iff hr).mp hload
    obtain ⟨value, hfind, -⟩ := Records.totals?_eq_some.mp htotals
    rw [if_pos hname, hfind]
    rfl

theorem Store.Legible.exists?_iff {s : Store} (h : s.Legible D) {name : String} :
    Accumulator.exists? name s = .ok true s ↔
      ∃ a, Accumulator.load a.name s = .ok a s ∧ a.name = name :=
  h.records.exists?_iff h.writable.readable

/-! ### Positions -/

namespace Ledger

variable {l : Ledger}

theorem positionOfRecord_eq_ok {name index : String} {value : Bytes} {e : String × Position} :
    positionOfRecord name (Key.position name index, value) = .ok e ↔
      e.1 = index ∧ Position.decode? value = some e.2 := by
  obtain ⟨index', p'⟩ := e
  simp only [positionOfRecord, Key.index?_position]
  cases Position.decode? value with
  | none => simp
  | some p => simp [eq_comm]

theorem position_eq_ok (hr : l.store.Readable) {index : String} {p : Position} :
    position index l = .ok p l ↔
      ∃ value, l.store.records.find? (Key.position l.accumulator.name index) = some value ∧
        Position.decode? value = some p := by
  rw [position_apply hr, Action.ofResult_eq_ok, and_iff_left rfl, Accumulator.held_eq_ok, slot,
    Option.map_eq_some_iff]

/-- Every position that can be read is listed once, as it is read, in ascending order, whatever the
accumulator in hand is apart from its name. -/
theorem exists_positions_of_readable (hr : l.store.Readable) (h : l.store.records.Legible D)
    (hname : Key.IsName l.accumulator.name) :
    ∃ listing, positions l = .ok listing l ∧
      listing.Pairwise (fun e e' => Bytes.ofString e.1 < Bytes.ofString e'.1) ∧
      ∀ index p, (index, p) ∈ listing ↔ position index l = .ok p l := by
  have hread (e : Bytes × Bytes) (he : e ∈ l.store.records.entries)
      (hkey : (Key.positions l.accumulator.name).isPrefixOf e.1 = true) :
      ∃ e', positionOfRecord l.accumulator.name e = .ok e' ∧
        e.1 = Key.position l.accumulator.name e'.1 := by
    obtain ⟨key, value⟩ := e
    have hfind := (OrderedMap.find?_eq_some_iff l.store.records.ascending).mpr he
    obtain ⟨index, p, rfl, hread, -⟩ := (h _ _ hfind).position_of_isPrefixOf hname hkey
    exact ⟨(index, p), positionOfRecord_eq_ok.mpr ⟨rfl, hread⟩, rfl⟩
  obtain ⟨listing, hlisting, hascending, hmem⟩ :=
    l.store.records.exists_listing (Key.positions l.accumulator.name) hread
  refine ⟨listing, by rw [positions_apply hr, hlisting]; rfl, hascending, fun index p => ?_⟩
  rw [position_eq_ok hr, hmem]
  exact exists_congr fun value => and_congr_right fun _ =>
    positionOfRecord_eq_ok.trans (and_iff_right rfl)

theorem exists_positions (h : l.store.Legible D) (hname : Key.IsName l.accumulator.name) :
    ∃ listing, positions l = .ok listing l ∧
      listing.Pairwise (fun e e' => Bytes.ofString e.1 < Bytes.ofString e'.1) ∧
      ∀ index p, (index, p) ∈ listing ↔ position index l = .ok p l :=
  exists_positions_of_readable h.writable.readable h.records hname

end Ledger

/-! ### Runs -/

namespace Session

/-- After any run of requests on an empty store, through whatever copies in hand, all accumulators
and all positions can be listed.  The accumulators are listed in ascending order of their names,
exactly those that exist, as they are loaded; and the positions of each of them are listed in
ascending order of their indices, exactly those that can be read, as they are read. -/
theorem listings_are_exact (hD : D.card < twoTo 64) {store : Store} (hw : store.Writable)
    (hempty : store.records = .empty) {run : List Request}
    (hrun : ∀ r ∈ run, r.operation.Bounded D) :
    ∃ s accumulators, ((ofStore store).served run).store = some s ∧
      Accumulator.all s = .ok accumulators s ∧
      accumulators.Pairwise (fun a b => Bytes.ofString a.name < Bytes.ofString b.name) ∧
      (∀ a, a ∈ accumulators ↔ Accumulator.load a.name s = .ok a s) ∧
      (∀ name, Accumulator.exists? name s = .ok true s ↔ ∃ a ∈ accumulators, a.name = name) ∧
      ∀ a : Accumulator, Accumulator.exists? a.name s = .ok true s →
        ∃ listing, Ledger.positions ⟨a, s⟩ = .ok listing ⟨a, s⟩ ∧
          listing.Pairwise (fun e e' => Bytes.ofString e.1 < Bytes.ofString e'.1) ∧
          ∀ index p, (index, p) ∈ listing ↔ Ledger.position index ⟨a, s⟩ = .ok p ⟨a, s⟩ := by
  obtain ⟨s, hs, hlegible⟩ := ((legible_ofStore (D := D) hw hempty).served hD hrun).stored
  obtain ⟨accumulators, hall, hascending, hmem⟩ := hlegible.exists_all
  refine ⟨s, accumulators, hs, hall, hascending, hmem, fun name => ?_, fun a hexists => ?_⟩
  · simp only [hlegible.exists?_iff, hmem]
  · obtain ⟨b, hload, hname⟩ := hlegible.exists?_iff.mp hexists
    obtain ⟨-, -, hvalid⟩ := Accumulator.of_load hload
    exact Ledger.exists_positions (l := ⟨a, s⟩) hlegible (hname ▸ hvalid)

/-- Two copies of one accumulator are in hand, and one does not know what is done with the other. -/
def twoCopies : List Request :=
  [⟨"pool-1", .create "first"⟩, ⟨"pool", .createOnly⟩, ⟨"pool-1", .load "second"⟩,
    ⟨"pool-1", .act "first" (.step (.openNow "é" (.ofPartsD 3 0) (some [1])))⟩,
    ⟨"pool-1", .act "second" (.step (.openNow "||a" (.ofPartsD 2 0) none))⟩,
    ⟨"pool-1", .act "first" (.step (.shrink "é" (.ofPartsD 1 0)))⟩,
    ⟨"pool", .actByName (.query .positions)⟩]

theorem listings_are_exact_twoCopies :
    ∃ s accumulators listing,
      ((ofStore (.memory .empty)).served twoCopies).store = some s ∧
      Accumulator.all s = .ok accumulators s ∧
      accumulators.map (·.name) = ["pool", "pool-1"] ∧
      Ledger.positions ⟨{ toTotals := .zero, name := "pool-1" }, s⟩
        = .ok listing ⟨{ toTotals := .zero, name := "pool-1" }, s⟩ ∧
      listing.map Prod.fst = ["||a", "é"] := by
  obtain ⟨s, accumulators, hs, hall, -, -, hexists, hpositions⟩ :=
    @listings_are_exact ∅ (by decide) (.memory .empty) trivial rfl twoCopies (by
      simp [twoCopies, Operation.Bounded, Use.Bounded, Step.Over, twoTo])
  -- what the listings are is computed from the run
  have hnames : (((ofStore (.memory .empty)).served twoCopies).store.bind fun s =>
      (Accumulator.all.answer s).toOption).map (·.map (·.name)) = some ["pool", "pool-1"] := by
    decide +kernel
  have hindices : (((ofStore (.memory .empty)).served twoCopies).store.bind fun s =>
      (Ledger.positions.answer ⟨{ toTotals := .zero, name := "pool-1" }, s⟩).toOption).map
        (·.map Prod.fst) = some ["||a", "é"] := by
    decide +kernel
  rw [hs, Option.bind_some, Action.answer, hall] at hnames
  obtain hnames : accumulators.map (·.name) = ["pool", "pool-1"] := Option.some.inj hnames
  have hpool : "pool-1" ∈ accumulators.map (·.name) := by rw [hnames]; decide
  obtain ⟨listing, hlisting, -⟩ := hpositions { toTotals := .zero, name := "pool-1" }
    ((hexists "pool-1").mpr (List.mem_map.mp hpool))
  rw [hs, Option.bind_some, Action.answer, hlisting] at hindices
  exact ⟨s, accumulators, listing, hs, hall, hnames, hlisting, Option.some.inj hindices⟩

end Session

end Accrual
