/-
Everything that can be done with an accumulator in hand.

* `Query`, `Ledger.consult` — what can be asked of it, and the answers;
* `Use`, `Ledger.use` — an operation or a question;
* `Action.answer`, `Action.final`, `Action.answers`, `Action.after` — what an action answers and
  leaves, and what a run of actions answers and leaves;
* `Accumulator.of_load` — loading gives an accumulator its name and leaves the store as it is;
* `Accumulator.exists?_apply`, `Accumulator.load_apply` — on a store that can be read, what exists
  and what is loaded depends on its records;
* `Ledger.use_eq_resolve` — on a store that takes writes, a use is decided from the accumulator and
  its records alone (`Ledger.resolve`), and then one change is committed;
* `Ledger.find?_use` — which changes no other record than that of the totals and of one position;
* `Ledger.idle_use` — on any other store it changes nothing.

Design notes.  A question is decided like an operation that writes nothing, so one statement
covers both, and a statement about runs has one case for each kind of store.
-/
import Accrual.Proofs.Ledger.Holds
import Accrual.Proofs.Ledger.ReadOnly

namespace Accrual

/-! ### Questions and operations -/

/-- What can be asked of an accumulator in hand. -/
inductive Query where
  /-- The value per share and the total shares. -/
  | totals
  | position (index : String)
  | hasPosition (index : String)
  /-- The number of shares of a position. -/
  | shares (index : String)
  /-- What some position, stored or not, is owed. -/
  | owed (p : Position)
  | positions

/-- The answer to a question. -/
inductive Reading where
  | totals (t : Totals)
  | position (p : Position)
  | present (b : Bool)
  | shares (n : Decimal)
  | owed (due : Rewards)
  | positions (listing : List (String × Position))
deriving DecidableEq

/-- An operation or a question. -/
inductive Use where
  | step (operation : Step)
  | query (question : Query)

/-- What a use answers. -/
inductive Answer where
  | outcome (outcome : Outcome)
  | reading (reading : Reading)
deriving DecidableEq

namespace Ledger

/-- Answer a question. -/
def consult : Query → Action Ledger Reading
  | .totals => return .totals (← get).accumulator.toTotals
  | .position index => return .position (← position index)
  | .hasPosition index => return .present (← hasPosition index)
  | .shares index => return .shares (← position index).shares
  | .owed p => return .owed (← owed p)
  | .positions => return .positions (← positions)

/-- Carry out an operation or answer a question. -/
def use : Use → Action Ledger Answer
  | .step step => return .outcome (← perform step)
  | .query query => return .reading (← consult query)

end Ledger

/-- The position whose record an operation can change. -/
def Step.index? : Step → Option String
  | .inject _ | .credit _ | .adjustShares _ => none
  | step => some step.index

/-- The position whose record a use can change. -/
def Use.index? : Use → Option String
  | .step operation => operation.index?
  | .query _ => none

/-- The position a use addresses with an operation; none has the empty index. -/
def Use.index : Use → String
  | .step operation => operation.index
  | .query _ => ""

/-! ### Answers and runs -/

namespace Action

variable {σ α ι : Type}

/-- What an action answers. -/
def answer (act : Action σ α) (s : σ) : Except Error α :=
  match act s with
  | .ok a _ => .ok a
  | .error e _ => .error e

/-- What an action leaves, whether it succeeded or failed. -/
def final (act : Action σ α) (s : σ) : σ :=
  match act s with
  | .ok _ s => s
  | .error _ s => s

/-- The answers of a run of actions; a failed one does not end the run. -/
def answers (act : ι → Action σ α) (s : σ) : List ι → List (Except Error α)
  | [] => []
  | i :: run => (act i).answer s :: answers act ((act i).final s) run

/-- What a run of actions leaves. -/
def after (act : ι → Action σ α) (s : σ) (run : List ι) : σ :=
  run.foldl (fun s i => (act i).final s) s

theorem answer_of_eq {act : Action σ α} {s : σ} {r : Except Error α}
    (h : act s = ofResult r s) : act.answer s = r := by
  rw [answer, h]
  cases r <;> rfl

theorem final_of_eq {act : Action σ α} {s : σ} {r : Except Error α}
    (h : act s = ofResult r s) : act.final s = s := by
  rw [final, h]
  cases r <;> rfl

theorem eq_ok_of_answer {act : Action σ α} {s : σ} {a : α} (h : act.answer s = .ok a) :
    act s = .ok a (act.final s) := by
  rw [answer] at h
  rw [final]
  cases hact : act s with
  | ok b s' =>
    rw [hact] at h
    cases h
    rfl
  | error e s' =>
    rw [hact] at h
    cases h

theorem ofResult_eq_ok {r : Except Error α} {s s' : σ} {a : α} :
    (ofResult r : Action σ α) s = .ok a s' ↔ r = .ok a ∧ s' = s := by
  cases r with
  | error e => exact iff_of_false (fun h => nomatch h) fun h => nomatch h.1
  | ok b =>
    show EStateM.Result.ok b s = .ok a s' ↔ _
    simp [eq_comm]

/-- An action that only reads is known by its answers. -/
theorem Reads.apply {act : Action σ α} (h : act.Reads) (s : σ) :
    act s = ofResult (act.answer s) s := by
  obtain ⟨r, hr⟩ := h s
  rw [answer_of_eq hr, hr]

theorem Reads.final_eq {act : Action σ α} (h : act.Reads) (s : σ) : act.final s = s := by
  obtain ⟨r, hr⟩ := h s
  exact final_of_eq hr

end Action

namespace Accumulator

/-- What is loaded has the name it was loaded by. -/
theorem of_load {name : String} {store store' : Store} {a : Accumulator}
    (h : load name store = .ok a store') : store' = store ∧ a.name = name ∧ Key.IsName name := by
  simp only [load, checkName, Store.read, Action.bind_apply] at h
  by_cases hname : Key.IsName name
  · simp only [if_pos hname, Action.pure_apply, Action.get_apply] at h
    cases hlookup : store.lookup (Key.accumulator name) with
    | error e =>
      rw [hlookup] at h
      cases h
    | ok found =>
      rw [hlookup] at h
      cases found with
      | none => cases h
      | some bytes =>
        simp only [Action.ofStore, Action.pure_apply] at h
        cases hdecode : Totals.decode? bytes with
        | none =>
          rw [hdecode] at h
          cases h
        | some totals =>
          rw [hdecode] at h
          cases h
          exact ⟨rfl, rfl, hname⟩
  · simp only [if_neg hname, Action.throw_apply] at h
    cases h

theorem exists?_apply {store : Store} (hr : store.Readable) (name : String) :
    exists? name store =
      if Key.IsName name then .ok (store.records.find? (Key.accumulator name)).isSome store
      else .error (.invalidName name) store := by
  simp only [exists?, checkName, Store.holds, Action.bind_apply]
  by_cases hname : Key.IsName name
  · simp only [if_pos hname, Action.pure_apply, Action.get_apply]
    rw [Store.contains_of_readable hr]
    rfl
  · simp only [if_neg hname, Action.throw_apply]

/-- What is loaded from records. -/
def loaded (r : Records) (name : String) : Except Error Accumulator :=
  if Key.IsName name then
    match r.find? (Key.accumulator name) with
    | none => .error (.accumulatorNotFound name)
    | some bytes =>
      match Totals.decode? bytes with
      | none => .error (.store .undecodable)
      | some totals => .ok { toTotals := totals, name }
  else .error (.invalidName name)

theorem load_apply {store : Store} (hr : store.Readable) (name : String) :
    load name store = Action.ofResult (loaded store.records name) store := by
  simp only [load, loaded, checkName, Store.read, Action.bind_apply]
  by_cases hname : Key.IsName name
  · simp only [if_pos hname, Action.pure_apply, Action.get_apply]
    rw [Store.lookup_of_readable hr]
    simp only [Action.ofStore, Action.pure_apply]
    cases store.records.find? (Key.accumulator name) with
    | none => rfl
    | some bytes =>
      dsimp only
      cases Totals.decode? bytes <;> rfl
  · simp only [if_neg hname, Action.throw_apply]
    rfl

end Accumulator

namespace Ledger

open Accrual.Action

variable {l : Ledger} {α β : Type} {index : String}

theorem answer_of_carryOut {act : Action Ledger α} {r : Except Error (α × Change)}
    (h : act l = carryOut l index r) : act.answer l = r.map Prod.fst := by
  rw [Action.answer, h]
  cases r <;> rfl

/-- The ledger that a plan leaves when it is carried out. -/
def leftBy (l : Ledger) (index : String) : Except Error (α × Change) → Ledger
  | .ok (_, c) => l.commit index c
  | .error _ => l

theorem final_of_carryOut {act : Action Ledger α} {r : Except Error (α × Change)}
    (h : act l = carryOut l index r) : act.final l = l.leftBy index r := by
  rw [final, h]
  cases r <;> rfl

/-- What is done by name is done with a loaded copy. -/
theorem byName_of_load {name : String} {a : Accumulator} {store : Store}
    (h : Accumulator.load name store = .ok a store) (act : Action Ledger α) :
    (byName name act).answer store = act.answer ⟨a, store⟩ ∧
      (byName name act).final store = (act.final ⟨a, store⟩).store := by
  simp only [Action.answer, Action.final, byName, h]
  cases act ⟨a, store⟩ <;> exact ⟨rfl, rfl⟩

/-- Nothing is done by name where nothing can be loaded. -/
theorem byName_of_not_load {name : String} {e : Error} {store : Store}
    (h : Accumulator.load name store = .error e store) (act : Action Ledger α) :
    byName name act store = .error e store := by
  simp only [byName, h]

/-! ### Stores that take writes -/

/-- The answer to a question, from the accumulator and its records. -/
def reading (l : Ledger) : Query → Except Error Reading
  | .totals => .ok (.totals l.accumulator.toTotals)
  | .position index => (l.accumulator.held index (l.slot index)).map .position
  | .hasPosition index => .ok (.present (l.slot index).isSome)
  | .shares index => (l.accumulator.held index (l.slot index)).map fun p => .shares p.shares
  | .owed p => (l.accumulator.owed p).map .owed
  | .positions =>
    ((l.store.records.entries.filter fun e =>
      (Key.positions l.accumulator.name).isPrefixOf e.1).mapM
        (positionOfRecord l.accumulator.name)).map .positions

/-- What a use answers and writes. -/
def resolve (l : Ledger) : Use → Except Error (Answer × Change)
  | .step step =>
    (l.accumulator.plan (l.slot step.index) step).map fun r => (.outcome r.1, r.2)
  | .query query => (l.reading query).map fun r => (.reading r, {})

/-- An answer that is given another form at the end. -/
theorem ofResult_map {x : Action Ledger α} {r : Except Error α} (h : x l = ofResult r l)
    (g : α → β) : (do return g (← x)) l = ofResult (r.map g) l := by
  rw [Action.bind_apply, h]
  cases r <;> rfl

theorem positions_apply (hr : l.store.Readable) :
    positions l = ofResult ((l.store.records.entries.filter fun e =>
      (Key.positions l.accumulator.name).isPrefixOf e.1).mapM
        (positionOfRecord l.accumulator.name)) l := by
  simp only [positions, Action.bind_apply, Action.get_apply, Action.onStore, Store.list]
  rw [Store.scan_of_readable hr]
  rfl

theorem consult_apply (hw : l.store.Writable) (query : Query) :
    consult query l = ofResult (l.reading query) l := by
  cases query with
  | totals => rfl
  | position index => exact ofResult_map (position_apply hw.readable index) Reading.position
  | hasPosition index =>
    exact ofResult_map (r := .ok _) (hasPosition_apply hw index) Reading.present
  | shares index =>
    exact ofResult_map (position_apply hw.readable index) fun p => Reading.shares p.shares
  | owed p => exact ofResult_map (r := l.accumulator.owed p) rfl Reading.owed
  | positions => exact ofResult_map (positions_apply hw.readable) Reading.positions

/-- On a store that takes writes, a use is decided, and then its change is committed. -/
theorem use_eq_resolve (hw : l.store.Writable) (u : Use) :
    use u l = carryOut l u.index (l.resolve u) := by
  cases u with
  | step step => exact carryOut_map (perform_eq_plan hw step) Answer.outcome
  | query query =>
    rw [use, ofResult_map (consult_apply hw query), resolve]
    cases l.reading query with
    | error e => rfl
    | ok r =>
      rw [Except.map, Except.map, carryOut, commit_nothing hw]
      rfl

/-- Decisions are made from the accumulator in hand and the records of its positions. -/
theorem resolve_congr {a : Accumulator} {store store' : Store}
    (h : ∀ key, (Key.positions a.name).isPrefixOf key = true →
      store'.records.find? key = store.records.find? key) (u : Use) :
    (mk a store').resolve u = (mk a store).resolve u := by
  have hslot (index : String) : (mk a store').slot index = (mk a store).slot index := by
    rw [slot, slot, h _ (Key.isPrefixOf_position a.name index)]
  have hlisted := OrderedMap.filter_eq_of_find? (fun k => (Key.positions a.name).isPrefixOf k)
    store'.records.ascending store.records.ascending h
  cases u with
  | step step => rw [resolve, resolve, hslot]
  | query query =>
    rw [resolve, resolve]
    cases query with
    | totals | owed => rfl
    | position index | hasPosition index | shares index => simp only [reading, hslot]
    | positions =>
      simp only [reading]
      rw [hlisted]

/-- A use that addresses no position with an operation writes none. -/
theorem position_eq_none_of_resolve {u : Use} (hu : u.index? = none) {answer : Answer} {c : Change}
    (h : l.resolve u = .ok (answer, c)) : c.position = none := by
  cases u with
  | query query =>
    obtain ⟨r, -, heq⟩ := Accumulator.map_eq_ok.mp h
    cases heq
    rfl
  | step step =>
    obtain ⟨⟨outcome, c'⟩, hplan, heq⟩ := Accumulator.map_eq_ok.mp h
    cases heq
    have hplanned := Accumulator.planned_of_plan hplan
    generalize l.slot step.index = slot at hplanned
    cases hplanned with
    | injectNothing | inject | credit | adjustShares => rfl
    | opened hopen => rcases hopen with ⟨rfl, -⟩ | rfl <;> cases hu
    | resized hresize => rcases hresize with ⟨rfl, -⟩ | ⟨rfl, -⟩ <;> cases hu
    | _ => cases hu

theorem index_of_index? {u : Use} (h : u.index? = some index) : u.index = index := by
  rcases u with step | query
  · cases step <;> cases h <;> rfl
  · cases h

/-- What is stored at a key after a use: only the record of the totals and that of the position it
addresses can change. -/
theorem find?_use (hw : l.store.Writable) (u : Use) {key : Bytes}
    (hkey : key ≠ Key.accumulator l.accumulator.name)
    (hindex : ∀ index ∈ u.index?, key ≠ Key.position l.accumulator.name index) :
    ((use u).final l).store.records.find? key = l.store.records.find? key := by
  rw [final_of_carryOut (use_eq_resolve hw u)]
  cases hresolve : l.resolve u with
  | error e => rfl
  | ok r =>
    obtain ⟨answer, c⟩ := r
    show (l.commit u.index c).store.records.find? key = _
    rw [find?_commit, if_neg hkey]
    cases hu : u.index? with
    | none => rw [position_eq_none_of_resolve hu hresolve, Option.elim_none, ite_self]
    | some index =>
      rw [index_of_index? hu, if_neg (hindex index hu)]

/-! ### Other stores -/

theorem reads_consult (query : Query) : (consult query).Reads := by
  cases query with
  | totals => exact reads_get.bind fun _ => reads_pure _
  | position index => exact (reads_position index).bind fun _ => reads_pure _
  | hasPosition index =>
    exact (reads_get.bind fun _ => (Store.reads_holds _).onStore).bind fun _ => reads_pure _
  | shares index => exact (reads_position index).bind fun _ => reads_pure _
  | owed p => exact (reads_get.bind fun _ => reads_ofResult _).bind fun _ => reads_pure _
  | positions =>
    exact (reads_get.bind fun _ => (Store.reads_list _).onStore.bind fun _ =>
      reads_ofResult _).bind fun _ => reads_pure _

/-- On a store that takes no writes, nothing changes the store or the accumulator in hand. -/
theorem idle_use (u : Use) : Idle (use u) := by
  cases u with
  | step step => exact (idle_perform step).map _
  | query query => exact Idle.map (idle_of_reads (reads_consult query)) _

theorem name_use (l : Ledger) (u : Use) :
    ((use u).final l).accumulator.name = l.accumulator.name := by
  by_cases hw : l.store.Writable
  · rw [final_of_carryOut (use_eq_resolve hw u)]
    cases l.resolve u <;> rfl
  · obtain ⟨r, hr⟩ := idle_use u l hw
    rw [final_of_eq hr]

end Ledger

end Accrual
