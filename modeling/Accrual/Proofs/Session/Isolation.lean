/-
Several accumulators on one store, each used on its own.

* `Key.Belongs` — the keys of the records of one accumulator;
* `Store.SameAt P` — two stores with the same records at the keys in `P`, and writable both, or
  one and the same store;
* `Action.Local`, `Action.Leaves` — an action on a store that reads only at certain keys, and one
  that changes nothing at certain keys;
* `Session.Request`, `Session.respond` — a public operation on one accumulator, through a copy in
  hand or by name, with its response;
* `changes_respond` — a request changes no record but that of the totals of its accumulator and
  that of the position it addresses, and nothing that is in hand of other accumulators;
* `Session.Agrees` — two sessions that one accumulator cannot tell apart;
* `Agrees.respond`, `Agrees.respond_other` — so they stay when both serve a request on it, and when
  one serves a request on another accumulator;
* `accumulators_do_not_interfere` — in any run, the requests on one accumulator are answered and
  leave everything as if they had been made alone.

Design notes.  Any number of accumulators may take part; nothing is assumed of the records of the
store, which need not be readable.  A store that takes no writes never changes, so there two
sessions agree by having the same store: such a store may also refuse to be read, and this depends
on more than its records.
-/
import Accrual.Proofs.Ledger.Handle
import Accrual.Proofs.Session.Run

namespace Accrual

/-! ### Records of one accumulator -/

namespace Key

variable {name other : String} {key : Bytes}

/-- A key of the records of an accumulator: that of its totals, or one of its positions. -/
def Belongs (name : String) (key : Bytes) : Prop :=
  key = accumulator name ∨ (positions name).isPrefixOf key = true

theorem belongs_accumulator (name : String) : Belongs name (accumulator name) := .inl rfl

/-- No record of one accumulator is a record of another. -/
theorem Belongs.ne (h : Belongs name key) (hname : IsName name) (hother : IsName other)
    (hne : other ≠ name) : key ≠ accumulator other ∧ ∀ index, key ≠ position other index := by
  constructor
  · rintro rfl
    rcases h with h | h
    · exact hne (accumulator_injective h)
    · rw [not_isPrefixOf_accumulator] at h
      cases h
  · rintro index rfl
    rcases h with h | h
    · exact position_ne_accumulator other index name h
    · exact hne (eq_of_isPrefixOf_position hname hother h).symm

end Key

namespace Store

variable {P Q : Bytes → Prop} {s s' s'' : Store}

/-- The stores take writes and have the same records at certain keys, or they are the same. -/
inductive SameAt (P : Bytes → Prop) (s : Store) : Store → Prop
  | refl : SameAt P s s
  | of_find? {s' : Store} (hw : s.Writable) (hw' : s'.Writable)
    (h : ∀ key, P key → s'.records.find? key = s.records.find? key) : SameAt P s s'

theorem SameAt.find? (h : s.SameAt P s') {key : Bytes} (hkey : P key) :
    s'.records.find? key = s.records.find? key := by
  cases h with
  | refl => rfl
  | of_find? hw hw' h => exact h key hkey

theorem SameAt.symm (h : s.SameAt P s') : s'.SameAt P s := by
  cases h with
  | refl => exact .refl
  | of_find? hw hw' h => exact .of_find? hw' hw fun key hkey => (h key hkey).symm

theorem SameAt.trans (h : s.SameAt P s') (h' : s'.SameAt P s'') : s.SameAt P s'' := by
  cases h with
  | refl => exact h'
  | of_find? hw hw' h =>
    cases h' with
    | refl => exact .of_find? hw hw' h
    | of_find? _ hw'' h' =>
      exact .of_find? hw hw'' fun key hkey => (h' key hkey).trans (h key hkey)

theorem SameAt.mono (h : s.SameAt P s') (hP : ∀ key, Q key → P key) : s.SameAt Q s' := by
  cases h with
  | refl => exact .refl
  | of_find? hw hw' h => exact .of_find? hw hw' fun key hkey => h key (hP key hkey)

end Store

/-! ### What an action reads and writes -/

namespace Action

variable {α : Type} {P Q : Bytes → Prop}

/-- On stores with the same records at certain keys the action answers the same, and it leaves the
same records there. -/
def Local (P : Bytes → Prop) (act : Action Store α) : Prop :=
  ∀ s s' : Store, s.SameAt P s' →
    act.answer s = act.answer s' ∧ (act.final s).SameAt P (act.final s')

/-- The action changes no records at certain keys. -/
def Leaves (Q : Bytes → Prop) (act : Action Store α) : Prop :=
  ∀ s : Store, s.SameAt Q (act.final s)

/-- It is enough to compare stores that take writes. -/
theorem local_of_writable {act : Action Store α}
    (h : ∀ s s' : Store, s.Writable → s'.Writable →
      (∀ key, P key → s'.records.find? key = s.records.find? key) →
      act.answer s = act.answer s' ∧ (act.final s).SameAt P (act.final s')) : act.Local P := by
  intro s s' hsame
  cases hsame with
  | refl => exact ⟨rfl, .refl⟩
  | of_find? hw hw' hfind => exact h s s' hw hw' hfind

/-- An action that only reads leaves everything. -/
theorem Reads.leaves {act : Action Store α} (h : act.Reads) (Q : Bytes → Prop) : act.Leaves Q := by
  intro s
  rw [h.final_eq s]
  exact .refl

theorem Reads.local {act : Action Store α} (h : act.Reads)
    (hanswer : ∀ s s' : Store, s.Writable → s'.Writable →
      (∀ key, P key → s'.records.find? key = s.records.find? key) →
      act.answer s = act.answer s') : act.Local P := by
  refine local_of_writable fun s s' hw hw' hfind => ⟨hanswer s s' hw hw' hfind, ?_⟩
  exact (h.leaves P s).symm.trans ((Store.SameAt.of_find? hw hw' hfind).trans (h.leaves P s'))

end Action

open Accrual.Action

namespace Accumulator

variable {name : String}

theorem local_exists? (name : String) : (exists? name).Local (Key.Belongs name) := by
  refine (reads_exists? name).local fun s s' hw hw' hfind => ?_
  rw [answer, answer, exists?_apply hw.readable, exists?_apply hw'.readable,
    hfind _ (Key.belongs_accumulator name)]
  by_cases hname : Key.IsName name
  · rw [if_pos hname, if_pos hname]
  · rw [if_neg hname, if_neg hname]

theorem local_load (name : String) : (load name).Local (Key.Belongs name) := by
  refine (reads_load name).local fun s s' hw hw' hfind => ?_
  have heq : loaded s'.records name = loaded s.records name := by
    rw [loaded, loaded, hfind _ (Key.belongs_accumulator name)]
  rw [answer_of_eq (load_apply hw.readable name),
    answer_of_eq (load_apply hw'.readable name), heq]

/-- Creating, on a store that takes writes. -/
theorem create_apply {s : Store} (hw : s.Writable) (name : String) :
    create name s =
      if Key.IsName name then
        if (s.records.find? (Key.accumulator name)).isSome then
          .error (.accumulatorExists name) s
        else .ok { toTotals := .zero, name }
          (s.withRecords (s.records.insert (Key.accumulator name) Totals.zero.encode))
      else .error (.invalidName name) s := by
  rw [create, Action.bind_apply, exists?_apply hw.readable]
  by_cases hname : Key.IsName name
  · rw [if_pos hname, if_pos hname]
    cases (s.records.find? (Key.accumulator name)).isSome with
    | true => rfl
    | false =>
      simp only [Bool.false_eq_true, if_false, Store.write, Action.bind_apply, Action.get_apply]
      rw [Store.insert_of_writable hw]
      rfl
  · rw [if_neg hname, if_neg hname]

theorem name_of_answer_create {s : Store} {a : Accumulator}
    (h : (create name).answer s = .ok a) : a.name = name := by
  rw [answer] at h
  cases hcreate : create name s with
  | error e s' =>
    rw [hcreate] at h
    cases h
  | ok b s' =>
    rw [hcreate] at h
    cases h
    rw [(Ledger.create_eq_ok hcreate).2.2.1]

theorem name_of_answer_load {s : Store} {a : Accumulator} (h : (load name).answer s = .ok a) :
    a.name = name := by
  have hload := (reads_load name).apply s
  rw [h] at hload
  exact (of_load hload).2.1

theorem leaves_create (name : String) : (create name).Leaves (· ≠ Key.accumulator name) := by
  intro s
  cases hcreate : create name s with
  | error e s' =>
    obtain rfl := create_failsCleanly name s e s' hcreate
    rw [final, hcreate]
    exact .refl
  | ok a s' =>
    rw [final, hcreate]
    obtain ⟨-, -, -, hinsert⟩ := Ledger.create_eq_ok hcreate
    have hw := Store.writable_of_insert hinsert
    rw [Store.insert_of_writable hw, Except.ok.injEq] at hinsert
    subst hinsert
    refine .of_find? hw (Store.writable_withRecords hw _) fun key hkey => ?_
    rw [Store.records_withRecords, Records.find?_insert, if_neg (Ne.symm hkey)]

theorem local_create (name : String) : (create name).Local (Key.Belongs name) := by
  refine local_of_writable fun s s' hw hw' hfind => ?_
  have heq := hfind _ (Key.belongs_accumulator name)
  simp only [answer, final, create_apply hw, create_apply hw', heq]
  by_cases hname : Key.IsName name
  · by_cases htaken : (s.records.find? (Key.accumulator name)).isSome = true
    · simp only [if_pos hname, if_pos htaken, true_and]
      exact .of_find? hw hw' hfind
    · simp only [if_pos hname, if_neg htaken, true_and]
      refine .of_find? (Store.writable_withRecords hw _) (Store.writable_withRecords hw' _)
        fun key hkey => ?_
      rw [Store.records_withRecords, Store.records_withRecords, Records.find?_insert,
        Records.find?_insert, hfind key hkey]
  · simp only [if_neg hname, true_and]
    exact .of_find? hw hw' hfind

end Accumulator

namespace Ledger

variable {a : Accumulator} {s s' : Store}

/-- The records a use leaves as they are. -/
def Spared (name : String) (index? : Option String) (key : Bytes) : Prop :=
  key ≠ Key.accumulator name ∧ ∀ index ∈ index?, key ≠ Key.position name index

theorem sameAt_use (a : Accumulator) (s : Store) (u : Use) :
    s.SameAt (Spared a.name u.index?) ((use u).final ⟨a, s⟩).store := by
  by_cases hw : s.Writable
  · have hfinal := final_of_carryOut (use_eq_resolve (l := ⟨a, s⟩) hw u)
    refine .of_find? hw ?_ fun key hkey => find?_use (l := ⟨a, s⟩) hw u hkey.1 hkey.2
    rw [hfinal]
    cases (mk a s).resolve u with
    | error e => exact hw
    | ok r => exact writable_commit (l := ⟨a, s⟩) hw u.index r.2
  · obtain ⟨r, hr⟩ := idle_use u ⟨a, s⟩ hw
    rw [final_of_eq hr]
    exact .refl

/-- A use on stores with the same records of the accumulator in hand. -/
theorem use_sameAt (h : s.SameAt (Key.Belongs a.name) s') (u : Use) :
    (use u).answer ⟨a, s⟩ = (use u).answer ⟨a, s'⟩ ∧
      ((use u).final ⟨a, s⟩).accumulator = ((use u).final ⟨a, s'⟩).accumulator ∧
      ((use u).final ⟨a, s⟩).store.SameAt (Key.Belongs a.name) ((use u).final ⟨a, s'⟩).store := by
  cases h with
  | refl => exact ⟨rfl, rfl, .refl⟩
  | of_find? hw hw' hfind =>
    have happly := use_eq_resolve (l := ⟨a, s⟩) hw u
    have happly' := use_eq_resolve (l := ⟨a, s'⟩) hw' u
    have hresolve : (mk a s').resolve u = (mk a s).resolve u :=
      resolve_congr (fun key hkey => hfind key (.inr hkey)) u
    rw [answer_of_carryOut happly, answer_of_carryOut happly', final_of_carryOut happly,
      final_of_carryOut happly', hresolve]
    cases (mk a s).resolve u with
    | error e => exact ⟨rfl, rfl, .of_find? hw hw' hfind⟩
    | ok r =>
      refine ⟨rfl, rfl, .of_find? (writable_commit (l := ⟨a, s⟩) hw u.index r.2)
        (writable_commit (l := ⟨a, s'⟩) hw' u.index r.2) fun key hkey => ?_⟩
      show ((mk a s').commit u.index r.2).store.records.find? key
        = ((mk a s).commit u.index r.2).store.records.find? key
      rw [find?_commit, find?_commit, hfind key hkey]

theorem local_byName (name : String) (u : Use) :
    (byName name (use u)).Local (Key.Belongs name) := by
  intro s s' hsame
  have hload := (Accumulator.reads_load name).apply s
  have hload' := (Accumulator.reads_load name).apply s'
  rw [← (Accumulator.local_load name s s' hsame).1] at hload'
  cases ha : (Accumulator.load name).answer s with
  | error e =>
    rw [ha] at hload hload'
    rw [answer_of_eq (r := .error e) (byName_of_not_load hload _),
      answer_of_eq (r := .error e) (byName_of_not_load hload' _),
      final_of_eq (r := .error e) (byName_of_not_load hload _),
      final_of_eq (r := .error e) (byName_of_not_load hload' _)]
    exact ⟨rfl, hsame⟩
  | ok a =>
    rw [ha] at hload hload'
    obtain ⟨-, rfl, -⟩ := Accumulator.of_load hload
    obtain ⟨hanswer, hfinal⟩ := byName_of_load hload (use u)
    obtain ⟨hanswer', hfinal'⟩ := byName_of_load hload' (use u)
    obtain ⟨hsameAnswer, -, hsameStore⟩ := use_sameAt hsame u
    rw [hanswer, hanswer', hfinal, hfinal']
    exact ⟨hsameAnswer, hsameStore⟩

theorem leaves_byName (name : String) (u : Use) :
    (byName name (use u)).Leaves (Spared name u.index?) := by
  intro s
  have hload := (Accumulator.reads_load name).apply s
  cases ha : (Accumulator.load name).answer s with
  | error e =>
    rw [ha] at hload
    rw [final_of_eq (r := .error e) (byName_of_not_load hload _)]
    exact .refl
  | ok a =>
    rw [ha] at hload
    obtain ⟨-, rfl, -⟩ := Accumulator.of_load hload
    rw [(byName_of_load hload (use u)).2]
    exact sameAt_use a s u

end Ledger

/-! ### Requests -/

/-- An answer in another form. -/
def Verdict.map {α β : Type} (f : α → β) : Verdict α → Verdict β
  | .ok a => .ok (f a)
  | .failed e => .failed e
  | .noHandle => .noHandle
  | .noStore => .noStore

/-- The verdict of an action that was carried out. -/
def Verdict.ofResult {α : Type} : Except Error α → Verdict α
  | .ok a => .ok a
  | .error e => .failed e

namespace Session

/-- A public operation on one accumulator. -/
inductive Operation where
  | exists?
  /-- Create the accumulator and keep it in hand under a label. -/
  | create (label : String)
  | load (label : String)
  /-- Create the accumulator and keep nothing in hand. -/
  | createOnly
  /-- An operation or a question through the copy in hand with a label. -/
  | act (label : String) (u : Use)
  /-- An operation or a question through a freshly loaded copy, which is not kept. -/
  | actByName (u : Use)

/-- A public operation on the accumulator of a name. -/
structure Request where
  name : String
  operation : Operation

/-- What a request can answer. -/
inductive Response where
  | present (b : Bool)
  | done
  | answer (a : Answer)
deriving DecidableEq

/-- The label a request uses. -/
def Operation.label? : Operation → Option String
  | .create label | .load label | .act label _ => some label
  | .exists? | .createOnly | .actByName _ => none

/-- The position whose record a request can change. -/
def Operation.index? : Operation → Option String
  | .act _ u | .actByName u => u.index?
  | .exists? | .create _ | .load _ | .createOnly => none

/-- The request is on an accumulator that can exist, and uses a label of that accumulator. -/
def Request.Owned (owner : String → String) (r : Request) : Prop :=
  Key.IsName r.name ∧ ∀ label ∈ r.operation.label?, owner label = r.name

/-- What became of an action, as a response. -/
def reply {α : Type} (f : α → Response) (result : Verdict α × Session) :
    Verdict Response × Session :=
  (result.1.map f, result.2)

/-- Carry out a request, with its response. -/
def respond (s : Session) (r : Request) : Verdict Response × Session :=
  match r.operation with
  | .exists? => reply .present (s.onStore (Accumulator.exists? r.name))
  | .create label => reply (fun _ => .done) (s.hold label (Accumulator.create r.name))
  | .load label => reply (fun _ => .done) (s.hold label (Accumulator.load r.name))
  | .createOnly => reply (fun _ => .done) (s.onStore (Accumulator.create r.name))
  | .act label u => reply .answer (s.onLedger label (Ledger.use u))
  | .actByName u => reply .answer (s.onStore (Ledger.byName r.name (Ledger.use u)))

/-- The requests of a run with their responses. -/
def responses (s : Session) : List Request → List (Request × Verdict Response)
  | [] => []
  | r :: run => (r, (s.respond r).1) :: (s.respond r).2.responses run

/-- The session after a run of requests. -/
def served (s : Session) (run : List Request) : Session :=
  run.foldl (fun s r => (s.respond r).2) s

variable {s s' : Session} {store store' : Store} {label : String} {α : Type}

theorem onStore_eq (h : s.store = some store) (act : Action Store α) :
    s.onStore act = (.ofResult (act.answer store), { s with store := some (act.final store) }) := by
  simp only [onStore, h, answer, final]
  cases act store <;> rfl

/-- What an action that brings an accumulator into hand leaves in hand. -/
def keep (s : Session) (label : String) : Except Error Accumulator → Session
  | .ok a => s.give label a
  | .error _ => s

theorem hold_eq_keep (h : s.store = some store) (label : String) (act : Action Store Accumulator) :
    s.hold label act = ((Verdict.ofResult (act.answer store)).map fun _ => (),
      { s.keep label (act.answer store) with store := some (act.final store) }) := by
  simp only [hold, onStore, h, answer, final]
  cases act store <;> rfl

theorem onLedger_of_held (h : s.store = some store) {a : Accumulator}
    (ha : s.held? label = some a) (act : Action Ledger α) :
    s.onLedger label act = (.ofResult (act.answer ⟨a, store⟩),
      { s.give label (act.final ⟨a, store⟩).accumulator with
        store := some (act.final ⟨a, store⟩).store }) := by
  simp only [onLedger, h, ha, answer, final]
  cases act ⟨a, store⟩ <;> rfl

/-! ### What a request changes -/

/-- Every accumulator in hand is that to which its label belongs. -/
def Labelled (owner : String → String) (s : Session) : Prop :=
  ∀ label a, s.held? label = some a → a.name = owner label

variable {owner : String → String} {name : String} {r : Request} {run : List Request}

theorem Labelled.give (h : s.Labelled owner) {a : Accumulator} (ha : a.name = owner label) :
    (s.give label a).Labelled owner := by
  intro label' b hb
  rw [held?_give] at hb
  split at hb
  · next heq =>
    cases hb
    rw [heq, ha]
  · exact h label' b hb

theorem held?_keep_of_ne {label' : String} (h : label' ≠ label) (s : Session)
    (kept : Except Error Accumulator) : (s.keep label kept).held? label' = s.held? label' := by
  cases kept with
  | error e => rfl
  | ok a => rw [keep, held?_give, if_neg h]

theorem held?_keep_congr {label' : String} (h : s'.held? label' = s.held? label')
    (kept : Except Error Accumulator) :
    (s'.keep label kept).held? label' = (s.keep label kept).held? label' := by
  cases kept with
  | error e => exact h
  | ok a => rw [keep, keep, held?_give, held?_give, h]

/-- What an operation on one accumulator leaves as it is in a session. -/
structure Changes (owner : String → String) (name : String) (index? : Option String)
    (s s' : Session) : Prop where
  stored : ∀ store, s.store = some store → ∃ store', s'.store = some store' ∧
    store.SameAt (Ledger.Spared name index?) store'
  labelled : s.Labelled owner → s'.Labelled owner
  others : ∀ label, owner label ≠ name → s'.held? label = s.held? label

variable {index? : Option String}

theorem changes_onStore (h : s.store = some store) {act : Action Store α}
    (hact : act.Leaves (Ledger.Spared name index?)) :
    Changes owner name index? s (s.onStore act).2 := by
  rw [onStore_eq h]
  refine ⟨fun store' h' => ⟨_, rfl, ?_⟩, id, fun _ _ => rfl⟩
  obtain rfl : store = store' := Option.some.inj (h.symm.trans h')
  exact hact store

theorem changes_hold (h : s.store = some store) {act : Action Store Accumulator}
    (hact : act.Leaves (Ledger.Spared name index?)) (hlabel : owner label = name)
    (hname : ∀ store a, act.answer store = .ok a → a.name = name) :
    Changes owner name index? s (s.hold label act).2 := by
  rw [hold_eq_keep h]
  refine ⟨fun store' h' => ⟨_, rfl, ?_⟩, fun hlabelled => ?_, fun label' hne => ?_⟩
  · obtain rfl : store = store' := Option.some.inj (h.symm.trans h')
    exact hact store
  · cases hanswer : act.answer store with
    | error e => exact hlabelled
    | ok a => exact hlabelled.give ((hname store a hanswer).trans hlabel.symm)
  · have hlabel' : label' ≠ label := by
      rintro rfl
      exact hne hlabel
    exact held?_keep_of_ne hlabel' s _

theorem changes_onLedger (h : s.store = some store) (hlabelled : s.Labelled owner)
    (hlabel : owner label = name) (u : Use) :
    Changes owner name u.index? s (s.onLedger label (Ledger.use u)).2 := by
  cases ha : s.held? label with
  | none =>
    rw [onLedger_of_not_held h ha]
    exact ⟨fun store' h' => ⟨store', h', .refl⟩, id, fun _ _ => rfl⟩
  | some a =>
    have hname := hlabelled label a ha
    rw [onLedger_of_held h ha]
    refine ⟨fun store' h' => ⟨_, rfl, ?_⟩, fun _ => ?_, fun label' hne => ?_⟩
    · obtain rfl : store = store' := Option.some.inj (h.symm.trans h')
      rw [← hlabel, ← hname]
      exact Ledger.sameAt_use a store u
    · exact hlabelled.give ((Ledger.name_use ⟨a, store⟩ u).trans hname)
    · have hlabel' : label' ≠ label := by
        rintro rfl
        exact hne hlabel
      exact (held?_give ..).trans (if_neg hlabel')

theorem changes_respond (h : s.store = some store) (hlabelled : s.Labelled owner)
    (hr : ∀ label ∈ r.operation.label?, owner label = r.name) :
    Changes owner r.name r.operation.index? s (s.respond r).2 := by
  obtain ⟨name, operation⟩ := r
  have hcreate : (Accumulator.create name).Leaves (Ledger.Spared name none) := fun store =>
    (Accumulator.leaves_create name store).mono fun _ hkey => hkey.1
  cases operation with
  | exists? => exact changes_onStore h ((Accumulator.reads_exists? name).leaves _)
  | create label =>
    exact changes_hold h hcreate (hr label rfl) fun _ _ => Accumulator.name_of_answer_create
  | load label =>
    exact changes_hold h ((Accumulator.reads_load name).leaves _) (hr label rfl)
      fun _ _ => Accumulator.name_of_answer_load
  | createOnly => exact changes_onStore h hcreate
  | act label u => exact changes_onLedger h hlabelled (hr label rfl) u
  | actByName u => exact changes_onStore h (Ledger.leaves_byName name u)

/-! ### Sessions that one accumulator cannot tell apart -/

/-- The records of the accumulator are the same, and so is what is in hand of it. -/
structure Agrees (owner : String → String) (name : String) (s s' : Session) : Prop where
  stored : ∃ store store', s.store = some store ∧ s'.store = some store' ∧
    store.SameAt (Key.Belongs name) store'
  held : ∀ label, owner label = name → s'.held? label = s.held? label

theorem Agrees.onStore (h : s.Agrees owner name s') {act : Action Store α}
    (hact : act.Local (Key.Belongs name)) :
    (s.onStore act).1 = (s'.onStore act).1 ∧
      (s.onStore act).2.Agrees owner name (s'.onStore act).2 := by
  obtain ⟨store, store', hstore, hstore', hsame⟩ := h.stored
  obtain ⟨hanswer, hfinal⟩ := hact store store' hsame
  rw [onStore_eq hstore, onStore_eq hstore', hanswer]
  exact ⟨rfl, ⟨_, _, rfl, rfl, hfinal⟩, h.held⟩

theorem Agrees.hold (h : s.Agrees owner name s') (label : String)
    {act : Action Store Accumulator} (hact : act.Local (Key.Belongs name)) :
    (s.hold label act).1 = (s'.hold label act).1 ∧
      (s.hold label act).2.Agrees owner name (s'.hold label act).2 := by
  obtain ⟨store, store', hstore, hstore', hsame⟩ := h.stored
  obtain ⟨hanswer, hfinal⟩ := hact store store' hsame
  rw [hold_eq_keep hstore, hold_eq_keep hstore', hanswer]
  exact ⟨rfl, ⟨_, _, rfl, rfl, hfinal⟩,
    fun label' hlabel' => held?_keep_congr (h.held label' hlabel') _⟩

theorem Agrees.onLedger (h : s.Agrees owner name s') (hlabelled : s.Labelled owner)
    (hlabel : owner label = name) (u : Use) :
    (s.onLedger label (Ledger.use u)).1 = (s'.onLedger label (Ledger.use u)).1 ∧
      (s.onLedger label (Ledger.use u)).2.Agrees owner name
        (s'.onLedger label (Ledger.use u)).2 := by
  obtain ⟨store, store', hstore, hstore', hsame⟩ := h.stored
  have hheld := h.held label hlabel
  cases ha : s.held? label with
  | none =>
    rw [ha] at hheld
    simp only [Session.onLedger, hstore, hstore', ha, hheld, true_and]
    exact h
  | some a =>
    rw [ha] at hheld
    obtain rfl : a.name = name := (hlabelled label a ha).trans hlabel
    obtain ⟨hanswer, haccumulator, hfinal⟩ := Ledger.use_sameAt hsame u
    rw [onLedger_of_held hstore ha, onLedger_of_held hstore' hheld, hanswer, haccumulator]
    exact ⟨rfl, ⟨_, _, rfl, rfl, hfinal⟩, fun label' hlabel' =>
      held?_keep_congr (h.held label' hlabel') (.ok _)⟩

theorem Agrees.reply {result result' : Verdict α × Session} (f : α → Response)
    (h : result.1 = result'.1 ∧ result.2.Agrees owner name result'.2) :
    (Session.reply f result).1 = (Session.reply f result').1 ∧
      (Session.reply f result).2.Agrees owner name (Session.reply f result').2 :=
  ⟨congrArg (Verdict.map f) h.1, h.2⟩

/-- A request on the accumulator is answered alike. -/
theorem Agrees.respond (h : s.Agrees owner r.name s') (hlabelled : s.Labelled owner)
    (hr : ∀ label ∈ r.operation.label?, owner label = r.name) :
    (s.respond r).1 = (s'.respond r).1 ∧
      (s.respond r).2.Agrees owner r.name (s'.respond r).2 := by
  obtain ⟨name, operation⟩ := r
  cases operation with
  | exists? => exact Agrees.reply _ (h.onStore (Accumulator.local_exists? name))
  | create label => exact Agrees.reply _ (h.hold label (Accumulator.local_create name))
  | load label => exact Agrees.reply _ (h.hold label (Accumulator.local_load name))
  | createOnly => exact Agrees.reply _ (h.onStore (Accumulator.local_create name))
  | act label u => exact Agrees.reply _ (h.onLedger hlabelled (hr label rfl) u)
  | actByName u => exact Agrees.reply _ (h.onStore (Ledger.local_byName name u))

/-- A request on another accumulator is not noticed. -/
theorem Agrees.respond_other (h : s.Agrees owner name s') (hlabelled : s.Labelled owner)
    (hname : Key.IsName name) (hother : Key.IsName r.name) (hne : r.name ≠ name)
    (hr : ∀ label ∈ r.operation.label?, owner label = r.name) :
    (s.respond r).2.Agrees owner name s' := by
  obtain ⟨store, store', hstore, hstore', hsame⟩ := h.stored
  have hchanges := changes_respond hstore hlabelled hr
  obtain ⟨store₁, hstore₁, hspared⟩ := hchanges.stored store hstore
  refine ⟨⟨store₁, store', hstore₁, hstore', ?_⟩, fun label hlabel => ?_⟩
  · refine (hspared.mono fun key hkey => ?_).symm.trans hsame
    obtain ⟨haccumulator, hposition⟩ := hkey.ne hname hother hne
    exact ⟨haccumulator, fun index _ => hposition index⟩
  · rw [hchanges.others label fun heq => hne (heq.symm.trans hlabel), h.held label hlabel]

/-! ### Runs -/

/-- The sessions agree after a run and after the requests of this run on the accumulator. -/
theorem Agrees.served (hname : Key.IsName name) (h : s.Agrees owner name s')
    (hlabelled : s.Labelled owner) (hrun : ∀ r ∈ run, r.Owned owner) :
    (s.responses run).filter (·.1.name = name) = s'.responses (run.filter (·.name = name)) ∧
      (s.served run).Agrees owner name (s'.served (run.filter (·.name = name))) := by
  induction run generalizing s s' with
  | nil => exact ⟨rfl, h⟩
  | cons r run ih =>
    obtain ⟨hvalid, hr⟩ := hrun r List.mem_cons_self
    have hrest : ∀ r ∈ run, r.Owned owner := fun r' hr' => hrun r' (List.mem_cons_of_mem r hr')
    obtain ⟨store, store', hstore, -⟩ := h.stored
    have hlabelled' := (changes_respond hstore hlabelled hr).labelled hlabelled
    by_cases hown : r.name = name
    · subst hown
      obtain ⟨hresponse, hnext⟩ := h.respond hlabelled hr
      obtain ⟨hresponses, hserved⟩ := ih hnext hlabelled' hrest
      rw [responses, List.filter_cons_of_pos (by simp), List.filter_cons_of_pos (by simp),
        responses, hresponse, hresponses]
      exact ⟨rfl, hserved⟩
    · have hnext := h.respond_other hlabelled hname hvalid hown hr
      obtain ⟨hresponses, hserved⟩ := ih hnext hlabelled' hrest
      rw [responses, List.filter_cons_of_neg (by simpa using hown),
        List.filter_cons_of_neg (by simpa using hown), hresponses]
      exact ⟨rfl, hserved⟩

theorem changes_served (h : s.store = some store) (hlabelled : s.Labelled owner)
    (hrun : ∀ r ∈ run, r.Owned owner) :
    (∃ store', (s.served run).store = some store') ∧ (s.served run).Labelled owner := by
  induction run generalizing s store with
  | nil => exact ⟨⟨store, h⟩, hlabelled⟩
  | cons r run ih =>
    have hchanges := changes_respond h hlabelled (hrun r List.mem_cons_self).2
    obtain ⟨store', h', -⟩ := hchanges.stored store h
    exact ih h' (hchanges.labelled hlabelled) fun r' hr' => hrun r' (List.mem_cons_of_mem r hr')

theorem Agrees.find?_eq (h : s.Agrees owner name s') {key : Bytes} (hkey : Key.Belongs name key) :
    s'.records.find? key = s.records.find? key := by
  obtain ⟨store, store', hstore, hstore', hsame⟩ := h.stored
  rw [records, records, hstore, hstore']
  exact hsame.find? hkey

/-- Accumulators on one store do not interfere.  In any run of requests, those on one accumulator
are answered as if they had been made alone on the same store.  After every part of the run what is
in hand of the accumulator, the records of its totals and of its positions, and their listing are
the same as well.  And no request changes any record but that of the totals of its accumulator and
that of the position it addresses. -/
theorem accumulators_do_not_interfere (hname : Key.IsName name) (hrun : ∀ r ∈ run, r.Owned owner)
    (store : Store) :
    ((ofStore store).responses run).filter (·.1.name = name)
        = (ofStore store).responses (run.filter (·.name = name)) ∧
    (∀ earlier, earlier <+: run →
      let among := (ofStore store).served earlier
      let alone := (ofStore store).served (earlier.filter (·.name = name))
      (∀ label, owner label = name → among.held? label = alone.held? label) ∧
      (∀ key, Key.Belongs name key → among.records.find? key = alone.records.find? key) ∧
      (among.respond ⟨name, .actByName (.query .positions)⟩).1
        = (alone.respond ⟨name, .actByName (.query .positions)⟩).1) ∧
    ∀ earlier r, earlier ++ [r] <+: run → ∀ key, key ≠ Key.accumulator r.name →
      (∀ index ∈ r.operation.index?, key ≠ Key.position r.name index) →
      ((ofStore store).served (earlier ++ [r])).records.find? key
        = ((ofStore store).served earlier).records.find? key := by
  have hstart : (ofStore store).Agrees owner name (ofStore store) :=
    ⟨⟨store, store, rfl, rfl, .refl⟩, fun _ _ => rfl⟩
  have hlabelled : (ofStore store).Labelled owner := fun _ _ h => nomatch h
  refine ⟨(hstart.served hname hlabelled hrun).1, ?_, ?_⟩
  · rintro earlier ⟨rest, rfl⟩ among alone
    have hagrees : among.Agrees owner name alone :=
      (hstart.served hname hlabelled fun r hr => hrun r (List.mem_append_left rest hr)).2
    have hlisting := hagrees.onStore (Ledger.local_byName name (.query .positions))
    exact ⟨fun label hlabel => (hagrees.held label hlabel).symm,
      fun key hkey => (hagrees.find?_eq hkey).symm, (Agrees.reply .answer hlisting).1⟩
  · rintro earlier r ⟨rest, rfl⟩ key haccumulator hposition
    have hearlier : ∀ r ∈ earlier, r.Owned owner := fun r' hr' =>
      hrun r' (List.mem_append_left rest (List.mem_append_left [r] hr'))
    have hr : r.Owned owner := hrun r (by simp)
    obtain ⟨⟨store₁, h₁⟩, hlabelled₁⟩ := changes_served (s := ofStore store) rfl hlabelled hearlier
    obtain ⟨store₂, h₂, hspared⟩ := (changes_respond h₁ hlabelled₁ hr.2).stored store₁ h₁
    rw [served, List.foldl_append]
    show (Session.respond ((ofStore store).served earlier) r).2.records.find? key = _
    rw [records, records, h₁, h₂]
    exact hspared.find? ⟨haccumulator, hposition⟩

/-- Two accumulators of which one has a name that begins with the name of the other. -/
def neighbours : List Request :=
  [⟨"pool-1", .create "pool-1"⟩, ⟨"pool-10", .create "pool-10"⟩,
    ⟨"pool-1", .act "pool-1" (.step (.openNow "0||a" (.ofPartsD 3 0) none))⟩,
    ⟨"pool-10", .act "pool-10" (.step (.openNow "a" (.ofPartsD 5 0) none))⟩,
    ⟨"pool-1", .actByName (.query .positions)⟩]

theorem accumulators_do_not_interfere_neighbours :
    ((ofStore (.memory .empty)).responses neighbours).filter (·.1.name = "pool-1")
        = (ofStore (.memory .empty)).responses (neighbours.filter (·.name = "pool-1")) ∧
      ((ofStore (.memory .empty)).served neighbours).records.size = 4 ∧
      (((ofStore (.memory .empty)).served neighbours).held? "pool-1").map (·.totalShares)
        = some (.ofPartsD 3 0) ∧
      (((ofStore (.memory .empty)).served (neighbours.filter (·.name = "pool-1"))).held?
        "pool-1").map (·.totalShares) = some (.ofPartsD 3 0) := by
  have hrun : ∀ r ∈ neighbours, r.Owned id := by
    simp only [neighbours, List.forall_mem_cons, Request.Owned]
    decide
  obtain ⟨hresponses, hstates, -⟩ := accumulators_do_not_interfere
    (show Key.IsName "pool-1" by decide) hrun (.memory .empty)
  have hheld : (((ofStore (.memory .empty)).served neighbours).held? "pool-1").map
      (·.totalShares) = some (.ofPartsD 3 0) := by decide +kernel
  refine ⟨hresponses, by decide +kernel, hheld, ?_⟩
  rw [← (hstates neighbours (List.prefix_refl _)).1 "pool-1" rfl]
  exact hheld

end Session

end Accrual
