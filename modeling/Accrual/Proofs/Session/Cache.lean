/-
The accumulator in hand and what is stored of it.

* `Error.Same`, `Answer.Same` — errors and answers that differ at most in how a total is written;
* `Totals.Alike` — totals that are read in the same way;
* `Store.Keeps` — what is stored of an accumulator is read as the copy in hand is;
* `Ledger.alike_resolve` — a use is decided alike by the copy in hand and by a stored one;
* `Ledger.Mirrors` — a store in which everything was done by name, beside a ledger;
* `Mirrors.use`, `Follows.after` — so they stay, and their answers are the same;
* `in_hand_is_faithful` — after every part of a run the accumulator in hand is what can be loaded,
  and the run could as well load it anew each time.

Design notes.  The one thing that the copy in hand has and the stored one has not is the sign of a
zero total, which closing a position without shares leaves behind.  A zero total is replaced by
whatever is added to it, so the sign shows only where an error names the total.  A store that takes
no writes is left out of all this: there nothing ever changes.
-/
import Accrual.Proofs.Ledger.Alike
import Accrual.Proofs.Ledger.Handle
import Accrual.Proofs.Rewards.Produced
import Accrual.Proofs.Session.Run

namespace Accrual

open Result (Agree)

/-! ### The same up to the sign of a zero -/

/-- Errors that are the same but for the total they name, which has the same value. -/
inductive Error.Same : Error → Error → Prop
  | refl (e : Error) : Same e e
  | lack {name : String} {total total' delta : Decimal} (h : total.toRat = total'.toRat) :
    Same (.violation (.negativeTotalShares name total delta))
      (.violation (.negativeTotalShares name total' delta))

/-- Answers that are the same, or totals with the same values. -/
inductive Answer.Same : Answer → Answer → Prop
  | refl (a : Answer) : Same a a
  | totals {t t' : Totals} (hvalue : t.valuePerShare = t'.valuePerShare)
    (htotal : t.totalShares.toRat = t'.totalShares.toRat) :
    Same (.reading (.totals t)) (.reading (.totals t'))

/-- Totals that are read in the same way once they are stored. -/
def Totals.Alike (t t' : Totals) : Prop := t.readBack = t'.readBack

namespace Decimal

theorem readBack_of_not_isZero {a : Decimal} (h : ¬ a.IsZero) : a.readBack = a := by
  obtain ⟨negative, m, s, hm, hs⟩ := a
  have hbne : (m != 0) = true := bne_iff_ne.mpr h
  simp only [readBack, hbne, Bool.and_true]

theorem toRat_eq_of_readBack {a b : Decimal} (h : a.readBack = b.readBack) :
    a.toRat = b.toRat := by
  rw [← a.toRat_readBack, h, b.toRat_readBack]

/-- Decimals that are read in the same way are the same, or zero. -/
theorem eq_or_isZero_of_readBack {a b : Decimal} (h : a.readBack = b.readBack) :
    a = b ∨ a.IsZero ∧ b.IsZero := by
  have hval := toRat_eq_of_readBack h
  by_cases ha : a.IsZero
  · exact .inr ⟨ha, isZero_iff.mpr (hval ▸ isZero_iff.mp ha)⟩
  · have hb : ¬ b.IsZero := fun hb => ha (isZero_iff.mpr (hval ▸ isZero_iff.mp hb))
    rw [readBack_of_not_isZero ha, readBack_of_not_isZero hb] at h
    exact .inl h

theorem add?_congr {a b : Decimal} (h : a.readBack = b.readBack) (c : Decimal) :
    a.add? c = b.add? c := by
  rcases eq_or_isZero_of_readBack h with rfl | ⟨ha, hb⟩
  · rfl
  · rw [add?, if_pos ha, add?, if_pos hb]

end Decimal

namespace Accumulator

variable {a : Accumulator} {t : Decimal} {slot : Slot}

theorem alike_adjusted (h : a.totalShares.readBack = t.readBack) (delta : Decimal) :
    Agree Error.Same Totals.Alike (a.adjusted delta)
      ({ a with totalShares := t }.adjusted delta) := by
  unfold adjusted totalAfter
  rw [Decimal.add?_congr h delta]
  cases t.add? delta with
  | none => exact .error (.refl _)
  | some total =>
    dsimp only
    split
    · exact .error (.lack (Decimal.toRat_eq_of_readBack h))
    · exact .ok rfl

theorem alike_credited (h : a.totalShares.readBack = t.readBack) (perShare : Rewards) :
    Agree Error.Same Totals.Alike (a.credited perShare)
      ({ a with totalShares := t }.credited perShare) := by
  refine .bind_left .refl _ fun value _ => .ok ?_
  show Totals.mk value a.totalShares.readBack = Totals.mk value t.readBack
  rw [h]

theorem alike_planInject (h : a.totalShares.readBack = t.readBack) (amount : Rewards) :
    Agree Error.Same (AlikeAnswer Totals.Alike) (a.planInject amount)
      ({ a with totalShares := t }.planInject amount) := by
  rcases Decimal.eq_or_isZero_of_readBack h with rfl | ⟨ha, ht⟩
  · refine .refl .refl (fun r => ⟨rfl, rfl, ?_⟩) _
    cases r.2.totals with
    | none => exact .none
    | some t => exact .some rfl
  · -- without shares nothing is divided
    rw [planInject, planInject, if_pos (.inr ha), if_pos (.inr ht)]
    exact .ok (alike_position _ _)

/-- A step is planned alike with a total that is read in the same way. -/
theorem alike_plan_readBack (h : a.totalShares.readBack = t.readBack) (step : Step) :
    Agree Error.Same (AlikeAnswer Totals.Alike) (a.plan slot step)
      ({ a with totalShares := t }.plan slot step) := by
  by_cases hstep : step.OnPosition
  · exact alike_plan .refl hstep fun delta _ => alike_adjusted h delta
  cases step with
  | inject amount =>
    exact (alike_planInject h amount).map fun _ _ => And.imp_left (congrArg Outcome.credited)
  | credit perShare =>
    refine Agree.map (V := AlikeAnswer Totals.Alike) ?_ fun _ _ => And.imp_left fun _ => rfl
    exact (alike_credited h perShare).bind fun _ _ ht => .ok (alike_totals _ _ ht)
  | adjustShares delta =>
    refine Agree.map (V := AlikeAnswer Totals.Alike) ?_ fun _ _ => And.imp_left fun _ => rfl
    exact (alike_adjusted h delta).bind fun _ _ ht => .ok (alike_totals _ _ ht)
  | writePosition index p =>
    refine Agree.map (V := AlikeAnswer Totals.Alike) ?_ fun _ _ => And.imp_left fun _ => rfl
    exact .bind_left .refl (a.vet index p) fun _ _ => .ok (alike_position _ _)
  | _ => exact absurd trivial hstep

end Accumulator

/-! ### Stored copies -/

/-- What is stored of an accumulator is read as the copy in hand is. -/
def Store.Keeps (store : Store) (a : Accumulator) : Prop :=
  ∃ t, store.records.totals? a.name = some t ∧ t.Alike a.toTotals

/-- What can be loaded is what is in hand, up to the way the total is written. -/
def Store.Serves (store : Store) (name : String) (a : Accumulator) : Prop :=
  ∃ b, Accumulator.load name store = .ok b store ∧ b.valuePerShare = a.valuePerShare ∧
    b.totalShares.toRat = a.totalShares.toRat

namespace Store

variable {store : Store} {a : Accumulator}

/-- A stored copy has the value per share of the copy in hand, and its total is read alike. -/
theorem Keeps.load (h : store.Keeps a) (hw : store.Writable) (hname : Key.IsName a.name) :
    ∃ total, a.totalShares.readBack = total.readBack ∧
      Accumulator.load a.name store = .ok { a with totalShares := total } store := by
  obtain ⟨⟨value, total⟩, hstored, hread⟩ := h
  obtain ⟨bytes, hfind, hdecode⟩ := Records.totals?_eq_some.mp hstored
  simp only [Totals.Alike, Totals.readBack, Totals.mk.injEq] at hread
  refine ⟨total, hread.2.symm, ?_⟩
  rw [Accumulator.load_apply hw.readable, Accumulator.loaded, if_pos hname, hfind]
  simp only [hdecode, hread.1, Action.ofResult_ok]

theorem Keeps.serves (h : store.Keeps a) (hw : store.Writable) (hname : Key.IsName a.name) :
    store.Serves a.name a := by
  obtain ⟨total, htotal, hload⟩ := h.load hw hname
  exact ⟨_, hload, rfl, Decimal.toRat_eq_of_readBack htotal.symm⟩

end Store

/-! ### Deciding from a stored copy -/

/-- The amounts that are added to the value per share are canonical. -/
def Use.Over (D : Finset String) : Use → Prop
  | .step (.inject amount) | .step (.credit amount) => amount.Over D
  | _ => True

namespace Ledger

variable {D : Finset String} {l l' : Ledger} {store : Store}

/-- The ledger of another store, and a copy of the accumulator with another total. -/
def beside (l : Ledger) (store : Store) (total : Decimal) : Ledger :=
  ⟨{ l.accumulator with totalShares := total }, store⟩

@[simp] theorem name_beside (total : Decimal) :
    (l.beside store total).accumulator.name = l.accumulator.name := rfl

@[simp] theorem store_beside (total : Decimal) : (l.beside store total).store = store := rfl

/-- A use is decided alike by the copy in hand and by a stored one. -/
theorem alike_resolve {total : Decimal}
    (htotal : l.accumulator.totalShares.readBack = total.readBack)
    (hothers : ∀ key, key ≠ Key.accumulator l.accumulator.name →
      store.records.find? key = l.store.records.find? key) (u : Use) :
    Agree Error.Same (fun r r' => Answer.Same r.1 r'.1 ∧ r.2.Alike Totals.Alike r'.2)
      (l.resolve u) ((l.beside store total).resolve u) := by
  -- the other store has the same records of positions
  have hpositions (key : Bytes)
      (hkey : (Key.positions l.accumulator.name).isPrefixOf key = true) :
      store.records.find? key = l.store.records.find? key := by
    refine hothers key fun heq => ?_
    rw [heq, Key.not_isPrefixOf_accumulator] at hkey
    cases hkey
  have hstore : (l.beside store total).resolve u = (l.beside l.store total).resolve u :=
    resolve_congr (a := { l.accumulator with totalShares := total }) hpositions u
  rw [hstore]
  cases u with
  | step step =>
    refine (Accumulator.alike_plan_readBack htotal step).map fun r r' h => ⟨?_, h.2⟩
    rw [h.1]
    exact .refl _
  | query query =>
    by_cases hquery : query = .totals
    · subst hquery
      exact .ok ⟨.totals rfl (Decimal.toRat_eq_of_readBack htotal), rfl, .none⟩
    · have hreading : (l.beside l.store total).reading query = l.reading query := by
        cases query with
        | totals => exact absurd rfl hquery
        | _ => rfl
      rw [resolve, resolve, hreading]
      refine (Agree.refl (V := Eq) .refl (fun _ => rfl) _).map fun r r' h => ⟨?_, rfl, .none⟩
      rw [h]
      exact .refl _

/-- Whatever a use writes, the value per share stays canonical. -/
theorem over_of_resolve (hvalue : l.accumulator.valuePerShare.Over D) {u : Use} (hu : u.Over D)
    {answer : Answer} {c : Change} (h : l.resolve u = .ok (answer, c)) :
    ∀ t ∈ c.totals, t.valuePerShare.Over D := by
  cases u with
  | query query =>
    obtain ⟨r, -, heq⟩ := Accumulator.map_eq_ok.mp h
    cases heq
    exact nofun
  | step step =>
    obtain ⟨⟨outcome, c'⟩, hplan, heq⟩ := Accumulator.map_eq_ok.mp h
    cases heq
    have hplanned := Accumulator.planned_of_plan hplan
    generalize l.slot step.index = slot at hplanned
    cases hplanned with
    | inject _ hdiv hadd =>
      rintro _ ⟨⟩
      exact hvalue.add (Rewards.Over.divideDown hu hdiv) hadd
    | credit hadd =>
      rintro _ ⟨⟩
      exact hvalue.add hu hadd
    | adjustShares | opened | resized | closed =>
      rintro _ ⟨⟩
      exact hvalue
    | _ => exact nofun

/-! ### A store beside a ledger -/

/-- A store in which everything was done by name that was done with the accumulator in hand. -/
structure Mirrors (D : Finset String) (l : Ledger) (store : Store) : Prop where
  writable : l.store.Writable
  beside : store.Writable
  named : Key.IsName l.accumulator.name
  value : l.accumulator.valuePerShare.Over D
  kept : l.store.Keeps l.accumulator
  mirrored : store.Keeps l.accumulator
  others : ∀ key, key ≠ Key.accumulator l.accumulator.name →
    store.records.find? key = l.store.records.find? key

/-- What is stored stays alike when changes alike are committed. -/
theorem keeps_commit (hD : D.card < twoTo 64) (hname : l'.accumulator.name = l.accumulator.name)
    (h : l'.store.Keeps l.accumulator) (index : String) {c c' : Change}
    (hc : Option.Rel Totals.Alike c.totals c'.totals)
    (hvalue : ∀ t ∈ c.totals, t.valuePerShare.Over D) :
    (l'.commit index c').store.Keeps (l.commit index c).accumulator := by
  have hkey : Key.accumulator l.accumulator.name = Key.accumulator l'.accumulator.name := by
    rw [hname]
  rw [Store.Keeps, Records.totals?, name_commit, find?_commit, if_pos hkey]
  cases c; cases c'
  cases hc with
  | none => exact h
  | @some t t' ht =>
    have hvalue' : t'.valuePerShare.Over D := by
      rw [← (Totals.eq_of_readBack ht).1]
      exact hvalue t rfl
    refine ⟨t'.readBack, Totals.decode?_encode_over hvalue' hD, ?_⟩
    exact (Totals.readBack_readBack t').trans (Eq.symm ht)

theorem Mirrors.commit (hD : D.card < twoTo 64) (h : l.Mirrors D store) (total : Decimal)
    (index : String) {c c' : Change} (hc : c.Alike Totals.Alike c')
    (hvalue : ∀ t ∈ c.totals, t.valuePerShare.Over D) :
    (l.commit index c).Mirrors D
      ((l.beside store total).commit index c').store where
  writable := writable_commit h.writable index c
  beside := writable_commit (l := l.beside store total) h.beside index c'
  named := h.named
  value := by
    cases ht : c.totals with
    | none =>
      rw [Ledger.commit, ht]
      exact h.value
    | some t =>
      rw [Ledger.commit, ht]
      exact hvalue t ht
  kept := by
    refine keeps_commit hD rfl h.kept index ?_ hvalue
    cases c.totals with
    | none => exact .none
    | some t => exact .some rfl
  mirrored := keeps_commit hD (name_beside total) h.mirrored index hc.2 hvalue
  others := by
    intro key hkey
    rw [name_commit] at hkey
    rw [find?_commit, find?_commit, name_beside, store_beside, if_neg hkey, if_neg hkey, ← hc.1,
      h.others key hkey]

/-- A use through the copy in hand and the same use by name are answered alike. -/
theorem Mirrors.use (hD : D.card < twoTo 64) (h : l.Mirrors D store) {u : Use} (hu : u.Over D) :
    Agree Error.Same Answer.Same ((use u).answer l)
        ((byName l.accumulator.name (use u)).answer store) ∧
      ((use u).final l).Mirrors D ((byName l.accumulator.name (use u)).final store) ∧
      ((use u).final l).accumulator.name = l.accumulator.name := by
  obtain ⟨total, htotal, hload⟩ := h.mirrored.load h.beside h.named
  obtain ⟨hanswer, hfinal⟩ : _ = (Ledger.use u).answer (l.beside store total) ∧
    _ = ((Ledger.use u).final (l.beside store total)).store := byName_of_load hload (Ledger.use u)
  have hhand := use_eq_resolve h.writable u
  have hfresh := use_eq_resolve (l := l.beside store total) h.beside u
  rw [hanswer, hfinal, answer_of_carryOut hhand, answer_of_carryOut hfresh,
    final_of_carryOut hhand, final_of_carryOut hfresh]
  have halike := alike_resolve htotal h.others u
  cases hresolve : l.resolve u with
  | error e =>
    rw [hresolve] at halike
    generalize (l.beside store total).resolve u = r' at halike
    cases halike with
    | error he => exact ⟨.error he, h, rfl⟩
  | ok r =>
    have hvalue := over_of_resolve h.value hu hresolve
    rw [hresolve] at halike
    generalize (l.beside store total).resolve u = r' at halike
    cases halike with
    | ok hr => exact ⟨.ok hr.1, h.commit hD total u.index hr.2 hvalue, rfl⟩

/-- A store beside a ledger, whatever the kind of the ledger's store. -/
inductive Follows (D : Finset String) (name : String) (l : Ledger) (store : Store) : Prop
  | mirrors (h : l.Mirrors D store) (hname : l.accumulator.name = name)
  /-- Nothing changes, and the copy in hand is the one that is loaded each time. -/
  | still (hw : ¬ l.store.Writable) (hstore : store = l.store)
    (hload : Accumulator.load name store = .ok l.accumulator store)

variable {name : String} {uses : List Use}

theorem Follows.use (hD : D.card < twoTo 64) (h : l.Follows D name store) {u : Use}
    (hu : u.Over D) :
    Agree Error.Same Answer.Same ((Ledger.use u).answer l)
        ((byName name (Ledger.use u)).answer store) ∧
      ((Ledger.use u).final l).Follows D name ((byName name (Ledger.use u)).final store) := by
  cases h with
  | mirrors h hname =>
    subst hname
    obtain ⟨hanswer, hmirrors, hname⟩ := h.use hD hu
    exact ⟨hanswer, .mirrors hmirrors hname⟩
  | still hw hstore hload =>
    subst hstore
    obtain ⟨hanswer, hfinal⟩ := byName_of_load hload (Ledger.use u)
    obtain ⟨r, hr⟩ := idle_use u l hw
    rw [hanswer, hfinal, Action.final_of_eq hr]
    exact ⟨.refl .refl .refl _, .still hw rfl hload⟩

theorem Follows.after (hD : D.card < twoTo 64) (h : l.Follows D name store)
    (huses : ∀ u ∈ uses, u.Over D) :
    List.Forall₂ (Agree Error.Same Answer.Same) (Action.answers Ledger.use l uses)
        (Action.answers (fun u => byName name (Ledger.use u)) store uses) ∧
      (Action.after Ledger.use l uses).Follows D name
        (Action.after (fun u => byName name (Ledger.use u)) store uses) := by
  induction uses generalizing l store with
  | nil => exact ⟨.nil, h⟩
  | cons u uses ih =>
    obtain ⟨hanswer, hnext⟩ := h.use hD (huses u List.mem_cons_self)
    obtain ⟨hanswers, hafter⟩ := ih hnext fun u' hu' => huses u' (List.mem_cons_of_mem u hu')
    exact ⟨.cons hanswer hanswers, hafter⟩

theorem Follows.serves (h : l.Follows D name store) :
    l.store.Serves name l.accumulator ∧ store.Serves name l.accumulator := by
  cases h with
  | mirrors h hname =>
    subst hname
    exact ⟨h.kept.serves h.writable h.named, h.mirrored.serves h.beside h.named⟩
  | still hw hstore hload =>
    subst hstore
    exact ⟨⟨_, hload, rfl, rfl⟩, ⟨_, hload, rfl, rfl⟩⟩

theorem Follows.others (h : l.Follows D name store) {key : Bytes}
    (hkey : key ≠ Key.accumulator name) :
    store.records.find? key = l.store.records.find? key := by
  cases h with
  | mirrors h hname =>
    subst hname
    exact h.others key hkey
  | still hw hstore hload => rw [hstore]

/-! ### Runs -/

/-- The accumulator in hand was just created or loaded. -/
def Opened (name : String) (l : Ledger) : Prop :=
  ∃ store, Accumulator.create name store = .ok l.accumulator l.store ∨
    Accumulator.load name store = .ok l.accumulator l.store

theorem follows_of_create (hD : D.card < twoTo 64)
    (h : Accumulator.create name store = .ok l.accumulator l.store) :
    l.Follows D name l.store := by
  obtain ⟨hname, -, ha, hinsert⟩ := create_eq_ok h
  have hwritable := Store.writable_of_insert hinsert
  rw [Store.insert_of_writable hwritable, Except.ok.injEq] at hinsert
  have hw : l.store.Writable := hinsert ▸ Store.writable_withRecords hwritable _
  have hread := Totals.decode?_encode_over (t := .zero) Rewards.over_empty hD
  have hkeeps : l.store.Keeps l.accumulator := by
    refine ⟨_, Records.totals?_eq_some.mpr ⟨Totals.zero.encode, ?_, hread⟩, ?_⟩
    · rw [← hinsert, Store.records_withRecords, Records.find?_insert, ha, if_pos rfl]
    · rw [ha]
      exact Totals.readBack_readBack .zero
  refine .mirrors ⟨hw, hw, ?_, ?_, hkeeps, hkeeps, fun _ _ => rfl⟩ ?_
  · rw [ha]
    exact hname
  · rw [ha]
    exact Rewards.over_empty
  · rw [ha]

theorem follows_of_load (h : Accumulator.load name store = .ok l.accumulator l.store)
    (hvalue : l.accumulator.valuePerShare.denoms ⊆ D) : l.Follows D name l.store := by
  obtain ⟨hstore, hname, hvalid⟩ := Accumulator.of_load h
  subst hstore
  by_cases hw : l.store.Writable
  · obtain ⟨-, -, htotals⟩ := Accumulator.load_eq_ok hw.readable h
    rw [← hname] at htotals
    have hkeeps : l.store.Keeps l.accumulator := ⟨_, htotals, rfl⟩
    obtain ⟨bytes, -, hdecode⟩ := Records.totals?_eq_some.mp htotals
    have hcanonical := (Rewards.produced_of_totals hdecode).canonical
    exact .mirrors ⟨hw, hw, hname ▸ hvalid, hcanonical.over.mono hvalue, hkeeps, hkeeps,
      fun _ _ => rfl⟩ hname
  · exact .still hw rfl h

/-- An accumulator in hand is what is stored of it.  From creating or loading it on, whatever is
done with it and whatever fails, it can be loaded with the same value per share and the same total;
and doing everything by name gives the same answers, leaves the same records of positions, and
leaves totals that are loaded with the same values. -/
theorem in_hand_is_faithful (hD : D.card < twoTo 64) (hopened : l.Opened name)
    (hvalue : l.accumulator.valuePerShare.denoms ⊆ D) (huses : ∀ u ∈ uses, u.Over D) :
    let inHand := Action.after use l uses
    let stored := Action.after (fun u => byName name (use u)) l.store uses
    (∀ earlier, earlier <+: uses →
      (Action.after use l earlier).store.Serves name (Action.after use l earlier).accumulator) ∧
    List.Forall₂ (Agree Error.Same Answer.Same) (Action.answers use l uses)
      (Action.answers (fun u => byName name (use u)) l.store uses) ∧
    stored.Serves name inHand.accumulator ∧
    ∀ key, key ≠ Key.accumulator name →
      stored.records.find? key = inHand.store.records.find? key := by
  intro inHand stored
  have hfollows : l.Follows D name l.store := by
    obtain ⟨store, hcreate | hload⟩ := hopened
    · exact follows_of_create hD hcreate
    · exact follows_of_load hload hvalue
  obtain ⟨hanswers, hafter⟩ := hfollows.after hD huses
  refine ⟨?_, hanswers, hafter.serves.2, fun key hkey => hafter.others hkey⟩
  rintro earlier ⟨rest, rfl⟩
  exact (hfollows.after hD fun u hu => huses u (List.mem_append_left rest hu)).2.serves.1

/-- A position is opened, emptied and closed, which leaves the total `-0` in hand. -/
def emptied : List Use :=
  [.step (.openNow "a" (.ofPartsD 1 0) none), .step (.shrink "a" (.ofPartsD 1 0)),
    .step (.close "a"), .step (.adjustShares (Decimal.ofPartsD 1 0).neg), .query .totals]

theorem in_hand_is_faithful_emptied :
    let l := fresh "pool"
    let inHand := Action.after use l emptied
    let stored := Action.after (fun u => byName "pool" (use u)) l.store emptied
    inHand.accumulator.totalShares.text = "-0" ∧
    (∀ earlier, earlier <+: emptied →
      (Action.after use l earlier).store.Serves "pool" (Action.after use l earlier).accumulator) ∧
    List.Forall₂ (Agree Error.Same Answer.Same) (Action.answers use l emptied)
      (Action.answers (fun u => byName "pool" (use u)) l.store emptied) ∧
    stored.Serves "pool" inHand.accumulator ∧
    ∀ key, key ≠ Key.accumulator "pool" →
      stored.records.find? key = inHand.store.records.find? key := by
  have hopened : (fresh "pool").Opened "pool" :=
    (isNew_fresh (by decide)).imp fun _ hcreate => .inl hcreate.1
  refine ⟨by decide +kernel, ?_⟩
  exact in_hand_is_faithful (D := ∅) (by decide) hopened (by decide) (by
    simp only [emptied, List.forall_mem_cons]
    exact ⟨trivial, trivial, trivial, trivial, trivial, nofun⟩)

end Ledger

end Accrual
