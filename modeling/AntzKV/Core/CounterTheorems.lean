/-
AntzKV.Core.CounterTheorems — `kv_incrby` and `kv_decrby` as counters.

A counter is a key that is absent, which counts as 0, or that holds the
text of a 64-bit number. On a counter one call adds its delta and stores
the text of the sum (`Holds.kvIncrby`), and so does a run of calls
(`countsUp_iff`). Two things break it. A string that is no such text is
overwritten all the same, and so is a number whose sum wraps around
(`cleanIncr_iff`). And the return value of the `kv_set_object` that
creates the key is not looked at: with no memory for a larger table the
addition goes to whatever stands where the probe ended, and with none for
the object the process dies.
-/
import AntzKV.Core.ConcurrentUpdatesTheorems

namespace AntzKV

open Scanf (decimalInt)

variable {S : Type}

def InInt64 (v : Int) : Prop := -2 ^ 63 ≤ v ∧ v < 2 ^ 63

instance (v : Int) : Decidable (InInt64 v) := inferInstanceAs (Decidable (_ ∧ _))

/-- The decimal text of a number. -/
def decimalText (v : Int) : CStr := .ofBuf (decimalInt v)

theorem numberOf_decimalText {v : Int} (h : InInt64 v) : numberOf (decimalText v) = v := by
  have hnum := numberOf_ofBuf_decimalInt v
  rwa [wrap64_of_range h.1 h.2] at hnum

namespace KvTable

/-- The key counts `v`: it is absent and `v` is 0, or it holds the text of
the 64-bit number `v`. -/
def Holds (db : KvTable S) (key : CStr) (v : Int) : Prop :=
  (db.kvGetObject key = none ∧ v = 0) ∨ (InInt64 v ∧ db.kvGet key = some (decimalText v))

/-- A new key can be stored, or none is needed. -/
def CanCreate (calloc : Calloc) (db : KvTable S) (key : CStr) : Prop :=
  db.kvExists key = true ∨ ¬ db.CannotStore calloc

instance (calloc : Calloc) (db : KvTable S) (key : CStr) : Decidable (db.CanCreate calloc key) :=
  inferInstanceAs (Decidable (_ ∨ _))

section Call

variable {db : KvTable S} {key : CStr}

theorem kvGet_eq_some_iff {t : CStr} :
    db.kvGet key = some t ↔ ∃ o, db.kvGetObject key = some o ∧ o.string? = some t :=
  Option.bind_eq_some_iff

/-- The negation of `kv_decrby` wraps around where the sum does not. -/
theorem kvDecrby_eq (calloc : Calloc) (delta : Int) (usec : UInt64) :
    db.kvDecrby calloc key delta usec = db.kvIncrby calloc key (-delta) usec := by
  have hat : ∀ (t : KvTable S) (i : Nat),
      t.incrAt i (wrap64 (-delta)) = t.incrAt i (-delta) := by
    intro t i
    simp only [incrAt, wrap64_add_wrap64]
  simp only [kvDecrby, kvIncrby, hat]

/-- An addition to a string, where it stands. -/
theorem incrAt_of_string (h : db.Wf) {t : CStr} (hget : db.kvGet key = some t) (delta : Int) :
    ∃ db', db.incrAt (db.probe key).1 delta = (db', .ok (wrap64 (numberOf t + delta))) ∧ db'.Wf ∧
      db'.kvGet key = some (decimalText (wrap64 (numberOf t + delta))) := by
  obtain ⟨o, ho, hs⟩ := kvGet_eq_some_iff.mp hget
  let data : ObjData S := .string (decimalText (wrap64 (numberOf t + delta)))
  refine ⟨db.putData key data, ?_, h.putData key data, ?_⟩
  · rw [incrAt_found ho, hs]
    rfl
  · exact getStringObj_putData h hget _

/-- **One call on a counter**: the sum is returned and its text stored. -/
theorem Holds.kvIncrby (h : db.Wf) {v : Int} (hheld : db.Holds key v) {calloc : Calloc}
    (hroom : db.CanCreate calloc key) {delta : Int} (hsum : InInt64 (v + delta)) (usec : UInt64) :
    ∃ db', db.kvIncrby calloc key delta usec = (db', .ok (v + delta)) ∧ db'.Wf ∧
      db'.kvGet key = some (decimalText (v + delta)) := by
  rcases hheld with ⟨hnone, rfl⟩ | ⟨hv, hget⟩
  · have hmiss := probe_missed_of_absent hnone
    have hgrow : ¬ db.CannotStore calloc := hroom.resolve_left (by rw [kvExists, hmiss]; decide)
    have hzero : (db.kvNextVersion.1.kvSetObject calloc key (db.zeroObj usec) none).1.kvGet key
        = some (.lit "0") :=
      kvGet_eq_some_iff.mpr ⟨db.zeroObj usec, kvGetObject_zeroObj h hgrow key usec, rfl⟩
    have hread : numberOf (.lit "0") = 0 := by decide
    rw [kvIncrby_missed hmiss (object_of_canStore hgrow)]
    have hadd := incrAt_of_string (h.kvNextVersion.kvSetObject calloc key (db.zeroObj usec) none)
      hzero delta
    rwa [hread, wrap64_of_range hsum.1 hsum.2] at hadd
  · obtain ⟨o, ho, -⟩ := kvGet_eq_some_iff.mp hget
    rw [kvIncrby_found ho]
    have hadd := incrAt_of_string h hget delta
    rwa [numberOf_decimalText hv, wrap64_of_range hsum.1 hsum.2] at hadd

theorem kvGetObject_modifyAt_absent (h : db.Wf) (hnone : db.kvGetObject key = none) (i : Nat)
    (f : DbObject S → DbObject S) : (db.modifyAt i f).kvGetObject key = none := by
  rcases modifyAt_cases db i f with hr | ⟨k, o, hi, hr⟩ <;> rw [hr]
  · exact hnone
  · rw [kvGetObject_eq_lookup, capacity_setEntry, entry_setEntry (lt_capacity_of_entry hi),
      OpenAddressing.lookup_replace h.findable hi (f o) key, ← kvGetObject_eq_lookup, hnone]
    refine if_neg ?_
    rintro rfl
    have hthere : db.kvGetObject key = some o := by
      rw [kvGetObject_eq_lookup, OpenAddressing.lookup_eq_some_iff h.findable]
      exact ⟨i, hi⟩
    rw [hnone] at hthere
    cases hthere

/-- A key that is absent and cannot be created is absent afterwards, and a
version has been drawn. -/
theorem kvIncrby_of_cannotStore (h : db.Wf) (hnone : db.kvGetObject key = none) {calloc : Calloc}
    (hgrow : db.CannotStore calloc) (delta : Int) (usec : UInt64) :
    (db.kvIncrby calloc key delta usec).1.kvGetObject key = none ∧
      (db.kvIncrby calloc key delta usec).1.dbVersion = db.dbVersion + 1 := by
  have hmiss : (db.probe key).2 = false := probe_missed_of_absent hnone
  have hgrow' : db.kvNextVersion.1.CannotStore calloc := hgrow
  have hnone' : db.kvNextVersion.1.kvGetObject key = none :=
    (kvGetObject_congr (entries_kvNextVersion db) key).trans hnone
  cases hobj : calloc.object with
  | false =>
    rw [kvIncrby_of_no_object hmiss hobj]
    exact ⟨hnone', rfl⟩
  | true =>
    rw [kvIncrby_missed hmiss hobj, kvSetObject_of_cannotStore hgrow', incrAt]
    split
    · exact ⟨hnone', rfl⟩
    · split
      · exact ⟨hnone', rfl⟩
      · refine ⟨kvGetObject_modifyAt_absent h.kvNextVersion hnone' _ _, ?_⟩
        unfold modifyAt
        split <;> rfl

end Call

/-! ## One call: a clean success or a clean failure -/

/-- A call returns 0, on a counter whose sum is a 64-bit number and is now
stored, or -1 with the table as it was. -/
def CleanIncr (db : KvTable S) (key : CStr) (delta : Int) (r : KvTable S × Outcome Int) : Prop :=
  (∃ out, r.2 = .ok out ∧ ∃ v, db.Holds key v ∧ InInt64 (v + delta) ∧
    r.1.kvGet key = some (decimalText (v + delta))) ∨
  (r.2 = .err ∧ r.1 = db)

/-- The key holds something that is not a string; or it is a counter with
the sum in range, and is there or can be created. -/
def Countable (calloc : Calloc) (db : KvTable S) (key : CStr) (delta : Int) : Prop :=
  (∃ o, db.kvGetObject key = some o ∧ o.string? = none) ∨
  ∃ v, db.Holds key v ∧ InInt64 (v + delta) ∧ db.CanCreate calloc key

theorem Wf.incrbyClean_iff {db : KvTable S} (h : db.Wf) (calloc : Calloc) (key : CStr) (delta : Int)
    (usec : UInt64) :
    CleanIncr db key delta (db.kvIncrby calloc key delta usec) ↔ Countable calloc db key delta := by
  constructor
  · rintro (⟨out, -, v, hheld, hsum, hafter⟩ | ⟨herr, hsame⟩)
    · refine .inr ⟨v, hheld, hsum, ?_⟩
      by_contra hstuck
      obtain ⟨hmiss, hgrow⟩ := not_or.mp hstuck
      have hnone := kvGetObject_of_missed (Bool.not_eq_true _ ▸ hmiss)
      obtain ⟨hgone, -⟩ := kvIncrby_of_cannotStore h hnone (not_not.mp hgrow) delta usec
      rw [kvGet, hgone] at hafter
      cases hafter
    · left
      cases hget : db.kvGetObject key with
      | some o =>
        refine ⟨o, rfl, ?_⟩
        rw [kvIncrby_found hget, incrAt_found hget] at herr
        cases hs : o.string? with
        | none => rfl
        | some t =>
          rw [hs] at herr
          cases herr
      | none =>
        -- to create the key or to fail to draws a version
        exfalso
        by_cases hgrow : db.CannotStore calloc
        · have hver := (kvIncrby_of_cannotStore h hget hgrow delta usec).2
          rw [hsame] at hver
          simp at hver
        · have hmiss := probe_missed_of_absent hget
          rw [kvIncrby_missed hmiss (object_of_canStore hgrow),
            incrAt_found (kvGetObject_zeroObj h hgrow key usec)] at herr
          cases herr
  · rintro (⟨o, hget, hs⟩ | ⟨v, hheld, hsum, hroom⟩)
    · right
      rw [kvIncrby_found hget, incrAt_found hget, hs]
      exact ⟨rfl, rfl⟩
    · obtain ⟨db', hr, -, hafter⟩ := hheld.kvIncrby h hroom hsum usec
      rw [hr]
      exact .inl ⟨_, rfl, v, hheld, hsum, hafter⟩

/-- **When `kv_incrby` and `kv_decrby` end cleanly**: on any reachable
table, exactly on what is `Countable`. -/
theorem cleanIncr_iff [LinearOrder S] (path : Option CStr) (file : Option (List UInt8))
    (ops : List (StoreOp S)) (calloc : Calloc) (key : CStr) (delta : Int) (usec : UInt64) :
    let db := storeRun path file ops
    (CleanIncr db key delta (db.kvIncrby calloc key delta usec) ↔
        Countable calloc db key delta) ∧
      (CleanIncr db key (-delta) (db.kvDecrby calloc key delta usec) ↔
        Countable calloc db key (-delta)) := by
  intro db
  have hwf : db.Wf := Wf.storeRun path file ops
  rw [kvDecrby_eq]
  exact ⟨hwf.incrbyClean_iff calloc key delta usec, hwf.incrbyClean_iff calloc key (-delta) usec⟩

/-- SET a abc. -/
def word : List (StoreOp Int) := [.table (.set true (.lit "a") (.lit "abc") 0)]

/-- INCR of a key that holds `abc` returns 0 and stores 1. -/
theorem incr_of_word :
    ¬ ∀ (path : Option CStr) (file : Option (List UInt8)) (ops : List (StoreOp Int))
      (calloc : Calloc) (key : CStr) (delta : Int) (usec : UInt64),
      CleanIncr (storeRun path file ops) key delta
        ((storeRun path file ops).kvIncrby calloc key delta usec) := by
  intro h
  rcases h none none word true (.lit "a") 1 0 with ⟨out, -, v, hheld, -⟩ | ⟨herr, -⟩
  · rcases hheld with ⟨hnone, -⟩ | ⟨hv, hget⟩
    · have hthere : ((storeRun none none word).kvGetObject (.lit "a")).isSome = true := by decide
      rw [hnone] at hthere
      cases hthere
    · have habc : (storeRun none none word).kvGet (.lit "a") = some (.lit "abc") := by decide
      rw [habc, Option.some.injEq] at hget
      have hzero : numberOf (.lit "abc") = 0 := by decide
      have hv0 : v = 0 := by rw [← numberOf_decimalText hv, ← hget, hzero]
      rw [hv0] at hget
      exact absurd hget (by decide)
  · exact absurd herr (by decide)

/-! ## A run of calls -/

/-- A call of `kv_incrby`, or of `kv_decrby`. -/
inductive CounterCall where
  | incrby (delta : Int)
  | decrby (delta : Int)

/-- What the call adds. -/
def CounterCall.change : CounterCall → Int
  | .incrby delta => delta
  | .decrby delta => -delta

def CounterCall.exec (calloc : Calloc) (db : KvTable S) (key : CStr) (usec : UInt64) :
    CounterCall → KvTable S × Outcome Int
  | .incrby delta => db.kvIncrby calloc key delta usec
  | .decrby delta => db.kvDecrby calloc key delta usec

/-- The calls one after the other; call `i` meets the allocations `calloc i`
and the clock reading `usec i`. The result is the table at the end, with
the output of each call and the string it left. -/
def counterRun (calloc : Nat → Calloc) (usec : Nat → UInt64) (key : CStr) :
    Nat → List CounterCall → KvTable S → KvTable S × List (Outcome Int × Option CStr)
  | _, [], db => (db, [])
  | i, c :: calls, db =>
    let (db, out) := c.exec (calloc i) db key (usec i)
    let (last, outs) := counterRun calloc usec key (i + 1) calls db
    (last, (out, db.kvGet key) :: outs)

/-- The sums after each of the deltas, from `v`. -/
def partialSums : Int → List Int → List Int
  | _, [] => []
  | v, d :: ds => (v + d) :: partialSums (v + d) ds

/-- All partial sums are 64-bit numbers. -/
def SumsInRange (v : Int) (calls : List CounterCall) : Prop :=
  ∀ s ∈ partialSums v (calls.map CounterCall.change), InInt64 s

theorem exec_eq (calloc : Calloc) (db : KvTable S) (key : CStr) (usec : UInt64) (c : CounterCall) :
    c.exec calloc db key usec = db.kvIncrby calloc key c.change usec := by
  cases c with
  | incrby delta => rfl
  | decrby delta => exact kvDecrby_eq calloc delta usec

section Runs

variable {key : CStr} {calloc : Nat → Calloc} {usec : Nat → UInt64}

/-- From a counter that is there or can be created, every call outputs the
partial sum and leaves its text, and so the last one leaves the total. -/
theorem Holds.counterRun :
    ∀ (calls : List CounterCall) (i : Nat) {db : KvTable S} {v : Int}, db.Wf → db.Holds key v →
      (calls = [] ∨ db.CanCreate (calloc i) key) → SumsInRange v calls →
      (KvTable.counterRun calloc usec key i calls db).2
          = (partialSums v (calls.map CounterCall.change)).map
            (fun s => (.ok s, some (decimalText s))) ∧
        (calls ≠ [] ∨ db.kvExists key = true →
          (KvTable.counterRun calloc usec key i calls db).1.kvGet key
            = some (decimalText (v + (calls.map CounterCall.change).sum)))
  | [], i, db, v, _, hheld, _, _ => by
    refine ⟨rfl, fun hthere => ?_⟩
    obtain ⟨o, ho⟩ := probe_found_iff.mp (hthere.resolve_left fun hne => hne rfl)
    rcases hheld with ⟨hnone, -⟩ | ⟨-, hget⟩
    · rw [ho] at hnone
      cases hnone
    · simpa [KvTable.counterRun] using hget
  | c :: calls, i, db, v, hwf, hheld, hroom, hrange => by
    have hsum : InInt64 (v + c.change) := hrange _ List.mem_cons_self
    obtain ⟨db', hr, hwf', hafter⟩ :=
      hheld.kvIncrby hwf (hroom.resolve_left (List.cons_ne_nil c calls)) hsum (usec i)
    have hthere : db'.kvExists key = true := by
      obtain ⟨o, ho, -⟩ := kvGet_eq_some_iff.mp hafter
      exact probe_found_iff.mpr ⟨o, ho⟩
    obtain ⟨houts, hlast⟩ := Holds.counterRun calls (i + 1) hwf' (.inr ⟨hsum, hafter⟩)
      (.inr (.inl hthere)) fun s hs => hrange s (List.mem_cons_of_mem _ hs)
    rw [KvTable.counterRun, exec_eq, hr]
    refine ⟨?_, fun _ => ?_⟩
    · simp only [houts, hafter, List.map_cons, partialSums]
    · rw [List.map_cons, List.sum_cons, ← Int.add_assoc]
      exact hlast (.inr hthere)

/-- The calls count: each outputs the exact partial sum and leaves its
text; what is stored at the end is the text of the total; and the calls in
any other order that stays in range end with the same text. -/
structure CountsUp (calloc : Nat → Calloc) (usec : Nat → UInt64) (db : KvTable S) (key : CStr)
    (v : Int) (calls : List CounterCall) : Prop where
  outputs : (counterRun calloc usec key 0 calls db).2
    = (partialSums v (calls.map CounterCall.change)).map fun s => (.ok s, some (decimalText s))
  total : calls ≠ [] ∨ db.kvExists key = true →
    (counterRun calloc usec key 0 calls db).1.kvGet key
      = some (decimalText (v + (calls.map CounterCall.change).sum))
  reordered : ∀ calls', calls'.Perm calls → SumsInRange v calls' →
    (counterRun calloc usec key 0 calls' db).1.kvGet key
      = (counterRun calloc usec key 0 calls db).1.kvGet key

/-- A run from a counter that is there or can be created counts. -/
theorem Holds.countsUp {db : KvTable S} (hwf : db.Wf) {v : Int} (hheld : db.Holds key v)
    {calls : List CounterCall} (hroom : calls = [] ∨ db.CanCreate (calloc 0) key)
    (hrange : SumsInRange v calls) : CountsUp calloc usec db key v calls where
  outputs := (hheld.counterRun calls 0 hwf hroom hrange).1
  total := (hheld.counterRun calls 0 hwf hroom hrange).2
  reordered := fun calls' hperm hrange' => by
    rcases eq_or_ne calls [] with rfl | hne
    · rw [hperm.eq_nil]
    · have hne' : calls' ≠ [] := fun hnil => hne (List.perm_nil.mp (hnil ▸ hperm.symm))
      have hroom' : calls' = [] ∨ db.CanCreate (calloc 0) key := .inr (hroom.resolve_left hne)
      rw [(hheld.counterRun calls' 0 hwf hroom' hrange').2 (.inl hne'),
        (hheld.counterRun calls 0 hwf hroom hrange).2 (.inl hne),
        (hperm.map CounterCall.change).sum_eq]

/-- **When counters add up**: a run of calls on a counter counts exactly
when there is no call, or the key is there or can be created when the
first call comes. -/
theorem countsUp_iff [LinearOrder S] (path : Option CStr) (file : Option (List UInt8))
    (ops : List (StoreOp S)) {v : Int} {calls : List CounterCall}
    (hheld : (storeRun path file ops).Holds key v) (hrange : SumsInRange v calls) :
    CountsUp calloc usec (storeRun path file ops) key v calls ↔
      calls = [] ∨ (storeRun path file ops).CanCreate (calloc 0) key := by
  have hwf : (storeRun path file ops).Wf := Wf.storeRun path file ops
  generalize storeRun path file ops = db at *
  refine ⟨fun hcount => ?_, fun hroom => hheld.countsUp hwf hroom hrange⟩
  cases calls with
  | nil => exact .inl rfl
  | cons c calls =>
    right
    by_contra hstuck
    obtain ⟨hmiss, hgrow⟩ := not_or.mp hstuck
    have hnone := kvGetObject_of_missed (Bool.not_eq_true _ ▸ hmiss)
    have hfirst := hcount.outputs
    -- the first call leaves the key absent
    simp only [counterRun, exec_eq, List.map_cons, partialSums, List.cons.injEq, Prod.mk.injEq]
      at hfirst
    have hafter := hfirst.1.2
    rw [kvGet, (kvIncrby_of_cannotStore hwf hnone (not_not.mp hgrow) c.change (usec 0)).1] at hafter
    cases hafter

end Runs

/-- INCRBY 5, DECRBY 7 and DECRBY 1, on a key that is absent. -/
theorem countsUp_three :
    CountsUp (fun _ => false) (fun _ => 0) (storeRun none none word) (.lit "n") 0
      [.incrby 5, .decrby 7, .decrby 1] :=
  (countsUp_iff none none word (.inl ⟨by decide, rfl⟩)
    (by unfold SumsInRange; decide)).mpr (by decide)

/-- INCR of a new key, with no memory for a larger table. -/
theorem incr_without_memory :
    ¬ ∀ (path : Option CStr) (file : Option (List UInt8)) (ops : List (StoreOp Int))
      (calloc : Nat → Calloc) (usec : Nat → UInt64) (key : CStr) (v : Int)
      (calls : List CounterCall), (storeRun path file ops).Holds key v → SumsInRange v calls →
      CountsUp calloc usec (storeRun path file ops) key v calls := by
  intro h
  obtain ⟨hnone, hgrow⟩ : (storeRun none none oneLetterKeys).kvGetObject (.lit "zz") = none ∧
      (storeRun none none oneLetterKeys).CannotStore false := by
    decide +kernel
  have hcount := h none none oneLetterKeys (fun _ => false) (fun _ => 0) (.lit "zz") 0 [.incrby 1]
    (.inl ⟨hnone, rfl⟩) (by unfold SumsInRange; decide)
  have hgone := (kvIncrby_of_cannotStore (Wf.storeRun none none oneLetterKeys) hnone hgrow 1 0).1
  have htotal := hcount.total (.inl (List.cons_ne_nil _ _))
  simp only [counterRun, CounterCall.exec, kvGet, hgone, Option.bind_none] at htotal
  cases htotal

end KvTable

end AntzKV
