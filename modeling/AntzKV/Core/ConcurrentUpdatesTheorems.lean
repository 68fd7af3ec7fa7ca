/-
AntzKV.Core.ConcurrentUpdatesTheorems — when no update is lost.

A client that finds the key adds to it under one lock, and that is safe.
A client that does not find it comes back with a fresh object, which
`kv_set_object` puts in place of whatever the other clients have stored
meanwhile. `updates_not_lost` is about every schedule in which that
happens to nothing but the number 0, or the empty string.
-/
import AntzKV.Core.ConcurrentUpdates
import AntzKV.Core.CommandsTheorems

namespace AntzKV

open Scanf (scanLld decimalInt)
open DbObject (objCreateString)
open Interleave (System credited Allowed Books)

variable {S : Type}

/-! ## Numbers in strings -/

theorem wrap64_range (v : Int) : -2 ^ 63 ≤ wrap64 v ∧ wrap64 v < 2 ^ 63 := by
  have hlow : -(((2 ^ 64 : Nat) : Int) / 2) ≤ wrap64 v := Int.le_bmod (by decide)
  have hhigh : wrap64 v < (((2 ^ 64 : Nat) : Int) + 1) / 2 := Int.bmod_lt (by decide)
  constructor <;> omega

theorem wrap64_of_range {v : Int} (hlow : -2 ^ 63 ≤ v) (hhigh : v < 2 ^ 63) : wrap64 v = v := by
  unfold wrap64
  rw [Int.bmod_eq_of_le] <;> omega

/-- A term may wrap before the sum does. -/
theorem wrap64_add_wrap64 (a b : Int) : wrap64 (a + wrap64 b) = wrap64 (a + b) := by
  unfold wrap64
  exact Int.add_bmod_bmod

/-- The text of a number is a C string as it stands. -/
theorem bytes_ofBuf_decimalInt {v : Int} (hlow : -2 ^ 63 ≤ v) (hhigh : v < 2 ^ 63) :
    (CStr.ofBuf (decimalInt v)).bytes = decimalInt v := by
  have hnul : (decimalInt v).takeWhile (· != 0) = decimalInt v := by
    rw [List.takeWhile_eq_self_iff]
    intro b hb
    simpa using Scanf.ne_zero_of_mem_decimalInt hb
  have hlen : (decimalInt v).length ≤ 21 := by
    have hdigits : (Scanf.decimal v.natAbs).length ≤ 19 + 1 :=
      Scanf.length_decimalAux_le (by omega)
    unfold decimalInt
    split
    · rw [List.length_cons]
      omega
    · omega
  simp only [CStr.ofBuf, hnul]
  exact List.take_of_length_le (hlen.trans (by decide))

/-- The number of a string, as `numberAt` reads it. -/
def numberOf (t : CStr) : Int := ((scanLld t.bytes).map (·.1)).getD 0

theorem numberOf_ofBuf_decimalInt (v : Int) : numberOf (.ofBuf (decimalInt (wrap64 v))) = wrap64 v := by
  obtain ⟨hlow, hhigh⟩ := wrap64_range v
  rw [numberOf, bytes_ofBuf_decimalInt hlow hhigh, Scanf.scanLld_decimalInt hlow hhigh]
  rfl

namespace KvTable

variable {db : KvTable S} {key : CStr}

theorem numberAt_of_string {t : CStr} (h : db.getStringObj key = some t) :
    db.numberAt key = numberOf t := by
  rw [numberAt, h]
  rfl

theorem textAt_of_string {t : CStr} (h : db.getStringObj key = some t) : db.textAt key = t.bytes := by
  rw [textAt, h]
  rfl

/-! ## What the sections do to the string of the key -/

theorem getStringObj_putData (hwf : db.Wf) {old : CStr} (h : db.getStringObj key = some old)
    (t : CStr) : (db.putData key (.string t)).getStringObj key = some t := by
  obtain ⟨o, hget, -⟩ := Option.bind_eq_some_iff.mp h
  rw [getStringObj, wrObj, putData, kvGetObject_modifyObj hwf, if_pos rfl, hget]
  rfl

theorem getStringObj_kvSetObject (hwf : db.Wf) {calloc : Calloc} (hgrow : ¬ db.CannotStore calloc)
    {obj : DbObject S} {t : CStr} (hobj : obj.string? = some t) :
    (db.kvSetObject calloc key obj none).1.getStringObj key = some t := by
  have hself := kvGetObject_kvSetObject_self hwf (kvSetObject_of_canStore hgrow key obj none)
  rw [getStringObj, wrObj, hself]
  exact hobj

theorem getStringObj_congr {db' : KvTable S} (h : db'.entries = db.entries) :
    db'.getStringObj key = db.getStringObj key := by
  rw [getStringObj, getStringObj, wrObj, wrObj, kvGetObject_congr h]

/-! ## INCRBY -/

/-- What the shared table has to do with the deltas that are in. -/
structure Adds (key : CStr) (before db : KvTable S) (deltas : List Int) : Prop where
  wf : db.Wf
  typed : db.StringOrAbsent key
  summed : Summed key before db deltas

theorem StringOrAbsent.exists_string (h : db.StringOrAbsent key) (hkey : db.kvExists key = true) :
    ∃ o t, db.kvGetObject key = some o ∧ o.string? = some t ∧ db.getStringObj key = some t := by
  obtain ⟨o, hget⟩ := probe_found_iff.mp hkey
  obtain ⟨t, ht⟩ := Option.isSome_iff_exists.mp (h o hget)
  exact ⟨o, t, hget, ht, by rw [getStringObj, wrObj, hget]; exact ht⟩

theorem stringOrAbsent_of_string {t : CStr} (h : db.getStringObj key = some t) :
    db.StringOrAbsent key := by
  intro o hget
  rw [getStringObj, wrObj, Option.mem_def.mp hget, Option.bind_some] at h
  rw [h]
  rfl

/-- A string that stands for the sum keeps the books. -/
theorem Adds.write {before db' : KvTable S} {deltas : List Int} (hwf : db'.Wf) {t : CStr}
    (hstr : db'.getStringObj key = some t)
    (hsum : numberOf t = before.numberAt key + deltas.sum) : Adds key before db' deltas where
  wf := hwf
  typed := stringOrAbsent_of_string hstr
  summed := ⟨(numberAt_of_string hstr).trans hsum, fun _ => by rw [hstr]; rfl⟩

/-- The section of `kv_incrby` that adds, on a key that is there. -/
theorem Adds.incrAt {before : KvTable S} {deltas : List Int} (h : Adds key before db deltas)
    (hkey : db.kvExists key = true) {delta : Int} (hrange : db.NoOverflow key delta) :
    ∃ v, (db.incrAt (db.probe key).1 delta).2 = .ok v ∧
      Adds key before (db.incrAt (db.probe key).1 delta).1 (delta :: deltas) := by
  obtain ⟨o, t, hget, ht, hstr⟩ := h.typed.exists_string hkey
  have hnum := numberAt_of_string hstr
  rw [incrAt_found hget, ht]
  refine ⟨_, rfl, .write (h.wf.putData key _) (getStringObj_putData h.wf hstr _) ?_⟩
  refine (numberOf_ofBuf_decimalInt (numberOf t + delta)).trans ?_
  rw [← hnum, wrap64_of_range hrange.1 hrange.2, h.summed.1,
    List.sum_cons]
  omega

theorem Adds.kvNextVersion {before : KvTable S} {deltas : List Int} (h : Adds key before db deltas) :
    Adds key before db.kvNextVersion.1 deltas where
  wf := h.wf.kvNextVersion
  typed := by
    intro o hget
    rw [kvGetObject_congr (entries_kvNextVersion db)] at hget
    exact h.typed o hget
  summed := by
    have hsame : db.kvNextVersion.1.getStringObj key = db.getStringObj key :=
      getStringObj_congr (entries_kvNextVersion db)
    refine ⟨?_, ?_⟩
    · rw [numberAt, hsame]
      exact h.summed.1
    · rw [hsame]
      exact h.summed.2

/-- The "0" is put in place of the number 0. -/
theorem Adds.insert {before : KvTable S} {deltas : List Int} (h : Adds key before db deltas)
    {calloc : Calloc} (hzero : ¬ db.CannotStore calloc → db.numberAt key = 0) {obj : DbObject S}
    (hobj : obj.string? = some (.lit "0")) :
    Adds key before (db.kvSetObject calloc key obj none).1 deltas := by
  by_cases hgrow : db.CannotStore calloc
  · rw [kvSetObject_of_cannotStore hgrow]
    exact h
  · refine .write (h.wf.kvSetObject calloc key obj none) (getStringObj_kvSetObject h.wf hgrow hobj) ?_
    rw [← h.summed.1, hzero hgrow]
    decide

theorem books_incr (key : CStr) (before : KvTable S) :
    Books (IncrClient.act key) (IncrClient.Safe key) IncrClient.credit (Adds key before) where
  perm := by
    intro db l l' hp h
    refine ⟨h.wf, h.typed, ?_, ?_⟩
    · rw [← hp.sum_eq]
      exact h.summed.1
    · intro hne
      exact h.summed.2 fun hnil => hne (List.Perm.nil_eq (hnil ▸ hp)).symm
  idle := by
    intro calloc db c hcred
    unfold IncrClient.credit at hcred
    split at hcred
    · rename_i v hpc
      simp [IncrClient.act, hpc]
    · exact absurd rfl hcred
  enter := by
    intro calloc db c deltas hcred hsafe h
    obtain ⟨delta, usec, pc⟩ := c
    cases pc with
    | start =>
      cases hkey : db.kvExists key with
      | false =>
        have hmiss : (db.probe key).2 = false := hkey
        simpa [IncrClient.act, IncrClient.credit, hmiss] using h
      | true =>
        have hfound : (db.probe key).2 = true := hkey
        obtain ⟨v, hv, hadds⟩ := h.incrAt hkey (hsafe hkey)
        simpa [IncrClient.act, IncrClient.credit, hfound, hv] using hadds
    | absent =>
      cases hobj : calloc.object <;>
        simpa [IncrClient.act, IncrClient.credit, hobj] using h.kvNextVersion
    | versioned ver => exact h.insert hsafe rfl
    | inserted =>
      cases hkey : db.kvExists key with
      | true =>
        have hrange : db.NoOverflow key delta := by simpa [IncrClient.Safe, hkey] using hsafe
        obtain ⟨v, hv, hadds⟩ := h.incrAt hkey hrange
        simpa [IncrClient.act, IncrClient.credit, hv] using hadds
      | false =>
        have hslot : (db.entry (db.probe key).1).value?.bind DbObject.string? = none := by
          simpa [IncrClient.Safe, hkey] using hsafe
        obtain ⟨hsame, hfails⟩ := incrAt_of_no_string hslot delta
        cases hr : (db.incrAt (db.probe key).1 delta).2 with
        | ok v => exact absurd hr (hfails v)
        | err => simpa [IncrClient.act, IncrClient.credit, hsame, hr] using h
        | segv => simpa [IncrClient.act, IncrClient.credit, hsame, hr] using h
    | done r => cases r <;> first | exact h | simp [IncrClient.credit] at hcred

/-! ## APPEND -/

/-- What the shared table has to do with the suffixes that are in. -/
structure Extends (key : CStr) (before db : KvTable S) (suffixes : List (List UInt8)) : Prop where
  wf : db.Wf
  typed : db.StringOrAbsent key
  appended : Appended key before db suffixes

/-- The section of `kv_append` that writes the longer string. -/
theorem Extends.putData {before : KvTable S} {suffixes : List (List UInt8)}
    (h : Extends key before db suffixes) {old suffix n : CStr} (hstr : db.getStringObj key = some old)
    (hn : n.bytes = old.bytes ++ suffix.bytes) :
    Extends key before (db.putData key (.string n)) (suffix.bytes :: suffixes) := by
  have hnew := getStringObj_putData h.wf hstr n
  obtain ⟨⟨order, hperm, htext⟩, -⟩ := h.appended
  refine ⟨h.wf.putData key _, stringOrAbsent_of_string hnew, ⟨order ++ [suffix.bytes], ?_, ?_⟩, ?_⟩
  · exact (List.perm_append_singleton _ _).trans (hperm.cons _)
  · rw [textAt_of_string hnew, hn, ← textAt_of_string hstr, htext]
    simp
  · intro _
    rw [hnew]
    rfl

/-- The empty string is put in place of an empty string. -/
theorem Extends.insert {before : KvTable S} {suffixes : List (List UInt8)}
    (h : Extends key before db suffixes) {calloc : Calloc}
    (hempty : ¬ db.CannotStore calloc → db.textAt key = []) {obj : DbObject S}
    (hobj : obj.string? = some (.lit "")) :
    Extends key before (db.kvSetObject calloc key obj none).1 suffixes := by
  by_cases hgrow : db.CannotStore calloc
  · rw [kvSetObject_of_cannotStore hgrow]
    exact h
  · have hnew : (db.kvSetObject calloc key obj none).1.getStringObj key = some (.lit "") :=
      getStringObj_kvSetObject h.wf hgrow hobj
    obtain ⟨⟨order, hperm, htext⟩, -⟩ := h.appended
    refine ⟨h.wf.kvSetObject calloc key obj none, stringOrAbsent_of_string hnew,
      ⟨order, hperm, ?_⟩, ?_⟩
    · rw [← htext, hempty hgrow, textAt_of_string hnew]
      rfl
    · intro _
      rw [hnew]
      rfl

theorem bytes_of_append? {a b n : CStr} (h : a.append? b = some n) : n.bytes = a.bytes ++ b.bytes := by
  unfold CStr.append? at h
  split at h
  · rw [← Option.some.inj h]
  · cases h

theorem books_append (key : CStr) (before : KvTable S) :
    Books (AppendClient.act key) (AppendClient.Safe key) AppendClient.credit (Extends key before) where
  perm := by
    intro db l l' hp h
    obtain ⟨⟨order, hperm, htext⟩, hsome⟩ := h.appended
    refine ⟨h.wf, h.typed, ⟨order, hperm.trans hp, htext⟩, ?_⟩
    intro hne
    exact hsome fun hnil => hne (List.Perm.nil_eq (hnil ▸ hp)).symm
  idle := by
    intro calloc db c hcred
    unfold AppendClient.credit at hcred
    split at hcred
    · rename_i v hpc
      simp [AppendClient.act, hpc]
    · exact absurd rfl hcred
  enter := by
    intro calloc db c suffixes hcred hsafe h
    obtain ⟨suffix, usec, pc⟩ := c
    cases pc with
    | start =>
      cases hstr : db.getStringObj key <;>
        simpa [AppendClient.act, AppendClient.credit, hstr] using h
    | missing =>
      have hins : Extends key before
          (db.kvSetObject calloc key (objCreateString (.lit "") usec) none).1 suffixes :=
        h.insert hsafe rfl
      by_cases hret : (db.kvSetObject calloc key (objCreateString (.lit "") usec) none).2 = 0
      · simpa [AppendClient.act, AppendClient.credit, hret] using hins
      · simpa [AppendClient.act, AppendClient.credit, hret] using hins
    | recheck => exact h
    | modify =>
      cases hstr : db.getStringObj key with
      | none => simpa [AppendClient.act, AppendClient.credit, hstr] using h
      | some old =>
        cases hn : old.append? suffix with
        | none => simpa [AppendClient.act, AppendClient.credit, hstr, hn] using h
        | some n =>
          simpa [AppendClient.act, AppendClient.credit, hstr, hn]
            using h.putData hstr (bytes_of_append? hn)
    | done r => cases r <;> first | exact h | simp [AppendClient.credit] at hcred

end KvTable

/-! ## One client alone -/

/-- A client that nobody interrupts runs `kv_incrby`. -/
theorem incrRun_alone (calloc : Calloc) (db : KvTable S) (key : CStr) (delta : Int) (usec : UInt64) :
    incrRun key db [(delta, usec)] [(0, calloc), (0, calloc), (0, calloc), (0, calloc)]
      = ⟨(db.kvIncrby calloc key delta usec).1,
        [⟨delta, usec, .done (db.kvIncrby calloc key delta usec).2⟩]⟩ := by
  cases hfound : (db.probe key).2 with
  | true => simp [incrRun, incrClients, Interleave.step, IncrClient.act, KvTable.kvIncrby, hfound]
  | false =>
    obtain ⟨object, entries⟩ := calloc
    cases object <;>
      simp [incrRun, incrClients, Interleave.step, IncrClient.act, KvTable.kvIncrby, hfound]

/-- A client that nobody interrupts runs `kv_append`. -/
theorem appendRun_alone (calloc : Calloc) (db : KvTable S) (key suffix : CStr) (usec : UInt64) :
    appendRun key db [(suffix, usec)] [(0, calloc), (0, calloc), (0, calloc), (0, calloc)]
      = ⟨(db.kvAppend calloc key suffix usec).1,
        [⟨suffix, usec, .done (db.kvAppend calloc key suffix usec).2⟩]⟩ := by
  cases hstr : db.getStringObj key with
  | some old =>
    have hwr : db.wrObj DbObject.string? key = some old := hstr
    cases hn : old.append? suffix <;>
      simp [appendRun, appendClients, Interleave.step, AppendClient.act, KvTable.kvAppend,
        KvTable.createUnless, hstr, hwr, hn]
  | none =>
    have hwr : db.wrObj DbObject.string? key = none := hstr
    let obj : DbObject S := objCreateString (.lit "") usec
    by_cases hret : (db.kvSetObject calloc key obj none).2 = 0
    · cases hnew : (db.kvSetObject calloc key obj none).1.getStringObj key with
      | none =>
        simp [appendRun, appendClients, Interleave.step, AppendClient.act, KvTable.kvAppend,
          KvTable.createUnless, hstr, hwr, hret, obj, hnew]
      | some old =>
        cases hn : old.append? suffix <;>
          simp [appendRun, appendClients, Interleave.step, AppendClient.act, KvTable.kvAppend,
            KvTable.createUnless, hstr, hwr, hret, obj, hnew, hn]
    · simp [appendRun, appendClients, Interleave.step, AppendClient.act, KvTable.kvAppend,
        KvTable.createUnless, hstr, hwr, hret, obj]

/-! ## No update is lost -/

/-- For any number of clients on one key that is absent or a string, and
for any order of their sections: as long as every section is safe, the
number of the key is what it was plus the deltas of the INCRBY calls that
returned 0, and its string what it was followed by the suffixes of the
APPEND calls that returned 0. -/
theorem updates_not_lost [LinearOrder S] (path : Option CStr) (file : Option (List UInt8))
    (ops : List (StoreOp S)) (key : CStr) (db : KvTable S)
    (hdb : db = KvTable.storeRun path file ops) (hkey : db.StringOrAbsent key)
    (sched : List (Nat × Calloc)) :
    (∀ calls, IncrsSafely key db calls sched →
      ∀ n, KvTable.Summed key db (incrRun key db calls (sched.take n)).shared
        (credited IncrClient.credit (incrRun key db calls (sched.take n)))) ∧
    (∀ calls, AppendsSafely key db calls sched →
      ∀ n, KvTable.Appended key db (appendRun key db calls (sched.take n)).shared
        (credited AppendClient.credit (appendRun key db calls (sched.take n)))) := by
  have hwf : db.Wf := hdb ▸ KvTable.Wf.storeRun path file ops
  constructor
  · intro calls hsafe n
    refine ((KvTable.books_incr key db).run (Run.Guarded.take hsafe n) ?_).summed
    have hnone : credited IncrClient.credit (incrClients db calls) = [] := by
      simp [credited, incrClients, IncrClient.credit]
    rw [hnone]
    exact ⟨hwf, hkey, by simp [incrClients], by simp⟩
  · intro calls hsafe n
    refine ((KvTable.books_append key db).run (Run.Guarded.take hsafe n) ?_).appended
    have hnone : credited AppendClient.credit (appendClients db calls) = [] := by
      simp [credited, appendClients, AppendClient.credit]
    rw [hnone]
    exact ⟨hwf, hkey, ⟨[], .refl _, by simp [appendClients]⟩, by simp⟩

/-- A table that was opened without a file. -/
def newTable : KvTable Int := .storeRun none none []

/-- Two calls one after the other: the first goes through its four
sections, then the second finds the key. -/
def inTurn : List (Nat × Calloc) :=
  [(0, true), (0, true), (0, true), (0, true), (1, true), (1, true)]

theorem updates_not_lost_inTurn :
    newTable.StringOrAbsent (.lit "n") ∧
    IncrsSafely (.lit "n") newTable [(1, 0), (2, 0)] inTurn ∧
    AppendsSafely (.lit "n") newTable [(.lit "a", 0), (.lit "b", 0)] inTurn ∧
    (incrRun (.lit "n") newTable [(1, 0), (2, 0)] (inTurn.take 6)).shared.numberAt (.lit "n")
      = newTable.numberAt (.lit "n") + [1, 2].sum := by
  have hkey : newTable.StringOrAbsent (.lit "n") := by decide
  have hincr : IncrsSafely (.lit "n") newTable [(1, 0), (2, 0)] inTurn := by decide
  have happend : AppendsSafely (.lit "n") newTable [(.lit "a", 0), (.lit "b", 0)] inTurn := by
    decide
  have hsum := (updates_not_lost none none [] (.lit "n") newTable rfl hkey inTurn).1 _ hincr 6
  have hcred : credited IncrClient.credit
      (incrRun (.lit "n") newTable [(1, 0), (2, 0)] (inTurn.take 6)) = [1, 2] := by
    decide
  rw [hcred] at hsum
  exact ⟨hkey, hincr, happend, hsum.1⟩

/-- Both clients look for the key before either has created it. The first
one then goes through to the end, and the second puts its "0" in place of
the "1". -/
def bothMiss : List (Nat × Calloc) :=
  [(0, true), (1, true), (0, true), (0, true), (0, true), (1, true), (1, true), (1, true)]

/-- Two INCR calls on an absent key both return 0, and the key holds 1. -/
theorem incr_over_incr_loses_update :
    newTable.StringOrAbsent (.lit "n") ∧
    (incrRun (.lit "n") newTable [(1, 0), (1, 0)] bothMiss).clients.map IncrClient.credit
      = [some 1, some 1] ∧
    (incrRun (.lit "n") newTable [(1, 0), (1, 0)] bothMiss).shared.numberAt (.lit "n") = 1 ∧
    ¬ KvTable.Summed (.lit "n") newTable (incrRun (.lit "n") newTable [(1, 0), (1, 0)] bothMiss).shared
      (credited IncrClient.credit (incrRun (.lit "n") newTable [(1, 0), (1, 0)] bothMiss)) := by
  decide

end AntzKV
