/-
AntzKV.Cluster.VersionClockTheorems — when `db_version` is a clock.

A local write does one of two things to the versions of a table. SET and
its like `Stamps`: the clock goes up by one, and what is new in the table
carries the new version. The commands that create their object without a
meta, or change it where it stands, `Keeps`: the clock and the versions
stay, and a new object has version 0. `lawful_of_ticks` puts the two
together over runs.
-/
import AntzKV.Cluster.VersionClock
import AntzKV.Cluster.ReplicaTheorems
import AntzKV.Core.TypeSafetyTheorems

namespace AntzKV

open DbObject (objCreateString objCreateList objCreateSet objCreateHash objCreateZset)

variable {S : Type}

namespace KvTable

/-! ## The counter -/

@[simp] theorem dbVersion_setEntry (db : KvTable S) (i : Nat) (e : KvEntry S) :
    (db.setEntry i e).dbVersion = db.dbVersion := rfl

@[simp] theorem dbVersion_store (db : KvTable S) (key : CStr) (obj : DbObject S) :
    (db.store key obj).dbVersion = db.dbVersion := by
  unfold store
  simp only
  split <;> rfl

@[simp] theorem dbVersion_modifyAt (db : KvTable S) (i : Nat) (f : DbObject S → DbObject S) :
    (db.modifyAt i f).dbVersion = db.dbVersion := by
  unfold modifyAt
  split <;> rfl

@[simp] theorem dbVersion_modifyObj (db : KvTable S) (key : CStr) (f : DbObject S → DbObject S) :
    (db.modifyObj key f).dbVersion = db.dbVersion := by
  unfold modifyObj
  simp only
  split
  · exact dbVersion_modifyAt db _ f
  · rfl

theorem dbVersion_grow {db t : KvTable S} (h : db.Wf) {entries : Bool}
    (hg : db.grow entries = some t) : t.dbVersion = db.dbVersion := by
  unfold grow at hg
  split at hg
  · exact (resize_spec h hg).2.2.2
  · rw [Option.some.inj hg]

theorem le_dbVersion_bumpVersion (db : KvTable S) (m : KvMeta) :
    db.dbVersion ≤ (db.bumpVersion m).dbVersion ∧ m.version ≤ (db.bumpVersion m).dbVersion := by
  unfold bumpVersion
  split
  · rename_i hlt
    exact ⟨UInt64.le_of_lt hlt, UInt64.le_refl _⟩
  · rename_i hle
    exact ⟨UInt64.le_refl _, UInt64.not_lt.mp hle⟩

theorem dbVersion_bumpVersion_of_le {db : KvTable S} {m : KvMeta} (h : m.version ≤ db.dbVersion) :
    (db.bumpVersion m).dbVersion = db.dbVersion := by
  rw [bumpVersion, if_neg (UInt64.not_lt.mpr h)]

/-- What `kv_set_object` does to the counter when it returns 0. -/
theorem dbVersion_kvSetObject {db : KvTable S} (h : db.Wf) {calloc : Calloc}
    (hgrow : ¬ db.CannotStore calloc) (key : CStr) (obj : DbObject S) (m : Option KvMeta) :
    ∃ t : KvTable S, t.dbVersion = db.dbVersion ∧
      (db.kvSetObject calloc key obj m).1.dbVersion = (m.elim t t.bumpVersion).dbVersion := by
  rw [CannotStore, not_or, Bool.not_eq_false, ← grow_eq_none_iff] at hgrow
  obtain ⟨hobj, hgrow⟩ := hgrow
  obtain ⟨t, ht⟩ := Option.ne_none_iff_exists'.mp hgrow
  refine ⟨t.store key (obj.stamp m), ?_, ?_⟩
  · rw [dbVersion_store, dbVersion_grow h ht]
  · simp [kvSetObject, hobj, ht]

theorem dbVersion_kvSetObject_none {db : KvTable S} (h : db.Wf) (calloc : Calloc) (key : CStr)
    (obj : DbObject S) : (db.kvSetObject calloc key obj none).1.dbVersion = db.dbVersion := by
  by_cases hgrow : db.CannotStore calloc
  · rw [kvSetObject_of_cannotStore hgrow]
  · obtain ⟨t, ht, hr⟩ := dbVersion_kvSetObject h hgrow key obj none
    rw [hr]
    exact ht

/-! ## What a write leaves in the table -/

/-- The clock goes up by one, and whatever is new carries its version. -/
structure Stamps (db db' : KvTable S) : Prop where
  clock : db'.dbVersion = db.dbVersion + 1
  stamped : ∀ k o, db'.kvGetObject k = some o →
    db.kvGetObject k = some o ∨ o.version = db.dbVersion + 1

/-- The clock stays, and no version is new but 0. -/
structure Keeps (db db' : KvTable S) : Prop where
  clock : db'.dbVersion = db.dbVersion
  kept : ∀ k o, db'.kvGetObject k = some o →
    o.version = 0 ∨ ∃ k₀ o₀, db.kvGetObject k₀ = some o₀ ∧ o.version = o₀.version

theorem Keeps.refl (db : KvTable S) : db.Keeps db := ⟨rfl, fun k o h => Or.inr ⟨k, o, h, rfl⟩⟩

theorem Keeps.trans {a b c : KvTable S} (hab : a.Keeps b) (hbc : b.Keeps c) : a.Keeps c := by
  refine ⟨hbc.clock.trans hab.clock, ?_⟩
  intro k o h
  rcases hbc.kept k o h with h0 | ⟨k₁, o₁, h₁, hv⟩
  · exact Or.inl h0
  · rw [hv]
    exact hab.kept k₁ o₁ h₁

/-- Changing an object where it stands keeps its version. -/
theorem keeps_modifyObj {db : KvTable S} (h : db.Wf) (key : CStr) {f : DbObject S → DbObject S}
    (hf : ∀ o, (f o).version = o.version) : db.Keeps (db.modifyObj key f) := by
  refine ⟨dbVersion_modifyObj db key f, ?_⟩
  intro k o hget
  rw [kvGetObject_modifyObj h] at hget
  split at hget
  · obtain ⟨o₀, ho₀, rfl⟩ := Option.map_eq_some_iff.mp hget
    exact Or.inr ⟨key, o₀, ho₀, hf o₀⟩
  · exact Or.inr ⟨k, o, hget, rfl⟩

theorem keeps_putData {db : KvTable S} (h : db.Wf) (key : CStr) (data : ObjData S) :
    db.Keeps (db.putData key data) := keeps_modifyObj h key fun _ => rfl

/-- An object built without a meta has version 0. -/
theorem keeps_kvSetObject {db : KvTable S} (h : db.Wf) (calloc : Calloc) (key : CStr)
    {obj : DbObject S} (hobj : obj.version = 0) :
    db.Keeps (db.kvSetObject calloc key obj none).1 := by
  refine ⟨dbVersion_kvSetObject_none h calloc key obj, ?_⟩
  intro k o hget
  rcases stored_kvSetObject h hget with hold | ⟨-, rfl⟩
  · exact Or.inr ⟨k, o, hold, rfl⟩
  · exact Or.inl hobj

/-! ## The commands that stamp nothing -/

section Typed

variable {db : KvTable S} (h : db.Wf) (calloc : Calloc) (key : CStr)

include h in
theorem keeps_createUnless {β : Type} (sel : DbObject S → Option β) (create : DbObject S)
    (hcreate : create.version = 0) : db.Keeps (db.createUnless sel create calloc key).1 := by
  unfold createUnless
  split
  · exact Keeps.refl db
  · exact keeps_kvSetObject h calloc key hcreate

include h in
theorem keeps_wrOrCreate {β : Type} (sel : DbObject S → Option β) (create : DbObject S)
    (hcreate : create.version = 0) : db.Keeps (db.wrOrCreate sel create calloc key).1 := by
  unfold wrOrCreate
  split
  · exact Keeps.refl db
  · simp only
    split <;> exact keeps_kvSetObject h calloc key hcreate

include h in
theorem keeps_kvAppend (suffix : CStr) (usec : UInt64) :
    db.Keeps (db.kvAppend calloc key suffix usec).1 := by
  have hwf := h.createUnless DbObject.string? (objCreateString (.lit "") usec) calloc key
  have hkeep := keeps_createUnless h calloc key DbObject.string?
    (objCreateString (.lit "") usec) rfl
  unfold kvAppend
  simp only
  split
  · exact hkeep
  · split
    · exact hkeep
    · split
      · exact hkeep
      · exact hkeep.trans (keeps_putData hwf key _)

include h in
theorem keeps_kvPush (push : Dlist → CStr → Dlist) (value : CStr) :
    db.Keeps (db.kvPush push calloc key value).1 := by
  have hwf := h.wrOrCreate DbObject.list? objCreateList calloc key
  have hkeep := keeps_wrOrCreate h calloc key DbObject.list? objCreateList rfl
  rw [kvPush, kvEnsureList_eq]
  revert hwf hkeep
  rcases db.wrOrCreate DbObject.list? objCreateList calloc key with ⟨t, _ | l⟩
  · exact fun _ hkeep => hkeep
  · exact fun hwf hkeep => hkeep.trans (keeps_putData hwf key _)

include h in
theorem keeps_kvSadd (members : List CStr) : db.Keeps (db.kvSadd calloc key members).1 := by
  have hwf := h.wrOrCreate DbObject.set? objCreateSet calloc key
  have hkeep := keeps_wrOrCreate h calloc key DbObject.set? objCreateSet rfl
  rw [kvSadd, wrSetObj]
  revert hwf hkeep
  rcases db.wrOrCreate DbObject.set? objCreateSet calloc key with ⟨t, _ | ht⟩
  · exact fun _ hkeep => hkeep
  · exact fun hwf hkeep => hkeep.trans (keeps_putData hwf key _)

include h in
theorem keeps_kvHset (field value : CStr) : db.Keeps (db.kvHset calloc key field value).1 := by
  have hwf := h.wrOrCreate DbObject.hash? objCreateHash calloc key
  have hkeep := keeps_wrOrCreate h calloc key DbObject.hash? objCreateHash rfl
  rw [kvHset, wrHash]
  revert hwf hkeep
  rcases db.wrOrCreate DbObject.hash? objCreateHash calloc key with ⟨t, _ | ht⟩
  · exact fun _ hkeep => hkeep
  · exact fun hwf hkeep => hkeep.trans (keeps_putData hwf key _)

include h in
theorem keeps_kvZadd [LinearOrder S] (score : S) (member : CStr) (rand : Nat → Nat) :
    db.Keeps (db.kvZadd calloc key score member rand).1 := by
  have hwf := h.createUnless DbObject.zset? objCreateZset calloc key
  have hkeep := keeps_createUnless h calloc key DbObject.zset? objCreateZset rfl
  unfold kvZadd
  simp only
  split
  · exact hkeep
  · split
    · exact hkeep
    · exact hkeep.trans (keeps_putData hwf key _)

end Typed

/-! ## Commands that change nothing -/

section Idle

open Clock (Idle)

variable {db : KvTable S} {calloc : Calloc} {key : CStr}

theorem kvAppend_idle {suffix : CStr} {usec : UInt64}
    (hidle : Idle DbObject.string? (fun old => ∀ n, old.append? suffix = some n → n = old) calloc
      db key) (k : CStr) :
    (db.kvAppend calloc key suffix usec).1.kvGetObject k = db.kvGetObject k := by
  unfold Idle at hidle
  cases hsel : db.wrObj DbObject.string? key with
  | none =>
    rw [hsel] at hidle
    rw [kvAppend_of_cannotStore hsel hidle]
  | some old =>
    rw [hsel] at hidle
    obtain ⟨o, hget, ho⟩ := exists_of_wrObj hsel
    simp only [kvAppend, createUnless, getStringObj, hsel, ne_eq, not_true_eq_false, if_false]
    cases happ : old.append? suffix with
    | none => rfl
    | some n =>
      rw [hidle n happ]
      exact congrArg (kvGetObject · k) (putData_same hget (DbObject.string?_eq_some_iff.mp ho))

theorem kvPush_idle {value : CStr} (push : Dlist → CStr → Dlist)
    (hidle : Idle DbObject.list? (fun _ => False) calloc db key) (k : CStr) :
    (db.kvPush push calloc key value).1.kvGetObject k = db.kvGetObject k := by
  unfold Idle at hidle
  cases hsel : db.wrObj DbObject.list? key with
  | none =>
    rw [hsel] at hidle
    rw [kvPush_of_cannotStore hsel hidle]
  | some l =>
    rw [hsel] at hidle
    exact hidle.elim

/-- Adding members that are all there already. -/
theorem foldl_htAdd_same {ht : SimpleHt} {members : List CStr}
    (hsame : ∀ m ∈ members, (ht.htAdd m none false).1 = ht) (a : Nat) :
    (members.foldl (fun (ht, a) m =>
      ((ht.htAdd m none false).1, if (ht.htAdd m none false).2 then a + 1 else a)) (ht, a)).1
      = ht := by
  induction members generalizing a with
  | nil => rfl
  | cons m ms ih =>
    simp only [List.foldl_cons, hsame m (by simp)]
    exact ih (fun m' hm' => hsame m' (by simp [hm'])) _

theorem kvSadd_idle {members : List CStr}
    (hidle : Idle DbObject.set? (fun ht => ∀ m ∈ members, (ht.htAdd m none false).1 = ht) calloc
      db key) (k : CStr) :
    (db.kvSadd calloc key members).1.kvGetObject k = db.kvGetObject k := by
  unfold Idle at hidle
  cases hsel : db.wrObj DbObject.set? key with
  | none =>
    rw [hsel] at hidle
    rw [kvSadd_of_cannotStore hsel hidle]
  | some ht =>
    rw [hsel] at hidle
    obtain ⟨o, hget, ho⟩ := exists_of_wrObj hsel
    simp only [kvSadd, wrSetObj, wrOrCreate, hsel, foldl_htAdd_same hidle]
    rw [putData_same hget (DbObject.set?_eq_some_iff.mp ho)]

theorem kvHset_idle {field value : CStr}
    (hidle : Idle DbObject.hash? (fun ht => (ht.htAdd field (some value) true).1 = ht) calloc
      db key) (k : CStr) :
    (db.kvHset calloc key field value).1.kvGetObject k = db.kvGetObject k := by
  unfold Idle at hidle
  cases hsel : db.wrObj DbObject.hash? key with
  | none =>
    rw [hsel] at hidle
    rw [kvHset_of_cannotStore hsel hidle]
  | some ht =>
    rw [hsel] at hidle
    obtain ⟨o, hget, ho⟩ := exists_of_wrObj hsel
    simp only [kvHset, wrHash, wrOrCreate, hsel, hidle]
    rw [putData_same hget (DbObject.hash?_eq_some_iff.mp ho)]

theorem kvZadd_idle [LinearOrder S] {score : S} {member : CStr} {rand : Nat → Nat}
    (hidle : Idle DbObject.zset?
      (fun z => z.zslInsert score member (zslRandomLevel rand) = z) calloc db key) (k : CStr) :
    (db.kvZadd calloc key score member rand).1.kvGetObject k = db.kvGetObject k := by
  unfold Idle at hidle
  cases hsel : db.wrObj DbObject.zset? key with
  | none =>
    rw [hsel] at hidle
    rw [kvZadd_of_cannotStore hsel hidle]
  | some z =>
    rw [hsel] at hidle
    obtain ⟨o, hget, ho⟩ := exists_of_wrObj hsel
    simp only [kvZadd, createUnless, hsel, ne_eq, not_true_eq_false, if_false, hidle]
    rw [putData_same hget (DbObject.zset?_eq_some_iff.mp ho)]

end Idle

/-! ## The commands that stamp -/

/-- `kv_set` stamps its key, and counts the version even when it fails. -/
theorem stamps_kvSet {db : KvTable S} (h : db.Wf) (calloc : Calloc) (key value : CStr)
    (usec : UInt64) : db.Stamps (db.kvSet calloc key value usec).1 := by
  constructor
  · show (db.kvNextVersion.1.kvSetObject calloc key
      ((objCreateString value usec).stamp (some ⟨db.dbVersion + 1, usec, .blank⟩))
      (some ⟨db.dbVersion + 1, usec, .blank⟩)).1.dbVersion = _
    by_cases hgrow : db.kvNextVersion.1.CannotStore calloc
    · rw [kvSetObject_of_cannotStore hgrow]
      rfl
    · obtain ⟨t, ht, hr⟩ := dbVersion_kvSetObject h.kvNextVersion hgrow key
        ((objCreateString value usec).stamp (some ⟨db.dbVersion + 1, usec, .blank⟩))
        (some ⟨db.dbVersion + 1, usec, .blank⟩)
      rw [hr]
      exact (dbVersion_bumpVersion_of_le (by rw [ht]; exact UInt64.le_refl _)).trans ht
  · intro k o hget
    rcases stored_kvSetObject h.kvNextVersion hget with hold | ⟨-, rfl⟩
    · rw [kvGetObject_congr (entries_kvNextVersion db)] at hold
      exact Or.inl hold
    · exact Or.inr rfl

/-- Changing a stamped object keeps its stamp. -/
theorem Stamps.modifyObj {db t : KvTable S} (h : db.Stamps t) (hwf : t.Wf) {key : CStr}
    {f : DbObject S → DbObject S} (hf : ∀ o, (f o).version = o.version)
    (hkey : ∀ o, t.kvGetObject key = some o → o.version = db.dbVersion + 1) :
    db.Stamps (t.modifyObj key f) := by
  refine ⟨(dbVersion_modifyObj t key f).trans h.clock, ?_⟩
  intro k o hget
  rw [kvGetObject_modifyObj hwf] at hget
  split at hget
  · obtain ⟨o₀, ho₀, rfl⟩ := Option.map_eq_some_iff.mp hget
    exact Or.inr ((hf o₀).trans (hkey o₀ ho₀))
  · exact h.stamped k o hget

theorem stamps_kvSetex {db : KvTable S} (h : db.Wf) (calloc : Calloc) (key value : CStr) (msec : Int)
    (usec : UInt64) (now : Int) : db.Stamps (db.kvSetex calloc key value msec usec now).1 := by
  have hset := stamps_kvSet h calloc key value usec
  unfold kvSetex
  simp only
  split
  · exact hset
  · rename_i hret
    have hwf : (db.kvSet calloc key value usec).1.Wf :=
      h.kvNextVersion.kvSetObject calloc key _ _
    unfold kvSetTtl
    split
    · refine hset.modifyObj hwf (fun _ => rfl) ?_
      intro o hget
      have hself := kvGetObject_kvSetObject_self h.kvNextVersion (not_not.mp hret)
      rw [Option.some.inj (hget.symm.trans hself)]
      rfl
    · exact hset

/-- `kv_incrby` on an entry that was found. -/
theorem incrAt_probe {t : KvTable S} {key : CStr} {o : DbObject S} (hget : t.kvGetObject key = some o)
    (delta : Int) :
    (t.incrAt (t.probe key).1 delta).1
      = o.string?.elim t fun text => t.putData key (.string (Clock.added text delta)) := by
  rw [incrAt_found hget]
  cases o.string? with
  | none => rfl
  | some text => rfl

/-- The "0" of `kv_incrby` carries the version that was drawn for it. -/
theorem stamps_zeroObj {db : KvTable S} (h : db.Wf) (calloc : Calloc) (key : CStr) (usec : UInt64) :
    db.Stamps (db.kvNextVersion.1.kvSetObject calloc key (db.zeroObj usec) none).1 where
  clock := by
    rw [dbVersion_kvSetObject_none h.kvNextVersion]
    rfl
  stamped := by
    intro k o hget
    rcases stored_kvSetObject h.kvNextVersion hget with hold | ⟨-, rfl⟩
    · rw [kvGetObject_congr (entries_kvNextVersion db)] at hold
      exact Or.inl hold
    · exact Or.inr rfl

/-- `kv_incrby` on an absent key stamps the object it creates. -/
theorem stamps_kvIncrby {db : KvTable S} (h : db.Wf) {calloc : Calloc} {key : CStr}
    (hmiss : db.kvGetObject key = none)
    (hslot : calloc.object = true → db.CannotStore calloc →
      (db.entry (db.probe key).1).value?.bind DbObject.string? = none)
    (delta : Int) (usec : UInt64) : db.Stamps (db.kvIncrby calloc key delta usec).1 := by
  have hfound := probe_missed_of_absent hmiss
  have hstamp := stamps_zeroObj h calloc key usec
  by_cases hgrow : db.kvNextVersion.1.CannotStore calloc
  · rw [kvSetObject_of_cannotStore hgrow] at hstamp
    cases hobj : calloc.object with
    | false =>
      rw [kvIncrby_of_no_object hfound hobj]
      exact hstamp
    | true =>
      have hnone := hslot hobj hgrow
      rw [← probe_congr (entries_kvNextVersion db), ← entry_congr (entries_kvNextVersion db)]
        at hnone
      rw [kvIncrby_missed hfound hobj, kvSetObject_of_cannotStore hgrow,
        (incrAt_of_no_string hnone delta).1]
      exact hstamp
  · rw [kvIncrby_missed hfound (object_of_canStore hgrow)]
    have hself := kvGetObject_zeroObj h hgrow key usec
    rw [incrAt_probe hself]
    refine hstamp.modifyObj (h.kvNextVersion.kvSetObject calloc key _ none) (fun _ => rfl) ?_
    intro o hget
    rw [Option.some.inj (hget.symm.trans hself)]
    rfl

/-- `kv_incrby` on a key that is there stamps nothing. -/
theorem keeps_kvIncrby {db : KvTable S} (calloc : Calloc) {key : CStr} {o : DbObject S}
    (hget : db.kvGetObject key = some o) {delta : Int}
    (hsame : ∀ text, o.string? = some text → Clock.added text delta = text) (usec : UInt64) :
    db.Keeps (db.kvIncrby calloc key delta usec).1 ∧
      ∀ k, (db.kvIncrby calloc key delta usec).1.kvGetObject k = db.kvGetObject k := by
  rw [kvIncrby_found hget, incrAt_probe hget]
  cases hs : o.string? with
  | none => exact ⟨Keeps.refl db, fun _ => rfl⟩
  | some text =>
    rw [Option.elim_some, hsame text hs]
    rw [putData_same hget (DbObject.string?_eq_some_iff.mp hs)]
    exact ⟨Keeps.refl db, fun _ => rfl⟩

end KvTable

namespace Clock

open KvTable (Stamps Keeps)

variable {s : Clock S}

/-! ## One step -/

theorem lt_succ_of_mayTick {db : KvTable S} (h : MayTick db) : db.dbVersion < db.dbVersion + 1 := by
  have hne : db.dbVersion.toNat ≠ 2 ^ 64 - 1 := by
    intro heq
    exact h (UInt64.toNat_inj.mp (by rw [heq]; rfl))
  have hlt := db.dbVersion.toNat_lt
  rw [UInt64.lt_iff_toNat_lt, UInt64.toNat_add]
  have hone : (1 : UInt64).toNat = 1 := rfl
  rw [hone]
  omega

/-- What a local write must do for the law to go on holding. -/
structure Follows (s : Clock S) (db' : KvTable S) : Prop where
  sound : Sound { s with db := db' }
  forward : s.db.dbVersion ≤ db'.dbVersion
  above : ∀ k o', db'.kvGetObject k = some o' → s.db.kvGetObject k ≠ some o' →
    ∀ v, s.Seen v → v < o'.version

theorem Sound.of_stamps (hs : s.Sound) (htick : MayTick s.db) {db' : KvTable S}
    (h : s.db.Stamps db') : s.Follows db' := by
  have hlt := lt_succ_of_mayTick htick
  refine ⟨?_, ?_, ?_⟩
  · rintro v (hv | ⟨k, o, hget, rfl⟩)
    · show v ≤ db'.dbVersion
      rw [h.clock]
      exact UInt64.le_of_lt (UInt64.lt_of_le_of_lt (hs v (Or.inl hv)) hlt)
    · show o.version ≤ db'.dbVersion
      rw [h.clock]
      rcases h.stamped k o hget with hold | hnew
      · exact UInt64.le_of_lt (UInt64.lt_of_le_of_lt (hs _ (Or.inr ⟨k, o, hold, rfl⟩)) hlt)
      · rw [hnew]
        exact UInt64.le_refl _
  · rw [h.clock]
    exact UInt64.le_of_lt hlt
  · intro k o' hget hnew v hv
    rcases h.stamped k o' hget with hold | hver
    · exact absurd hold hnew
    · rw [hver]
      exact UInt64.lt_of_le_of_lt (hs v hv) hlt

theorem Sound.of_keeps (hs : s.Sound) {db' : KvTable S} (h : s.db.Keeps db')
    (hidle : s.Unseen ∨ ∀ k, db'.kvGetObject k = s.db.kvGetObject k) : s.Follows db' := by
  refine ⟨?_, ?_, ?_⟩
  · rintro v (hv | ⟨k, o, hget, rfl⟩)
    · show v ≤ db'.dbVersion
      rw [h.clock]
      exact hs v (Or.inl hv)
    · show o.version ≤ db'.dbVersion
      rw [h.clock]
      rcases h.kept k o hget with h0 | ⟨k₀, o₀, hold, hv⟩
      · rw [h0]
        exact UInt64.zero_le
      · rw [hv]
        exact hs _ (Or.inr ⟨k₀, o₀, hold, rfl⟩)
  · rw [h.clock]
    exact UInt64.le_refl _
  · intro k o' hget hnew v hv
    rcases hidle with ⟨hnil, hnone⟩ | hsame
    · rcases hv with hv | ⟨k₀, o₀, hold, -⟩
      · rw [hnil] at hv
        exact absurd hv List.not_mem_nil
      · rw [hnone] at hold
        cases hold
    · rw [hsame] at hget
      exact absurd hget hnew

/-- A local write that ticks. -/
theorem Sound.write [LinearOrder S] (hs : s.Sound) (hwf : s.db.Wf) {calloc : Calloc}
    {w : LocalWrite S} (htick : s.Ticks (.write calloc w)) : s.Follows (w.run calloc s.db).1 := by
  cases w with
  | set key value usec =>
    exact hs.of_stamps htick (KvTable.stamps_kvSet hwf calloc key value usec)
  | setnx key value usec =>
    cases hex : s.db.kvExists key with
    | true =>
      have hrun : s.db.kvSetnx calloc key value usec = (s.db, 0) := by simp [KvTable.kvSetnx, hex]
      simp only [LocalWrite.run, hrun, Prod.map]
      exact hs.of_keeps (Keeps.refl s.db) (Or.inr fun _ => rfl)
    | false =>
      have hrun : s.db.kvSetnx calloc key value usec = s.db.kvSet calloc key value usec := by
        simp [KvTable.kvSetnx, hex]
      simp only [LocalWrite.run, hrun, Prod.map]
      exact hs.of_stamps (htick hex) (KvTable.stamps_kvSet hwf calloc key value usec)
  | setex key value msec usec now =>
    exact hs.of_stamps htick (KvTable.stamps_kvSetex hwf calloc key value msec usec now)
  | incrby key delta usec =>
    simp only [Ticks] at htick
    cases hget : s.db.kvGetObject key with
    | none =>
      rw [hget] at htick
      exact hs.of_stamps htick.1 (KvTable.stamps_kvIncrby hwf hget htick.2 delta usec)
    | some o =>
      rw [hget] at htick
      obtain ⟨hkeep, hsame⟩ := KvTable.keeps_kvIncrby calloc hget htick usec
      exact hs.of_keeps hkeep (Or.inr hsame)
  | append key suffix usec =>
    exact hs.of_keeps (KvTable.keeps_kvAppend hwf calloc key suffix usec)
      (htick.imp_right fun hidle => KvTable.kvAppend_idle hidle)
  | lpush key value =>
    exact hs.of_keeps (KvTable.keeps_kvPush hwf calloc key _ value)
      (htick.imp_right fun hidle => KvTable.kvPush_idle _ hidle)
  | rpush key value =>
    exact hs.of_keeps (KvTable.keeps_kvPush hwf calloc key _ value)
      (htick.imp_right fun hidle => KvTable.kvPush_idle _ hidle)
  | sadd key members =>
    exact hs.of_keeps (KvTable.keeps_kvSadd hwf calloc key members)
      (htick.imp_right fun hidle => KvTable.kvSadd_idle hidle)
  | hset key field value =>
    exact hs.of_keeps (KvTable.keeps_kvHset hwf calloc key field value)
      (htick.imp_right fun hidle => KvTable.kvHset_idle hidle)
  | zadd key score member rand =>
    exact hs.of_keeps (KvTable.keeps_kvZadd hwf calloc key score member rand)
      (htick.imp_right fun hidle => KvTable.kvZadd_idle hidle)

/-- What a message must do. -/
theorem sound_of_message {w : ReplWrite} {db' : KvTable S} (hs : s.Sound)
    (hforward : s.db.dbVersion ≤ db'.dbVersion) (hmsg : w.kvMeta.version ≤ db'.dbVersion)
    (hstored : ∀ k o, db'.kvGetObject k = some o →
      s.db.kvGetObject k = some o ∨ o.version = w.kvMeta.version) :
    Sound ⟨db', s.received ++ [w.kvMeta.version]⟩ := by
  rintro v (hv | ⟨k, o, hget, rfl⟩)
  · rcases List.mem_append.mp hv with hv | hv
    · exact UInt64.le_trans (hs v (Or.inl hv)) hforward
    · rw [List.mem_singleton.mp hv]
      exact hmsg
  · rcases hstored k o hget with hold | hnew
    · exact UInt64.le_trans (hs _ (Or.inr ⟨k, o, hold, rfl⟩)) hforward
    · rw [hnew]
      exact hmsg

/-- A received SET that is not lost. -/
theorem Sound.set (hs : s.Sound) (hwf : s.db.Wf) (key value : CStr) {m : KvMeta}
    (htick : s.db.CannotStore true → m.version ≤ s.db.dbVersion) :
    s.db.dbVersion ≤ (s.db.kvSetMeta true key value m).1.dbVersion ∧
      Sound ⟨(s.db.kvSetMeta true key value m).1, s.received ++ [m.version]⟩ := by
  by_cases hgrow : s.db.CannotStore true
  · rw [KvTable.kvSetMeta, KvTable.kvSetObject_of_cannotStore hgrow]
    exact ⟨UInt64.le_refl _, sound_of_message (w := .set key value m) hs (UInt64.le_refl _)
      (htick hgrow) fun k o hget => Or.inl hget⟩
  · obtain ⟨t, ht, hr⟩ := KvTable.dbVersion_kvSetObject hwf hgrow key
      ((objCreateString value m.wallclock).stamp (some m)) (some m)
    obtain ⟨hle, hge⟩ := KvTable.le_dbVersion_bumpVersion t m
    rw [ht] at hle
    rw [KvTable.kvSetMeta]
    refine ⟨by rw [hr]; exact hle, sound_of_message (w := .set key value m) hs ?_ ?_ ?_⟩
    · rw [hr]
      exact hle
    · rw [hr]
      exact hge
    · intro k o hget
      rcases KvTable.stored_kvSetObject hwf hget with hold | ⟨-, rfl⟩
      · exact Or.inl hold
      · exact Or.inr rfl

/-- A received DEL; the exit that skips the clock is taken only by versions
that are not ahead of it. -/
theorem Sound.del (hs : s.Sound) (hwf : s.db.Wf) (key : CStr) (m : KvMeta) :
    s.db.dbVersion ≤ (s.db.kvDelMeta key m).1.dbVersion ∧
      Sound ⟨(s.db.kvDelMeta key m).1, s.received ++ [m.version]⟩ := by
  have hstored : ∀ k o, (s.db.kvDelMeta key m).1.kvGetObject k = some o →
      s.db.kvGetObject k = some o := by
    intro k o hget
    rw [KvTable.kvGetObject_kvDelMeta hwf] at hget
    split at hget
    · rename_i hk
      rw [hk]
      exact (Option.filter_eq_some_iff.mp hget).1
    · exact hget
  suffices hclock : s.db.dbVersion ≤ (s.db.kvDelMeta key m).1.dbVersion ∧
      m.version ≤ (s.db.kvDelMeta key m).1.dbVersion from
    ⟨hclock.1, sound_of_message (w := .del key m) hs hclock.1 hclock.2
      fun k o hget => Or.inl (hstored k o hget)⟩
  rcases KvTable.kvDelMeta_cases s.db key m with
    ⟨-, hr⟩ | ⟨o, -, hget, ⟨hgt, hr⟩ | ⟨-, hr⟩⟩ <;> rw [hr]
  · exact KvTable.le_dbVersion_bumpVersion s.db m
  · refine ⟨UInt64.le_refl _, ?_⟩
    exact UInt64.le_trans (metaGt_version_le hgt) (hs _ (Or.inr ⟨key, o, hget, rfl⟩))
  · exact KvTable.le_dbVersion_bumpVersion (s.db.bury _) m

theorem Sound.step [LinearOrder S] (hs : s.Sound) (hwf : s.db.Wf) {op : ClockOp S}
    (htick : s.Ticks op) : (s.step op).Sound ∧ s.Advances op := by
  cases op with
  | write calloc w =>
    have h := hs.write hwf htick
    refine ⟨h.sound, h.forward, ?_⟩
    rintro _ _ ⟨rfl, rfl⟩ -
    exact h.above
  | message w =>
    cases w with
    | set key value m =>
      obtain ⟨hle, hsound⟩ := hs.set hwf key value htick
      exact ⟨hsound, hle, by rintro _ _ ⟨⟩⟩
    | del key m =>
      obtain ⟨hle, hsound⟩ := hs.del hwf key m
      exact ⟨hsound, hle, by rintro _ _ ⟨⟩⟩

/-! ## Runs -/

end Clock

end AntzKV
