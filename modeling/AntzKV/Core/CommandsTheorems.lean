/-
AntzKV.Core.CommandsTheorems — the commands that write keep every
reachable table well formed.

Writing a data structure back changes one object and no key
(`kvGetObject_modifyObj`), and a get-or-create helper is one
`kv_set_object` at most. So every command preserves `Wf`, and the runs of
all operations stay well formed (`Wf.storeRun`).
-/
import AntzKV.Core.Commands
import AntzKV.Core.TableRunTheorems

namespace AntzKV

open OpenAddressing (Slot Findable)
open DbObject (objCreateString objCreateList objCreateSet objCreateHash objCreateZset)

variable {S : Type}

namespace KvTable

/-! ## Objects changed where they stand -/

theorem modifyAt_of_occupied {db : KvTable S} {i : Nat} {k : CStr} {o : DbObject S}
    (hi : db.entry i = .occupied k o) (f : DbObject S → DbObject S) :
    db.modifyAt i f = db.setEntry i (.occupied k (f o)) := by
  simp [modifyAt, hi]

theorem modifyAt_cases (db : KvTable S) (i : Nat) (f : DbObject S → DbObject S) :
    db.modifyAt i f = db ∨ ∃ k o, db.entry i = .occupied k o ∧
      db.modifyAt i f = db.setEntry i (.occupied k (f o)) := by
  cases hi : db.entry i with
  | empty => exact Or.inl (by simp [modifyAt, hi])
  | deleted => exact Or.inl (by simp [modifyAt, hi])
  | occupied k o => exact Or.inr ⟨k, o, rfl, modifyAt_of_occupied hi f⟩

theorem setEntry_entry (db : KvTable S) (i : Nat) : db.setEntry i (db.entry i) = db := by
  have hset : db.entries.set i (db.entry i) = db.entries := by
    apply List.ext_getElem?
    intro j
    rw [List.getElem?_set, entry, List.getD_eq_getElem?_getD]
    by_cases hj : i = j
    · subst hj
      by_cases hlt : i < db.entries.length
      · simp [hlt]
      · simp [hlt]
    · simp [hj]
  rw [setEntry, hset]

/-- An object that the change leaves as it is leaves the table as it is. -/
theorem modifyObj_of_fixed {db : KvTable S} {key : CStr} {f : DbObject S → DbObject S}
    (hf : ∀ o, db.kvGetObject key = some o → f o = o) : db.modifyObj key f = db := by
  cases hp : (db.probe key).2 with
  | false => simp [modifyObj, hp]
  | true =>
    obtain ⟨o, hentry, ho⟩ := kvGetObject_of_found hp
    simp only [modifyObj, hp, if_true, modifyAt_of_occupied hentry, hf o ho]
    rw [← hentry, setEntry_entry]

/-- Writing data back that is already there. -/
theorem putData_same {db : KvTable S} {key : CStr} {o : DbObject S}
    (hget : db.kvGetObject key = some o) {data : ObjData S} (hdata : o.data = data) :
    db.putData key data = db := by
  apply modifyObj_of_fixed
  intro o' ho'
  obtain rfl := Option.some.inj (hget.symm.trans ho')
  rw [← hdata]

/-- The object behind a `wr_obj` that found one. -/
theorem exists_of_wrObj {β : Type} {sel : DbObject S → Option β} {db : KvTable S} {key : CStr}
    {b : β} (h : db.wrObj sel key = some b) : ∃ o, db.kvGetObject key = some o ∧ sel o = some b :=
  Option.bind_eq_some_iff.mp h

theorem Wf.modifyAt {db : KvTable S} (h : db.Wf) (i : Nat) (f : DbObject S → DbObject S) :
    (db.modifyAt i f).Wf := by
  rcases modifyAt_cases db i f with hr | ⟨k, o, hi, hr⟩ <;> rw [hr]
  · exact h
  · have hlt := lt_capacity_of_entry hi
    refine ⟨?_, ?_, ?_, ?_, ?_⟩
    · rw [capacity_setEntry]
      exact h.pow
    · rw [capacity_setEntry]
      exact h.addressable
    · rw [capacity_setEntry, entry_setEntry hlt]
      exact h.findable.replace hi (f o)
    · rw [occupied_setEntry hlt, hi]
      have := h.occupied_le
      have := occupied_pos hi
      simp only [Slot.isOccupied, if_true]
      show db.occupied - 1 + 1 ≤ db.count
      omega
    · rw [capacity_setEntry]
      exact h.load

theorem Wf.modifyObj {db : KvTable S} (h : db.Wf) (key : CStr) (f : DbObject S → DbObject S) :
    (db.modifyObj key f).Wf := by
  unfold KvTable.modifyObj
  cases hp : db.probe key with
  | mk idx found =>
    cases found with
    | false => exact h
    | true => exact h.modifyAt idx f

/-- The map after an object was changed in place. -/
theorem kvGetObject_modifyObj {db : KvTable S} (h : db.Wf) (key : CStr)
    (f : DbObject S → DbObject S) (k : CStr) :
    (db.modifyObj key f).kvGetObject k
      = if k = key then (db.kvGetObject key).map f else db.kvGetObject k := by
  cases hp : (db.probe key).2 with
  | false =>
    have hr : db.modifyObj key f = db := by simp [KvTable.modifyObj, hp]
    rw [hr, kvGetObject_of_missed hp]
    by_cases hk : k = key
    · rw [if_pos hk, hk, kvGetObject_of_missed hp]
      rfl
    · rw [if_neg hk]
  | true =>
    obtain ⟨o, ho, hget⟩ := kvGetObject_of_found hp
    have hr : db.modifyObj key f = db.setEntry (db.probe key).1 (.occupied key (f o)) := by
      simp only [KvTable.modifyObj, hp, if_true]
      exact modifyAt_of_occupied ho f
    rw [hr, hget, kvGetObject_eq_lookup, kvGetObject_eq_lookup, capacity_setEntry,
      entry_setEntry (lt_capacity_of_entry ho)]
    exact OpenAddressing.lookup_replace h.findable ho (f o) k

theorem Wf.putData {db : KvTable S} (h : db.Wf) (key : CStr) (data : ObjData S) :
    (db.putData key data).Wf := h.modifyObj key _

theorem kvGetObject_putData {db : KvTable S} (h : db.Wf) {key : CStr} {o : DbObject S}
    (hget : db.kvGetObject key = some o) (data : ObjData S) :
    (db.putData key data).kvGetObject key = some { o with data := data } := by
  rw [putData, kvGetObject_modifyObj h, if_pos rfl, hget]
  rfl

/-- What is found where a structure was written back. -/
theorem wrObj_putData {β β' : Type} {sel : DbObject S → Option β} {sel' : DbObject S → Option β'}
    {db : KvTable S} {key : CStr} {b : β} {b' : β'} {data : ObjData S} (hwf : db.Wf)
    (h : db.wrObj sel key = some b) (hdata : ∀ o : DbObject S,
      sel' { o with data := data } = some b') : (db.putData key data).wrObj sel' key = some b' := by
  obtain ⟨o, hget, -⟩ := exists_of_wrObj h
  rw [wrObj, kvGetObject_putData hwf hget, Option.bind_some, hdata]

/-- A `kv_set_object` that returns 0 has stored its object, room or not. -/
theorem kvGetObject_kvSetObject_self {db : KvTable S} (h : db.Wf) {calloc : Calloc} {key : CStr}
    {obj : DbObject S} {m : Option KvMeta} (hr : (db.kvSetObject calloc key obj m).2 = 0) :
    (db.kvSetObject calloc key obj m).1.kvGetObject key = some (obj.stamp m) := by
  have hr' : db.kvSetObject calloc key obj m = ((db.kvSetObject calloc key obj m).1, 0) :=
    Prod.ext rfl hr
  obtain ⟨t, hg, he, _⟩ := kvSetObject_eq_zero hr'
  obtain ⟨hwf, _, _, _⟩ := h.grow hg
  rw [kvGetObject_congr he, kvGetObject_store hwf.capacity_pos hwf.findable, if_pos rfl]

/-- An object found after `kv_set_object` is the one written, or was there
before. -/
theorem stored_kvSetObject {db : KvTable S} (h : db.Wf) {calloc : Calloc} {key : CStr}
    {obj : DbObject S} {m : Option KvMeta} {k : CStr} {o : DbObject S}
    (hget : (db.kvSetObject calloc key obj m).1.kvGetObject k = some o) :
    db.kvGetObject k = some o ∨ (k = key ∧ o = obj.stamp m) := by
  rcases kvSetObject_cases calloc db key obj m with hr | ⟨db', hr⟩
  · rw [hr] at hget
    exact Or.inl hget
  · rw [hr] at hget
    obtain ⟨t, hg, he, -⟩ := kvSetObject_eq_zero hr
    obtain ⟨hwf, -, hsame, -⟩ := h.grow hg
    rw [kvGetObject_congr he, kvGetObject_store hwf.capacity_pos hwf.findable] at hget
    split at hget
    · rename_i hk
      exact Or.inr ⟨hk, (Option.some.inj hget).symm⟩
    · split at hget
      · cases hget
      · rw [hsame] at hget
        exact Or.inl hget

/-! ## The two ways of `kv_incrby` -/

/-- The addition at the entry of a key that is there. -/
theorem incrAt_found {db : KvTable S} {key : CStr} {o : DbObject S}
    (hget : db.kvGetObject key = some o) (delta : Int) :
    db.incrAt (db.probe key).1 delta
      = o.string?.elim (db, .err) fun t =>
        let v := wrap64 (((Scanf.scanLld t.bytes).map (·.1)).getD 0 + delta)
        (db.putData key (.string (.ofBuf (Scanf.decimalInt v))), .ok v) := by
  have hfound : (db.probe key).2 = true := probe_found_iff.mpr ⟨o, hget⟩
  obtain ⟨o', hentry, hget'⟩ := kvGetObject_of_found hfound
  obtain rfl := Option.some.inj (hget'.symm.trans hget)
  cases hs : o'.string? with
  | none => simp [incrAt, hentry, Slot.value?, hs]
  | some text =>
    simp only [incrAt, hentry, Slot.value?, hs, Option.elim_some, putData, modifyObj, hfound, if_true]

/-- The addition at an entry that holds no string. -/
theorem incrAt_of_no_string {db : KvTable S} {i : Nat}
    (h : (db.entry i).value?.bind DbObject.string? = none) (delta : Int) :
    (db.incrAt i delta).1 = db ∧ ∀ v, (db.incrAt i delta).2 ≠ .ok v := by
  unfold incrAt
  cases hv : (db.entry i).value? with
  | none => simp
  | some o =>
    rw [hv] at h
    have hstr : o.string? = none := h
    simp [hstr]

theorem kvIncrby_found {db : KvTable S} {key : CStr} {o : DbObject S}
    (hget : db.kvGetObject key = some o) (calloc : Calloc) (delta : Int) (usec : UInt64) :
    db.kvIncrby calloc key delta usec = db.incrAt (db.probe key).1 delta := by
  have hfound : (db.probe key).2 = true := probe_found_iff.mpr ⟨o, hget⟩
  simp only [kvIncrby, hfound, if_true]

/-- The object `kv_incrby` creates for a key it does not find. -/
def zeroObj (db : KvTable S) (usec : UInt64) : DbObject S :=
  { DbObject.objCreateString (.lit "0") usec with version := db.dbVersion + 1 }

/-- With memory for it `kv_incrby` finds the object it creates. -/
theorem kvGetObject_zeroObj {db : KvTable S} (h : db.Wf) {calloc : Calloc}
    (hstore : ¬ db.CannotStore calloc) (key : CStr) (usec : UInt64) :
    (db.kvNextVersion.1.kvSetObject calloc key (db.zeroObj usec) none).1.kvGetObject key
      = some (db.zeroObj usec) := by
  have hnext : ¬ db.kvNextVersion.1.CannotStore calloc := hstore
  exact kvGetObject_kvSetObject_self h.kvNextVersion
    (kvSetObject_of_canStore hnext key (db.zeroObj usec) none)

/-- Without memory for the new object a version is drawn, and stored
through NULL. -/
theorem kvIncrby_of_no_object {db : KvTable S} {key : CStr} (hp : (db.probe key).2 = false)
    {calloc : Calloc} (hobj : calloc.object = false) (delta : Int) (usec : UInt64) :
    db.kvIncrby calloc key delta usec = (db.kvNextVersion.1, .segv) := by
  simp [kvIncrby, hp, hobj]

theorem kvIncrby_missed {db : KvTable S} {key : CStr} (hp : (db.probe key).2 = false)
    {calloc : Calloc} (hobj : calloc.object = true) (delta : Int) (usec : UInt64) :
    db.kvIncrby calloc key delta usec
      = (db.kvNextVersion.1.kvSetObject calloc key (db.zeroObj usec) none).1.incrAt
        ((db.kvNextVersion.1.kvSetObject calloc key (db.zeroObj usec) none).1.probe key).1 delta := by
  simp [kvIncrby, hp, hobj, zeroObj, kvNextVersion]

/-! ## Every command keeps the table well formed -/

theorem Wf.kvSetTtl {db : KvTable S} (h : db.Wf) (key : CStr) (ttl : Int) :
    (db.kvSetTtl key ttl).1.Wf := by
  unfold KvTable.kvSetTtl
  split
  · exact h.modifyObj key _
  · exact h

theorem Wf.incrAt {db : KvTable S} (h : db.Wf) (idx : Nat) (delta : Int) :
    (db.incrAt idx delta).1.Wf := by
  unfold KvTable.incrAt
  split
  · exact h
  · split
    · exact h
    · exact h.modifyAt idx _

theorem Wf.kvIncrby {db : KvTable S} (h : db.Wf) (calloc : Calloc) (key : CStr) (delta : Int)
    (usec : UInt64) : (db.kvIncrby calloc key delta usec).1.Wf := by
  unfold KvTable.kvIncrby
  cases hp : db.probe key with
  | mk idx found =>
    cases found with
    | true => exact h.incrAt idx delta
    | false =>
      simp only [Bool.false_eq_true, if_false]
      split
      · exact h.kvNextVersion
      · exact (h.kvNextVersion.kvSetObject calloc key _ _).incrAt _ delta

theorem Wf.createUnless {β : Type} {db : KvTable S} (h : db.Wf) (sel : DbObject S → Option β)
    (create : DbObject S) (calloc : Calloc) (key : CStr) :
    (db.createUnless sel create calloc key).1.Wf := by
  unfold KvTable.createUnless
  split
  · exact h
  · exact h.kvSetObject calloc key create none

theorem Wf.wrOrCreate {β : Type} {db : KvTable S} (h : db.Wf) (sel : DbObject S → Option β)
    (create : DbObject S) (calloc : Calloc) (key : CStr) :
    (db.wrOrCreate sel create calloc key).1.Wf := by
  unfold KvTable.wrOrCreate
  split
  · exact h
  · simp only
    split <;> exact h.kvSetObject calloc key create none

theorem Wf.kvAppend {db : KvTable S} (h : db.Wf) (calloc : Calloc) (key suffix : CStr)
    (usec : UInt64) : (db.kvAppend calloc key suffix usec).1.Wf := by
  have hset := h.createUnless DbObject.string? (objCreateString (.lit "") usec) calloc key
  unfold KvTable.kvAppend
  simp only
  split
  · exact hset
  · split
    · exact hset
    · split
      · exact hset
      · exact hset.putData key _

theorem kvEnsureList_eq (calloc : Calloc) (db : KvTable S) (key : CStr) :
    db.kvEnsureList calloc key = db.wrOrCreate DbObject.list? objCreateList calloc key := by
  unfold kvEnsureList wrOrCreate
  cases db.wrObj DbObject.list? key <;> rfl

theorem Wf.kvPush {db : KvTable S} (h : db.Wf) (push : Dlist → CStr → Dlist) (calloc : Calloc)
    (key value : CStr) : (db.kvPush push calloc key value).1.Wf := by
  have hset := h.wrOrCreate DbObject.list? objCreateList calloc key
  rw [KvTable.kvPush, kvEnsureList_eq]
  revert hset
  cases db.wrOrCreate DbObject.list? objCreateList calloc key with
  | mk t l =>
    intro hset
    cases l with
    | none => exact hset
    | some l => exact hset.putData key _

theorem Wf.kvPop {db : KvTable S} (h : db.Wf) (pop : Dlist → Dlist × Option CStr) (key : CStr) :
    (db.kvPop pop key).1.Wf := by
  unfold KvTable.kvPop
  split
  · exact h
  · exact h.putData key _

theorem Wf.kvLset {db : KvTable S} (h : db.Wf) (key : CStr) (idx : Int) (value : CStr) :
    (db.kvLset key idx value).1.Wf := by
  unfold KvTable.kvLset
  split
  · exact h
  · split
    · exact h
    · exact h.putData key _

theorem Wf.kvLrem {db : KvTable S} (h : db.Wf) (key : CStr) (count : Int) (value : CStr) :
    (db.kvLrem key count value).1.Wf := by
  unfold KvTable.kvLrem
  split
  · exact h
  · exact h.putData key _

theorem Wf.kvLpoprpush {db : KvTable S} (h : db.Wf) (calloc : Calloc) (src dst : CStr) :
    (db.kvLpoprpush calloc src dst).1.Wf := by
  have hpop := h.kvPop Dlist.dlistPopRight src
  unfold KvTable.kvLpoprpush
  rw [KvTable.kvRpop]
  revert hpop
  cases db.kvPop Dlist.dlistPopRight src with
  | mk t v =>
    intro hpop
    cases v with
    | none => exact hpop
    | some v => exact hpop.kvPush Dlist.dlistPushLeft calloc dst v

theorem Wf.kvSadd {db : KvTable S} (h : db.Wf) (calloc : Calloc) (key : CStr)
    (members : List CStr) : (db.kvSadd calloc key members).1.Wf := by
  have hset := h.wrOrCreate DbObject.set? objCreateSet calloc key
  rw [KvTable.kvSadd, KvTable.wrSetObj]
  revert hset
  cases db.wrOrCreate DbObject.set? objCreateSet calloc key with
  | mk t ht =>
    intro hset
    cases ht with
    | none => exact hset
    | some ht => exact hset.putData key _

theorem Wf.kvSrem {db : KvTable S} (h : db.Wf) (key : CStr) (members : List CStr) :
    (db.kvSrem key members).1.Wf := by
  unfold KvTable.kvSrem
  split
  · exact h
  · exact h.putData key _

theorem Wf.kvHset {db : KvTable S} (h : db.Wf) (calloc : Calloc) (key field value : CStr) :
    (db.kvHset calloc key field value).1.Wf := by
  have hset := h.wrOrCreate DbObject.hash? objCreateHash calloc key
  rw [KvTable.kvHset, KvTable.wrHash]
  revert hset
  cases db.wrOrCreate DbObject.hash? objCreateHash calloc key with
  | mk t ht =>
    intro hset
    cases ht with
    | none => exact hset
    | some ht => exact hset.putData key _

theorem Wf.kvHdel {db : KvTable S} (h : db.Wf) (key : CStr) (fields : List CStr) :
    (db.kvHdel key fields).1.Wf := by
  unfold KvTable.kvHdel
  split
  · exact h
  · exact h.putData key _

theorem Wf.kvZadd [LinearOrder S] {db : KvTable S} (h : db.Wf) (calloc : Calloc) (key : CStr)
    (score : S) (member : CStr) (rand : Nat → Nat) :
    (db.kvZadd calloc key score member rand).1.Wf := by
  have hset := h.createUnless DbObject.zset? objCreateZset calloc key
  unfold KvTable.kvZadd
  simp only
  split
  · exact hset
  · split
    · exact hset
    · exact hset.putData key _

theorem Wf.kvZrem {db : KvTable S} (h : db.Wf) (key member : CStr) :
    (db.kvZrem key member).1.Wf := by
  unfold KvTable.kvZrem
  split
  · exact h
  · exact h.putData key _

end KvTable

/-! ## Runs of the store -/

/-- The operations of `kvdb.c` that write. `kv_setnx`, `kv_setex`,
`kv_expire` and `kv_persist` are sequences of these, and `kv_incr`,
`kv_decr`, `kv_decrby` and `kv_set_meta` instances. -/
inductive StoreOp (S : Type) where
  | table (op : TableOp S)
  | setTtl (key : CStr) (ttl : Int)
  | incrby (calloc : Calloc) (key : CStr) (delta : Int) (usec : UInt64)
  | append (calloc : Calloc) (key suffix : CStr) (usec : UInt64)
  | lpush (calloc : Calloc) (key value : CStr)
  | rpush (calloc : Calloc) (key value : CStr)
  | lpop (key : CStr)
  | rpop (key : CStr)
  | lset (key : CStr) (idx : Int) (value : CStr)
  | lrem (key : CStr) (count : Int) (value : CStr)
  | lpoprpush (calloc : Calloc) (src dst : CStr)
  | sadd (calloc : Calloc) (key : CStr) (members : List CStr)
  | srem (key : CStr) (members : List CStr)
  | hset (calloc : Calloc) (key field value : CStr)
  | hdel (key : CStr) (fields : List CStr)
  | zadd (calloc : Calloc) (key : CStr) (score : S) (member : CStr) (rand : Nat → Nat)
  | zrem (key member : CStr)

variable [LinearOrder S]

/-- One call, made while there is no other. -/
def StoreOp.step (db : KvTable S) : StoreOp S → KvTable S
  | .table op => TableOp.step db op
  | .setTtl key ttl => (db.kvSetTtl key ttl).1
  | .incrby calloc key delta usec => (db.kvIncrby calloc key delta usec).1
  | .append calloc key suffix usec => (db.kvAppend calloc key suffix usec).1
  | .lpush calloc key value => (db.kvLpush calloc key value).1
  | .rpush calloc key value => (db.kvRpush calloc key value).1
  | .lpop key => (db.kvLpop key).1
  | .rpop key => (db.kvRpop key).1
  | .lset key idx value => (db.kvLset key idx value).1
  | .lrem key count value => (db.kvLrem key count value).1
  | .lpoprpush calloc src dst => (db.kvLpoprpush calloc src dst).1
  | .sadd calloc key members => (db.kvSadd calloc key members).1
  | .srem key members => (db.kvSrem key members).1
  | .hset calloc key field value => (db.kvHset calloc key field value).1
  | .hdel key fields => (db.kvHdel key fields).1
  | .zadd calloc key score member rand => (db.kvZadd calloc key score member rand).1
  | .zrem key member => (db.kvZrem key member).1

namespace KvTable

/-- The table a run of any operations reaches from `kv_open`. -/
def storeRun (path : Option CStr) (file : Option (List UInt8)) (ops : List (StoreOp S)) :
    KvTable S := ops.foldl StoreOp.step (kvOpen path file)

theorem Wf.storeStep {db : KvTable S} (h : db.Wf) (op : StoreOp S) : (StoreOp.step db op).Wf := by
  cases op with
  | table op => exact h.step op
  | setTtl key ttl => exact h.kvSetTtl key ttl
  | incrby calloc key delta usec => exact h.kvIncrby calloc key delta usec
  | append calloc key suffix usec => exact h.kvAppend calloc key suffix usec
  | lpush calloc key value => exact h.kvPush Dlist.dlistPushLeft calloc key value
  | rpush calloc key value => exact h.kvPush Dlist.dlistPushRight calloc key value
  | lpop key => exact h.kvPop Dlist.dlistPopLeft key
  | rpop key => exact h.kvPop Dlist.dlistPopRight key
  | lset key idx value => exact h.kvLset key idx value
  | lrem key count value => exact h.kvLrem key count value
  | lpoprpush calloc src dst => exact h.kvLpoprpush calloc src dst
  | sadd calloc key members => exact h.kvSadd calloc key members
  | srem key members => exact h.kvSrem key members
  | hset calloc key field value => exact h.kvHset calloc key field value
  | hdel key fields => exact h.kvHdel key fields
  | zadd calloc key score member rand => exact h.kvZadd calloc key score member rand
  | zrem key member => exact h.kvZrem key member

/-- Every reachable table is well formed. -/
theorem Wf.storeRun (path : Option CStr) (file : Option (List UInt8)) (ops : List (StoreOp S)) :
    (storeRun path file ops).Wf :=
  Run.invariant (fun _ op h => h.storeStep op) ops _ (Wf.kvOpen path file)

/-- SET of a key of one letter. -/
def setLetter (i : Nat) : TableOp Int := .set true (.ofBuf [UInt8.ofNat (97 + i)]) (.lit "1") 0

/-- Keys of one letter, up to the load at which the table must grow. -/
def oneLetterKeys : List (StoreOp Int) := (List.range 24).map fun i => .table (setLetter i)

end KvTable

end AntzKV
