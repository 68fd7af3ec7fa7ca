/-
AntzKV.Core.ContentTheorems — a table without its metadata.

`bare` forgets versions, clocks, origins and expiry times and keeps the
entry array with its keys and data. The table operations do not look at
what it forgets: each commutes with `bare`, so two tables that agree up
to metadata stay so under the same writes, collisions and resizes
included. `kv_get` reads the bare table.
-/
import AntzKV.Core.CommandsTheorems

namespace AntzKV

open OpenAddressing (Slot)

variable {S : Type}

/-- An object with the metadata of a new one. -/
def DbObject.bare (o : DbObject S) : DbObject S := .objCreate o.data

@[simp] theorem DbObject.bare_stamp (o : DbObject S) (m : Option KvMeta) :
    (o.stamp m).bare = o.bare := by
  cases m <;> rfl

theorem DbObject.bare_of_string? {o : DbObject S} {s : CStr} (h : o.string? = some s) :
    o.bare = .objCreate (.string s) := by
  rw [DbObject.bare, DbObject.string?_eq_some_iff.mp h]

namespace KvTable

def bare (db : KvTable S) : KvTable S :=
  { entries := db.entries.map (Slot.map DbObject.bare), count := db.count, path := none,
    dbVersion := 0 }

@[simp] theorem capacity_bare (db : KvTable S) : db.bare.capacity = db.capacity := by
  simp [capacity, bare]

@[simp] theorem overloaded_bare (db : KvTable S) : db.bare.overloaded = db.overloaded := by
  unfold overloaded
  rw [capacity_bare]
  rfl

theorem entry_bare (db : KvTable S) (i : Nat) : db.bare.entry i = (db.entry i).map DbObject.bare := by
  simp only [entry, bare, List.getD_eq_getElem?_getD, List.getElem?_map]
  cases db.entries[i]? <;> rfl

@[simp] theorem probe_bare (db : KvTable S) (key : CStr) : db.bare.probe key = db.probe key := by
  rw [probe_eq_probe, probe_eq_probe, capacity_bare, funext (entry_bare db)]
  exact OpenAddressing.search_map DbObject.bare db.entry key _ _ _

theorem kvGetObject_bare (db : KvTable S) (key : CStr) :
    db.bare.kvGetObject key = (db.kvGetObject key).map DbObject.bare := by
  simp only [kvGetObject, probe_bare, entry_bare, Slot.value?_map]
  split <;> rfl

/-- GET does not depend on metadata. -/
@[simp] theorem kvGet_bare (db : KvTable S) (key : CStr) : db.bare.kvGet key = db.kvGet key := by
  rw [kvGet, kvGet, kvGetObject_bare]
  cases db.kvGetObject key <;> rfl

/-! ## Writes -/

theorem bare_setEntry (db : KvTable S) (i : Nat) (e : KvEntry S) :
    (db.setEntry i e).bare = db.bare.setEntry i (e.map DbObject.bare) := by
  simp [bare, setEntry, List.map_set]

theorem bare_rehash (db : KvTable S) (e : KvEntry S) :
    (db.rehash e).bare = db.bare.rehash (e.map DbObject.bare) := by
  cases e with
  | empty => rfl
  | deleted => rfl
  | occupied k o =>
    simp only [rehash, Slot.map, probe_bare]
    simp [bare, setEntry, List.map_set, Slot.map]

theorem bare_foldl_rehash (es : List (KvEntry S)) (db : KvTable S) :
    (es.foldl rehash db).bare = (es.map (Slot.map DbObject.bare)).foldl rehash db.bare := by
  induction es generalizing db with
  | nil => rfl
  | cons e es ih => rw [List.foldl_cons, ih, bare_rehash, List.map_cons, List.foldl_cons]

theorem bare_resize (entries : Bool) (db : KvTable S) :
    (db.resize entries).map bare = db.bare.resize entries := by
  simp only [resize, capacity_bare]
  split
  · rw [Option.map_some, bare_foldl_rehash]
    simp [bare, Slot.map]
  · rfl

theorem bare_grow (entries : Bool) (db : KvTable S) :
    (db.grow entries).map bare = db.bare.grow entries := by
  simp only [grow, overloaded_bare]
  split
  · exact bare_resize entries db
  · rfl

theorem bare_store (db : KvTable S) (key : CStr) (obj : DbObject S) :
    (db.store key obj).bare = db.bare.store key obj.bare := by
  simp only [store, probe_bare]
  split
  · rw [bare_setEntry]
    rfl
  · simp [bare, setEntry, List.map_set, Slot.map]

theorem bare_bumpVersion (db : KvTable S) (m : KvMeta) : (db.bumpVersion m).bare = db.bare := by
  unfold bumpVersion
  split <;> rfl

/-- `kv_set_object` up to metadata: the table and the return value. -/
theorem bare_kvSetObject (calloc : Calloc) (db : KvTable S) (key : CStr) (obj : DbObject S)
    (m : Option KvMeta) :
    Prod.map bare id (db.kvSetObject calloc key obj m)
      = db.bare.kvSetObject calloc key obj.bare none := by
  unfold kvSetObject
  split
  · rfl
  · rw [← bare_grow]
    cases db.grow calloc.entries with
    | none => rfl
    | some t =>
      have hbump : (m.elim (t.store key (obj.stamp m)) (t.store key (obj.stamp m)).bumpVersion).bare
          = (t.store key (obj.stamp m)).bare := by
        cases m with
        | none => rfl
        | some m => exact bare_bumpVersion _ m
      show ((m.elim (t.store key (obj.stamp m)) (t.store key (obj.stamp m)).bumpVersion).bare,
        (0 : Int)) = _
      rw [hbump, bare_store, DbObject.bare_stamp]
      rfl

theorem bare_kvSetMeta (calloc : Calloc) (db : KvTable S) (key value : CStr) (m : KvMeta) :
    Prod.map bare id (db.kvSetMeta calloc key value m)
      = db.bare.kvSetObject calloc key (.objCreate (.string value)) none :=
  bare_kvSetObject calloc db key _ _

theorem bare_kvSet (calloc : Calloc) (db : KvTable S) (key value : CStr) (usec : UInt64) :
    Prod.map bare id (db.kvSet calloc key value usec)
      = db.bare.kvSetObject calloc key (.objCreate (.string value)) none :=
  bare_kvSetMeta calloc db.kvNextVersion.1 key value _

/-- Memory that sufficed is not exhausted by having more of it. -/
theorem kvSetObject_calloc {calloc : Calloc} {db : KvTable S} {key : CStr} {obj : DbObject S}
    {m : Option KvMeta} (h : (db.kvSetObject calloc key obj m).2 = 0) :
    db.kvSetObject true key obj m = db.kvSetObject calloc key obj m := by
  obtain ⟨object, entries⟩ := calloc
  cases object with
  | false => simp [kvSetObject] at h
  | true =>
    cases entries with
    | true => rfl
    | false =>
      cases ho : db.overloaded with
      | false => simp [kvSetObject, grow, ho]
      | true => simp [kvSetObject, grow, ho, resize] at h

/-- Changing an object in a way that keeps its data. -/
theorem bare_modifyAt {db : KvTable S} {i : Nat} {f : DbObject S → DbObject S}
    (hf : ∀ k o, db.entry i = .occupied k o → (f o).bare = o.bare) :
    (db.modifyAt i f).bare = db.bare := by
  rcases modifyAt_cases db i f with hr | ⟨k, o, hi, hr⟩ <;> rw [hr]
  rw [bare_setEntry, Slot.map, hf k o hi]
  have hentry : db.bare.entry i = .occupied k o.bare := by
    rw [entry_bare, hi]
    rfl
  rw [← hentry, setEntry_entry]

theorem bare_kvSetTtl (db : KvTable S) (key : CStr) (ttl : Int) :
    (db.kvSetTtl key ttl).1.bare = db.bare := by
  unfold kvSetTtl
  split
  · rename_i hp
    simp only [modifyObj, hp, if_true]
    exact bare_modifyAt fun _ _ _ => rfl
  · rfl

/-- Storing an object over one with the same data. -/
theorem bare_store_of_same {db : KvTable S} {key : CStr} {o obj : DbObject S}
    (hget : db.kvGetObject key = some o) (hsame : obj.bare = o.bare) :
    (db.store key obj).bare = db.bare := by
  have hp : (db.probe key).2 = true := probe_found_iff.mpr ⟨o, hget⟩
  obtain ⟨o', hentry, hget'⟩ := kvGetObject_of_found hp
  obtain rfl : o' = o := Option.some.inj (hget'.symm.trans hget)
  have hbare : db.bare.entry (db.probe key).1 = .occupied key o'.bare := by
    rw [entry_bare, hentry]
    rfl
  simp only [store, hp, if_true]
  rw [bare_setEntry, Slot.map, hsame, ← hbare, setEntry_entry]

end KvTable

end AntzKV
