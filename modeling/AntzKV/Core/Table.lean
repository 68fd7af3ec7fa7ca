/-
AntzKV.Core.Table — the key-space of `kvdb.c`: an open-addressing table
from keys to objects.

An entry that is `E_EMPTY` or `E_DELETED` has no key and no object that
may be read, so the three states are the three constructors of `Slot`,
and `capacity` is the length of the entry array. `size_t` counters are
naturals; `calloc` refuses an array of `SIZE_MAX` bytes, which is what
keeps `capacity` below that. The load factor test
`(double)(count + 1) / capacity > 0.75` is done in integers.

Two allocations may fail: that of the object a call stores, which
`obj_create_*` makes, and that of the entries in `resize` (`Calloc`). The
others (copies of keys and texts, nodes of lists, hash tables and skip
lists) are assumed to succeed.

A call is one step, made while no other call is. `kv_set_object`, `kv_del`,
`kv_del_meta`, `kv_set_ttl` and the reads of one key hold the lock from
beginning to end; but `kv_set` draws its version before it takes the lock,
`kv_get` copies the string after it has given it up, and
`kv_active_expire` takes it anew for each sample.
-/
import AntzKV.Core.Object
import AntzKV.Lib.OpenAddressing

namespace AntzKV

open OpenAddressing (Slot)

variable {S : Type}

/-- `kv_entry` with its `entry_state_t`. -/
abbrev KvEntry (S : Type) := Slot CStr (DbObject S)

/-- `struct kv_table`. -/
structure KvTable (S : Type) where
  entries : List (KvEntry S)
  count : Nat
  path : Option CStr
  dbVersion : UInt64

/-- `INITIAL_CAPACITY` -/
def initialCapacity : Nat := 32

/-- `sizeof(kv_entry)` -/
def kvEntrySize : Nat := 24

/-- The outcomes of `calloc` in a call: for the object that `obj_create_*`
makes, and for the entries in `resize`. -/
structure Calloc where
  object : Bool
  entries : Bool
  deriving DecidableEq

/-- Where only `resize` is asked about, the object is made. -/
instance : Coe Bool Calloc := ⟨fun entries => ⟨true, entries⟩⟩

namespace KvTable

def capacity (db : KvTable S) : Nat := db.entries.length

def entry (db : KvTable S) (i : Nat) : KvEntry S := db.entries.getD i .empty

def setEntry (db : KvTable S) (i : Nat) (e : KvEntry S) : KvTable S :=
  { db with entries := db.entries.set i e }

/-- The number of `E_OCCUPIED` entries. -/
def occupied (db : KvTable S) : Nat := db.entries.countP Slot.isOccupied

/-- The table of `kv_open` before it reads a file. -/
def fresh (path : Option CStr) : KvTable S :=
  { entries := List.replicate initialCapacity .empty, count := 0, path := path, dbVersion := 0 }

/-! ## Probing and resizing -/

/-- The loop of `probe`. `left` is `capacity + 1 - i`, so it is zero
exactly when `i > capacity`. -/
def probeLoop (db : KvTable S) (key : CStr) : Nat → Nat → Nat → Nat × Bool
  | 0, idx, _ => (idx, false)
  | left + 1, idx, i =>
    match db.entry idx with
    | .empty => (idx, false)
    | .occupied k _ =>
      if strcmp k key = .eq then (idx, true)
      else probeLoop db key left ((idx + i * i) % db.capacity) (i + 1)
    | .deleted => probeLoop db key left ((idx + i * i) % db.capacity) (i + 1)

/-- `probe`: the index it returns, with `*found`. -/
def probe (db : KvTable S) (key : CStr) : Nat × Bool :=
  probeLoop db key db.capacity ((fnv1a key).toNat % db.capacity) 1

/-- One iteration of the loop of `resize`, for an old entry. -/
def rehash (db : KvTable S) : KvEntry S → KvTable S
  | .occupied k o =>
    { db.setEntry (db.probe k).1 (.occupied k o) with count := db.count + 1 }
  | _ => db

/-- `resize`; `none` is the return value -1, with the table as it was. -/
def resize (calloc : Bool) (db : KvTable S) : Option (KvTable S) :=
  if calloc ∧ kvEntrySize * (2 * db.capacity) < sizeBound then
    some (db.entries.foldl rehash
      { db with entries := List.replicate (2 * db.capacity) .empty, count := 0 })
  else none

/-- The load factor test of `kv_set_object`. -/
def overloaded (db : KvTable S) : Bool := decide (3 * db.capacity < 4 * (db.count + 1))

/-- The table `kv_set_object` goes on with; `none` when `resize` failed. -/
def grow (calloc : Bool) (db : KvTable S) : Option (KvTable S) :=
  if db.overloaded then db.resize calloc else some db

/-! ## Versions -/

/-- `if (meta->version > db->db_version) db->db_version = meta->version;` -/
def bumpVersion (db : KvTable S) (m : KvMeta) : KvTable S :=
  if m.version > db.dbVersion then { db with dbVersion := m.version } else db

/-- `kv_next_version`: the version, with the table that counts it. -/
def kvNextVersion (db : KvTable S) : KvTable S × UInt64 :=
  ({ db with dbVersion := db.dbVersion + 1 }, db.dbVersion + 1)

/-! ## Objects -/

/-- The write of `kv_set_object` at the index `probe` gave it. -/
def store (db : KvTable S) (key : CStr) (obj : DbObject S) : KvTable S :=
  let (idx, found) := db.probe key
  if found then db.setEntry idx (.occupied key obj)
  else { db.setEntry idx (.occupied key obj) with count := db.count + 1 }

/-- `kv_set_object`; `obj` is NULL when there was no memory to make it. -/
def kvSetObject (calloc : Calloc) (db : KvTable S) (key : CStr) (obj : DbObject S)
    (kvMeta : Option KvMeta) : KvTable S × Int :=
  if !calloc.object then (db, -1)
  else
    match db.grow calloc.entries with
    | none => (db, -1)
    | some db =>
      let db := db.store key (obj.stamp kvMeta)
      (kvMeta.elim db db.bumpVersion, 0)

def kvGetObject (db : KvTable S) (key : CStr) : Option (DbObject S) :=
  let (idx, found) := db.probe key
  if found then (db.entry idx).value? else none

/-- Free an entry and leave a tombstone. -/
def bury (db : KvTable S) (idx : Nat) : KvTable S :=
  { db.setEntry idx .deleted with count := db.count - 1 }

def kvDel (db : KvTable S) (key : CStr) : KvTable S × Int :=
  let (idx, found) := db.probe key
  if found then (db.bury idx, 0) else (db, -1)

def kvDelMeta (db : KvTable S) (key : CStr) (m : KvMeta) : KvTable S × Int :=
  let (idx, found) := db.probe key
  match found, (db.entry idx).value? with
  | true, some obj =>
    -- an older delete returns before the version clock is looked at
    if metaGt obj.kvMeta m then (db, 0) else ((db.bury idx).bumpVersion m, 0)
  | _, _ => (db.bumpVersion m, -1)

/-! ## Strings -/

def kvSetMeta (calloc : Calloc) (db : KvTable S) (key value : CStr) (m : KvMeta) : KvTable S × Int :=
  -- the clock reading of obj_create_string is overwritten by the meta
  kvSetObject calloc db key ((DbObject.objCreateString value m.wallclock).stamp (some m)) (some m)

def kvSet (calloc : Calloc) (db : KvTable S) (key value : CStr) (usec : UInt64) : KvTable S × Int :=
  let (db, ver) := db.kvNextVersion
  kvSetMeta calloc db key value ⟨ver, usec, .blank⟩

def kvGet (db : KvTable S) (key : CStr) : Option CStr :=
  (db.kvGetObject key).bind DbObject.string?

/-- `kv_get_meta`: the string and its metadata. -/
def kvGetMeta (db : KvTable S) (key : CStr) : Option (CStr × KvMeta) :=
  (db.kvGetObject key).bind fun o => o.string?.map fun s => (s, o.kvMeta)

def kvExists (db : KvTable S) (key : CStr) : Bool := (db.probe key).2

/-! ## Expiry -/

/-- Change the object at an entry, where it stands. -/
def modifyAt (db : KvTable S) (idx : Nat) (f : DbObject S → DbObject S) : KvTable S :=
  match db.entry idx with
  | .occupied k o => db.setEntry idx (.occupied k (f o))
  | _ => db

/-- Change the object `probe` finds. -/
def modifyObj (db : KvTable S) (key : CStr) (f : DbObject S → DbObject S) : KvTable S :=
  let (idx, found) := db.probe key
  if found then db.modifyAt idx f else db

def kvSetTtl (db : KvTable S) (key : CStr) (ttl : Int) : KvTable S × Int :=
  if (db.probe key).2 then (db.modifyObj key fun o => { o with ttl := ttl }, 0) else (db, -1)

/-- One sample of `kv_active_expire`; the flag says that it deleted. -/
def expireSlot (db : KvTable S) (idx : Nat) (now : Int) : KvTable S × Bool :=
  match (db.entry idx).value? with
  | some obj => if 0 ≤ obj.ttl ∧ obj.ttl ≤ now then (db.bury idx, true) else (db, false)
  | none => (db, false)

/-- The loop of `kv_active_expire`; `rand s` is the value of `rand_r` at
sample `s`. -/
def activeExpireLoop (maxSamples : Nat) (now : Int) (rand : Nat → Nat) :
    Nat → Nat → KvTable S → Nat → KvTable S × Nat
  | 0, _, db, expired => (db, expired)
  | left + 1, s, db, expired =>
    let (db, hit) := db.expireSlot (rand s % db.capacity) now
    let expired := if hit then expired + 1 else expired
    if expired ≥ maxSamples / 4 then (db, expired)
    else activeExpireLoop maxSamples now rand left (s + 1) db expired

def kvActiveExpire (db : KvTable S) (maxSamples : Nat) (now : Int) (rand : Nat → Nat) :
    KvTable S × Nat :=
  activeExpireLoop maxSamples now rand (min maxSamples db.capacity) 0 db 0

end KvTable

end AntzKV
