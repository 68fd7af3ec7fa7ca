/-
AntzKV.Core.Commands — the typed commands of `kvdb.c` that write.

A command takes an object out of the table, changes the data structure
behind its `ptr` and leaves it where it stands: `putData` writes the
changed structure back. The four get-or-create helpers call
`kv_set_object` when they find no object of their type.

`Outcome` is how a call ends: with a result (return value 0), with the
return value -1, or with a NULL pointer dereferenced. `calloc` holds the
outcomes of the two allocations that may fail, `usec` and `now` are clock
readings, `rand` the draws of `zsl_random_level`. Signed 64-bit
arithmetic wraps around.

A call is one step here. In the source `kv_incrby` and `kv_append` give up
the lock on the way, and what is done to a list, a set, a hash or a sorted
set is done without it: what follows from these definitions is about calls
that come one after another. `ConcurrentUpdates` takes the first two apart.
-/
import AntzKV.Core.Table
import AntzKV.Lib.Scanf

namespace AntzKV

open Scanf (scanLld decimalInt)
open DbObject (objCreateString objCreateList objCreateSet objCreateHash objCreateZset)

/-- How a call ends. -/
inductive Outcome (α : Type) where
  | ok (a : α)
  | err
  | segv
  deriving DecidableEq

variable {S : Type}

/-- Two's complement on 64 bits. -/
def wrap64 (v : Int) : Int := v.bmod (2 ^ 64)

namespace KvTable

/-- `wr_obj` with the cast of `ptr` that follows it: `sel` gives what the
pointer denotes for an object of the type asked for. -/
def wrObj {β : Type} (sel : DbObject S → Option β) (db : KvTable S) (key : CStr) : Option β :=
  (db.kvGetObject key).bind sel

/-- The structure behind the `ptr` of a key's object has changed. -/
def putData (db : KvTable S) (key : CStr) (data : ObjData S) : KvTable S :=
  db.modifyObj key fun o => { o with data := data }

/-- The get-or-create of `wr_set_obj` and `wr_hash`: they read the new
object back with `kv_get_object`. -/
def wrOrCreate {β : Type} (sel : DbObject S → Option β) (create : DbObject S) (calloc : Calloc)
    (db : KvTable S) (key : CStr) : KvTable S × Option β :=
  match db.wrObj sel key with
  | some b => (db, some b)
  | none =>
    let (db, ret) := db.kvSetObject calloc key create none
    if ret ≠ 0 then (db, none) else (db, (db.kvGetObject key).bind sel)

/-- The get-or-create that `kv_append` and `kv_zadd` begin with: the
return value of `kv_set_object` where one is called, else 0. -/
def createUnless {β : Type} (sel : DbObject S → Option β) (create : DbObject S) (calloc : Calloc)
    (db : KvTable S) (key : CStr) : KvTable S × Int :=
  match db.wrObj sel key with
  | some _ => (db, 0)
  | none => db.kvSetObject calloc key create none

/-! ## Strings -/

def getStringObj (db : KvTable S) (key : CStr) : Option CStr := db.wrObj DbObject.string? key

/-- The second half of `kv_incrby`: add to the number in an entry. -/
def incrAt (db : KvTable S) (idx : Nat) (delta : Int) : KvTable S × Outcome Int :=
  match (db.entry idx).value? with
  | none => (db, .segv)
  | some obj =>
    match obj.string? with
    | none => (db, .err)
    | some s =>
      let v := wrap64 (((scanLld s.bytes).map (·.1)).getD 0 + delta)
      (db.modifyAt idx fun o => { o with data := .string (.ofBuf (decimalInt v)) }, .ok v)

def kvIncrby (calloc : Calloc) (db : KvTable S) (key : CStr) (delta : Int) (usec : UInt64) :
    KvTable S × Outcome Int :=
  let (idx, found) := db.probe key
  if found then db.incrAt idx delta
  else
    let (db, ver) := db.kvNextVersion
    -- the version is stored in the object, NULL or not
    if !calloc.object then (db, .segv)
    else
      -- the return value of kv_set_object is not looked at
      let (db, _) :=
        db.kvSetObject calloc key { objCreateString (.lit "0") usec with version := ver } none
      db.incrAt (db.probe key).1 delta

def kvIncr (calloc : Calloc) (db : KvTable S) (key : CStr) (usec : UInt64) :
    KvTable S × Outcome Int := db.kvIncrby calloc key 1 usec

def kvDecrby (calloc : Calloc) (db : KvTable S) (key : CStr) (delta : Int) (usec : UInt64) :
    KvTable S × Outcome Int := db.kvIncrby calloc key (wrap64 (-delta)) usec

def kvDecr (calloc : Calloc) (db : KvTable S) (key : CStr) (usec : UInt64) :
    KvTable S × Outcome Int := db.kvDecrby calloc key 1 usec

def kvAppend (calloc : Calloc) (db : KvTable S) (key suffix : CStr) (usec : UInt64) :
    KvTable S × Outcome Nat :=
  let (db, ret) :=
    db.createUnless DbObject.string? (objCreateString (.lit "") usec) calloc key
  if ret ≠ 0 then (db, .err)
  else
    match db.getStringObj key with
    | none => (db, .err)
    | some old =>
      match old.append? suffix with
      -- the result of malloc is not looked at
      | none => (db, .segv)
      | some n => (db.putData key (.string n), .ok n.strlen)

/-- `kv_setnx` returns 0 for a key that exists as well. -/
def kvSetnx (calloc : Calloc) (db : KvTable S) (key value : CStr) (usec : UInt64) :
    KvTable S × Int :=
  if db.kvExists key then (db, 0) else db.kvSet calloc key value usec

def kvSetex (calloc : Calloc) (db : KvTable S) (key value : CStr) (msec : Int) (usec : UInt64)
    (now : Int) : KvTable S × Int :=
  let (db, ret) := db.kvSet calloc key value usec
  if ret ≠ 0 then (db, ret) else db.kvSetTtl key (wrap64 (now + msec))

def kvExpire (db : KvTable S) (key : CStr) (msec now : Int) : KvTable S × Int :=
  db.kvSetTtl key (wrap64 (now + msec))

def kvPersist (db : KvTable S) (key : CStr) : KvTable S × Int := db.kvSetTtl key (-1)

/-! ## Lists -/

/-- `kv_ensure_list`; it reads the new object back with `wr_obj`. -/
def kvEnsureList (calloc : Calloc) (db : KvTable S) (key : CStr) : KvTable S × Option Dlist :=
  match db.wrObj DbObject.list? key with
  | some l => (db, some l)
  | none =>
    let (db, ret) := db.kvSetObject calloc key objCreateList none
    if ret ≠ 0 then (db, none) else (db, db.wrObj DbObject.list? key)

/-- `kv_lpush` and `kv_rpush`, over the push they make. -/
def kvPush (push : Dlist → CStr → Dlist) (calloc : Calloc) (db : KvTable S) (key value : CStr) :
    KvTable S × Outcome Nat :=
  match db.kvEnsureList calloc key with
  | (db, none) => (db, .err)
  | (db, some l) => (db.putData key (.list (push l value)), .ok (push l value).len)

def kvLpush (calloc : Calloc) (db : KvTable S) (key value : CStr) : KvTable S × Outcome Nat :=
  db.kvPush Dlist.dlistPushLeft calloc key value

def kvRpush (calloc : Calloc) (db : KvTable S) (key value : CStr) : KvTable S × Outcome Nat :=
  db.kvPush Dlist.dlistPushRight calloc key value

/-- `kv_lpop` and `kv_rpop`, over the pop they make; `none` is NULL. -/
def kvPop (pop : Dlist → Dlist × Option CStr) (db : KvTable S) (key : CStr) :
    KvTable S × Option CStr :=
  match db.wrObj DbObject.list? key with
  | none => (db, none)
  | some l => (db.putData key (.list (pop l).1), (pop l).2)

def kvLpop (db : KvTable S) (key : CStr) : KvTable S × Option CStr := db.kvPop Dlist.dlistPopLeft key

def kvRpop (db : KvTable S) (key : CStr) : KvTable S × Option CStr := db.kvPop Dlist.dlistPopRight key

def kvLset (db : KvTable S) (key : CStr) (idx : Int) (value : CStr) : KvTable S × Outcome Unit :=
  match db.wrObj DbObject.list? key with
  | none => (db, .err)
  | some l =>
    match l.dlistSet idx value with
    | none => (db, .err)
    | some l => (db.putData key (.list l), .ok ())

def kvLrem (db : KvTable S) (key : CStr) (count : Int) (value : CStr) : KvTable S × Nat :=
  match db.wrObj DbObject.list? key with
  | none => (db, 0)
  | some l => (db.putData key (.list (l.dlistRem count value).1), (l.dlistRem count value).2)

/-- `kv_lpoprpush`; what `kv_lpush` returns is not looked at. -/
def kvLpoprpush (calloc : Calloc) (db : KvTable S) (src dst : CStr) : KvTable S × Option CStr :=
  match db.kvRpop src with
  | (db, none) => (db, none)
  | (db, some v) => ((db.kvLpush calloc dst v).1, some v)

/-! ## Sets and hashes -/

def wrSetObj (calloc : Calloc) (db : KvTable S) (key : CStr) : KvTable S × Option SimpleHt :=
  db.wrOrCreate DbObject.set? objCreateSet calloc key

def kvSadd (calloc : Calloc) (db : KvTable S) (key : CStr) (members : List CStr) :
    KvTable S × Outcome Nat :=
  match db.wrSetObj calloc key with
  | (db, none) => (db, .err)
  | (db, some ht) =>
    let (ht, added) := members.foldl (fun (ht, a) m =>
      ((ht.htAdd m none false).1, if (ht.htAdd m none false).2 then a + 1 else a)) (ht, 0)
    (db.putData key (.set ht), .ok added)

/-- The removal loop of `kv_srem` and `kv_hdel`. -/
def removeAll (ht : SimpleHt) (keys : List CStr) : SimpleHt × Nat :=
  keys.foldl (fun (ht, r) k =>
    ((ht.htRemove k).1, if (ht.htRemove k).2 then r + 1 else r)) (ht, 0)

def kvSrem (db : KvTable S) (key : CStr) (members : List CStr) : KvTable S × Nat :=
  match db.wrObj DbObject.set? key with
  | none => (db, 0)
  | some ht => (db.putData key (.set (removeAll ht members).1), (removeAll ht members).2)

def wrHash (calloc : Calloc) (db : KvTable S) (key : CStr) : KvTable S × Option SimpleHt :=
  db.wrOrCreate DbObject.hash? objCreateHash calloc key

/-- `kv_hset`; the result is `*created`. -/
def kvHset (calloc : Calloc) (db : KvTable S) (key field value : CStr) : KvTable S × Outcome Bool :=
  match db.wrHash calloc key with
  | (db, none) => (db, .err)
  | (db, some ht) =>
    (db.putData key (.hash (ht.htAdd field (some value) true).1), .ok (!ht.htExists field))

def kvHdel (db : KvTable S) (key : CStr) (fields : List CStr) : KvTable S × Nat :=
  match db.wrObj DbObject.hash? key with
  | none => (db, 0)
  | some ht => (db.putData key (.hash (removeAll ht fields).1), (removeAll ht fields).2)

/-! ## Sorted sets -/

/-- `kv_zadd`; the object read back is not tested for NULL. -/
def kvZadd [LinearOrder S] (calloc : Calloc) (db : KvTable S) (key : CStr) (score : S)
    (member : CStr) (rand : Nat → Nat) : KvTable S × Outcome Unit :=
  let (db, ret) := db.createUnless DbObject.zset? objCreateZset calloc key
  if ret ≠ 0 then (db, .err)
  else
    match db.wrObj DbObject.zset? key with
    | none => (db, .segv)
    | some z => (db.putData key (.zset (z.zslInsert score member (zslRandomLevel rand))), .ok ())

/-- `kv_zrem`; the result is `*removed`. -/
def kvZrem (db : KvTable S) (key member : CStr) : KvTable S × Bool :=
  match db.wrObj DbObject.zset? key with
  | none => (db, false)
  | some z => (db.putData key (.zset (z.zslDelete member).1), (z.zslDelete member).2)

/-- `kv_zscore`; `none` is `*found = 0`. -/
def kvZscore (db : KvTable S) (key member : CStr) : Option S :=
  (db.wrObj DbObject.zset? key).bind fun z => z.scoreOf member

def kvZcard (db : KvTable S) (key : CStr) : Nat :=
  (db.wrObj DbObject.zset? key).elim 0 (·.length)

end KvTable

end AntzKV
