/-
AntzKV.Cluster.VersionClock — `db_version` under local writes and the
messages of the bus.

The clock is a counter that local writes advance and that received
messages pull forward. `Clock` is a table with the versions received so
far; `Sound` and `Advances` say what a clock is for, `Ticks` when a step
of the code does it.
-/
import AntzKV.Core.Commands
import AntzKV.Core.TableRunTheorems
import AntzKV.Cluster.Replica

namespace AntzKV

open Scanf (scanLld decimalInt)

/-- The local write commands. INCR, DECR, INCRBY and DECRBY are `incrby`
with their own delta. -/
inductive LocalWrite (S : Type) where
  | set (key value : CStr) (usec : UInt64)
  | setnx (key value : CStr) (usec : UInt64)
  | setex (key value : CStr) (msec : Int) (usec : UInt64) (now : Int)
  | append (key suffix : CStr) (usec : UInt64)
  | incrby (key : CStr) (delta : Int) (usec : UInt64)
  | lpush (key value : CStr)
  | rpush (key value : CStr)
  | sadd (key : CStr) (members : List CStr)
  | hset (key field value : CStr)
  | zadd (key : CStr) (score : S) (member : CStr) (rand : Nat → Nat)

/-- A call that returned 0. -/
def Outcome.isOk {α : Type} : Outcome α → Bool
  | .ok _ => true
  | _ => false

variable {S : Type}

/-- The table after a local write, and whether the write succeeded. -/
def LocalWrite.run [LinearOrder S] (calloc : Calloc) (db : KvTable S) :
    LocalWrite S → KvTable S × Bool
  | .set key value usec => (db.kvSet calloc key value usec).map id (· == 0)
  | .setnx key value usec => (db.kvSetnx calloc key value usec).map id (· == 0)
  | .setex key value msec usec now => (db.kvSetex calloc key value msec usec now).map id (· == 0)
  | .append key suffix usec => (db.kvAppend calloc key suffix usec).map id Outcome.isOk
  | .incrby key delta usec => (db.kvIncrby calloc key delta usec).map id Outcome.isOk
  | .lpush key value => (db.kvLpush calloc key value).map id Outcome.isOk
  | .rpush key value => (db.kvRpush calloc key value).map id Outcome.isOk
  | .sadd key members => (db.kvSadd calloc key members).map id Outcome.isOk
  | .hset key field value => (db.kvHset calloc key field value).map id Outcome.isOk
  | .zadd key score member rand => (db.kvZadd calloc key score member rand).map id Outcome.isOk

/-- A step of a node: a local write, or a message of the bus. -/
inductive ClockOp (S : Type) where
  | write (calloc : Calloc) (w : LocalWrite S)
  | message (w : ReplWrite)

/-- A table with the versions of the messages it has processed. -/
structure Clock (S : Type) where
  db : KvTable S
  received : List UInt64

namespace Clock

/-- A node that has opened its table. -/
def start (path : Option CStr) (file : Option (List UInt8)) : Clock S := ⟨.kvOpen path file, []⟩

def step [LinearOrder S] (s : Clock S) : ClockOp S → Clock S
  | .write calloc w => { s with db := (w.run calloc s.db).1 }
  | .message w => ⟨w.apply s.db, s.received ++ [w.kvMeta.version]⟩

/-- A version that is stored or was received. -/
def Seen (s : Clock S) (v : UInt64) : Prop :=
  v ∈ s.received ∨ ∃ k o, s.db.kvGetObject k = some o ∧ o.version = v

/-- The clock is at least every version stored or received. -/
def Sound (s : Clock S) : Prop := ∀ v, s.Seen v → v ≤ s.db.dbVersion

/-- A step does not set the clock back, and a local write that succeeds
stamps the object it changes with a version above all that were seen. -/
def Advances [LinearOrder S] (s : Clock S) (op : ClockOp S) : Prop :=
  s.db.dbVersion ≤ (s.step op).db.dbVersion ∧
  ∀ calloc w, op = .write calloc w → (w.run calloc s.db).2 = true →
    ∀ k o', (s.step op).db.kvGetObject k = some o' → s.db.kvGetObject k ≠ some o' →
      ∀ v, s.Seen v → v < o'.version

/-- Nothing is stored and nothing was received. -/
def Unseen (s : Clock S) : Prop := s.received = [] ∧ ∀ k, s.db.kvGetObject k = none

/-- A command on data of its type fails because there is no such data and
no room to create it, or finds data on which it changes nothing. -/
def Idle {β : Type} (sel : DbObject S → Option β) (same : β → Prop) (calloc : Calloc)
    (db : KvTable S) (key : CStr) : Prop :=
  match db.wrObj sel key with
  | none => db.CannotStore calloc
  | some b => same b

/-- The number in a string, `delta` added. -/
def added (t : CStr) (delta : Int) : CStr :=
  .ofBuf (decimalInt (wrap64 (((scanLld t.bytes).map (·.1)).getD 0 + delta)))

/-- The last version is not reached. -/
def MayTick (db : KvTable S) : Prop := db.dbVersion ≠ .ofNat (2 ^ 64 - 1)

/-- The step is one that keeps the law. SET and its like do so until the
counter is at its limit, a message when it is not lost for want of room.
The other commands stamp nothing, so they do so only when they change
nothing or when there is no version yet to be compared with. -/
def Ticks [LinearOrder S] (s : Clock S) : ClockOp S → Prop
  | .write _ (.set ..) => MayTick s.db
  | .write _ (.setnx key ..) => s.db.kvExists key = false → MayTick s.db
  | .write _ (.setex ..) => MayTick s.db
  | .write calloc (.incrby key delta _) =>
    match s.db.kvGetObject key with
    | none =>
      MayTick s.db ∧ (calloc.object = true → s.db.CannotStore calloc →
        (s.db.entry (s.db.probe key).1).value?.bind DbObject.string? = none)
    | some o => ∀ t, o.string? = some t → added t delta = t
  | .write calloc (.append key suffix _) => s.Unseen ∨
    Idle DbObject.string? (fun old => ∀ n, old.append? suffix = some n → n = old) calloc s.db key
  | .write calloc (.lpush key _) => s.Unseen ∨ Idle DbObject.list? (fun _ => False) calloc s.db key
  | .write calloc (.rpush key _) => s.Unseen ∨ Idle DbObject.list? (fun _ => False) calloc s.db key
  | .write calloc (.sadd key members) => s.Unseen ∨
    Idle DbObject.set? (fun ht => ∀ m ∈ members, (ht.htAdd m none false).1 = ht) calloc s.db key
  | .write calloc (.hset key field value) => s.Unseen ∨
    Idle DbObject.hash? (fun ht => (ht.htAdd field (some value) true).1 = ht) calloc s.db key
  | .write calloc (.zadd key score member rand) => s.Unseen ∨
    Idle DbObject.zset? (fun z => z.zslInsert score member (zslRandomLevel rand) = z) calloc s.db key
  | .message (.set _ _ m) => s.db.CannotStore true → m.version ≤ s.db.dbVersion
  | .message (.del ..) => True

end Clock

end AntzKV
