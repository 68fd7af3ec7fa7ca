/-
AntzKV.Core.DatabaseRunTheorems — `kvdb.c` as a machine, and that it
implements the database.

`Call` is a call that writes or reads, `Call.exec` runs it on the table
with what it returns, and `Call.Spec` is the same call on the database.
The calls come one after the other: `kv_incrby` and `kv_append` give up
the lock of the table on the way, and what is done to a list, a set, a
hash or a sorted set is done after it, so nothing is said here about calls
that overlap.
-/
import AntzKV.Core.DatabaseCallsTheorems
import AntzKV.Core.DatabaseReadsTheorems
import AntzKV.Lib.Simulation

namespace AntzKV

open Database (Expired appended)

variable {S : Type} [LinearOrder S]

/-! ## The machine -/

/-- What a call hands back: a number or a status, a string that may be
NULL, a failure, or what a read answers. -/
inductive Ret (S : Type) where
  | int (n : Int)
  | str (s : Option CStr)
  | err
  | segv
  | answer (a : ReadAnswer S)
  deriving DecidableEq

/-- A `size_t`. -/
def Ret.size (n : Nat) : Ret S := .int n

def Outcome.ret {α : Type} (f : α → Ret S) : Outcome α → Ret S
  | .ok a => f a
  | .err => .err
  | .segv => .segv

namespace StoreOp

/-- A call that writes, with what it returns. -/
def exec (db : KvTable S) : StoreOp S → KvTable S × Ret S
  | .table (.set calloc key value usec) => (db.kvSet calloc key value usec).map id .int
  | .table (.setObject calloc key obj m) => (db.kvSetObject calloc key obj m).map id .int
  | .table (.del key) => (db.kvDel key).map id .int
  | .table (.delMeta key m) => (db.kvDelMeta key m).map id .int
  | .table (.activeExpire maxSamples now rand) =>
    (db.kvActiveExpire maxSamples now rand).map id .size
  | .setTtl key ttl => (db.kvSetTtl key ttl).map id .int
  | .incrby calloc key delta usec => (db.kvIncrby calloc key delta usec).map id (·.ret .int)
  | .append calloc key suffix usec =>
    (db.kvAppend calloc key suffix usec).map id (·.ret .size)
  | .lpush calloc key value => (db.kvLpush calloc key value).map id (·.ret .size)
  | .rpush calloc key value => (db.kvRpush calloc key value).map id (·.ret .size)
  | .lpop key => (db.kvLpop key).map id .str
  | .rpop key => (db.kvRpop key).map id .str
  | .lset key idx value => (db.kvLset key idx value).map id (·.ret fun _ => .int 0)
  | .lrem key count value => (db.kvLrem key count value).map id .size
  | .lpoprpush calloc src dst => (db.kvLpoprpush calloc src dst).map id .str
  | .sadd calloc key members => (db.kvSadd calloc key members).map id (·.ret .size)
  | .srem key members => (db.kvSrem key members).map id .size
  | .hset calloc key field value =>
    (db.kvHset calloc key field value).map id (·.ret fun b => .int (if b then 1 else 0))
  | .hdel key fields => (db.kvHdel key fields).map id .size
  | .zadd calloc key score member rand =>
    (db.kvZadd calloc key score member rand).map id (·.ret fun _ => .int 0)
  | .zrem key member => (db.kvZrem key member).map id fun b => .int (if b then 1 else 0)

theorem exec_fst (db : KvTable S) (op : StoreOp S) : (op.exec db).1 = StoreOp.step db op := by
  cases op with
  | table op => cases op <;> rfl
  | _ => rfl

/-! ## The specification -/

/-- The same call on the database, where `kv_del_meta` may delete its key
or keep it, since the database has no metadata to compare, and
`kv_active_expire` may come across any of the keys that are due. -/
def Spec (d : Database S) : StoreOp S → Ret S → Database S → Prop
  | .table (.set _ key value _), r, d' => r = .int 0 ∧ d' = d.put key ⟨.string value, -1⟩
  | .table (.setObject _ key obj m), r, d' =>
    r = .int 0 ∧ ∃ e, (obj.stamp m).IsItem e ∧ d' = d.put key e
  | .table (.del key), r, d' => r = .int (if (d key).isSome then 0 else -1) ∧ d' = d.del key
  | .table (.delMeta key _), r, d' =>
    r = .int (if (d key).isSome then 0 else -1) ∧ (d' = d ∨ d' = d.del key)
  | .table (.activeExpire _ now _), r, d' =>
    r = .size (d.keys \ d'.keys).ncard ∧ Expired now d d'
  | .setTtl key ttl, r, d' =>
    r = .int (if (d key).isSome then 0 else -1) ∧ d' = d.setTtl key ttl
  | .incrby _ key delta _, r, d' =>
    r = (d.incrby key delta).2.elim .err .int ∧ d' = (d.incrby key delta).1
  | .append _ key suffix _, r, d' =>
    r = .size (appended suffix ((d.string key).getD (.lit ""))).strlen ∧ d' = d.append key suffix
  | .lpush _ key value, r, d' =>
    r = .size ((d.elements key).length + 1) ∧ d' = d.lpush key value
  | .rpush _ key value, r, d' =>
    r = .size ((d.elements key).length + 1) ∧ d' = d.rpush key value
  | .lpop key, r, d' => r = .str (d.elements key).head? ∧ d' = d.lpop key
  | .rpop key, r, d' => r = .str (d.elements key).getLast? ∧ d' = d.rpop key
  | .lset key idx value, r, d' =>
    r = (if RefList.InRange (d.elements key) idx then .int 0 else .err) ∧ d' = d.lset key idx value
  | .lrem key count value, r, d' =>
    r = .size ((d.elements key).length
      - (RefList.remove count value (d.elements key)).length) ∧ d' = d.lrem key count value
  | .lpoprpush _ src dst, r, d' => r = .str (d.last? src) ∧ d' = d.lpoprpush src dst
  | .sadd _ key members, r, d' =>
    r = .size (members.toFinset \ d.members key).card ∧ d' = d.sadd key members
  | .srem key members, r, d' =>
    r = .size (members.toFinset ∩ d.members key).card ∧ d' = d.srem key members
  | .hset _ key field value, r, d' =>
    r = .int (if field ∈ d.fields key then 0 else 1) ∧ d' = d.hset key field value
  | .hdel key fields, r, d' =>
    r = .size (fields.toFinset ∩ (d.fields key).keys).card ∧ d' = d.hdel key fields
  | .zadd _ key score member _, r, d' => r = .int 0 ∧ d' = d.zadd key score member
  | .zrem key member, r, d' =>
    r = .int (if member ∈ d.scores key then 1 else 0) ∧ d' = d.zrem key member

/-- What the call needs and the code does not ensure: memory and a slot for
a key to be stored, a string that `kv_append` can still enlarge, a member
that is new to `kv_zadd`, and one that no higher node hides from
`kv_zrem`. -/
def Clear (db : KvTable S) : StoreOp S → Prop
  | .table (.set calloc key _ _) => db.HasRoom key ∧ ¬ db.CannotStore calloc
  | .table (.setObject calloc key obj m) =>
    (db.HasRoom key ∧ ¬ db.CannotStore calloc) ∧ ∃ e, (obj.stamp m).IsItem e
  | .incrby calloc key _ _ =>
    (∃ o, db.kvGetObject key = some o ∧ o.string? = none) ∨
      db.CanUpsert DbObject.string? calloc key
  | .append calloc key suffix _ =>
    db.CanUpsert DbObject.string? calloc key ∧
      (((db.getStringObj key).getD (.lit "")).append? suffix).isSome = true
  | .lpush calloc key _ => db.CanUpsert DbObject.list? calloc key
  | .rpush calloc key _ => db.CanUpsert DbObject.list? calloc key
  | .lpoprpush calloc src dst => (db.kvRpop src).1.CanUpsert DbObject.list? calloc dst
  | .sadd calloc key _ => db.CanUpsert DbObject.set? calloc key
  | .hset calloc key _ _ => db.CanUpsert DbObject.hash? calloc key
  | .zadd calloc key _ member _ =>
    db.CanUpsert DbObject.zset? calloc key ∧ member ∉ (db.zsetElements key).map (·.1)
  | .zrem key member => hidden member (db.zsetElements key) = false
  | _ => True

end StoreOp

/-- A call that writes or one that reads. -/
inductive Call (S : Type) where
  | write (op : StoreOp S)
  | read (r : ReadCmd)

namespace Call

def exec (db : KvTable S) : Call S → KvTable S × Ret S
  | .write op => op.exec db
  | .read r => (db, .answer (r.answer db))

def Spec (d : Database S) : Call S → Ret S → Database S → Prop
  | .write op, r, d' => op.Spec d r d'
  | .read cmd, r, d' => d' = d ∧ ∃ a, cmd.Answers d a ∧ r = .answer a

def Clear (db : KvTable S) : Call S → Prop
  | .write op => op.Clear db
  | .read _ => True

end Call

/-! ## The simulation -/

namespace KvTable

namespace Implements

variable {db : KvTable S} {d : Database S}

/-- The type test of INCR, seen from the database. -/
theorem uncountable (h : db.Implements d) {key : CStr} {o : DbObject S}
    (hget : db.kvGetObject key = some o) (hs : o.string? = none) : d.Uncountable key := by
  obtain ⟨e, hd, -⟩ := h.exists_item hget
  refine ⟨by rw [hd]; rfl, ?_⟩
  have hnone : db.wrObj DbObject.string? key = none := by rw [KvTable.wrObj, hget]; exact hs
  exact h.read_eq_none View.string hnone

/-- What a call that writes is to the database: a step of the same call,
with the same result. -/
def Meets (db : KvTable S) (d : Database S) (op : StoreOp S) : Prop :=
  ∃ d', op.Spec d (op.exec db).2 d' ∧ (op.exec db).1.Implements d'

/-- The calls on keys of any type. -/
theorem meets_table (h : db.Implements d) {op : TableOp S} (hclear : (StoreOp.table op).Clear db) :
    Meets db d (.table op) := by
  cases op with
  | set calloc key value usec =>
    obtain ⟨hret, himpl⟩ := h.kvSet hclear.1 hclear.2 value usec
    exact ⟨_, ⟨congrArg Ret.int hret, rfl⟩, himpl⟩
  | setObject calloc key obj m =>
    obtain ⟨⟨hroom, hgrow⟩, e, he⟩ := hclear
    obtain ⟨hret, himpl⟩ := h.kvSetObject hroom hgrow he
    exact ⟨_, ⟨congrArg Ret.int hret, e, he, rfl⟩, himpl⟩
  | del key =>
    obtain ⟨hret, himpl⟩ := h.kvDel key
    exact ⟨_, ⟨congrArg Ret.int hret, rfl⟩, himpl⟩
  | delMeta key m =>
    have hret : (db.kvDelMeta key m).2 = if (d key).isSome then 0 else -1 := h.kvDelMeta_ret key m
    rcases h.kvDelMeta key m with himpl | himpl
    · exact ⟨_, ⟨congrArg Ret.int hret, .inl rfl⟩, himpl⟩
    · exact ⟨_, ⟨congrArg Ret.int hret, .inr rfl⟩, himpl⟩
  | activeExpire maxSamples now rand =>
    obtain ⟨d', hexpired, himpl⟩ := h.kvActiveExpire maxSamples now rand
    exact ⟨d', ⟨congrArg Ret.size (h.kvActiveExpire_ret himpl), hexpired⟩, himpl⟩

/-- The counters: a value of another type is refused, on the database as
on the table. -/
theorem meets_incrby (h : db.Implements d) {calloc : Calloc} {key : CStr} {delta : Int}
    {usec : UInt64} (hclear : (StoreOp.incrby calloc key delta usec).Clear db) :
    Meets db d (.incrby calloc key delta usec) := by
  have hup : d.Uncountable key ∨ db.CanUpsert DbObject.string? calloc key := by
    rcases hclear with ⟨o, hget, hs⟩ | hup
    · exact .inl (h.uncountable hget hs)
    · exact .inr hup
  obtain ⟨hret, himpl⟩ := h.kvIncrby hup delta usec
  refine ⟨_, ⟨?_, rfl⟩, himpl⟩
  show (db.kvIncrby calloc key delta usec).2.ret .int = _
  rw [hret]
  cases (d.incrby key delta).2 <;> rfl

theorem meets_append (h : db.Implements d) {calloc : Calloc} {key suffix : CStr} {usec : UInt64}
    (hclear : (StoreOp.append calloc key suffix usec).Clear db) :
    Meets db d (.append calloc key suffix usec) := by
  obtain ⟨hup, hfits⟩ := hclear
  have hstr : db.getStringObj key = d.string key := h.string_eq key
  rw [hstr] at hfits
  obtain ⟨hret, himpl⟩ := h.kvAppend hup hfits usec
  exact ⟨_, ⟨congrArg (Outcome.ret .size) hret, rfl⟩, himpl⟩

/-- LSET fails where the index is out of range. -/
theorem meets_lset (h : db.Implements d) (key : CStr) (idx : Int) (value : CStr) :
    Meets db d (.lset key idx value) := by
  obtain ⟨hret, himpl⟩ := h.kvLset key idx value
  refine ⟨_, ⟨?_, rfl⟩, himpl⟩
  show (db.kvLset key idx value).2.ret (fun _ => .int 0) = _
  rw [hret]
  split <;> rfl

/-- `*created` is 1 for a field that was not there. -/
theorem meets_hset (h : db.Implements d) {calloc : Calloc} {key : CStr}
    (hup : db.CanUpsert DbObject.hash? calloc key) (field value : CStr) :
    Meets db d (.hset calloc key field value) := by
  obtain ⟨hret, himpl⟩ := h.kvHset hup field value
  refine ⟨_, ⟨?_, rfl⟩, himpl⟩
  show (db.kvHset calloc key field value).2.ret (fun b => .int (if b then 1 else 0)) = _
  rw [hret]
  by_cases hf : field ∈ d.fields key <;> simp [Outcome.ret, hf]

/-- A member that is new to the sorted set is new to its scores. -/
theorem meets_zadd (h : db.Implements d) {calloc : Calloc} {key : CStr} {score : S} {member : CStr}
    {rand : Nat → Nat} (hclear : (StoreOp.zadd calloc key score member rand).Clear db) :
    Meets db d (.zadd calloc key score member rand) := by
  have hnew : member ∉ d.scores key := fun hm =>
    hclear.2 ((h.isMap_zsetElements key).mem_iff.mp hm)
  obtain ⟨hret, himpl⟩ := h.kvZadd hclear.1 hnew score rand
  exact ⟨_, ⟨congrArg (Outcome.ret fun _ => .int 0) hret, rfl⟩, himpl⟩

/-- `*removed` is 1 for a member that was there and is not hidden. -/
theorem meets_zrem (h : db.Implements d) {key member : CStr}
    (hseen : hidden member (db.zsetElements key) = false) : Meets db d (.zrem key member) := by
  obtain ⟨hret, himpl⟩ := h.kvZrem hseen
  refine ⟨_, ⟨?_, rfl⟩, himpl⟩
  show Ret.int (if (db.kvZrem key member).2 then 1 else 0) = _
  rw [hret]
  by_cases hm : member ∈ d.scores key <;> simp [hm]

/-- One call that writes. -/
theorem exec (h : db.Implements d) {op : StoreOp S} (hclear : op.Clear db) : Meets db d op := by
  cases op with
  | table op => exact h.meets_table hclear
  | setTtl key ttl =>
    obtain ⟨hret, himpl⟩ := h.kvSetTtl key ttl
    exact ⟨_, ⟨congrArg Ret.int hret, rfl⟩, himpl⟩
  | incrby calloc key delta usec => exact h.meets_incrby hclear
  | append calloc key suffix usec => exact h.meets_append hclear
  | lpush calloc key value =>
    obtain ⟨hret, himpl⟩ := h.kvLpush hclear value
    exact ⟨_, ⟨congrArg (Outcome.ret .size) hret, rfl⟩, himpl⟩
  | rpush calloc key value =>
    obtain ⟨hret, himpl⟩ := h.kvRpush hclear value
    exact ⟨_, ⟨congrArg (Outcome.ret .size) hret, rfl⟩, himpl⟩
  | lpop key =>
    obtain ⟨hret, himpl⟩ := h.kvLpop key
    exact ⟨_, ⟨congrArg Ret.str hret, rfl⟩, himpl⟩
  | rpop key =>
    obtain ⟨hret, himpl⟩ := h.kvRpop key
    exact ⟨_, ⟨congrArg Ret.str hret, rfl⟩, himpl⟩
  | lset key idx value => exact h.meets_lset key idx value
  | lrem key count value =>
    obtain ⟨hret, himpl⟩ := h.kvLrem key count value
    exact ⟨_, ⟨congrArg Ret.size hret, rfl⟩, himpl⟩
  | lpoprpush calloc src dst =>
    obtain ⟨hret, himpl⟩ := h.kvLpoprpush hclear
    exact ⟨_, ⟨congrArg Ret.str hret, rfl⟩, himpl⟩
  | sadd calloc key members =>
    obtain ⟨hret, himpl⟩ := h.kvSadd hclear members
    exact ⟨_, ⟨congrArg (Outcome.ret .size) hret, rfl⟩, himpl⟩
  | srem key members =>
    obtain ⟨hret, himpl⟩ := h.kvSrem key members
    exact ⟨_, ⟨congrArg Ret.size hret, rfl⟩, himpl⟩
  | hset calloc key field value => exact h.meets_hset hclear field value
  | hdel key fields =>
    obtain ⟨hret, himpl⟩ := h.kvHdel key fields
    exact ⟨_, ⟨congrArg Ret.size hret, rfl⟩, himpl⟩
  | zadd calloc key score member rand => exact h.meets_zadd hclear
  | zrem key member => exact h.meets_zrem hclear

/-- One call. -/
theorem call (h : db.Implements d) {c : Call S} (hclear : c.Clear db) :
    ∃ d', c.Spec d (c.exec db).2 d' ∧ (c.exec db).1.Implements d' := by
  cases c with
  | write op => exact h.exec hclear
  | read r => exact ⟨d, ⟨rfl, _, h.answers r, rfl⟩, h⟩

end Implements

/-! ## Opening -/

/-- The database in a file: its records, a later one of a key over an
earlier one. -/
def stored (path : Option CStr) (file : Option (List UInt8)) : Database S :=
  (openCalls path file).foldl (fun d r => d.put r.key ⟨.string r.value, -1⟩) fun _ => none

end KvTable

end AntzKV
