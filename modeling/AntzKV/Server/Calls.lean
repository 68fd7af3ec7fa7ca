/-
AntzKV.Server.Calls — the calls of `kvdb.c` behind a request.

The branches of `process_command` write to the table through the
functions of `kvdb.c` alone. `Command.calls` lists the calls a branch
makes in a given table, in order, and `Command.keys` the keys among its
arguments that they are about. A `Request` is what sets a thread of the
server to work on the table: a line of a client, a write of a peer, or
the next round of the thread that expires keys.
-/
import AntzKV.Cluster.Replica
import AntzKV.Core.CommandsTheorems
import AntzKV.Server.Dispatch

namespace AntzKV

variable {S : Type}

/-! ## Commands -/

/-- The calls of the option loop of SET. -/
def optionCalls (now : Nat → Int) (key : CStr) : Nat → List CStr → List (StoreOp S)
  | i, opt :: arg :: options =>
    if strcasecmpEq opt (.lit "EX") then
      .setTtl key (wrap64 (now i + argI arg * 1000)) :: optionCalls now key (i + 1) options
    else if strcasecmpEq opt (.lit "PX") then
      .setTtl key (wrap64 (now i + argI arg)) :: optionCalls now key (i + 1) options
    else []
  | _, _ => []

/-- The calls of a string write or a DEL; where one is made only if an
earlier one has returned 0, the table decides. -/
def StringCommand.calls (env : Env) (db : KvTable S) : StringCommand → List (StoreOp S)
  | .set k v options =>
    .table (.set env.calloc k v env.usec) ::
      if (db.kvSet env.calloc k v env.usec).2 = 0 then optionCalls env.now k 0 options else []
  | .setnx k v => if db.kvExists k then [] else [.table (.set env.calloc k v env.usec)]
  | .setex k t v =>
    .table (.set env.calloc k v env.usec) ::
      if (db.kvSet env.calloc k v env.usec).2 ≠ 0 then []
      else [.setTtl k (wrap64 (env.now 0 + wrap64 (argI t * 1000)))]
  | .append k v => [.append env.calloc k v env.usec]
  | .incr k => [.incrby env.calloc k 1 env.usec]
  | .decr k => [.incrby env.calloc k (wrap64 (-1)) env.usec]
  | .incrby k d => [.incrby env.calloc k (argI d) env.usec]
  | .decrby k d => [.incrby env.calloc k (wrap64 (-argI d)) env.usec]
  | .del ks => ks.map fun k => .table (.del k)

def StringCommand.keys : StringCommand → List CStr
  | .set k _ _ => [k]
  | .setnx k _ => [k]
  | .setex k _ _ => [k]
  | .append k _ => [k]
  | .incr k => [k]
  | .decr k => [k]
  | .incrby k _ => [k]
  | .decrby k _ => [k]
  | .del ks => ks

/-- The calls of a branch. -/
def Command.calls (w : World S) (db : KvTable S) : Command → List (StoreOp S)
  | .string c => c.calls w.toEnv db
  | .expire key seconds => [.setTtl key (wrap64 (w.now 0 + wrap64 (argI seconds * 1000)))]
  | .persist key => [.setTtl key (-1)]
  | .lpush key values => values.mapIdx fun i v => .lpush (w.callocs i) key v
  | .rpush key values => values.mapIdx fun i v => .rpush (w.callocs i) key v
  | .lpop key => [.lpop key]
  | .rpop key => [.rpop key]
  | .lset key idx value => [.lset key (argI idx) value]
  | .lrem key count value => [.lrem key (argI count) value]
  | .rpoplpush src dst => [.lpoprpush w.calloc src dst]
  | .sadd key members => [.sadd w.calloc key members]
  | .srem key members => [.srem key members]
  | .hset key field value => [.hset w.calloc key field value]
  | .hdel key fields => [.hdel key fields]
  | .zadd key pairs =>
    pairs.mapIdx fun i p => .zadd (w.callocs i) key (w.strtod p.1) p.2 (w.draws i)
  | .zrem key members => members.map (.zrem key)
  | _ => []

/-- The keys a branch writes. -/
def Command.keys : Command → List CStr
  | .string c => c.keys
  | .expire key _ => [key]
  | .persist key => [key]
  | .lpush key _ => [key]
  | .rpush key _ => [key]
  | .lpop key => [key]
  | .rpop key => [key]
  | .lset key _ _ => [key]
  | .lrem key _ _ => [key]
  | .rpoplpush src dst => [src, dst]
  | .sadd key _ => [key]
  | .srem key _ => [key]
  | .hset key _ _ => [key]
  | .hdel key _ => [key]
  | .zadd key _ => [key]
  | .zrem key _ => [key]
  | _ => []

/-! ## Requests -/

/-- The call of `handle_client` for a write of a peer. -/
def ReplWrite.call : ReplWrite → StoreOp S
  | .set key value m =>
    .table (.setObject true key ((DbObject.objCreateString value m.wallclock).stamp (some m))
      (some m))
  | .del key m => .table (.delMeta key m)

/-- What sets a thread of the server to work on the table. -/
inductive Request (S : Type) where
  | line (w : World S) (ps : PubsubMgr) (fd : Int) (text : CStr)
  | replicated (write : ReplWrite)
  | expire (now : Int) (rand : Nat → Nat)

namespace Request

/-- The calls of a request; `expire_thread` samples 20 entries. -/
def calls (db : KvTable S) : Request S → List (StoreOp S)
  | line w _ _ text =>
    match parseLine text maxArgs with
    | [] => []
    | cmd :: args => (branch cmd args).calls w db
  | replicated write => [write.call]
  | expire now rand => [.table (.activeExpire 20 now rand)]

/-- The words of a request: its arguments, or the key of a write. -/
def words : Request S → List CStr
  | line _ _ _ text => (parseLine text maxArgs).tail
  | replicated write => [write.key]
  | expire _ _ => []

/-- Some state of the table makes the request make this call. -/
def Makes (req : Request S) (op : StoreOp S) : Prop := ∃ db, op ∈ req.calls db

end Request

/-- A server as it starts, with the file at its path. -/
def Server.opened (myId : NodeOrigin) (path : Option CStr) (file : Option (List UInt8)) : Server S :=
  ⟨KvTable.kvOpen path file, myId, [], false⟩

/-- A request served from beginning to end: the server, and what it sent.
A dead process serves nothing more. -/
def Server.serve [LinearOrder S] (srv : Server S) (req : Request S) :
    Server S × List (Int × List UInt8) :=
  if srv.crashed then (srv, [])
  else
    match req with
    | .line w ps fd text => srv.processCommandSends w ps fd text
    | .replicated write => ({ srv with db := write.apply srv.db }, [])
    | .expire now rand => ({ srv with db := (srv.db.kvActiveExpire 20 now rand).1 }, [])

end AntzKV
