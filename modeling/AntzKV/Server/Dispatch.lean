/-
AntzKV.Server.Dispatch — `process_command` with all its branches, and the
bytes it sends.

A request is cut into arguments by `parse_line`; the first names the
command. The names are distinct, so the chain of tests is a table, and a
branch whose arity test fails falls through to the final error. What a
branch replies is a `CmdReply`, written out by the `send_*` functions.

`World` is what a command reads besides its arguments: clocks, random
draws, outcomes of allocations, what `strtod` and `%g` make of scores, and
what an uninitialised local holds when a failed call has left it alone.
-/
import AntzKV.Core.Reads
import AntzKV.Server.PubSub
import AntzKV.Server.StringCommands

namespace AntzKV

open Scanf (decimal decimalInt)

variable {S : Type}

/-! ## Sending -/

/-- What `process_command` hands to its `send_*` functions. -/
inductive CmdReply where
  | simple (text : CStr)
  | err (text : CStr)
  | int (n : Int)
  | bulk (s : Option CStr)
  | array (items : List CStr)
  deriving DecidableEq

/-- The strings a reply renders. -/
def CmdReply.strings : CmdReply → List CStr
  | .bulk s => s.toList
  | .array items => items
  | _ => []

/-- `send_reply` -/
def sendReply (msg : List UInt8) : List UInt8 := msg ++ [13, 10]

/-- `send_int`; a 64-bit number fits its buffer. -/
def sendInt (n : Int) : List UInt8 := sendReply (58 :: decimalInt n)

/-- `(size_t)len` in `send_bulk`: the length of the text as `snprintf`
returns it, an `int` that is -1 for more than `INT_MAX` bytes. -/
def bulkLen (s : CStr) : Nat :=
  if (bulkText s).length < 2147483648 then (bulkText s).length else sizeBound - 1

/-- `send_bulk`: `len` bytes are sent of a buffer that holds what
`snprintf` left of them; `stack` is what stands behind the buffer. -/
def sendBulk (stack : List UInt8) : Option CStr → List UInt8
  | none => sendReply (CStr.lit "$-1").bytes
  | some s => (snprintf bulkMsgMax (bulkText s) ++ 0 :: stack).take (bulkLen s) ++ [13, 10]

/-- `send_array_len` -/
def sendArrayLen (n : Nat) : List UInt8 := sendReply (42 :: decimal n)

/-- `send_err` -/
def sendErr (msg : CStr) : List UInt8 := sendReply (snprintf 512 (45 :: msg.bytes))

def CmdReply.send (stack : List UInt8) : CmdReply → List UInt8
  | .simple text => sendReply (43 :: text.bytes)
  | .err text => sendErr text
  | .int n => sendInt n
  | .bulk s => sendBulk stack s
  | .array items => sendArrayLen items.length ++ items.flatMap fun s => sendBulk stack (some s)

/-! ## Commands -/

/-- The branches of `process_command`. -/
inductive Command where
  | ping (arg : Option CStr)
  | quit
  | string (c : StringCommand)
  | read (r : ReadCmd)
  | save
  | ttl (key : CStr)
  | pttl (key : CStr)
  | expire (key seconds : CStr)
  | persist (key : CStr)
  | lpush (key : CStr) (values : List CStr)
  | rpush (key : CStr) (values : List CStr)
  | lpop (key : CStr)
  | rpop (key : CStr)
  | lset (key idx value : CStr)
  | lrem (key count value : CStr)
  | rpoplpush (src dst : CStr)
  | sadd (key : CStr) (members : List CStr)
  | srem (key : CStr) (members : List CStr)
  | hset (key field value : CStr)
  | hdel (key : CStr) (fields : List CStr)
  | zadd (key : CStr) (pairs : List (CStr × CStr))
  | zrem (key : CStr) (members : List CStr)
  | publish (ch : CStr) (words : List CStr)
  | unknown

/-- `for (int i=2; i+1 < argc; i+=2)`: the arguments two by two. -/
def pairUp : List CStr → List (CStr × CStr)
  | a :: b :: rest => (a, b) :: pairUp rest
  | _ => []

/-! The arity tests: so many arguments, at least, and what is made of them. -/

def arity1 (f : CStr → Command) : List CStr → Option Command
  | a :: _ => some (f a)
  | _ => none

def arity2 (f : CStr → CStr → Command) : List CStr → Option Command
  | a :: b :: _ => some (f a b)
  | _ => none

def arity3 (f : CStr → CStr → CStr → Command) : List CStr → Option Command
  | a :: b :: c :: _ => some (f a b c)
  | _ => none

/-- A key and at least one further argument. -/
def arityMany (f : CStr → List CStr → Command) : List CStr → Option Command
  | a :: b :: rest => some (f a (b :: rest))
  | _ => none

/-- The branches behind those of the string writes and DEL. -/
def commandTable : List (CStr × (List CStr → Option Command)) :=
  [(.lit "GET", arity1 fun k => .read (.get k)),
    (.lit "GETRANGE", arity3 fun k s e => .read (.getrange k (argI s) (argI e))),
    (.lit "STRLEN", arity1 fun k => .read (.strlen k)),
    (.lit "EXISTS", fun ks => if ks = [] then none else some (.read (.existsKeys ks))),
    (.lit "TYPE", arity1 fun k => .read (.type k)),
    (.lit "KEYS", fun _ => some (.read .keys)),
    (.lit "SAVE", fun _ => some .save),
    (.lit "TTL", arity1 .ttl),
    (.lit "PTTL", arity1 .pttl),
    (.lit "EXPIRE", arity2 .expire),
    (.lit "PERSIST", arity1 .persist),
    (.lit "LPUSH", arityMany .lpush),
    (.lit "RPUSH", arityMany .rpush),
    (.lit "LPOP", arity1 .lpop),
    (.lit "RPOP", arity1 .rpop),
    (.lit "LLEN", arity1 fun k => .read (.llen k)),
    (.lit "LINDEX", arity2 fun k i => .read (.lindex k (argI i))),
    (.lit "LSET", arity3 .lset),
    (.lit "LREM", arity3 .lrem),
    (.lit "RPOPLPUSH", arity2 .rpoplpush),
    (.lit "SADD", arityMany .sadd),
    (.lit "SREM", arityMany .srem),
    (.lit "SISMEMBER", arity2 fun k m => .read (.sismember k m)),
    (.lit "SCARD", arity1 fun k => .read (.scard k)),
    (.lit "SMEMBERS", arity1 fun k => .read (.smembers k)),
    (.lit "HSET", arity3 .hset),
    (.lit "HGET", arity2 fun k f => .read (.hget k f)),
    (.lit "HDEL", arityMany .hdel),
    (.lit "HEXISTS", arity2 fun k f => .read (.hexists k f)),
    (.lit "HLEN", arity1 fun k => .read (.hlen k)),
    (.lit "HKEYS", arity1 fun k => .read (.hkeys k)),
    (.lit "HVALS", arity1 fun k => .read (.hvals k)),
    (.lit "HGETALL", arity1 fun k => .read (.hgetall k)),
    (.lit "ZADD", fun
      | k :: a :: b :: rest => some (.zadd k (pairUp (a :: b :: rest)))
      | _ => none),
    (.lit "ZREM", arityMany .zrem),
    (.lit "ZSCORE", arity2 fun k m => .read (.zscore k m)),
    (.lit "ZCARD", arity1 fun k => .read (.zcard k)),
    (.lit "ZRANK", arity2 fun k m => .read (.zrank k m)),
    (.lit "ZREVRANK", arity2 fun k m => .read (.zrevrank k m)),
    (.lit "ZRANGE", arity3 fun k s e => .read (.zrange k (argI s) (argI e))),
    (.lit "ZREVRANGE", arity3 fun k s e => .read (.zrevrange k (argI s) (argI e))),
    (.lit "PUBLISH", arityMany .publish)]

/-- The branch a request reaches. -/
def branch (cmd : CStr) (args : List CStr) : Command :=
  if strcasecmpEq cmd (.lit "PING") then .ping args.head?
  else if strcasecmpEq cmd (.lit "QUIT") then .quit
  else
    match route (cmd :: args) with
    | some c => .string c
    | none =>
      match commandTable.find? fun c => strcasecmpEq cmd c.1 with
      | some (_, parse) => (parse args).getD .unknown
      | none => .unknown

/-! ## Executing -/

/-- What a command reads of the world. `callocs`, `draws` are for the
calls of a loop, by their index. -/
structure World (S : Type) extends Env where
  callocs : Nat → Calloc
  draws : Nat → Nat → Nat
  junk : Int
  fopen : Bool
  stack : List UInt8
  strtod : CStr → S
  formatG : S → CStr

/-- The outcomes for the objects alone. -/
def World.objects (w : World S) (n : Nat) : Bool := (w.callocs n).object

/-- The reply to a read; `buf[32]` holds a score. -/
def ReadAnswer.reply (w : World S) : ReadAnswer S → CmdReply
  | .bulk s => .bulk s
  | .int n => .int n
  | .nil => .bulk none
  | .type none => .simple (.lit "none")
  | .type (some .string) => .simple (.lit "string")
  | .type (some .list) => .simple (.lit "list")
  | .type (some .set) => .simple (.lit "set")
  | .type (some .hash) => .simple (.lit "hash")
  | .type (some .zset) => .simple (.lit "zset")
  | .score s => .bulk (s.map fun x => (w.formatG x).take 31)
  | .array l => .array l

/-- The reply of a string write or a DEL. -/
def Reply.toCmdReply : Reply → CmdReply
  | .ok => .simple (.lit "OK")
  | .int n => .int n
  | .err text => .err text

/-- The loop of LPUSH and RPUSH; `len` keeps what it held when a push
fails. -/
def pushAll (push : Calloc → KvTable S → CStr → CStr → KvTable S × Outcome Nat)
    (callocs : Nat → Calloc) (key : CStr) : Nat → List CStr → KvTable S → Int → KvTable S × Int
  | _, [], db, len => (db, len)
  | i, v :: vs, db, len =>
    match push (callocs i) db key v with
    | (db, .ok n) => pushAll push callocs key (i + 1) vs db n
    | (db, _) => pushAll push callocs key (i + 1) vs db len

/-- The loop of ZADD: the table, `added`, and whether a call died. -/
def zaddAll [LinearOrder S] (w : World S) (key : CStr) :
    Nat → List (CStr × CStr) → KvTable S → Int → KvTable S × Option Int
  | _, [], db, added => (db, some added)
  | i, (score, member) :: pairs, db, added =>
    match db.kvZadd (w.callocs i) key (w.strtod score) member (w.draws i) with
    | (db, .ok ()) => zaddAll w key (i + 1) pairs db 1
    | (db, .err) => zaddAll w key (i + 1) pairs db added
    | (db, .segv) => (db, none)

/-- The loop of ZREM; the last member decides `removed`. -/
def zremAll (key : CStr) (members : List CStr) (db : KvTable S) : KvTable S × Int :=
  members.foldl (fun (db, _) m =>
    ((db.kvZrem key m).1, if (db.kvZrem key m).2 then 1 else 0)) (db, 0)

/-- `strncat` of the words of PUBLISH, with blanks between them. -/
def joinWords (words : List CStr) : CStr :=
  .ofBuf ((List.intercalate [32] (words.map CStr.bytes)).take (bulkMsgMax - 1))

namespace Server

/-- The branches that are not string writes: the table, and the reply;
`none` when the process died before it. -/
def execOther [LinearOrder S] (w : World S) (ps : PubsubMgr) (db : KvTable S) :
    Command → KvTable S × Option CmdReply
  | .ping none => (db, some (.simple (.lit "PONG")))
  | .ping (some arg) => (db, some (.bulk (some arg)))
  | .quit => (db, some (.simple (.lit "OK")))
  | .string _ => (db, none)
  | .read r => (db, some ((r.answer db).reply w))
  | .save =>
    (db, some (if db.path.isSome && w.fopen then .simple (.lit "OK") else .err (.lit "ERR")))
  | .ttl key =>
    let t := db.kvTtlMs key
    (db, some (.int (if t < 0 then t else (t - w.now 0).tdiv 1000)))
  | .pttl key =>
    let t := db.kvTtlMs key
    (db, some (.int (if t < 0 then t else t - w.now 0)))
  | .expire key seconds =>
    let (db, r) := db.kvExpire key (wrap64 (argI seconds * 1000)) (w.now 0)
    (db, some (.int (if r = 0 then 1 else 0)))
  | .persist key =>
    let (db, r) := db.kvPersist key
    (db, some (.int (if r = 0 then 1 else 0)))
  | .lpush key values =>
    let (db, len) := pushAll KvTable.kvLpush w.callocs key 0 values db w.junk
    (db, some (.int len))
  | .rpush key values =>
    let (db, len) := pushAll KvTable.kvRpush w.callocs key 0 values db w.junk
    (db, some (.int len))
  | .lpop key => ((db.kvLpop key).1, some (.bulk (db.kvLpop key).2))
  | .rpop key => ((db.kvRpop key).1, some (.bulk (db.kvRpop key).2))
  | .lset key idx value =>
    match db.kvLset key (argI idx) value with
    | (db, .ok ()) => (db, some (.simple (.lit "OK")))
    | (db, _) => (db, some (.err (.lit "ERR index out of range")))
  | .lrem key count value =>
    let (db, n) := db.kvLrem key (argI count) value
    (db, some (.int n))
  | .rpoplpush src dst =>
    let (db, v) := db.kvLpoprpush w.calloc src dst
    (db, some (.bulk v))
  | .sadd key members =>
    match db.kvSadd w.calloc key members with
    | (db, .ok added) => (db, some (.int added))
    | (db, _) => (db, some (.int 0))
  | .srem key members =>
    let (db, n) := db.kvSrem key members
    (db, some (.int n))
  | .hset key field value =>
    match db.kvHset w.calloc key field value with
    | (db, .ok created) => (db, some (.int (if created then 1 else 0)))
    | (db, _) => (db, some (.int w.junk))
  | .hdel key fields =>
    let (db, n) := db.kvHdel key fields
    (db, some (.int n))
  | .zadd key pairs =>
    let (db, added) := zaddAll w key 0 pairs db 0
    (db, added.map .int)
  | .zrem key members =>
    let (db, n) := zremAll key members db
    (db, some (.int n))
  | .publish ch words => (db, some (.int (ps.pubsubPublish ch (joinWords words)).length))
  | .unknown => (db, some (.err (.lit "ERR unknown command")))

/-- A branch, with the reply it hands to `send_*`. -/
def execCommand [LinearOrder S] (w : World S) (ps : PubsubMgr) (srv : Server S) :
    Command → Server S × Option CmdReply
  | .string c =>
    let (srv, reply) := srv.exec w.toEnv c
    (srv, reply.map Reply.toCmdReply)
  | c =>
    let (db, reply) := execOther w ps srv.db c
    ({ srv with db := db, crashed := srv.crashed || reply.isNone }, reply)

/-- The messages a PUBLISH sends before its reply. -/
def published (ps : PubsubMgr) : Command → List (Int × List UInt8)
  | .publish ch words => ps.pubsubPublish ch (joinWords words)
  | _ => []

/-- `process_command(fd, line)`: the server after it, and what it sent on
which descriptor. -/
def processCommandSends [LinearOrder S] (w : World S) (ps : PubsubMgr) (srv : Server S) (fd : Int)
    (line : CStr) : Server S × List (Int × List UInt8) :=
  match parseLine line maxArgs with
  | [] => (srv, [])
  | cmd :: args =>
    let c := branch cmd args
    let (srv, reply) := srv.execCommand w ps c
    (srv, published ps c ++ (reply.map fun r => (fd, r.send w.stack)).toList)

/-- The bytes sent on one descriptor. -/
def sentOn (fd : Int) (sends : List (Int × List UInt8)) : List UInt8 :=
  (sends.filter fun s => s.1 = fd).flatMap Prod.snd

end Server

end AntzKV
