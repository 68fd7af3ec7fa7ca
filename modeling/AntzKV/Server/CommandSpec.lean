/-
AntzKV.Server.CommandSpec — what the commands mean.

A command is a question to the database and a change of it. `Spec` gives
both for every branch of `process_command`: what may be replied, and the
database after it. Nothing here knows of hash tables, lists of nodes or
skip lists, of room or of memory; a reply is open only where the source
leaves it to the world (SAVE) or to an order of enumeration (`Answers`).
-/
import AntzKV.Core.DatabaseRunTheorems
import AntzKV.Server.Calls

namespace AntzKV

variable {S : Type}

open Database (Expired appended)

/-! ## String writes and DEL -/

/-- The deadlines the options of SET give, in order. -/
def optionDeadlines (now : Nat → Int) : Nat → List CStr → List Int
  | i, opt :: arg :: options =>
    if strcasecmpEq opt (.lit "EX") then
      wrap64 (now i + argI arg * 1000) :: optionDeadlines now (i + 1) options
    else if strcasecmpEq opt (.lit "PX") then
      wrap64 (now i + argI arg) :: optionDeadlines now (i + 1) options
    else []
  | _, _ => []

namespace Database

/-- The keys of a list that have a value, each once. -/
def present (d : Database S) (keys : List CStr) : Finset CStr :=
  keys.toFinset.filter fun k => (d k).isSome

/-- A counter's answer, or the text that it has none. -/
def counted (text : CStr) (n : Option Int) : Reply := n.elim (.err text) .int

end Database

namespace StringCommand

/-- The reply of a string write or a DEL. -/
def replyOn (d : Database S) : StringCommand → Reply
  | .set _ _ _ => .ok
  | .setnx _ _ => .int 1
  | .setex _ _ _ => .ok
  | .append k v => .int (appended v ((d.string k).getD (.lit ""))).strlen
  | .incr k => Database.counted (.lit "ERR value is not an integer") (d.incrby k 1).2
  | .decr k => Database.counted (.lit "ERR value is not an integer") (d.incrby k (wrap64 (-1))).2
  | .incrby k t => Database.counted (.lit "ERR") (d.incrby k (argI t)).2
  | .decrby k t => Database.counted (.lit "ERR") (d.incrby k (wrap64 (-argI t))).2
  | .del ks => .int (d.present ks).card

/-- The database after it. -/
def after (env : Env) (d : Database S) : StringCommand → Database S
  | .set k v options =>
    (optionDeadlines env.now 0 options).foldl (fun d ttl => d.setTtl k ttl) (d.put k ⟨.string v, -1⟩)
  | .setnx k v => if (d k).isSome then d else d.put k ⟨.string v, -1⟩
  | .setex k t v => d.put k ⟨.string v, wrap64 (env.now 0 + wrap64 (argI t * 1000))⟩
  | .append k v => d.append k v
  | .incr k => (d.incrby k 1).1
  | .decr k => (d.incrby k (wrap64 (-1))).1
  | .incrby k t => (d.incrby k (argI t)).1
  | .decrby k t => (d.incrby k (wrap64 (-argI t))).1
  | .del ks => ks.foldl Database.del d

end StringCommand

/-! ## All commands -/

namespace Database

/-- The time a key has left, as `kv_ttl_ms` puts it: -2 without a value,
-1 for a value that stays. -/
def deadline (d : Database S) (key : CStr) : Int :=
  (d key).elim (-2) fun e => if e.ttl < 0 then -1 else e.ttl

/-- ZREM replies for its last member. -/
def lastRemoved (d : Database S) (key : CStr) (members : List CStr) : Int :=
  members.getLast?.elim 0 fun m =>
    if m ∈ (members.dropLast.foldl (fun d m => d.zrem key m) d).scores key then 1 else 0

end Database

namespace Command

/-- The database after a command. -/
def after [LinearOrder S] (w : World S) (d : Database S) : Command → Database S
  | .string c => c.after w.toEnv d
  | .expire key seconds => d.setTtl key (wrap64 (w.now 0 + wrap64 (argI seconds * 1000)))
  | .persist key => d.setTtl key (-1)
  | .lpush key values => values.foldl (fun d v => d.lpush key v) d
  | .rpush key values => values.foldl (fun d v => d.rpush key v) d
  | .lpop key => d.lpop key
  | .rpop key => d.rpop key
  | .lset key idx value => d.lset key (argI idx) value
  | .lrem key count value => d.lrem key (argI count) value
  | .rpoplpush src dst => d.lpoprpush src dst
  | .sadd key members => d.sadd key members
  | .srem key members => d.srem key members
  | .hset key field value => d.hset key field value
  | .hdel key fields => d.hdel key fields
  | .zadd key pairs => pairs.foldl (fun d p => d.zadd key (w.strtod p.1) p.2) d
  | .zrem key members => members.foldl (fun d m => d.zrem key m) d
  | _ => d

/-- The reply to a command may be this. -/
def Replies [LinearOrder S] (w : World S) (ps : PubsubMgr) (d : Database S) (r : CmdReply) :
    Command → Prop
  | .ping arg => r = arg.elim (.simple (.lit "PONG")) fun arg => .bulk (some arg)
  | .quit => r = .simple (.lit "OK")
  | .string c => r = (c.replyOn d).toCmdReply
  | .read cmd => ∃ a, cmd.Answers d a ∧ r = a.reply w
  | .save => r = .simple (.lit "OK") ∨ r = .err (.lit "ERR")
  | .ttl key =>
    r = .int (if d.deadline key < 0 then d.deadline key else (d.deadline key - w.now 0).tdiv 1000)
  | .pttl key => r = .int (if d.deadline key < 0 then d.deadline key else d.deadline key - w.now 0)
  | .expire key _ => r = .int (if (d key).isSome then 1 else 0)
  | .persist key => r = .int (if (d key).isSome then 1 else 0)
  | .lpush key values =>
    r = .int (if values = [] then w.junk else (d.elements key).length + values.length)
  | .rpush key values =>
    r = .int (if values = [] then w.junk else (d.elements key).length + values.length)
  | .lpop key => r = .bulk (d.elements key).head?
  | .rpop key => r = .bulk (d.elements key).getLast?
  | .lset key idx _ =>
    r = if RefList.InRange (d.elements key) (argI idx) then .simple (.lit "OK")
      else .err (.lit "ERR index out of range")
  | .lrem key count value =>
    r = .int ((d.elements key).length
      - (RefList.remove (argI count) value (d.elements key)).length : Nat)
  | .rpoplpush src _ => r = .bulk (d.last? src)
  | .sadd key members => r = .int (members.toFinset \ d.members key).card
  | .srem key members => r = .int (members.toFinset ∩ d.members key).card
  | .hset key field _ => r = .int (if field ∈ d.fields key then 0 else 1)
  | .hdel key fields => r = .int (fields.toFinset ∩ (d.fields key).keys).card
  | .zadd _ pairs => r = .int (if pairs = [] then 0 else 1)
  | .zrem key members => r = .int (d.lastRemoved key members)
  | .publish ch words => r = .int (ps.pubsubPublish ch (joinWords words)).length
  | .unknown => r = .err (.lit "ERR unknown command")

end Command

/-! ## Requests -/

/-- A request of a server, seen from the database: what is sent, and the
database after it. -/
def Request.Spec [LinearOrder S] (d : Database S) :
    Request S → List (Int × List UInt8) → Database S → Prop
  | .line w ps fd text, sends, d' =>
    match parseLine text maxArgs with
    | [] => sends = [] ∧ d' = d
    | cmd :: args => ∃ r, (branch cmd args).Replies w ps d r ∧ d' = (branch cmd args).after w d ∧
      sends = Server.published ps (branch cmd args) ++ [(fd, r.send w.stack)]
  | .replicated (.set key value _), sends, d' => sends = [] ∧ d' = d.put key ⟨.string value, -1⟩
  | .replicated (.del key _), sends, d' => sends = [] ∧ (d' = d ∨ d' = d.del key)
  | .expire now _, sends, d' => sends = [] ∧ Expired now d d'

/-- The calls of a request are `Clear` in the tables they are made on. -/
def Request.Clear [LinearOrder S] (db : KvTable S) (req : Request S) : Prop :=
  Run.Guarded StoreOp.step (fun db op => op.Clear db) db (req.calls db)

end AntzKV
