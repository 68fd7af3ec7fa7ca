/-
AntzKV.Core.Reads — the commands of `kvdb.c` that read.

Each takes the object of a key, tests its type and reads the structure
behind its `ptr`. A `char *` result that is NULL is `none`; an array
result is the list of its strings. A walk along a chain of nodes has the
number of nodes ever allocated for its fuel.

`ReadCmd` collects them, as the server's read commands call them.
-/
import AntzKV.Core.Commands

namespace AntzKV

variable {S : Type}

namespace Zskiplist

/-! ## Walks -/

/-- `while (n && p(n)) { ++rank; n = next(n); }` -/
def walkRank (z : Zskiplist S) (p : ZskiplistNode S → Bool) (next : ZskiplistNode S → Option Nat) :
    Nat → Option Nat → Nat
  | 0, _ => 0
  | _ + 1, none => 0
  | fuel + 1, some a =>
    match z.nodes.get a with
    | none => 0
    | some n => if p n then walkRank z p next fuel (next n) + 1 else 0

section Rank

variable [LinearOrder S]

def zslRank (z : Zskiplist S) (score : S) (member : CStr) : Nat :=
  z.walkRank (fun n => decide (n.score < score) ||
    (decide (n.score = score) && strcmp n.member member == .lt)) (fun n => n.forward.getD 0 none)
    z.nodes.fresh (z.fwd .root 0)

def zslRevrank (z : Zskiplist S) (score : S) (member : CStr) : Nat :=
  z.walkRank (fun n => decide (score < n.score) ||
    (decide (n.score = score) && strcmp n.member member == .gt)) (·.backward) z.nodes.fresh z.tail

end Rank

/-- The loop of `kv_zrange` and `kv_zrevrange`: from the node `a` on, skip
`skip` members and take `left`. -/
def walkRange (z : Zskiplist S) (next : ZskiplistNode S → Option Nat) :
    Nat → Option Nat → Nat → Nat → List CStr
  | 0, _, _, _ => []
  | _ + 1, none, _, _ => []
  | _ + 1, some _, _, 0 => []
  | fuel + 1, some a, skip, left + 1 =>
    match z.nodes.get a with
    | none => []
    | some n =>
      match skip with
      | 0 => n.member :: walkRange z next fuel (next n) 0 left
      | skip + 1 => walkRange z next fuel (next n) skip (left + 1)

/-- The bounds of a range: negative ones count from the end; `none` when
the range is empty, else the first index and the number of members. -/
def rangeBounds (z : Zskiplist S) (start stop : Int) : Option (Nat × Nat) :=
  let len : Int := z.length
  let start := if start < 0 then start + len else start
  let stop := if stop < 0 then stop + len else stop
  let start := if start < 0 then 0 else start
  let stop := if stop ≥ len then len - 1 else stop
  if start > stop then none else some (start.toNat, (stop - start + 1).toNat)

end Zskiplist

namespace KvTable

/-! ## Strings and keys -/

/-- `kv_getrange`; a missing key reads as the empty string. -/
def kvGetrange (db : KvTable S) (key : CStr) (start stop : Int) : CStr :=
  match db.getStringObj key with
  | none => .lit ""
  | some s =>
    let len : Int := s.strlen
    let start := if start < 0 then start + len else start
    let start := if start < 0 then 0 else start
    let start := if start > len then len else start
    let stop := if stop < 0 then stop + len else stop
    let stop := if stop < 0 then -1 else stop
    let stop := if stop > len - 1 then len - 1 else stop
    if start > stop then .lit ""
    else .ofBuf ((s.bytes.drop start.toNat).take (stop - start + 1).toNat)

/-- `kv_strlen`; `none` is the return value -1. -/
def kvStrlen (db : KvTable S) (key : CStr) : Option Nat := (db.getStringObj key).map (·.strlen)

/-- `kv_keys`: the occupied entries in table order, `count` of them at
most. -/
def kvKeys (db : KvTable S) : List CStr :=
  (db.entries.filterMap OpenAddressing.Slot.key?).take db.count

/-- The loop of `kv_keys` over the entries that are left: `j` keys copied
so far, `n` at most; `strdup j` says that the copy of key `j` succeeds. -/
def kvKeysLoop (strdup : Nat → Bool) (n : Nat) :
    List (KvEntry S) → Nat → List CStr → Option (List CStr × Nat)
  | [], j, keys => some (keys, j)
  | e :: es, j, keys =>
    if j < n then
      match e with
      | .occupied k _ =>
        if strdup j then kvKeysLoop strdup n es (j + 1) (keys ++ [k]) else none
      | _ => kvKeysLoop strdup n es j keys
    else some (keys, j)

/-- `kv_keys` with its allocations: `*out_keys` and `*out_count`, or the
return value -1. `kvKeys` is what it returns when none fails. -/
def kvKeysAlloc (malloc : Bool) (strdup : Nat → Bool) (db : KvTable S) :
    Option (List CStr × Nat) :=
  if malloc then kvKeysLoop strdup db.count db.entries 0 [] else none

/-- `kv_ttl_ms` -/
def kvTtlMs (db : KvTable S) (key : CStr) : Int :=
  match db.kvGetObject key with
  | none => -2
  | some o => if o.ttl < 0 then -1 else o.ttl

/-! ## Lists -/

def kvLlen (db : KvTable S) (key : CStr) : Nat := (db.wrObj DbObject.list? key).elim 0 (·.len)

def kvLindex (db : KvTable S) (key : CStr) (idx : Int) : Option CStr :=
  (db.wrObj DbObject.list? key).bind fun l => l.dlistGet idx

/-! ## Sets and hashes -/

def kvSismember (db : KvTable S) (key member : CStr) : Bool :=
  (db.wrObj DbObject.set? key).elim false (·.htExists member)

def kvScard (db : KvTable S) (key : CStr) : Nat := (db.wrObj DbObject.set? key).elim 0 (·.count)

def kvSmembers (db : KvTable S) (key : CStr) : List CStr :=
  (db.wrObj DbObject.set? key).elim [] (·.htKeys)

def kvHget (db : KvTable S) (key field : CStr) : Option CStr :=
  (db.wrObj DbObject.hash? key).bind fun ht => ht.htGet field

def kvHexists (db : KvTable S) (key field : CStr) : Bool :=
  (db.wrObj DbObject.hash? key).elim false (·.htExists field)

def kvHlen (db : KvTable S) (key : CStr) : Nat := (db.wrObj DbObject.hash? key).elim 0 (·.count)

def kvHkeys (db : KvTable S) (key : CStr) : List CStr :=
  (db.wrObj DbObject.hash? key).elim [] (·.htKeys)

def kvHvals (db : KvTable S) (key : CStr) : List CStr :=
  (db.wrObj DbObject.hash? key).elim [] (·.htItems)

/-- `kv_hgetall` looks each key of `ht_keys` up again. -/
def kvHgetall (db : KvTable S) (key : CStr) : List CStr :=
  (db.wrObj DbObject.hash? key).elim [] fun ht =>
    ht.htKeys.flatMap fun k => [k, (ht.htGet k).getD (.lit "")]

/-! ## Sorted sets -/

section Rank

variable [LinearOrder S]

/-- `kv_zrank`: -1 for a member that is not there. -/
def kvZrank (db : KvTable S) (key member : CStr) : Int :=
  match db.wrObj DbObject.zset? key with
  | none => -1
  | some z => (z.scoreOf member).elim (-1) fun score => z.zslRank score member

def kvZrevrank (db : KvTable S) (key member : CStr) : Int :=
  match db.wrObj DbObject.zset? key with
  | none => -1
  | some z => (db.kvZscore key member).elim (-1) fun score => z.zslRevrank score member

end Rank

def kvZrange (db : KvTable S) (key : CStr) (start stop : Int) : List CStr :=
  match db.wrObj DbObject.zset? key with
  | none => []
  | some z =>
    match z.rangeBounds start stop with
    | none => []
    | some (skip, n) =>
      z.walkRange (fun n => n.forward.getD 0 none) z.nodes.fresh (z.fwd .root 0) skip n

/-- `kv_zrevrange`, which leaves the chain of `backward` after `length`
nodes. -/
def kvZrevrange (db : KvTable S) (key : CStr) (start stop : Int) : List CStr :=
  match db.wrObj DbObject.zset? key with
  | none => []
  | some z =>
    match z.rangeBounds start stop with
    | none => []
    | some (skip, n) => z.walkRange (·.backward) z.length z.tail skip n

end KvTable

/-! ## The read commands -/

inductive ReadCmd where
  | get (key : CStr)
  | getrange (key : CStr) (start stop : Int)
  | strlen (key : CStr)
  | existsKeys (ks : List CStr)
  | type (key : CStr)
  | keys
  | llen (key : CStr)
  | lindex (key : CStr) (idx : Int)
  | sismember (key member : CStr)
  | scard (key : CStr)
  | smembers (key : CStr)
  | hget (key field : CStr)
  | hexists (key field : CStr)
  | hlen (key : CStr)
  | hkeys (key : CStr)
  | hvals (key : CStr)
  | hgetall (key : CStr)
  | zscore (key member : CStr)
  | zcard (key : CStr)
  | zrank (key member : CStr)
  | zrevrank (key member : CStr)
  | zrange (key : CStr) (start stop : Int)
  | zrevrange (key : CStr) (start stop : Int)

/-- What a read command answers, before it is written out. -/
inductive ReadAnswer (S : Type) where
  | bulk (s : Option CStr)
  | int (n : Int)
  | nil
  | type (t : Option ObjType)
  | score (s : Option S)
  | array (l : List CStr)
  deriving DecidableEq

/-- The read a command makes. -/
def ReadCmd.answer [LinearOrder S] (db : KvTable S) : ReadCmd → ReadAnswer S
  | .get key => .bulk (db.kvGet key)
  | .getrange key start stop => .bulk (some (db.kvGetrange key start stop))
  | .strlen key => (db.kvStrlen key).elim .nil fun n => .int n
  | .existsKeys ks => .int (ks.countP fun k => db.kvExists k)
  | .type key => .type ((db.kvGetObject key).map DbObject.type)
  | .keys => .array db.kvKeys
  | .llen key => .int (db.kvLlen key)
  | .lindex key idx => .bulk (db.kvLindex key idx)
  | .sismember key member => .int (if db.kvSismember key member then 1 else 0)
  | .scard key => .int (db.kvScard key)
  | .smembers key => .array (db.kvSmembers key)
  | .hget key field => .bulk (db.kvHget key field)
  | .hexists key field => .int (if db.kvHexists key field then 1 else 0)
  | .hlen key => .int (db.kvHlen key)
  | .hkeys key => .array (db.kvHkeys key)
  | .hvals key => .array (db.kvHvals key)
  | .hgetall key => .array (db.kvHgetall key)
  | .zscore key member => .score (db.kvZscore key member)
  | .zcard key => .int (db.kvZcard key)
  | .zrank key member => .int (db.kvZrank key member)
  | .zrevrank key member => .int (db.kvZrevrank key member)
  | .zrange key start stop => .array (db.kvZrange key start stop)
  | .zrevrange key start stop => .array (db.kvZrevrange key start stop)

end AntzKV
