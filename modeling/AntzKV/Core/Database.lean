/-
AntzKV.Core.Database — what the store is for.

A database maps keys to items, an item is a value of one of five types
with its expiry, and a value is a mathematical object: a list, a finite
set, a finite map. No entry array, no chains, no links, no levels, no
memory and no metadata.

`upsert` is the one way a command writes to a key it may have to create,
`adjust` the way it changes a value that is there. `StoreOp.Effect` says
what each call of `kvdb.c` does to the database, `ReadCmd.Answers` what
each read answers. Where the store is free, they are relations: in which
order it enumerates, whether a remote delete is new enough, how much of
what is due one pass of the expiry removes.
-/
import AntzKV.Core.ConcurrentUpdatesTheorems
import AntzKV.Core.CounterTheorems
import AntzKV.Core.GetrangeTheorems
import AntzKV.Core.SortedSetTheorems
import AntzKV.Lib.IndexSlice

namespace AntzKV

open IndexSlice (slice)

variable {S : Type}

/-! ## Values -/

/-- A hash: fields to values. -/
abbrev FieldMap := Finmap fun _ : CStr => CStr

inductive Value (S : Type) where
  | string (s : CStr)
  | list (vs : List CStr)
  | set (ms : Finset CStr)
  | hash (fs : FieldMap)
  | zset (M : ScoreMap S)

namespace Value

def type : Value S → ObjType
  | .string _ => .string
  | .list _ => .list
  | .set _ => .set
  | .hash _ => .hash
  | .zset _ => .zset

def string? : Value S → Option CStr
  | .string s => some s
  | _ => none

def list? : Value S → Option (List CStr)
  | .list vs => some vs
  | _ => none

def set? : Value S → Option (Finset CStr)
  | .set ms => some ms
  | _ => none

def hash? : Value S → Option FieldMap
  | .hash fs => some fs
  | _ => none

def zset? : Value S → Option (ScoreMap S)
  | .zset M => some M
  | _ => none

end Value

/-- A value with its expiry in msec, -1 for none. -/
structure Item (S : Type) where
  value : Value S
  ttl : Int

abbrev Database (S : Type) := CStr → Option (Item S)

namespace Database

def put (d : Database S) (key : CStr) (e : Item S) : Database S := Function.update d key (some e)

def del (d : Database S) (key : CStr) : Database S := Function.update d key none

def setTtl (d : Database S) (key : CStr) (ttl : Int) : Database S :=
  Function.update d key ((d key).map fun e => { e with ttl := ttl })

/-- The expiry a value of type `ty` is written with: a value of its own
type hands its expiry on, anything else is replaced. -/
def ttlFor (d : Database S) (key : CStr) (ty : ObjType) : Int :=
  (d key).elim (-1) fun e => if e.value.type = ty then e.ttl else -1

def write (d : Database S) (key : CStr) (v : Value S) : Database S :=
  d.put key ⟨v, d.ttlFor key v.type⟩

/-- The value of a key, if it is of the type asked for. -/
def read {γ : Type} (d : Database S) (sel : Value S → Option γ) (key : CStr) : Option γ :=
  (d key).bind fun e => sel e.value

/-- Change the value of a key, starting from `zero` where the key has no
value of the type. -/
def upsert {γ : Type} (d : Database S) (sel : Value S → Option γ) (mk : γ → Value S) (zero : γ)
    (key : CStr) (f : γ → γ) : Database S :=
  d.write key (mk (f ((d.read sel key).getD zero)))

/-- Change the value of a key that has one of the type. -/
def adjust {γ : Type} (d : Database S) (sel : Value S → Option γ) (mk : γ → Value S) (key : CStr)
    (f : γ → γ) : Database S :=
  (d.read sel key).elim d fun c => d.write key (mk (f c))

/-- The keys that have a value. -/
def keys (d : Database S) : Set CStr := {k | (d k).isSome = true}

/-- Only keys due at `now` have gone. -/
def Expired (now : Int) (d d' : Database S) : Prop :=
  ∀ k, d' k = d k ∨ ∃ e, d k = some e ∧ d' k = none ∧ 0 ≤ e.ttl ∧ e.ttl ≤ now

/-! ## The commands -/

/-- A string with a suffix. -/
def appended (suffix s : CStr) : CStr := .ofBuf (s.bytes ++ suffix.bytes)

/-- What a key counts; 0 if it has no string. -/
def number (d : Database S) (key : CStr) : Int := (d.read Value.string? key).elim 0 numberOf

/-- The key holds something that cannot be added to. -/
def Uncountable (d : Database S) (key : CStr) : Prop :=
  (d key).isSome = true ∧ d.read Value.string? key = none

instance (d : Database S) (key : CStr) : Decidable (d.Uncountable key) :=
  inferInstanceAs (Decidable (_ ∧ _))

def incrby (d : Database S) (key : CStr) (delta : Int) : Database S × Option Int :=
  if d.Uncountable key then (d, none)
  else
    (d.write key (.string (decimalText (wrap64 (d.number key + delta)))),
      some (wrap64 (d.number key + delta)))

def append (d : Database S) (key suffix : CStr) : Database S :=
  d.upsert Value.string? .string (.lit "") key (appended suffix)

def lpush (d : Database S) (key value : CStr) : Database S :=
  d.upsert Value.list? .list [] key (value :: ·)

def rpush (d : Database S) (key value : CStr) : Database S :=
  d.upsert Value.list? .list [] key (· ++ [value])

def lpop (d : Database S) (key : CStr) : Database S := d.adjust Value.list? .list key List.tail

def rpop (d : Database S) (key : CStr) : Database S := d.adjust Value.list? .list key List.dropLast

/-- LSET is refused outside the list. -/
def lset (d : Database S) (key : CStr) (idx : Int) (value : CStr) : Database S :=
  d.adjust Value.list? .list key fun vs =>
    if RefList.InRange vs idx then vs.set (RefList.position vs idx).toNat value else vs

def lrem (d : Database S) (key : CStr) (count : Int) (value : CStr) : Database S :=
  d.adjust Value.list? .list key (RefList.remove count value)

/-- The last element of a list. -/
def last? (d : Database S) (key : CStr) : Option CStr := (d.read Value.list? key).bind List.getLast?

def lpoprpush (d : Database S) (src dst : CStr) : Database S :=
  (d.last? src).elim (d.rpop src) ((d.rpop src).lpush dst)

def sadd (d : Database S) (key : CStr) (members : List CStr) : Database S :=
  d.upsert Value.set? .set ∅ key (· ∪ members.toFinset)

def srem (d : Database S) (key : CStr) (members : List CStr) : Database S :=
  d.adjust Value.set? .set key (· \ members.toFinset)

def hset (d : Database S) (key field value : CStr) : Database S :=
  d.upsert Value.hash? .hash ∅ key (·.insert field value)

def hdel (d : Database S) (key : CStr) (fields : List CStr) : Database S :=
  d.adjust Value.hash? .hash key fun fs => fields.foldl (fun fs f => fs.erase f) fs

def zadd (d : Database S) (key : CStr) (score : S) (member : CStr) : Database S :=
  d.upsert Value.zset? .zset ∅ key (·.insert member score)

def zrem (d : Database S) (key member : CStr) : Database S :=
  d.adjust Value.zset? .zset key (·.erase member)

end Database

/-! ## The reads -/

namespace Database

variable (d : Database S)

def string (key : CStr) : Option CStr := d.read Value.string? key

/-- The elements of a list; a key without a list reads as an empty one,
and so with the other types. -/
def elements (key : CStr) : List CStr := (d.read Value.list? key).getD []

def members (key : CStr) : Finset CStr := (d.read Value.set? key).getD ∅

def fields (key : CStr) : FieldMap := (d.read Value.hash? key).getD ∅

def scores (key : CStr) : ScoreMap S := (d.read Value.zset? key).getD ∅

end Database

/-- A list of all of a finite set, each once. -/
def Lists (l : List CStr) (s : Finset CStr) : Prop := l.Nodup ∧ l.toFinset = s

/-- The members of a sorted set by score, equal scores by member. -/
def Ranked [LinearOrder S] (M : ScoreMap S) (l : List CStr) : Prop :=
  Lists l M.keys ∧ l.Pairwise fun a b => ∀ s ∈ M.lookup a, ∀ t ∈ M.lookup b,
    s < t ∨ (s = t ∧ a < b)

/-- The answers of a read command. -/
def ReadCmd.Answers [LinearOrder S] (d : Database S) : ReadCmd → ReadAnswer S → Prop
  | .get key, a => a = .bulk (d.string key)
  | .getrange key start stop, a =>
    a = .bulk (some (.ofBuf (slice ((d.string key).elim [] CStr.bytes) start stop)))
  | .strlen key, a => a = (d.string key).elim .nil fun s => .int s.strlen
  | .existsKeys ks, a => a = .int (ks.countP fun k => (d k).isSome)
  | .type key, a => a = .type ((d key).map (·.value.type))
  | .keys, a => ∃ l, a = .array l ∧ l.Nodup ∧ ∀ k, k ∈ l ↔ (d k).isSome = true
  | .llen key, a => a = .int (d.elements key).length
  | .lindex key idx, a => a = .bulk
      (if RefList.InRange (d.elements key) idx then
        (d.elements key)[(RefList.position (d.elements key) idx).toNat]? else none)
  | .sismember key member, a => a = .int (if member ∈ d.members key then 1 else 0)
  | .scard key, a => a = .int (d.members key).card
  | .smembers key, a => ∃ l, a = .array l ∧ Lists l (d.members key)
  | .hget key field, a => a = .bulk ((d.fields key).lookup field)
  | .hexists key field, a => a = .int (if field ∈ d.fields key then 1 else 0)
  | .hlen key, a => a = .int (d.fields key).keys.card
  | .hkeys key, a => ∃ l, a = .array l ∧ Lists l (d.fields key).keys
  | .hvals key, a => ∃ l, Lists l (d.fields key).keys ∧
      a = .array (l.map fun f => ((d.fields key).lookup f).getD (.lit ""))
  | .hgetall key, a => ∃ l, Lists l (d.fields key).keys ∧
      a = .array (l.flatMap fun f => [f, ((d.fields key).lookup f).getD (.lit "")])
  | .zscore key member, a => a = .score ((d.scores key).lookup member)
  | .zcard key, a => a = .int (d.scores key).keys.card
  | .zrank key member, a => ∃ l, Ranked (d.scores key) l ∧
      a = .int (if member ∈ l then l.idxOf member else -1)
  | .zrevrank key member, a => ∃ l, Ranked (d.scores key) l ∧
      a = .int (if member ∈ l then l.reverse.idxOf member else -1)
  | .zrange key start stop, a => ∃ l, Ranked (d.scores key) l ∧ a = .array (slice l start stop)
  | .zrevrange key start stop, a =>
    ∃ l, Ranked (d.scores key) l ∧ a = .array (slice l.reverse start stop)

end AntzKV
