/-
AntzKV.Core.SimpleHt — the chained hash table behind `OBJ_SET` and
`OBJ_HASH`.

A bucket is the list of its nodes in chain order; a node is a key with
its value, NULL (`none`) for a set member. `ht_find_prev` hands back the
link to the node with the key, or the link at the end of the chain, so a
replacement changes a node where it stands and a new node goes last.

`ht_add` calls `ht_resize`, and `ht_resize` calls `ht_add` for every node
of the old table. The recursion is run with a fuel for its depth; `none`
is a call that would have gone deeper.
-/
import AntzKV.Core.CString

namespace AntzKV

/-- `sht_node_t`, without its `next`. -/
abbrev ShtNode := CStr × Option CStr

/-- `simple_ht_t`; `cap` is the number of buckets. -/
structure SimpleHt where
  buckets : List (List ShtNode)
  count : Nat
  deriving DecidableEq

namespace SimpleHt

def cap (ht : SimpleHt) : Nat := ht.buckets.length

/-- `HT_SMALL_CAP` -/
def htSmallCap : Nat := 16

def htCreate : SimpleHt := { buckets := List.replicate htSmallCap [], count := 0 }

/-- `ht_fn(key) % ht->cap` -/
def bucketIdx (ht : SimpleHt) (key : CStr) : Nat := (fnv1a key).toNat % ht.cap

def bucket (ht : SimpleHt) (key : CStr) : List ShtNode := ht.buckets.getD (ht.bucketIdx key) []

/-- `*ht_find_prev(ht, key)` -/
def htFind (ht : SimpleHt) (key : CStr) : Option ShtNode :=
  (ht.bucket key).find? fun n => strcmp n.1 key = .eq

/-- Write `f` of the key's bucket back. -/
def modifyBucket (ht : SimpleHt) (key : CStr) (f : List ShtNode → List ShtNode) : List (List ShtNode) :=
  ht.buckets.set (ht.bucketIdx key) (f (ht.bucket key))

/-- `ht_resize`, over the `ht_add` it calls. -/
def htResize (htAdd : SimpleHt → CStr → Option CStr → Option SimpleHt) (ht : SimpleHt) :
    Option SimpleHt :=
  if 4 * ht.count < 3 * ht.cap then some ht
  else
    ht.buckets.flatten.foldlM (fun new n => htAdd new n.1 n.2)
      { buckets := List.replicate (2 * ht.cap) [], count := 0 }

/-- The part of `ht_add` behind its call of `ht_resize`. -/
def addNode (ht : SimpleHt) (key : CStr) (val : Option CStr) (replace : Bool) : SimpleHt × Bool :=
  match ht.htFind key with
  | some _ =>
    if replace then
      ({ buckets := ht.modifyBucket key (List.map fun n =>
          if strcmp n.1 key = .eq then (n.1, val) else n)
         count := ht.count }, false)
    else (ht, false)
  | none =>
    ({ buckets := ht.modifyBucket key (fun b => b ++ [(key, val)])
       count := ht.count + 1 }, true)

/-- `ht_add` with a bound on the depth of its recursion; the flag is its
return value 1. -/
def htAddDepth : Nat → SimpleHt → CStr → Option CStr → Bool → Option (SimpleHt × Bool)
  | 0, _, _, _, _ => none
  | depth + 1, ht, key, val, replace =>
    (htResize (fun new k v => (htAddDepth depth new k v false).map (·.1)) ht).map
      fun ht => ht.addNode key val replace

/-- `ht_add`: the nested calls of a resize find a table that does not
resize again, so two levels are the whole recursion. -/
def htAdd (ht : SimpleHt) (key : CStr) (val : Option CStr) (replace : Bool) : SimpleHt × Bool :=
  (htAddDepth 2 ht key val replace).getD (ht, false)

def htRemove (ht : SimpleHt) (key : CStr) : SimpleHt × Bool :=
  match ht.htFind key with
  | none => (ht, false)
  | some _ =>
    ({ buckets := ht.modifyBucket key (List.eraseP fun n => strcmp n.1 key = .eq)
       count := ht.count - 1 }, true)

def htExists (ht : SimpleHt) (key : CStr) : Bool := (ht.htFind key).isSome

def htGet (ht : SimpleHt) (key : CStr) : Option CStr := (ht.htFind key).bind (·.2)

/-- The nodes in enumeration order, cut at `count` as the output array is. -/
def entries (ht : SimpleHt) : List ShtNode := ht.buckets.flatten.take ht.count

def htKeys (ht : SimpleHt) : List CStr := ht.entries.map (·.1)

def htItems (ht : SimpleHt) : List CStr := ht.entries.map fun n => n.2.getD (CStr.lit "")

end SimpleHt

end AntzKV
