/-
AntzKV.Core.OutArray — the reads of `kvdb.c` that fill an array of strings.

`kv_zrange`, `kv_zrevrange`, `ht_keys`, `ht_items` and `kv_hgetall` size
an array beforehand and write `(*out)[j++]` in a loop. Here the array has
its size, and `none` is a write outside of it, a read of an entry that
was not written, a pointer to a cell that is not allocated, or a loop that
does not end. `AntzKV.Core.Reads` has the same commands as functions to
lists of strings.
-/
import AntzKV.Core.Reads

namespace AntzKV

variable {S : Type}

/-- `*out` and `*count`; an entry that was not written is `none`. -/
structure OutArray where
  cells : List (Option CStr)
  count : Nat
  deriving DecidableEq

namespace OutArray

/-- `*out = malloc(n * sizeof(char*)); j = 0;` -/
def malloc (n : Nat) : OutArray := ⟨List.replicate n none, 0⟩

/-- `*count = 0; *out = NULL;` -/
def null : OutArray := ⟨[], 0⟩

/-- `(*out)[j++] = s;` -/
def push (out : OutArray) (s : CStr) : Option OutArray :=
  if out.count < out.cells.length then
    some ⟨out.cells.set out.count (some s), out.count + 1⟩
  else none

/-- An array of exactly these strings. -/
def ofList (l : List CStr) : OutArray := ⟨l.map some, l.length⟩

/-- An array of `n` entries, of which the first ones are written. -/
def partly (n : Nat) (l : List CStr) : OutArray :=
  ⟨l.map some ++ List.replicate (n - l.length) none, l.length⟩

theorem malloc_eq (n : Nat) : malloc n = partly n [] := rfl

theorem push_partly {n : Nat} {l : List CStr} (h : l.length < n) (s : CStr) :
    (partly n l).push s = some (partly n (l ++ [s])) := by
  obtain ⟨k, hk⟩ : ∃ k, n - l.length = k + 1 := ⟨n - l.length - 1, by omega⟩
  have hk' : n - (l.length + 1) = k := by omega
  have hroom : (partly n l).count < (partly n l).cells.length := by
    simp only [partly, List.length_append, List.length_map, List.length_replicate]
    omega
  rw [push, if_pos hroom]
  simp [partly, hk, hk', List.replicate_succ]

theorem partly_full {n : Nat} {l : List CStr} (h : l.length = n) : partly n l = ofList l := by
  simp [partly, ofList, h]

end OutArray

/-! ## Ranges -/

namespace Zskiplist

/-- `for (int64_t i = 0; node && j < n; ++i)`, in at most `fuel` rounds;
`next i node` is where the round for `i` moves on to. -/
def rangeLoop (z : Zskiplist S) (next : Int → ZskiplistNode S → Option Nat) (start : Int) (n : Nat) :
    Nat → Option Nat → Int → OutArray → Option OutArray
  | _, none, _, out => some out
  | 0, some _, _, _ => none
  | fuel + 1, some a, i, out =>
    if out.count < n then
      (z.nodes.get a).bind fun node =>
        (if i ≥ start then out.push node.member else some out).bind fun out =>
          rangeLoop z next start n fuel (next i node) (i + 1) out
    else some out

end Zskiplist

namespace KvTable

/-- `kv_zrange` and `kv_zrevrange`, over the node they begin with and the
step to the next. -/
def rangeOut (first : Zskiplist S → Option Nat)
    (next : Zskiplist S → Int → ZskiplistNode S → Option Nat) (db : KvTable S) (key : CStr)
    (start stop : Int) : Option OutArray :=
  match db.wrObj DbObject.zset? key with
  | none => some .null
  | some z =>
    match z.rangeBounds start stop with
    | none => some .null
    | some (start, n) => z.rangeLoop (next z) start n z.nodes.fresh (first z) 0 (.malloc n)

def kvZrangeOut (db : KvTable S) (key : CStr) (start stop : Int) : Option OutArray :=
  db.rangeOut (·.fwd .root 0) (fun _ _ node => node.forward.getD 0 none) key start stop

/-- `node = (i < len - 1) ? node->backward : NULL` -/
def kvZrevrangeOut (db : KvTable S) (key : CStr) (start stop : Int) : Option OutArray :=
  db.rangeOut (·.tail) (fun z i node => if i < z.length - 1 then node.backward else none) key
    start stop

end KvTable

/-! ## Hashes -/

namespace SimpleHt

/-- The loops of `ht_keys` and `ht_items`: what `f` makes of each node, as
long as `j < ht->count`. -/
def nodesOut (f : ShtNode → CStr) (ht : SimpleHt) : Option OutArray :=
  ht.buckets.foldlM (fun out bucket =>
    bucket.foldlM (fun out n => if out.count < ht.count then out.push (f n) else some out) out)
    (.malloc ht.count)

def htKeysOut (ht : SimpleHt) : Option OutArray := ht.nodesOut (·.1)

def htItemsOut (ht : SimpleHt) : Option OutArray := ht.nodesOut fun n => n.2.getD (CStr.lit "")

/-- The loop of `kv_hgetall` over `ks`. -/
def pairsOut (ht : SimpleHt) (ks : OutArray) : Option OutArray :=
  (ks.cells.take ks.count).foldlM (fun out k =>
    k.bind fun k => (out.push k).bind fun out => out.push ((ht.htGet k).getD (CStr.lit "")))
    (.malloc (ht.count * 2))

end SimpleHt

namespace KvTable

def kvHkeysOut (db : KvTable S) (key : CStr) : Option OutArray :=
  (db.wrObj DbObject.hash? key).elim (some .null) (·.htKeysOut)

def kvHvalsOut (db : KvTable S) (key : CStr) : Option OutArray :=
  (db.wrObj DbObject.hash? key).elim (some .null) (·.htItemsOut)

def kvHgetallOut (db : KvTable S) (key : CStr) : Option OutArray :=
  (db.wrObj DbObject.hash? key).elim (some .null) fun ht => ht.htKeysOut.bind ht.pairsOut

end KvTable

end AntzKV
