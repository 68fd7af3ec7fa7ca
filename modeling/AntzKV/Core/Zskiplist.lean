/-
AntzKV.Core.Zskiplist — the skip list behind `OBJ_ZSET`.

Scores are taken in any linear order `S`: the C code compares doubles
with `<` and `==` only, and a NaN is the one double these do not order.
Nodes live in a heap; `z->header` is the root of the chains and is kept
as its array of forward pointers, the only field of it that is read.

`update_buf` is filled from scratch by every insertion and deletion
before it is read, so it is the list `descend` returns. `rank_buf` is
written and never read; it is left out. The level of a new node is
`zsl_random_level()`, whose draws of `rand()` are an input here.
-/
import AntzKV.Core.CString
import AntzKV.Lib.SkipSearch

namespace AntzKV

open LinkedHeap (Ref)

/-- `ZSKIPLIST_MAXLEVEL` -/
def zskiplistMaxlevel : Nat := 12

/-- `zskiplist_node_t`. -/
structure ZskiplistNode (S : Type) where
  member : CStr
  score : S
  forward : List (Option Nat)
  backward : Option Nat
  level : Nat
  deriving DecidableEq

/-- `zskiplist_t`; `header` is `z->header->forward`. -/
structure Zskiplist (S : Type) where
  header : List (Option Nat)
  nodes : Heap (ZskiplistNode S)
  tail : Option Nat
  length : Nat
  level : Nat
  deriving DecidableEq

/-- The loop of `zsl_random_level`: `left` is `ZSKIPLIST_MAXLEVEL - level`
and `rand i` the i-th draw. -/
def randomLevelLoop (rand : Nat → Nat) : Nat → Nat → Nat → Nat
  | 0, _, level => level
  | left + 1, i, level =>
    if rand i % 4 = 0 then randomLevelLoop rand left (i + 1) (level + 1) else level

def zslRandomLevel (rand : Nat → Nat) : Nat := randomLevelLoop rand (zskiplistMaxlevel - 1) 0 1

namespace Zskiplist

variable {S : Type}

def zslCreate : Zskiplist S where
  header := List.replicate zskiplistMaxlevel none
  nodes := Heap.empty
  tail := none
  length := 0
  level := 1

/-! ## Links -/

/-- `x->forward[i]` -/
def fwd (z : Zskiplist S) (x : Ref Nat) (i : Nat) : Option Nat :=
  match x with
  | .root => z.header.getD i none
  | .node a => ((z.nodes.get a).map fun n => n.forward.getD i none).join

/-- `x->forward[i] = p` -/
def setFwd (z : Zskiplist S) (x : Ref Nat) (i : Nat) (p : Option Nat) : Zskiplist S :=
  match x with
  | .root => { z with header := z.header.set i p }
  | .node a => { z with nodes := z.nodes.modify a fun n => { n with forward := n.forward.set i p } }

/-- `a->backward = p` -/
def setBackward (z : Zskiplist S) (a : Nat) (p : Option Nat) : Zskiplist S :=
  { z with nodes := z.nodes.modify a fun n => { n with backward := p } }

/-- `if (q) q->backward = p; else z->tail = p;` -/
def linkBack (z : Zskiplist S) (q p : Option Nat) : Zskiplist S :=
  match q with
  | some q => z.setBackward q p
  | none => { z with tail := p }

/-- The node a reference denotes, NULL for the header. -/
def nodeOrNull : Ref Nat → Option Nat
  | .root => none
  | .node a => some a

/-- The search both operations start with: on each level from the top,
advance while the node ahead satisfies `p`, and keep where the level was
left. The result is `update[0 .. z->level - 1]`. -/
def descend (z : Zskiplist S) (p : Nat → Bool) : List (Ref Nat) :=
  SkipSearch.descend z.fwd p z.nodes.fresh z.level .root

/-! ## Insertion -/

section Insert

variable [LinearOrder S]

/-- The node at `a` comes before `(score, member)`. -/
def comesBefore (z : Zskiplist S) (score : S) (member : CStr) (a : Nat) : Bool :=
  match z.nodes.get a with
  | none => false
  | some n =>
    decide (n.score < score) || (decide (n.score = score) && strcmp n.member member == .lt)

/-- `n->forward[i] = update[i]->forward[i]; update[i]->forward[i] = n;` -/
def linkLevel (a : Nat) (update : List (Ref Nat)) (z : Zskiplist S) (i : Nat) : Zskiplist S :=
  let u := update.getD i .root
  (z.setFwd (.node a) i (z.fwd u i)).setFwd u i (some a)

/-- `zsl_insert`, with `lvl` the value of `zsl_random_level()`. -/
def zslInsert (z : Zskiplist S) (score : S) (member : CStr) (lvl : Nat) : Zskiplist S :=
  let update := z.descend (z.comesBefore score member)
  -- levels the list did not have yet start at the header
  let update := update ++ List.replicate (lvl - z.level) .root
  let a := z.nodes.fresh
  let n : ZskiplistNode S :=
    { member := member, score := score, forward := List.replicate lvl none
      backward := none, level := lvl }
  let z := { z with level := max z.level lvl, nodes := z.nodes.alloc n }
  let z := (List.range lvl).foldl (linkLevel a update) z
  let z := z.setBackward a (nodeOrNull (update.getD 0 .root))
  let z := z.linkBack (z.fwd (.node a) 0) (some a)
  { z with length := z.length + 1 }

end Insert

/-! ## Deletion -/

/-- `strcmp(a->member, member) != 0` -/
def memberNe (z : Zskiplist S) (member : CStr) (a : Nat) : Bool :=
  match z.nodes.get a with
  | none => false
  | some n => strcmp n.member member != .eq

/-- `if (update[i]->forward[i] == x) update[i]->forward[i] = x->forward[i];` -/
def unlinkLevel (a : Nat) (update : List (Ref Nat)) (z : Zskiplist S) (i : Nat) : Zskiplist S :=
  let u := update.getD i .root
  if z.fwd u i = some a then z.setFwd u i (z.fwd (.node a) i) else z

/-- `while (z->level > 1 && z->header->forward[z->level - 1] == NULL) --z->level;` -/
def shrinkLevel (header : List (Option Nat)) : Nat → Nat
  | 0 => 0
  | 1 => 1
  | lvl + 2 =>
    if header.getD (lvl + 1) none = none then shrinkLevel header (lvl + 1) else lvl + 2

/-- The node `zsl_delete` settles on: the one ahead on level 0 when its
member is the one looked for. -/
def deleteTarget (z : Zskiplist S) (update : List (Ref Nat)) (member : CStr) :
    Option (Nat × ZskiplistNode S) :=
  match z.fwd (update.getD 0 .root) 0 with
  | none => none
  | some a =>
    match z.nodes.get a with
    | none => none
    | some n => if strcmp n.member member = .eq then some (a, n) else none

/-- `zsl_delete`, which ignores its `score` argument; the flag is its
return value. -/
def zslDelete (z : Zskiplist S) (member : CStr) : Zskiplist S × Bool :=
  let update := z.descend (z.memberNe member)
  match z.deleteTarget update member with
  | none => (z, false)
  | some (a, n) =>
    let z := (List.range z.level).foldl (unlinkLevel a update) z
    let z := z.linkBack (z.fwd (.node a) 0) n.backward
    let z := { z with level := shrinkLevel z.header z.level }
    ({ z with nodes := z.nodes.free a, length := z.length - 1 }, true)

/-! ## Reading -/

/-- The walk of `kv_zscore` along level 0 to the first node of a member. -/
def findMember (z : Zskiplist S) (member : CStr) : Nat → Option Nat → Option (ZskiplistNode S)
  | 0, _ => none
  | _ + 1, none => none
  | fuel + 1, some a =>
    match z.nodes.get a with
    | none => none
    | some n =>
      if strcmp n.member member = .eq then some n
      else findMember z member fuel (n.forward.getD 0 none)

/-- The score of a member, from the head of level 0. -/
def scoreOf (z : Zskiplist S) (member : CStr) : Option S :=
  (z.findMember member z.nodes.fresh (z.fwd .root 0)).map (·.score)

end Zskiplist

end AntzKV
