/-
AntzKV.Core.Dlist — the doubly linked list behind `OBJ_LIST`.

Nodes live in a heap of their own, `prev` and `next` are addresses in it,
and each operation writes the same fields the C code writes. A branch
that reads a freed or unallocated node cannot be taken from the empty
list; it leaves the list alone.
-/
import AntzKV.Core.CString
import AntzKV.Lib.LinkedHeap

namespace AntzKV

/-- `list_node_t`. -/
structure ListNode where
  value : CStr
  prev : Option Nat
  next : Option Nat
  deriving DecidableEq

/-- `dlist_t`. -/
structure Dlist where
  nodes : Heap ListNode
  head : Option Nat
  tail : Option Nat
  len : Nat
  deriving DecidableEq

namespace Dlist

/-- The list `obj_create_list` allocates. -/
def empty : Dlist := { nodes := Heap.empty, head := none, tail := none, len := 0 }

def dlistPushLeft (lst : Dlist) (val : CStr) : Dlist :=
  let n := lst.nodes.fresh
  match lst.head with
  | none =>
    { nodes := lst.nodes.alloc ⟨val, none, none⟩
      head := some n, tail := some n, len := lst.len + 1 }
  | some h =>
    { nodes := (lst.nodes.alloc ⟨val, none, some h⟩).modify h fun x => { x with prev := some n }
      head := some n, tail := lst.tail, len := lst.len + 1 }

def dlistPushRight (lst : Dlist) (val : CStr) : Dlist :=
  let n := lst.nodes.fresh
  match lst.tail with
  | none =>
    { nodes := lst.nodes.alloc ⟨val, none, none⟩
      head := some n, tail := some n, len := lst.len + 1 }
  | some t =>
    { nodes := (lst.nodes.alloc ⟨val, some t, none⟩).modify t fun x => { x with next := some n }
      head := lst.head, tail := some n, len := lst.len + 1 }

def dlistPopLeft (lst : Dlist) : Dlist × Option CStr :=
  match lst.head.bind fun n => (lst.nodes.get n).map (n, ·) with
  | none => (lst, none)
  | some (n, x) =>
    let lst' : Dlist :=
      match x.next with
      | some h => { lst with head := some h, nodes := lst.nodes.modify h fun y => { y with prev := none } }
      | none => { lst with head := none, tail := none }
    ({ lst' with nodes := lst'.nodes.free n, len := lst.len - 1 }, some x.value)

def dlistPopRight (lst : Dlist) : Dlist × Option CStr :=
  match lst.tail.bind fun n => (lst.nodes.get n).map (n, ·) with
  | none => (lst, none)
  | some (n, x) =>
    let lst' : Dlist :=
      match x.prev with
      | some t => { lst with tail := some t, nodes := lst.nodes.modify t fun y => { y with next := none } }
      | none => { lst with tail := none, head := none }
    ({ lst' with nodes := lst'.nodes.free n, len := lst.len - 1 }, some x.value)

/-- `for (i = 0; n && i < idx; ++i) n = n->next;` -/
def nthNode (lst : Dlist) : Nat → Option Nat → Option Nat
  | 0, n => n
  | _ + 1, none => none
  | i + 1, some n => nthNode lst i ((lst.nodes.get n).bind (·.next))

/-- The normalisation `dlist_get` and `dlist_set` share: a negative index
counts from the end, and an index outside the list is refused. -/
def normIdx (lst : Dlist) (idx : Int) : Option Nat :=
  let i := if idx < 0 then idx + lst.len else idx
  if i < 0 ∨ i ≥ lst.len then none else some i.toNat

def dlistGet (lst : Dlist) (idx : Int) : Option CStr :=
  match lst.normIdx idx with
  | none => none
  | some i => ((lst.nthNode i lst.head).bind lst.nodes.get).map (·.value)

/-- `none` is the return value -1. -/
def dlistSet (lst : Dlist) (idx : Int) (val : CStr) : Option Dlist :=
  match lst.normIdx idx with
  | none => none
  | some i =>
    match lst.nthNode i lst.head with
    | none => none
    | some n => some { lst with nodes := lst.nodes.modify n fun x => { x with value := val } }

/-- Unlink and free node `n`. -/
def unlink (lst : Dlist) (n : Nat) (x : ListNode) : Dlist :=
  let lst : Dlist :=
    match x.prev with
    | some p => { lst with nodes := lst.nodes.modify p fun y => { y with next := x.next } }
    | none => { lst with head := x.next }
  let lst : Dlist :=
    match x.next with
    | some q => { lst with nodes := lst.nodes.modify q fun y => { y with prev := x.prev } }
    | none => { lst with tail := x.prev }
  { lst with nodes := lst.nodes.free n, len := lst.len - 1 }

/-- The loop of `dlist_rem`; the fuel bounds the number of nodes visited. -/
def remLoop (count : Int) (val : CStr) : Nat → Dlist → Option Nat → Nat → Dlist × Nat
  | 0, lst, _, removed => (lst, removed)
  | _ + 1, lst, none, removed => (lst, removed)
  | fuel + 1, lst, some n, removed =>
    match lst.nodes.get n with
    | none => (lst, removed)
    | some x =>
      if strcmp x.value val = .eq then
        if 0 < count ∧ count ≤ (removed + 1 : Nat) then (lst.unlink n x, removed + 1)
        else remLoop count val fuel (lst.unlink n x) x.next (removed + 1)
      else remLoop count val fuel lst x.next removed

def dlistRem (lst : Dlist) (count : Int) (val : CStr) : Dlist × Nat :=
  remLoop count val lst.nodes.fresh lst lst.head 0

end Dlist

end AntzKV
