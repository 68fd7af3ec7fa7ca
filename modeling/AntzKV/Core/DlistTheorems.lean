/-
AntzKV.Core.DlistTheorems — the pointers of a `dlist_t` spell a sequence.

The invariant is `Repr lst ns vs`: `next` runs through the addresses `ns`
from `head` and `prev` through them from `tail`, no address occurs twice,
the nodes hold the strings `vs`, and `len` counts them. Every operation is
one linking in or one linking out of a node (`Repr.pushLeft`,
`Repr.pushRight`, `Repr.unlink`); the pops are `unlink` at an end, and
`dlist_rem` is `unlink` along the way (`Repr.remLoop`).

The reference is a plain list of strings. `Repr.exec` says that an
operation on the pointers returns what the reference returns and leaves
the pointers of the reference, and `dlistRun_refines` says it of all
histories from the empty list.
-/
import AntzKV.Core.Dlist

namespace AntzKV

open LinkedHeap

namespace Dlist

/-! ## Reading the pointers -/

/-- `head` at the root, `next` in a node. -/
def nextOf (lst : Dlist) : Ref Nat → Option Nat
  | .root => lst.head
  | .node a => (lst.nodes.get a).bind (·.next)

/-- `tail` at the root, `prev` in a node. -/
def prevOf (lst : Dlist) : Ref Nat → Option Nat
  | .root => lst.tail
  | .node a => (lst.nodes.get a).bind (·.prev)

def valueOf (lst : Dlist) (a : Nat) : Option CStr := (lst.nodes.get a).map (·.value)

/-- The strings read along `link`, up to NULL. `none` if a node is not
there or the fuel does not reach the end. -/
def readAlong (lst : Dlist) (link : ListNode → Option Nat) : Nat → Option Nat → Option (List CStr)
  | _, none => some []
  | 0, some _ => none
  | fuel + 1, some n =>
    match lst.nodes.get n with
    | none => none
    | some x => (lst.readAlong link fuel (link x)).map (x.value :: ·)

/-! ## The reference -/

inductive Op where
  | pushLeft (val : CStr)
  | pushRight (val : CStr)
  | popLeft
  | popRight
  | set (idx : Int) (val : CStr)
  | rem (count : Int) (val : CStr)
  deriving DecidableEq

/-- What an operation returns: nothing, the string popped (`none` is
NULL), the status of `dlist_set` (`true` is 0), the number removed. -/
inductive Ret where
  | unit
  | str (v : Option CStr)
  | status (ok : Bool)
  | removed (n : Nat)
  deriving DecidableEq

def exec (lst : Dlist) : Op → Dlist × Ret
  | .pushLeft val => (lst.dlistPushLeft val, .unit)
  | .pushRight val => (lst.dlistPushRight val, .unit)
  | .popLeft => (lst.dlistPopLeft.1, .str lst.dlistPopLeft.2)
  | .popRight => (lst.dlistPopRight.1, .str lst.dlistPopRight.2)
  | .set idx val =>
    match lst.dlistSet idx val with
    | some lst' => (lst', .status true)
    | none => (lst, .status false)
  | .rem count val => ((lst.dlistRem count val).1, .removed (lst.dlistRem count val).2)

/-- The pointers after a history of operations. -/
def dlistRun (ops : List Op) : Dlist := ops.foldl (fun lst op => (lst.exec op).1) empty

end Dlist

namespace RefList

/-- The position an index addresses: `idx`, or `len + idx` if negative. -/
def position (vs : List CStr) (idx : Int) : Int := if idx < 0 then vs.length + idx else idx

/-- The indices that address something. -/
def InRange (vs : List CStr) (idx : Int) : Prop := -(vs.length : Int) ≤ idx ∧ idx ≤ vs.length - 1

instance (vs : List CStr) (idx : Int) : Decidable (InRange vs idx) :=
  inferInstanceAs (Decidable (_ ∧ _))

/-- Without the first `n` occurrences of `val`. -/
def removeFirst (val : CStr) : Nat → List CStr → List CStr
  | _, [] => []
  | 0, v :: vs => v :: vs
  | n + 1, v :: vs => if v = val then removeFirst val n vs else v :: removeFirst val (n + 1) vs

/-- Without the first `count` occurrences of `val`, or without any. -/
def remove (count : Int) (val : CStr) (vs : List CStr) : List CStr :=
  if count ≤ 0 then vs.filter (· ≠ val) else removeFirst val count.toNat vs

def exec (vs : List CStr) : Dlist.Op → List CStr × Dlist.Ret
  | .pushLeft val => (val :: vs, .unit)
  | .pushRight val => (vs ++ [val], .unit)
  | .popLeft => (vs.tail, .str vs.head?)
  | .popRight => (vs.dropLast, .str vs.getLast?)
  | .set idx val =>
    if InRange vs idx then (vs.set (position vs idx).toNat val, .status true)
    else (vs, .status false)
  | .rem count val => (remove count val vs, .removed (vs.length - (remove count val vs).length))

/-- The reference after a history of operations. -/
def run (ops : List Dlist.Op) : List CStr := ops.foldl (fun vs op => (exec vs op).1) []

end RefList

namespace Dlist

/-! ## The invariant -/

structure Repr (lst : Dlist) (ns : List Nat) (vs : List CStr) : Prop where
  links : IsDouble lst.nextOf lst.prevOf ns
  values : ns.map lst.valueOf = vs.map some
  len : lst.len = vs.length

variable {lst : Dlist} {ns ms : List Nat} {vs ws : List CStr}

/-- A list of no nodes. -/
theorem repr_empty : Repr empty [] [] where
  links := ⟨rfl, rfl, List.nodup_nil⟩
  values := rfl
  len := rfl

namespace Repr

/-- As many nodes as values. -/
theorem length_eq (h : Repr lst ns vs) : ns.length = vs.length := by
  simpa using congrArg List.length h.values

/-- The node at a place of the list. -/
theorem get_middle {n : Nat} (h : Repr lst (ns ++ n :: ms) vs) :
    ∃ us v ws, vs = us ++ v :: ws ∧ ns.map lst.valueOf = us.map some ∧
      ms.map lst.valueOf = ws.map some ∧ lst.nodes.get n = some ⟨v, ns.getLast?, ms.head?⟩ := by
  have hv := h.values
  rw [List.map_append, List.map_cons] at hv
  obtain ⟨us, vws, rfl, hus, hvws⟩ := List.append_eq_map_iff.mp hv
  obtain ⟨v, ws, rfl, hvn, hws⟩ := List.map_eq_cons_iff.mp hvws
  obtain ⟨x, hx, hxv⟩ := Option.map_eq_some_iff.mp hvn.symm
  have hnext := h.links.next_node
  have hprev := h.links.prev_node
  simp only [nextOf, prevOf, hx, Option.bind_some] at hnext hprev
  refine ⟨us, v, ws, rfl, hus.symm, hws.symm, ?_⟩
  rw [hx, ← hnext, ← hprev, ← hxv]

/-- The nodes of the list are allocated. -/
theorem exists_get {n : Nat} (h : Repr lst ns vs) (hn : n ∈ ns) : ∃ x, lst.nodes.get n = some x := by
  obtain ⟨ns₁, ns₂, rfl⟩ := List.append_of_mem hn
  obtain ⟨_, _, _, _, _, _, hx⟩ := h.get_middle
  exact ⟨_, hx⟩

/-- A new address is none of them. -/
theorem fresh_not_mem (h : Repr lst ns vs) : lst.nodes.fresh ∉ ns := by
  intro hm
  obtain ⟨x, hx⟩ := h.exists_get hm
  simp at hx

/-- The fuel of the walks suffices: there are no more nodes than addresses
given out. -/
theorem length_le_fresh (h : Repr lst ns vs) : ns.length ≤ lst.nodes.fresh := by
  have hsub : ns ⊆ List.range lst.nodes.fresh := by
    intro n hn
    obtain ⟨x, hx⟩ := h.exists_get hn
    exact List.mem_range.mpr (Heap.lt_fresh_of_get hx)
  simpa using (h.links.nodup.subperm hsub).length_le

/-! ### Reading -/

/-- `head` is the first node. -/
theorem head_eq (h : Repr lst ns vs) : lst.head = ns.head? := h.links.fwd.head

/-- `tail` is the last one. -/
theorem tail_eq (h : Repr lst ns vs) : lst.tail = ns.getLast? := by
  have ht : lst.tail = ns.reverse.head? := h.links.bwd.head
  rw [ht, List.head?_reverse]

/-- Either link reads the strings of the chain it runs through. -/
theorem readAlong_of_isChain {next : Ref Nat → Option Nat} {link : ListNode → Option Nat}
    (hlink : ∀ n x, lst.nodes.get n = some x → next (.node n) = link x) {r : Ref Nat}
    (hc : IsChain next r ns) (hv : ns.map lst.valueOf = vs.map some) {fuel : Nat}
    (hfuel : vs.length ≤ fuel) : lst.readAlong link fuel (next r) = some vs := by
  induction ns generalizing r vs fuel with
  | nil =>
    have hvs : vs = [] := by simpa using hv.symm
    subst hvs
    have hr : next r = none := hc
    rw [hr, readAlong.eq_1]
  | cons n ns ih =>
    obtain ⟨v, ws, rfl, hvn, hws⟩ := List.map_eq_cons_iff.mp hv.symm
    obtain ⟨x, hx, rfl⟩ := Option.map_eq_some_iff.mp hvn.symm
    obtain ⟨k, rfl⟩ : ∃ k, fuel = k + 1 := ⟨fuel - 1, by simp at hfuel; omega⟩
    have htail := ih hc.2 hws.symm (show ws.length ≤ k by simpa using hfuel)
    rw [hc.1, readAlong, hx]
    simp only
    rw [← hlink n x hx, htail, Option.map_some]

/-- The walk from `head` along `next` reads the values. -/
theorem readAlong_next (h : Repr lst ns vs) {fuel : Nat} (hfuel : vs.length ≤ fuel) :
    lst.readAlong (·.next) fuel lst.head = some vs :=
  readAlong_of_isChain (fun n x hx => by simp [nextOf, hx]) h.links.fwd h.values hfuel

/-- The walk from `tail` along `prev` reads them backwards. -/
theorem readAlong_prev (h : Repr lst ns vs) {fuel : Nat} (hfuel : vs.length ≤ fuel) :
    lst.readAlong (·.prev) fuel lst.tail = some vs.reverse := by
  have hv : ns.reverse.map lst.valueOf = vs.reverse.map some := by
    rw [List.map_reverse, h.values, List.map_reverse]
  exact readAlong_of_isChain (fun n x hx => by simp [prevOf, hx]) h.links.bwd hv (by simpa using hfuel)

/-- Counting off nodes along a chain. -/
theorem nthNode_of_isChain {r : Ref Nat} (hc : IsChain lst.nextOf r ns) (i : Nat) :
    lst.nthNode i (lst.nextOf r) = ns[i]? := by
  induction i generalizing r ns with
  | zero => rw [nthNode, hc.head, List.head?_eq_getElem?]
  | succ i ih =>
    cases ns with
    | nil =>
      have hr : lst.nextOf r = none := hc
      rw [hr, nthNode]
      rfl
    | cons n ns =>
      rw [hc.1, nthNode]
      exact ih hc.2

theorem nthNode_eq (h : Repr lst ns vs) (i : Nat) : lst.nthNode i lst.head = ns[i]? :=
  nthNode_of_isChain h.links.fwd i

/-- A negative index counts from the end. -/
theorem normIdx_eq (h : Repr lst ns vs) (idx : Int) :
    lst.normIdx idx =
      if RefList.InRange vs idx then some (RefList.position vs idx).toNat else none := by
  simp only [normIdx, RefList.InRange, RefList.position, h.len]
  by_cases hneg : idx < 0
  · simp only [if_pos hneg, add_comm idx]
    split_ifs <;> first | rfl | omega
  · simp only [if_neg hneg]
    split_ifs <;> first | rfl | omega

theorem position_lt {idx : Int} (h : RefList.InRange vs idx) :
    (RefList.position vs idx).toNat < vs.length := by
  unfold RefList.InRange at h
  unfold RefList.position
  split_ifs <;> omega

/-- `dlist_get` reads the position addressed, and fails exactly outside. -/
theorem dlistGet_eq (h : Repr lst ns vs) (idx : Int) :
    lst.dlistGet idx =
      if RefList.InRange vs idx then vs[(RefList.position vs idx).toNat]? else none := by
  rw [dlistGet, h.normIdx_eq]
  by_cases hin : RefList.InRange vs idx
  · simp only [if_pos hin]
    have hval := congrArg (·[(RefList.position vs idx).toNat]?) h.values
    simp only [List.getElem?_map] at hval
    rw [h.nthNode_eq]
    have hlt : (RefList.position vs idx).toNat < ns.length := by
      rw [h.length_eq]
      exact position_lt hin
    rw [List.getElem?_eq_getElem hlt] at hval ⊢
    rw [List.getElem?_eq_getElem (position_lt hin)] at hval ⊢
    exact Option.some.inj hval
  · simp only [if_neg hin]

end Repr

/-! ## Writing one pointer

Every operation is an allocation or a release and two pointer writes, one
into a `next` (or `head`) and one into a `prev` (or `tail`). -/

def setNext (lst : Dlist) (r : Ref Nat) (v : Option Nat) : Dlist :=
  match r with
  | .root => { lst with head := v }
  | .node a => { lst with nodes := lst.nodes.modify a fun x => { x with next := v } }

def setPrev (lst : Dlist) (r : Ref Nat) (v : Option Nat) : Dlist :=
  match r with
  | .root => { lst with tail := v }
  | .node a => { lst with nodes := lst.nodes.modify a fun x => { x with prev := v } }

def addNode (lst : Dlist) (x : ListNode) : Dlist :=
  { lst with nodes := lst.nodes.alloc x, len := lst.len + 1 }

def dropNode (lst : Dlist) (n : Nat) : Dlist :=
  { lst with nodes := lst.nodes.free n, len := lst.len - 1 }

/-- The reference can be written through. -/
def Live (lst : Dlist) : Ref Nat → Prop
  | .root => True
  | .node a => ∃ x, lst.nodes.get a = some x

variable {r y : Ref Nat} {n : Nat} {x : ListNode}

/-- Writing a `next` changes that pointer and no other. -/
theorem nextOf_setNext (h : lst.Live r) (v : Option Nat) (y : Ref Nat) :
    (lst.setNext r v).nextOf y = if y = r then v else lst.nextOf y := by
  cases r with
  | root => cases y <;> simp [setNext, nextOf]
  | node a =>
    obtain ⟨x, hx⟩ := h
    cases y with
    | root => simp [setNext, nextOf]
    | node b =>
      by_cases hb : b = a
      · simp [setNext, nextOf, hb, hx]
      · simp [setNext, nextOf, hb, Heap.get_modify_of_ne hb]

/-- Writing a `prev` changes that pointer and no other. -/
theorem prevOf_setPrev (h : lst.Live r) (v : Option Nat) (y : Ref Nat) :
    (lst.setPrev r v).prevOf y = if y = r then v else lst.prevOf y := by
  cases r with
  | root => cases y <;> simp [setPrev, prevOf]
  | node a =>
    obtain ⟨x, hx⟩ := h
    cases y with
    | root => simp [setPrev, prevOf]
    | node b =>
      by_cases hb : b = a
      · simp [setPrev, prevOf, hb, hx]
      · simp [setPrev, prevOf, hb, Heap.get_modify_of_ne hb]

@[simp] theorem prevOf_setNext (lst : Dlist) (r : Ref Nat) (v : Option Nat) :
    (lst.setNext r v).prevOf y = lst.prevOf y := by
  cases r with
  | root => cases y <;> rfl
  | node a =>
    cases y with
    | root => rfl
    | node b => exact Heap.bind_get_modify lst.nodes a b fun _ => rfl

@[simp] theorem nextOf_setPrev (lst : Dlist) (r : Ref Nat) (v : Option Nat) :
    (lst.setPrev r v).nextOf y = lst.nextOf y := by
  cases r with
  | root => cases y <;> rfl
  | node a =>
    cases y with
    | root => rfl
    | node b => exact Heap.bind_get_modify lst.nodes a b fun _ => rfl

@[simp] theorem valueOf_setNext (lst : Dlist) (r : Ref Nat) (v : Option Nat) (b : Nat) :
    (lst.setNext r v).valueOf b = lst.valueOf b := by
  cases r with
  | root => rfl
  | node a => exact Heap.map_get_modify lst.nodes a b fun _ => rfl

@[simp] theorem valueOf_setPrev (lst : Dlist) (r : Ref Nat) (v : Option Nat) (b : Nat) :
    (lst.setPrev r v).valueOf b = lst.valueOf b := by
  cases r with
  | root => rfl
  | node a => exact Heap.map_get_modify lst.nodes a b fun _ => rfl

@[simp] theorem len_setNext (lst : Dlist) (r : Ref Nat) (v : Option Nat) :
    (lst.setNext r v).len = lst.len := by
  cases r <;> rfl

@[simp] theorem len_setPrev (lst : Dlist) (r : Ref Nat) (v : Option Nat) :
    (lst.setPrev r v).len = lst.len := by
  cases r <;> rfl

/-- Writing a pointer frees nothing. -/
theorem Live.setNext (h : lst.Live y) (r : Ref Nat) (v : Option Nat) :
    (lst.setNext r v).Live y := by
  cases r with
  | root => cases y <;> exact h
  | node a =>
    cases y with
    | root => trivial
    | node b =>
      obtain ⟨x, hx⟩ := h
      simp only [Dlist.setNext, Live, Heap.get_modify, hx]
      split <;> simp

/-- Allocating a node frees nothing. -/
theorem Live.addNode (h : lst.Live y) (x : ListNode) : (lst.addNode x).Live y := by
  cases y with
  | root => trivial
  | node b =>
    obtain ⟨x', hx'⟩ := h
    exact ⟨x', by rw [Dlist.addNode, Heap.get_alloc_of_ne (Heap.lt_fresh_of_get hx').ne, hx']⟩

/-- A pointer that a list holds can be written through. -/
theorem Repr.live_head (h : Repr lst (ns ++ ms) vs) : lst.Live (refOf ms.head?) := by
  cases ms with
  | nil => trivial
  | cons m ms => exact h.exists_get (by simp)

theorem Repr.live_last (h : Repr lst (ns ++ ms) vs) : lst.Live (refOf ns.getLast?) := by
  rcases List.eq_nil_or_concat ns with rfl | ⟨ns, m, rfl⟩
  · trivial
  · rw [List.concat_eq_append, List.getLast?_concat]
    exact h.exists_get (by simp)

/-! ## Linking in -/

/-- A new node with neighbours `p` and `q`, and their pointers to it. -/
def linkIn (lst : Dlist) (val : CStr) (p q : Option Nat) : Dlist :=
  ((lst.addNode ⟨val, p, q⟩).setNext (refOf p) (some lst.nodes.fresh)).setPrev (refOf q)
    (some lst.nodes.fresh)

/-- A push on the left links a node in before `head`. -/
theorem dlistPushLeft_eq (lst : Dlist) (val : CStr) :
    lst.dlistPushLeft val = lst.linkIn val none lst.head := by
  cases hh : lst.head <;> simp [dlistPushLeft, linkIn, addNode, setNext, setPrev, refOf, hh]

/-- A push on the right links one in behind `tail`. -/
theorem dlistPushRight_eq (lst : Dlist) (val : CStr) :
    lst.dlistPushRight val = lst.linkIn val lst.tail none := by
  cases ht : lst.tail <;> simp [dlistPushRight, linkIn, addNode, setNext, setPrev, refOf, ht]

theorem nextOf_addNode (lst : Dlist) (x : ListNode) (y : Ref Nat) :
    (lst.addNode x).nextOf y = if y = .node lst.nodes.fresh then x.next else lst.nextOf y := by
  cases y with
  | root => rfl
  | node b =>
    simp only [addNode, nextOf, Heap.get_alloc, Ref.node.injEq]
    split <;> rfl

theorem prevOf_addNode (lst : Dlist) (x : ListNode) (y : Ref Nat) :
    (lst.addNode x).prevOf y = if y = .node lst.nodes.fresh then x.prev else lst.prevOf y := by
  cases y with
  | root => rfl
  | node b =>
    simp only [addNode, prevOf, Heap.get_alloc, Ref.node.injEq]
    split <;> rfl

theorem valueOf_addNode (lst : Dlist) (x : ListNode) (b : Nat) :
    (lst.addNode x).valueOf b = if b = lst.nodes.fresh then some x.value else lst.valueOf b := by
  simp only [addNode, valueOf, Heap.get_alloc]
  split <;> rfl

/-- No pointer of the list points to the new node. -/
theorem Repr.refOf_ne_fresh (h : Repr lst ns vs) {o : Option Nat} (ho : ∀ a ∈ o, a ∈ ns) :
    Ref.node lst.nodes.fresh ≠ refOf o := by
  cases o with
  | none => simp [refOf]
  | some a =>
    intro he
    have hmem := ho a rfl
    rw [← Ref.node.inj he] at hmem
    exact h.fresh_not_mem hmem

/-- Linking a node in between two halves of a list, either of which may be
empty. -/
theorem Repr.linkIn (h : Repr lst (ns ++ ms) (vs ++ ws)) (hvs : ns.length = vs.length)
    (val : CStr) :
    Repr (lst.linkIn val ns.getLast? ms.head?) (ns ++ lst.nodes.fresh :: ms) (vs ++ val :: ws) where
  links := by
    have hlast := h.live_last.addNode ⟨val, ns.getLast?, ms.head?⟩
    have hhead := (h.live_head.addNode ⟨val, ns.getLast?, ms.head?⟩).setNext
      (refOf ns.getLast?) (some lst.nodes.fresh)
    have hlast_ne : Ref.node lst.nodes.fresh ≠ refOf ns.getLast? :=
      h.refOf_ne_fresh fun a ha => List.mem_append_left _ (List.mem_of_getLast? ha)
    have hhead_ne : Ref.node lst.nodes.fresh ≠ refOf ms.head? :=
      h.refOf_ne_fresh fun a ha => List.mem_append_right _ (List.mem_of_head? ha)
    have hna : lst.nextOf (refOf ns.getLast?) = ms.head? := by
      rw [← lastRef_root]
      exact h.links.fwd.append.head
    have hpa : lst.prevOf (refOf ms.head?) = ns.getLast? := by
      have hbwd := h.links.bwd
      rw [List.reverse_append] at hbwd
      rw [← lastRef_root_reverse, hbwd.append.head, List.head?_reverse]
    refine h.links.insert h.fresh_not_mem ?_ ?_ ?_ ?_ ?_ ?_
    · simp [Dlist.linkIn, nextOf_setNext hlast]
    · simp [Dlist.linkIn, nextOf_setNext hlast, hlast_ne, nextOf_addNode, hna]
    · intro y hy hne
      simp [Dlist.linkIn, nextOf_setNext hlast, hy, hne, nextOf_addNode]
    · simp [Dlist.linkIn, prevOf_setPrev hhead]
    · simp [Dlist.linkIn, prevOf_setPrev hhead, hhead_ne, prevOf_addNode, hpa]
    · intro y hy hne
      simp [Dlist.linkIn, prevOf_setPrev hhead, hy, hne, prevOf_addNode]
  values := by
    have hold := h.values
    rw [List.map_append, List.map_append] at hold
    obtain ⟨hns, hms⟩ := List.append_inj hold (by simpa using hvs)
    have hfresh := h.fresh_not_mem
    rw [List.mem_append, not_or] at hfresh
    have hframe : ∀ cs : List Nat, lst.nodes.fresh ∉ cs →
        cs.map (lst.linkIn val ns.getLast? ms.head?).valueOf = cs.map lst.valueOf := by
      intro cs hcs
      refine List.map_congr_left fun b hb => ?_
      have hne : b ≠ lst.nodes.fresh := fun he => hcs (he ▸ hb)
      simp [Dlist.linkIn, valueOf_addNode, hne]
    have hnew : (lst.linkIn val ns.getLast? ms.head?).valueOf lst.nodes.fresh = some val := by
      simp [Dlist.linkIn, valueOf_addNode]
    rw [List.map_append, List.map_cons, List.map_append, List.map_cons, hframe ns hfresh.1,
      hframe ms hfresh.2, hns, hms, hnew]
  len := by
    have hlen := h.len
    simp only [Dlist.linkIn, len_setPrev, len_setNext, addNode, List.length_append,
      List.length_cons] at hlen ⊢
    omega

/-- `dlist_push_left` puts its value in front. -/
theorem Repr.pushLeft (h : Repr lst ns vs) (val : CStr) :
    Repr (lst.dlistPushLeft val) (lst.nodes.fresh :: ns) (val :: vs) := by
  have hold : Repr lst ([] ++ ns) ([] ++ vs) := h
  rw [dlistPushLeft_eq, h.head_eq]
  exact hold.linkIn rfl val

/-- `dlist_push_right` puts it at the end. -/
theorem Repr.pushRight (h : Repr lst ns vs) (val : CStr) :
    Repr (lst.dlistPushRight val) (ns ++ [lst.nodes.fresh]) (vs ++ [val]) := by
  have hold : Repr lst (ns ++ []) (vs ++ []) := by
    simpa using h
  rw [dlistPushRight_eq, h.tail_eq]
  exact hold.linkIn h.length_eq val

/-! ## Linking out -/

/-- To unlink is to write two pointers and to free the node. -/
theorem unlink_eq (lst : Dlist) (n : Nat) (x : ListNode) :
    lst.unlink n x =
      ((lst.setNext (refOf x.prev) x.next).setPrev (refOf x.next) x.prev).dropNode n := by
  unfold unlink
  cases x.prev <;> cases x.next <;> rfl

/-- The other nodes keep their `next`. -/
theorem nextOf_dropNode (hy : y ≠ .node n) : (lst.dropNode n).nextOf y = lst.nextOf y := by
  cases y with
  | root => rfl
  | node b =>
    have hb : b ≠ n := fun he => hy (he ▸ rfl)
    rw [dropNode, nextOf, nextOf, Heap.get_free_of_ne hb]

/-- The other nodes keep their `prev`. -/
theorem prevOf_dropNode (hy : y ≠ .node n) : (lst.dropNode n).prevOf y = lst.prevOf y := by
  cases y with
  | root => rfl
  | node b =>
    have hb : b ≠ n := fun he => hy (he ▸ rfl)
    rw [dropNode, prevOf, prevOf, Heap.get_free_of_ne hb]

theorem valueOf_dropNode {b : Nat} (hb : b ≠ n) : (lst.dropNode n).valueOf b = lst.valueOf b := by
  rw [dropNode, valueOf, valueOf, Heap.get_free_of_ne hb]

/-- Unlinking the node at a place removes it from the sequence, and its
string with it. -/
theorem Repr.unlink (h : Repr lst (ns ++ n :: ms) vs) :
    ∃ us v ws, vs = us ++ v :: ws ∧ us.length = ns.length ∧
      lst.nodes.get n = some ⟨v, ns.getLast?, ms.head?⟩ ∧
      Repr (lst.unlink n ⟨v, ns.getLast?, ms.head?⟩) (ns ++ ms) (us ++ ws) := by
  obtain ⟨us, v, ws, rfl, hus, hws, hx⟩ := h.get_middle
  refine ⟨us, v, ws, rfl, by simpa using (congrArg List.length hus).symm, hx, ?_⟩
  have hnodup := List.nodup_cons.mp (List.nodup_middle.mp h.links.nodup)
  have hne : ∀ o : Option Nat, (∀ a ∈ o, a ∈ ns ++ ms) → refOf o ≠ .node n := by
    rintro (_ | a) ho
    · simp [refOf]
    · intro he
      exact hnodup.1 (Ref.node.inj he ▸ ho a rfl)
  have hlast_ne : refOf ns.getLast? ≠ .node n :=
    hne _ fun a ha => List.mem_append_left _ (List.mem_of_getLast? ha)
  have hhead_ne : refOf ms.head? ≠ .node n :=
    hne _ fun a ha => List.mem_append_right _ (List.mem_of_head? ha)
  have hlast : lst.Live (refOf ns.getLast?) := h.live_last
  have hhead : (lst.setNext (refOf ns.getLast?) ms.head?).Live (refOf ms.head?) := by
    have h' : Repr lst ((ns ++ [n]) ++ ms) (us ++ v :: ws) := by
      simpa using h
    exact h'.live_head.setNext _ _
  have hvals : (us ++ ws).map some = (ns ++ ms).map lst.valueOf := by
    rw [List.map_append, List.map_append, hus, hws]
  rw [unlink_eq]
  refine ⟨h.links.remove ?_ ?_ ?_ ?_, ?_, ?_⟩
  · simp [nextOf_dropNode hlast_ne, nextOf_setNext hlast]
  · intro y hy hyn
    simp [nextOf_dropNode hyn, nextOf_setNext hlast, hy]
  · simp [prevOf_dropNode hhead_ne, prevOf_setPrev hhead]
  · intro y hy hyn
    simp [prevOf_dropNode hyn, prevOf_setPrev hhead, hy]
  · rw [hvals]
    refine List.map_congr_left fun b hb => ?_
    have hbn : b ≠ n := fun he => hnodup.1 (he ▸ hb)
    simp [valueOf_dropNode hbn]
  · have hlen := h.len
    simp only [dropNode, len_setPrev, len_setNext, List.length_append, List.length_cons] at hlen ⊢
    omega

/-- A pop on the left unlinks `head`. -/
theorem dlistPopLeft_eq (hh : lst.head = some n) (hx : lst.nodes.get n = some x)
    (hp : x.prev = none) : lst.dlistPopLeft = (lst.unlink n x, some x.value) := by
  simp only [dlistPopLeft, hh, Option.bind_some, hx, Option.map_some, unlink, hp]
  cases x.next <;> rfl

/-- A pop on the right unlinks `tail`. -/
theorem dlistPopRight_eq (ht : lst.tail = some n) (hx : lst.nodes.get n = some x)
    (hn : x.next = none) : lst.dlistPopRight = (lst.unlink n x, some x.value) := by
  simp only [dlistPopRight, ht, Option.bind_some, hx, Option.map_some, unlink, hn]
  cases x.prev <;> rfl

/-- `dlist_pop_left` returns the first value, and NULL from an empty list. -/
theorem Repr.popLeft (h : Repr lst ns vs) :
    Repr lst.dlistPopLeft.1 ns.tail vs.tail ∧ lst.dlistPopLeft.2 = vs.head? := by
  cases ns with
  | nil =>
    have hvs : vs = [] := List.eq_nil_of_length_eq_zero h.length_eq.symm
    subst hvs
    have hpop : lst.dlistPopLeft = (lst, none) := by
      simp [dlistPopLeft, h.head_eq]
    rw [hpop]
    exact ⟨h, rfl⟩
  | cons n ns =>
    have hsplit : Repr lst ([] ++ n :: ns) vs := h
    obtain ⟨us, v, ws, rfl, hus, hx, hrest⟩ := hsplit.unlink
    obtain rfl : us = [] := List.eq_nil_of_length_eq_zero hus
    rw [dlistPopLeft_eq h.head_eq hx rfl]
    exact ⟨hrest, rfl⟩

/-- `dlist_pop_right` returns the last one. -/
theorem Repr.popRight (h : Repr lst ns vs) :
    Repr lst.dlistPopRight.1 ns.dropLast vs.dropLast ∧ lst.dlistPopRight.2 = vs.getLast? := by
  rcases List.eq_nil_or_concat ns with rfl | ⟨ns, n, rfl⟩
  · have hvs : vs = [] := List.eq_nil_of_length_eq_zero h.length_eq.symm
    subst hvs
    have hpop : lst.dlistPopRight = (lst, none) := by
      simp [dlistPopRight, h.tail_eq]
    rw [hpop]
    exact ⟨h, rfl⟩
  · rw [List.concat_eq_append] at h ⊢
    have hlen := h.length_eq
    obtain ⟨us, v, ws, rfl, hus, hx, hrest⟩ := h.unlink
    obtain rfl : ws = [] := by
      apply List.eq_nil_of_length_eq_zero
      simp only [List.length_append, List.length_cons, List.length_nil] at hlen
      omega
    rw [dlistPopRight_eq (by simp [h.tail_eq]) hx rfl, List.dropLast_concat, List.dropLast_concat,
      List.getLast?_concat]
    refine ⟨?_, rfl⟩
    simpa using hrest

/-! ## Overwriting one string -/

/-- Writing a value in place moves no node. -/
theorem Repr.setValue (h : Repr lst ns vs) {i : Nat} (hn : ns[i]? = some n) (val : CStr) :
    Repr { lst with nodes := lst.nodes.modify n fun x => { x with value := val } } ns
      (vs.set i val) where
  links := by
    refine ⟨h.links.fwd.congr rfl fun b _ => ?_, h.links.bwd.congr rfl fun b _ => ?_, h.links.nodup⟩
    · exact Heap.bind_get_modify lst.nodes n b fun _ => rfl
    · exact Heap.bind_get_modify lst.nodes n b fun _ => rfl
  values := by
    obtain ⟨x, hx⟩ := h.exists_get (List.mem_of_getElem? hn)
    rw [List.map_set, ← h.values]
    apply List.ext_getElem?
    intro j
    rw [List.getElem?_map, List.getElem?_set, List.getElem?_map]
    by_cases hij : i = j
    · subst hij
      have hlt : i < ns.length := (List.getElem?_eq_some_iff.mp hn).1
      rw [hn, if_pos rfl, if_pos (by simpa using hlt)]
      simp [valueOf, hx]
    · rw [if_neg hij]
      cases hj : ns[j]? with
      | none => rfl
      | some b =>
        have hbn : b ≠ n := by
          rintro rfl
          exact hij ((List.getElem?_inj (List.getElem?_eq_some_iff.mp hn).1 h.links.nodup).mp
            (hn.trans hj.symm))
        simp [valueOf, Heap.get_modify_of_ne hbn]
  len := by
    rw [List.length_set]
    exact h.len

/-- `dlist_set` overwrites the position addressed, and fails exactly
outside. -/
theorem Repr.set (h : Repr lst ns vs) (idx : Int) (val : CStr) :
    (RefList.InRange vs idx → ∃ lst', lst.dlistSet idx val = some lst' ∧
      Repr lst' ns (vs.set (RefList.position vs idx).toNat val)) ∧
    (¬ RefList.InRange vs idx → lst.dlistSet idx val = none) := by
  constructor
  · intro hin
    have hlt : (RefList.position vs idx).toNat < ns.length := by
      rw [h.length_eq]
      exact Repr.position_lt hin
    have hn := List.getElem?_eq_getElem hlt
    refine ⟨_, ?_, h.setValue hn val⟩
    simp only [dlistSet, h.normIdx_eq, if_pos hin, h.nthNode_eq, hn]
  · intro hout
    simp only [dlistSet, h.normIdx_eq, if_neg hout]

end Dlist

/-! ## Removing by value -/

namespace RefList

@[simp] theorem remove_nil (k : Int) (val : CStr) : remove k val [] = [] := by
  simp [remove, removeFirst]

/-- A value that differs stays. -/
theorem remove_cons_of_ne {v val : CStr} (h : v ≠ val) (k : Int) (vs : List CStr) :
    remove k val (v :: vs) = v :: remove k val vs := by
  unfold remove
  split_ifs with hk
  · rw [List.filter_cons_of_pos (by simpa using h)]
  · obtain ⟨m, hm⟩ : ∃ m, k.toNat = m + 1 := ⟨k.toNat - 1, by omega⟩
    rw [hm, removeFirst, if_neg h]

/-- An equal value goes, while there is any left to be taken out. -/
theorem remove_cons_self {k : Int} (h : k ≤ 0 ∨ 1 < k) (val : CStr) (vs : List CStr) :
    remove k val (val :: vs) = remove (k - 1) val vs := by
  unfold remove
  rcases h with hk | hk
  · rw [if_pos hk, if_pos (by omega), List.filter_cons_of_neg (by simp)]
  · obtain ⟨m, hm⟩ : ∃ m, k.toNat = m + 1 := ⟨k.toNat - 1, by omega⟩
    rw [if_neg (by omega), if_neg (by omega), hm, removeFirst, if_pos rfl]
    congr 1
    omega

theorem remove_one_cons_self (val : CStr) (vs : List CStr) : remove 1 val (val :: vs) = vs := by
  cases vs <;> simp [remove, removeFirst]

/-- Nothing is added. -/
theorem length_remove_le (k : Int) (val : CStr) (vs : List CStr) :
    (remove k val vs).length ≤ vs.length := by
  induction vs generalizing k with
  | nil => simp
  | cons v vs ih =>
    by_cases hv : v = val
    · subst hv
      by_cases hk : k = 1
      · subst hk
        rw [remove_one_cons_self]
        simp
      · rw [remove_cons_self (by omega)]
        exact (ih (k - 1)).trans (by simp)
    · rw [remove_cons_of_ne hv]
      simpa using ih k

/-- How many go: the occurrences there are, and no more than asked for. -/
theorem length_sub_length_remove (k : Int) (val : CStr) (vs : List CStr) :
    vs.length - (remove k val vs).length =
      if k ≤ 0 then vs.count val else min k.toNat (vs.count val) := by
  induction vs generalizing k with
  | nil => simp
  | cons v vs ih =>
    by_cases hv : v = val
    · subst hv
      rw [List.count_cons_self]
      by_cases hk : k = 1
      · subst hk
        rw [remove_one_cons_self]
        simp
      · rw [remove_cons_self (by omega)]
        have hle := length_remove_le (k - 1) v vs
        have hrec := ih (k - 1)
        simp only [List.length_cons]
        split_ifs at hrec ⊢ <;> omega
    · rw [remove_cons_of_ne hv, List.count_cons_of_ne hv]
      simpa using ih k

end RefList

namespace Dlist

variable {lst : Dlist} {ns ms : List Nat} {vs ws : List CStr}

/-- The loop of `dlist_rem`, standing before the nodes `ms`: of the strings
ahead it removes the first `count - removed` occurrences, or all. -/
theorem Repr.remLoop (count : Int) (val : CStr) (removed fuel : Nat)
    (h : Repr lst (ns ++ ms) (vs ++ ws)) (hvs : ns.length = vs.length) (hfuel : ms.length ≤ fuel)
    (hcount : count ≤ 0 ∨ (removed : Int) < count) :
    (∃ ns', Repr (remLoop count val fuel lst ms.head? removed).1 ns'
      (vs ++ RefList.remove (count - removed) val ws)) ∧
    (remLoop count val fuel lst ms.head? removed).2 =
      removed + (ws.length - (RefList.remove (count - removed) val ws).length) := by
  induction ms generalizing lst ns vs ws removed fuel with
  | nil =>
    obtain rfl : ws = [] := by
      have hlen := h.length_eq
      simp only [List.length_append, List.length_nil] at hlen
      exact List.eq_nil_of_length_eq_zero (by omega)
    have hstop : Dlist.remLoop count val fuel lst none removed = (lst, removed) := by
      cases fuel <;> rfl
    rw [List.head?_nil, hstop, RefList.remove_nil]
    exact ⟨⟨_, h⟩, rfl⟩
  | cons n ms ih =>
    obtain ⟨fuel, rfl⟩ : ∃ k, fuel = k + 1 := ⟨fuel - 1, by simp at hfuel; omega⟩
    obtain ⟨us, v, ws', hsplit, hus, hx, hrest⟩ := h.unlink
    obtain ⟨rfl, rfl⟩ : vs = us ∧ ws = v :: ws' := List.append_inj hsplit (by omega)
    have hfuel' : ms.length ≤ fuel := by simpa using hfuel
    rw [List.head?_cons, Dlist.remLoop, hx]
    simp only [strcmp_eq_eq]
    by_cases hv : v = val
    · subst hv
      rw [if_pos rfl]
      by_cases hlast : 0 < count ∧ count ≤ (removed + 1 : Nat)
      · -- the last occurrence asked for: the loop breaks here
        rw [if_pos hlast]
        have hone : count - removed = 1 := by omega
        rw [hone, RefList.remove_one_cons_self]
        exact ⟨⟨_, hrest⟩, by simp⟩
      · rw [if_neg hlast]
        have hnext := ih (removed + 1) fuel hrest hvs hfuel' (by omega)
        have hk : count - (removed + 1 : Nat) = count - removed - 1 := by omega
        rw [hk] at hnext
        rw [RefList.remove_cons_self (by omega)]
        refine ⟨hnext.1, hnext.2.trans ?_⟩
        have hle := RefList.length_remove_le (count - removed - 1) v ws'
        simp only [List.length_cons]
        omega
    · rw [if_neg hv]
      have h' : Repr lst ((ns ++ [n]) ++ ms) ((vs ++ [v]) ++ ws') := by
        simpa using h
      have hnext := ih removed fuel h' (by simp [hvs]) hfuel' hcount
      rw [RefList.remove_cons_of_ne hv]
      refine ⟨?_, hnext.2.trans (by simp)⟩
      simpa using hnext.1

/-- `dlist_rem` takes out what `remove` says, from the end it says, and counts. -/
theorem Repr.rem (h : Repr lst ns vs) (count : Int) (val : CStr) :
    (∃ ns', Repr (lst.dlistRem count val).1 ns' (RefList.remove count val vs)) ∧
    (lst.dlistRem count val).2 = vs.length - (RefList.remove count val vs).length := by
  have hold : Repr lst ([] ++ ns) ([] ++ vs) := h
  have hloop := Repr.remLoop count val 0 lst.nodes.fresh hold rfl h.length_le_fresh (by omega)
  rw [dlistRem, h.head_eq]
  simpa using hloop

/-! ## All histories -/

/-- One operation: the pointers return what the reference returns, and
spell the reference afterwards. -/
theorem Repr.exec (h : Repr lst ns vs) (op : Op) :
    (∃ ns', Repr (lst.exec op).1 ns' (RefList.exec vs op).1) ∧
    (lst.exec op).2 = (RefList.exec vs op).2 := by
  cases op with
  | pushLeft val => exact ⟨⟨_, h.pushLeft val⟩, rfl⟩
  | pushRight val => exact ⟨⟨_, h.pushRight val⟩, rfl⟩
  | popLeft => exact ⟨⟨_, h.popLeft.1⟩, congrArg Ret.str h.popLeft.2⟩
  | popRight => exact ⟨⟨_, h.popRight.1⟩, congrArg Ret.str h.popRight.2⟩
  | set idx val =>
    have hset := h.set idx val
    by_cases hin : RefList.InRange vs idx
    · obtain ⟨lst', hsome, hrepr⟩ := hset.1 hin
      simp only [Dlist.exec, hsome, RefList.exec, if_pos hin]
      exact ⟨⟨_, hrepr⟩, trivial⟩
    · simp only [Dlist.exec, hset.2 hin, RefList.exec, if_neg hin]
      exact ⟨⟨_, h⟩, trivial⟩
  | rem count val => exact ⟨(h.rem count val).1, congrArg Ret.removed (h.rem count val).2⟩

/-- **Every sequence of list operations** leaves the values that the reference
list has. -/
theorem repr_dlistRun (ops : List Op) : ∃ ns, Repr (dlistRun ops) ns (RefList.run ops) := by
  induction ops using List.reverseRecOn with
  | nil => exact ⟨[], repr_empty⟩
  | append_singleton ops op ih =>
    obtain ⟨ns, h⟩ := ih
    rw [dlistRun, RefList.run, List.foldl_concat, List.foldl_concat]
    exact (h.exec op).1

/-- After every history from the empty list, the strings read along `next`
and, backwards, along `prev` are the reference, `len` is its length, and
every operation returns what the reference says: the ends for the pops,
success exactly in range for `dlist_set`, the number of occurrences
removed for `dlist_rem`. `dlist_get` reads the position addressed, and an
index out of range changes nothing. -/
theorem dlistRun_refines (ops : List Op) :
    (∀ fuel, (RefList.run ops).length ≤ fuel →
      (dlistRun ops).readAlong (·.next) fuel (dlistRun ops).head = some (RefList.run ops) ∧
      (dlistRun ops).readAlong (·.prev) fuel (dlistRun ops).tail = some (RefList.run ops).reverse) ∧
    (dlistRun ops).len = (RefList.run ops).length ∧
    (∀ op, ((dlistRun ops).exec op).2 = (RefList.exec (RefList.run ops) op).2) ∧
    (∀ idx, (dlistRun ops).dlistGet idx =
      if RefList.InRange (RefList.run ops) idx then
        (RefList.run ops)[(RefList.position (RefList.run ops) idx).toNat]?
      else none) ∧
    (∀ idx, ((dlistRun ops).dlistGet idx = none ↔ ¬ RefList.InRange (RefList.run ops) idx) ∧
      ∀ val, (dlistRun ops).dlistSet idx val = none ↔ ¬ RefList.InRange (RefList.run ops) idx) ∧
    (∀ idx val, (dlistRun ops).dlistSet idx val = none →
      ((dlistRun ops).exec (.set idx val)).1 = dlistRun ops) ∧
    (∀ count val, ((dlistRun ops).dlistRem count val).2 =
      if count ≤ 0 then (RefList.run ops).count val
      else min count.toNat ((RefList.run ops).count val)) := by
  obtain ⟨ns, h⟩ := repr_dlistRun ops
  refine ⟨fun fuel hfuel => ⟨h.readAlong_next hfuel, h.readAlong_prev hfuel⟩, h.len,
    fun op => (h.exec op).2, h.dlistGet_eq, fun idx => ⟨?_, fun val => ?_⟩, fun idx val hnone => ?_,
    fun count val => ?_⟩
  · rw [h.dlistGet_eq]
    by_cases hin : RefList.InRange (RefList.run ops) idx
    · simpa [hin] using Repr.position_lt hin
    · simp [hin]
  · by_cases hin : RefList.InRange (RefList.run ops) idx
    · obtain ⟨lst', hsome, _⟩ := (h.set idx val).1 hin
      simp [hin, hsome]
    · simp [hin, (h.set idx val).2 hin]
  · rw [Dlist.exec, hnone]
  · rw [(h.rem count val).2, RefList.length_sub_length_remove]

end Dlist

end AntzKV
