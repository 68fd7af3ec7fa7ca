/-
AntzKV.Server.PubSubHeap — the subscription lists of `kvdb.c` as they lie
in memory.

`channel_entry_t` and `client_sub_t` are cells of two heaps; the entries
hang from `channels`, and the subscribers of an entry from its `subs`. A
`client_sub_t **` is a `Ref`: `&ch->subs` is the root, `&cs->next` the
node `cs`. Each loop follows the pointers the C code follows and writes
what it writes; the fuel is the number of cells there are. A branch that
reads a freed cell leaves the lists alone; no run takes one.

`contents` reads the lists back, as the `PubsubMgr` they stand for.
-/
import AntzKV.Server.PubSub
import AntzKV.Lib.LinkedHeap

namespace AntzKV

open LinkedHeap (Ref)

/-- A `client_sub_t` in memory. -/
structure SubCell where
  fd : Int
  wlock : Option Nat
  next : Option Nat
  deriving DecidableEq

/-- A `channel_entry_t` in memory. -/
structure ChannelCell where
  name : CStr
  subs : Option Nat
  next : Option Nat
  deriving DecidableEq

/-- A `pubsub_mgr_t`, with the memory behind it. -/
structure PubsubHeap where
  channels : Option Nat
  entries : Heap ChannelCell
  subs : Heap SubCell
  deriving DecidableEq

/-- What a cell says of its subscriber. -/
def SubCell.sub (c : SubCell) : ClientSub := ⟨c.fd, c.wlock⟩

namespace PubsubHeap

/-- `pubsub_create` -/
def pubsubCreate : PubsubHeap := ⟨none, Heap.empty, Heap.empty⟩

/-- `*prev`, for a pointer into the subscribers of entry `e`. -/
def link (h : PubsubHeap) (e : Nat) : Ref Nat → Option Nat
  | .root => (h.entries.get e).bind (·.subs)
  | .node a => (h.subs.get a).bind (·.next)

/-- `*prev = v` -/
def setLink (h : PubsubHeap) (e : Nat) (prev : Ref Nat) (v : Option Nat) : PubsubHeap :=
  match prev with
  | .root => { h with entries := h.entries.modify e fun c => { c with subs := v } }
  | .node a => { h with subs := h.subs.modify a fun c => { c with next := v } }

/-- `free(cs)` -/
def freeSub (h : PubsubHeap) (a : Nat) : PubsubHeap := { h with subs := h.subs.free a }

/-- The search for a name from `cur` on. -/
def findChannel (h : PubsubHeap) (ch : CStr) : Nat → Option Nat → Option Nat
  | 0, _ => none
  | _ + 1, none => none
  | fuel + 1, some e =>
    match h.entries.get e with
    | none => none
    | some cur => if strcmp cur.name ch = .eq then some e else findChannel h ch fuel cur.next

/-- `ps_get_or_create`; `none` is NULL. -/
def psGetOrCreate (calloc : Bool) (h : PubsubHeap) (ch : CStr) : PubsubHeap × Option Nat :=
  match h.findChannel ch h.entries.fresh h.channels with
  | some e => (h, some e)
  | none =>
    if calloc then
      ({ h with
          channels := some h.entries.fresh
          entries := h.entries.alloc ⟨ch.take (channelNameMax - 1), none, h.channels⟩ },
        some h.entries.fresh)
    else (h, none)

/-- `pubsub_subscribe`, with the outcomes of its two `calloc`s. -/
def pubsubSubscribe (entryCalloc subCalloc : Bool) (h : PubsubHeap) (fd : Int)
    (wlock : Option Nat) (ch : CStr) : PubsubHeap :=
  match h.psGetOrCreate entryCalloc ch with
  | (h, none) => h
  | (h, some e) =>
    if subCalloc then
      { h with
        entries := h.entries.modify e fun c => { c with subs := some h.subs.fresh }
        subs := h.subs.alloc ⟨fd, wlock, h.link e .root⟩ }
    else h

/-- The inner loop of `pubsub_unsubscribe`, which stops at the first match,
and of `pubsub_unsubscribe_all`, which goes on (`again`). -/
def unlinkLoop (again : Bool) (fd : Int) (e : Nat) :
    Nat → PubsubHeap → Ref Nat → Option Nat → PubsubHeap
  | 0, h, _, _ => h
  | _ + 1, h, _, none => h
  | fuel + 1, h, prev, some a =>
    match h.subs.get a with
    | none => h
    | some cs =>
      if cs.fd = fd then
        let h := (h.setLink e prev cs.next).freeSub a
        if again then unlinkLoop again fd e fuel h prev (h.link e prev) else h
      else unlinkLoop again fd e fuel h (.node a) cs.next

/-- `pubsub_unsubscribe` -/
def pubsubUnsubscribe (h : PubsubHeap) (fd : Int) (ch : CStr) : PubsubHeap :=
  match h.findChannel ch h.entries.fresh h.channels with
  | none => h
  | some e => unlinkLoop false fd e h.subs.fresh h .root (h.link e .root)

/-- The outer loop of `pubsub_unsubscribe_all`, from the entry `ch` on. -/
def unsubscribeAllLoop (fd : Int) : Nat → PubsubHeap → Option Nat → PubsubHeap
  | 0, h, _ => h
  | _ + 1, h, none => h
  | fuel + 1, h, some e =>
    match h.entries.get e with
    | none => h
    | some ch =>
      let h := unlinkLoop true fd e h.subs.fresh h .root ch.subs
      unsubscribeAllLoop fd fuel h ((h.entries.get e).bind (·.next))

/-- `pubsub_unsubscribe_all` -/
def pubsubUnsubscribeAll (h : PubsubHeap) (fd : Int) : PubsubHeap :=
  unsubscribeAllLoop fd h.entries.fresh h h.channels

/-! ## Runs -/

/-- A call, with the outcomes of the `calloc`s it makes. -/
inductive Op where
  | subscribe (entryCalloc subCalloc : Bool) (fd : Int) (wlock : Option Nat) (ch : CStr)
  | unsubscribe (fd : Int) (ch : CStr)
  | unsubscribeAll (fd : Int)
  deriving DecidableEq

def step (h : PubsubHeap) : Op → PubsubHeap
  | .subscribe entryCalloc subCalloc fd wlock ch =>
    h.pubsubSubscribe entryCalloc subCalloc fd wlock ch
  | .unsubscribe fd ch => h.pubsubUnsubscribe fd ch
  | .unsubscribeAll fd => h.pubsubUnsubscribeAll fd

/-- The lists in memory after a sequence of calls. -/
def run (ops : List Op) : PubsubHeap := ops.foldl step pubsubCreate

/-- The same call on lists of values. -/
def Op.onMgr (m : PubsubMgr) : Op → PubsubMgr
  | .subscribe entryCalloc subCalloc fd wlock ch =>
    m.pubsubSubscribeOn entryCalloc subCalloc fd wlock ch
  | .unsubscribe fd ch => m.pubsubUnsubscribe fd ch
  | .unsubscribeAll fd => m.pubsubUnsubscribeAll fd

/-! ## Reading the lists -/

/-- The subscribers from the pointer on; `none` if a cell is not there or
the fuel does not reach the end. -/
def readSubs (h : PubsubHeap) : Nat → Option Nat → Option (List ClientSub)
  | _, none => some []
  | 0, some _ => none
  | fuel + 1, some a =>
    match h.subs.get a with
    | none => none
    | some c => (h.readSubs fuel c.next).map (c.sub :: ·)

/-- The entries from the pointer on, each with its subscribers. -/
def readEntries (h : PubsubHeap) : Nat → Option Nat → Option (List ChannelEntry)
  | _, none => some []
  | 0, some _ => none
  | fuel + 1, some e =>
    match h.entries.get e with
    | none => none
    | some c =>
      (h.readSubs h.subs.fresh c.subs).bind fun subs =>
        (h.readEntries fuel c.next).map (⟨c.name, subs⟩ :: ·)

/-- The subscription lists, read along the pointers. -/
def contents (h : PubsubHeap) : Option PubsubMgr :=
  (h.readEntries h.entries.fresh h.channels).map PubsubMgr.mk

end PubsubHeap

end AntzKV
