/-
AntzKV.Server.PubSub — the subscription lists of `kvdb.c`.

The manager keeps a list of channels, newest first, and each channel a
list of its subscribers, newest first. A channel's name is copied into a
`char[CHANNEL_NAME_MAX]` and compared with the name asked for, so a name
that does not fit is never found again. Allocations are assumed to
succeed but in `pubsubSubscribeOn`, and the lock makes each function one
step; `pubsub_publish` is two: it copies the descriptors under the lock,
and sends after it.
-/
import AntzKV.Cluster.Bus

namespace AntzKV

open Scanf (decimal)

/-- `CHANNEL_NAME_MAX` -/
def channelNameMax : Nat := 256

/-- `BULK_MSG_MAX` -/
def bulkMsgMax : Nat := 8192

/-- `MAX_BATCH` -/
def maxBatch : Nat := 128

/-- `"$%zu\r\n%s"` of a string. -/
def bulkText (s : CStr) : List UInt8 := 36 :: decimal s.strlen ++ [13, 10] ++ s.bytes

/-- `client_sub_t`; `wlock` is the address of the connection's write lock. -/
structure ClientSub where
  fd : Int
  wlock : Option Nat
  deriving DecidableEq

/-- `channel_entry_t` -/
structure ChannelEntry where
  name : CStr
  subs : List ClientSub
  deriving DecidableEq

/-- `pubsub_mgr_t` -/
structure PubsubMgr where
  channels : List ChannelEntry
  deriving DecidableEq

namespace PubsubMgr

/-- `pubsub_create` -/
def pubsubCreate : PubsubMgr := ⟨[]⟩

/-- `strcmp(cur->name, ch) == 0` -/
def isNamed (ch : CStr) (e : ChannelEntry) : Bool := strcmp e.name ch == .eq

/-- The entry a search for a name stops at. -/
def channel? (m : PubsubMgr) (ch : CStr) : Option ChannelEntry := m.channels.find? (isNamed ch)

/-- Change the first entry with the property. -/
def modifyFirst (p : ChannelEntry → Bool) (f : List ClientSub → List ClientSub) :
    List ChannelEntry → List ChannelEntry
  | [] => []
  | e :: es => if p e then { e with subs := f e.subs } :: es else e :: modifyFirst p f es

/-- `pubsub_subscribe`, with `ps_get_or_create`: the new subscriber goes to
the front of the entry found, or of a new entry in front of the others. -/
def pubsubSubscribe (m : PubsubMgr) (fd : Int) (wlock : Option Nat) (ch : CStr) : PubsubMgr :=
  match m.channel? ch with
  | some _ => ⟨modifyFirst (isNamed ch) (fun subs => ⟨fd, wlock⟩ :: subs) m.channels⟩
  | none => ⟨⟨ch.take (channelNameMax - 1), [⟨fd, wlock⟩]⟩ :: m.channels⟩

/-- `pubsub_subscribe` with the outcomes of its two `calloc`s, for a new
entry and for the subscriber. -/
def pubsubSubscribeOn (entryCalloc subCalloc : Bool) (m : PubsubMgr) (fd : Int)
    (wlock : Option Nat) (ch : CStr) : PubsubMgr :=
  if subCalloc && ((m.channel? ch).isSome || entryCalloc) then m.pubsubSubscribe fd wlock ch
  else if (m.channel? ch).isNone && entryCalloc then
    ⟨⟨ch.take (channelNameMax - 1), []⟩ :: m.channels⟩
  else m

/-- `pubsub_unsubscribe` -/
def pubsubUnsubscribe (m : PubsubMgr) (fd : Int) (ch : CStr) : PubsubMgr :=
  ⟨modifyFirst (isNamed ch) (List.eraseP fun s => s.fd = fd) m.channels⟩

/-- `pubsub_unsubscribe_all` -/
def pubsubUnsubscribeAll (m : PubsubMgr) (fd : Int) : PubsubMgr :=
  ⟨m.channels.map fun e => { e with subs := e.subs.filter fun s => s.fd ≠ fd }⟩

/-- The subscribers of the entry a search for a name stops at. -/
def subsOf (m : PubsubMgr) (ch : CStr) : List ClientSub := (m.channel? ch).elim [] (·.subs)

/-- `pubsub_numsub` -/
def pubsubNumsub (m : PubsubMgr) (ch : CStr) : Nat := (m.subsOf ch).length

/-! ## Publishing -/

/-- The batch `pubsub_publish` copies under the lock. -/
def batch (m : PubsubMgr) (ch : CStr) : List ClientSub := (m.subsOf ch).take maxBatch

/-- `"$%zu\r\n%s\r\n"` of a string. -/
def bulkItem (s : CStr) : List UInt8 := bulkText s ++ [13, 10]

/-- The message built into `buf`. Channel and text come from one request
line, so they fit it. -/
def messageText (ch msg : CStr) : List UInt8 :=
  (CStr.lit "*3").bytes ++ [13, 10] ++ bulkItem (.lit "message") ++ bulkItem ch ++ bulkItem msg

/-- The sends of `pubsub_publish`, one for each descriptor of the batch
that is not negative. Sends are assumed to succeed, so their number is
what it returns. -/
def pubsubPublish (m : PubsubMgr) (ch msg : CStr) : List (Int × List UInt8) :=
  ((m.batch ch).filter fun s => 0 ≤ s.fd).map fun s => (s.fd, messageText ch msg)

/-- `(size_t)len`: the length of the message as `snprintf` returns it. -/
def messageLen (ch msg : CStr) : Nat :=
  if (messageText ch msg).length < 2147483648 then (messageText ch msg).length else sizeBound - 1

/-- The `len` bytes that are sent of `buf`, which holds what `snprintf`
left of the message; `stack` is what stands behind it. -/
def messageSent (stack : List UInt8) (ch msg : CStr) : List UInt8 :=
  (snprintf bulkMsgMax (messageText ch msg) ++ 0 :: stack).take (messageLen ch msg)

/-- The send loop: the sends it attempts, and `count`. What `send` returns
on a descriptor is the world's. -/
def sendLoop (send : Int → Int) (bytes : List UInt8) :
    List ClientSub → List (Int × List UInt8) × Nat
  | [] => ([], 0)
  | s :: subs =>
    let (attempts, count) := sendLoop send bytes subs
    if 0 ≤ s.fd then
      ((s.fd, bytes) :: attempts, if 0 ≤ send s.fd then count + 1 else count)
    else (attempts, count)

/-- `pubsub_publish` for any channel and message, where sends can fail. -/
def pubsubPublishOn (send : Int → Int) (stack : List UInt8) (m : PubsubMgr) (ch msg : CStr) :
    List (Int × List UInt8) × Nat :=
  sendLoop send (messageSent stack ch msg) (m.batch ch)

end PubsubMgr

end AntzKV
