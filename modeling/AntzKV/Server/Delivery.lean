/-
AntzKV.Server.Delivery — publishers, subscribers and connections that
come and go.

A step of this system is a section under the lock of the manager, a
single `send`, a `close` or an `accept`. `pubsub_publish` copies the
descriptors in one step and sends on them in later ones; a client that
disconnects takes its subscriptions back in one step and closes its
descriptor in a later one; `accept` may hand out any descriptor that is
not open. A step that its party cannot take leaves the system as it is.
-/
import AntzKV.Server.PubSubTheorems

namespace AntzKV

/-- A client connection. `subscribed` is what its own commands amount to;
after its last command it is `leaving`, until the descriptor is closed. -/
structure Conn where
  subscribed : CStr → Bool
  leaving : Bool

/-- A `pubsub_publish` behind its lock: what is left of the batch. -/
structure Publisher where
  channel : CStr
  pending : List ClientSub

/-- The open descriptors with their connections, the subscription lists,
and the publishers that are sending. -/
structure Delivery where
  mgr : PubsubMgr
  conns : Int → Option Conn
  publishers : List Publisher

inductive DeliveryOp where
  | accept (fd : Int)
  | subscribe (fd : Int) (wlock : Option Nat) (ch : CStr)
  | unsubscribe (fd : Int) (ch : CStr)
  | unsubscribeAll (fd : Int)
  | leave (fd : Int)
  | close (fd : Int)
  | publish (ch : CStr)
  | send (i : Nat)

namespace Delivery

def start : Delivery := ⟨.pubsubCreate, fun _ => none, []⟩

/-- The connection whose client still gives commands on the descriptor. -/
def client? (s : Delivery) (fd : Int) : Option Conn :=
  (s.conns fd).filter fun c => !c.leaving

def setConn (s : Delivery) (fd : Int) (c : Option Conn) : Delivery :=
  { s with conns := Function.update s.conns fd c }

def step (s : Delivery) : DeliveryOp → Delivery
  | .accept fd =>
    if 0 ≤ fd ∧ (s.conns fd).isNone then s.setConn fd (some ⟨fun _ => false, false⟩) else s
  | .subscribe fd wlock ch =>
    match s.client? fd with
    | none => s
    | some c =>
      { s.setConn fd (some { c with subscribed := Function.update c.subscribed ch true }) with
        mgr := s.mgr.pubsubSubscribe fd wlock ch }
  | .unsubscribe fd ch =>
    match s.client? fd with
    | none => s
    | some c =>
      { s.setConn fd (some { c with subscribed := Function.update c.subscribed ch false }) with
        mgr := s.mgr.pubsubUnsubscribe fd ch }
  | .unsubscribeAll fd =>
    match s.client? fd with
    | none => s
    | some c =>
      { s.setConn fd (some { c with subscribed := fun _ => false }) with
        mgr := s.mgr.pubsubUnsubscribeAll fd }
  | .leave fd =>
    match s.client? fd with
    | none => s
    | some _ =>
      { s.setConn fd (some ⟨fun _ => false, true⟩) with mgr := s.mgr.pubsubUnsubscribeAll fd }
  | .close fd => if (s.conns fd).any (·.leaving) then s.setConn fd none else s
  | .publish ch => { s with publishers := s.publishers ++ [⟨ch, s.mgr.batch ch⟩] }
  | .send i =>
    { s with publishers := s.publishers.modify i fun p => { p with pending := p.pending.tail } }

/-- The descriptor and the channel of a `send`, if the step is one. -/
def sends (s : Delivery) : DeliveryOp → Option (Int × CStr)
  | .send i =>
    (s.publishers[i]?).bind fun p =>
      (p.pending.head?.filter fun sub => 0 ≤ sub.fd).map fun sub => (sub.fd, p.channel)
  | _ => none

/-- The step does not send to a connection that is not subscribed. -/
def NoStranger (s : Delivery) (op : DeliveryOp) : Prop :=
  ∀ fd ch, s.sends op = some (fd, ch) → ∀ c, s.conns fd = some c → c.subscribed ch = true

/-- No publisher on a channel in `chs` is still to send on the descriptor. -/
def Settled (s : Delivery) (fd : Int) (chs : CStr → Prop) : Prop :=
  ∀ p ∈ s.publishers, chs p.channel → fd ∉ p.pending.map (·.fd)

/-- The steps that are safe: subscribing under a name that fits, and once;
taking a subscription back when no publisher holds a copy of it. -/
def Orderly (s : Delivery) : DeliveryOp → Prop
  | .subscribe fd _ ch => ch.strlen < channelNameMax ∧ fd ∉ s.mgr.fdsOf ch
  | .unsubscribe fd ch => s.Settled fd (· = ch)
  | .unsubscribeAll fd => s.Settled fd fun _ => True
  | .leave fd => s.Settled fd fun _ => True
  | _ => True

end Delivery

end AntzKV
