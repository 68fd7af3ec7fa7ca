/-
AntzKV.Server.Hub — the server with all its clients.

A connection has a thread in `handle_client_unlocked`. A `read` puts bytes
behind what is left in `rxbuf`; the lines that are complete then are
handled one after the other, and other threads run between them. A line is
handled in one piece here, against the server and the subscriptions that
all connections share. The workers of the source do run `process_command`
at the same time; what the calls of two lines do to each other when they
mix is the matter of `ConcurrentUpdates` and `Delivery`. After its
loop a thread gives up its subscriptions and closes the descriptor, which
the next connection may get.

`stream`, `taken`, `got` and `served` only record: what a client sends
from first to last, the lines handled so far, what the client was sent,
and the requests with what was sent for them.
-/
import AntzKV.Server.Calls
import AntzKV.Server.Connection

namespace AntzKV

variable {ι S : Type}

/-- A connection and its thread. `todo` are the lines in `rxbuf` in front
of `rx`; the flag `eof` says that a `read` has returned 0. -/
structure HubConn where
  fd : Int
  wlock : Option Nat
  stream : List UInt8
  sock : List UInt8
  rx : List UInt8
  todo : List (List UInt8)
  taken : List (List UInt8)
  subscribed : Bool
  quit : Bool
  eof : Bool
  closed : Bool
  got : List UInt8

namespace HubConn

/-- A connection that was just accepted. -/
def accepted (fd : Int) (wlock : Option Nat) (stream : List UInt8) : HubConn :=
  ⟨fd, wlock, stream, stream, [], [], [], false, false, false, false, []⟩

/-- A round of the loop up to its first line, with `n` bytes arrived. -/
def read (n : Nat) (c : HubConn) : HubConn :=
  let r := LineFraming.Reader.readQuit (bufferSize * 4) (fun ls l => (ls ++ [l], false))
    ⟨c.todo, c.rx, c.sock, c.eof⟩ n
  { c with todo := r.state, rx := r.rx, sock := r.sock, eof := r.closed }

/-- The thread has left its loop. -/
def Over (c : HubConn) : Prop := c.quit = true ∨ (c.eof = true ∧ c.todo = [])

instance (c : HubConn) : Decidable c.Over := inferInstanceAs (Decidable (_ ∨ _ ∧ _))

/-- What is sent on the descriptor while the connection is open. -/
def receive (sends : List (Int × List UInt8)) (c : HubConn) : HubConn :=
  if c.closed then c else { c with got := c.got ++ Server.sentOn c.fd sends }

end HubConn

structure Hub (ι S : Type) where
  srv : Server S
  ps : PubsubMgr
  conn : ι → Option HubConn
  served : List (Option ι × Request S × List (Int × List UInt8))

inductive HubAct (ι S : Type) where
  /-- `accept` returns, and a worker takes the descriptor. -/
  | accept (i : ι) (fd : Int) (wlock : Option Nat) (stream : List UInt8)
  | read (i : ι) (n : Nat)
  /-- The next line of the buffer. -/
  | line (i : ι) (w : World S)
  /-- `pubsub_unsubscribe_all` and `close`. -/
  | close (i : ι)
  /-- A write of a peer arrives. -/
  | replicated (write : ReplWrite)
  /-- A round of `expire_thread`. -/
  | expire (now : Int) (rand : Nat → Nat)

/-- The line of a request. -/
def Request.text? : Request S → Option CStr
  | .line _ _ _ text => some text
  | _ => none

namespace Hub

/-- The server as it starts. -/
def opened (myId : NodeOrigin) (path : Option CStr) (file : Option (List UInt8)) : Hub ι S :=
  ⟨.opened myId path file, .pubsubCreate, fun _ => none, []⟩

/-- What a thread reads of a line. -/
def lineText (line : List UInt8) : CStr := .ofBuf (line.take (bufferSize - 1))

/-- A line subscribes or unsubscribes. -/
def isPubsub (text : CStr) : Bool :=
  match quickParse text with
  | [] => false
  | cmd :: args =>
    (strcasecmpEq cmd (.lit "SUBSCRIBE") && !args.isEmpty) || strcasecmpEq cmd (.lit "UNSUBSCRIBE")

/-- A line ends the connection of a client that has not subscribed. -/
def isQuit (text : CStr) : Bool :=
  ((quickParse text).head?.map fun cmd => strcasecmpEq cmd (.lit "QUIT")).getD false

/-- A line goes to `process_command`. -/
def isRequest (c : HubConn) (text : CStr) : Bool :=
  !(quickParse text).isEmpty && !isPubsub text && !c.subscribed && !isQuit text

/-- The line a thread handles next. -/
def next? (s : Hub ι S) (i : ι) : Option (HubConn × CStr) :=
  (s.conn i).bind fun c =>
    if c.closed || c.quit then none else c.todo.head?.map fun l => (c, lineText l)

/-- The request of an action, and the client it comes from. -/
def request? (s : Hub ι S) : HubAct ι S → Option (Option ι × Request S)
  | .line i w => (s.next? i).bind fun next =>
    if isRequest next.1 next.2 then some (some i, .line w s.ps next.1.fd next.2) else none
  | .replicated write => some (none, .replicated write)
  | .expire now rand => some (none, .expire now rand)
  | _ => none

/-- What a thread works on, after a line. -/
def session [LinearOrder S] (s : Hub ι S) (w : World S) (c : HubConn) (text : CStr) : Session S :=
  (⟨s.srv, s.ps, c.subscribed, c.quit, [], fun _ => w⟩ : Session S).clientLine c.fd c.wlock text

variable [DecidableEq ι]

/-- The requests of a client that were served. -/
def servedBy (s : Hub ι S) (i : ι) : List (Request S × List (Int × List UInt8)) :=
  (s.served.filter fun e => e.1 = some i).map Prod.snd

def setConn (s : Hub ι S) (i : ι) (c : HubConn) : Hub ι S :=
  { s with conn := Function.update s.conn i (some c) }

/-- Sends reach the connections that have the descriptors. -/
def deliver (sends : List (Int × List UInt8)) (s : Hub ι S) : Hub ι S :=
  { s with conn := fun j => (s.conn j).map (HubConn.receive sends) }

variable [LinearOrder S]

/-- What becomes of the server and of a client by the line it is at. -/
def handleLine (s : Hub ι S) (i : ι) (w : World S) (c : HubConn) (text : CStr) : Hub ι S :=
  let ses := s.session w c text
  let c := { c with
    todo := c.todo.tail
    taken := c.taken ++ c.todo.head?.toList
    subscribed := ses.subscribed
    quit := ses.quit }
  deliver ses.sent ({ s with srv := ses.srv, ps := ses.ps }.setConn i c)

def act (s : Hub ι S) : HubAct ι S → Hub ι S
  | .accept i fd wlock stream =>
    if (s.conn i).isSome then s else s.setConn i (.accepted fd wlock stream)
  | .read i n =>
    match s.conn i with
    | none => s
    | some c => if c.closed || c.quit || !c.todo.isEmpty then s else s.setConn i (c.read n)
  | .line i w =>
    match s.next? i with
    | none => s
    | some (c, text) => s.handleLine i w c text
  | .close i =>
    match s.conn i with
    | none => s
    | some c =>
      if c.closed = false ∧ c.Over then
        { s with ps := s.ps.pubsubUnsubscribeAll c.fd }.setConn i { c with closed := true }
      else s
  | .replicated write => { s with srv := (s.srv.serve (.replicated write)).1 }
  | .expire now rand => { s with srv := (s.srv.serve (.expire now rand)).1 }

/-- One step, on the record. A dead process does nothing. -/
def step (s : Hub ι S) (a : HubAct ι S) : Hub ι S :=
  if s.srv.crashed then s
  else
    { s.act a with
      served := s.served ++ (s.request? a).toList.map fun r => (r.1, r.2, (s.srv.serve r.2).2) }

def run (s : Hub ι S) (as : List (HubAct ι S)) : Hub ι S := as.foldl step s

end Hub

end AntzKV
