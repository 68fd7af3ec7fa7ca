/-
AntzKV.Cluster.Mesh — a cluster at work: nodes that serve their clients,
and the connections of the bus between them.

A node is a server with its replication queue, the threads that write to
the bus, and its descriptors. `connect_peer` makes a connection and then
says JOIN on it; apart from that only `cluster_send` writes, for
`repl_thread` the item it has taken and for `hb_thread` a HEARTBEAT, and
nothing comes back. What `write` has taken of a text is in the stream of
the connection at once; the thread at its other end, `handle_client`,
hands over the lines of the stream that fit its buffer, in order, at any
later time.

The locks are held as briefly here as in the source. `cluster_send` looks
up the descriptor under the lock of the peer and writes after it has
released the lock, so that the descriptor may be closed by then, or be
another connection's; `connect_peer` looks whether there is a descriptor
and sets one later, so that there may be one by then. A peer is marked
dead after a `write` that fell short and when nothing was heard of it;
here `drop` may come at any time.
-/
import AntzKV.Cluster.Conf
import AntzKV.Cluster.ReplQueue
import AntzKV.Server.Calls

namespace AntzKV

open Scanf (decimalInt)

variable {ι S : Type}

/-- The threads that write to the bus. -/
inductive BusThread where
  | repl
  | hb
  deriving DecidableEq

/-- A connection of the bus: its ends, what `write` has taken, how many
lines were handed over, and whether a `write` has taken a part of its text
only. -/
structure BusLink (ι : Type) where
  src : ι
  dst : ι
  wrote : List UInt8
  handled : Nat
  torn : Bool

namespace BusLink

/-- What a `write` leaves of a connection. -/
def write (text : List UInt8) (n : Nat) (l : BusLink ι) : BusLink ι :=
  { l with wrote := l.wrote ++ text.take n, torn := l.torn || decide (0 < n ∧ n < text.length) }

/-- The line that comes next at the other end. -/
def next? (l : BusLink ι) : Option (List UInt8) :=
  (LineFraming.fitting (busBufSize - 1) l.wrote)[l.handled]?

end BusLink

/-- What a node is started with. -/
structure NodeConf where
  myId : NodeOrigin
  clientPort : Int32
  path : Option CStr
  file : Option (List UInt8)

/-- `fds` are the open descriptors of the bus with their connections, `out`
is `out_fd` for the peers that have one and are alive, `hello` are the
descriptors on which `connect_peer` has yet to say JOIN; `text` is what a
thread is sending, `item` or `msg`, and `chosen` the descriptor that
`cluster_send` has looked up for it. -/
structure MeshNode (ι S : Type) where
  srv : Server S
  clientPort : Int32
  queue : ReplQueue (List UInt8)
  fds : Nat → Option Nat
  out : ι → Option Nat
  hello : List Nat
  text : BusThread → List UInt8
  chosen : BusThread → Option Nat

structure Mesh (ι S : Type) where
  node : ι → MeshNode ι S
  links : List (BusLink ι)

inductive MeshAct (ι S : Type) where
  /-- A line of a client. -/
  | line (i : ι) (w : World S) (ps : PubsubMgr) (fd : Int) (text : CStr)
  /-- A round of the thread that expires keys. -/
  | expire (i : ι) (now : Int) (rand : Nat → Nat)
  /-- `repl_thread` takes its next item. -/
  | take (i : ι)
  /-- `hb_thread` builds its message. -/
  | beat (i : ι)
  /-- `connect_peer` gets a connection, under the descriptor `fd`. -/
  | connectPeer (i j : ι) (fd : Nat)
  /-- Its `write`, which takes `n` bytes. -/
  | greet (i : ι) (fd n : Nat)
  /-- The first half of `cluster_send` to a peer. -/
  | choose (i : ι) (t : BusThread) (j : ι)
  /-- Its `write`, which takes `n` bytes. -/
  | write (i : ι) (t : BusThread) (n : Nat)
  /-- The peer is marked dead. -/
  | drop (i j : ι)
  /-- The next line of a connection is handed over. -/
  | handle (c : Nat)

namespace Mesh

/-- The message of `connect_peer`. -/
def joinText (id : NodeOrigin) (clientPort : Int32) : List UInt8 :=
  snprintf 256 ((CStr.lit "JOIN ").bytes ++ id.text.bytes ++ 32 :: decimalInt clientPort.toInt
    ++ [10])

/-- The message of `hb_thread`. -/
def hbText (version : UInt64) : List UInt8 :=
  (clusterBuildMsg 256 .heartbeat (.lit "") (.lit "") (some ⟨version, 0, .blank⟩)).getD []

/-- Nodes that have just started. -/
def start (conf : ι → NodeConf) : Mesh ι S where
  node i := ⟨.opened (conf i).myId (conf i).path (conf i).file, (conf i).clientPort, .init,
    fun _ => none, fun _ => none, [], fun _ => [], fun _ => none⟩
  links := []

variable [DecidableEq ι]

def setNode (s : Mesh ι S) (i : ι) (n : MeshNode ι S) : Mesh ι S :=
  { s with node := Function.update s.node i n }

/-- `write` on a descriptor of a node; one that is closed takes nothing. -/
def writeFd (s : Mesh ι S) (i : ι) (fd : Nat) (text : List UInt8) (n : Nat) : Mesh ι S :=
  match (s.node i).fds fd with
  | none => s
  | some c => { s with links := s.links.modify c (.write text n) }

variable [LinearOrder S]

/-- A node serves a request; what it enqueues goes to the queue. -/
def serve (n : MeshNode ι S) (req : Request S) : MeshNode ι S :=
  let srv := (n.srv.serve req).1
  { n with
    srv := srv
    queue := (srv.enqueued.drop n.srv.enqueued.length).foldl .replEnqueue n.queue }

def step (s : Mesh ι S) : MeshAct ι S → Mesh ι S
  | .line i w ps fd text => s.setNode i (serve (s.node i) (.line w ps fd text))
  | .expire i now rand => s.setNode i (serve (s.node i) (.expire now rand))
  | .take i =>
    match (s.node i).queue.replTake with
    | (queue, some (some item)) =>
      s.setNode i { s.node i with
        queue := queue, text := Function.update (s.node i).text .repl item }
    | (queue, _) => s.setNode i { s.node i with queue := queue }
  | .beat i =>
    s.setNode i { s.node i with
      text := Function.update (s.node i).text .hb (hbText (s.node i).srv.db.dbVersion) }
  | .connectPeer i j fd =>
    match (s.node i).fds fd with
    | some _ => s
    | none =>
      { s.setNode i { s.node i with
          fds := Function.update (s.node i).fds fd (some s.links.length)
          out := Function.update (s.node i).out j (some fd)
          hello := fd :: (s.node i).hello } with
        links := s.links ++ [⟨i, j, [], 0, false⟩] }
  | .greet i fd n =>
    if fd ∈ (s.node i).hello then
      (s.setNode i { s.node i with hello := (s.node i).hello.erase fd }).writeFd i fd
        (joinText (s.node i).srv.myId (s.node i).clientPort) n
    else s
  | .choose i t j =>
    s.setNode i { s.node i with
      chosen := Function.update (s.node i).chosen t ((s.node i).out j) }
  | .write i t n =>
    match (s.node i).chosen t with
    | none => s
    | some fd =>
      (s.setNode i { s.node i with
        chosen := Function.update (s.node i).chosen t none }).writeFd i fd ((s.node i).text t) n
  | .drop i j =>
    match (s.node i).out j with
    | none => s
    | some fd =>
      s.setNode i { s.node i with
        fds := Function.update (s.node i).fds fd none
        out := Function.update (s.node i).out j none }
  | .handle c =>
    match s.links[c]?.bind fun l => l.next?.map fun line => (l.dst, line) with
    | none => s
    | some (j, line) =>
      let n := handleLine ⟨(s.node j).srv.db, (s.node j).srv.crashed⟩ line
      { s.setNode j { s.node j with
          srv := { (s.node j).srv with db := n.db, crashed := n.crashed } } with
        links := s.links.modify c fun l => { l with handled := l.handled + 1 } }

def run (s : Mesh ι S) (as : List (MeshAct ι S)) : Mesh ι S := as.foldl step s

end Mesh

end AntzKV
