/-
AntzKV.Cluster.Peers — the peers of a running node: what the connections
of the bus, `connect_peer`, `cluster_send` and the heartbeat daemon do to
them.

An action is a section under the lock of a peer or of the list, an
`accept`, a `close`, or a tick of the clock; `Enabled` says when it can
come. `peers_lock` is held by the daemon while it goes through the list,
and shared by the threads inside `connect_peer`; an action that needs it
waits for them. Every connection has a `Handler`, the thread that runs
`handle_client` for it; its descriptor is free for the next `accept` when
it is closed, which is before the thread has gone through the peers.
-/
import AntzKV.Cluster.Bus
import AntzKV.Cluster.Conf

namespace AntzKV

open Scanf (scanStr scanUll scanLld)

/-- `CLUSTER_DEAD_MS` -/
def clusterDeadMs : UInt64 := 2000

/-! ## Messages about peers -/

/-- `parse_join`: the id and the client port. -/
def parseJoin (rest : List UInt8) : Option (NodeOrigin × Int32) := do
  let (id, s) ← scanStr (nodeOriginLen - 1) rest
  let (clientPort, _) ← scanLld s
  some (.ofCStr (.ofBuf id), .ofInt clientPort)

/-- A line that `handle_client` takes to the list of peers. -/
inductive PeerMsg where
  | heartbeat (v : UInt64)
  | join (id : NodeOrigin)
  deriving DecidableEq

/-- The branches HEARTBEAT and JOIN of `handle_client`, when the line
parses. -/
def peerMsg (line : List UInt8) : Option PeerMsg :=
  match clusterParseCmd (line.take (busBufSize - 1)) busBufSize with
  | (.heartbeat, rest) => (scanUll rest).map fun v => .heartbeat (.ofNat v.1)
  | (.join, rest) => (parseJoin rest).map fun j => .join j.1
  | _ => none

/-! ## The list of peers -/

/-- `cluster_peer_t`; no descriptor is -1. -/
structure ClusterPeer where
  info : ClusterNodeConf
  outFd : Int
  inFd : Int
  lastSeen : UInt64
  lastVersion : UInt64
  alive : Bool
  deriving DecidableEq

namespace ClusterPeer

/-- The section of `register_incoming_fd`. -/
def registerIncomingFd (fd : Int) (now : UInt64) (p : ClusterPeer) : ClusterPeer :=
  { p with inFd := fd, lastSeen := now, alive := true }

/-- The section of HEARTBEAT, on the peer that matches. -/
def heartbeat (fd : Int) (now v : UInt64) (p : ClusterPeer) : ClusterPeer :=
  { p with lastSeen := now, inFd := if p.inFd < 0 then fd else p.inFd, lastVersion := v }

/-- The last section of `connect_peer`. -/
def connect (fd : Int) (now : UInt64) (p : ClusterPeer) : ClusterPeer :=
  { p with outFd := fd, lastSeen := now, alive := true }

/-- The section of `cluster_send` after a short `write`, and that of the
daemon. -/
def markDead (p : ClusterPeer) : ClusterPeer :=
  { p with alive := false, outFd := if 0 ≤ p.outFd then -1 else p.outFd }

/-- The section at the end of `handle_client`. -/
def clearFd (fd : Int) (p : ClusterPeer) : ClusterPeer :=
  if p.inFd = fd then { p with inFd := -1 } else p

/-- What the daemon finds out about a peer. -/
def isDead (now : UInt64) (p : ClusterPeer) : Bool :=
  p.alive && decide (now - p.lastSeen > clusterDeadMs)

end ClusterPeer

/-- `find_peer` -/
def findPeer (peers : List ClusterPeer) (id : NodeOrigin) : Option Nat :=
  peers.findIdx? fun p => p.info.id == id

/-- The scan of HEARTBEAT; `peerId` is what the connection has said last. -/
def heartbeatPeer (peers : List ClusterPeer) (fd : Int) (peerId : Option NodeOrigin) : Option Nat :=
  peers.findIdx? fun p => p.inFd == fd || peerId == some p.info.id

/-! ## The node -/

inductive HandlerStage where
  | reading
  | closed
  | done
  deriving DecidableEq

/-- The thread of a connection: `identified` and `peer_id` are `peerId`. -/
structure Handler where
  fd : Int
  stage : HandlerStage
  peerId : Option NodeOrigin
  deriving DecidableEq

/-- Where `hb_thread` is: before it reads `now`, before it has the lock,
at a peer, and at a peer that it has found dead. -/
inductive HbThread where
  | beating
  | ready (now : UInt64)
  | scanning (now : UInt64) (i : Nat)
  | marking (now : UInt64) (i : Nat)
  deriving DecidableEq

/-- The daemon has the list to itself. -/
def HbThread.holds : HbThread → Bool
  | .beating => false
  | .ready _ => false
  | .scanning _ _ => true
  | .marking _ _ => true

/-- `connecting` has the peers for which a thread is between the sections
of `connect_peer`. -/
structure ClusterRun where
  clock : UInt64
  peers : List ClusterPeer
  handlers : List Handler
  connecting : List Nat
  daemon : HbThread

/-- The peers as `cluster_init` makes them. -/
def ClusterState.start (cs : ClusterState) (clock : UInt64) : ClusterRun where
  clock := clock
  peers := cs.peers.map fun info => ⟨info, -1, -1, 0, 0, false⟩
  handlers := []
  connecting := []
  daemon := .beating

inductive ClusterAct where
  | tick (now : UInt64)
  | accept (fd : Int)
  | line (c : Nat) (text : List UInt8)
  | close (c : Nat)
  | clear (c : Nat)
  /-- The first section of `connect_peer`. -/
  | connectPeer (i : Nat)
  /-- The rest of it; the descriptor is `none` when there is no connection. -/
  | connected (i : Nat) (fd : Option Int)
  /-- A `write` of `cluster_send` fell short, at any time. -/
  | sendFailed (i : Nat)
  /-- The daemon's next step. -/
  | hb

namespace ClusterRun

/-- Nobody has the list. -/
def Unlocked (s : ClusterRun) : Prop := s.connecting = [] ∧ s.daemon.holds = false

instance (s : ClusterRun) : Decidable s.Unlocked := inferInstanceAs (Decidable (_ ∧ _))

/-- The thread of the connection is there. -/
def At (s : ClusterRun) (c : Nat) (stage : HandlerStage) : Prop :=
  (s.handlers[c]?).map (·.stage) = some stage

instance (s : ClusterRun) (c : Nat) (stage : HandlerStage) : Decidable (s.At c stage) :=
  inferInstanceAs (Decidable (_ = _))

/-- The action can come: the clock does not go backwards, a descriptor of
`accept` is not open, and nobody takes a lock that another holds. -/
def Enabled (s : ClusterRun) : ClusterAct → Prop
  | .tick now => s.clock ≤ now
  | .accept fd => 0 ≤ fd ∧ ∀ h ∈ s.handlers, h.stage = .reading → h.fd ≠ fd
  | .line c text =>
    s.At c .reading ∧ LineFraming.IsLine text ∧ ((peerMsg text).isSome → s.Unlocked)
  | .close c => s.At c .reading
  | .clear c => s.At c .closed ∧ s.Unlocked
  | .connectPeer i => i < s.peers.length ∧ s.daemon.holds = false
  | .connected i fd => i ∈ s.connecting ∧ 0 ≤ fd.getD 0
  | .sendFailed i => i < s.peers.length ∧ s.daemon.holds = false
  | .hb => ∀ now, s.daemon = .ready now → s.connecting = []

instance (s : ClusterRun) : (a : ClusterAct) → Decidable (s.Enabled a)
  | .tick now => inferInstanceAs (Decidable (s.clock ≤ now))
  | .accept fd =>
    inferInstanceAs (Decidable (0 ≤ fd ∧ ∀ h ∈ s.handlers, h.stage = .reading → h.fd ≠ fd))
  | .line c text =>
    have : Decidable (LineFraming.IsLine text) :=
      decidable_of_iff ((text.all fun b => b != 0 && b != 10) = true)
        (by simp [LineFraming.IsLine])
    inferInstanceAs (Decidable
      (s.At c .reading ∧ LineFraming.IsLine text ∧ ((peerMsg text).isSome → s.Unlocked)))
  | .close c => inferInstanceAs (Decidable (s.At c .reading))
  | .clear c => inferInstanceAs (Decidable (s.At c .closed ∧ s.Unlocked))
  | .connectPeer i => inferInstanceAs (Decidable (i < s.peers.length ∧ s.daemon.holds = false))
  | .connected i fd => inferInstanceAs (Decidable (i ∈ s.connecting ∧ 0 ≤ fd.getD 0))
  | .sendFailed i => inferInstanceAs (Decidable (i < s.peers.length ∧ s.daemon.holds = false))
  | .hb =>
    match h : s.daemon with
    | .ready _ => decidable_of_iff (s.connecting = []) (by simp [Enabled, h])
    | .beating => isTrue (by simp [Enabled, h])
    | .scanning _ _ => isTrue (by simp [Enabled, h])
    | .marking _ _ => isTrue (by simp [Enabled, h])

/-- The peer whose `last_seen` the action sets. -/
def sees (s : ClusterRun) : ClusterAct → Option Nat
  | .line c text =>
    match s.handlers[c]?, peerMsg text with
    | some h, some (.heartbeat _) => heartbeatPeer s.peers h.fd h.peerId
    | some _, some (.join id) => findPeer s.peers id
    | _, _ => none
  | .connected i (some _) => some i
  | _ => none

/-- A section on the peer that a search has found. -/
def onPeer (s : ClusterRun) (i : Option Nat) (f : ClusterPeer → ClusterPeer) : ClusterRun :=
  match i with
  | none => s
  | some i => { s with peers := s.peers.modify i f }

theorem getElem?_onPeer (s : ClusterRun) (o : Option Nat) (f : ClusterPeer → ClusterPeer) (i : Nat) :
    (s.onPeer o f).peers[i]? = if o = some i then (s.peers[i]?).map f else s.peers[i]? := by
  cases o with
  | none => rfl
  | some j =>
    rw [onPeer, List.getElem?_modify]
    by_cases hij : j = i
    · simp [hij]
    · simp [hij]

theorem onPeer_frame (s : ClusterRun) (o : Option Nat) (f : ClusterPeer → ClusterPeer) :
    (s.onPeer o f).clock = s.clock ∧ (s.onPeer o f).daemon = s.daemon ∧
      (s.onPeer o f).connecting = s.connecting ∧ (s.onPeer o f).handlers = s.handlers := by
  cases o <;> exact ⟨rfl, rfl, rfl, rfl⟩

/-- A handler goes on. -/
def onHandler (s : ClusterRun) (c : Nat) (f : Handler → Handler) : ClusterRun :=
  { s with handlers := s.handlers.modify c f }

/-- The daemon's next step. -/
def hbStep (s : ClusterRun) : ClusterRun :=
  match s.daemon with
  | .beating => { s with daemon := .ready s.clock }
  | .ready now => { s with daemon := .scanning now 0 }
  | .scanning now i =>
    match s.peers[i]? with
    | none => { s with daemon := .beating }
    | some p => { s with daemon := if p.isDead now then .marking now i else .scanning now (i + 1) }
  | .marking now i =>
    { s with peers := s.peers.modify i .markDead, daemon := .scanning now (i + 1) }

/-- The daemon leaves the connections alone, and of the peers all but the
one it marks. -/
theorem hbStep_frame (s : ClusterRun) : s.hbStep.handlers = s.handlers ∧
    ∃ o, s.hbStep.peers = (s.onPeer o .markDead).peers := by
  unfold hbStep
  split
  · exact ⟨rfl, none, rfl⟩
  · exact ⟨rfl, none, rfl⟩
  · split <;> exact ⟨rfl, none, rfl⟩
  · exact ⟨rfl, some _, rfl⟩

def step (s : ClusterRun) : ClusterAct → ClusterRun
  | .tick now => { s with clock := now }
  | .accept fd => { s with handlers := s.handlers ++ [⟨fd, .reading, none⟩] }
  | .line c text =>
    match s.handlers[c]?, peerMsg text with
    | some h, some (.heartbeat v) =>
      s.onPeer (heartbeatPeer s.peers h.fd h.peerId) (.heartbeat h.fd s.clock v)
    | some h, some (.join id) =>
      (s.onHandler c fun h => { h with peerId := some id }).onPeer (findPeer s.peers id)
        (.registerIncomingFd h.fd s.clock)
    | _, _ => s
  | .close c => s.onHandler c fun h => { h with stage := .closed }
  | .clear c =>
    match s.handlers[c]? with
    | none => s
    | some h =>
      { s.onHandler c fun h => { h with stage := .done } with
        peers := s.peers.map (.clearFd h.fd) }
  | .connectPeer i =>
    if (s.peers[i]?).any (·.outFd < 0) then { s with connecting := i :: s.connecting } else s
  | .connected i fd =>
    { s.onPeer (fd.map fun _ => i) (.connect (fd.getD (-1)) s.clock) with
      connecting := s.connecting.erase i }
  | .sendFailed i => s.onPeer (some i) .markDead
  | .hb => s.hbStep

/-- The node after a run. -/
def run (s : ClusterRun) (as : List ClusterAct) : ClusterRun := as.foldl step s

end ClusterRun

end AntzKV
